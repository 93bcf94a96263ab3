import StoreQuery.Number.Text
import StoreQuery.Proofs.Number.Decimal
import StoreQuery.Proofs.Text.Like

/-!
# Numbers as they are written

A numeral has digits, perhaps a fraction behind a point and perhaps an exponent with its sign.

**A numeral is read as the double nearest to the decimal that its digits and its exponent make**
(`ofText?_numeral`). It is read as a whole number with a sign only if it has neither fraction nor
exponent (`signed?_numeral`) and fits 64 bits (`signed?_ofInt`).

**The data form of a finite double reads back as this double** (`ofText?_toDataText`), and never as
a whole number (`signed?_toDataText`): it is a numeral of its shortest decimal, with a fraction or
an exponent.
-/

namespace StoreQuery

/-! ## Digits -/

namespace Text

variable {cs ds rest : List Char} {c : Char}

/-- All characters of a text are decimal digits. -/
def IsDigits (cs : List Char) : Prop := ∀ c ∈ cs, isDigit c = true

theorem IsDigits.append (h : IsDigits cs) (h' : IsDigits ds) : IsDigits (cs ++ ds) :=
  List.forall_mem_append.2 ⟨h, h'⟩

theorem isDigits_replicate (k : Nat) : IsDigits (List.replicate k '0') := by
  intro c hc
  rw [List.eq_of_mem_replicate hc]
  rfl

theorem digit?_of_isDigit (h : c.isDigit = true) : digit? c = some (c.toNat - '0'.toNat) := by
  rw [Char.isDigit, Bool.and_eq_true, decide_eq_true_eq, decide_eq_true_eq] at h
  exact if_pos h

theorem isDigits_toDigits (n : Nat) : IsDigits (Nat.toDigits 10 n) := by
  intro c hc
  have hdigit := Nat.isDigit_of_mem_toDigits (by decide) (by decide) hc
  rw [isDigit, digit?_of_isDigit hdigit, Option.isSome_some]

theorem digitsValue_append (cs ds : List Char) :
    digitsValue (cs ++ ds) = ds.foldl (fun value c => 10 * value + (digit? c).getD 0)
      (digitsValue cs) := List.foldl_append

theorem digitsValue_toDigits (n : Nat) : digitsValue (Nat.toDigits 10 n) = n := by
  suffices h : ∀ cs : List Char, (∀ c ∈ cs, c.isDigit = true) → ∀ value,
      cs.foldl (fun value c => 10 * value + (digit? c).getD 0) value =
        Nat.ofDigitChars 10 cs value by
    rw [digitsValue, h _ fun c hc => Nat.isDigit_of_mem_toDigits (by decide) (by decide) hc,
      Nat.ofDigitChars_ten_toDigits]
  intro cs hcs
  induction cs with
  | nil => exact fun _ => rfl
  | cons c cs ih =>
    obtain ⟨hc, hcs⟩ := List.forall_mem_cons.1 hcs
    intro value
    rw [List.foldl_cons, Nat.ofDigitChars_cons, digit?_of_isDigit hc, Option.getD_some, ih hcs]

theorem digitsValue_replicate_append (k : Nat) (cs : List Char) :
    digitsValue (List.replicate k '0' ++ cs) = digitsValue cs := by
  induction k with
  | zero => rfl
  | succ k ih => exact ih

theorem digitsValue_append_replicate (cs : List Char) (k : Nat) :
    digitsValue (cs ++ List.replicate k '0') = digitsValue cs * 10 ^ k := by
  induction k with
  | zero => rw [List.replicate_zero, List.append_nil, Nat.pow_zero, Nat.mul_one]
  | succ k ih =>
    rw [List.replicate_succ', ← List.append_assoc, digitsValue_append, ih, Nat.pow_succ,
      ← Nat.mul_assoc, Nat.mul_comm _ 10]
    rfl

theorem nat?_of_isDigits (h : IsDigits cs) (hne : cs ≠ []) : nat? cs = some (digitsValue cs) :=
  if_pos ⟨hne, List.all_eq_true.2 h⟩

theorem nat?_toDigits (n : Nat) : nat? (Nat.toDigits 10 n) = some n := by
  rw [nat?_of_isDigits (isDigits_toDigits n) Nat.toDigits_ne_nil, digitsValue_toDigits]

theorem nat?_eq_none (hmem : c ∈ cs) (hc : isDigit c = false) : nat? cs = none := by
  refine if_neg fun h => ?_
  rw [List.all_eq_true.1 h.2 c hmem] at hc
  cases hc

theorem isDigit_ne (h : isDigit c = true) :
    c ≠ '+' ∧ c ≠ '-' ∧ c.toLower ≠ 'i' ∧ c.toLower ≠ 'n' := by
  have hascii : c.toNat < 0x80 := by
    unfold isDigit digit? at h
    split at h
    · rename_i hrange
      exact Nat.lt_of_le_of_lt hrange.2 (by decide)
    · cases h
  exact forall_ascii (p := fun c => isDigit c = true →
    c ≠ '+' ∧ c ≠ '-' ∧ c.toLower ≠ 'i' ∧ c.toLower ≠ 'n') (by decide) hascii h

end Text

open Text (IsDigits digitsValue nat?)

/-- Digits end where something else stands. -/
theorem Double.takeDigits_append {digits rest : List Char} (h : IsDigits digits)
    (hrest : ∀ c ∈ rest.head?, Text.isDigit c = false) :
    takeDigits (digits ++ rest) = (digits, rest) := by
  have hnone : rest.takeWhile Text.isDigit = [] ∧ rest.dropWhile Text.isDigit = rest := by
    cases rest with
    | nil => exact ⟨rfl, rfl⟩
    | cons c rest =>
      have hc := hrest c rfl
      exact ⟨List.takeWhile_cons_of_neg (by simp [hc]), List.dropWhile_cons_of_neg (by simp [hc])⟩
  rw [takeDigits, List.takeWhile_append_of_pos h, List.dropWhile_append_of_pos h, hnone.1, hnone.2,
    List.append_nil]

/-- A decimal in the data form. -/
def Decimal.dataText (d : Decimal) : String :=
  if d.leading < -5 ∨ 16 ≤ d.leading then d.scientific
  else if 0 ≤ d.exponent then d.positional ++ ".0"
  else d.positional

/-! ## Numerals -/

/-- Digits, at least one of them in front of the point, and an exponent or none. -/
structure Numeral where
  whole : List Char
  fraction : List Char
  exponent : Option Int
  whole_ne_nil : whole ≠ []
  isDigits_whole : IsDigits whole
  isDigits_fraction : IsDigits fraction

namespace Numeral

/-- A fraction with its point; there is no point without digits behind it. -/
def pointed (fraction : List Char) : List Char := if fraction = [] then [] else '.' :: fraction

/-- An exponent with its letter and its sign. -/
def power : Option Int → List Char
  | none => []
  | some e => 'e' :: (if e < 0 then '-' else '+') :: Nat.toDigits 10 e.natAbs

/-- The characters of a numeral. -/
def chars (n : Numeral) : List Char := n.whole ++ (pointed n.fraction ++ power n.exponent)

/-- The rank of the double nearest to what a numeral says. -/
def rank (n : Numeral) : Nat :=
  Double.decimalRank (digitsValue (n.whole ++ n.fraction))
    (n.exponent.getD 0 - (n.fraction.length : Int))

/-- A numeral shows a whole number if it has neither fraction nor exponent. -/
def IsWhole (n : Numeral) : Prop := n.fraction = [] ∧ n.exponent = none

/-- The numeral of a natural number. -/
def ofNat (n : Nat) : Numeral where
  whole := Nat.toDigits 10 n
  fraction := []
  exponent := none
  whole_ne_nil := Nat.toDigits_ne_nil
  isDigits_whole := Text.isDigits_toDigits n
  isDigits_fraction := List.forall_mem_nil _

variable {n : Numeral}

theorem chars_ofNat (k : Nat) : (ofNat k).chars = Nat.toDigits 10 k := List.append_nil _

theorem rank_ofNat (k : Nat) : (ofNat k).rank = Double.nearestRank k 1 := by
  have hexponent : (none : Option Int).getD 0 - (([] : List Char).length : Int) = 0 := rfl
  simp only [rank, ofNat, List.append_nil, Text.digitsValue_toDigits, hexponent,
    Double.decimalRank_zero]

theorem exists_chars_eq (n : Numeral) : ∃ c rest, n.chars = c :: rest ∧ Text.isDigit c = true := by
  obtain ⟨c, cs, hwhole⟩ := List.exists_cons_of_ne_nil n.whole_ne_nil
  refine ⟨c, cs ++ (pointed n.fraction ++ power n.exponent), by rw [chars, hwhole]; rfl, ?_⟩
  exact n.isDigits_whole c (hwhole ▸ List.mem_cons_self)

theorem exponent?_digits (e : Int) :
    Double.exponent? ((if e < 0 then '-' else '+') :: Nat.toDigits 10 e.natAbs) = some e := by
  split
  · rw [Double.exponent?, Text.nat?_toDigits]
    show some (-(e.natAbs : Int)) = some e
    congr 1
    omega
  · rw [Double.exponent?, Text.nat?_toDigits]
    show some (e.natAbs : Int) = some e
    congr 1
    omega

theorem isDigit_head?_power (exponent : Option Int) :
    ∀ c ∈ (power exponent).head?, Text.isDigit c = false := by
  cases exponent with
  | none => nofun
  | some e =>
    rintro c ⟨⟩
    rfl

/-- **A numeral is read as the double nearest to what it says.** -/
theorem unsigned?_chars (negative : Bool) (n : Numeral) :
    Double.unsigned? negative n.chars = some ⟨negative, n.rank⟩ := by
  obtain ⟨whole, fraction, exponent, hne, hwhole, hfraction⟩ := n
  have hpower := isDigit_head?_power exponent
  have hdigits : Double.takeDigits (whole ++ (pointed fraction ++ power exponent)) =
      (whole, pointed fraction ++ power exponent) := by
    refine Double.takeDigits_append hwhole ?_
    by_cases hnil : fraction = []
    · rwa [hnil]
    · rw [pointed, if_neg hnil]
      rintro c ⟨⟩
      rfl
  rw [chars, Double.unsigned?, hdigits]
  by_cases hnil : fraction = []
  · subst hnil
    cases exponent with
    | none => simp [pointed, power, hne, Double.ofDecimal_eq, rank]
    | some e => simp [pointed, power, hne, Double.ofDecimal_eq, rank, exponent?_digits]
  · rw [pointed, if_neg hnil]
    simp only [List.cons_append, Double.takeDigits_append hfraction hpower]
    cases exponent with
    | none => simp [power, hne, Double.ofDecimal_eq, rank]
    | some e => simp [power, hne, Double.ofDecimal_eq, rank, exponent?_digits]

/-- The characters of a numeral behind a minus sign or none. -/
def signed (negative : Bool) (n : Numeral) : List Char :=
  if negative then '-' :: n.chars else n.chars

section Signed

variable {text : String} {negative : Bool}

theorem magnitude?_chars (negative : Bool) (n : Numeral) :
    Double.magnitude? negative n.chars = some ⟨negative, n.rank⟩ := by
  obtain ⟨c, rest, hchars, hc⟩ := n.exists_chars_eq
  obtain ⟨-, -, hi, hn⟩ := Text.isDigit_ne hc
  have hword : ∀ word : String, word.toList.head? = some 'i' ∨ word.toList.head? = some 'n' →
      String.ofList (n.chars.map Char.toLower) ≠ word := by
    rintro _ hhead rfl
    rw [String.toList_ofList, hchars, List.map_cons, List.head?_cons, Option.some_inj,
      Option.some_inj] at hhead
    exact hhead.elim hi hn
  rw [Double.magnitude?]
  simp only [hword "inf" (by decide), hword "infinity" (by decide), hword "nan" (by decide),
    or_self, if_false]
  exact unsigned?_chars negative n

/-- **A numeral with its sign is read as the double nearest to what it says.** -/
theorem ofText?_numeral (h : text.toList = n.signed negative) :
    Double.ofText? text = some ⟨negative, n.rank⟩ := by
  rw [Double.ofText?, h, signed]
  cases negative with
  | true => exact magnitude?_chars true n
  | false =>
    obtain ⟨c, rest, hchars, hc⟩ := n.exists_chars_eq
    obtain ⟨hplus, hminus, -, -⟩ := Text.isDigit_ne hc
    have hread := magnitude?_chars false n
    rw [if_neg Bool.false_ne_true, hchars] at *
    split
    · rename_i heq
      exact absurd (List.cons.inj heq).1 hminus
    · rename_i heq
      exact absurd (List.cons.inj heq).1 hplus
    · exact hread

/-- A numeral with a fraction or an exponent is no list of digits. -/
theorem nat?_chars (h : ¬ n.IsWhole) : nat? n.chars = none := by
  by_cases hfraction : n.fraction = []
  · obtain ⟨e, he⟩ := Option.ne_none_iff_exists'.1 fun hnone => h ⟨hfraction, hnone⟩
    refine Text.nat?_eq_none (c := 'e') ?_ rfl
    rw [chars, he]
    exact List.mem_append_right _ (List.mem_append_right _ List.mem_cons_self)
  · refine Text.nat?_eq_none (c := '.') ?_ rfl
    rw [chars, pointed, if_neg hfraction]
    exact List.mem_append_right _ (List.mem_append_left _ List.mem_cons_self)

theorem signed?_signed (h : text.toList = n.signed negative) : Text.signed? text =
    ((nat? n.chars).map fun k : Nat => if negative then -(k : Int) else k).bind fun i =>
      if Int64.minValue.toInt ≤ i ∧ i ≤ Int64.maxValue.toInt then some (Int64.ofInt i)
      else none := by
  rw [Text.signed?, h, signed]
  congr 1
  cases negative with
  | true =>
    rw [if_pos rfl]
    split
    · rename_i heq
      exact absurd (List.cons.inj heq).1 (by decide)
    · rename_i heq
      rw [← (List.cons.inj heq).2]
      cases nat? n.chars <;> rfl
    · rename_i hminus
      exact absurd rfl (hminus n.chars)
  | false =>
    obtain ⟨c, rest, hchars, hc⟩ := n.exists_chars_eq
    obtain ⟨hplus, hminus, -, -⟩ := Text.isDigit_ne hc
    rw [if_neg Bool.false_ne_true, hchars]
    split
    · rename_i heq
      exact absurd (List.cons.inj heq).1 hplus
    · rename_i heq
      exact absurd (List.cons.inj heq).1 hminus
    · rfl

/-- **A numeral with a fraction or an exponent is read as no whole number.** -/
theorem signed?_numeral (hn : ¬ n.IsWhole) (h : text.toList = n.signed negative) :
    Text.signed? text = none := by
  rw [signed?_signed h, nat?_chars hn]
  rfl

end Signed

/-! ## Whole numbers -/

section Whole

variable {i : Int}

/-- A whole number is written as the numeral of its magnitude. -/
theorem toList_ofInt (i : Int) :
    (Text.ofInt i).toList = (ofNat i.natAbs).signed (decide (i < 0)) := by
  have hdigits : (Text.ofNat i.natAbs).toList = (ofNat i.natAbs).chars := by
    rw [Text.ofNat, String.toList_ofList, chars_ofNat]
  unfold Text.ofInt signed
  by_cases hi : i < 0
  · rw [if_pos hi, if_pos (decide_eq_true hi), String.toList_append, hdigits]
    rfl
  · rw [if_neg hi, if_neg (by simpa using hi), hdigits]

/-- **A whole number is read back if it fits 64 bits with a sign.** -/
theorem signed?_ofInt (i : Int) : Text.signed? (Text.ofInt i) =
    if Int64.minValue.toInt ≤ i ∧ i ≤ Int64.maxValue.toInt then some (Int64.ofInt i) else none := by
  have hsign : (if decide (i < 0) = true then -(i.natAbs : Int) else i.natAbs) = i := by
    simp only [decide_eq_true_eq]
    split <;> omega
  rw [signed?_signed (toList_ofInt i), chars_ofNat, Text.nat?_toDigits, Option.map_some, hsign]
  rfl

/-- **In any case it is read as the double nearest to it.** -/
theorem ofText?_ofInt (i : Int) : Double.ofText? (Text.ofInt i) = some (Double.ofInt i) := by
  rw [ofText?_numeral (toList_ofInt i), rank_ofNat, Double.ofInt]

end Whole

/-! ## Decimals -/

section Decimals

variable {d : Decimal}

/-- Digits followed by zeros and a zero behind the point. -/
theorem exists_chars_whole (h : 0 ≤ d.exponent) : ∃ n : Numeral,
    (d.positional ++ ".0").toList = n.chars ∧ n.rank = d.nearestRank ∧ ¬ n.IsWhole := by
  have hzero : IsDigits ['0'] := Text.isDigits_replicate 1
  let n : Numeral := ⟨Nat.toDigits 10 d.digits ++ List.replicate d.exponent.toNat '0', ['0'], none,
    List.append_ne_nil_of_left_ne_nil Nat.toDigits_ne_nil _,
    (Text.isDigits_toDigits _).append (Text.isDigits_replicate _), hzero⟩
  refine ⟨n, ?_, ?_, fun hwhole => List.cons_ne_nil _ _ hwhole.1⟩
  · rw [Decimal.positional, if_pos h, String.toList_append, String.toList_ofList]
    rfl
  · have hdigits : digitsValue (n.whole ++ n.fraction) =
        d.digits * 10 ^ (d.exponent.toNat + 1) := by
      rw [List.append_assoc, ← List.replicate_succ', Text.digitsValue_append_replicate,
        Text.digitsValue_toDigits]
    have hexponent : n.exponent.getD 0 - (n.fraction.length : Int) + (d.exponent.toNat + 1 : Nat) =
        d.exponent := by
      show (0 : Int) - (1 : Nat) + (d.exponent.toNat + 1 : Nat) = d.exponent
      omega
    rw [rank, hdigits, Double.decimalRank_mul_pow, hexponent, Decimal.nearestRank_eq]

/-- Digits with a point among them, and with zeros in front where there are too few. -/
theorem exists_chars_fraction (h : d.exponent < 0) : ∃ n : Numeral,
    d.positional.toList = n.chars ∧ n.rank = d.nearestRank ∧ ¬ n.IsWhole := by
  let padded := List.replicate (d.exponent.natAbs + 1 - (Nat.toDigits 10 d.digits).length) '0' ++
    Nat.toDigits 10 d.digits
  -- The point stands as far from the end as the exponent says.
  let count := padded.length - d.exponent.natAbs
  have hlength : d.exponent.natAbs + 1 ≤ padded.length := by
    rw [List.length_append, List.length_replicate]
    omega
  have hpadded : IsDigits padded :=
    (Text.isDigits_replicate _).append (Text.isDigits_toDigits _)
  have hplaces : (padded.drop count).length = d.exponent.natAbs := by
    rw [List.length_drop]
    omega
  have hwhole : padded.take count ≠ [] := by
    refine List.ne_nil_of_length_pos ?_
    rw [List.length_take]
    omega
  have hfraction : padded.drop count ≠ [] := by
    refine List.ne_nil_of_length_pos ?_
    omega
  let n : Numeral := ⟨padded.take count, padded.drop count, none, hwhole,
    fun c hc => hpadded c (List.mem_of_mem_take hc),
    fun c hc => hpadded c (List.mem_of_mem_drop hc)⟩
  refine ⟨n, ?_, ?_, fun hnone => hfraction hnone.1⟩
  · rw [Decimal.positional, if_neg (by omega), String.toList_append, String.toList_append,
      String.toList_ofList, String.toList_ofList, chars, pointed, if_neg hfraction, power,
      List.append_nil, List.append_assoc, String.toList_ofList]
    rfl
  · have hdigits : digitsValue (n.whole ++ n.fraction) = d.digits := by
      rw [List.take_append_drop, Text.digitsValue_replicate_append, Text.digitsValue_toDigits]
    have hexponent : n.exponent.getD 0 - (n.fraction.length : Int) = d.exponent := by
      show (0 : Int) - ((padded.drop count).length : Int) = d.exponent
      omega
    rw [rank, hdigits, hexponent, Decimal.nearestRank_eq]

/-- One digit in front of the point, and an exponent. -/
theorem exists_chars_scientific (d : Decimal) : ∃ n : Numeral,
    d.scientific.toList = n.chars ∧ n.rank = d.nearestRank ∧ ¬ n.IsWhole := by
  obtain ⟨c, cs, hcs⟩ := List.exists_cons_of_ne_nil (Nat.toDigits_ne_nil (n := d.digits) (b := 10))
  have hisDigits : IsDigits (c :: cs) := hcs ▸ Text.isDigits_toDigits d.digits
  obtain ⟨hc, hrest⟩ := List.forall_mem_append.1 (show IsDigits ([c] ++ cs) from hisDigits)
  let n : Numeral := ⟨[c], cs, some d.leading, List.cons_ne_nil _ _, hc, hrest⟩
  refine ⟨n, ?_, ?_, fun hnone => Option.some_ne_none _ hnone.2⟩
  · have hsign : (if d.leading < 0 then "-" else "+").toList =
        [if d.leading < 0 then '-' else '+'] := by split <;> rfl
    rw [Decimal.scientific, hcs]
    simp only [String.toList_append, hsign, Text.ofNat, String.toList_ofList, List.append_assoc]
    cases cs with
    | nil =>
      show (String.ofList [c]).toList ++ _ = _
      rw [String.toList_ofList]
      rfl
    | cons second rest =>
      show (String.ofList (c :: '.' :: second :: rest)).toList ++ _ = _
      rw [String.toList_ofList]
      rfl
  · have hdigits : digitsValue (n.whole ++ n.fraction) = d.digits := by
      show digitsValue (c :: cs) = d.digits
      rw [← hcs, Text.digitsValue_toDigits]
    have hexponent : n.exponent.getD 0 - (n.fraction.length : Int) = d.exponent := by
      show d.leading - (cs.length : Int) = d.exponent
      rw [Decimal.leading, Decimal.length, hcs, List.length_cons]
      omega
    rw [rank, hdigits, hexponent, Decimal.nearestRank_eq]

theorem exists_chars_dataText (d : Decimal) : ∃ n : Numeral,
    d.dataText.toList = n.chars ∧ n.rank = d.nearestRank ∧ ¬ n.IsWhole := by
  unfold Decimal.dataText
  split
  · exact exists_chars_scientific d
  · split
    · rename_i hexponent
      exact exists_chars_whole hexponent
    · rename_i hexponent
      exact exists_chars_fraction (Int.not_le.1 hexponent)

end Decimals

end Numeral

namespace Double

variable {x : Double}

/-- **What is written of a finite double is a numeral, with a fraction or an exponent.** -/
theorem exists_numeral (h : x.isFinite = true) : ∃ n : Numeral,
    x.toDataText.toList = n.signed x.negative ∧ n.rank = x.rank ∧ ¬ n.IsWhole := by
  obtain ⟨n, hchars, hrank, hwhole⟩ :=
    Numeral.exists_chars_dataText (shortestDecimal .even x.rank)
  have htext : x.toDataText =
      (if x.negative then "-" else "") ++ (shortestDecimal .even x.rank).dataText := rfl
  refine ⟨n, ?_, hrank.trans (nearestRank_shortestDecimal .even (of_decide_eq_true h)), hwhole⟩
  rw [htext, String.toList_append, hchars, Numeral.signed]
  cases x.negative <;> rfl

/-- **The data form of a finite double reads back as this double.** -/
theorem ofText?_toDataText (h : x.isFinite = true) : ofText? x.toDataText = some x := by
  obtain ⟨n, htext, hrank, -⟩ := exists_numeral h
  rw [Numeral.ofText?_numeral htext, hrank]

theorem signed?_toDataText (h : x.isFinite = true) : Text.signed? x.toDataText = none := by
  obtain ⟨n, htext, -, hwhole⟩ := exists_numeral h
  exact Numeral.signed?_numeral hwhole htext

end Double

end StoreQuery
