import Mathlib.Data.List.DropRight
import StoreQuery.Proofs.Number.Numeral

/-!
# Whole numbers between blanks

A text stands for a number of 64 bits if it has nothing but its digits, perhaps a plus sign in front
of them, and blanks at both ends (`IsWord`). Zeros may stand in front of the digits. What does not
fit into 64 bits is no such number.

**The texts that are read as a number are those that stand for it** (`word?_trim_eq_some_iff`).
-/

namespace StoreQuery.Text

variable {cs before after : List Char} {text : String} {n : UInt64}

/-! ## Blanks -/

/-- All characters are blanks. -/
def IsBlanks (cs : List Char) : Prop := ∀ c ∈ cs, isBlank c = true

theorem trimChars_eq (cs : List Char) : trimChars cs = (cs.dropWhile isBlank).rdropWhile isBlank :=
  rfl

theorem exists_trimChars (cs : List Char) :
    ∃ before after, IsBlanks before ∧ IsBlanks after ∧ cs = before ++ trimChars cs ++ after := by
  refine ⟨cs.takeWhile isBlank, (cs.dropWhile isBlank).rtakeWhile isBlank, ?_, ?_, ?_⟩
  · intro c hc
    exact List.mem_takeWhile_imp hc
  · intro c hc
    exact List.mem_rtakeWhile_imp hc
  · rw [List.append_assoc, trimChars_eq, List.rdropWhile_append_rtakeWhile,
      List.takeWhile_append_dropWhile]

theorem trimChars_append (hbefore : IsBlanks before) (hafter : IsBlanks after)
    (h : ∀ c ∈ cs, isBlank c = false) : trimChars (before ++ cs ++ after) = cs := by
  have hback : cs.rdropWhile isBlank = cs :=
    List.rdropWhile_eq_self_iff.2 fun hne => by simp [h _ (List.getLast_mem hne)]
  rw [trimChars_eq, List.append_assoc, List.dropWhile_append_of_pos hbefore]
  cases cs with
  | nil => simp [List.dropWhile_eq_nil_iff.2 hafter]
  | cons c cs =>
    rw [List.cons_append, List.dropWhile_cons_of_neg (by simp [h c])]
    rw [List.rdropWhile, ← List.cons_append, List.reverse_append,
      List.dropWhile_append_of_pos fun c hc => hafter c (List.mem_reverse.1 hc)]
    exact hback

theorem isBlank_of_isDigit {c : Char} (h : isDigit c = true) : isBlank c = false := by
  unfold isDigit digit? at h
  split at h
  · rename_i hrange
    have hlow : 48 ≤ c.toNat := hrange.1
    have hhigh : c.toNat ≤ 57 := hrange.2
    simp [isBlank]
    omega
  · cases h

/-! ## Numbers -/

/-- Digits of a number, at least one. -/
structure AreDigitsOf (digits : List Char) (n : Nat) : Prop where
  ne_nil : digits ≠ []
  isDigits : IsDigits digits
  value : digitsValue digits = n

/-- A text stands for a number: it consists of the digits of the number, with nothing or a plus sign
in front of them, and of blanks around that. -/
inductive IsWord : String → UInt64 → Prop
  | mk {before sign digits after : List Char} {n : UInt64} (hbefore : IsBlanks before)
    (hsign : sign = [] ∨ sign = ['+']) (hdigits : AreDigitsOf digits n.toNat)
    (hafter : IsBlanks after) : IsWord (String.ofList (before ++ (sign ++ digits) ++ after)) n

theorem nat?_eq_some_iff {m : Nat} : nat? cs = some m ↔ AreDigitsOf cs m := by
  constructor
  · intro h
    rw [nat?] at h
    split at h
    · rename_i hcs
      exact ⟨hcs.1, List.all_eq_true.1 hcs.2, Option.some.inj h⟩
    · cases h
  · rintro ⟨hne, hdigits, rfl⟩
    exact nat?_of_isDigits hdigits hne

theorem bind_ofNat_eq_some_iff {number : Option Nat} :
    (number.bind fun m => if m < UInt64.size then some (UInt64.ofNat m) else none) = some n ↔
      number = some n.toNat := by
  constructor
  · intro h
    obtain ⟨m, hm, h⟩ := Option.bind_eq_some_iff.1 h
    split at h
    · rename_i hfits
      rw [hm, ← Option.some.inj h, UInt64.toNat_ofNat_of_lt' hfits]
    · cases h
  · rintro rfl
    simp [UInt64.toNat_lt_size]

/-- A text without blanks is read if it is digits, perhaps behind a plus sign. -/
theorem word?_eq_some_iff : word? text = some n ↔ ∃ sign digits, (sign = [] ∨ sign = ['+']) ∧
    AreDigitsOf digits n.toNat ∧ text.toList = sign ++ digits := by
  rw [word?, bind_ofNat_eq_some_iff, nat?_eq_some_iff]
  constructor
  · intro h
    split at h
    · rename_i digits htext
      exact ⟨['+'], digits, .inr rfl, h, htext⟩
    · exact ⟨[], text.toList, .inl rfl, h, rfl⟩
  · rintro ⟨sign, digits, rfl | rfl, hdigits, htext⟩
    · rw [htext]
      split
      · rename_i rest hplus
        -- A plus sign is no digit.
        have hdigit := hdigits.isDigits '+' (by rw [← List.nil_append digits, hplus]; simp)
        exact absurd hdigit (by decide)
      · exact hdigits
    · rw [htext]
      exact hdigits

/-- **A text is read as a number exactly if it stands for it.** -/
theorem word?_trim_eq_some_iff : word? (trim text) = some n ↔ IsWord text n := by
  rw [word?_eq_some_iff, trim, String.toList_ofList]
  constructor
  · rintro ⟨sign, digits, hsign, hdigits, htrim⟩
    obtain ⟨before, after, hbefore, hafter, htext⟩ := exists_trimChars text.toList
    rw [htrim] at htext
    rw [← String.ofList_toList (s := text), htext]
    exact .mk hbefore hsign hdigits hafter
  · rintro ⟨hbefore, hsign, hdigits, hafter⟩
    refine ⟨_, _, hsign, hdigits, ?_⟩
    rw [String.toList_ofList]
    apply trimChars_append hbefore hafter
    intro c hc
    rcases List.mem_append.1 hc with hc | hc
    · rcases hsign with rfl | rfl
      · cases hc
      · rw [List.mem_singleton.1 hc]
        decide
    · exact isBlank_of_isDigit (hdigits.isDigits c hc)

end StoreQuery.Text
