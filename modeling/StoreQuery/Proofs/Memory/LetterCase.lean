import StoreQuery.Proofs.Memory.Reading
import StoreQuery.Proofs.Text.Lower
import StoreQuery.Proofs.Text.Split

/-!
# Texts with and without regard to case

An operator that ignores case looks for the small letters of its part in the small letters of the
text. Both are lowered as wholes. So a capital sigma at the end of the part is a final sigma there,
while in the text another letter may follow it.

**Where a part stands in a text, an operator that ignores case accepts the text if the part keeps
its sigmas there** (`ignoringCase_accepts`), and for the beginning, the end and the whole of a text
only then. So ignoring case accepts all that is accepted with regard to case exactly if no place
that the operator looks at changes a sigma of the part, as with parts without a capital sigma and
with whole texts. Otherwise a text that begins with the part may be rejected (`build_sigma`).
-/

namespace StoreQuery.Memory

open Text (Keeps lowerChars lowerIn)

/-- Where a part is looked for in a text. -/
inductive Site where
  | whole
  | beginning
  | ending
  | anywhere
  deriving DecidableEq, Repr

namespace Site

/-- The operator that looks there with regard to case. -/
def operator : Site → Operator
  | whole => .eq
  | beginning => .starts
  | ending => .ends
  | anywhere => .contains

/-- The operator that looks there and ignores case. -/
def ignoringCase : Site → Operator
  | whole => .eqLower
  | beginning => .startsLower
  | ending => .endsLower
  | anywhere => .containsLower

/-- What may stand in front of the part and behind it. -/
def Allows (site : Site) (before after : List Char) : Prop :=
  match site with
  | whole => before = [] ∧ after = []
  | beginning => before = []
  | ending => after = []
  | anywhere => True

/-- A part stands in a text between two others, the one in front of it read backwards, and it is
looked for there. -/
structure Stands (site : Site) (before after part text : List Char) : Prop where
  allowed : site.Allows before after
  eq : text = before.reverse ++ part ++ after

/-- A part is found in a text. -/
def Finds (site : Site) (part text : List Char) : Prop :=
  ∃ before after, site.Stands before after part text

variable {site : Site} {before after part text : List Char}

theorem finds_whole_iff : whole.Finds part text ↔ text = part := by
  constructor
  · rintro ⟨_, _, ⟨rfl, rfl⟩, h⟩
    simpa using h
  · rintro rfl
    exact ⟨[], [], ⟨rfl, rfl⟩, by simp⟩

theorem finds_beginning_iff : beginning.Finds part text ↔ part <+: text := by
  constructor
  · rintro ⟨_, after, rfl, rfl⟩
    exact List.prefix_append part after
  · rintro ⟨after, rfl⟩
    exact ⟨[], after, rfl, rfl⟩

theorem finds_ending_iff : ending.Finds part text ↔ part <:+ text := by
  constructor
  · rintro ⟨before, _, rfl, rfl⟩
    rw [List.append_nil]
    exact List.suffix_append before.reverse part
  · rintro ⟨front, rfl⟩
    exact ⟨front.reverse, [], rfl, by simp⟩

theorem finds_anywhere_iff : anywhere.Finds part text ↔ part <:+: text := by
  constructor
  · rintro ⟨before, after, -, rfl⟩
    exact List.infix_append before.reverse part after
  · rintro ⟨front, after, rfl⟩
    exact ⟨front.reverse, after, trivial, by simp⟩

/-! ## Small letters where a part stands -/

theorem Stands.finds_lowerIn (h : site.Stands before after part text) :
    site.Finds (lowerIn before after part) (lowerChars [] text) := by
  obtain ⟨hallowed, rfl⟩ := h
  refine ⟨(lowerIn [] (part ++ after) before.reverse).reverse,
    lowerChars (part.reverse ++ before) after, ?_, ?_⟩
  · cases site with
    | whole =>
      obtain ⟨rfl, rfl⟩ := hallowed
      exact ⟨rfl, rfl⟩
    | beginning =>
      obtain rfl := hallowed
      rfl
    | ending =>
      obtain rfl := hallowed
      rfl
    | anywhere => trivial
  · rw [List.append_assoc, Text.lowerChars_append, Text.lowerChars_append, List.reverse_reverse,
      List.reverse_reverse, List.append_nil, List.append_assoc]

/-- Found in two texts of one length, at one end of a text, two parts are the same. -/
theorem Finds.eq_of_length {other : List Char} (hsite : site ≠ .anywhere)
    (h : site.Finds part text) (h' : site.Finds other text) (hlength : part.length = other.length) :
    part = other := by
  cases site with
  | whole => rw [← finds_whole_iff.1 h, ← finds_whole_iff.1 h']
  | beginning =>
    obtain ⟨rest, rfl⟩ := finds_beginning_iff.1 h
    obtain ⟨rest', heq⟩ := finds_beginning_iff.1 h'
    exact (List.append_inj_left heq hlength.symm).symm
  | ending =>
    obtain ⟨front, rfl⟩ := finds_ending_iff.1 h
    obtain ⟨front', heq⟩ := finds_ending_iff.1 h'
    exact (List.append_inj_right' heq hlength.symm).symm
  | anywhere => exact absurd rfl hsite

/-- **At one end of a text a part is found without regard to case exactly if it keeps
its sigmas.** -/
theorem Stands.finds_lowerChars_iff (hsite : site ≠ .anywhere)
    (h : site.Stands before after part text) :
    site.Finds (lowerChars [] part) (lowerChars [] text) ↔ Keeps before after part := by
  rw [← Text.lowerIn_eq_lowerChars_iff]
  constructor
  · intro hfinds
    refine h.finds_lowerIn.eq_of_length hsite hfinds ?_
    rw [Text.lowerChars_eq_lowerIn]
    exact Text.length_lowerIn ..
  · intro hkeeps
    rw [← hkeeps]
    exact h.finds_lowerIn

/-- A part is found without regard to case wherever it is found, if no place changes its sigmas, and
only then. -/
theorem forall_finds_lowerChars_iff :
    (∀ text, site.Finds part text → site.Finds (lowerChars [] part) (lowerChars [] text)) ↔
      ∀ before after, site.Allows before after → Keeps before after part := by
  constructor
  · intro hall before after hallowed
    have hstands : site.Stands before after part (before.reverse ++ part ++ after) :=
      ⟨hallowed, rfl⟩
    by_cases hsite : site = .anywhere
    · subst hsite
      by_contra hchanged
      obtain ⟨text, hinside, hnot⟩ := Text.exists_infix_of_not_keeps hchanged
      exact hnot (finds_anywhere_iff.1 (hall text (finds_anywhere_iff.2 hinside)))
    · exact (hstands.finds_lowerChars_iff hsite).1 (hall _ ⟨before, after, hstands⟩)
  · rintro hkeeps text ⟨before, after, hstands⟩
    rw [← Text.lowerIn_eq_lowerChars_iff.2 (hkeeps before after hstands.allowed)]
    exact hstands.finds_lowerIn

end Site

/-! ## Operators -/

/-- An operator accepts a text for a part. -/
def Accepts (op : Operator) (text part : String) : Prop :=
  evaluate (some (.str text)) op (.one (.text part)) = true

theorem accepts_operator_iff (site : Site) (text part : String) :
    Accepts site.operator text part ↔ site.Finds part.toList text.toList := by
  cases site with
  | whole =>
    rw [Site.finds_whole_iff, String.toList_inj, ← Std.compare_eq_iff_eq (α := String)]
    show (some (compare text part) == some .eq) = true ↔ compare text part = .eq
    rw [beq_iff_eq, Option.some_inj]
  | beginning => exact List.isPrefixOf_iff_prefix.trans Site.finds_beginning_iff.symm
  | ending => exact List.isSuffixOf_iff_suffix.trans Site.finds_ending_iff.symm
  | anywhere => exact Text.containsChars_iff.trans Site.finds_anywhere_iff.symm

theorem accepts_ignoringCase_iff (site : Site) (text part : String) :
    Accepts site.ignoringCase text part ↔
      site.Finds (lowerChars [] part.toList) (lowerChars [] text.toList) := by
  rw [← String.toList_ofList (l := lowerChars [] part.toList),
    ← String.toList_ofList (l := lowerChars [] text.toList)]
  cases site with
  | whole => exact beq_iff_eq.trans Site.finds_whole_iff.symm
  | beginning => exact List.isPrefixOf_iff_prefix.trans Site.finds_beginning_iff.symm
  | ending => exact List.isSuffixOf_iff_suffix.trans Site.finds_ending_iff.symm
  | anywhere => exact Text.containsChars_iff.trans Site.finds_anywhere_iff.symm

/-- **Ignoring case accepts what is accepted with regard to case, exactly as far as the part keeps
its sigmas where it stands.** -/
theorem ignoringCase_accepts (site : Site) (part : String) :
    (∀ text, Accepts site.operator text part ↔
      ∃ before after, site.Stands before after part.toList text.toList) ∧
    (∀ text before after, site.Stands before after part.toList text.toList →
      (Keeps before after part.toList → Accepts site.ignoringCase text part) ∧
      (site ≠ .anywhere →
        (Accepts site.ignoringCase text part ↔ Keeps before after part.toList))) ∧
    ((∀ text, Accepts site.operator text part → Accepts site.ignoringCase text part) ↔
      ∀ before after, site.Allows before after → Keeps before after part.toList) ∧
    (site = .whole ∨ 'Σ' ∉ part.toList →
      ∀ text, Accepts site.operator text part → Accepts site.ignoringCase text part) := by
  have hforall : (∀ text, Accepts site.operator text part → Accepts site.ignoringCase text part) ↔
      ∀ before after, site.Allows before after → Keeps before after part.toList := by
    rw [← Site.forall_finds_lowerChars_iff]
    simp only [accepts_operator_iff, accepts_ignoringCase_iff]
    exact ⟨fun h text => by simpa using h (String.ofList text), fun h text => h text.toList⟩
  refine ⟨fun text => accepts_operator_iff site text part,
    fun text before after hstands => ⟨?_, ?_⟩, hforall,
    fun hpart => hforall.2 fun before after hallowed => ?_⟩
  · intro hkeeps
    rw [accepts_ignoringCase_iff, ← Text.lowerIn_eq_lowerChars_iff.2 hkeeps]
    exact hstands.finds_lowerIn
  · intro hsite
    rw [accepts_ignoringCase_iff]
    exact hstands.finds_lowerChars_iff hsite
  · rcases hpart with rfl | hsigma
    · obtain ⟨rfl, rfl⟩ := hallowed
      exact Text.keeps_nil part.toList
    · exact Text.keeps_of_notMem hsigma

/-- A row with a text in capitals. -/
def capitals : Json := .obj [("name", .str "ΑΣΑ")]

/-- Asks for the rows whose name begins with a part of it. -/
def beginningOfName (op : Operator) : Request where
  condition := .leaf ⟨⟨["name"]⟩, op, .one (.text "ΑΣ")⟩

/-- **A text begins with a part, but not without regard to case.** -/
theorem build_sigma :
    build [] [capitals] (beginningOfName .starts) = .ok [capitals] ∧
      build [] [capitals] (beginningOfName .startsLower) = .ok [] ∧
      ¬ (Accepts .starts "ΑΣΑ" "ΑΣ" → Accepts .startsLower "ΑΣΑ" "ΑΣ") := by
  have hexact : Accepts .starts "ΑΣΑ" "ΑΣ" := by
    unfold Accepts
    decide +kernel
  have hlower : ¬ Accepts .startsLower "ΑΣΑ" "ΑΣ" := by
    unfold Accepts
    decide +kernel
  refine ⟨?_, ?_, fun h => hlower (h hexact)⟩
  · exact (build_leaf rfl _).trans (congrArg _ (List.filter_cons_of_pos hexact))
  · exact (build_leaf rfl _).trans (congrArg _ (List.filter_cons_of_neg hlower))

end StoreQuery.Memory
