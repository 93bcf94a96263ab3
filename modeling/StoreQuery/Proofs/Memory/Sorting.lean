import StoreQuery.Proofs.Memory.Pages
import StoreQuery.Proofs.Memory.Reading
import Mathlib.Data.List.Basic

/-!
# Rows in order

The comparison of two rows tells numbers, texts and truth values apart, each among themselves, and
everything else is a tie. So it is reflexive, and it is reversed when the rows change places, but a
value of another type ties with a value and with a greater one: ties do not pass from row to row.

**Where they do.** A key is *uniform* on rows if all of them have values of one type as soon as it
tells two of them apart. The order of one key is transitive on such rows, and on no others. The next
keys decide between rows that tie, so they have to be uniform among those only (`Uniform`).

**What sorting gives.** A way of sorting is correct if it sorts stably wherever the order is
consistent, and inserting row after row is (`insertion_correct`). So uniform rows come in the order
of the keys, in every part of a result that a request shows (`compareRows_uniform`).
-/

namespace StoreQuery

namespace Memory

/-! ## Values that are told apart -/

/-- The place of a value among the values of its type. -/
inductive Place where
  | number (position : Int)
  | text (text : String)
  | truth (value : Bool)

/-- The place of a value. Null, arrays, objects and what is not a number have none. -/
def place? : Option Json → Option Place
  | some (.num n) => if n.toDouble.isNaN then none else some (.number n.toDouble.position)
  | some (.str text) => some (.text text)
  | some (.bool value) => some (.truth value)
  | _ => none

namespace Place

/-- The order of two places of one type; others tie. -/
def order : Place → Place → Ordering
  | number a, number b => compare a b
  | text a, text b => compare a b
  | truth a, truth b => compare a b
  | _, _ => .eq

/-- Whether two places are of one type. -/
def sameType : Place → Place → Bool
  | number _, number _ | text _, text _ | truth _, truth _ => true
  | _, _ => false

variable {p q r : Place}

theorem sameType_symm (h : p.sameType q) : q.sameType p := by
  cases p <;> cases q <;> trivial

theorem sameType_trans (h : p.sameType q) (h' : q.sameType r) : p.sameType r := by
  cases p <;> cases q <;> cases h <;> cases r <;> trivial

theorem order_swap (p q : Place) : q.order p = (p.order q).swap := by
  cases p <;> cases q <;> first | rfl | exact Std.OrientedOrd.eq_swap

theorem sameType_of_order (h : p.order q ≠ .eq) : p.sameType q := by
  cases p <;> cases q <;> trivial

/-- **Places of one type are in a linear order.** -/
theorem order_trans (hpq : p.sameType q) (hqr : q.sameType r) (h : (p.order q).isLE)
    (h' : (q.order r).isLE) : (p.order r).isLE := by
  cases p <;> cases q <;> cases hpq <;> cases r <;> cases hqr <;>
    exact Std.TransOrd.isLE_trans h h'

end Place

/-- Whether two values have places of one type. -/
def OfOneType (x y : Option Json) : Prop := ∃ p ∈ place? x, ∃ q ∈ place? y, p.sameType q

instance (x y : Option Json) : Decidable (OfOneType x y) :=
  inferInstanceAs (Decidable (∃ p ∈ place? x, ∃ q ∈ place? y, p.sameType q))

section Values

variable {x y z : Option Json}

theorem OfOneType.symm : OfOneType x y → OfOneType y x :=
  fun ⟨p, hp, q, hq, h⟩ => ⟨q, hq, p, hp, Place.sameType_symm h⟩

theorem OfOneType.trans (h : OfOneType x y) (h' : OfOneType y z) : OfOneType x z := by
  obtain ⟨p, hp, q, hq, hpq⟩ := h
  obtain ⟨q', hq', r, hr, hqr⟩ := h'
  obtain rfl := Option.mem_unique hq hq'
  exact ⟨p, hp, r, hr, Place.sameType_trans hpq hqr⟩

theorem compareItems_eq (x y : Option Json) : compareItems x y =
    match place? x, place? y with
    | some p, some q => p.order q
    | _, _ => .eq := by
  unfold compareItems
  split
  case h_1 n m =>
    simp only [place?, Double.compare?]
    cases n.toDouble.isNaN <;> cases m.toDouble.isNaN <;> rfl
  case h_2 => rfl
  case h_3 => rfl
  case h_4 hnum htext htruth =>
    rcases x with _ | _ | _ | n | _ | _ | _ <;> rcases y with _ | _ | _ | m | _ | _ | _
    all_goals first
      | rfl
      | exact (hnum _ _ rfl rfl).elim
      | exact (htext _ _ rfl rfl).elim
      | exact (htruth _ _ rfl rfl).elim
      | simp only [place?]
        split_ifs <;> rfl

theorem compareItems_swap (x y : Option Json) : compareItems y x = (compareItems x y).swap := by
  rw [compareItems_eq, compareItems_eq]
  cases place? x <;> cases place? y <;> first | rfl | exact Place.order_swap _ _

theorem ofOneType_of_compareItems (h : compareItems x y ≠ .eq) : OfOneType x y := by
  rw [compareItems_eq] at h
  split at h
  case h_1 p q hp hq => exact ⟨p, hp, q, hq, Place.sameType_of_order h⟩
  case h_2 => exact absurd rfl h

/-- **Values of one type are in a linear order.** -/
theorem compareItems_trans (hxy : OfOneType x y) (hyz : OfOneType y z)
    (h : (compareItems x y).isLE) (h' : (compareItems y z).isLE) : (compareItems x z).isLE := by
  obtain ⟨p, hp, q, hq, hpq⟩ := hxy
  obtain ⟨q', hq', r, hr, hqr⟩ := hyz
  obtain rfl := Option.mem_unique hq hq'
  rw [Option.mem_def] at hp hq hr
  simp only [compareItems_eq, hp, hq, hr] at h h' ⊢
  exact Place.order_trans hpq hqr h h'

end Values

/-! ## One key -/

/-- As soon as a key tells two rows apart, all rows have values of one type there. -/
def UniformBy (key : Order) (rows : List Json) : Prop :=
  ∀ a ∈ rows, ∀ b ∈ rows, compareBy key a b ≠ .eq →
    ∀ c ∈ rows, OfOneType (a.atPath? key.path) (c.atPath? key.path)

section OneKey

variable {key : Order} {a b c : Json} {rows : List Json}

theorem compareBy_ascending (h : key.direction = .ascending) (a b : Json) :
    compareBy key a b = compareItems (a.atPath? key.path) (b.atPath? key.path) := by
  rw [compareBy, h]

theorem compareBy_descending (h : key.direction = .descending) (a b : Json) :
    compareBy key a b = compareItems (b.atPath? key.path) (a.atPath? key.path) := by
  rw [compareBy, h, compareItems_swap (a.atPath? key.path)]

theorem compareBy_swap (key : Order) (a b : Json) :
    compareBy key b a = (compareBy key a b).swap := by
  cases h : key.direction with
  | ascending => rw [compareBy_ascending h, compareBy_ascending h, compareItems_swap]
  | descending => rw [compareBy_descending h, compareBy_descending h, compareItems_swap]

theorem compareBy_self (key : Order) (a : Json) : compareBy key a a = .eq := by
  have hswap := compareBy_swap key a a
  cases h : compareBy key a a <;> rw [h] at hswap <;> trivial

theorem ofOneType_of_compareBy (h : compareBy key a b ≠ .eq) :
    OfOneType (a.atPath? key.path) (b.atPath? key.path) := by
  cases hdirection : key.direction with
  | ascending =>
    rw [compareBy_ascending hdirection] at h
    exact ofOneType_of_compareItems h
  | descending =>
    rw [compareBy_descending hdirection] at h
    exact (ofOneType_of_compareItems h).symm

theorem compareBy_trans_of_ofOneType (hab : OfOneType (a.atPath? key.path) (b.atPath? key.path))
    (hbc : OfOneType (b.atPath? key.path) (c.atPath? key.path)) (h : (compareBy key a b).isLE)
    (h' : (compareBy key b c).isLE) : (compareBy key a c).isLE := by
  cases hdirection : key.direction with
  | ascending =>
    rw [compareBy_ascending hdirection] at h h' ⊢
    exact compareItems_trans hab hbc h h'
  | descending =>
    rw [compareBy_descending hdirection] at h h' ⊢
    exact compareItems_trans hbc.symm hab.symm h' h

/-- **One key orders uniform rows transitively.** -/
theorem compareBy_trans (huniform : UniformBy key rows) (ha : a ∈ rows) (hb : b ∈ rows)
    (hc : c ∈ rows) (h : (compareBy key a b).isLE) (h' : (compareBy key b c).isLE) :
    (compareBy key a c).isLE := by
  by_cases hac : compareBy key a c = .eq
  · rw [hac]
    rfl
  · have hab := huniform a ha c hc hac b hb
    have hac := huniform a ha c hc hac c hc
    exact compareBy_trans_of_ofOneType hab (hab.symm.trans hac) h h'

/-- A row between two uniform rows that tie ties with both. -/
theorem compareBy_between (huniform : UniformBy key rows) (ha : a ∈ rows) (hb : b ∈ rows)
    (hc : c ∈ rows) (h : (compareBy key a b).isLE) (h' : (compareBy key b c).isLE)
    (htie : compareBy key a c = .eq) : compareBy key a b = .eq ∧ compareBy key b c = .eq := by
  have hca : (compareBy key c a).isLE := by
    rw [compareBy_swap key a c, htie]
    rfl
  have hba := compareBy_trans huniform hb hc ha h' hca
  have hcb := compareBy_trans huniform hc ha hb hca h
  rw [compareBy_swap] at hba hcb
  exact ⟨Ordering.eq_eq_of_isLE_of_isLE_swap h hba, Ordering.eq_eq_of_isLE_of_isLE_swap h' hcb⟩

end OneKey

/-! ## All keys -/

/-- Each key is uniform on the rows that tie under the keys before it. -/
def Uniform : List Order → List Json → Prop
  | [], _ => True
  | key :: later, rows =>
    UniformBy key rows ∧
      ∀ a ∈ rows, Uniform later (rows.filter fun b => compareBy key a b == .eq)

instance (key : Order) (rows : List Json) : Decidable (UniformBy key rows) :=
  inferInstanceAs (Decidable (∀ a ∈ rows, ∀ b ∈ rows, _ → ∀ c ∈ rows, _))

instance decidableUniform : (keys : List Order) → (rows : List Json) → Decidable (Uniform keys rows)
  | [], _ => .isTrue trivial
  | key :: later, rows =>
    have := decidableUniform later
    inferInstanceAs (Decidable (UniformBy key rows ∧ ∀ a ∈ rows, Uniform later _))

/-- Ties pass from row to row. -/
def TiesPass (keys : List Order) (rows : List Json) : Prop :=
  ∀ a ∈ rows, ∀ b ∈ rows, ∀ c ∈ rows,
    compareRows keys a b = .eq → compareRows keys b c = .eq → compareRows keys a c = .eq

/-- Not being greater passes from row to row. -/
def NotGreaterPasses (keys : List Order) (rows : List Json) : Prop :=
  ∀ a ∈ rows, ∀ b ∈ rows, ∀ c ∈ rows,
    (compareRows keys a b).isLE → (compareRows keys b c).isLE → (compareRows keys a c).isLE

section AllKeys

variable {key : Order} {keys later : List Order} {a b c : Json} {rows : List Json}

theorem compareRows_cons (key : Order) (later : List Order) (a b : Json) :
    compareRows (key :: later) a b = (compareBy key a b).then (compareRows later a b) := rfl

theorem compareRows_singleton (key : Order) (a b : Json) :
    compareRows [key] a b = compareBy key a b := Ordering.then_eq

/-- **A row ties with itself.** -/
theorem compareRows_self (keys : List Order) (a : Json) : compareRows keys a a = .eq := by
  induction keys with
  | nil => rfl
  | cons key later ih => rw [compareRows_cons, compareBy_self, ih]; rfl

/-- **When two rows change places, their order is reversed.** -/
theorem compareRows_swap (keys : List Order) (a b : Json) :
    compareRows keys b a = (compareRows keys a b).swap := by
  induction keys with
  | nil => rfl
  | cons key later ih =>
    rw [compareRows_cons, compareRows_cons, Ordering.swap_then, compareBy_swap key a b, ih]

/-- **All keys together order uniform rows transitively.** -/
theorem notGreaterPasses_of_uniform (h : Uniform keys rows) : NotGreaterPasses keys rows := by
  induction keys generalizing rows with
  | nil => exact fun _ _ _ _ _ _ _ _ => rfl
  | cons key later ih =>
    obtain ⟨huniform, hlater⟩ := h
    intro a ha b hb c hc hab hbc
    rw [compareRows_cons, Ordering.isLE_then_iff_and] at hab hbc ⊢
    have hac := compareBy_trans huniform ha hb hc hab.1 hbc.1
    refine ⟨hac, or_iff_not_imp_left.2 fun hnotless => ?_⟩
    have htie : compareBy key a c = .eq := by
      cases h : compareBy key a c <;> simp_all
    -- Now all three rows tie under the key, so the later keys decide.
    obtain ⟨hab', hbc'⟩ := compareBy_between huniform ha hb hc hab.1 hbc.1 htie
    have hmem : ∀ x ∈ rows, compareBy key a x = .eq →
        x ∈ rows.filter fun b => compareBy key a b == .eq :=
      fun x hx htie => List.mem_filter.2 ⟨hx, beq_iff_eq.2 htie⟩
    have hle := ih (hlater a ha) a (hmem a ha (compareBy_self key a)) b (hmem b hb hab') c
      (hmem c hc htie)
    exact hle (hab.2.resolve_left (by simp [hab'])) (hbc.2.resolve_left (by simp [hbc']))

/-- Where not being greater passes, ties do. -/
theorem NotGreaterPasses.tiesPass (h : NotGreaterPasses keys rows) : TiesPass keys rows := by
  intro a ha b hb c hc hab hbc
  have hba := compareRows_swap keys a b
  have hcb := compareRows_swap keys b c
  have hle := h a ha b hb c hc (by rw [hab]; rfl) (by rw [hbc]; rfl)
  have hge := h c hc b hb a ha (by rw [hcb, hbc]; rfl) (by rw [hba, hab]; rfl)
  rw [compareRows_swap keys a c] at hge
  exact Ordering.eq_eq_of_isLE_of_isLE_swap hle hge

/-- **Ties under one key pass on uniform rows only.** -/
theorem TiesPass.uniformBy (h : TiesPass [key] rows) : UniformBy key rows := by
  intro a ha b hb hab c hc
  by_contra hne
  have hac : compareBy key a c = .eq := by
    by_contra hapart
    exact hne (ofOneType_of_compareBy hapart)
  have hcb : compareBy key c b = .eq := by
    by_contra hapart
    exact hne ((ofOneType_of_compareBy hab).trans (ofOneType_of_compareBy hapart).symm)
  have htie := h a ha c hc b hb
  simp only [compareRows_singleton] at htie
  exact hab (htie hac hcb)

theorem uniform_singleton : Uniform [key] rows ↔ UniformBy key rows :=
  and_iff_left fun _ _ => trivial

end AllKeys

/-! ## Sorted rows -/

/-- No row comes before one that it is greater than. -/
def InOrder (keys : List Order) (rows : List Json) : Prop :=
  rows.Pairwise fun a b => (compareRows keys a b).isLE

/-- The same rows in the order of the keys, and those that tie with each other in the order in which
they were. -/
structure StablySorted (keys : List Order) (rows sorted : List Json) : Prop where
  perm : sorted.Perm rows
  inOrder : InOrder keys sorted
  stable : ∀ a ∈ rows, (sorted.filter fun b => compareRows keys a b == .eq) =
    rows.filter fun b => compareRows keys a b == .eq

/-- A way of sorting is correct if it sorts stably wherever the order is consistent. -/
def Sorting.Correct (s : Sorting) : Prop :=
  ∀ keys rows, TiesPass keys rows → NotGreaterPasses keys rows →
    StablySorted keys rows (s.sort keys rows)

section Insertion

variable {keys : List Order} {row : Json} {all rows sorted : List Json}

/-- The rows that are put in run from the last to the first, and so they stay. -/
theorem insertRow_ordered (h : NotGreaterPasses keys all) (hrow : row ∈ all)
    (hsorted : sorted ⊆ all)
    (hordered : sorted.Pairwise fun a b => (compareRows keys b a).isLE) :
    (insertRow keys row sorted).Pairwise fun a b => (compareRows keys b a).isLE := by
  induction sorted with
  | nil => exact List.pairwise_singleton _ row
  | cons last rest ih =>
    obtain ⟨hlast, hrest⟩ := List.pairwise_cons.1 hordered
    obtain ⟨hmem, hsub⟩ := List.cons_subset.1 hsorted
    rw [insertRow]
    split
    case isTrue hless =>
      refine List.pairwise_cons.2 ⟨fun x hx => ?_, ih hsub hrest⟩
      rcases mem_insertRow hx with rfl | hx
      · rw [hless]
        rfl
      · exact hlast x hx
    case isFalse hless =>
      have hle : (compareRows keys last row).isLE := by
        rw [compareRows_swap keys row last]
        cases horder : compareRows keys row last <;> trivial
      refine List.pairwise_cons.2 ⟨fun x hx => ?_, hordered⟩
      rcases List.mem_cons.1 hx with rfl | hx
      · exact hle
      · exact h x (hsub hx) last hmem row hrow (hlast x hx) hle

/-- A row does not pass rows that it does not come before. -/
theorem filter_insertRow {test : Json → Bool}
    (h : ∀ last ∈ sorted, test row → test last → compareRows keys row last ≠ .lt) :
    (insertRow keys row sorted).filter test = (row :: sorted).filter test := by
  induction sorted with
  | nil => rfl
  | cons last rest ih =>
    obtain ⟨hlast, hrest⟩ := List.forall_mem_cons.1 h
    rw [insertRow]
    split
    case isTrue hless =>
      rw [List.filter_cons, ih hrest]
      cases hrow : test row <;> cases htest : test last <;> simp_all
    case isFalse => rfl

theorem insertRow_subset (hrow : row ∈ all) (hsorted : sorted ⊆ all) :
    insertRow keys row sorted ⊆ all := by
  intro x hx
  rcases mem_insertRow hx with rfl | hx
  · exact hrow
  · exact hsorted hx

theorem insertRows_ordered (h : NotGreaterPasses keys all) (hrows : rows ⊆ all)
    (hsorted : sorted ⊆ all) (hordered : sorted.Pairwise fun a b => (compareRows keys b a).isLE) :
    (rows.foldl (fun sorted row => insertRow keys row sorted) sorted).Pairwise
      fun a b => (compareRows keys b a).isLE := by
  induction rows generalizing sorted with
  | nil => exact hordered
  | cons row rows ih =>
    obtain ⟨hrow, hrows⟩ := List.cons_subset.1 hrows
    exact ih hrows (insertRow_subset hrow hsorted) (insertRow_ordered h hrow hsorted hordered)

theorem filter_insertRows {test : Json → Bool}
    (h : ∀ x ∈ all, ∀ y ∈ all, test x → test y → compareRows keys x y ≠ .lt) (hrows : rows ⊆ all)
    (hsorted : sorted ⊆ all) :
    (rows.foldl (fun sorted row => insertRow keys row sorted) sorted).filter test =
      (rows.reverse ++ sorted).filter test := by
  induction rows generalizing sorted with
  | nil => rfl
  | cons row rows ih =>
    obtain ⟨hrow, hrows⟩ := List.cons_subset.1 hrows
    rw [List.foldl_cons, ih hrows (insertRow_subset hrow hsorted), List.filter_append,
      filter_insertRow fun last hlast => h row hrow last (hsorted hlast)]
    simp

/-- **Inserting row after row is correct.** -/
theorem Sorting.insertion_correct : Sorting.insertion.Correct := by
  intro keys rows hties hle
  refine ⟨sortRows_perm keys rows, ?inOrder, fun a ha => ?stable⟩
  case inOrder =>
    exact List.pairwise_reverse.2 (insertRows_ordered hle (List.Subset.refl rows) (by simp) .nil)
  case stable =>
    have hapart : ∀ x ∈ rows, ∀ y ∈ rows, compareRows keys a x == .eq →
        compareRows keys a y == .eq → compareRows keys x y ≠ .lt := by
      intro x hx y hy hax hay
      have hxa : compareRows keys x a = .eq := by
        rw [compareRows_swap keys a x, beq_iff_eq.1 hax]
        rfl
      rw [hties x hx a ha y hy hxa (beq_iff_eq.1 hay)]
      nofun
    show (sortRows keys rows).filter _ = _
    rw [sortRows, List.filter_reverse, filter_insertRows hapart (List.Subset.refl rows) (by simp)]
    simp

end Insertion

/-! ## Results -/

section Results

variable {s : Sorting} {rows : List Json} {r : Request} {test : Predicate}

theorem matching_stablySorted (hs : s.Correct) (htest : predicate r.condition = .ok test)
    (huniform : Uniform r.order (rows.filter test)) :
    ∃ sorted, s.matching rows r = .ok sorted ∧ StablySorted r.order (rows.filter test) sorted :=
  have hle := notGreaterPasses_of_uniform huniform
  ⟨_, Sorting.matching_eq htest, hs r.order _ hle.tiesPass hle⟩

theorem slice_sublist (offset : UInt64) (limit : Option UInt64) (rows : List Json) :
    (slice offset limit rows).Sublist rows := by
  have hdrop := List.drop_sublist offset.toNat rows
  cases limit with
  | none => exact hdrop
  | some limit => exact (List.take_sublist limit.toNat _).trans hdrop

end Results

/-- **Rows compare consistently if they are uniform, and then results are in order.** -/
theorem compareRows_uniform (keys : List Order) (rows : List Json) :
    (∀ a, compareRows keys a a = .eq) ∧
      (∀ a b, compareRows keys b a = (compareRows keys a b).swap) ∧
      (Uniform keys rows → TiesPass keys rows ∧ NotGreaterPasses keys rows) ∧
      (∀ key, (TiesPass [key] rows ↔ UniformBy key rows) ∧
        (NotGreaterPasses [key] rows ↔ UniformBy key rows)) ∧
      ∀ (s : Sorting) (r : Request) (test : Predicate) (start : Json.Members), s.Correct →
        predicate r.condition = .ok test → Uniform r.order (rows.filter test) →
        ∃ sorted, s.matching rows r = .ok sorted ∧
          StablySorted r.order (rows.filter test) sorted ∧
          ∃ shown, shown.Sublist sorted ∧ InOrder r.order shown ∧
            s.build start rows r = .ok (projectRows start r.select shown) ∧
            (s.getMany start rows r).map (·.rows) = .ok (projectRows start r.select shown) := by
  refine ⟨compareRows_self keys, compareRows_swap keys, fun huniform => ?_, fun key => ?_, ?_⟩
  · have hle := notGreaterPasses_of_uniform huniform
    exact ⟨hle.tiesPass, hle⟩
  · have hpasses : UniformBy key rows → NotGreaterPasses [key] rows :=
      fun huniform => notGreaterPasses_of_uniform (uniform_singleton.2 huniform)
    exact ⟨⟨TiesPass.uniformBy, fun huniform => (hpasses huniform).tiesPass⟩,
      fun hle => hle.tiesPass.uniformBy, hpasses⟩
  · intro s r test start hs htest huniform
    obtain ⟨sorted, hsorted, hstably⟩ := matching_stablySorted hs htest huniform
    have hshown := slice_sublist r.start r.limit sorted
    refine ⟨sorted, hsorted, hstably, _, hshown, hstably.inOrder.sublist hshown,
      Sorting.build_eq hsorted, ?_⟩
    rw [Sorting.getMany, hsorted]
    rfl

/-- Rows of two grades; the row that is alone in its grade has no name. -/
def graded : List Json :=
  [.obj [("grade", .ofInt64 2), ("name", .str "b")], .obj [("grade", .ofInt64 1)],
    .obj [("grade", .ofInt64 2), ("name", .str "a")]]

/-- Asks for rows by grade and, within a grade, by name. -/
def byGrade : Request where
  order := [⟨⟨["grade"]⟩, .ascending⟩, ⟨⟨["name"]⟩, .ascending⟩]

/-- A name that is missing does not matter where there is no other row to compare with. -/
theorem compareRows_uniform_graded :
    Uniform byGrade.order graded ∧ ∃ sorted, build [] graded byGrade = .ok sorted ∧
      InOrder byGrade.order sorted := by
  have huniform : Uniform byGrade.order graded := by decide +kernel
  have htest : predicate byGrade.condition = .ok fun _ => true := rfl
  obtain ⟨-, -, -, -, hresult⟩ := compareRows_uniform byGrade.order graded
  obtain ⟨-, -, -, shown, -, hordered, hbuild, -⟩ :=
    hresult .insertion byGrade _ [] Sorting.insertion_correct htest huniform
  exact ⟨huniform, shown, hbuild, hordered⟩

/-- A text between two numbers. -/
def mixed : List Json :=
  [.obj [("a", .ofInt64 2)], .obj [("a", .str "x")], .obj [("a", .ofInt64 1)]]

def byMixed : Request where
  order := [⟨⟨["a"]⟩, .ascending⟩]

/-- **A value of another type ties with a value and with a greater one**, and the row that is
greater stays in front. -/
theorem build_mixed :
    ¬ TiesPass byMixed.order mixed ∧ ¬ NotGreaterPasses byMixed.order mixed ∧
      build [] mixed byMixed = .ok mixed ∧ ¬ InOrder byMixed.order mixed := by
  have hnot : ¬ UniformBy ⟨⟨["a"]⟩, .ascending⟩ mixed := by decide +kernel
  have hties : ¬ TiesPass byMixed.order mixed := fun h => hnot h.uniformBy
  refine ⟨hties, fun h => hties h.tiesPass, rfl, ?_⟩
  unfold InOrder
  decide +kernel

end Memory

end StoreQuery
