import StoreQuery.Proofs.Condition.Retained
import StoreQuery.Proofs.Request.Canonical
import StoreQuery.Request.Restrict

/-!
# Requests with allowed paths only

A request that is cut down to a list of allowed properties names allowed paths only, and it is what
it was in everything else. `CutDown` says this part by part, without a word on how it is done.

**There is one such request, and it is the restricted one** (`cutDown_iff`). The select list, the
order and the relations are known from the parts, and the condition by its marks: where it has
brackets, nothing but leaves is missing from it.
-/

namespace StoreQuery.Request

open Condition (Mark)

variable {allowed : List String} {r r' : Request}

/-- What becomes of a request that is cut down to a list of allowed properties. -/
structure CutDown (allowed : List String) (r r' : Request) : Prop where
  /-- Every path that is left has an allowed text. -/
  paths : ∀ p ∈ r'.paths, p.toText ∈ allowed
  /-- Who selects nothing selects all that is allowed. -/
  select : r'.select =
    if r.select = [] then allowed.map .ofText else r.select.filter fun p => p.toText ∈ allowed
  leaves : r'.condition.leaves = r.condition.leaves.filter fun c => c.path.toText ∈ allowed
  order : r'.order = r.order.filter fun o => o.path.toText ∈ allowed
  relations : r'.relations = r.relations.filter fun relation => relation.path.toText ∈ allowed
  /-- A condition that is a single comparison stays, or an empty AND is left of it. -/
  single : ∀ c, r.condition = .leaf c →
    r'.condition = if c.path.toText ∈ allowed then .leaf c else .group .and []
  /-- Any other condition keeps its brackets as they stand around the leaves that are left. -/
  brackets : ∀ k members, r.condition = .group k members →
    r'.condition.marks = r.condition.marks.filter (Mark.isKept fun c => c.path.toText ∈ allowed)
  limit : r'.limit = r.limit
  offset : r'.offset = r.offset
  page : r'.page = r.page

theorem CutDown.eq {r'' : Request} (h : CutDown allowed r r') (h' : CutDown allowed r r'') :
    r' = r'' := by
  have hcondition : r'.condition = r''.condition := by
    cases hr : r.condition with
    | leaf c => rw [h.single c hr, h'.single c hr]
    | group k members =>
      rw [← Condition.marks_inj, h.brackets k members hr, h'.brackets k members hr]
  have hselect := h.select.trans h'.select.symm
  have horder := h.order.trans h'.order.symm
  have hrelations := h.relations.trans h'.relations.symm
  have hlimit := h.limit.trans h'.limit.symm
  have hoffset := h.offset.trans h'.offset.symm
  have hpage := h.page.trans h'.page.symm
  cases r'
  cases r''
  simp_all

/-! ## The restricted request -/

theorem allows_eq (allowed : List String) :
    allows allowed = fun p => decide (p.toText ∈ allowed) := by
  funext p
  rw [allows, List.contains_eq_mem]

theorem select_restrict (allowed : List String) (r : Request) :
    (r.restrictProperties allowed).select =
      if r.select = [] then allowed.map .ofText
      else r.select.filter fun p => p.toText ∈ allowed := by
  simp [restrictProperties, allows_eq]

theorem condition_restrict (allowed : List String) (r : Request) :
    (r.restrictProperties allowed).condition =
      r.condition.retain fun c => c.path.toText ∈ allowed := by
  simp only [restrictProperties, allows_eq]

theorem order_restrict (allowed : List String) (r : Request) :
    (r.restrictProperties allowed).order = r.order.filter fun o => o.path.toText ∈ allowed := by
  simp only [restrictProperties, allows_eq]

theorem relations_restrict (allowed : List String) (r : Request) :
    (r.restrictProperties allowed).relations =
      r.relations.filter fun relation => relation.path.toText ∈ allowed := by
  simp only [restrictProperties, allows_eq]

/-- What is selected is allowed, also where the allowed properties themselves are. -/
theorem allowed_of_mem_select {p : Path} (hp : p ∈ (r.restrictProperties allowed).select) :
    p.toText ∈ allowed := by
  rw [select_restrict] at hp
  split_ifs at hp with hnone
  · obtain ⟨text, htext, rfl⟩ := List.mem_map.1 hp
    rwa [Path.toText_ofText]
  · exact of_decide_eq_true (List.mem_filter.1 hp).2

theorem allowed_of_mem_paths {p : Path} (hp : p ∈ (r.restrictProperties allowed).paths) :
    p.toText ∈ allowed := by
  rw [paths, order_restrict, relations_restrict, condition_restrict, Condition.leaves_retain] at hp
  rcases List.mem_append.1 hp with hp | hp
  · exact allowed_of_mem_select hp
  · simp only [List.mem_append, List.mem_map, List.mem_filter, decide_eq_true_eq] at hp
    rcases hp with ⟨_, ⟨-, h⟩, rfl⟩ | ⟨_, ⟨-, h⟩, rfl⟩ | ⟨_, ⟨-, h⟩, rfl⟩ <;> exact h

/-- **A restricted request keeps what is allowed, all of it, in its place.** This is the one request
that is cut down so. -/
theorem cutDown_iff : CutDown allowed r r' ↔ r' = r.restrictProperties allowed := by
  have hcut : CutDown allowed r (r.restrictProperties allowed) :=
    { paths := fun p hp => allowed_of_mem_paths hp
      select := select_restrict allowed r
      leaves := by rw [condition_restrict, Condition.leaves_retain]
      order := order_restrict allowed r
      relations := relations_restrict allowed r
      single := by
        intro c hc
        rw [condition_restrict, hc]
        simp only [Condition.retain, Condition.unconstrained, decide_eq_true_eq]
      brackets := by
        intro k members hgroup
        rw [condition_restrict, hgroup, Condition.marks_retain]
      limit := rfl
      offset := rfl
      page := rfl }
  exact ⟨fun h => h.eq hcut, fun h => h ▸ hcut⟩

/-- A leaf goes, and the bracket in which it stood alone is left empty. -/
example : (restrictProperties
    { condition := .group .and
        [.leaf ⟨⟨["id"]⟩, .notNull, .one .null⟩,
          .group .or [.leaf ⟨⟨["secret"]⟩, .notNull, .one .null⟩]] } ["id"]).condition =
    .group .and [.leaf ⟨⟨["id"]⟩, .notNull, .one .null⟩, .group .or []] := rfl

end StoreQuery.Request
