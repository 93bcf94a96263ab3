import StoreQuery.Memory.Query
import StoreQuery.Proofs.Condition.Meaning
import Mathlib.Data.List.Forall2

/-!
# What a request reads of its rows

A request in memory looks at the properties that it selects, compares and sorts by, and at nothing
else.

**Rows that agree on what a request reads have the same answer** (`build_congr`), as long as the
request selects something. Filtering, sorting and cutting keep two lists of agreeing rows in step,
and the projections of two agreeing rows are the same object.
-/

namespace StoreQuery

/-- The paths that a request reads: selected, compared with, and sorted by. -/
def Request.reads (r : Request) : List Path :=
  r.select ++ r.condition.leaves.map (·.path) ++ r.order.map (·.path)

namespace Memory

/-- Two rows have the same value, or none, at every path of a list. -/
def Agree (paths : List Path) (a b : Json) : Prop := ∀ p ∈ paths, a.atPath? p = b.atPath? p

variable {paths : List Path} {keys : List Order} {a b a' b' : Json} {rows rows' : List Json}

theorem Agree.mono {paths' : List Path} (h : Agree paths a b) (hsub : paths' ⊆ paths) :
    Agree paths' a b := fun p hp => h p (hsub hp)

/-! ## Rows -/

theorem holds_congr {c : Comparison} (h : a.atPath? c.path = b.atPath? c.path) :
    c.holds a = c.holds b := by rw [Comparison.holds, Comparison.holds, h]

theorem test_congr {condition : Condition} {test : Predicate}
    (htest : predicate condition = .ok test) (h : Agree (condition.leaves.map (·.path)) a b) :
    test a = test b := by
  rw [predicate_eq htest, predicate_eq htest, Condition.accepts, Condition.accepts,
    Condition.meaning_congr fun c hc => holds_congr (h c.path (List.mem_map_of_mem hc))]

theorem compareRows_congr (h : Agree (keys.map (·.path)) a b)
    (h' : Agree (keys.map (·.path)) a' b') : compareRows keys a a' = compareRows keys b b' := by
  induction keys with
  | nil => rfl
  | cons key keys ih =>
    obtain ⟨hkey, hkeys⟩ := List.forall_mem_cons.1 h
    obtain ⟨hkey', hkeys'⟩ := List.forall_mem_cons.1 h'
    have hby : compareBy key a a' = compareBy key b b' := by
      rw [compareBy, compareBy, hkey, hkey']
    rw [compareRows, List.foldr_cons, ← compareRows, hby, ih hkeys hkeys']
    rfl

theorem project_congr {select : List Path} (h : Agree select a b) (start : Json.Members) :
    project start select a = project start select b := by
  rw [project, project]
  congr 1
  induction select generalizing start with
  | nil => rfl
  | cons p select ih =>
    obtain ⟨hp, hselect⟩ := List.forall_mem_cons.1 h
    rw [List.foldl_cons, List.foldl_cons, hp, ih hselect]

/-! ## Lists of rows -/

theorem filter_agree {test : Predicate} (htest : ∀ a b, Agree paths a b → test a = test b)
    (h : List.Forall₂ (Agree paths) rows rows') :
    List.Forall₂ (Agree paths) (rows.filter test) (rows'.filter test) := by
  induction h with
  | nil => exact .nil
  | cons hab _ ih =>
    rw [List.filter_cons, List.filter_cons, htest _ _ hab]
    split
    · exact .cons hab ih
    · exact ih

theorem insertRow_agree (hkeys : keys.map (·.path) ⊆ paths) (hrow : Agree paths a b)
    (h : List.Forall₂ (Agree paths) rows rows') :
    List.Forall₂ (Agree paths) (insertRow keys a rows) (insertRow keys b rows') := by
  induction h with
  | nil => exact .cons hrow .nil
  | cons hlast hrest ih =>
    rw [insertRow, insertRow, compareRows_congr (hrow.mono hkeys) (hlast.mono hkeys)]
    split
    · exact .cons hlast ih
    · exact .cons hrow (.cons hlast hrest)

theorem sortRows_agree (hkeys : keys.map (·.path) ⊆ paths)
    (h : List.Forall₂ (Agree paths) rows rows') :
    List.Forall₂ (Agree paths) (sortRows keys rows) (sortRows keys rows') := by
  rw [sortRows, sortRows, List.forall₂_reverse_iff]
  exact List.rel_foldl (P := List.Forall₂ (Agree paths)) (R := Agree paths)
    (fun _ _ hsorted _ _ hrow => insertRow_agree hkeys hrow hsorted) .nil h

theorem slice_agree (offset : UInt64) (limit : Option UInt64)
    (h : List.Forall₂ (Agree paths) rows rows') :
    List.Forall₂ (Agree paths) (slice offset limit rows) (slice offset limit rows') := by
  have hrest := List.forall₂_drop offset.toNat h
  cases limit with
  | none => exact hrest
  | some limit => exact List.forall₂_take limit.toNat hrest

theorem mem_insertRow {row x : Json} (h : x ∈ insertRow keys row rows) : x = row ∨ x ∈ rows := by
  induction rows with
  | nil => exact .inl (List.mem_singleton.1 h)
  | cons last rest ih =>
    rw [insertRow] at h
    split at h
    · rcases List.mem_cons.1 h with rfl | h
      · exact .inr List.mem_cons_self
      · exact (ih h).imp_right (List.mem_cons_of_mem _)
    · exact List.mem_cons.1 h

theorem mem_sortRows {x : Json} (h : x ∈ sortRows keys rows) : x ∈ rows := by
  suffices ∀ sorted, x ∈ rows.foldl (fun sorted row => insertRow keys row sorted) sorted →
      x ∈ sorted ∨ x ∈ rows from
    (this [] (List.mem_reverse.1 h)).resolve_left List.not_mem_nil
  clear h
  induction rows with
  | nil => exact fun _ h => .inl h
  | cons row rows ih =>
    intro sorted h
    rcases ih _ h with h | h
    · rcases mem_insertRow h with rfl | h
      · exact .inr List.mem_cons_self
      · exact .inl h
    · exact .inr (List.mem_cons_of_mem _ h)

theorem mem_slice {offset : UInt64} {limit : Option UInt64} {x : Json}
    (h : x ∈ slice offset limit rows) : x ∈ rows := by
  cases limit with
  | none => exact List.mem_of_mem_drop h
  | some limit => exact List.mem_of_mem_drop (List.mem_of_mem_take h)

/-! ## Requests -/

variable {r : Request}

/-- The rows that a request shows, before it projects them. -/
def shown (test : Predicate) (r : Request) (rows : List Json) : List Json :=
  slice r.start r.limit (sortRows r.order (rows.filter test))

theorem mem_of_mem_shown {test : Predicate} {x : Json} (h : x ∈ shown test r rows) : x ∈ rows :=
  (List.mem_filter.1 (mem_sortRows (mem_slice h))).1

theorem build_eq (start : Json.Members) (rows : List Json) (r : Request) :
    build start rows r =
      (predicate r.condition).map fun test => projectRows start r.select (shown test r rows) := by
  rw [build, matching]
  cases predicate r.condition <;> rfl

theorem sortRows_nil (rows : List Json) : sortRows [] rows = rows := by
  suffices h : ∀ sorted, rows.foldl (fun sorted row => insertRow [] row sorted) sorted =
      rows.reverse ++ sorted by
    rw [sortRows, h, List.append_nil, List.reverse_reverse]
  induction rows with
  | nil => exact fun _ => rfl
  | cons row rows ih =>
    intro sorted
    have hinsert : insertRow [] row sorted = row :: sorted := by cases sorted <;> rfl
    rw [List.foldl_cons, hinsert, ih, List.reverse_cons, List.append_assoc, List.singleton_append]

/-- A single condition shows the rows of which it holds. -/
theorem build_leaf {c : Comparison} (h : c.validate = .ok ()) (rows : List Json) :
    build [] rows { condition := .leaf c } = .ok (rows.filter c.holds) := by
  have htest : predicate (.leaf c) = .ok c.holds := by
    have hvalid : ∀ leaf ∈ (Condition.leaf c).leaves, leaf.validate = .ok () := by simpa using h
    obtain ⟨test, htest, hmeans⟩ := predicate_ok hvalid
    rw [htest, funext hmeans]
    rfl
  rw [build_eq, htest]
  exact congrArg Except.ok (sortRows_nil _)

/-- The rows that a request shows stay in step. -/
theorem shown_agree {test : Predicate} (htest : predicate r.condition = .ok test)
    (h : List.Forall₂ (Agree r.reads) rows rows') :
    List.Forall₂ (Agree r.reads) (shown test r rows) (shown test r rows') := by
  refine slice_agree _ _ (sortRows_agree (fun p hp => List.mem_append_right _ hp)
    (filter_agree ?_ h))
  exact fun a b hab => test_congr htest <|
    hab.mono fun p hp => List.mem_append_left _ (List.mem_append_right _ hp)

/-- **Rows that agree on what a request reads have the same answer.** -/
theorem build_congr (start : Json.Members) (hselect : r.select ≠ [])
    (h : List.Forall₂ (Agree r.reads) rows rows') : build start rows r = build start rows' r := by
  rw [build_eq, build_eq]
  cases htest : predicate r.condition with
  | error e => rfl
  | ok test =>
    have hproject : ∀ a b, Agree r.reads a b →
        project start r.select a = project start r.select b :=
      fun a b hab => project_congr
        (hab.mono fun p hp => List.mem_append_left _ (List.mem_append_left _ hp)) start
    have hrows := List.rel_map (fun a b hab => hproject a b hab) (shown_agree htest h)
    rw [List.forall₂_eq_eq_eq] at hrows
    simp only [Except.map, projectRows, List.isEmpty_eq_false_iff.2 hselect, Bool.false_eq_true,
      if_false, hrows]

end Memory

end StoreQuery
