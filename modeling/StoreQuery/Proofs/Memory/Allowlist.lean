import StoreQuery.Proofs.Condition.Retained
import StoreQuery.Proofs.Memory.Lookup
import StoreQuery.Proofs.Memory.Reading
import StoreQuery.Proofs.Success
import StoreQuery.Proofs.Text.Numbered
import StoreQuery.Proofs.Text.Split
import StoreQuery.Request.Restrict

/-!
# Allowed properties

A request that is cut down to a list of allowed properties selects, compares and sorts by paths
with allowed texts only. A path with a dot inside a segment has the text of another property; it
is *covered* if an allowed property lies on the way to it.

**What is not allowed stays hidden exactly where the request keeps its selection**
(`build_restrictProperties`), or never shows a row: a request that selects only properties that
are not allowed is left without a selection, which means all properties, and shows the rows that it
accepts as they are. This is for requests that read no allowed path that is not covered.
-/

namespace StoreQuery

namespace Memory

variable {allowed : List String} {r : Request} {rows rows' : List Json}

/-- An allowed property stands at the path or on the way to it. -/
def Covered (allowed : List String) (p : Path) : Prop :=
  ∃ text ∈ allowed, (Path.ofText text).segments <+: p.segments

instance (allowed : List String) (p : Path) : Decidable (Covered allowed p) :=
  inferInstanceAs (Decidable (∃ text ∈ allowed, _))

theorem covered_ofText {text : String} (h : text ∈ allowed) : Covered allowed (.ofText text) :=
  ⟨text, h, List.prefix_rfl⟩

theorem Agree.covered {a b : Json} (h : Agree (allowed.map .ofText) a b) {p : Path}
    (hp : Covered allowed p) : a.atPath? p = b.atPath? p := by
  obtain ⟨text, htext, rest, hrest⟩ := hp
  rw [Json.atPath?, Json.atPath?, ← hrest, Json.at?_append, Json.at?_append]
  exact congrArg (Option.bind · (Json.at? rest)) (h _ (List.mem_map_of_mem htext))

/-- Every allowed path that a request reads is covered. -/
def ReadsCovered (allowed : List String) (r : Request) : Prop :=
  ∀ p ∈ r.reads, Request.allows allowed p = true → Covered allowed p

instance (allowed : List String) (r : Request) : Decidable (ReadsCovered allowed r) :=
  inferInstanceAs (Decidable (∀ p ∈ r.reads, _))

/-- The request selects nothing, or something that is allowed. -/
def KeepsSelection (allowed : List String) (r : Request) : Prop :=
  r.select = [] ∨ ∃ p ∈ r.select, Request.allows allowed p = true

instance (allowed : List String) (r : Request) : Decidable (KeepsSelection allowed r) :=
  inferInstanceAs (Decidable (r.select = [] ∨ ∃ p ∈ r.select, _))

/-- The answer never has a row. -/
def ShowsNothing (r : Request) : Prop :=
  ∀ start rows answer, build start rows r = .ok answer → answer = []

theorem ShowsNothing.same (h : ShowsNothing r) (start : Json.Members) (rows rows' : List Json) :
    build start rows r = build start rows' r := by
  rw [build_eq, build_eq]
  cases htest : predicate r.condition with
  | error e => rfl
  | ok test =>
    have hnil : ∀ rows, projectRows start r.select (shown test r rows) = [] := fun rows =>
      h start rows _ (by rw [build_eq, htest]; rfl)
    rw [Except.map, Except.map, hnil rows, hnil rows']

theorem ReadsCovered.covered (h : ReadsCovered allowed r) {p : Path}
    (hp : p ∈ (r.restrictProperties allowed).reads) : Covered allowed p := by
  simp only [Request.reads, Request.restrictProperties, Condition.leaves_retain, List.mem_append,
    List.mem_map, List.mem_filter] at hp
  rcases hp with (hp | ⟨c, ⟨hc, hkeep⟩, rfl⟩) | ⟨o, ⟨ho, hkeep⟩, rfl⟩
  · split at hp
    · obtain ⟨text, htext, rfl⟩ := List.mem_map.1 hp
      exact covered_ofText htext
    · obtain ⟨hp, hkeep⟩ := List.mem_filter.1 hp
      exact h p (by simp [Request.reads, hp]) hkeep
  · refine h c.path ?_ hkeep
    simp only [Request.reads, List.mem_append, List.mem_map]
    exact .inl (.inr ⟨c, hc, rfl⟩)
  · refine h o.path ?_ hkeep
    simp only [Request.reads, List.mem_append, List.mem_map]
    exact .inr ⟨o, ho, rfl⟩

theorem ReadsCovered.agree (h : ReadsCovered allowed r)
    (hrows : List.Forall₂ (Agree (allowed.map .ofText)) rows rows') :
    List.Forall₂ (Agree (r.restrictProperties allowed).reads) rows rows' := by
  refine hrows.imp fun a b hab p hp => ?_
  exact hab.covered (h.covered hp)

/-- Something stays selected exactly where the request keeps its selection. -/
theorem select_restrictProperties (hne : allowed ≠ []) :
    (r.restrictProperties allowed).select ≠ [] ↔ KeepsSelection allowed r := by
  rw [Request.restrictProperties, KeepsSelection]
  by_cases hnil : r.select = []
  · simpa [hnil] using hne
  · simp [hnil]

/-! ## Marks -/

/-- The row with a truth value as a property. -/
def mark (name : String) (b : Bool) (row : Json) : Json :=
  .obj (Json.setMember name (.bool b) row.membersOrNone)

theorem get?_mark (name : String) (b : Bool) (row : Json) :
    (mark name b row).get? name = some (.bool b) := Json.lookup_setMember ..

theorem get?_mark_of_ne {name other : String} (hne : other ≠ name) (b : Bool) (row : Json) :
    (mark name b row).get? other = row.get? other := by
  refine (Json.lookup_setMember_of_ne hne ..).trans ?_
  cases row <;> rfl

theorem mark_agree {name : String}
    (hfresh : name ∉ allowed.flatMap fun text => (Path.ofText text).segments) (b : Bool)
    (row : Json) : Agree (allowed.map .ofText) row (mark name b row) := by
  intro p hp
  obtain ⟨text, htext, rfl⟩ := List.mem_map.1 hp
  rw [Json.atPath?, Json.atPath?]
  cases hsegments : (Path.ofText text).segments with
  | nil => exact absurd hsegments (by simp [Path.ofText, Text.split, Text.splitChars_ne_nil])
  | cons segment rest =>
    have hne : segment ≠ name := by
      rintro rfl
      exact hfresh (List.mem_flatMap.2 ⟨text, htext, by simp [hsegments]⟩)
    rw [Json.at?, Json.at?, get?_mark_of_ne hne]

/-- A request that loses its selection shows whole rows, marks included. -/
theorem showsNothing_of_same (hne : allowed ≠ []) (hreads : ReadsCovered allowed r)
    (hloses : ¬ KeepsSelection allowed r)
    (hsame : ∀ rows rows' : List Json, List.Forall₂ (Agree (allowed.map .ofText)) rows rows' →
      build [] rows (r.restrictProperties allowed) =
        build [] rows' (r.restrictProperties allowed)) :
    ShowsNothing (r.restrictProperties allowed) := by
  rw [← select_restrictProperties hne, not_not] at hloses
  have hagree : ∀ {rows rows' : List Json}, List.Forall₂ (Agree (allowed.map .ofText)) rows rows' →
      List.Forall₂ (Agree (r.restrictProperties allowed).reads) rows rows' := hreads.agree
  generalize r.restrictProperties allowed = r at *
  intro start rows answer h
  rw [build_eq] at h
  obtain ⟨test, htest, rfl⟩ := map_eq_ok.1 h
  rw [hloses]
  have hbuild : ∀ rows, build [] rows r = .ok (shown test r rows) := fun rows => by
    rw [build_eq, htest, hloses]; rfl
  -- A mark that no allowed path touches: rows marked in two ways agree on what is allowed.
  obtain ⟨n, -, hfresh⟩ := Text.exists_free
    (allowed.flatMap fun text => (Path.ofText text).segments) (fun segment token => segment = token)
    (fun token h => ⟨token, h, rfl⟩) (fun _ _ _ h h' => h.symm.trans h') (Nat.lt_succ_self _) ""
  let marked (b : Bool) : List Json := rows.map (mark (Text.numbered "" n) b)
  have hmarked : ∀ b, List.Forall₂ (Agree (allowed.map .ofText)) rows (marked b) := fun b =>
    List.forall₂_map_right_iff.2 (List.forall₂_same.2 fun row _ => mark_agree hfresh b row)
  have hsame := hsame (marked true) (marked false) <|
    List.forall₂_map_left_iff.2 <| List.forall₂_map_right_iff.2 <| List.forall₂_same.2
      fun row _ p hp =>
        (mark_agree hfresh true row p hp).symm.trans (mark_agree hfresh false row p hp)
  rw [hbuild, hbuild] at hsame
  have hmark : ∀ b, ∀ row ∈ shown test r (marked b),
      row.get? (Text.numbered "" n) = some (.bool b) := by
    intro b row hrow
    obtain ⟨before, -, rfl⟩ := List.mem_map.1 (mem_of_mem_shown hrow)
    exact get?_mark ..
  -- Whole rows would show which mark they have.
  have hnone : shown test r (marked true) = [] := by
    refine List.eq_nil_iff_forall_not_mem.2 fun row hrow => ?_
    have htrue := hmark true row hrow
    rw [Except.ok.inj hsame] at hrow
    cases htrue.symm.trans (hmark false row hrow)
  have hrows := shown_agree htest (hagree (hmarked true))
  rw [hnone, List.forall₂_nil_right_iff] at hrows
  exact hrows

theorem build_single {p : Path} (hallows : Request.allows allowed p = true) (row : Json) :
    build [] [row] (Request.restrictProperties { select := [p] } allowed) =
      .ok [project [] [p] row] := by
  simp only [build, Request.restrictProperties, List.isEmpty_cons, Bool.false_eq_true, if_false,
    List.filter_cons, hallows, if_true]
  rfl

/-- An allowed path that is not covered tells rows apart that agree on what is allowed. -/
theorem exists_of_not_covered {p : Path} (hp : p.segments ≠ [])
    (hallows : Request.allows allowed p = true) (hcovered : ¬ Covered allowed p) :
    ∃ a b, Agree (allowed.map .ofText) a b ∧
      build [] [a] (Request.restrictProperties { select := [p] } allowed) ≠
        build [] [b] (Request.restrictProperties { select := [p] } allowed) := by
  let row (b : Bool) : Json := .obj (Json.putAt p.segments (.bool b) [])
  have hshown : ∀ b, (project [] [p] (row b)).atPath? p = some (.bool b) := fun b => by
    have hat : (row b).atPath? p = some (.bool b) := Json.at?_putAt _ _ hp
    rw [project, List.foldl_cons, List.foldl_nil, hat]
    exact Json.at?_putAt _ _ hp
  refine ⟨row true, row false, fun q hq => ?_, fun hsame => ?_⟩
  · obtain ⟨text, htext, rfl⟩ := List.mem_map.1 hq
    have hother : ¬ (Path.ofText text).segments <+: p.segments := fun h => hcovered ⟨text, htext, h⟩
    rw [Json.atPath?, Json.atPath?, Json.at?_putAt_nil _ hp hother, Json.at?_putAt_nil _ hp hother]
  · rw [build_single hallows, build_single hallows] at hsame
    have hrows := (List.cons.inj (Except.ok.inj hsame)).1
    cases (hshown true).symm.trans (hrows ▸ hshown false)

/-- **A list of allowed properties hides the others exactly where the request keeps its
selection**, or never shows a row, as long as what it reads is covered. An allowed path that is
not covered tells rows apart that agree on what is allowed. -/
theorem build_restrictProperties (hne : allowed ≠ []) :
    (ReadsCovered allowed r →
      ((∀ start, ∀ rows rows' : List Json, List.Forall₂ (Agree (allowed.map .ofText)) rows rows' →
          build start rows (r.restrictProperties allowed) =
            build start rows' (r.restrictProperties allowed)) ↔
        KeepsSelection allowed r ∨ ShowsNothing (r.restrictProperties allowed))) ∧
    ∀ p : Path, p.segments ≠ [] → Request.allows allowed p = true → ¬ Covered allowed p →
      ∃ a b, Agree (allowed.map .ofText) a b ∧
        build [] [a] (Request.restrictProperties { select := [p] } allowed) ≠
          build [] [b] (Request.restrictProperties { select := [p] } allowed) := by
  refine ⟨fun hreads => ⟨fun hsame => ?_, ?_⟩,
    fun p hp hallows hcovered => exists_of_not_covered hp hallows hcovered⟩
  · exact or_iff_not_imp_left.2 fun hloses => showsNothing_of_same hne hreads hloses (hsame [])
  · rintro (hkeeps | hnothing) start rows rows' hrows
    · exact build_congr start ((select_restrictProperties hne).2 hkeeps) (hreads.agree hrows)
    · exact ShowsNothing.same hnothing start rows rows'

/-- A row with a password. -/
def user (password : String) : Json := .obj [("id", .ofInt64 1), ("password", .str password)]

theorem user_agree (a b : String) : List.Forall₂ (Agree (["id"].map .ofText)) [user a] [user b] :=
  .cons (fun p hp => by obtain rfl := List.mem_singleton.1 hp; rfl) .nil

/-- A request for the password and the allowed property, by both. -/
def both : Request :=
  { select := [.ofText "password", .ofText "id"], order := [⟨.ofText "password", .ascending⟩],
    condition := .leaf ⟨.ofText "password", .notNull, .one .null⟩ }

theorem build_restrictProperties_both :
    ReadsCovered ["id"] both ∧ KeepsSelection ["id"] both ∧
      build [] [user "x"] (both.restrictProperties ["id"]) =
        build [] [user "y"] (both.restrictProperties ["id"]) := by
  have hreads : ReadsCovered ["id"] both := by decide
  have hkeeps : KeepsSelection ["id"] both := by decide
  exact ⟨hreads, hkeeps,
    ((build_restrictProperties (by decide)).1 hreads).2 (.inl hkeeps) [] _ _ (user_agree "x" "y")⟩

/-- A request for the password alone shows it. -/
theorem build_restrictProperties_leak :
    List.Forall₂ (Agree (["id"].map .ofText)) [user "x"] [user "y"] ∧
      build [] [user "x"] (Request.restrictProperties { select := [.ofText "password"] } ["id"]) ≠
        build [] [user "y"]
          (Request.restrictProperties { select := [.ofText "password"] } ["id"]) := by
  refine ⟨user_agree "x" "y", fun hsame => ?_⟩
  have hrow : ∀ row : Json,
      build [] [row] (Request.restrictProperties { select := [.ofText "password"] } ["id"]) =
        .ok [row] := fun _ => rfl
  rw [hrow, hrow] at hsame
  simp [user] at hsame

end Memory

end StoreQuery
