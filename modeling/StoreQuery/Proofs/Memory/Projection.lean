import Mathlib.Data.List.Induction
import StoreQuery.Memory.Query
import StoreQuery.Proofs.Memory.Lookup

/-!
# What projections show

The values of the selected paths are put into one object, one after the other, null where the row
has none. A null that is put below another selected path goes into the value that stands there, or
takes its place; and that value, put later, takes the place of the null.

**A path shows the value of its row unless it meets such a null** (`shows_of_undisturbed`). A value
that the row has does no harm, wherever it is put: what it is put into is the value of the row
already, or will be.

**So a projection shows the values of its row exactly if no selected path without a value leads
below another one** (`project_shows`), and otherwise it depends on the order of the paths.
-/

namespace StoreQuery

/-- A path that leads on from the end of another one. -/
def Path.Below (p q : Path) : Prop := q.segments <+: p.segments ∧ p ≠ q

instance (p q : Path) : Decidable (p.Below q) := inferInstanceAs (Decidable (_ ∧ _))

theorem Path.Below.exists_append {p q : Path} (h : p.Below q) :
    ∃ rest, rest ≠ [] ∧ p.segments = q.segments ++ rest := by
  obtain ⟨⟨rest, hrest⟩, hne⟩ := h
  refine ⟨rest, ?_, hrest.symm⟩
  rintro rfl
  cases p
  cases q
  simp_all

namespace Memory

/-- What a projection shows of a row at a path. -/
def shownAt (row : Json) (p : Path) : Json := (row.atPath? p).getD .null

/-- An object has at a path what the row has there, or null. -/
def Shows (object row : Json) (p : Path) : Prop := object.atPath? p = some (shownAt row p)

/-- Selected paths that lead below other ones have values in the row. -/
def Settled (select : List Path) (row : Json) : Prop :=
  ∀ p ∈ select, ∀ q ∈ select, p.Below q → row.atPath? p ≠ none

instance (select : List Path) (row : Json) : Decidable (Settled select row) :=
  inferInstanceAs (Decidable (∀ p ∈ select, ∀ q ∈ select, _))

/-- A path is neither above nor below a selected one where the lower of the two has no value. -/
def Undisturbed (select : List Path) (row : Json) (p : Path) : Prop :=
  ∀ q ∈ select, (q.Below p → row.atPath? q ≠ none) ∧ (p.Below q → row.atPath? p ≠ none)

/-- The members that a projection has when the values of all paths are put in. -/
def projected (start : Json.Members) (select : List Path) (row : Json) : Json.Members :=
  select.foldl (fun members p => Json.putAt p.segments (shownAt row p) members) start

variable {start : Json.Members} {select : List Path} {row : Json} {p q : Path}

theorem project_eq (start : Json.Members) (select : List Path) (row : Json) :
    project start select row = .obj (projected start select row) := rfl

theorem projected_append (start : Json.Members) (select : List Path) (row : Json) (q : Path) :
    projected start (select ++ [q]) row =
      Json.putAt q.segments (shownAt row q) (projected start select row) := by
  rw [projected, List.foldl_append]
  rfl

/-! ## One value more -/

theorem atPath?_of_below {value : Json} (h : p.Below q) (hvalue : row.atPath? p = some value) :
    ∃ rest inner, p.segments = q.segments ++ rest ∧ row.atPath? q = some inner ∧
      Json.at? rest inner = some value := by
  obtain ⟨rest, -, hsegments⟩ := h.exists_append
  rw [Json.atPath?, hsegments, Json.at?_append] at hvalue
  obtain ⟨inner, hinner, hvalue⟩ := Option.bind_eq_some_iff.1 hvalue
  exact ⟨rest, inner, hsegments, hinner, hvalue⟩

/-- A value that is put in leaves alone what is shown elsewhere, and also above and below itself
where the row has values. -/
theorem shows_putAt {members : Json.Members} (hshows : Shows (.obj members) row p)
    (hnonempty : q.segments ≠ []) (hne : q ≠ p) (hq : q.Below p → row.atPath? q ≠ none)
    (hp : p.Below q → row.atPath? p ≠ none) :
    Shows (.obj (Json.putAt q.segments (shownAt row q) members)) row p := by
  by_cases habove : p.segments <+: q.segments
  · -- The value is a part of what is shown already.
    have hbelow : q.Below p := ⟨habove, hne⟩
    obtain ⟨value, hvalue⟩ := Option.ne_none_iff_exists'.1 (hq hbelow)
    obtain ⟨rest, inner, hsegments, hinner, hrest⟩ := atPath?_of_below hbelow hvalue
    have hthere : Json.at? q.segments (.obj members) = some value := by
      rw [Shows, shownAt, hinner, Option.getD_some, Json.atPath?] at hshows
      rw [hsegments, Json.at?_append, hshows, Option.bind_some, hrest]
    have hsame : shownAt row q = value := by rw [shownAt, hvalue, Option.getD_some]
    rwa [hsame, Json.putAt_self hthere]
  by_cases hunder : q.segments <+: p.segments
  · -- What is shown is a part of the value that takes its place.
    have hbelow : p.Below q := ⟨hunder, Ne.symm hne⟩
    obtain ⟨value, hvalue⟩ := Option.ne_none_iff_exists'.1 (hp hbelow)
    obtain ⟨rest, inner, hsegments, hinner, hrest⟩ := atPath?_of_below hbelow hvalue
    rw [Shows, Json.atPath?, hsegments, Json.at?_append, Json.at?_putAt _ _ hnonempty,
      Option.bind_some, shownAt, hinner, Option.getD_some, hrest, shownAt, hvalue, Option.getD_some]
  · rw [Shows, Json.atPath?, Json.at?_putAt_of_apart _ _ hunder habove]
    exact hshows

/-! ## All values -/

/-- **A selected path that is not disturbed shows the value of the row.** -/
theorem shows_of_undisturbed (hselect : ∀ q ∈ select, q.segments ≠ []) (hp : p ∈ select)
    (h : Undisturbed select row p) : Shows (project start select row) row p := by
  rw [project_eq]
  induction select using List.reverseRecOn with
  | nil => cases hp
  | append_singleton select q ih =>
    obtain ⟨hbefore, hlast⟩ := List.forall_mem_append.1 hselect
    obtain ⟨hundisturbed, hq⟩ := List.forall_mem_append.1 h
    have hnonempty := hlast q (List.mem_singleton_self q)
    rw [projected_append]
    by_cases hsame : q = p
    · subst hsame
      exact Json.at?_putAt _ _ hnonempty
    · have hmem : p ∈ select := by
        refine (List.mem_append.1 hp).resolve_right fun hlast => ?_
        exact hsame (List.mem_singleton.1 hlast).symm
      obtain ⟨habove, hbelow⟩ := hq q (List.mem_singleton_self q)
      exact shows_putAt (ih hbefore hmem hundisturbed) hnonempty hsame habove hbelow

theorem Settled.undisturbed (h : Settled select row) (hp : p ∈ select) : Undisturbed select row p :=
  fun q hq => ⟨h q hq p hp, h p hp q hq⟩

theorem at?_shownAt {rest : List String} (hne : rest ≠ [])
    (hsegments : p.segments = q.segments ++ rest) (hnone : row.atPath? p = none) :
    Json.at? rest (shownAt row q) = none := by
  rw [Json.atPath?, hsegments, Json.at?_append] at hnone
  rw [shownAt, Json.atPath?]
  cases hinner : Json.at? q.segments row with
  | none =>
    obtain ⟨name, more, rfl⟩ := List.exists_cons_of_ne_nil hne
    rfl
  | some inner => rwa [hinner] at hnone

theorem ne_shownAt {object : Json} (hbelow : p.Below q) (hnone : row.atPath? p = none)
    (hnull : object.atPath? p = some .null) : (object.atPath? q).getD .null ≠ shownAt row q := by
  obtain ⟨rest, hne, hsegments⟩ := hbelow.exists_append
  rw [Json.atPath?, hsegments, Json.at?_append] at hnull
  obtain ⟨inner, hinner, hnull⟩ := Option.bind_eq_some_iff.1 hnull
  intro hsame
  rw [Json.atPath?, hinner, Option.getD_some] at hsame
  rw [hsame, at?_shownAt hne hsegments hnone] at hnull
  cases hnull

theorem shownAt_of_none (hnone : row.atPath? p = none) : shownAt row p = .null := by
  rw [shownAt, hnone, Option.getD_none]

/-- **A projection shows the values of its row exactly if no selected path without a value leads
below another selected one**, and in every order of the paths exactly then, also where a value
that is not there counts as null. Any path that has to do with no such pair is shown as it is in
the row. -/
theorem project_shows (start : Json.Members) (row : Json)
    (hselect : ∀ p ∈ select, p.segments ≠ []) :
    (∀ p ∈ select, Undisturbed select row p → Shows (project start select row) row p) ∧
    ((∀ p ∈ select, Shows (project start select row) row p) ↔ Settled select row) ∧
    ((∀ select' : List Path, select'.Perm select → ∀ p ∈ select',
      ((project start select' row).atPath? p).getD .null = (row.atPath? p).getD .null) ↔
        Settled select row) := by
  refine ⟨fun p hp h => shows_of_undisturbed hselect hp h, ⟨fun h => ?_, fun h p hp => ?_⟩,
    ⟨fun h => ?_, fun h => ?_⟩⟩
  · intro p hp q hq hbelow hnone
    have hnull : (project start select row).atPath? p = some .null :=
      (h p hp).trans (congrArg some (shownAt_of_none hnone))
    refine ne_shownAt hbelow hnone hnull ?_
    rw [h q hq, Option.getD_some]
  · exact shows_of_undisturbed hselect hp (h.undisturbed hp)
  · intro p hp q hq hbelow hnone
    -- Put last, the null stands below the other path.
    have hperm : (select.erase p ++ [p]).Perm select :=
      (List.perm_append_singleton p _).trans (List.perm_cons_erase hp).symm
    have hnull : (project start (select.erase p ++ [p]) row).atPath? p = some .null := by
      rw [project_eq, projected_append, shownAt_of_none hnone]
      exact Json.at?_putAt _ _ (hselect p hp)
    exact ne_shownAt hbelow hnone hnull (h _ hperm q (hperm.mem_iff.2 hq))
  · intro select' hperm p hp
    have hselect' : ∀ p ∈ select', p.segments ≠ [] := fun p hp => hselect p (hperm.mem_iff.1 hp)
    have hsettled : Settled select' row := fun p hp q hq =>
      h p (hperm.mem_iff.1 hp) q (hperm.mem_iff.1 hq)
    have hshows : Shows (project start select' row) row p :=
      shows_of_undisturbed hselect' hp (hsettled.undisturbed hp)
    rw [hshows, Option.getD_some]
    rfl

/-- A row with a category, and no author. -/
def article : Json :=
  .obj [("id", .ofInt64 1), ("category", .obj [("id", .ofInt64 2), ("name", .str "news")])]

/-- Paths above and below each other, and one without a value. -/
def overlapping : List Path :=
  [⟨["category", "name"]⟩, ⟨["category"]⟩, ⟨["author", "name"]⟩, ⟨["category", "id"]⟩]

/-- The path of the author goes through a text that the projection starts with, and takes
its place. -/
theorem project_shows_overlapping :
    (∀ p ∈ overlapping, p.segments ≠ []) ∧ Settled overlapping article ∧
      ∀ p ∈ overlapping,
        Shows (project [("author", .str "none")] overlapping article) article p := by
  have hselect : ∀ p ∈ overlapping, p.segments ≠ [] := by decide
  have hsettled : Settled overlapping article := by decide
  obtain ⟨-, hshows, -⟩ := project_shows [("author", .str "none")] article hselect
  exact ⟨hselect, hsettled, hshows.2 hsettled⟩

/-- **A null that is put below a number takes its place**, and the number that of the null if it is
put last. -/
theorem project_shows_overwritten :
    build [] [.obj [("a", .ofInt64 5)]] { select := [⟨["a"]⟩, ⟨["a", "b"]⟩] } =
        .ok [.obj [("a", .obj [("b", .null)])]] ∧
      build [] [.obj [("a", .ofInt64 5)]] { select := [⟨["a", "b"]⟩, ⟨["a"]⟩] } =
        .ok [.obj [("a", .ofInt64 5)]] ∧
      ((project [] [⟨["a"]⟩, ⟨["a", "b"]⟩] (.obj [("a", .ofInt64 5)])).atPath? ⟨["a"]⟩).getD .null ≠
        shownAt (.obj [("a", .ofInt64 5)]) ⟨["a"]⟩ :=
  ⟨rfl, rfl, nofun⟩

end Memory

end StoreQuery
