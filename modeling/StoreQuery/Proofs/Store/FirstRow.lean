import StoreQuery.Proofs.Memory.Pages
import StoreQuery.Proofs.Store.Journal

/-!
# The first row

A request for one row is about the first row that it accepts, and which part of the result it asks
for should not matter. Rows in memory, relational stores and models read so. A cursor does not: it
is built with the part that is asked for, so its first document is the first one of that part
(`firstRow_skipped`).

What a cursor reads depends on the part only through skip and limit. So **two requests that differ
only in the part read the same, if they leave the cursor with the same skip and the same limit**,
and otherwise there is a collection that tells them apart (`firstRow_withPart`).
-/

namespace StoreQuery

open Journal

variable {σ : Type}

/-- The same request for another part of the result. -/
def Request.withPart (r : Request) (limit offset page : Option UInt64) : Request :=
  { r with limit, offset, page }

variable {r : Request} {limit offset page : Option UInt64}

namespace Memory

theorem getOne_withPart (s : Sorting) (start : Json.Members) (rows : List Json) :
    s.getOne start rows (r.withPart limit offset page) =
      (s.build start rows (r.withPart none none none)).map List.head? := by
  have hmatching : ∀ limit offset page, s.matching rows (r.withPart limit offset page) =
      s.matching rows r := fun _ _ _ => rfl
  cases hrows : s.matching rows r with
  | error e =>
    rw [Sorting.getOne, Sorting.build, hmatching, hmatching, hrows]
    rfl
  | ok sorted =>
    rw [Sorting.getOne_eq ((hmatching limit offset page).trans hrows),
      Sorting.build_eq ((hmatching none none none).trans hrows)]
    rfl

end Memory

namespace Sql

variable {schema : Schema} {base : Query}

theorem getOne_withPart (store : Option (Store σ)) :
    getOne schema store base (r.withPart limit offset page) = getOne schema store base r := rfl

theorem getOne_callsOnly (schema : Schema) (store : Store σ) (base : Query) (r : Request) :
    CallsOnly (fun call => ∃ q, buildAll schema base r = .ok q ∧ call = .fetchOne q)
      (getOne schema (some store.noted) base r) := by
  rw [getOne, attached_bind]
  exact .after (prepare_runs schema base r) fun q hq => .noting _ ⟨q, hq, rfl⟩

end Sql

namespace Document

namespace ModelQuery

theorem getOne_withPart (model : Option (Model σ)) (base : ModelQuery) :
    getOne model base (r.withPart limit offset page) = getOne model base r := rfl

theorem getOne_callsOnly (model : Model σ) (base : ModelQuery) (r : Request) :
    CallsOnly (fun call => ∃ q, base.build (r.withPart none none none) = .ok q ∧
      call = .exec { q with limit := some 1 }) (getOne (some model.noted) base r) := by
  rw [getOne, attached_bind]
  refine .after (prepare_runs base r) fun q hq => .bind (.noting _ ⟨_, ?_, rfl⟩) fun rows => .pure _
  show (base.restrict r).map _ = _
  rw [hq]
  rfl

end ModelQuery

namespace Cursor

variable {base c : Cursor}

/-- Two requests leave a cursor with the same skip and the same limit. -/
def SamePart (base : Cursor) (r r' : Request) : Prop :=
  (base.paginate r).skip = (base.paginate r').skip ∧
    (base.paginate r).limit = (base.paginate r').limit

theorem paginate_eq_iff (hskip : c.skip = base.skip) (hlimit : c.limit = base.limit)
    {r r' : Request} : c.paginate r = c.paginate r' ↔ SamePart base r r' := by
  simp only [SamePart, paginate, Cursor.mk.injEq, true_and, hskip, hlimit]

/-- A request for another part leaves the cursor as it is only if the part is the same. -/
theorem build_withPart_iff :
    base.build (r.withPart limit offset page) = base.build r ↔
      (∃ e, Document.filter r.condition = .error e) ∨
        SamePart base (r.withPart limit offset page) r := by
  have hadapt : base.adapt (r.withPart limit offset page) = base.adapt r := rfl
  rw [build, build, hadapt]
  cases hfilter : Document.filter r.condition with
  | error e =>
    rw [adapt, hfilter]
    exact ⟨fun _ => .inl ⟨e, rfl⟩, fun _ => rfl⟩
  | ok document =>
    obtain ⟨c, hc, hskip, hlimit⟩ :
        ∃ c, base.adapt r = .ok c ∧ c.skip = base.skip ∧ c.limit = base.limit := by
      rw [adapt, hfilter]
      exact ⟨_, rfl, rfl, rfl⟩
    rw [hc]
    constructor
    · exact fun h => .inr ((paginate_eq_iff hskip hlimit).1 (Except.ok.inj h))
    · rintro (⟨e, ⟨⟩⟩ | hsame)
      exact congrArg Except.ok ((paginate_eq_iff hskip hlimit).2 hsame)

theorem getOne_congr {r r' : Request} (h : base.build r = base.build r')
    (collection : Option (Collection σ)) :
    getOne collection base r = getOne collection base r' := by
  rw [getOne, getOne, prepare, prepare, h]

theorem getOne_callsOnly (collection : Collection σ) (base : Cursor) (r : Request) :
    CallsOnly (fun call => ∃ c, base.build r = .ok c ∧ call = .findOne c)
      (getOne (some collection.noted) base r) := by
  rw [getOne, attached_bind]
  exact .after (prepare_runs base r) fun c hc => .noting _ ⟨c, hc, rfl⟩

theorem exists_call_getOne (collection : Collection σ) (hbuild : base.build r = .ok c) (s : σ) :
    ∃ fault, calls (getOne (some collection.noted) base r) s = [⟨.findOne c, fault⟩] := by
  rw [getOne, attached_bind, prepare, hbuild]
  exact exists_calls_noting (Collection.Call.findOne c) (collection.findOne c) s

theorem calls_withPart_iff (collection : Collection σ) (s : σ) :
    calls (getOne (some collection.noted) base (r.withPart limit offset page)) s =
        calls (getOne (some collection.noted) base r) s ↔
      base.build (r.withPart limit offset page) = base.build r := by
  refine ⟨fun h => ?_, fun h => by rw [getOne_congr h]⟩
  cases hfilter : Document.filter r.condition with
  | error e => exact build_withPart_iff.2 (.inl ⟨e, hfilter⟩)
  | ok document =>
    obtain ⟨c, hc⟩ : ∃ c, base.build r = .ok c := by
      rw [build, adapt, hfilter]
      exact ⟨_, rfl⟩
    obtain ⟨c', hc'⟩ : ∃ c, base.build (r.withPart limit offset page) = .ok c := by
      rw [build, adapt, Request.withPart, hfilter]
      exact ⟨_, rfl⟩
    obtain ⟨fault, hcalls⟩ := exists_call_getOne collection hc s
    obtain ⟨fault', hcalls'⟩ := exists_call_getOne collection hc' s
    rw [hcalls, hcalls'] at h
    injection h with h
    injection h with h
    injection h with h
    rw [hc, hc', h]

end Cursor

end Document

/-- **The first row does not depend on the part that is asked for**, but for a cursor, where skip
and limit have to be the same. -/
theorem firstRow_withPart (sorting : Memory.Sorting) (start : Json.Members) (rows : List Json)
    (schema : Sql.Schema) (sqlStore : Sql.Store σ) (sqlBase : Sql.Query)
    (model : Document.Model σ) (modelBase : Document.ModelQuery)
    (collection : Document.Collection σ) (base : Document.Cursor) (s : σ) (r : Request)
    (limit offset page : Option UInt64) :
    sorting.getOne start rows (r.withPart limit offset page) =
      (sorting.build start rows (r.withPart none none none)).map List.head? ∧
    ((∀ (τ : Type) (store : Option (Sql.Store τ)),
        Sql.getOne schema store sqlBase (r.withPart limit offset page) =
          Sql.getOne schema store sqlBase r) ∧
      ∀ entry ∈ calls (Sql.getOne schema (some sqlStore.noted) sqlBase r) s,
        ∃ q, Sql.buildAll schema sqlBase r = .ok q ∧ entry.call = .fetchOne q) ∧
    ((∀ (τ : Type) (model : Option (Document.Model τ)),
        Document.ModelQuery.getOne model modelBase (r.withPart limit offset page) =
          Document.ModelQuery.getOne model modelBase r) ∧
      ∀ entry ∈ calls (Document.ModelQuery.getOne (some model.noted) modelBase r) s,
        ∃ q, modelBase.build (r.withPart none none none) = .ok q ∧
          entry.call = .exec { q with limit := some 1 }) ∧
    ((calls (Document.Cursor.getOne (some collection.noted) base
          (r.withPart limit offset page)) s =
          calls (Document.Cursor.getOne (some collection.noted) base r) s ↔
        (∃ e, Document.filter r.condition = .error e) ∨
          base.SamePart (r.withPart limit offset page) r) ∧
      ((∀ (τ : Type) (collection : Option (Document.Collection τ)),
          Document.Cursor.getOne collection base (r.withPart limit offset page) =
            Document.Cursor.getOne collection base r) ↔
        (∃ e, Document.filter r.condition = .error e) ∨
          base.SamePart (r.withPart limit offset page) r) ∧
      ∀ entry ∈ calls (Document.Cursor.getOne (some collection.noted) base r) s,
        ∃ c, base.build r = .ok c ∧ entry.call = .findOne c) := by
  refine ⟨Memory.getOne_withPart sorting start rows,
    ⟨fun τ store => Sql.getOne_withPart store,
      (Sql.getOne_callsOnly schema sqlStore sqlBase r).of_run s⟩,
    ⟨fun τ model => Document.ModelQuery.getOne_withPart model modelBase,
      (Document.ModelQuery.getOne_callsOnly model modelBase r).of_run s⟩,
    ⟨?calls, ⟨fun h => ?apart, fun h => ?same⟩,
      (Document.Cursor.getOne_callsOnly collection base r).of_run s⟩⟩
  case calls =>
    rw [Document.Cursor.calls_withPart_iff, Document.Cursor.build_withPart_iff]
  case apart =>
    -- The journal tells the cursors apart, whatever the collection answers.
    have hcalls := congrArg (calls · s) (h _ (some collection.noted))
    rwa [Document.Cursor.calls_withPart_iff, Document.Cursor.build_withPart_iff] at hcalls
  case same =>
    intro τ collection
    exact Document.Cursor.getOne_congr (Document.Cursor.build_withPart_iff.2 h) collection

/-- Two documents. -/
def twoDocuments : List Json := [.obj [("id", .ofInt64 1)], .obj [("id", .ofInt64 2)]]

/-- The collection of the two documents. It accepts every filter. -/
def twoCollected : Document.Collection Unit where
  find c := pure (Memory.slice (c.skip.getD 0) c.limit twoDocuments)
  findOne c := pure (Memory.slice (c.skip.getD 0) (some 1) twoDocuments).head?
  count _ := pure 2

/-- An offset that the base has already makes no difference. -/
theorem firstRow_withPart_base :
    calls (Document.Cursor.getOne (some twoCollected.noted) { skip := some 1 }
        (({} : Request).withPart none (some 1) none)) () = [⟨.findOne { skip := some 1 }, none⟩] ∧
      (∀ entry ∈ calls (Document.Cursor.getOne (some twoCollected.noted) { skip := some 1 } {}) (),
        ∃ c, Document.Cursor.build { skip := some 1 } {} = .ok c ∧ entry.call = .findOne c) ∧
      outcome (Document.Cursor.getOne (some twoCollected.noted) { skip := some 1 }
        (({} : Request).withPart none (some 1) none)) () =
        .ok (some (.obj [("id", .ofInt64 2)])) ∧
      Memory.Sorting.insertion.getOne [] twoDocuments
        (({} : Request).withPart none (some 1) none) = .ok (some (.obj [("id", .ofInt64 1)])) := by
  obtain ⟨hmemory, -, -, hcalls, hsame, hsent⟩ := firstRow_withPart .insertion [] twoDocuments
    ⟨{}, {}, false⟩ ⟨fun _ => pure [], fun _ => pure none, fun _ => pure 0⟩ (.of "post" "p")
    ⟨fun _ => pure [], fun _ => pure 0⟩ {} twoCollected { skip := some 1 } () {} none (some 1) none
  have hpart : Document.Cursor.SamePart { skip := some 1 }
      (({} : Request).withPart none (some 1) none) {} := ⟨rfl, rfl⟩
  exact ⟨hcalls.2 (.inr hpart), hsent,
    (congrArg (outcome · ()) (hsame.2 (.inr hpart) _ (some twoCollected.noted))), hmemory⟩

/-- A cursor reads the second document if an offset is asked for. -/
theorem firstRow_skipped :
    calls (Document.Cursor.getOne (some twoCollected.noted) {} {}) () =
        [⟨.findOne {}, none⟩] ∧
      outcome (Document.Cursor.getOne (some twoCollected.noted) {} {}) () =
        .ok (some (.obj [("id", .ofInt64 1)])) ∧
      calls (Document.Cursor.getOne (some twoCollected.noted) {}
        (({} : Request).withPart none (some 1) none)) () =
        [⟨.findOne { skip := some 1 }, none⟩] ∧
      outcome (Document.Cursor.getOne (some twoCollected.noted) {}
        (({} : Request).withPart none (some 1) none)) () =
        .ok (some (.obj [("id", .ofInt64 2)])) :=
  ⟨rfl, rfl, rfl, rfl⟩

end StoreQuery
