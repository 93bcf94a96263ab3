import StoreQuery.Proofs.KeyValue.Calls
import StoreQuery.Proofs.KeyValue.Positions

/-!
# Caps on reads of one row

A store applies a limit before a filter. So a read of one row may ask for one item only if nothing
is filtered; a filtered read with a limit can miss the only item that matches.

A read that filters nothing is capped at one item. **A filtered read has the limit of the request,
or that of the base where the request has none** (`getOne_capped`). So it is uncapped exactly if
neither of them has a limit, and a client that sends a limit along may get nothing where there is
a match (`getOne_capped_missed`).
-/

namespace StoreQuery.KeyValue

open Journal

variable {σ : Type} {t : Table} {q base : Query} {r : Request} {store : Store σ}

theorem filter_capOne (q : Query) : (capOne q).filter = q.filter := by
  rw [capOne]
  split <;> rfl

theorem filter_sentOne (q : Query) : (sentOne q).filter = q.filter := by
  rw [sentOne]
  split
  · rfl
  · exact filter_capOne q

theorem limit_capOne_of_none (h : q.filter = none) : (capOne q).limit = some 1 := by
  rw [capOne, h]
  rfl

theorem capOne_of_filter (h : q.filter ≠ none) : capOne q = q :=
  if_neg (mt Option.isNone_iff_eq_none.1 h)

/-- Request and base leave a query without a limit only if neither has one; zero is none. -/
theorem limitOr_eq_none_iff {limit : Option UInt64} :
    limitOr r limit = none ↔ (r.limit = none ∨ r.limit = some 0) ∧ limit = none := by
  rw [limitOr, Option.or_eq_none_iff]
  refine and_congr_left' ?_
  cases r.limit with
  | none => exact ⟨fun _ => .inl rfl, fun _ => rfl⟩
  | some n =>
    rw [Option.filter_some]
    by_cases hn : n = 0
    · subst hn
      exact ⟨fun _ => .inr rfl, fun _ => rfl⟩
    · rw [if_pos (decide_eq_true (UInt64.pos_iff_ne_zero.2 hn))]
      have hsome : some n ≠ none := Option.some_ne_none n
      exact ⟨fun h => absurd h hsome,
        fun h => absurd (Option.some.inj (h.resolve_left hsome)) hn⟩

/-- **A read of one row is capped, unless it is filtered.** Then its limit is that of the request,
or else that of the base. -/
theorem getOne_capped (t : Table) (store : Store σ) (base : Query) (r : Request) (s : σ) :
    (∀ q, permitted t base r = .ok q → ∃ sent fault,
      calls (getOne t (some store.noted) base r) s = [⟨⟨q.kind, sent⟩, fault⟩] ∧
        sent.filter = q.filter) ∧
    ∀ entry ∈ calls (getOne t (some store.noted) base r) s, entry.call.kind ≠ .getItem →
      (entry.call.query.filter = none → entry.call.query.limit = some 1) ∧
      (entry.call.query.filter ≠ none →
        entry.call.query.limit = (r.limit.filter (0 < ·)).or base.limit ∧
        (entry.call.query.limit = none ↔
          (r.limit = none ∨ r.limit = some 0) ∧ base.limit = none)) := by
  refine ⟨fun q hq => ?_, fun entry hentry hkind => ?_⟩
  · obtain ⟨fault, hcalls⟩ := getOne_call hq store s
    exact ⟨sentOne q, fault, hcalls, filter_sentOne q⟩
  · obtain ⟨q, hpermitted, hcall⟩ := getOne_calls t store base r s entry hentry
    obtain ⟨hbuild, -⟩ := permitted_eq_ok_iff.1 hpermitted
    rw [hcall] at hkind ⊢
    have hsent : sentOne q = capOne q := if_neg hkind
    dsimp only
    rw [hsent, filter_capOne]
    refine ⟨limit_capOne_of_none, fun hfilter => ?_⟩
    have hlimit : (capOne q).limit = limitOr r base.limit := by
      rw [capOne_of_filter hfilter, limit_build hbuild hkind]
    exact ⟨hlimit, hlimit ▸ limitOr_eq_none_iff⟩

/-- A table of posts. -/
def posts : Table := { tableName := "posts", partitionKey := "id" }

/-- Ten posts without a title, and one with a title after them. A scan takes as many posts as its
limit says, and only then keeps those with a title, if it filters. -/
def shelved : Store Unit where
  getItem _ := pure none
  query _ := pure {}
  scan q :=
    let all : List Item := List.replicate 10 .empty ++ [.ofList [("title", .text "b")]]
    let taken := all.take (q.limit.getD 11).toNat
    pure { items := if q.filter.isNone then taken else taken.filter (·.contains "title") }

/-- Asks for a post by its title. -/
def titled : Request := { condition := .leaf ⟨.ofText "title", .eq, .one (.text "b")⟩ }

/-- A filtered read without limits is not capped, and one that filters nothing is. -/
theorem getOne_capped_titled :
    (∃ sent fault, calls (getOne posts (some shelved.noted) { tableName := "posts" } titled) () =
      [⟨⟨.scan, sent⟩, fault⟩] ∧ sent.filter = some "#title = :title" ∧ sent.limit = none) ∧
    ∃ sent fault, calls (getOne posts (some shelved.noted) { tableName := "posts" } {}) () =
      [⟨⟨.scan, sent⟩, fault⟩] ∧ sent.filter = none ∧ sent.limit = some 1 := by
  have hcapped := getOne_capped posts shelved { tableName := "posts" }
  have hsent : ∀ r filter, (permitted posts { tableName := "posts" } r).toOption.map
      (fun q => (q.kind, q.filter)) = some (.scan, filter) → ∃ sent fault,
        calls (getOne posts (some shelved.noted) { tableName := "posts" } r) () =
          [⟨⟨.scan, sent⟩, fault⟩] ∧ sent.filter = filter := by
    intro r filter hview
    obtain ⟨q, hq, hparts⟩ := exists_of_toOption hview
    obtain ⟨hkind, hfilter⟩ := Prod.mk.inj hparts
    obtain ⟨hone, -⟩ := hcapped r ()
    obtain ⟨sent, fault, hcalls, hsame⟩ := hone q hq
    exact ⟨sent, fault, hkind ▸ hcalls, hsame.trans hfilter⟩
  have hscan : QueryKind.scan ≠ .getItem := by decide
  constructor
  · obtain ⟨sent, fault, hcalls, hfilter⟩ :=
      hsent titled (some "#title = :title") (by decide +kernel)
    obtain ⟨-, hlimits⟩ := hcapped titled ()
    obtain ⟨-, hfiltered⟩ := hlimits _ (by rw [hcalls]; exact List.mem_singleton_self _) hscan
    have hlimit := hfiltered (by rw [hfilter]; exact Option.some_ne_none _)
    exact ⟨sent, fault, hcalls, hfilter, hlimit.2.2 ⟨.inl rfl, rfl⟩⟩
  · obtain ⟨sent, fault, hcalls, hfilter⟩ := hsent {} none (by decide +kernel)
    obtain ⟨-, hlimits⟩ := hcapped {} ()
    obtain ⟨hunfiltered, -⟩ := hlimits _ (by rw [hcalls]; exact List.mem_singleton_self _) hscan
    exact ⟨sent, fault, hcalls, hfilter, hunfiltered hfilter⟩

/-- A limit of ten hides the post behind the first ten. -/
theorem getOne_capped_missed :
    (calls (getOne posts (some shelved.noted) { tableName := "posts" }
        { titled with limit := some 10 }) ()).map
        (fun entry => (entry.call.kind, entry.call.query.filter, entry.call.query.limit)) =
      [(.scan, some "#title = :title", some 10)] ∧
    outcome (getOne posts (some shelved.noted) { tableName := "posts" }
      { titled with limit := some 10 }) () = .ok none ∧
    outcome (getOne posts (some shelved.noted) { tableName := "posts" } titled) () =
      .ok (some (.obj [("title", .str "b")])) := by
  exact ⟨by decide +kernel, rfl, rfl⟩

end StoreQuery.KeyValue
