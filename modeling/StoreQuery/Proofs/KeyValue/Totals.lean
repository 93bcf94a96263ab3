import StoreQuery.Proofs.KeyValue.Calls
import StoreQuery.Proofs.KeyValue.Positions

/-!
# Totals

The total of a page is counted by a read of its own, part by part. Its first call has the start key
of the base, so **the total is that of the rows behind the start key** and not of all rows
(`getMany_total`): bases that differ in their limit make the same calls for it, and bases that
differ in their start key never do. Where the count from one base comes to the start key of
another one, the totals differ by the rows in between (`Reaches.rest`).

A count is a sum, so what it starts from may be added in the end (`countParts_add`), and a count
that has ended needs no more budget (`countParts_mono`).
-/

namespace StoreQuery.KeyValue

open Journal

variable {σ : Type} {t : Table} {q base : Query} {r : Request} {store : Store σ} {s u : σ}
  {budget : Nat} {total n m : UInt64} {key : Item}

/-! ## Counts -/

theorem countRequest_positioned (q : Query) (limit : Option UInt64) (startKey : Option Item) :
    (q.positioned limit startKey).countRequest = { q.countRequest with startKey } := rfl

theorem countRows_of_enabled (h : t.disableCount = false) (store : Store σ) (budget : Nat)
    (q : Query) : countRows t store budget q = store.countParts budget q.countRequest 0 := by
  rw [countRows, h]
  rfl

namespace Store

theorem countParts_succ_eq_ok_iff : store.countParts (budget + 1) q total s = .ok m u ↔
    ∃ output v, store.run q s = .ok output v ∧
      ((output.nextKey = none ∧ m = total + output.count ∧ u = v) ∨
        ∃ key, output.nextKey = some key ∧
          store.countParts budget { q with startKey := some key } (total + output.count) v =
            .ok m u) := by
  rw [countParts, run_bind_eq_ok]
  refine exists_congr fun output => exists_congr fun v => and_congr_right' ?_
  cases output.nextKey with
  | none =>
    constructor
    · rintro ⟨⟩
      exact .inl ⟨rfl, rfl, rfl⟩
    · rintro (⟨-, rfl, rfl⟩ | ⟨key, ⟨⟩, -⟩)
      rfl
  | some key =>
    constructor
    · exact fun h => .inr ⟨key, rfl, h⟩
    · rintro (⟨⟨⟩, -, -⟩ | ⟨key, ⟨⟩, h⟩)
      exact h

theorem countParts_add (h : store.countParts budget q (n + total) s = .ok m u) :
    ∃ rest, store.countParts budget q total s = .ok rest u ∧ m = n + rest := by
  induction budget generalizing q total s with
  | zero => cases h
  | succ budget ih =>
    obtain ⟨output, v, hrun, ⟨hnext, rfl, rfl⟩ | ⟨key, hnext, hrest⟩⟩ :=
      countParts_succ_eq_ok_iff.1 h
    · refine ⟨total + output.count, ?_, UInt64.add_assoc ..⟩
      exact countParts_succ_eq_ok_iff.2 ⟨output, u, hrun, .inl ⟨hnext, rfl, rfl⟩⟩
    · rw [UInt64.add_assoc] at hrest
      obtain ⟨rest, hcounted, rfl⟩ := ih hrest
      refine ⟨rest, ?_, rfl⟩
      exact countParts_succ_eq_ok_iff.2 ⟨output, v, hrun, .inr ⟨key, hnext, hcounted⟩⟩

theorem countParts_mono {budget' : Nat} (h : store.countParts budget q total s = .ok m u)
    (hle : budget ≤ budget') : store.countParts budget' q total s = .ok m u := by
  induction budget generalizing q total s budget' with
  | zero => cases h
  | succ budget ih =>
    obtain _ | budget' := budget'
    · exact absurd hle (Nat.not_succ_le_zero budget)
    obtain ⟨output, v, hrun, hdone | ⟨key, hnext, hrest⟩⟩ := countParts_succ_eq_ok_iff.1 h
    · exact countParts_succ_eq_ok_iff.2 ⟨output, v, hrun, .inl hdone⟩
    · refine countParts_succ_eq_ok_iff.2 ⟨output, v, hrun, .inr ⟨key, hnext, ?_⟩⟩
      exact ih hrest (Nat.le_of_succ_le_succ hle)

/-- From a query, a count comes to a start key after it has counted some rows. The store is not
changed on the way. -/
inductive Reaches (store : Store σ) (s : σ) : Query → UInt64 → Item → Prop
  | here {q : Query} {output : Output} {key : Item} (hrun : store.run q s = .ok output s)
      (hnext : output.nextKey = some key) : Reaches store s q output.count key
  | later {q : Query} {output : Output} {key key' : Item} {counted : UInt64}
      (hrun : store.run q s = .ok output s) (hnext : output.nextKey = some key)
      (hrest : Reaches store s { q with startKey := some key } counted key') :
      Reaches store s q (output.count + counted) key'

/-- A count that has a next key is that of the first part and that of the others. -/
theorem countParts_of_next {output : Output} (hrun : store.run q s = .ok output s)
    (hnext : output.nextKey = some key) (h : store.countParts budget q total s = .ok m u) :
    ∃ rest, store.countParts budget { q with startKey := some key } total s = .ok rest u ∧
      m = output.count + rest := by
  obtain _ | budget := budget
  · cases h
  obtain ⟨output', v, hrun', hcases⟩ := countParts_succ_eq_ok_iff.1 h
  obtain ⟨rfl, rfl⟩ := EStateM.Result.ok.inj (hrun.symm.trans hrun')
  obtain ⟨hnone, -, -⟩ | ⟨key', hnext', hrest⟩ := hcases
  · rw [hnext] at hnone
    cases hnone
  · obtain rfl := Option.some.inj (hnext.symm.trans hnext')
    rw [UInt64.add_comm] at hrest
    obtain ⟨rest, hrest, hm⟩ := countParts_add hrest
    exact ⟨rest, countParts_mono hrest (Nat.le_succ budget), hm⟩

/-- **A count from a key that another one reaches is the rest of it.** -/
theorem Reaches.rest {counted : UInt64} (hreach : store.Reaches s q counted key)
    (h : store.countParts budget q total s = .ok m u) :
    ∃ rest, store.countParts budget { q with startKey := some key } total s = .ok rest u ∧
      m = counted + rest := by
  induction hreach generalizing m with
  | here hrun hnext => exact countParts_of_next hrun hnext h
  | later hrun hnext _ ih =>
    obtain ⟨rest, hrest, rfl⟩ := countParts_of_next hrun hnext h
    obtain ⟨rest', hrest', rfl⟩ := ih hrest
    exact ⟨rest', hrest', (UInt64.add_assoc ..).symm⟩

/-! ## Calls of counts -/

theorem countParts_mirrors (store : Store σ) (budget : Nat) (q : Query) (total : UInt64)
    (hkind : q.kind ≠ .getItem) :
    Mirrors (store.noted.countParts budget q total) (store.countParts budget q total) := by
  induction budget generalizing q total with
  | zero => exact .throw _
  | succ budget ih =>
    rw [countParts, countParts, run_noted store hkind]
    refine .bind (.noting _ _) fun output => ?_
    cases output.nextKey with
    | none => exact .pure _
    | some key => exact ih { q with startKey := some key } (total + output.count) hkind

theorem countParts_calls (store : Store σ) (hbudget : 0 < budget) (hkind : q.kind ≠ .getItem)
    (total : UInt64) (s : σ) : ∃ fault later,
      calls (store.noted.countParts budget q total) s = ⟨⟨q.kind, q⟩, fault⟩ :: later := by
  obtain _ | budget := budget
  · exact absurd hbudget (Nat.lt_irrefl 0)
  rw [countParts, run_noted store hkind]
  refine exists_calls_noting_bind (fun output => ?_) s
  cases output.nextKey with
  | none => exact ⟨_, .pure _⟩
  | some key => exact ⟨_, countParts_mirrors store budget { q with startKey := some key } _ hkind⟩

end Store

/-! ## Pages -/

/-- The calls that a read of many rows makes for its total: all but the first one. -/
def countCalls (t : Table) (store : Store σ) (budget : Nat) (base : Query) (r : Request) (s : σ) :
    List (Entry Call) :=
  (calls (getMany t (some store.noted) budget base r) s).tail

/-- The total that a read of many rows reports. -/
def reportedTotal (t : Table) (store : Store σ) (budget : Nat) (base : Query) (r : Request)
    (s : σ) : Except Error UInt64 :=
  (outcome (getMany t (some store.noted) budget base r) s).map Page.total

theorem getMany_runs (hpermitted : permitted t base r = .ok q) (hkind : q.kind ≠ .getItem)
    {output : Output} (hdata : store.run q s = .ok output u) {counts : List (Entry Call)}
    {reply : Except Error UInt64} {v : σ}
    (hcount : Runs (countRows t store.noted budget q) u counts reply v) :
    Runs (getMany t (some store.noted) budget base r) s (⟨⟨q.kind, q⟩, none⟩ :: counts)
      (reply.map fun total => .shape (output.items.map Item.toJson) total 0 r.limit) v := by
  have hprepared := prepare_runs t base r s
  rw [hpermitted] at hprepared
  rw [getMany_eq]
  refine hprepared.after ?_
  rw [Store.readMany, if_neg hkind, Store.run_noted store hkind]
  exact (Runs.answered _ hdata).bind (hcount.map _)

/-- Where the rows are answered, the calls for the total and the total are those of a count. -/
theorem getMany_counts (budget : Nat) (hcounting : t.disableCount = false)
    (hpermitted : permitted t base r = .ok q) (hkind : q.kind ≠ .getItem)
    {output : Output} (hdata : store.run q s = .ok output s) :
    countCalls t store budget base r s =
        calls (store.noted.countParts budget q.countRequest 0) s ∧
      reportedTotal t store budget base r s =
        replyOf (store.countParts budget q.countRequest 0 s) := by
  obtain ⟨made, hcount⟩ := Store.countParts_mirrors store budget q.countRequest 0 hkind s
  have hcalls := hcount.calls_eq
  rw [← countRows_of_enabled hcounting] at hcount
  have hrun := getMany_runs hpermitted hkind hdata hcount
  rw [countCalls, reportedTotal, hrun.calls_eq, hrun.outcome_eq, hcalls]
  refine ⟨rfl, ?_⟩
  cases replyOf (store.countParts budget q.countRequest 0 s) <;> rfl

/-- A base that starts and stops elsewhere is permitted as well. -/
theorem permitted_positioned (limit : Option UInt64) (startKey : Option Item)
    (h : permitted t base r = .ok q) (hkind : q.kind ≠ .getItem) :
    permitted t (base.positioned limit startKey) r =
      .ok (q.positioned (limitOr r limit) startKey) := by
  obtain ⟨hbuild, hscan⟩ := permitted_eq_ok_iff.1 h
  have hbuild' := build_positioned limit startKey hbuild
  rw [if_neg (isSome_key_ne hkind)] at hbuild'
  exact permitted_eq_ok_iff.2 ⟨hbuild', hscan⟩

/-- **The total is that of the rows behind the start key.** Another limit makes the same calls for
it, another start key does not. -/
theorem getMany_total (hcounting : t.disableCount = false) (hbuild : build t base r = .ok q)
    (hkind : q.kind ≠ .getItem) (hscan : q.kind = .scan → t.disableScan = false)
    (hbudget : 0 < budget) {limit : Option UInt64} {startKey : Option Item}
    {output output' : Output} (hdata : store.run q s = .ok output s)
    (hdata' : store.run (q.positioned (limitOr r limit) startKey) s = .ok output' s) :
    (countCalls t store budget (base.positioned limit startKey) r s =
        countCalls t store budget base r s ↔ startKey = base.startKey) ∧
      (startKey = base.startKey →
        reportedTotal t store budget (base.positioned limit startKey) r s =
          reportedTotal t store budget base r s) ∧
      ∀ key counted total, startKey = some key → store.Reaches s q.countRequest counted key →
        reportedTotal t store budget base r s = .ok total →
          ∃ rest, reportedTotal t store budget (base.positioned limit startKey) r s = .ok rest ∧
            total = counted + rest := by
  have hpermitted := permitted_eq_ok_iff.2 ⟨hbuild, hscan⟩
  have hstart : q.countRequest.startKey = base.startKey := by
    rw [← startKey_build hbuild]
    rfl
  obtain ⟨hcalls, htotal⟩ := getMany_counts budget hcounting hpermitted hkind hdata
  obtain ⟨hcalls', htotal'⟩ := getMany_counts budget hcounting
    (permitted_positioned limit startKey hpermitted hkind) hkind hdata'
  rw [countRequest_positioned] at hcalls' htotal'
  rw [hcalls, hcalls', htotal, htotal']
  have hsame : startKey = base.startKey → { q.countRequest with startKey } = q.countRequest := by
    intro hkey
    rw [hkey, ← hstart]
  refine ⟨⟨fun h => ?_, fun hkey => by rw [hsame hkey]⟩, fun hkey => by rw [hsame hkey],
    fun key counted total hkey hreach h => ?_⟩
  · -- The first calls of the two counts show their start keys.
    obtain ⟨fault, later, hfirst⟩ := Store.countParts_calls store hbudget
      (q := q.countRequest) hkind 0 s
    obtain ⟨fault', later', hfirst'⟩ := Store.countParts_calls store hbudget
      (q := { q.countRequest with startKey }) hkind 0 s
    rw [hfirst, hfirst', List.cons.injEq, Entry.mk.injEq, Call.mk.injEq] at h
    exact (congrArg Query.startKey h.1.1.2).trans hstart
  · cases hrun : store.countParts budget q.countRequest 0 s with
    | error e v => rw [hrun] at h; cases h
    | ok m v =>
      rw [hrun] at h
      obtain rfl := Except.ok.inj h
      obtain ⟨rest, hrest, hm⟩ := hreach.rest hrun
      rw [hkey, hrest]
      exact ⟨rest, rfl, hm⟩

/-- The key between two parts of a table. -/
def middle : Item := .ofList [("pk", .text "a")]

/-- The part of a table of two rows that begins at a key; each part has one row. -/
def partFrom (startKey : Option Item) : Output :=
  { count := 1, nextKey := if startKey.isNone then some middle else none }

/-- The table of two parts. -/
def inParts : Store Unit where
  getItem _ := pure none
  query q := pure (partFrom q.startKey)
  scan q := pure (partFrom q.startKey)

theorem run_inParts (q : Query) : inParts.run q () = .ok (partFrom q.startKey) () := by
  rw [Store.run]
  cases q.kind <;> rfl

/-- From the first part the count comes to the second one. Another limit makes no difference. -/
theorem getMany_total_parts :
    countCalls sorted inParts 9 (Query.positioned { tableName := "t" } (some 5) none) {} () =
        countCalls sorted inParts 9 { tableName := "t" } {} () ∧
      ∃ rest, reportedTotal sorted inParts 9
          (Query.positioned { tableName := "t" } (some 5) (some middle)) {} () = .ok rest ∧
        2 = 1 + rest := by
  obtain ⟨q, hbuild, hkind⟩ := exists_of_toOption (f := Query.kind)
    (x := build sorted { tableName := "t" } {}) (b := .scan) (by decide +kernel)
  have hscan : q.kind ≠ .getItem := by
    rw [hkind]
    exact nofun
  have htotal := fun startKey => getMany_total rfl hbuild hscan (fun _ => rfl) (by decide : 0 < 9)
    (run_inParts q) (run_inParts (q.positioned (limitOr {} (some 5)) startKey))
  obtain ⟨hcalls, -, -⟩ := htotal none
  obtain ⟨-, -, hrest⟩ := htotal (some middle)
  have hreach : inParts.Reaches () q.countRequest 1 middle := by
    refine .here (run_inParts q.countRequest) ?_
    rw [show q.countRequest.startKey = none from startKey_build hbuild]
    rfl
  exact ⟨hcalls.2 rfl, hrest middle 1 2 rfl hreach rfl⟩

/-- A base that resumes at the second part reports one row of two. -/
theorem getMany_total_resumed :
    reportedTotal sorted inParts 9 { tableName := "t" } {} () = .ok 2 ∧
      reportedTotal sorted inParts 9 { tableName := "t", startKey := some middle } {} () = .ok 1 ∧
      (countCalls sorted inParts 9 { tableName := "t" } {} ()).map
        (·.call.query.startKey.isSome) = [false, true] ∧
      (countCalls sorted inParts 9 { tableName := "t", startKey := some middle } {} ()).map
        (·.call.query.startKey.isSome) = [true] :=
  ⟨rfl, rfl, rfl, rfl⟩

end StoreQuery.KeyValue
