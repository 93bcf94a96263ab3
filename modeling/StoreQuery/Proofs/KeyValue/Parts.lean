import StoreQuery.Proofs.KeyValue.Totals
import StoreQuery.Proofs.Store.Failures

/-!
# Counting in parts

A store that counts in parts gives back the count of a part and the key from which the next part
begins, until there is no key any more.

**A count calls the store once for every part, and adds up what it counts** (`countParts_runs`). The
first call is the count itself, and each later one differs from it in its start key alone, which is
the key of the part before (`Query.resumed`). It ends with the first part that has no key. The proof
goes along the keys: what is counted so far and what is still to come are the total at every step.

**A call that fails is the last one, and its error is that of the whole read**
(`getMany_stopsAtFault`), whatever the store does.
-/

namespace StoreQuery

open Journal

variable {κ σ α β : Type}

/-! ## Calls that fail -/

/-- Every call was answered, or the last one failed and its error is the reply. -/
inductive EndsAtFault : List (Entry κ) → Except Error α → Prop
  | answered {made : List (Entry κ)} {reply : Except Error α} (h : Answered made) :
      EndsAtFault made reply
  | failed {made : List (Entry κ)} (h : Answered made) (call : κ) (e : Error) :
      EndsAtFault (made ++ [⟨call, some e⟩]) (.error e)

theorem EndsAtFault.answered_of_ok {made : List (Entry κ)} {a : α}
    (h : EndsAtFault made (.ok a : Except Error α)) : Answered made := by
  cases h
  assumption

/-- Whatever a store does, a step ends with the first call that fails. -/
def StopsAtFault (x : EStateM Error (Journal κ σ) α) : Prop := Keeps x EndsAtFault

namespace StopsAtFault

variable {x : EStateM Error (Journal κ σ) α} {f : α → EStateM Error (Journal κ σ) β}

theorem pure (a : α) : StopsAtFault (κ := κ) (σ := σ) (Pure.pure a) :=
  Keeps.pure (.answered answered_nil)

theorem throw (e : Error) : StopsAtFault (throw e : EStateM Error (Journal κ σ) α) :=
  Keeps.throw (.answered answered_nil)

theorem noting (call : κ) (answer : EStateM Error σ α) :
    StopsAtFault (Journal.noting call answer) := by
  refine Keeps.noting (fun a => .answered (answered_singleton call)) fun s e t _ => ?_
  show EndsAtFault ([] ++ [⟨call, some e⟩]) (.error e)
  exact .failed answered_nil call e

theorem bind (h : StopsAtFault x) (hf : ∀ a, StopsAtFault (f a)) : StopsAtFault (x >>= f) := by
  refine Keeps.bind h (fun made a hmade => (hf a).mono fun made' reply hmade' => ?_)
    fun made e hmade => ?_
  · have hanswered := hmade.answered_of_ok
    cases hmade' with
    | answered hmade' => exact .answered (List.forall_mem_append.2 ⟨hanswered, hmade'⟩)
    | failed hmade' call e =>
      rw [← List.append_assoc]
      exact .failed (List.forall_mem_append.2 ⟨hanswered, hmade'⟩) call e
  · cases hmade with
    | answered hmade => exact .answered hmade
    | failed hmade call e => exact .failed hmade call e

end StopsAtFault

namespace KeyValue

variable {t : Table} {q base : Query} {r : Request} {store : Store σ} {s u v : σ} {budget : Nat}
  {total : UInt64} {keys : List Item} {outputs : List Output}

theorem prepare_stopsAtFault (t : Table) (base : Query) (r : Request) :
    StopsAtFault (κ := Call) (σ := σ) (prepare t base r) :=
  fun s => ⟨[], _, s, prepare_runs t base r s, .answered answered_nil⟩

theorem countParts_stopsAtFault (store : Store σ) (budget : Nat) (q : Query) (total : UInt64)
    (hkind : q.kind ≠ .getItem) : StopsAtFault (store.noted.countParts budget q total) := by
  induction budget generalizing q total with
  | zero =>
    rw [Store.countParts]
    exact .throw _
  | succ budget ih =>
    rw [Store.countParts, Store.run_noted store hkind]
    refine .bind (.noting _ _) fun output => ?_
    cases output.nextKey with
    | none => exact .pure _
    | some key => exact ih { q with startKey := some key } (total + output.count) hkind

theorem countRows_stopsAtFault (t : Table) (store : Store σ) (budget : Nat)
    (hkind : q.kind ≠ .getItem) : StopsAtFault (countRows t store.noted budget q) := by
  rw [countRows]
  split
  · exact .pure 0
  · exact countParts_stopsAtFault store budget q.countRequest 0 hkind

theorem getMany_stopsAtFault (t : Table) (store : Store σ) (budget : Nat) (base : Query)
    (r : Request) : StopsAtFault (getMany t (some store.noted) budget base r) := by
  rw [getMany_eq]
  refine .bind (prepare_stopsAtFault t base r) fun q => ?_
  rw [Store.readMany]
  split
  · exact .bind (.noting _ _) fun item => .pure _
  · rename_i hkind
    rw [Store.run_noted store hkind]
    exact .bind (.noting _ _) fun output =>
      .bind (countRows_stopsAtFault t store budget hkind) fun total => .pure _

/-! ## Parts -/

/-- A query, and then the same query from one key after the other. -/
def Query.resumed (q : Query) (keys : List Item) : List Query :=
  q :: keys.map fun key => { q with startKey := some key }

/-- The entry of a query that was answered. -/
def Query.answered (q : Query) : Entry Call := ⟨⟨q.kind, q⟩, none⟩

/-- From one state on, a store answers queries in turn, and is left in another state. -/
inductive Store.Replies (store : Store σ) : σ → List Query → List Output → σ → Prop
  | done (s : σ) : Replies store s [] [] s
  | next {q : Query} {queries : List Query} {output : Output} {outputs : List Output} {s u v : σ}
    (hrun : store.run q s = .ok output u) (hrest : Replies store u queries outputs v) :
    Replies store s (q :: queries) (output :: outputs) v

/-- What parts count together. -/
def counted : List Output → Nat
  | [] => 0
  | output :: outputs => output.count.toNat + counted outputs

/-- From a state, a store answers a query in parts. Each part has the key from which the next one
begins, and the last part has none. -/
structure Store.InParts (store : Store σ) (q : Query) (s : σ) (keys : List Item)
    (outputs : List Output) (u : σ) : Prop where
  replies : store.Replies s (q.resumed keys) outputs u
  nextKeys : outputs.map Output.nextKey = keys.map some ++ [none]

namespace Store.InParts

variable {output : Output}

theorem last (h : store.InParts q s [] outputs u) :
    ∃ output, outputs = [output] ∧ store.run q s = .ok output u ∧ output.nextKey = none := by
  obtain ⟨hreplies, hkeys⟩ := h
  cases hreplies with
  | next hrun hrest =>
    cases hrest
    exact ⟨_, rfl, hrun, List.head_eq_of_cons_eq hkeys⟩

/-- Behind the first part is the same query from the next key. -/
theorem next {key : Item} (h : store.InParts q s (key :: keys) outputs u) :
    ∃ output rest v, outputs = output :: rest ∧ store.run q s = .ok output v ∧
      output.nextKey = some key ∧
        store.InParts { q with startKey := some key } v keys rest u := by
  obtain ⟨hreplies, hkeys⟩ := h
  cases hreplies with
  | next hrun hrest =>
    rw [List.map_cons, List.map_cons, List.cons_append, List.cons.injEq] at hkeys
    exact ⟨_, _, _, rfl, hrun, hkeys.1, hrest, hkeys.2⟩

/-- There is one part more than there are keys. -/
theorem length_outputs (h : store.InParts q s keys outputs u) :
    outputs.length = (q.resumed keys).length := by
  have hlength := congrArg List.length h.nextKeys
  rw [List.length_map, List.length_append, List.length_map, List.length_singleton] at hlength
  rw [hlength, Query.resumed, List.length_cons, List.length_map]

end Store.InParts

theorem countParts_last (hkind : q.kind ≠ .getItem) {output : Output}
    (hrun : store.run q s = .ok output u) (hlast : output.nextKey = none) (total : UInt64) :
    Runs (store.noted.countParts (budget + 1) q total) s [q.answered] (.ok (total + output.count))
      u := by
  rw [Store.countParts, Store.run_noted store hkind]
  refine (Runs.answered _ hrun).bind ?_
  rw [hlast]
  exact .pure _ u

/-- A part is counted, and the others are still to come. -/
theorem countParts_next (hkind : q.kind ≠ .getItem) {output : Output} {key : Item}
    (hrun : store.run q s = .ok output u) (hnext : output.nextKey = some key)
    {made : List (Entry Call)} {reply : Except Error UInt64}
    (hrest : Runs (store.noted.countParts budget { q with startKey := some key }
      (total + output.count)) u made reply v) :
    Runs (store.noted.countParts (budget + 1) q total) s (q.answered :: made) reply v := by
  rw [Store.countParts, Store.run_noted store hkind]
  refine (Runs.answered _ hrun).bind ?_
  rw [hnext]
  exact hrest

/-- **A count goes through all parts and adds them up**, from any total on. -/
theorem countParts_runs (hkind : q.kind ≠ .getItem) (hparts : store.InParts q s keys outputs u)
    (hbudget : outputs.length ≤ budget) (hfits : total.toNat + counted outputs < UInt64.size) :
    ∃ sum : UInt64, sum.toNat = total.toNat + counted outputs ∧
      Runs (store.noted.countParts budget q total) s ((q.resumed keys).map Query.answered)
        (.ok sum) u := by
  induction keys generalizing q s outputs total budget with
  | nil =>
    obtain ⟨output, rfl, hrun, hlast⟩ := hparts.last
    obtain _ | budget := budget
    · exact absurd hbudget (Nat.not_succ_le_zero 0)
    rw [counted, counted, Nat.add_zero] at hfits ⊢
    refine ⟨total + output.count, ?_, countParts_last hkind hrun hlast total⟩
    rw [UInt64.toNat_add, Nat.mod_eq_of_lt hfits]
  | cons key keys ih =>
    obtain ⟨output, rest, v, rfl, hrun, hnext, hrest⟩ := hparts.next
    obtain _ | budget := budget
    · exact absurd hbudget (Nat.not_succ_le_zero rest.length)
    rw [counted, ← Nat.add_assoc] at hfits ⊢
    have hsofar : (total + output.count).toNat = total.toNat + output.count.toNat := by
      rw [UInt64.toNat_add]
      exact Nat.mod_eq_of_lt (Nat.lt_of_le_of_lt (Nat.le_add_right _ _) hfits)
    rw [← hsofar] at hfits ⊢
    obtain ⟨sum, hsum, hruns⟩ := ih (q := { q with startKey := some key }) hkind hrest
      (Nat.le_of_succ_le_succ hbudget) hfits
    exact ⟨sum, hsum, countParts_next hkind hrun hnext hruns⟩

theorem count_runs (hkind : q.kind ≠ .getItem) (hparts : store.InParts q s keys outputs u)
    (hbudget : outputs.length ≤ budget) (hfits : counted outputs < UInt64.size) :
    ∃ sum : UInt64, sum.toNat = counted outputs ∧
      Runs (store.noted.countParts budget q 0) s ((q.resumed keys).map Query.answered)
        (.ok sum) u := by
  have hzero : (0 : UInt64).toNat + counted outputs = counted outputs := Nat.zero_add _
  rw [← hzero] at hfits ⊢
  exact countParts_runs hkind hparts hbudget hfits

/-- A read that counts its rows makes the calls of the count behind the one for the rows. -/
theorem getMany_runs_counted (hcounting : t.disableCount = false)
    (hpermitted : permitted t base r = .ok q) (hkind : q.kind ≠ .getItem) {output : Output}
    (hdata : store.run q s = .ok output u) {made : List (Entry Call)}
    (hcount : Runs (store.noted.countParts budget q.countRequest 0) u made (.ok total) v) :
    Runs (getMany t (some store.noted) budget base r) s (q.answered :: made)
      (.ok (.shape (output.items.map Item.toJson) total 0 r.limit)) v := by
  rw [← countRows_of_enabled hcounting] at hcount
  exact getMany_runs hpermitted hkind hdata hcount

/-- **The total is the sum of all parts.** A count makes one call for every part, each from the key
of the part before, and a read reports what is counted. A call that fails is the last one of a read,
and the read fails with the same error. -/
theorem getMany_inParts (t : Table) (store : Store σ) (budget : Nat) (base : Query) (r : Request) :
    (∀ (q : Query) s keys outputs u, q.kind ≠ .getItem →
      store.InParts q.countRequest s keys outputs u → outputs.length ≤ budget →
      counted outputs < UInt64.size →
        (q.countRequest.resumed keys).length = outputs.length ∧
        ∃ total : UInt64, total.toNat = counted outputs ∧
          Runs (store.noted.countParts budget q.countRequest 0) s
            ((q.countRequest.resumed keys).map Query.answered) (.ok total) u) ∧
    (∀ (q : Query) s data u keys outputs v, t.disableCount = false → build t base r = .ok q →
      (q.kind = .scan → t.disableScan = false) → q.kind ≠ .getItem →
      store.run q s = .ok data u → store.InParts q.countRequest u keys outputs v →
      outputs.length ≤ budget → counted outputs < UInt64.size →
        ∃ total : UInt64, total.toNat = counted outputs ∧
          Runs (getMany t (some store.noted) budget base r) s
            (q.answered :: (q.countRequest.resumed keys).map Query.answered)
            (.ok (.shape (data.items.map Item.toJson) total 0 r.limit)) v) ∧
    ∀ s, EndsAtFault (calls (getMany t (some store.noted) budget base r) s)
      (outcome (getMany t (some store.noted) budget base r) s) := by
  refine ⟨?_, ?_, (getMany_stopsAtFault t store budget base r).of_run⟩
  · intro q s keys outputs u hkind hparts hbudget hfits
    exact ⟨hparts.length_outputs.symm, count_runs (q := q.countRequest) hkind hparts hbudget hfits⟩
  · intro q s data u keys outputs v hcounting hbuild hscan hkind hdata hparts hbudget hfits
    obtain ⟨total, htotal, hruns⟩ := count_runs (q := q.countRequest) hkind hparts hbudget hfits
    have hpermitted := permitted_eq_ok_iff.2 ⟨hbuild, hscan⟩
    exact ⟨total, htotal, getMany_runs_counted hcounting hpermitted hkind hdata hruns⟩

/-- The next answer of a script, if one is left. -/
def nextAnswer : EStateM Error (List Output) Output
  | output :: script => .ok output script
  | [] => .error (.store "no answer is left") []

/-- The store that answers by a script. -/
def scripted : Store (List Output) where
  getItem _ := pure none
  query _ := nextAnswer
  scan _ := nextAnswer

theorem run_scripted (q : Query) (output : Output) (script : List Output) :
    scripted.run q (output :: script) = .ok output script := by
  rw [Store.run]
  cases q.kind <;> rfl

/-- The key behind a row. -/
def keyOf (name : String) : Item := .ofList [("pk", .text name)]

/-- Three rows in three parts, the second of which is empty. -/
def threeParts : List Output :=
  [{ count := 2, nextKey := some (keyOf "b") }, { nextKey := some (keyOf "m") }, { count := 1 }]

/-- A script of rows and parts that has no answer for the last part. -/
def cutShort : List Output := {} :: threeParts.dropLast

theorem inParts_threeParts (q : Query) :
    scripted.InParts q threeParts [keyOf "b", keyOf "m"] threeParts [] where
  replies := .next (run_scripted ..) (.next (run_scripted ..) (.next (run_scripted ..) (.done _)))
  nextKeys := rfl

/-- A scan counts three parts in three calls, and stops where the script has no answer left. -/
theorem getMany_inParts_threeParts :
    (∃ (q : Query) (total : UInt64), q.kind = .scan ∧ total.toNat = 3 ∧
      Runs (getMany sorted (some scripted.noted) 3 { tableName := "t" } {}) ({} :: threeParts)
        (q.answered :: (q.countRequest.resumed [keyOf "b", keyOf "m"]).map Query.answered)
        (.ok (.shape [] total 0 none)) []) ∧
      EndsAtFault (calls (getMany sorted (some scripted.noted) 3 { tableName := "t" } {}) cutShort)
        (.error (.store "no answer is left") : Except Error (Page Json)) ∧
      (calls (getMany sorted (some scripted.noted) 3 { tableName := "t" } {}) cutShort).map
        (·.fault) = [none, none, none, some (.store "no answer is left")] := by
  obtain ⟨-, hpage, hfault⟩ := getMany_inParts sorted scripted 3 { tableName := "t" } {}
  refine ⟨?_, hfault cutShort, rfl⟩
  obtain ⟨q, hbuild, hkind⟩ := exists_of_toOption (f := Query.kind)
    (x := build sorted { tableName := "t" } {}) (b := .scan) (by decide +kernel)
  have hscan : q.kind ≠ .getItem := by
    rw [hkind]
    exact nofun
  obtain ⟨total, htotal, hruns⟩ := hpage q ({} :: threeParts) {} threeParts _ _ [] rfl hbuild
    (fun _ => rfl) hscan (run_scripted q {} threeParts) (inParts_threeParts q.countRequest)
    (by decide) (by decide)
  exact ⟨q, total, hkind, htotal, hruns⟩

end KeyValue

end StoreQuery
