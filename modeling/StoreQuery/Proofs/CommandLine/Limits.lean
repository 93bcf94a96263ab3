import StoreQuery.CommandLine.Run
import StoreQuery.Proofs.Config.Valid
import StoreQuery.Proofs.Memory.Pages
import StoreQuery.Proofs.Number.Word
import StoreQuery.Proofs.Request.Collecting
import StoreQuery.Proofs.Request.Outcome

/-!
# Configured limits

A configuration may give requests a limit and bound the limits that they have themselves.

**The limits of a valid configuration hold for every command line** (`request_limits`), whatever
stands in its parameters: with a maximum no request asks for more, and no page of rows in memory is
longer; a limit that is configured is the limit of every request that gives none; and what a request
gives itself is changed only where it is 0 or above the maximum.

A request gives a limit if the first value of its parameter stands for a number of 64 bits
(`GivesNumber`). All else counts as none: other texts, numbers that do not fit, and later values.
-/

namespace StoreQuery

open CommandLine

variable {limits : Limits} {limit : Option UInt64} {pairs : List (String × String)} {key : String}
  {n : UInt64}

/-! ## Numbers that are given -/

/-- Pairs give a number for a key: the first value of the key stands for it. -/
def GivesNumber (pairs : List (String × String)) (key : String) (n : UInt64) : Prop :=
  ∃ text, (Params.given key pairs).head? = some text ∧ Text.IsWord text n

/-- The number of a parameter is the one that the pairs give. -/
theorem numberOf?_ofPairs_eq_some_iff :
    Request.numberOf? (.ofPairs pairs) key = some n ↔ GivesNumber pairs key n := by
  rw [Request.numberOf?, Params.first?, Params.values_ofPairs, Option.bind_eq_some_iff, GivesNumber]
  simp only [Text.word?_trim_eq_some_iff]

/-! ## Limits of requests -/

namespace Limits

/-- The largest limit that there can be. -/
def top (limits : Limits) : UInt64 := limits.max.getD maxWord

/-- What limits make of the limit that a request gives. -/
def apply (limits : Limits) (given : Option UInt64) : Option UInt64 :=
  match limits.default, limits.max with
  | none, none => given
  | default, _ => some (Min.min (Max.max (given.getD (default.getD limits.top)) 1) limits.top)

/-- How a limit fits to what is configured and what is given. -/
structure Holds (limits : Limits) (given : UInt64 → Prop) (limit : Option UInt64) : Prop where
  /-- With a maximum there is a limit, and it is neither 0 nor above the maximum. -/
  bounded : ∀ m, limits.max = some m → ∃ l, limit = some l ∧ 1 ≤ l ∧ l ≤ m
  /-- With a default alone there is a limit, and it is not 0. -/
  positive : ∀ d, limits.default = some d → limits.max = none → ∃ l, limit = some l ∧ 1 ≤ l
  /-- Where no limit is given, it is the default. -/
  defaulted : ∀ d, limits.default = some d → (∀ n, ¬ given n) → limit = some d
  /-- What is given is changed only if it is 0 or above the maximum. -/
  kept : ∀ n, given n → limit ≠ some n → n = 0 ∨ ∃ m, limits.max = some m ∧ m < n

theorem toNat_min (a b : UInt64) : (Min.min a b).toNat = Min.min a.toNat b.toNat := by
  show (if a ≤ b then a else b).toNat = _
  split <;> rename_i h <;> rw [UInt64.le_iff_toNat_le] at h <;> omega

theorem toNat_max (a b : UInt64) : (Max.max a b).toNat = Max.max a.toNat b.toNat := by
  show (if a ≤ b then b else a).toNat = _
  split <;> rename_i h <;> rw [UInt64.le_iff_toNat_le] at h <;> omega

/-- Without a maximum, every number is below the largest limit. -/
theorem le_top (h : ∀ m, limits.max = some m → n ≤ m) : n ≤ limits.top := by
  rw [top]
  cases hmax : limits.max with
  | none => exact UInt64.le_iff_toNat_le.2 (Nat.le_of_lt_succ n.toNat_lt)
  | some m => exact h m hmax

/-- Where anything is configured, the given limit or else the default is moved between
its bounds. -/
theorem exists_apply (h : limits.default.isSome ∨ limits.max.isSome) (given : Option UInt64) :
    ∃ l, limits.apply given = some l ∧ l.toNat =
      Min.min (Max.max (given.getD (limits.default.getD limits.top)).toNat 1) limits.top.toNat := by
  obtain ⟨default, max⟩ := limits
  cases default <;> cases max
  case none.none => simp at h
  all_goals exact ⟨_, rfl, by rw [toNat_min, toNat_max]; rfl⟩

theorem exists_apply_between (h : limits.IsSound)
    (hsome : limits.default.isSome ∨ limits.max.isSome) (given : Option UInt64) :
    ∃ l, limits.apply given = some l ∧ 1 ≤ l ∧ l ≤ limits.top := by
  have htop : 1 ≤ limits.top := le_top h.max_pos
  obtain ⟨l, hl, hvalue⟩ := exists_apply hsome given
  rw [UInt64.le_iff_toNat_le, UInt64.toNat_one] at htop
  refine ⟨l, hl, ?_, ?_⟩ <;> rw [UInt64.le_iff_toNat_le]
  · rw [UInt64.toNat_one]
    omega
  · omega

theorem apply_eq_self {given : Option UInt64} (hsome : limits.default.isSome ∨ limits.max.isSome)
    (hn : given.getD (limits.default.getD limits.top) = n) (hpos : 1 ≤ n) (htop : n ≤ limits.top) :
    limits.apply given = some n := by
  obtain ⟨l, hl, hvalue⟩ := exists_apply hsome given
  rw [UInt64.le_iff_toNat_le] at hpos htop
  rw [UInt64.toNat_one] at hpos
  rw [hn] at hvalue
  rw [hl, Option.some.injEq, ← UInt64.toNat_inj]
  omega

/-- **Sound limits hold of what they leave.** -/
theorem holds_apply (h : limits.IsSound) (given : Option UInt64) :
    limits.Holds (given = some ·) (limits.apply given) := by
  constructor
  case bounded =>
    intro m hm
    have htop : limits.top = m := by rw [top, hm, Option.getD_some]
    rw [← htop]
    exact exists_apply_between h (.inr (by rw [hm]; rfl)) given
  case positive =>
    intro d hd _
    obtain ⟨l, hl, hpos, -⟩ := exists_apply_between h (.inl (by rw [hd]; rfl)) given
    exact ⟨l, hl, hpos⟩
  case defaulted =>
    intro d hd hnone
    have hgiven : given = none := Option.eq_none_iff_forall_ne_some.2 hnone
    refine apply_eq_self (.inl (by rw [hd]; rfl)) ?_ (h.default_pos d hd) ?_
    · rw [hgiven, hd, Option.getD_none, Option.getD_some]
    · exact le_top fun m hm => h.default_le_max d m hd hm
  case kept =>
    intro n hgiven hchanged
    by_contra hneither
    obtain ⟨hzero, hmax⟩ := not_or.1 hneither
    apply hchanged
    by_cases hsome : limits.default.isSome ∨ limits.max.isSome
    · refine apply_eq_self hsome (by rw [hgiven, Option.getD_some]) (Config.one_le_iff.2 hzero) ?_
      exact le_top fun m hm => UInt64.not_lt.1 fun hlt => hmax ⟨m, hm, hlt⟩
    · -- Nothing is configured, so nothing is changed.
      obtain ⟨default, max⟩ := limits
      cases default <;> cases max <;> simp at hsome
      exact hgiven

end Limits

/-! ## Requests of command lines -/

variable {a : Arguments} {r : Request} {c : Config}

/-- A command line asks for what its parameters describe, and only the limit is changed. -/
theorem request_eq (a : Arguments) (limits : Limits) : a.request limits =
    (Request.ofParams (.ofPairs a.params)).map
      fun r => { r with limit := limits.apply r.limit } := by
  obtain ⟨default, max⟩ := limits
  rw [Arguments.request]
  cases Request.ofParams (.ofPairs a.params) with
  | error e => rfl
  | ok r => cases default <;> cases max <;> rfl

theorem limit_of_ofParams (h : Request.ofParams (.ofPairs pairs) = .ok r) :
    r.limit = some n ↔ GivesNumber pairs "limit" n := by
  obtain ⟨condition, -, h⟩ := bind_eq_ok.1 h
  cases h
  exact numberOf?_ofPairs_eq_some_iff

theorem exists_predicate_of_ofParams {params : Params} (h : Request.ofParams params = .ok r) :
    ∃ test, Memory.predicate r.condition = .ok test := by
  obtain ⟨cs, -, hcondition⟩ := Request.clauses_of_ofParams h
  apply Memory.predicate_isOk_iff.2
  intro leaf hleaf
  rw [hcondition, Condition.leaves, Search.Clause.leaves_partsOf] at hleaf
  exact Search.Clause.validate_leavesOf leaf hleaf

theorem Memory.length_getMany_le {test : Memory.Predicate}
    (htest : Memory.predicate r.condition = .ok test) {l : UInt64} (hl : r.limit = some l)
    (s : Memory.Sorting) (start : Json.Members) (rows : List Json) :
    ∃ page, s.getMany start rows r = .ok page ∧ page.rows.length ≤ l.toNat := by
  rw [Memory.Sorting.getMany, Memory.Sorting.matching_eq htest]
  refine ⟨_, rfl, ?_⟩
  show (Memory.projectRows start r.select (Memory.slice r.start r.limit _)).length ≤ l.toNat
  rw [Memory.projectRows_eq_map, List.length_map, hl]
  exact List.length_take_le _ _

/-- **Configured limits hold for every command line.** With a maximum, a request has a limit from
one to the maximum, and a page of any rows in memory has no more rows than that, however the rows
are sorted. -/
theorem request_limits (hvalid : c.validate = .ok ()) (hr : a.request c.limits = .ok r) :
    c.limits.Holds (GivesNumber a.params "limit") r.limit ∧
      ∀ m, c.limits.max = some m → ∀ (s : Memory.Sorting) (start : Json.Members) (rows : List Json),
        ∃ page, s.getMany start rows r = .ok page ∧ page.rows.length ≤ m.toNat := by
  rw [request_eq] at hr
  obtain ⟨described, hdescribed, rfl⟩ := map_eq_ok.1 hr
  have hholds := Limits.holds_apply (Config.isSound_of_validate hvalid) described.limit
  simp only [limit_of_ofParams hdescribed] at hholds
  refine ⟨hholds, fun m hm s start rows => ?_⟩
  obtain ⟨test, htest⟩ := exists_predicate_of_ofParams hdescribed
  obtain ⟨l, hl, -, hle⟩ := hholds.bounded m hm
  obtain ⟨page, hpage, hlength⟩ := Memory.length_getMany_le
    (r := { described with limit := c.limits.apply described.limit }) htest hl s start rows
  exact ⟨page, hpage, hlength.trans (UInt64.le_iff_toNat_le.1 hle)⟩

/-- Requests have 10 rows if they do not say otherwise, and 50 at most. -/
def capped : Config := { limits := { default := some 10, max := some 50 } }

/-- Asks for 700 rows, and then for 5. -/
def greedy : Arguments :=
  { params := [("limit", " +0700 "), ("filter", "id||$gt||1"), ("limit", "5")] }

theorem request_limits_capped : capped.validate = .ok () ∧
    ∃ r, greedy.request capped.limits = .ok r ∧ r.limit = some 50 ∧
      GivesNumber greedy.params "limit" 700 ∧
      (∃ m, capped.limits.max = some m ∧ m < 700) ∧
      ∀ (s : Memory.Sorting) (start : Json.Members) (rows : List Json),
        ∃ page, s.getMany start rows r = .ok page ∧ page.rows.length ≤ 50 := by
  have hvalid : capped.validate = .ok () := by decide
  obtain ⟨r, hr, hlimit⟩ := exists_of_toOption (x := greedy.request capped.limits)
    (f := Request.limit) (b := some 50) (by decide +kernel)
  have hgiven : GivesNumber greedy.params "limit" 700 :=
    ⟨" +0700 ", rfl, Text.word?_trim_eq_some_iff.1 (by decide +kernel)⟩
  obtain ⟨hholds, hpages⟩ := request_limits hvalid hr
  refine ⟨hvalid, r, hr, hlimit, hgiven, ?_, hpages 50 rfl⟩
  have hchanged : r.limit ≠ some 700 := by simp [hlimit]
  exact (hholds.kept 700 hgiven hchanged).resolve_left (by decide)

end StoreQuery
