import StoreQuery.Proofs.Dict
import StoreQuery.Request.Params

/-!
# Parameters in any order

Parameters are collected from pairs of a key and a value, one after the other.

**A pair adds its value behind those of its key, and no other key notices it** (`find?_add`). So a
key has the values that the pairs give for it, in their order, and it is there if there are any
(`find?_ofPairs`). A dictionary is all that is found in it, so **two lists of pairs make the same
parameters exactly if they give the same values for every key** (`ofPairs_eq_iff`): pairs of
different keys may change places, and pairs of one key may not.

A request is read from ten keys (`Request.keys`), and pairs of other keys have no part in it
(`Request.ofParams_congr`).
-/

namespace StoreQuery

namespace Params

variable {params : Params} {pairs others : List (String × String)} {key : String}

/-! ## What pairs give -/

/-- The values that pairs give for a key, in their order. -/
def given (key : String) (pairs : List (String × String)) : List String :=
  (pairs.filter fun pair => pair.1 = key).map (·.2)

@[simp] theorem given_nil (key : String) : given key [] = [] := rfl

theorem given_cons (key : String) (pair : String × String) (pairs : List (String × String)) :
    given key (pair :: pairs) =
      if pair.1 = key then pair.2 :: given key pairs else given key pairs := by
  by_cases h : pair.1 = key <;> simp [given, h]

/-! ## Collecting -/

theorem find?_add (params : Params) (key value other : String) :
    (params.add key value).find? other =
      if other = key then some (params.values key ++ [value]) else params.find? other := by
  rw [add, Dict.find?_insert]

theorem values_add (params : Params) (key value other : String) :
    (params.add key value).values other =
      if other = key then params.values key ++ [value] else params.values other := by
  rw [values, find?_add]
  by_cases h : other = key <;> simp [h, values]

theorem find?_collected (params : Params) (pairs : List (String × String)) (key : String) :
    (pairs.foldl (fun params (key, value) => params.add key value) params).find? key =
      if given key pairs = [] then params.find? key
      else some (params.values key ++ given key pairs) := by
  induction pairs generalizing params with
  | nil => simp
  | cons pair pairs ih =>
    rw [List.foldl_cons, ih, find?_add, values_add, given_cons]
    by_cases h : pair.1 = key
    · by_cases hrest : given key pairs = [] <;> simp [h, hrest]
    · simp [h, Ne.symm h]

/-- **A key has the values that the pairs give for it.** -/
theorem find?_ofPairs (pairs : List (String × String)) (key : String) :
    (ofPairs pairs).find? key = if given key pairs = [] then none else some (given key pairs) := by
  rw [ofPairs, find?_collected]
  simp [values]

theorem values_ofPairs (pairs : List (String × String)) (key : String) :
    (ofPairs pairs).values key = given key pairs := by
  rw [values, find?_ofPairs]
  by_cases h : given key pairs = [] <;> simp [h]

/-- **Pairs make the same parameters exactly if they give the same for every key.** -/
theorem ofPairs_eq_iff :
    ofPairs others = ofPairs pairs ↔ ∀ key, given key others = given key pairs := by
  constructor
  · intro h key
    rw [← values_ofPairs, h, values_ofPairs]
  · intro h
    apply Dict.eq_of_find?
    intro key
    rw [find?_ofPairs, find?_ofPairs, h]

end Params

namespace Request

variable {params params' : Params} {key : String}

/-- The keys from which a request is read. -/
def keys : List String :=
  ["fields", "select", "join", "sort", "s", "filter", "or", "limit", "offset", "page"]

/-- **A request depends on its own keys only.** -/
theorem ofParams_congr (h : ∀ key ∈ keys, params.find? key = params'.find? key) :
    ofParams params = ofParams params' := by
  have hvalues : ∀ key ∈ keys, params.values key = params'.values key := by
    intro key hkey
    rw [Params.values, h key hkey, Params.values]
  have hfirst : ∀ key ∈ keys, params.first? key = params'.first? key := by
    intro key hkey
    rw [Params.first?, hvalues key hkey, Params.first?]
  have hnumber : ∀ key ∈ keys, numberOf? params key = numberOf? params' key := by
    intro key hkey
    rw [numberOf?, hfirst key hkey, numberOf?]
  simp only [keys, List.forall_mem_cons] at h hvalues hfirst hnumber
  obtain ⟨hfields, -⟩ := h
  obtain ⟨-, hselect, hjoin, hsort, -, hfilter, hor, -⟩ := hvalues
  obtain ⟨-, -, -, -, hsearch, -⟩ := hfirst
  obtain ⟨-, -, -, -, -, -, -, hlimit, hoffset, hpage, -⟩ := hnumber
  have hcondition : conditionOf params = conditionOf params' := by
    rw [conditionOf, conditionOf, addCondition, addCondition, hsearch, hfilter, hor]
  rw [ofParams, ofParams, hfields, hselect, hjoin, hsort, hcondition, hlimit, hoffset, hpage]

/-- **The order of parameters matters within one key only.** Every key has the values that are given
for it, none lost and none moved. Pairs that give the same for every key make the same parameters,
and no others do; where they give the same for the keys of a request, they have the same outcome, be
it a request or an error. -/
theorem ofParams_regrouped (pairs : List (String × String)) :
    (∀ key, (Params.ofPairs pairs).find? key =
      if Params.given key pairs = [] then none else some (Params.given key pairs)) ∧
    (∀ others, Params.ofPairs others = Params.ofPairs pairs ↔
      ∀ key, Params.given key others = Params.given key pairs) ∧
    ∀ others, (∀ key ∈ keys, Params.given key others = Params.given key pairs) →
      ofParams (.ofPairs others) = ofParams (.ofPairs pairs) := by
  refine ⟨Params.find?_ofPairs pairs, fun others => Params.ofPairs_eq_iff, fun others h => ?_⟩
  apply ofParams_congr
  intro key hkey
  rw [Params.find?_ofPairs, Params.find?_ofPairs, h key hkey]

/-- Pairs that are grouped by their keys. -/
def grouped : List (String × String) :=
  [("sort", "id,DESC"), ("sort", "title"), ("or", "a||$eq||x"), ("or", "b||$eq||y"), ("limit", "5")]

/-- The same pairs with their keys mixed, and one that is no part of a request. -/
def interleaved : List (String × String) :=
  [("or", "a||$eq||x"), ("sort", "id,DESC"), ("limit", "5"), ("version", "2"), ("or", "b||$eq||y"),
    ("sort", "title")]

/-- The same pairs with the values of one key exchanged. -/
def exchanged : List (String × String) :=
  [("sort", "title"), ("sort", "id,DESC"), ("or", "a||$eq||x"), ("or", "b||$eq||y"), ("limit", "5")]

theorem ofParams_regrouped_interleaved :
    (∀ key ∈ keys, Params.given key interleaved = Params.given key grouped) ∧
      ofParams (.ofPairs interleaved) = ofParams (.ofPairs grouped) ∧
      (Params.ofPairs interleaved).find? "sort" = some ["id,DESC", "title"] ∧
      Params.ofPairs exchanged ≠ Params.ofPairs grouped := by
  have hgiven : ∀ key ∈ keys, Params.given key interleaved = Params.given key grouped := by decide
  obtain ⟨-, hsame, houtcome⟩ := ofParams_regrouped grouped
  obtain ⟨hvalues, -, -⟩ := ofParams_regrouped interleaved
  refine ⟨hgiven, houtcome interleaved hgiven, hvalues "sort", fun h => ?_⟩
  have hsort := (hsame exchanged).1 h "sort"
  exact absurd hsort (by decide)

end Request

end StoreQuery
