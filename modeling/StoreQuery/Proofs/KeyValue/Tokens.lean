import StoreQuery.KeyValue.Query
import StoreQuery.Proofs.Dict
import StoreQuery.Proofs.Text.Numbered

/-!
# Tokens are free

**The token of a property is free or stands for it** (`nameFits_nameToken`), and **the token of a
value is free, and so is every name that is bound under it** (`tokenTaken_valueToken`): the search
for a number tries more candidates than the names in use rule out.
-/

namespace StoreQuery

namespace KeyValue.Query

variable {q : Query} {path : Path} {binding : Binding} {token name : String}

/-! ## Names -/

/-- **The token of a property is free or stands for it.** -/
theorem nameFits_nameToken (q : Query) (path : Path) :
    q.nameFits path.toText (q.nameToken path) = true := by
  refine Text.firstFrom_free (q.nameFits path.toText) ?_
  have hruled : ∀ token, q.nameFits path.toText token ≠ true →
      ∃ key ∈ q.names.keys, key = token := by
    intro token htaken
    refine ⟨token, Dict.mem_keys_of_contains ?_, rfl⟩
    rw [nameFits] at htaken
    rw [Dict.contains]
    cases hfind : q.names.find? token with
    | none => simp [hfind] at htaken
    | some other => rfl
  obtain ⟨n, hn, hfree⟩ := Text.exists_free q.names.keys (fun key token => key = token) hruled
    (fun _ _ _ h h' => h.symm.trans h') (Nat.lt_succ_of_le (Nat.le_of_eq (Dict.length_keys _)))
    ("#" ++ sanitize path)
  exact ⟨n, hn, not_not.1 hfree⟩

/-! ## Values -/

/-- The name is the token with an underscore and a word behind it. -/
def Derived (token name : String) : Prop :=
  ∃ word, '_' ∉ word ∧ name.toList = token.toList ++ '_' :: word

theorem derived_startOf (token : String) : Derived token (Binding.startOf token) :=
  ⟨"start".toList, by decide, String.toList_append ..⟩

theorem derived_endOf (token : String) : Derived token (Binding.endOf token) :=
  ⟨"end".toList, by decide, String.toList_append ..⟩

theorem derived_itemOf (token : String) (index : Nat) :
    Derived token (Binding.itemOf token index) :=
  ⟨(Text.ofNat index).toList, Text.underscore_notMem_ofNat index, by
    rw [Binding.itemOf, String.toList_append, String.toList_append, List.append_assoc]; rfl⟩

/-- A name is derived from one token only. -/
theorem Derived.inj {other : String} (h : Derived token name) (h' : Derived other name) :
    token = other := by
  obtain ⟨word, hword, hname⟩ := h
  obtain ⟨word', hword', hname'⟩ := h'
  exact String.toList_inj.1 (Text.append_underscore_inj hword hword' (hname.symm.trans hname'))

theorem Derived.ne_null (h : Derived token name) : name ≠ nullToken := by
  rintro rfl
  obtain ⟨word, -, hname⟩ := h
  have hmem : '_' ∈ nullToken.toList := by rw [hname]; simp
  exact absurd hmem (by decide)

theorem eq_or_derived_of_mem_names (h : name ∈ binding.names token) :
    name = token ∨ Derived token name := by
  cases binding with
  | single => exact .inl (List.mem_singleton.1 h)
  | range =>
    rcases List.mem_cons.1 h with rfl | h
    · exact .inr (derived_startOf token)
    · obtain rfl := List.mem_singleton.1 h
      exact .inr (derived_endOf token)
  | list count =>
    obtain ⟨index, -, rfl⟩ := List.mem_map.1 h
    exact .inr (derived_itemOf token index)

/-- A token that is taken is the one of null, in use, or has a name in use derived from it. -/
theorem tokenTaken_cases (h : q.tokenTaken binding token = true) :
    token = nullToken ∨ q.values.contains token = true ∨
      ∃ name, Derived token name ∧ q.values.contains name = true := by
  simp only [tokenTaken, Bool.or_eq_true, beq_iff_eq, List.any_eq_true] at h
  rcases h with (((h | h) | h) | h) | ⟨name, hname, h⟩
  · exact .inl h
  · exact .inr (.inl h)
  · exact .inr (.inr ⟨_, derived_startOf token, h⟩)
  · exact .inr (.inr ⟨_, derived_itemOf token 0, h⟩)
  · rcases eq_or_derived_of_mem_names hname with rfl | hd
    · exact .inr (.inl h)
    · exact .inr (.inr ⟨name, hd, h⟩)

/-- **The token of a value is free, and so is every name that is bound under it.** -/
theorem tokenTaken_valueToken (q : Query) (path : Path) (binding : Binding) :
    q.tokenTaken binding (q.valueToken path binding) = false := by
  -- What rules a token out: being the one of null, a name in use, or being derived from.
  let rulesOut : Option (String × Bool) → String → Prop
    | none, token => token = nullToken
    | some (key, false), token => key = token
    | some (key, true), token => Derived token key
  let things : List (Option (String × Bool)) :=
    none :: q.values.keys.flatMap fun key => [some (key, false), some (key, true)]
  have hruled : ∀ token, q.tokenTaken binding token = true → ∃ k ∈ things, rulesOut k token := by
    intro token htaken
    rcases tokenTaken_cases htaken with h | h | ⟨name, hd, h⟩
    · exact ⟨none, by simp [things], h⟩
    · exact ⟨some (token, false), by simpa [things] using Dict.mem_keys_of_contains h, rfl⟩
    · exact ⟨some (name, true), by simpa [things] using Dict.mem_keys_of_contains h, hd⟩
  have hone : ∀ k token other, rulesOut k token → rulesOut k other → token = other := by
    rintro (_ | ⟨key, _ | _⟩) token other h h'
    · exact Eq.trans h (Eq.symm h')
    · exact Eq.trans (Eq.symm h) h'
    · exact Derived.inj h h'
  have hcount : things.length < 3 * q.values.size + 2 := by
    simp only [things, List.length_cons, List.length_flatMap, List.length_nil, List.map_const',
      List.sum_replicate_nat, Dict.length_keys]
    omega
  obtain ⟨n, hn, hfree⟩ :=
    Text.exists_free things rulesOut hruled hone hcount (":" ++ sanitize path)
  have hfound : (!q.tokenTaken binding (q.valueToken path binding)) = true :=
    Text.firstFrom_free (fun token => !q.tokenTaken binding token) ⟨n, hn, by simpa using hfree⟩
  simpa using hfound

end KeyValue.Query

end StoreQuery
