import StoreQuery.Text.Numbered
import Mathlib.Data.List.FinRange
import Mathlib.Data.List.Nodup
import Mathlib.Data.List.Perm.Subperm
import Mathlib.Tactic.Choose

/-!
# Numbered names are different

**Numbers make a name free** (`exists_free_naming`): where every candidate that is taken is ruled
out by something, and nothing rules out two candidates, one of more candidates than there are things
is free.
-/

namespace StoreQuery.Text

theorem ofNat_injective {m n : Nat} (h : ofNat m = ofNat n) : m = n := by
  rw [← Nat.ofDigitChars_ten_toDigits (n := m), ← Nat.ofDigitChars_ten_toDigits (n := n),
    String.ofList_injective h]

theorem ofNat_ne_empty (n : Nat) : ofNat n ≠ "" := fun h =>
  Nat.toDigits_ne_nil (String.ofList_injective (h.trans rfl))

theorem underscore_notMem_ofNat (n : Nat) : '_' ∉ (ofNat n).toList := by
  rw [ofNat, String.toList_ofList]
  exact Nat.underscore_not_in_toDigits

theorem numbered_injective {name : String} {m n : Nat} (h : numbered name m = numbered name n) :
    m = n := by
  rw [numbered, numbered] at h
  split at h <;> split at h
  · omega
  · exact absurd (String.append_eq_left_iff.1 h.symm) (ofNat_ne_empty n)
  · exact absurd (String.append_eq_left_iff.1 h) (ofNat_ne_empty m)
  · exact ofNat_injective (String.append_right_inj _ |>.1 h)

/-- **Numbers make a name free**, however they are put into it. -/
theorem exists_free_naming {κ : Type} (things : List κ) (rulesOut : κ → String → Prop)
    {taken : String → Prop} (hruled : ∀ token, taken token → ∃ k ∈ things, rulesOut k token)
    (hone : ∀ k token other, rulesOut k token → rulesOut k other → token = other) {count : Nat}
    (hcount : things.length < count) {naming : Nat → String} (hnaming : naming.Injective) :
    ∃ n < count, ¬ taken (naming n) := by
  by_contra hnone
  have htaken : ∀ n < count, taken (naming n) := fun n hn => by
    by_contra hfree
    exact hnone ⟨n, hn, hfree⟩
  have hthing : ∀ n : Fin count, ∃ k ∈ things, rulesOut k (naming n) :=
    fun n => hruled _ (htaken n n.2)
  choose thing hmem hrules using hthing
  -- Candidates are told apart by what rules them out, so there are at most as many.
  have hnodup : (List.ofFn thing).Nodup := List.nodup_ofFn.2 fun m n h => by
    have hsame := hone _ _ _ (h ▸ hrules m) (hrules n)
    exact Fin.ext (hnaming hsame)
  have hsub : List.ofFn thing ⊆ things := fun k hk => by
    obtain ⟨n, rfl⟩ := List.mem_ofFn.1 hk
    exact hmem n
  have hle := (hnodup.subperm hsub).length_le
  rw [List.length_ofFn] at hle
  omega

theorem exists_free {κ : Type} (things : List κ) (rulesOut : κ → String → Prop)
    {taken : String → Prop} (hruled : ∀ token, taken token → ∃ k ∈ things, rulesOut k token)
    (hone : ∀ k token other, rulesOut k token → rulesOut k other → token = other) {count : Nat}
    (hcount : things.length < count) (name : String) :
    ∃ n < count, ¬ taken (numbered name n) :=
  exists_free_naming things rulesOut hruled hone hcount fun _ _ => numbered_injective

/-- The first of enough numbers gives a free name. -/
theorem firstFrom_free (free : String → Bool) {count : Nat} {name : String}
    (h : ∃ n < count, free (numbered name n) = true) :
    free (numbered name (firstFrom count (fun n => free (numbered name n)) 0)) = true := by
  obtain ⟨n, hn, hfree⟩ := h
  let test (n : Nat) : Bool := free (numbered name n)
  have hpasses : test (0 + n) = true := by rwa [Nat.zero_add]
  exact firstFrom_passes hn hpasses

/-- What stands before the last underscore is determined by the whole. -/
theorem append_underscore_inj {xs xs' ds ds' : List Char} (hds : '_' ∉ ds) (hds' : '_' ∉ ds')
    (h : xs ++ '_' :: ds = xs' ++ '_' :: ds') : xs = xs' := by
  rcases List.append_eq_append_iff.1 h with ⟨as, rfl, has⟩ | ⟨as, rfl, has⟩ <;>
    cases as with
    | nil => simp
    | cons a as =>
      obtain ⟨-, rfl⟩ := List.cons.inj has
      simp at hds hds'

end StoreQuery.Text
