import StoreQuery.Number.Text

/-!
# Numbered names

A name that is in use is made free by a number behind it. The search goes through the numbers in
order; as every name in use rules out a limited number of candidates, trying one candidate more
than all of them rule out finds a free one.
-/

namespace StoreQuery.Text

/-- The first number from `n` on that passes a test, among as many as the first argument says;
the number after them if none does. -/
def firstFrom : Nat → (Nat → Bool) → Nat → Nat
  | 0, _, n => n
  | count + 1, test, n => if test n then n else firstFrom count test (n + 1)

theorem firstFrom_passes {count : Nat} {test : Nat → Bool} {n k : Nat} (hk : k < count)
    (h : test (n + k) = true) : test (firstFrom count test n) = true := by
  induction count generalizing n k with
  | zero => omega
  | succ count ih =>
    simp only [firstFrom]
    split
    · assumption
    · rename_i hn
      cases k with
      | zero => exact absurd h hn
      | succ k =>
        have h' : test (n + 1 + k) = true := by rw [Nat.add_right_comm]; exact h
        exact ih (Nat.lt_of_succ_lt_succ hk) h'

/-- A name with a number behind it; the number 0 is not written. -/
def numbered (name : String) (n : Nat) : String := if n = 0 then name else name ++ ofNat n

end StoreQuery.Text
