import StoreQuery.Error

/-!
# Success

A computation made of two parts succeeds exactly when both do, one after the other. What every step
of a fold preserves holds after the fold (`of_foldlM_eq_ok`).
-/

namespace StoreQuery

universe u

variable {α β : Type u}

theorem bind_eq_ok {x : Except Error α} {f : α → Except Error β} {b : β} :
    (x >>= f) = .ok b ↔ ∃ a, x = .ok a ∧ f a = .ok b := by
  cases x with
  | error e => exact ⟨nofun, fun ⟨_, h, _⟩ => nomatch h⟩
  | ok a => exact ⟨fun h => ⟨a, rfl, h⟩, fun ⟨_, ha, h⟩ => by cases ha; exact h⟩

theorem map_eq_ok {x : Except Error α} {f : α → β} {b : β} :
    x.map f = .ok b ↔ ∃ a, x = .ok a ∧ f a = b := by
  cases x with
  | error e => exact ⟨nofun, fun ⟨_, h, _⟩ => nomatch h⟩
  | ok a => exact ⟨fun h => ⟨a, rfl, by cases h; rfl⟩, fun ⟨_, ha, h⟩ => by cases ha; cases h; rfl⟩

theorem pure_eq_ok {a b : α} : (pure a : Except Error α) = .ok b ↔ a = b :=
  ⟨fun h => by cases h; rfl, fun h => h ▸ rfl⟩

/-- A run is known by a view of its result. -/
theorem exists_of_toOption {x : Except Error α} {f : α → β} {b : β}
    (h : x.toOption.map f = some b) : ∃ a, x = .ok a ∧ f a = b := by
  cases x with
  | error e => cases h
  | ok a => exact ⟨a, rfl, Option.some.inj h⟩

theorem run_bind_eq_ok {ε σ α β : Type} {x : EStateM ε σ α} {f : α → EStateM ε σ β} {b : β}
    {s s' : σ} : (x >>= f) s = .ok b s' ↔ ∃ a t, x s = .ok a t ∧ f a t = .ok b s' := by
  simp only [bind, EStateM.bind]
  cases x s with
  | error e t => exact ⟨nofun, fun ⟨_, _, h, _⟩ => nomatch h⟩
  | ok a t => exact ⟨fun h => ⟨a, t, rfl, h⟩, fun ⟨_, _, ha, h⟩ => by cases ha; exact h⟩

/-- What holds at first and is preserved by every step holds at the end. -/
theorem of_foldlM_eq_ok {holds : β → Prop} {f : β → α → Except Error β} {steps : List α} {b b' : β}
    (h : steps.foldlM f b = .ok b') (hb : holds b)
    (hstep : ∀ a ∈ steps, ∀ b b', f b a = .ok b' → holds b → holds b') : holds b' := by
  induction steps generalizing b with
  | nil =>
    cases h
    exact hb
  | cons a steps ih =>
    rw [List.foldlM_cons] at h
    obtain ⟨next, hnext, h⟩ := bind_eq_ok.1 h
    obtain ⟨ha, hsteps⟩ := List.forall_mem_cons.1 hstep
    exact ih h (ha b next hnext hb) hsteps

end StoreQuery
