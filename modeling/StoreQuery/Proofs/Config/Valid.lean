import StoreQuery.Config.Basic
import StoreQuery.Proofs.Dict

/-!
# What is valid about a configuration

A configuration is valid if nothing is wrong with it, and each of its tests stands for a property:

* its limits are positive and do not cross (`Limits.IsSound`);
* every relation leads to an entity that is described as well (`Sql.HasTargets`).

Each test finds nothing wrong exactly where its property holds (`limitFault?_eq_none_iff`,
`strayTarget?_eq_none_iff`).
-/

namespace StoreQuery

/-! ## Limits -/

/-- Limits are positive, and the default is not above the maximum. -/
structure Limits.IsSound (limits : Limits) : Prop where
  default_pos : ∀ d, limits.default = some d → 1 ≤ d
  max_pos : ∀ m, limits.max = some m → 1 ≤ m
  default_le_max : ∀ d m, limits.default = some d → limits.max = some m → d ≤ m

/-! ## Relations -/

/-- Every relation of a described entity leads to an entity that is described as well. -/
def Sql.HasTargets (entities : Dict EntitySettings) : Prop :=
  ∀ name settings, entities.find? name = some settings →
    ∀ relation target, settings.relations.find? relation = some target →
      ∃ next, entities.find? target = some next

namespace Config

variable {c : Config} {limits : Limits} {entities : Dict Sql.EntitySettings}

theorem validate_eq_ok_iff : c.validate = .ok () ↔ c.fault? = none := by
  rw [validate]
  cases c.fault? <;> simp

theorem one_le_iff {n : UInt64} : 1 ≤ n ↔ n ≠ 0 := by
  rw [UInt64.le_iff_toNat_le, Ne, ← UInt64.toNat_inj]
  exact Nat.one_le_iff_ne_zero

theorem limitFault?_eq_none_iff : limitFault? limits = none ↔ limits.IsSound := by
  rw [limitFault?]
  constructor
  · intro h
    split at h
    · cases h
    · rename_i hzero
      obtain ⟨hdefault, hmax⟩ := not_or.1 hzero
      refine ⟨fun d hd => ?_, fun m hm => ?_, fun d m hd hm => ?_⟩
      · apply one_le_iff.2
        rintro rfl
        exact hdefault hd
      · apply one_le_iff.2
        rintro rfl
        exact hmax hm
      · rw [hd, hm] at h
        by_cases hcross : m < d
        · simp [hcross] at h
        · exact UInt64.not_lt.1 hcross
  · intro hsound
    have hdefault : limits.default ≠ some 0 := fun h => one_le_iff.1 (hsound.default_pos 0 h) rfl
    have hmax : limits.max ≠ some 0 := fun h => one_le_iff.1 (hsound.max_pos 0 h) rfl
    rw [if_neg (not_or.2 ⟨hdefault, hmax⟩)]
    split
    · rename_i d m hd hm
      exact if_neg (UInt64.not_lt.2 (hsound.default_le_max d m hd hm))
    · rfl

theorem strayRelation?_eq_none_iff {name : String} {settings : Sql.EntitySettings} :
    strayRelation? entities name settings = none ↔
      ∀ relation target, settings.relations.find? relation = some target →
        ∃ next, entities.find? target = some next := by
  rw [strayRelation?, List.findSome?_eq_none_iff]
  constructor
  · intro h relation target hrelation
    have hknown := h (relation, target) (Dict.mem_entries_of_find? hrelation)
    by_cases htarget : entities.contains target = true
    · exact Option.isSome_iff_exists.1 htarget
    · simp [htarget] at hknown
  · intro h ⟨relation, target⟩ hentry
    have htarget : entities.contains target = true :=
      Option.isSome_iff_exists.2 (h relation target (Dict.mem_entries_iff.1 hentry))
    exact if_pos htarget

theorem strayTarget?_eq_none_iff : strayTarget? entities = none ↔ Sql.HasTargets entities := by
  rw [strayTarget?, List.findSome?_eq_none_iff, Sql.HasTargets]
  constructor
  · intro h name settings hsettings
    exact strayRelation?_eq_none_iff.1 (h (name, settings) (Dict.mem_entries_of_find? hsettings))
  · intro h ⟨name, settings⟩ hentry
    exact strayRelation?_eq_none_iff.2 (h name settings (Dict.mem_entries_iff.1 hentry))

/-- **The limits of a valid configuration are sound.** -/
theorem isSound_of_validate (h : c.validate = .ok ()) : c.limits.IsSound := by
  have hfault := validate_eq_ok_iff.1 h
  simp only [fault?, Option.or_eq_none_iff] at hfault
  exact limitFault?_eq_none_iff.1 hfault.2.2

/-- **In a valid configuration every relation has a target.** -/
theorem hasTargets_of_validate (h : c.validate = .ok ()) : Sql.HasTargets c.sql.entities := by
  have hfault := validate_eq_ok_iff.1 h
  simp only [fault?, Option.or_eq_none_iff] at hfault
  exact strayTarget?_eq_none_iff.1 hfault.1

end Config

end StoreQuery
