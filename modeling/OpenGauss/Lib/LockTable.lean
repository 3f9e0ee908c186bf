import Mathlib.Tactic

/-! Exclusive locks on resources, of which every holder has at most one. -/

namespace OpenGauss.Lib

universe u v

variable {Resource : Type u} {Holder : Type v} [DecidableEq Resource] [DecidableEq Holder]

def LockTable (lock : Resource → Option Holder) (holds : Holder → Option Resource) : Prop :=
  ∀ resource holder, lock resource = some holder ↔ holds holder = some resource

namespace LockTable

variable {lock : Resource → Option Holder} {holds : Holder → Option Resource} {resource : Resource}
    {holder other : Holder}

omit [DecidableEq Resource] [DecidableEq Holder] in
theorem alone (table : LockTable lock holds) (first : holds holder = some resource)
    (second : holds other = some resource) : other = holder := by
  have one := (table resource holder).mpr first
  have two := (table resource other).mpr second
  exact Option.some.inj (two.symm.trans one)

omit [DecidableEq Resource] in
/-- A holder goes on with the lock it has, or with none. -/
theorem same (table : LockTable lock holds) {now : Option Resource} (kept : now = holds holder) :
    LockTable lock (Function.update holds holder now) := by
  rw [kept, Function.update_eq_self]
  exact table

theorem acquire (table : LockTable lock holds) (unlocked : lock resource = none) (idle : holds holder = none) :
    LockTable (Function.update lock resource (some holder)) (Function.update holds holder (some resource)) := by
  intro place who
  rw [Function.update_apply, Function.update_apply]
  have before := table place who
  by_cases here : place = resource <;> by_cases self : who = holder
  · simp [here, self]
  · rw [if_pos here, if_neg self, ← before, here, unlocked]
    simp [Ne.symm self]
  · rw [if_neg here, if_pos self, before, self, idle]
    simp [Ne.symm here]
  · rw [if_neg here, if_neg self, before]

theorem release (table : LockTable lock holds) (held : holds holder = some resource) :
    LockTable (Function.update lock resource none) (Function.update holds holder none) := by
  intro place who
  rw [Function.update_apply, Function.update_apply]
  have before := table place who
  by_cases here : place = resource <;> by_cases self : who = holder
  · simp [here, self]
  · rw [if_pos here, if_neg self]
    exact ⟨nofun, fun also => absurd (table.alone held (here ▸ also)) self⟩
  · rw [if_neg here, if_pos self, before, self, held]
    simp [Ne.symm here]
  · rw [if_neg here, if_neg self, before]

end LockTable

end OpenGauss.Lib
