import Mathlib.Tactic
import Mathlib.Data.Nat.Count

/-! Bitmaps: how many bits are set or clear below a width, and the search for a clear bit. -/

namespace OpenGauss.Lib

def setCount (bits : Nat → Bool) (width : Nat) : Nat := Nat.count (fun bit => bits bit = true) width

def clearCount (bits : Nat → Bool) (width : Nat) : Nat :=
  Nat.count (fun bit => bits bit = false) width

variable {bits other : Nat → Bool} {width bit : Nat}

theorem setCount_add_clearCount (bits : Nat → Bool) (width : Nat) :
    setCount bits width + clearCount bits width = width := by
  induction width with
  | zero => rfl
  | succ width ih =>
    simp only [setCount, clearCount, Nat.count_succ] at ih ⊢
    cases bits width <;> simp <;> omega

theorem setCount_add (bits : Nat → Bool) (first second : Nat) : setCount bits (first + second) =
      setCount bits first + setCount (fun bit => bits (first + bit)) second :=
  Nat.count_add _ _ _

theorem setCount_congr (same : ∀ bit < width, bits bit = other bit) :
    setCount bits width = setCount other width := by
  induction width with
  | zero => rfl
  | succ width ih =>
    have before := ih fun bit below => same bit (Nat.lt_succ_of_lt below)
    simp only [setCount, Nat.count_succ] at before ⊢
    rw [before, same width (Nat.lt_succ_self width)]

theorem setCount_set (below : bit < width) (clear : bits bit = false) :
    setCount (Function.update bits bit true) width = setCount bits width + 1 := by
  induction width with
  | zero => exact absurd below (Nat.not_lt_zero bit)
  | succ width ih =>
    simp only [setCount, Nat.count_succ] at ih ⊢
    by_cases last : bit = width
    · subst last
      have before : setCount (Function.update bits bit true) bit = setCount bits bit :=
        setCount_congr fun other earlier => Function.update_of_ne (Nat.ne_of_lt earlier) _ _
      simp only [setCount] at before
      simp [before, clear]
    · rw [ih (by omega), Function.update_of_ne (Ne.symm last)]
      omega

theorem setCount_unset (below : bit < width) (set : bits bit = true) :
    setCount (Function.update bits bit false) width + 1 = setCount bits width := by
  have back : setCount (Function.update (Function.update bits bit false) bit true) width =
      setCount (Function.update bits bit false) width + 1 :=
    setCount_set below (Function.update_self _ _ _)
  rw [Function.update_idem, ← set, Function.update_eq_self] at back
  exact back.symm

theorem clearCount_set (below : bit < width) (clear : bits bit = false) :
    clearCount (Function.update bits bit true) width + 1 = clearCount bits width := by
  have before := setCount_add_clearCount bits width
  have after := setCount_add_clearCount (Function.update bits bit true) width
  have := setCount_set below clear
  omega

theorem clearCount_unset (below : bit < width) (set : bits bit = true) :
    clearCount (Function.update bits bit false) width = clearCount bits width + 1 := by
  have before := setCount_add_clearCount bits width
  have after := setCount_add_clearCount (Function.update bits bit false) width
  have := setCount_unset below set
  omega

theorem clearCount_eq_zero : clearCount bits width = 0 ↔ ∀ bit < width, bits bit = true := by
  induction width with
  | zero => simp [clearCount]
  | succ width ih =>
    simp only [clearCount, Nat.count_succ, Nat.add_eq_zero_iff] at ih ⊢
    rw [ih]
    constructor
    · rintro ⟨before, last⟩ bit below
      rcases Nat.lt_succ_iff_lt_or_eq.mp below with earlier | rfl
      · exact before bit earlier
      · simpa using last
    · intro all
      refine ⟨fun bit below => all bit (Nat.lt_succ_of_lt below), ?_⟩
      simp [all width (Nat.lt_succ_self width)]

theorem setCount_full (full : ∀ bit < width, bits bit = true) : setCount bits width = width := by
  have := setCount_add_clearCount bits width
  rw [clearCount_eq_zero.mpr full] at this
  exact this

theorem setCount_eq_zero (absent : ∀ bit < width, bits bit = false) : setCount bits width = 0 := by
  induction width with
  | zero => rfl
  | succ width ih =>
    have before := ih fun bit below => absent bit (Nat.lt_succ_of_lt below)
    simp only [setCount, Nat.count_succ] at before ⊢
    simp [before, absent width (Nat.lt_succ_self width)]

/-- A full stretch at the front is counted. -/
theorem le_setCount {front : Nat} (inside : front ≤ width) (full : ∀ bit < front, bits bit = true) :
    front ≤ setCount bits width := by
  obtain ⟨rest, rfl⟩ := Nat.exists_eq_add_of_le inside
  rw [setCount_add, setCount_full full]
  exact Nat.le_add_right _ _

/-- The last set bit has all the others before it. -/
theorem exists_set_of_setCount (pos : 0 < setCount bits width) :
    ∃ bit < width, bits bit = true ∧ setCount bits width ≤ bit + 1 := by
  induction width with
  | zero => exact absurd pos (Nat.lt_irrefl 0)
  | succ width ih =>
    by_cases last : bits width = true
    · refine ⟨width, Nat.lt_succ_self width, last, ?_⟩
      have := setCount_add_clearCount bits (width + 1)
      omega
    · have same : setCount bits (width + 1) = setCount bits width := by
        simp only [setCount, Nat.count_succ, if_neg last, Nat.add_zero]
      rw [same] at pos ⊢
      obtain ⟨bit, below, set, count⟩ := ih pos
      exact ⟨bit, Nat.lt_succ_of_lt below, set, count⟩

/-- The first clear bit among the `count` bits from `from`, or the bit after them. -/
def findClear (bits : Nat → Bool) : Nat → Nat → Nat
  | 0, start => start
  | count + 1, start => if bits start = false then start else findClear bits count (start + 1)

theorem findClear_eq {count start : Nat} (after : start ≤ bit) (inside : bit ≤ start + count)
    (full : ∀ earlier, start ≤ earlier → earlier < bit → bits earlier = true)
    (stop : bit < start + count → bits bit = false) : findClear bits count start = bit := by
  induction count generalizing start with
  | zero => exact Nat.le_antisymm after inside
  | succ count ih =>
    rw [findClear]
    by_cases here : start = bit
    · subst here
      rw [if_pos (stop (by omega))]
    · rw [if_neg (by simp [full start le_rfl (by omega)])]
      exact ih (by omega) (by omega) (fun earlier low => full earlier (by omega))
        fun inside => stop (by omega)

/-- The least clear bit below the width, if there is one. -/
theorem exists_least_clear (present : ∃ bit < width, bits bit = false) :
    ∃ least < width, bits least = false ∧ ∀ earlier < least, bits earlier = true := by
  obtain ⟨bit, below, clear⟩ := present
  induction bit using Nat.strong_induction_on with
  | _ bit ih =>
    by_cases earlier : ∃ other < bit, bits other = false
    · obtain ⟨other, before, clear'⟩ := earlier
      exact ih other before (before.trans below) clear'
    · refine ⟨bit, below, clear, ?_⟩
      intro other before
      by_contra unset
      exact earlier ⟨other, before, by simpa using unset⟩

end OpenGauss.Lib
