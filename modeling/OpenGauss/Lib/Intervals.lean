import Mathlib.Order.Interval.Set.LinearOrder
import Mathlib.Order.SuccPred.Basic
import Mathlib.Tactic

/-! Sets of points kept as ascending lists of closed intervals. -/

namespace OpenGauss.Lib

universe u

/-- A closed interval with a point in it. -/
structure Span (Point : Type u) [LE Point] where
  first : Point
  last : Point
  ordered : first ≤ last

namespace Span

variable {Point : Type u} [LinearOrder Point]

def points (interval : Span Point) : Set Point := Set.Icc interval.first interval.last

def Before (left right : Span Point) : Prop := left.last < right.first

/-- Disjoint intervals from the lowest to the highest. -/
def Ascending (intervals : List (Span Point)) : Prop := intervals.Pairwise Before

def cover (intervals : List (Span Point)) : Set Point :=
  {point | ∃ interval ∈ intervals, point ∈ interval.points}

def hull (left right : Span Point) : Span Point where
  first := min left.first right.first
  last := max left.last right.last
  ordered := (min_le_left _ _).trans (left.ordered.trans (le_max_left _ _))

def insert : Span Point → List (Span Point) → List (Span Point)
  | added, [] => [added]
  | added, interval :: rest =>
    if added.last < interval.first then added :: interval :: rest
    else if interval.last < added.first then interval :: insert added rest
    else insert (hull added interval) rest

@[simp] theorem cover_nil : cover ([] : List (Span Point)) = ∅ := by
  ext point
  simp [cover]

@[simp] theorem cover_cons (interval : Span Point) (rest : List (Span Point)) :
    cover (interval :: rest) = interval.points ∪ cover rest := by
  ext point
  simp [cover]

@[simp] theorem cover_append (front back : List (Span Point)) :
    cover (front ++ back) = cover front ∪ cover back := by
  induction front with
  | nil => simp
  | cons interval rest ih => simp [ih, Set.union_assoc]

theorem points_hull {left right : Span Point} (low : right.first ≤ left.last)
    (high : left.first ≤ right.last) : (hull left right).points = left.points ∪ right.points :=
  (Set.Icc_union_Icc' low high).symm

variable (added : Span Point) (removed interval : Span Point)

theorem cover_insert (intervals : List (Span Point)) :
    cover (insert added intervals) = cover intervals ∪ added.points := by
  induction intervals generalizing added with
  | nil => simp [insert]
  | cons interval rest ih =>
    simp only [insert]
    split
    · rw [cover_cons, Set.union_comm]
    · split
      · rw [cover_cons, ih, cover_cons, Set.union_assoc]
      · rename_i low high
        rw [ih, points_hull (not_lt.mp low) (not_lt.mp high), cover_cons,
          Set.union_comm added.points, ← Set.union_assoc, Set.union_comm (cover rest)]

variable {intervals : List (Span Point)}

/-- What lies before the new interval and before all old ones lies before the result. -/
theorem before_insert {left added : Span Point} (apart : left.Before added)
    (old : ∀ interval ∈ intervals, left.Before interval) :
    ∀ interval ∈ insert added intervals, left.Before interval := by
  induction intervals generalizing added with
  | nil => simpa [insert] using apart
  | cons next rest ih =>
    have nextApart := old next List.mem_cons_self
    have restApart : ∀ interval ∈ rest, left.Before interval :=
      fun interval member => old interval (List.mem_cons_of_mem _ member)
    simp only [insert]
    split
    · exact List.forall_mem_cons.mpr ⟨apart, old⟩
    · split
      · exact List.forall_mem_cons.mpr ⟨nextApart, ih apart restApart⟩
      · exact ih (lt_min apart nextApart) restApart

theorem ascending_insert (ascending : Ascending intervals) : Ascending (insert added intervals) := by
  induction intervals generalizing added with
  | nil => exact List.pairwise_singleton _ _
  | cons interval rest ih =>
    obtain ⟨later, sorted⟩ := List.pairwise_cons.mp ascending
    simp only [insert]
    split
    · rename_i low
      refine List.pairwise_cons.mpr ⟨?_, ascending⟩
      intro next member
      rcases List.mem_cons.mp member with rfl | member
      · exact low
      · exact low.trans (interval.ordered.trans_lt (later next member))
    · split
      · rename_i high
        exact List.pairwise_cons.mpr ⟨before_insert high later, ih added sorted⟩
      · exact ih _ sorted

variable [SuccOrder Point] [PredOrder Point]

/-- The part of an interval before the removed one. -/
def leftPiece (removed interval : Span Point) : List (Span Point) :=
  if outside : interval.first < removed.first then
    [⟨interval.first, Order.pred removed.first, Order.le_pred_of_lt outside⟩]
  else []

/-- The part of an interval after the removed one. -/
def rightPiece (removed interval : Span Point) : List (Span Point) :=
  if outside : removed.last < interval.last then
    [⟨Order.succ removed.last, interval.last, Order.succ_le_of_lt outside⟩]
  else []

def cut (removed interval : Span Point) : List (Span Point) :=
  if interval.last < removed.first ∨ removed.last < interval.first then [interval]
  else leftPiece removed interval ++ rightPiece removed interval

def remove (removed : Span Point) (intervals : List (Span Point)) : List (Span Point) :=
  intervals.flatMap (cut removed)

omit [SuccOrder Point] in
theorem cover_leftPiece (removed interval : Span Point) : cover (leftPiece removed interval) =
      {point | interval.first ≤ point ∧ point < removed.first} := by
  unfold leftPiece
  split
  · rename_i outside
    ext point
    simp [points, Order.le_pred_iff_of_not_isMin outside.not_isMin]
  · rename_i inside
    ext point
    simp only [cover_nil, Set.mem_empty_iff_false, Set.mem_ofPred_eq, false_iff, not_and, not_lt]
    exact fun low => (not_lt.mp inside).trans low

omit [PredOrder Point] in
theorem cover_rightPiece (removed interval : Span Point) : cover (rightPiece removed interval) =
      {point | removed.last < point ∧ point ≤ interval.last} := by
  unfold rightPiece
  split
  · rename_i outside
    ext point
    simp [points, Order.succ_le_iff_of_not_isMax outside.not_isMax]
  · rename_i inside
    ext point
    simp only [cover_nil, Set.mem_empty_iff_false, Set.mem_ofPred_eq, false_iff, not_and, not_le]
    exact fun low => (not_lt.mp inside).trans_lt low

theorem cover_cut :
    cover (cut removed interval) = interval.points \ removed.points := by
  have held := interval.ordered
  have gone := removed.ordered
  unfold cut
  split
  · rename_i apart
    ext point
    simp only [cover_cons, cover_nil, Set.union_empty, Set.mem_sdiff, points, Set.mem_Icc]
    rcases apart with apart | apart <;> grind
  · rename_i meets
    ext point
    simp only [cover_append, cover_leftPiece, cover_rightPiece, Set.mem_union, Set.mem_ofPred_eq,
      Set.mem_sdiff, points, Set.mem_Icc]
    grind

theorem cover_remove (removed : Span Point) (intervals : List (Span Point)) :
    cover (remove removed intervals) = cover intervals \ removed.points := by
  induction intervals with
  | nil => simp [remove]
  | cons interval rest ih =>
    rw [remove, List.flatMap_cons, cover_append, cover_cut, cover_cons, Set.union_sdiff_distrib]
    exact congrArg _ ih

/-- A piece left by a cut lies inside the interval that was cut. -/
theorem mem_cut {removed interval piece : Span Point} (member : piece ∈ cut removed interval) :
    interval.first ≤ piece.first ∧ piece.last ≤ interval.last := by
  have inside : ∀ point ∈ piece.points, point ∈ interval.points := by
    intro point within
    have covered : point ∈ cover (cut removed interval) := ⟨piece, member, within⟩
    rw [cover_cut] at covered
    exact covered.1
  exact ⟨(inside _ (Set.left_mem_Icc.mpr piece.ordered)).1,
    (inside _ (Set.right_mem_Icc.mpr piece.ordered)).2⟩

theorem ascending_cut : Ascending (cut removed interval) := by
  unfold cut
  split
  · exact List.pairwise_singleton _ _
  · unfold leftPiece rightPiece
    split <;> split
    · rename_i low high
      refine List.pairwise_pair.mpr ?_
      calc Order.pred removed.first < removed.first := Order.pred_lt_of_not_isMin low.not_isMin
        _ ≤ removed.last := removed.ordered
        _ < Order.succ removed.last := Order.lt_succ_of_not_isMax high.not_isMax
    all_goals simp [Ascending]

theorem ascending_remove (removed : Span Point) (ascending : Ascending intervals) :
    Ascending (remove removed intervals) := by
  refine List.pairwise_flatMap.mpr ⟨fun interval _ => ascending_cut removed interval, ?_⟩
  refine ascending.imp ?_
  intro left right apart first memberLeft second memberRight
  calc first.last ≤ left.last := (mem_cut memberLeft).2
    _ < right.first := apart
    _ ≤ second.first := (mem_cut memberRight).1

end Span

/-- A set of points held as disjoint intervals. -/
structure IntervalSet (Point : Type u) [LinearOrder Point] where
  intervals : List (Span Point)
  ascending : Span.Ascending intervals

namespace IntervalSet

variable {Point : Type u} [LinearOrder Point]

def empty : IntervalSet Point := ⟨[], List.Pairwise.nil⟩

variable (held : IntervalSet Point)

def points : Set Point := Span.cover held.intervals

def add (added : Span Point) : IntervalSet Point :=
  ⟨Span.insert added held.intervals, Span.ascending_insert added held.ascending⟩

def erase [SuccOrder Point] [PredOrder Point]
    (removed : Span Point) : IntervalSet Point :=
  ⟨Span.remove removed held.intervals, Span.ascending_remove removed held.ascending⟩

@[simp] theorem points_add (added : Span Point) :
    (held.add added).points = held.points ∪ added.points :=
  Span.cover_insert added held.intervals

@[simp] theorem points_erase [SuccOrder Point] [PredOrder Point]
    (removed : Span Point) : (held.erase removed).points = held.points \ removed.points :=
  Span.cover_remove removed held.intervals

end IntervalSet

end OpenGauss.Lib
