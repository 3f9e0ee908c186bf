import OpenGauss.Lib.Linked
import OpenGauss.ProcArray.GroupClear

namespace OpenGauss.ProcArray

inductive GroupRole where
  | outside
  | entering
  | waiting
  /-- The first of a group that is still forming, without and with the lock. -/
  | heading
  | taking
  | carrying
  | releasing
  deriving DecidableEq, Repr

/-- The list a backend is in, and for the list of a leader whether its request was carried out. -/
inductive GroupPlace where
  | away
  | forming
  | todo (leader : Nat)
  | done (leader : Nat)
  deriving DecidableEq, Repr

namespace GroupRole

def leads : GroupRole → Bool
  | .heading | .taking => true
  | _ => false

def locked : GroupRole → Bool
  | .taking | .carrying => true
  | _ => false

@[grind =] theorem leads_iff {role : GroupRole} : role.leads = true ↔ role = .heading ∨ role = .taking := by
  cases role <;> simp [leads]

@[grind =] theorem locked_iff {role : GroupRole} : role.locked = true ↔ role = .taking ∨ role = .carrying := by
  cases role <;> simp [locked]

end GroupRole

/-- Every backend in a list waits there, or leads it, and is still marked as a member. `halfway` is the
member whose fields a leader has reset in part. -/
structure Placement (role : Nat → GroupRole) (halfway : Nat → Option Nat) (place : Nat → GroupPlace)
    (member : Nat → Bool) (groupLeader : Nat → Nat) (lock : Option Nat) : Prop where
  forming : ∀ id, place id = .forming →
    (role id = .waiting ∨ (role id).leads) ∧ member id ∧ (role (groupLeader id)).leads
  todo : ∀ id leader, place id = .todo leader →
    role leader = .carrying ∧ (role id = .waiting ∨ id = leader) ∧ member id ∧ groupLeader id = leader
  done : ∀ id leader, place id = .done leader →
    (role leader = .carrying ∨ role leader = .releasing) ∧ (role id = .waiting ∨ id = leader) ∧ member id
  waiting : ∀ id, role id = .waiting → place id = .away → member id = false
  leading : ∀ id, (role id).leads → place id = .forming
  single : ∀ id other, (role id).leads → (role other).leads → id = other
  released : ∀ leader id, halfway leader = some id →
    role leader = .releasing ∧ place id = .away ∧ (role id = .outside ∨ role id = .waiting ∨ id = leader)
  locks : ∀ id, lock = some id ↔ (role id).locked

namespace Placement

variable {role role' : Nat → GroupRole} {halfway halfway' : Nat → Option Nat}
  {place place' : Nat → GroupPlace} {member member' : Nat → Bool} {groupLeader groupLeader' : Nat → Nat}
  {lock lock' : Option Nat} {backend id leader : Nat}

section

variable (placed : Placement role halfway place member groupLeader lock)

include placed

/-- A backend that is neither waiting nor leading is in no list. -/
theorem away (apart : role backend = .outside ∨ role backend = .entering) : place backend = .away := by
  cases here : place backend with
  | away => rfl
  | forming => grind [placed.forming backend here]
  | todo leader => grind [placed.todo backend leader here]
  | done leader => grind [placed.done backend leader here]

/-- Nobody resets the fields of a backend that is posting a request. -/
theorem whole (entering : role backend = .entering) (leader : Nat) : halfway leader ≠ some backend := by
  intro half
  have := placed.released leader backend half
  grind

theorem enter (outside : role backend = .outside) (apart : ∀ leader, halfway leader ≠ some backend)
    (role_eq : ∀ other, role' other = if other = backend then .entering else role other) :
    Placement role' halfway place member groupLeader lock where
  forming id here := by
    grind [placed.away (.inl outside), placed.forming id here]
  todo id leader here := by grind [placed.away (.inl outside), placed.todo id leader here]
  done id leader here := by grind [placed.away (.inl outside), placed.done id leader here]
  waiting id waits := by grind [placed.waiting id]
  leading id leads := by grind [placed.leading id]
  single id other := by grind [placed.single id other]
  released leader id half := by grind [placed.released leader id half]
  locks id := by grind [placed.locks id]

/-- The mark of a backend that is in no list yet. -/
theorem mark (entering : role backend = .entering)
    (member_eq : ∀ other, other ≠ backend → member' other = member other) :
    Placement role halfway place member' groupLeader lock where
  forming id here := by grind [placed.away (.inr entering), placed.forming id here]
  todo id leader here := by grind [placed.away (.inr entering), placed.todo id leader here]
  done id leader here := by grind [placed.away (.inr entering), placed.done id leader here]
  waiting id waits := by grind [placed.waiting id waits]
  leading := placed.leading
  single := placed.single
  released := placed.released
  locks := placed.locks

theorem head (entering : role backend = .entering) (marked : member backend)
    (empty : ∀ other, place other ≠ .forming)
    (role_eq : ∀ other, role' other = if other = backend then .heading else role other)
    (place_eq : ∀ other, place' other = if other = backend then .forming else place other)
    (leader_eq : ∀ other, groupLeader' other = if other = backend then backend else groupLeader other) :
    Placement role' halfway place' member groupLeader' lock where
  forming id here := by grind [placed.forming id]
  todo id leader here := by grind [placed.away (.inr entering), placed.todo id leader]
  done id leader here := by grind [placed.away (.inr entering), placed.done id leader]
  waiting id waits := by grind [placed.waiting id]
  leading id leads := by grind [placed.leading id]
  single id other first second := by
    grind [placed.leading id, placed.leading other, empty id, empty other]
  released leader id half := by grind [placed.whole entering leader, placed.released leader id half]
  locks id := by grind [placed.locks id]

theorem join (entering : role backend = .entering) (marked : member backend) (other : place id = .forming)
    (role_eq : ∀ other, role' other = if other = backend then .waiting else role other)
    (place_eq : ∀ other, place' other = if other = backend then .forming else place other)
    (leader_eq : ∀ other, groupLeader' other = if other = backend then groupLeader id else groupLeader other) :
    Placement role' halfway place' member groupLeader' lock where
  forming member here := by
    grind [placed.forming id other, placed.forming member]
  todo id leader here := by grind [placed.away (.inr entering), placed.todo id leader]
  done id leader here := by grind [placed.away (.inr entering), placed.done id leader]
  waiting id waits := by grind [placed.waiting id]
  leading id leads := by grind [placed.leading id]
  single id other := by grind [placed.single id other]
  released leader id half := by grind [placed.whole entering leader, placed.released leader id half]
  locks id := by grind [placed.locks id]

theorem leave (waiting : role backend = .waiting) (released : member backend = false)
    (role_eq : ∀ other, role' other = if other = backend then .outside else role other) :
    Placement role' halfway place member groupLeader lock where
  forming id here := by grind [placed.forming id here]
  todo id leader here := by grind [placed.todo id leader here]
  done id leader here := by grind [placed.done id leader here]
  waiting id waits := by grind [placed.waiting id]
  leading id leads := by grind [placed.leading id]
  single id other := by grind [placed.single id other]
  released leader id half := by grind [placed.released leader id half]
  locks id := by grind [placed.locks id]

theorem acquire (heading : role backend = .heading) (unlocked : lock = none)
    (role_eq : ∀ other, role' other = if other = backend then .taking else role other) :
    Placement role' halfway place member groupLeader (some backend) := by
  have leads : ∀ other, (role' other).leads ↔ (role other).leads := by
    intro other
    rw [role_eq]
    split_ifs with same
    · rw [same, heading]
      exact iff_of_true rfl rfl
    · rfl
  have nobody : ∀ other, ¬ (role other).locked := by
    intro other locked
    have held := (placed.locks other).mpr locked
    rw [unlocked] at held
    exact Option.some_ne_none other held.symm
  constructor
  case forming => exact fun id here => by grind [placed.forming id here]
  case todo => exact fun id leader here => by grind [placed.todo id leader here]
  case done => exact fun id leader here => by grind [placed.done id leader here]
  case waiting => exact fun id waits => by grind [placed.waiting id]
  case leading => exact fun id first => placed.leading id ((leads id).mp first)
  case single =>
    exact fun id other first second =>
      placed.single id other ((leads id).mp first) ((leads other).mp second)
  case released => exact fun leader id half => by grind [placed.released leader id half]
  case locks => exact fun id => by grind [nobody id]

/-- The group becomes the list of its leader. -/
theorem take (taking : role backend = .taking)
    (role_eq : ∀ other, role' other = if other = backend then .carrying else role other)
    (place_eq : ∀ other, place' other = if place other = .forming then .todo backend else place other) :
    Placement role' halfway place' member groupLeader lock where
  forming id here := by grind
  todo id leader here := by
    grind [placed.forming id, placed.todo id leader, placed.single id backend,
      placed.single (groupLeader id) backend]
  done id leader here := by grind [placed.done id leader]
  waiting id waits := by grind [placed.waiting id]
  leading id leads := by grind [placed.single id backend]
  single id other := by grind [placed.single id other]
  released leader id half := by grind [placed.released leader id half]
  locks id := by grind [placed.locks id]

theorem carry (request : place id = .todo leader)
    (place_eq : ∀ other, place' other = if other = id then .done leader else place other) :
    Placement role halfway place' member groupLeader lock where
  forming id here := by grind [placed.forming id]
  todo id leader here := by grind [placed.todo id leader]
  done other lead here := by grind [placed.todo id leader request, placed.done other lead]
  waiting id waits := by grind [placed.waiting id waits]
  leading id leads := by grind [placed.leading id leads]
  single := placed.single
  released leader id half := by grind [placed.released leader id half]
  locks := placed.locks

/-- The lock is released when nothing is left to carry out. -/
theorem unlock (carrying : role backend = .carrying) (empty : ∀ other, place other ≠ .todo backend)
    (role_eq : ∀ other, role' other = if other = backend then .releasing else role other) :
    Placement role' halfway place member groupLeader none where
  forming id here := by grind [placed.forming id here]
  todo id leader here := by grind [placed.todo id leader here]
  done id leader here := by grind [placed.done id leader here]
  waiting id waits := by grind [placed.waiting id]
  leading id leads := by grind [placed.leading id]
  single id other := by grind [placed.single id other]
  released leader id half := by grind [placed.released leader id half]
  locks id := by grind [placed.locks backend, placed.locks id]

theorem release (releasing : role backend = .releasing) (request : place id = .done backend)
    (halfway_eq : ∀ other, halfway' other = if other = backend then some id else halfway other)
    (place_eq : ∀ other, place' other = if other = id then .away else place other)
    (member_eq : ∀ other, member' other = if other = id then false else member other) :
    Placement role halfway' place' member' groupLeader lock where
  forming other here := by grind [placed.forming other]
  todo other leader here := by grind [placed.todo other leader]
  done other leader here := by grind [placed.done other leader]
  waiting other waits := by grind [placed.waiting other waits]
  leading other leads := by grind [placed.leading other leads]
  single := placed.single
  released leader other half := by grind [placed.done id backend request, placed.released leader other]
  locks := placed.locks

theorem finish (halfway_eq : ∀ other, halfway' other = if other = backend then none else halfway other) :
    Placement role halfway' place member groupLeader lock :=
  { placed with released := fun leader id half => by grind [placed.released leader id] }

/-- The leader returns when its list is empty. -/
theorem giveBack (releasing : role backend = .releasing) (whole : halfway backend = none)
    (empty : ∀ other, place other ≠ .done backend)
    (role_eq : ∀ other, role' other = if other = backend then .outside else role other) :
    Placement role' halfway place member groupLeader lock where
  forming id here := by grind [placed.forming id here]
  todo id leader here := by grind [placed.todo id leader here]
  done id leader here := by grind [placed.done id leader here]
  waiting id waits := by grind [placed.waiting id]
  leading id leads := by grind [placed.leading id]
  single id other := by grind [placed.single id other]
  released leader id half := by grind [placed.released leader id half]
  locks id := by grind [placed.locks id]

end

end Placement

open Lib

namespace GroupPc

def role : GroupPc → GroupRole
  | .idle | .repaying _ => .outside
  | .posting _ _ | .reading | .linking _ | .joining _ => .entering
  | .sleeping _ | .checking _ => .waiting
  | .locking => .heading
  | .draining | .detaching _ => .taking
  | .visiting _ _ | .ending _ _ | .removing _ _ _ _ | .following _ _ => .carrying
  | .waking _ | .unlinking _ _ | .resetting _ _ _ | .signalling _ _ => .releasing

/-- The member whose fields are reset in part. -/
def halfway : GroupPc → Option Nat
  | .resetting member _ (_ + 1) => some member
  | _ => none

/-- Where the walk under the lock began, and where it goes on. -/
def walk (next : Nat → Option Nat) : GroupPc → Option (Option Nat × Option Nat)
  | .visiting wake cur => some (wake, cur)
  | .ending wake member | .removing wake member _ _ => some (wake, some member)
  | .following wake member => some (wake, next member)
  | _ => none

/-- Afterwards: the member that was taken out but not let go yet, and where the walk goes on. -/
def rest : GroupPc → Option (Option Nat × Option Nat)
  | .waking cur => some (none, cur)
  | .unlinking member next | .resetting member next 0 => some (some member, next)
  | .resetting _ next (_ + 1) | .signalling _ next => some (none, next)
  | _ => none

end GroupPc

/-- The list of a leader under the lock, split where the walk stands. -/
def GroupWalk (next : Nat → Option Nat) (place : Nat → GroupPlace) (leader : Nat)
    (wake cur : Option Nat) : Prop :=
  ∃ front back, Listed next wake (front ++ back) ∧ Listed next cur back ∧ (front ++ back).Nodup ∧
    (∀ id, id ∈ front ↔ place id = .done leader) ∧ ∀ id, id ∈ back ↔ place id = .todo leader

def GroupRest (next : Nat → Option Nat) (place : Nat → GroupPlace) (leader : Nat)
    (held cur : Option Nat) : Prop :=
  ∃ slots, Listed next cur slots ∧ (held.toList ++ slots).Nodup ∧
    ∀ id, id ∈ held.toList ++ slots ↔ place id = .done leader

section Lists

variable {next next' : Nat → Option Nat} {place place' : Nat → GroupPlace} {leader id : Nat}
  {wake cur : Option Nat}

theorem GroupWalk.congr (walk : GroupWalk next place leader wake cur)
    (sameNext : ∀ id, place id = .todo leader ∨ place id = .done leader → next' id = next id)
    (sameTodo : ∀ id, place' id = .todo leader ↔ place id = .todo leader)
    (sameDone : ∀ id, place' id = .done leader ↔ place id = .done leader) :
    GroupWalk next' place' leader wake cur := by
  obtain ⟨front, back, whole, rest, nodup, isDone, isTodo⟩ := walk
  refine ⟨front, back, ?_, ?_, nodup, ?_, ?_⟩
  · refine whole.congr fun id inside => sameNext id ?_
    rcases List.mem_append.mp inside with inFront | inBack
    · exact Or.inr ((isDone id).mp inFront)
    · exact Or.inl ((isTodo id).mp inBack)
  · exact rest.congr fun id inside => sameNext id (Or.inl ((isTodo id).mp inside))
  · exact fun id => (isDone id).trans (sameDone id).symm
  · exact fun id => (isTodo id).trans (sameTodo id).symm

theorem GroupRest.congr {held : Option Nat} (rest : GroupRest next place leader held cur)
    (sameNext : ∀ id, place id = .done leader → some id ≠ held → next' id = next id)
    (sameDone : ∀ id, place' id = .done leader ↔ place id = .done leader) :
    GroupRest next' place' leader held cur := by
  obtain ⟨slots, listed, nodup, isDone⟩ := rest
  refine ⟨slots, ?_, nodup, ?_⟩
  · refine listed.congr fun id inside => sameNext id ((isDone id).mp (List.mem_append_right _ inside)) ?_
    rintro rfl
    exact (List.nodup_cons.mp nodup).1 inside
  · exact fun id => (isDone id).trans (sameDone id).symm

/-- The walk stands at a request that is not carried out yet. -/
theorem GroupWalk.cursor (walk : GroupWalk next place leader wake (some id)) : place id = .todo leader := by
  obtain ⟨front, back, -, rest, -, -, isTodo⟩ := walk
  obtain ⟨more, rfl, -⟩ := rest.cons_of_some
  exact (isTodo id).mp (by simp)

/-- The request where it stands is carried out. -/
theorem GroupWalk.carry (walk : GroupWalk next place leader wake (some id))
    (place_eq : ∀ other, place' other = if other = id then .done leader else place other) :
    GroupWalk next place' leader wake (next id) := by
  obtain ⟨front, back, whole, rest, nodup, isDone, isTodo⟩ := walk
  obtain ⟨more, rfl, tail⟩ := rest.cons_of_some
  refine ⟨front ++ [id], more, by simpa using whole, tail, by simpa using nodup, ?_, ?_⟩
  · intro other
    rw [place_eq, List.mem_append, List.mem_singleton]
    by_cases here : other = id
    · simp [here]
    · simp [here, isDone other]
  · intro other
    rw [place_eq]
    by_cases here : other = id
    · subst here
      simp only [if_pos, reduceCtorEq, iff_false]
      exact (List.nodup_cons.mp (List.nodup_append.mp nodup).2.1).1
    · simp [here, ← isTodo other]

/-- Nothing is left to carry out at the end of the walk. -/
theorem GroupWalk.finish (walk : GroupWalk next place leader wake none) :
    (∀ id, place id ≠ .todo leader) ∧ GroupRest next place leader none wake := by
  obtain ⟨front, back, whole, rest, nodup, isDone, isTodo⟩ := walk
  obtain rfl := rest.eq_nil_iff.mpr rfl
  rw [List.append_nil] at whole nodup
  exact ⟨fun id placed => List.not_mem_nil ((isTodo id).mpr placed), front, whole, nodup, isDone⟩

theorem GroupRest.take (rest : GroupRest next place leader none (some id)) :
    GroupRest next place leader (some id) (next id) := by
  obtain ⟨slots, listed, nodup, isDone⟩ := rest
  obtain ⟨more, rfl, tail⟩ := listed.cons_of_some
  exact ⟨more, tail, nodup, isDone⟩

theorem GroupRest.held (rest : GroupRest next place leader (some id) cur) : place id = .done leader := by
  obtain ⟨slots, -, -, isDone⟩ := rest
  exact (isDone id).mp (by simp)

theorem GroupRest.release (rest : GroupRest next place leader (some id) cur)
    (place_eq : ∀ other, place' other = if other = id then .away else place other) :
    GroupRest next place' leader none cur := by
  obtain ⟨slots, listed, nodup, isDone⟩ := rest
  refine ⟨slots, listed, (List.nodup_cons.mp nodup).2, ?_⟩
  intro other
  rw [place_eq]
  by_cases here : other = id
  · subst here
    simpa using (List.nodup_cons.mp nodup).1
  · simp [here, ← isDone other]

theorem GroupRest.finish (rest : GroupRest next place leader none none) (id : Nat) :
    place id ≠ .done leader := by
  obtain ⟨slots, listed, -, isDone⟩ := rest
  obtain rfl := listed.eq_nil_iff.mpr rfl
  exact fun placed => List.not_mem_nil ((isDone id).mpr placed)

end Lists

structure GroupLists (pc : Nat → GroupPc) (next : Nat → Option Nat) (first : Option Nat)
    (place : Nat → GroupPlace) : Prop where
  forming : ∃ slots, Listed next first slots ∧ slots.Nodup ∧ ∀ id, id ∈ slots ↔ place id = .forming
  walk : ∀ leader wake cur, (pc leader).walk next = some (wake, cur) → GroupWalk next place leader wake cur
  rest : ∀ leader held cur, (pc leader).rest = some (held, cur) → GroupRest next place leader held cur
  following : ∀ leader wake id, pc leader = .following wake id → place id = .done leader
  linked : ∀ id seen, pc id = .joining seen → next id = seen

namespace GroupLists

variable {pc pc' : Nat → GroupPc} {next next' : Nat → Option Nat} {first first' : Option Nat}
  {place place' : Nat → GroupPlace} {backend : Nat}

/-- A step of one backend leaves the lists of the others alone. -/
theorem frame (lists : GroupLists pc next first place)
    (samePc : ∀ other, other ≠ backend → pc' other = pc other)
    (sameNext : ∀ other id, other ≠ backend → place id = .todo other ∨ place id = .done other →
      next' id = next id)
    (sameTodo : ∀ other id, other ≠ backend → (place' id = .todo other ↔ place id = .todo other))
    (sameDone : ∀ other id, other ≠ backend → (place' id = .done other ↔ place id = .done other))
    (sameLink : ∀ id seen, id ≠ backend → pc id = .joining seen → next' id = next id)
    (forming : ∃ slots, Listed next' first' slots ∧ slots.Nodup ∧ ∀ id, id ∈ slots ↔ place' id = .forming)
    (walk : ∀ wake cur, (pc' backend).walk next' = some (wake, cur) → GroupWalk next' place' backend wake cur)
    (rest : ∀ held cur, (pc' backend).rest = some (held, cur) → GroupRest next' place' backend held cur)
    (following : ∀ wake id, pc' backend = .following wake id → place' id = .done backend)
    (linked : ∀ seen, pc' backend = .joining seen → next' backend = seen) :
    GroupLists pc' next' first' place' := by
  refine ⟨forming, ?_, ?_, ?_, ?_⟩
  · intro leader wake cur walks
    by_cases here : leader = backend
    · subst here
      exact walk wake cur walks
    · rw [samePc leader here] at walks
      have before : (pc leader).walk next = some (wake, cur) := by
        rw [← walks]
        cases stands : pc leader with
        | following wake id =>
          simp only [GroupPc.walk]
          rw [sameNext leader id here (Or.inr (lists.following leader wake id stands))]
        | _ => rfl
      exact (lists.walk leader wake cur before).congr (fun id => sameNext leader id here)
        (fun id => sameTodo leader id here) (fun id => sameDone leader id here)
  · intro leader held cur rests
    by_cases here : leader = backend
    · subst here
      exact rest held cur rests
    · rw [samePc leader here] at rests
      exact (lists.rest leader held cur rests).congr
        (fun id placed _ => sameNext leader id here (Or.inr placed))
        (fun id => sameDone leader id here)
  · intro leader wake id stands
    by_cases here : leader = backend
    · subst here
      exact following wake id stands
    · rw [samePc leader here] at stands
      exact (sameDone leader id here).mpr (lists.following leader wake id stands)
  · intro id seen stands
    by_cases here : id = backend
    · subst here
      exact linked seen stands
    · rw [samePc id here] at stands
      rw [sameLink id seen here stands]
      exact lists.linked id seen stands

theorem move (lists : GroupLists pc next first place)
    (samePc : ∀ other, other ≠ backend → pc' other = pc other)
    (walk : ∀ wake cur, (pc' backend).walk next = some (wake, cur) → GroupWalk next place backend wake cur)
    (rest : ∀ held cur, (pc' backend).rest = some (held, cur) → GroupRest next place backend held cur)
    (following : ∀ wake id, pc' backend = .following wake id → place id = .done backend)
    (linked : ∀ seen, pc' backend = .joining seen → next backend = seen) :
    GroupLists pc' next first place :=
  lists.frame samePc (fun _ _ _ _ => rfl) (fun _ _ _ => Iff.rfl) (fun _ _ _ => Iff.rfl) (fun _ _ _ _ => rfl)
    lists.forming walk rest following linked

end GroupLists

end OpenGauss.ProcArray
