import OpenGauss.Cfs.PcaSystem

/-! Who answers for a control block: a list, or the one thread that has it in hand. -/

namespace OpenGauss.Cfs

/-- What a thread has: the lock of a main list, a control block, or neither. -/
inductive PcaRole where
  | outside
  | scanning (part curr : Nat)
  | evicting (part item : Nat)
  | holding (item : Nat)
  | pushing (item : Nat)
  deriving DecidableEq, Repr

namespace PcaRole

/-- The control block that only this thread has. -/
def inHand : PcaRole → Option Nat
  | .holding item | .pushing item => some item
  | _ => none

/-- The main list whose lock the thread has. -/
def locked : PcaRole → Option Nat
  | .scanning part _ | .evicting part _ => some part
  | _ => none

@[grind =] theorem inHand_eq_some {role : PcaRole} {item : Nat} :
    role.inHand = some item ↔ role = .holding item ∨ role = .pushing item := by
  cases role <;> simp [inHand]

@[grind =] theorem locked_eq_some {role : PcaRole} {part : Nat} :
    role.locked = some part ↔ ∃ item, role = .scanning part item ∨ role = .evicting part item := by
  cases role <;> simp [locked, eq_comm]

end PcaRole

/-- Every control block answers to a list or to one thread, and every main list lock to one thread. -/
structure Ownership (real : Nat → Prop) (state : Nat → CtrlState) (chained : Nat → Prop)
    (role : Nat → PcaRole) (lock : Nat → Option Nat) : Prop where
  holding : ∀ thread id, role thread = .holding id → real id ∧ state id = .isolation ∧ ¬ chained id
  pushing : ∀ thread id, role thread = .pushing id → real id ∧ state id = .isolation ∧ chained id
  single : ∀ thread other id, (role thread).inHand = some id → (role other).inHand = some id → thread = other
  isolated : ∀ id, real id → state id = .isolation → ∃ thread, (role thread).inHand = some id
  free : ∀ id, real id → state id = .free → ¬ chained id
  main : ∀ id, real id → state id = .main → chained id ∨ ∃ thread part, role thread = .evicting part id
  evicting : ∀ thread part id, role thread = .evicting part id →
    real id ∧ state id = .main ∧ ¬ chained id ∧ id % pcaPartListNum = part
  scanning : ∀ thread part id, role thread = .scanning part id → id ≠ 0 →
    real id ∧ state id = .main ∧ id % pcaPartListNum = part
  locks : ∀ part thread, lock part = some thread ↔ (role thread).locked = some part

namespace Ownership

variable {real : Nat → Prop} {state state' : Nat → CtrlState} {chained chained' : Nat → Prop}
  {role role' : Nat → PcaRole} {lock lock' : Nat → Option Nat} {thread id part curr : Nat}

section

variable (owned : Ownership real state chained role lock)
include owned

theorem apart {other item : Nat}
    (hand : (role thread).inHand = some id) (has : (role other).inHand = some item)
    (others : other ≠ thread) : item ≠ id :=
  fun same => others (owned.single other thread id (same ▸ has) hand)

theorem inHand_isolation (hand : (role thread).inHand = some id) : state id = .isolation := by
  rcases PcaRole.inHand_eq_some.mp hand with has | has
  · exact (owned.holding thread id has).2.1
  · exact (owned.pushing thread id has).2.1

theorem take (valid : real id) (isFree : state id = .free)
    (outside : role thread = .outside)
    (state_eq : ∀ other, state' other = if other = id then .isolation else state other)
    (role_eq : ∀ other, role' other = if other = thread then .holding id else role other) :
    Ownership real state' chained role' lock where
  holding other item has := by grind [owned.holding other item, owned.free id valid isFree]
  pushing other item has := by grind [owned.pushing other item]
  single first second item := by
    grind [owned.single first second item, owned.holding first item, owned.holding second item,
      owned.pushing first item, owned.pushing second item]
  isolated item valid alone := by
    by_cases same : item = id
    · exact ⟨thread, by rw [role_eq, if_pos rfl, same]; rfl⟩
    · rw [state_eq, if_neg same] at alone
      obtain ⟨other, has⟩ := owned.isolated item valid alone
      exact ⟨other, by grind⟩
  free item valid isFree := by grind [owned.free item valid]
  main item valid inMain := by grind [owned.main item valid]
  evicting other part item has := by grind [owned.evicting other part item]
  scanning other part item has some := by grind [owned.scanning other part item]
  locks part other := by grind [owned.locks part other]

/-- A thread that has no control block goes on to another candidate, another list or none. -/
theorem relock {before after : PcaRole}
    (here : role thread = before) (idle : before = .outside ∨ ∃ part curr, before = .scanning part curr)
    (safe : after = .outside ∨ ∃ part curr, after = .scanning part curr ∧
      (curr ≠ 0 → real curr ∧ state curr = .main ∧ curr % pcaPartListNum = part))
    (role_eq : ∀ other, role' other = if other = thread then after else role other)
    (locks : ∀ list other, lock' list = some other ↔ (role' other).locked = some list) :
    Ownership real state chained role' lock' where
  holding other item has := by grind [owned.holding other item]
  pushing other item has := by grind [owned.pushing other item]
  single first second item := by grind [owned.single first second item]
  isolated item valid alone := by grind [owned.isolated item valid alone]
  free := owned.free
  main item valid inMain := by grind [owned.main item valid inMain]
  evicting other part item has := by grind [owned.evicting other part item]
  scanning other part item has some := by grind [owned.scanning other part item]
  locks := locks

theorem acquire (outside : role thread = .outside) (unlocked : lock part = none)
    (next : curr ≠ 0 → real curr ∧ state curr = .main ∧ curr % pcaPartListNum = part)
    (role_eq : ∀ other, role' other = if other = thread then .scanning part curr else role other)
    (lock_eq : ∀ other, lock' other = if other = part then some thread else lock other) :
    Ownership real state chained role' lock' := by
  refine owned.relock outside (Or.inl rfl) (Or.inr ⟨part, curr, rfl, next⟩) role_eq fun list other => ?_
  grind [owned.locks list other]

theorem advance {after : Nat}
    (scan : role thread = .scanning part curr)
    (next : after ≠ 0 → real after ∧ state after = .main ∧ after % pcaPartListNum = part)
    (role_eq : ∀ other, role' other = if other = thread then .scanning part after else role other) :
    Ownership real state chained role' lock := by
  refine owned.relock scan (Or.inr ⟨part, curr, rfl⟩) (Or.inr ⟨part, after, rfl, next⟩) role_eq
    fun list other => ?_
  grind [owned.locks list other]

theorem locked_alone {other : Nat}
    (owner : (role thread).locked = some part) (holds : (role other).locked = some part) :
    other = thread := by
  have first := (owned.locks part thread).mpr owner
  have second := (owned.locks part other).mpr holds
  rw [first] at second
  simpa using second.symm

theorem release (scan : role thread = .scanning part curr)
    (role_eq : ∀ other, role' other = if other = thread then .outside else role other)
    (lock_eq : ∀ other, lock' other = if other = part then none else lock other) :
    Ownership real state chained role' lock' := by
  refine owned.relock scan (Or.inr ⟨part, curr, rfl⟩) (Or.inl rfl) role_eq fun list other => ?_
  have alone := @owned.locked_alone _ _ _ _ _ thread list other
  grind [owned.locks list other]

theorem unchain (scan : role thread = .scanning part id) (nonzero : id ≠ 0)
    (role_eq : ∀ other, role' other = if other = thread then .evicting part id else role other)
    (chained_eq : ∀ other, chained' other ↔ other ≠ id ∧ chained other) :
    Ownership real state chained' role' lock where
  holding other item has := by grind [owned.holding other item]
  pushing other item has := by grind [owned.pushing other item, owned.scanning thread part id scan nonzero]
  single first second item := by grind [owned.single first second item]
  isolated item valid alone := by grind [owned.isolated item valid alone]
  free item valid isFree := by grind [owned.free item valid isFree]
  main item valid inMain := by grind [owned.main item valid inMain]
  evicting other list item has := by
    grind [owned.evicting other list item, owned.scanning thread part id scan nonzero]
  scanning other list item has nonzero := by grind [owned.scanning other list item]
  locks list other := by grind [owned.locks list other]

theorem evict (victim : role thread = .evicting part id)
    (role_eq : ∀ other, role' other = if other = thread then .holding id else role other)
    (state_eq : ∀ other, state' other = if other = id then .isolation else state other)
    (lock_eq : ∀ other, lock' other = if other = part then none else lock other) :
    Ownership real state' chained role' lock' where
  holding other item has := by grind [owned.holding other item, owned.evicting thread part id victim]
  pushing other item has := by grind [owned.pushing other item]
  single first second item := by
    grind [owned.single first second item, owned.holding first item, owned.holding second item,
      owned.pushing first item, owned.pushing second item, owned.evicting thread part id victim]
  isolated item valid alone := by
    by_cases same : item = id
    · exact ⟨thread, by rw [role_eq, if_pos rfl, same]; rfl⟩
    · rw [state_eq, if_neg same] at alone
      obtain ⟨other, has⟩ := owned.isolated item valid alone
      exact ⟨other, by grind⟩
  free item valid isFree := by grind [owned.free item valid]
  main item valid inMain := by grind [owned.main item valid]
  evicting other list item has := by
    have alone := @owned.locked_alone _ _ _ _ _ thread list other
    grind [owned.evicting other list item, owned.evicting thread part id victim]
  scanning other list item has some := by
    have alone := @owned.locked_alone _ _ _ _ _ thread list other
    grind [owned.scanning other list item, owned.evicting thread part id victim]
  locks list other := by
    have alone := @owned.locked_alone _ _ _ _ _ thread list other
    grind [owned.locks list other]

theorem chain (hand : role thread = .holding id)
    (role_eq : ∀ other, role' other = if other = thread then .pushing id else role other)
    (chained_eq : ∀ other, chained' other ↔ other = id ∨ chained other) :
    Ownership real state chained' role' lock where
  holding other item has := by
    have others : other ≠ thread := by grind
    rw [role_eq, if_neg others] at has
    have different := owned.apart (by rw [hand]; rfl) (by rw [has]; rfl) others
    grind [owned.holding other item has]
  pushing other item has := by grind [owned.pushing other item, owned.holding thread id hand]
  single first second item inFirst inSecond := by
    have same : ∀ other, (role' other).inHand = (role other).inHand := by
      intro other
      rw [role_eq]
      split_ifs with here
      · rw [here, hand]
        rfl
      · rfl
    rw [same] at inFirst inSecond
    exact owned.single first second item inFirst inSecond
  isolated item valid alone := by grind [owned.isolated item valid alone]
  free item valid isFree := by grind [owned.free item valid isFree, owned.holding thread id hand]
  main item valid inMain := by grind [owned.main item valid inMain]
  evicting other part item has := by
    grind [owned.evicting other part item, owned.holding thread id hand]
  scanning other part item has some := by grind [owned.scanning other part item]
  locks list other := by grind [owned.locks list other]

/-- A control block in hand goes to a list: a main list when it is in a bucket, else a free list. -/
theorem putBack (kind : CtrlState) (hand : (role thread).inHand = some id)
    (free : kind = .free → ¬ chained id) (main : kind = .main → chained id) (list : kind ≠ .isolation)
    (state_eq : ∀ other, state' other = if other = id then kind else state other)
    (role_eq : ∀ other, role' other = if other = thread then .outside else role other) :
    Ownership real state' chained role' lock where
  holding other item has := by
    have others : other ≠ thread := by grind
    rw [role_eq, if_neg others] at has
    have different := owned.apart hand (by rw [has]; rfl) others
    grind [owned.holding other item has]
  pushing other item has := by
    have others : other ≠ thread := by grind
    rw [role_eq, if_neg others] at has
    have different := owned.apart hand (by rw [has]; rfl) others
    grind [owned.pushing other item has]
  single first second item := by grind [owned.single first second item]
  isolated item valid alone := by
    have different : item ≠ id := by grind
    rw [state_eq, if_neg different] at alone
    obtain ⟨other, has⟩ := owned.isolated item valid alone
    have others : other ≠ thread := by
      rintro rfl
      rw [hand] at has
      exact different (Option.some.inj has).symm
    exact ⟨other, by rw [role_eq, if_neg others]; exact has⟩
  free item valid isFree := by grind [owned.free item valid]
  main item valid inMain := by grind [owned.main item valid]
  evicting other part item has := by
    grind [owned.evicting other part item, owned.inHand_isolation hand]
  scanning other part item has some := by
    grind [owned.scanning other part item, owned.inHand_isolation hand]
  locks list other := by grind [owned.locks list other]

theorem pushMain (hand : role thread = .pushing id)
    (state_eq : ∀ other, state' other = if other = id then .main else state other)
    (role_eq : ∀ other, role' other = if other = thread then .outside else role other) :
    Ownership real state' chained role' lock :=
  owned.putBack .main (by rw [hand]; rfl) nofun (fun _ => (owned.pushing thread id hand).2.2)
    nofun state_eq role_eq

theorem pushFree (hand : role thread = .holding id)
    (state_eq : ∀ other, state' other = if other = id then .free else state other)
    (role_eq : ∀ other, role' other = if other = thread then .outside else role other) :
    Ownership real state' chained role' lock :=
  owned.putBack .free (by rw [hand]; rfl)
    (fun _ => (owned.holding thread id hand).2.2) nofun nofun state_eq role_eq

end

end Ownership

open PcaPageBuffCtx

/-- What a thread has at a point of `pca_buf_read_page`. -/
def ReadPc.role : ReadPc → PcaRole
  | .scanning key _ i curr _ => .scanning (PcaSystem.partOf key i) curr
  | .evicting key _ i item => .evicting (PcaSystem.partOf key i) item
  | .holding _ _ item | .sparing _ item => .holding item
  | .pushing _ item => .pushing item
  | _ => .outside

namespace PcaSystem

variable {system : PcaSystem} {hash : CfsBufferKey → Nat} {ctx : PcaPageBuffCtx} {thread id : Nat}

/-- A control block is in a bucket when its bucket number is set. -/
abbrev Owned (system : PcaSystem) : Prop :=
  Ownership system.ctx.IsCtrl (fun id => (system.ctx.ctrl id).state)
    (fun id => (system.ctx.ctrl id).bckId ≠ 0) (fun thread => (system.pc thread).role) system.mainLock

/-- What the control blocks in the buckets hold, and who uses them. -/
structure Keyed (hash : CfsBufferKey → Nat) (ctx : PcaPageBuffCtx) (uses : List PcaUse) : Prop where
  home : ∀ id, ctx.IsCtrl id → (ctx.ctrl id).bckId ≠ 0 →
    (ctx.ctrl id).bckId = ctx.bucketOf hash (ctx.ctrl id).pcaKey
  blank : ∀ id, ctx.IsCtrl id → (ctx.ctrl id).bckId = 0 → (ctx.ctrl id).pcaKey = {}
  distinct : ∀ first second, ctx.IsCtrl first → ctx.IsCtrl second → (ctx.ctrl first).bckId ≠ 0 →
    (ctx.ctrl second).bckId ≠ 0 → (ctx.ctrl first).pcaKey = (ctx.ctrl second).pcaKey → first = second
  used : ∀ use ∈ uses, ctx.IsCtrl use.ctrl ∧ (ctx.ctrl use.ctrl).bckId ≠ 0 ∧
    (ctx.ctrl use.ctrl).pcaKey = use.key
  counted : ∀ id, ctx.IsCtrl id → (ctx.ctrl id).refNum = uses.countP (fun use => use.ctrl = id)

structure Invariant (hash : CfsBufferKey → Nat) (system : PcaSystem) : Prop where
  held : system.ctx.Held
  owned : system.Owned
  keyed : Keyed hash system.ctx system.uses

theorem setPc_role (system : PcaSystem) (thread other : Nat) (pc : ReadPc) :
    ((system.setPc thread pc).pc other).role =
      if other = thread then pc.role else (system.pc other).role := by
  simp only [setPc, Function.update_apply]
  split_ifs <;> rfl

section

variable {after : PcaPageBuffCtx} {uses : List PcaUse}

variable (keyed : Keyed hash ctx uses)
include keyed

/-- The buckets and keys stay; who uses the control blocks may change. -/
theorem Keyed.recount {later : List PcaUse}
    (sameMax : after.maxCount = ctx.maxCount)
    (same : ∀ id, (after.ctrl id).bckId = (ctx.ctrl id).bckId ∧ (after.ctrl id).pcaKey = (ctx.ctrl id).pcaKey)
    (used : ∀ use ∈ later, ctx.IsCtrl use.ctrl ∧ (ctx.ctrl use.ctrl).bckId ≠ 0 ∧
      (ctx.ctrl use.ctrl).pcaKey = use.key)
    (counted : ∀ id, ctx.IsCtrl id → (after.ctrl id).refNum = later.countP (fun use => use.ctrl = id)) :
    Keyed hash after later := by
  have real : ∀ id, after.IsCtrl id ↔ ctx.IsCtrl id := fun id => by rw [IsCtrl, IsCtrl, sameMax]
  have buckets : ∀ key, after.bucketOf hash key = ctx.bucketOf hash key := fun key => by
    rw [bucketOf, bucketOf, sameMax]
  constructor
  · intro id
    rw [real, (same id).1, (same id).2, buckets]
    exact keyed.home id
  · intro id
    rw [real, (same id).1, (same id).2]
    exact keyed.blank id
  · intro first second
    rw [real, real, (same first).1, (same second).1, (same first).2, (same second).2]
    exact keyed.distinct first second
  · intro use member
    rw [real, (same _).1, (same _).2]
    exact used use member
  · intro id valid
    exact counted id ((real id).mp valid)

theorem Keyed.congr (sameMax : after.maxCount = ctx.maxCount)
    (same : ∀ id, (after.ctrl id).bckId = (ctx.ctrl id).bckId ∧
      (after.ctrl id).pcaKey = (ctx.ctrl id).pcaKey ∧ (after.ctrl id).refNum = (ctx.ctrl id).refNum) :
    Keyed hash after uses :=
  keyed.recount sameMax (fun id => ⟨(same id).1, (same id).2.1⟩) keyed.used
    fun id valid => (same id).2.2.trans (keyed.counted id valid)

/-- Leaving the bucket: the key goes, and nobody may be using it. -/
theorem Keyed.unchain (sameMax : after.maxCount = ctx.maxCount) (valid : ctx.IsCtrl id)
    (unused : (ctx.ctrl id).refNum = 0)
    (self : (after.ctrl id).bckId = 0 ∧ (after.ctrl id).pcaKey = {} ∧ (after.ctrl id).refNum = 0)
    (others : ∀ other, other ≠ id → (after.ctrl other).bckId = (ctx.ctrl other).bckId ∧
      (after.ctrl other).pcaKey = (ctx.ctrl other).pcaKey ∧
      (after.ctrl other).refNum = (ctx.ctrl other).refNum) :
    Keyed hash after uses := by
  have real : ∀ id, after.IsCtrl id ↔ ctx.IsCtrl id := fun id => by rw [IsCtrl, IsCtrl, sameMax]
  have buckets : ∀ key, after.bucketOf hash key = ctx.bucketOf hash key := fun key => by
    rw [bucketOf, bucketOf, sameMax]
  obtain ⟨home, blank, distinct, used, counted⟩ := keyed
  have apart : ∀ use ∈ uses, use.ctrl ≠ id := by
    intro use member same
    have absent := counted id valid
    rw [unused, eq_comm, List.countP_eq_zero] at absent
    exact absent use member (by simpa using same)
  constructor
  · intro other
    rw [real, buckets]
    by_cases here : other = id
    · subst here
      exact fun _ linked => absurd self.1 linked
    · rw [(others other here).1, (others other here).2.1]
      exact home other
  · intro other
    rw [real]
    by_cases here : other = id
    · subst here
      exact fun _ _ => self.2.1
    · rw [(others other here).1, (others other here).2.1]
      exact blank other
  · intro first second
    rw [real, real]
    by_cases firstHere : first = id
    · subst firstHere
      exact fun _ _ linked => absurd self.1 linked
    · by_cases secondHere : second = id
      · subst secondHere
        exact fun _ _ _ linked => absurd self.1 linked
      · rw [(others first firstHere).1, (others second secondHere).1, (others first firstHere).2.1,
          (others second secondHere).2.1]
        exact distinct first second
  · intro use member
    rw [real, (others _ (apart use member)).1, (others _ (apart use member)).2.1]
    exact used use member
  · intro other
    rw [real]
    by_cases here : other = id
    · subst here
      rw [self.2.2, ← unused]
      exact counted other
    · rw [(others other here).2.2]
      exact counted other

/-- Entering the bucket of a key that no control block has, with one user. -/
theorem Keyed.chain {key : CfsBufferKey}
    (sameMax : after.maxCount = ctx.maxCount) (valid : ctx.IsCtrl id)
    (unlinked : (ctx.ctrl id).bckId = 0) (real : ctx.bucketOf hash key ≠ 0)
    (fresh : ∀ other, ctx.IsCtrl other → (ctx.ctrl other).bckId ≠ 0 → (ctx.ctrl other).pcaKey ≠ key)
    (self : (after.ctrl id).bckId = ctx.bucketOf hash key ∧ (after.ctrl id).pcaKey = key ∧
      (after.ctrl id).refNum = 1)
    (others : ∀ other, other ≠ id → (after.ctrl other).bckId = (ctx.ctrl other).bckId ∧
      (after.ctrl other).pcaKey = (ctx.ctrl other).pcaKey ∧
      (after.ctrl other).refNum = (ctx.ctrl other).refNum) :
    Keyed hash after ({ thread, ctrl := id, key } :: uses) := by
  have reals : ∀ id, after.IsCtrl id ↔ ctx.IsCtrl id := fun id => by rw [IsCtrl, IsCtrl, sameMax]
  have buckets : ∀ key, after.bucketOf hash key = ctx.bucketOf hash key := fun key => by
    rw [bucketOf, bucketOf, sameMax]
  obtain ⟨home, blank, distinct, used, counted⟩ := keyed
  have apart : ∀ use ∈ uses, use.ctrl ≠ id := fun use member same =>
    (used use member).2.1 (same ▸ unlinked)
  constructor
  · intro other
    rw [reals, buckets]
    by_cases here : other = id
    · subst here
      rw [self.1, self.2.1]
      exact fun _ _ => rfl
    · rw [(others other here).1, (others other here).2.1]
      exact home other
  · intro other
    rw [reals]
    by_cases here : other = id
    · subst here
      rw [self.1]
      exact fun _ zero => absurd zero real
    · rw [(others other here).1, (others other here).2.1]
      exact blank other
  · intro first second
    rw [reals, reals]
    by_cases firstHere : first = id <;> by_cases secondHere : second = id
    · exact fun _ _ _ _ _ => firstHere.trans secondHere.symm
    · subst firstHere
      rw [(others second secondHere).1, self.2.1, (others second secondHere).2.1]
      exact fun _ inside _ linked same => absurd same.symm (fresh second inside linked)
    · subst secondHere
      rw [(others first firstHere).1, self.2.1, (others first firstHere).2.1]
      exact fun inside _ linked _ same => absurd same (fresh first inside linked)
    · rw [(others first firstHere).1, (others second secondHere).1, (others first firstHere).2.1,
        (others second secondHere).2.1]
      exact distinct first second
  · intro use member
    rcases List.mem_cons.mp member with rfl | old
    · exact ⟨(reals id).mpr valid, by rw [self.1]; exact real, self.2.1⟩
    · rw [reals, (others _ (apart use old)).1, (others _ (apart use old)).2.1]
      exact used use old
  · intro other
    rw [reals, List.countP_cons]
    by_cases here : other = id
    · subst here
      have absent : uses.countP (fun use => use.ctrl = other) = 0 := by
        rw [List.countP_eq_zero]
        exact fun use member => by simpa using apart use member
      simp [self.2.2, absent]
    · rw [(others other here).2.2]
      simpa [Ne.symm here] using counted other

theorem Keyed.use {key : CfsBufferKey}
    (sameMax : after.maxCount = ctx.maxCount) (valid : ctx.IsCtrl id)
    (linked : (ctx.ctrl id).bckId ≠ 0) (has : (ctx.ctrl id).pcaKey = key)
    (same : ∀ other, (after.ctrl other).bckId = (ctx.ctrl other).bckId ∧
      (after.ctrl other).pcaKey = (ctx.ctrl other).pcaKey ∧
      (after.ctrl other).refNum = (ctx.ctrl other).refNum + if other = id then 1 else 0) :
    Keyed hash after ({ thread, ctrl := id, key } :: uses) := by
  refine keyed.recount sameMax (fun other => ⟨(same other).1, (same other).2.1⟩) ?_ ?_
  · intro use member
    rcases List.mem_cons.mp member with rfl | old
    · exact ⟨valid, linked, has⟩
    · exact keyed.used use old
  · intro other inside
    rw [(same other).2.2, List.countP_cons, keyed.counted other inside]
    by_cases here : other = id
    · simp [here]
    · simp [here, Ne.symm here]

theorem Keyed.unuse {use : PcaUse}
    (sameMax : after.maxCount = ctx.maxCount) (member : use ∈ uses)
    (same : ∀ other, (after.ctrl other).bckId = (ctx.ctrl other).bckId ∧
      (after.ctrl other).pcaKey = (ctx.ctrl other).pcaKey ∧
      (after.ctrl other).refNum = (ctx.ctrl other).refNum - if other = use.ctrl then 1 else 0) :
    Keyed hash after (uses.erase use) := by
  refine keyed.recount sameMax (fun other => ⟨(same other).1, (same other).2.1⟩)
    (fun other kept => keyed.used other (List.mem_of_mem_erase kept)) ?_
  intro other inside
  have split := (List.perm_cons_erase member).countP_eq (fun use => decide (use.ctrl = other))
  rw [(same other).2.2, keyed.counted other inside, split, List.countP_cons]
  by_cases here : other = use.ctrl
  · simp [here]
  · simp [here, Ne.symm here]

end

end PcaSystem

end OpenGauss.Cfs
