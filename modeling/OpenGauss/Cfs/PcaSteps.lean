import OpenGauss.Cfs.PcaInvariant

namespace OpenGauss.Cfs

open PcaPageBuffCtx

namespace PcaSystem

variable {system : PcaSystem} {hash : CfsBufferKey → Nat} {ctx : PcaPageBuffCtx}
  {thread id item i curr turn touch : Nat} {key : CfsBufferKey} {mode : PcaBufferReadMode}
  {loaded busy : Bool} {pc : ReadPc}

theorem bucketOf_ne_zero : ctx.bucketOf hash key ≠ 0 := Nat.succ_ne_zero _

/-- The ownership rules, read on the state of the system. -/
theorem Owned.of {after : PcaSystem} {state : Nat → CtrlState} {chained : Nat → Prop}
    {role : Nat → PcaRole} {lock : Nat → Option Nat} (owned : Ownership ctx.IsCtrl state chained role lock)
    (sameMax : after.ctx.maxCount = ctx.maxCount)
    (states : ∀ id, (after.ctx.ctrl id).state = state id)
    (buckets : ∀ id, (after.ctx.ctrl id).bckId ≠ 0 ↔ chained id)
    (roles : ∀ thread, (after.pc thread).role = role thread)
    (locks : ∀ part, after.mainLock part = lock part) : after.Owned := by
  have real : after.ctx.IsCtrl = ctx.IsCtrl := by
    funext id
    rw [IsCtrl, IsCtrl, sameMax]
  have sameLock : after.mainLock = lock := funext locks
  unfold Owned
  simp only [real, states, buckets, roles, sameLock]
  exact owned

theorem Invariant.move (invariant : system.Invariant hash) (same : pc.role = (system.pc thread).role) :
    (system.setPc thread pc).Invariant hash where
  held := invariant.held
  owned := by
    refine Owned.of invariant.owned rfl (fun _ => rfl) (fun _ => Iff.rfl) ?_ fun _ => rfl
    intro other
    rw [setPc_role]
    split_ifs with self
    · rw [self, same]
    · rfl
  keyed := invariant.keyed

theorem useFound_ctrl (has : (ctx.ctrl id).pcaKey = key) (other : Nat) :
    SameLinks ((ctx.useFound id key mode loaded touch).ctrl other) (ctx.ctrl other) ∧
      ((ctx.useFound id key mode loaded touch).ctrl other).pcaKey = (ctx.ctrl other).pcaKey ∧
      ((ctx.useFound id key mode loaded touch).ctrl other).refNum =
        (ctx.ctrl other).refNum + if other = id then 1 else 0 := by
  by_cases loading : (ctx.ctrl id).loadStatus ≠ .loaded ∧ mode = .normalRead <;>
    by_cases self : other = id <;>
    simp [useFound, loading, loadPage, setCtrl_ctrl, SameLinks, self, has]

theorem useFound_shape : (ctx.useFound id key mode loaded touch).lru = ctx.lru ∧
      (ctx.useFound id key mode loaded touch).bucket = ctx.bucket ∧
      (ctx.useFound id key mode loaded touch).maxCount = ctx.maxCount := by
  by_cases loading : (ctx.ctrl id).loadStatus ≠ .loaded ∧ mode = .normalRead <;>
    simp [useFound, loading, loadPage]

/-- A use of a control block found in its bucket. -/
theorem Invariant.useFound (invariant : system.Invariant hash)
    (hit : system.ctx.findFromBucket (system.ctx.bucketOf hash key) key = some id) :
    (system.use (system.ctx.useFound id key mode loaded touch) thread id key).Invariant hash := by
  obtain ⟨valid, home, real, has⟩ := invariant.held.found hit
  have same := fun other => @useFound_ctrl _ _ touch _ mode loaded has other
  obtain ⟨sameLru, sameBucket, sameMax⟩ := @useFound_shape system.ctx id touch key mode loaded
  refine ⟨?_, ?_, ?_⟩
  · exact invariant.held.congr sameLru sameBucket sameMax fun other => (same other).1
  · exact Owned.of invariant.owned sameMax (fun other => (same other).1.1)
      (fun other => iff_of_eq (congrArg (· ≠ 0) (same other).1.2.2.2.2.2)) (fun _ => rfl) fun _ => rfl
  · exact invariant.keyed.use sameMax valid (home ▸ real) has fun other =>
      ⟨(same other).1.2.2.2.2.2, (same other).2⟩

theorem Invariant.freePage (invariant : system.Invariant hash) {needWrite written : Bool}
    (member : { thread, ctrl := id, key } ∈ system.uses) :
    Invariant hash { system with
      ctx := system.ctx.freePage id needWrite written
      uses := system.uses.erase { thread, ctrl := id, key } } := by
  have same : ∀ other, SameLinks ((system.ctx.freePage id needWrite written).ctrl other)
        (system.ctx.ctrl other) ∧
      ((system.ctx.freePage id needWrite written).ctrl other).pcaKey = (system.ctx.ctrl other).pcaKey ∧
      ((system.ctx.freePage id needWrite written).ctrl other).refNum =
        (system.ctx.ctrl other).refNum - if other = id then 1 else 0 := by
    intro other
    by_cases self : other = id <;> simp [PcaPageBuffCtx.freePage, setCtrl_ctrl, SameLinks, self]
  refine ⟨?_, ?_, ?_⟩
  · exact invariant.held.congr rfl rfl rfl fun other => (same other).1
  · exact Owned.of invariant.owned rfl (fun other => (same other).1.1)
      (fun other => iff_of_eq (congrArg (· ≠ 0) (same other).1.2.2.2.2.2)) (fun _ => rfl) fun _ => rfl
  · exact invariant.keyed.unuse rfl member fun other => ⟨(same other).1.2.2.2.2.2, (same other).2⟩

theorem Invariant.readPage (invariant : system.Invariant hash) (idle : system.pc thread = .idle) :
    (readPage hash system thread key mode loaded).Invariant hash := by
  unfold PcaSystem.readPage
  dsimp only
  cases hit : system.ctx.findFromBucket (system.ctx.bucketOf hash key) key with
  | none => exact invariant.move (by rw [idle]; rfl)
  | some id => exact invariant.useFound hit

theorem setTouch_held (held : ctx.Held) (id touch : Nat) :
    (ctx.setCtrl id fun item => { item with touchNr := touch }).Held :=
  held.setCtrl id fun _ => ⟨rfl, rfl, rfl, rfl, rfl, rfl⟩

theorem setCtrl_touch (ctx : PcaPageBuffCtx) (id other touch : Nat) :
    ((ctx.setCtrl id fun item => { item with touchNr := touch }).ctrl other).state = (ctx.ctrl other).state ∧
      ((ctx.setCtrl id fun item => { item with touchNr := touch }).ctrl other).bckId = (ctx.ctrl other).bckId ∧
      ((ctx.setCtrl id fun item => { item with touchNr := touch }).ctrl other).pcaKey =
      (ctx.ctrl other).pcaKey ∧
      ((ctx.setCtrl id fun item => { item with touchNr := touch }).ctrl other).refNum =
        (ctx.ctrl other).refNum := by
  by_cases self : other = id <;> simp [setCtrl_ctrl, self]

theorem setLock_lock (system : PcaSystem) (part other : Nat) (owner : Option Nat) :
    (system.setLock part owner).mainLock other = if other = part then owner else system.mainLock other := by
  simp only [setLock, Function.update_apply]

section

variable (invariant : system.Invariant hash)

include invariant

theorem Invariant.popFree (here : system.pc thread = .popping key mode i) :
    (system.popFree thread key mode i).Invariant hash := by
  unfold PcaSystem.popFree lruPop
  dsimp only
  by_cases empty : (system.ctx.lru .free (partOf key i)).count = 0
  · rw [if_pos empty]
    exact invariant.move (by rw [here]; split_ifs <;> rfl)
  · rw [if_neg empty]
    dsimp only
    obtain ⟨valid, state, home⟩ := invariant.held.last_mem empty
    have fields := fun other => fields_of_core <|
      @Held.lruRemove_core _ .free (partOf key i) _ other invariant.held valid state
    have held := invariant.held.lruRemove valid state
    rw [home] at held
    refine ⟨held, ?_, ?_⟩
    · exact Owned.of (invariant.owned.take valid state (by simp only [here]; rfl) (fun _ => rfl) fun _ => rfl)
        (by simp) (fun other => (fields other).1)
        (fun other => iff_of_eq (congrArg (· ≠ 0) (fields other).2.1))
        (fun other => setPc_role system thread other _) fun _ => rfl
    · exact invariant.keyed.congr (by simp) fun other => (fields other).2

theorem Invariant.tryMainList (here : system.pc thread = .recycling key mode i) :
    (system.tryMainList thread key mode i).Invariant hash := by
  unfold PcaSystem.tryMainList
  split_ifs with unlocked
  · refine ⟨invariant.held, ?_, invariant.keyed⟩
    have next : (system.ctx.lru .main (partOf key i)).last ≠ 0 →
        system.ctx.IsCtrl (system.ctx.lru .main (partOf key i)).last ∧
          (system.ctx.ctrl (system.ctx.lru .main (partOf key i)).last).state = .main ∧
          (system.ctx.lru .main (partOf key i)).last % pcaPartListNum = partOf key i :=
      fun more => invariant.held.last_mem (invariant.held.count_ne_zero more)
    exact Owned.of (invariant.owned.acquire (by simp only [here]; rfl) unlocked next
      (fun _ => rfl) fun _ => rfl)
      rfl (fun _ => rfl) (fun _ => Iff.rfl) (fun other => setPc_role _ thread other _)
      fun other => setLock_lock system _ other _
  · exact invariant.move (by rw [here]; rfl)

theorem Invariant.scanVictim (here : system.pc thread = .scanning key mode i curr turn) :
    (system.scanVictim thread key mode i curr turn busy touch).Invariant hash := by
  have role : (system.pc thread).role = .scanning (partOf key i) curr := by rw [here]; rfl
  unfold PcaSystem.scanVictim
  by_cases ended : curr = 0 ∨ turn ≥ pcaBufMaxRecycleSteps
  · rw [if_pos ended]
    refine ⟨invariant.held, ?_, invariant.keyed⟩
    exact Owned.of (invariant.owned.release role (fun _ => rfl) fun _ => rfl)
      rfl (fun _ => rfl) (fun _ => Iff.rfl) (fun other => setPc_role _ thread other _)
      fun other => setLock_lock system _ other _
  · rw [if_neg ended]
    obtain ⟨present, -⟩ := not_or.mp ended
    obtain ⟨valid, state, home⟩ := invariant.owned.scanning thread _ curr role present
    by_cases refused : busy ∨ (system.ctx.ctrl curr).refNum > 0 ∨ (system.ctx.ctrl curr).touchNr ≥ pcaBufTchAge
    · have absent : (if busy then none else system.ctx.recycleCoreTry curr) = none := by
        rcases refused with rfl | refused
        · rfl
        · simp only [recycleCoreTry, if_pos refused, ite_self]
      rw [absent]
      dsimp only
      have same := fun other => setCtrl_touch system.ctx curr other (touch / 2)
      refine ⟨?_, ?_, ?_⟩
      · exact setTouch_held invariant.held curr (touch / 2)
      · have next := fun more => @Held.lruPrev_mem _ .main _ invariant.held valid state more
        rw [home] at next
        exact Owned.of (invariant.owned.advance role next fun _ => rfl) rfl
          (fun other => (same other).1) (fun other => iff_of_eq (congrArg (· ≠ 0) (same other).2.1))
          (fun other => setPc_role _ thread other _) fun _ => rfl
      · exact invariant.keyed.congr rfl fun other => (same other).2
    · have taken : (if busy then none else system.ctx.recycleCoreTry curr) =
          some ((system.ctx.removeFromBucket (system.ctx.ctrl curr).bckId curr).setCtrl curr
            fun item => { item with touchNr := 0 }) := by
        obtain ⟨free, cold⟩ := not_or.mp refused
        simp only [recycleCoreTry, if_neg free, if_neg cold]
      rw [taken]
      dsimp only
      have unused : (system.ctx.ctrl curr).refNum = 0 := by
        have cold := (not_or.mp (not_or.mp refused).2).1
        omega
      have linked : (system.ctx.ctrl curr).bckId ≠ 0 := by
        rcases invariant.owned.main curr valid state with linked | ⟨other, part, evicting⟩
        · exact linked
        · have same := (invariant.owned.evicting other part curr evicting).2.2.2
          have alone := @Ownership.locked_alone _ _ _ _ _ thread (partOf key i) invariant.owned other
            (by simp only [role]; rfl) (by
              simp only [evicting, ← home, same]
              rfl)
          rw [alone, role] at evicting
          cases evicting
      have fields : ∀ other, _ ∧ _ ∧ _ ∧ _ := fun other => fields_of_core <|
        @Held.removeFromBucket_core _ curr (system.ctx.ctrl curr).bckId other invariant.held valid linked
      have cooled : ∀ other, _ ∧ _ ∧ _ ∧ _ := fun other => setCtrl_touch
        (system.ctx.removeFromBucket (system.ctx.ctrl curr).bckId curr) curr other 0
      refine ⟨?_, ?_, ?_⟩
      · exact setTouch_held (invariant.held.removeFromBucket valid linked) curr 0
      · refine Owned.of (invariant.owned.unchain role present (fun _ => rfl) fun _ => Iff.rfl) (by simp)
          (fun other => (cooled other).1.trans (fields other).1) ?_
          (fun other => setPc_role _ thread other _) fun _ => rfl
        intro other
        refine (iff_of_eq (congrArg (· ≠ 0) ((cooled other).2.1.trans (fields other).2.1))).trans ?_
        by_cases self : other = curr <;> simp [self]
      · refine invariant.keyed.unchain (by simp) valid unused ?_ ?_
        · exact ⟨((cooled curr).2.1.trans (fields curr).2.1).trans (if_pos rfl),
            ((cooled curr).2.2.1.trans (fields curr).2.2.1).trans (if_pos rfl),
            ((cooled curr).2.2.2.trans (fields curr).2.2.2).trans unused⟩
        · intro other self
          exact ⟨((cooled other).2.1.trans (fields other).2.1).trans (if_neg self),
            ((cooled other).2.2.1.trans (fields other).2.2.1).trans (if_neg self),
            (cooled other).2.2.2.trans (fields other).2.2.2⟩

theorem Invariant.evict (here : system.pc thread = .evicting key mode i item) :
    (system.evict thread key mode i item).Invariant hash := by
  have role : (system.pc thread).role = .evicting (partOf key i) item := by rw [here]; rfl
  obtain ⟨valid, state, -, home⟩ := invariant.owned.evicting thread _ item role
  have fields := fun other => fields_of_core <|
    @Held.lruRemove_core _ .main (partOf key i) _ other invariant.held valid state
  have held := @Held.lruRemove _ .main _ invariant.held valid state
  rw [home] at held
  refine ⟨held, ?_, ?_⟩
  · exact Owned.of (invariant.owned.evict role (fun _ => rfl) (fun _ => rfl) fun _ => rfl)
      (by simp [PcaSystem.evict]) (fun other => (fields other).1)
      (fun other => iff_of_eq (congrArg (· ≠ 0) (fields other).2.1))
      (fun other => setPc_role _ thread other _) fun other => setLock_lock system _ other _
  · exact invariant.keyed.congr (by simp [PcaSystem.evict]) fun other => (fields other).2

theorem Invariant.recheckFree (here : system.pc thread = .rechecking key mode i) :
    (system.recheckFree thread key mode i).Invariant hash :=
  invariant.move (by rw [here]; split_ifs <;> rfl)

end

/-- Before it enters a bucket the control block in hand gets its key, from the load or because it has it. -/
theorem linkItem_prepared {bucket : Nat} (held : ctx.Held) (item : Nat)
    (keyed : mode = .normalRead ∨ (ctx.ctrl item).pcaKey = key) :
    ∃ prepared : PcaPageBuffCtx, ctx.linkItem bucket item key mode loaded = prepared.addIntoBucket bucket item ∧
      prepared.Held ∧ prepared.maxCount = ctx.maxCount ∧
      (SameLinks (prepared.ctrl item) (ctx.ctrl item) ∧ (prepared.ctrl item).pcaKey = key ∧
        (prepared.ctrl item).refNum = 1) ∧
      ∀ other, other ≠ item → prepared.ctrl other = ctx.ctrl other := by
  refine ⟨_, rfl, ?_⟩
  cases mode with
  | normalRead =>
    rw [if_pos rfl]
    refine ⟨?_, rfl, ?_, ?_⟩
    · refine Held.setCtrl ?_ item fun _ => ⟨rfl, rfl, rfl, rfl, rfl, rfl⟩
      exact held.setCtrl item fun _ => ⟨rfl, rfl, rfl, rfl, rfl, rfl⟩
    · simp [loadPage, setCtrl_ctrl, SameLinks]
    · intro other self
      simp [loadPage, setCtrl_ctrl, self]
  | noRead =>
    have has := keyed.resolve_left (by simp)
    rw [if_neg (by simp)]
    refine ⟨?_, rfl, ?_, ?_⟩
    · exact held.setCtrl item fun _ => ⟨rfl, rfl, rfl, rfl, rfl, rfl⟩
    · simp [setCtrl_ctrl, SameLinks, has]
    · intro other self
      simp [setCtrl_ctrl, self]

/-- The second lookup, when no control block enters a bucket without the key it is looked up by. -/
theorem Invariant.readAgain (invariant : system.Invariant hash)
    (here : system.pc thread = .holding key mode item)
    (keyed : mode = .noRead → key ≠ {} →
      system.ctx.findFromBucket (system.ctx.bucketOf hash key) key ≠ none) :
    (readAgain hash system thread key mode item loaded).Invariant hash := by
  have role : (system.pc thread).role = .holding item := by rw [here]; rfl
  obtain ⟨valid, state, unlinked⟩ := invariant.owned.holding thread item role
  unfold PcaSystem.readAgain
  dsimp only
  cases hit : system.ctx.findFromBucket (system.ctx.bucketOf hash key) key with
  | some id =>
    refine (invariant.useFound hit).move ?_
    show _ = (system.pc thread).role
    rw [role]
    rfl
  | none =>
    have key_eq : mode = .normalRead ∨ (system.ctx.ctrl item).pcaKey = key := by
      cases mode with
      | normalRead => exact Or.inl rfl
      | noRead =>
        rw [invariant.keyed.blank item valid (not_not.mp unlinked)]
        by_contra other
        exact keyed rfl (fun zero => other (Or.inr zero.symm)) hit
    obtain ⟨prepared, linkEq, held, sameMax, self, others⟩ := 
      @linkItem_prepared _ _ _ loaded (system.ctx.bucketOf hash key) invariant.held item key_eq
    have preparedValid : prepared.IsCtrl item := by rw [IsCtrl, sameMax]; exact valid
    have preparedUnlinked : (prepared.ctrl item).bckId = 0 := by
      rw [self.1.2.2.2.2.2]
      exact not_not.mp unlinked
    have fields : ∀ other, _ ∧ _ ∧ _ ∧ _ := fun other => fields_of_core <|
      @Held.addIntoBucket_core _ item (system.ctx.bucketOf hash key) other held preparedValid preparedUnlinked
        bucketOf_ne_zero
    dsimp only
    rw [linkEq]
    refine ⟨held.addIntoBucket preparedValid preparedUnlinked bucketOf_ne_zero, ?_, ?_⟩
    · refine Owned.of (invariant.owned.chain role (fun _ => rfl) fun _ => Iff.rfl) ?_ ?_ ?_
        (fun other => setPc_role _ thread other _) fun _ => rfl
      · exact (addIntoBucket_maxCount ..).trans sameMax
      · intro other
        refine (fields other).1.trans ?_
        by_cases here : other = item
        · subst here
          exact self.1.1
        · simp [PageCtrl.core, others other here]
      · intro other
        refine (iff_of_eq (congrArg (· ≠ 0) (fields other).2.1)).trans ?_
        by_cases here : other = item
        · simp [here, bucketOf_ne_zero]
        · simp [here, others other here]
    · refine invariant.keyed.chain ((addIntoBucket_maxCount ..).trans sameMax) valid (not_not.mp unlinked)
        bucketOf_ne_zero ?_ ?_ ?_
      · intro other inside linked same
        have home := invariant.keyed.home other inside linked
        rw [same] at home
        exact invariant.held.notFound hit inside home bucketOf_ne_zero same
      · exact ⟨(fields item).2.1.trans (if_pos rfl), (fields item).2.2.1.trans self.2.1,
          (fields item).2.2.2.trans self.2.2⟩
      · intro other here
        have kept := others other here
        refine ⟨(fields other).2.1.trans ((if_neg here).trans ?_), (fields other).2.2.1.trans ?_,
          (fields other).2.2.2.trans ?_⟩
        · rw [kept]
        · show (prepared.ctrl other).pcaKey = _
          rw [kept]
        · show (prepared.ctrl other).refNum = _
          rw [kept]

theorem Invariant.pushMain (invariant : system.Invariant hash) (here : system.pc thread = .pushing key item) :
    (system.pushItem thread .main item).Invariant hash := by
  have role : (system.pc thread).role = .pushing item := by rw [here]; rfl
  obtain ⟨valid, state, -⟩ := invariant.owned.pushing thread item role
  have fields := fun other => fields_of_core <|
    @Held.lruPush_core _ .main (item % pcaPartListNum) _ other invariant.held valid state
  refine ⟨invariant.held.lruPush valid state .main, ?_, ?_⟩
  · exact Owned.of (invariant.owned.pushMain role (fun _ => rfl) fun _ => rfl)
      (by simp [pushItem]) (fun other => (fields other).1)
      (fun other => iff_of_eq (congrArg (· ≠ 0) (fields other).2.1))
      (fun other => setPc_role _ thread other _) fun _ => rfl
  · exact invariant.keyed.congr (by simp [pushItem]) fun other => (fields other).2

theorem Invariant.pushFree (invariant : system.Invariant hash) (here : system.pc thread = .sparing key item) :
    (system.pushItem thread .free item).Invariant hash := by
  have role : (system.pc thread).role = .holding item := by rw [here]; rfl
  obtain ⟨valid, state, -⟩ := invariant.owned.holding thread item role
  have fields := fun other => fields_of_core <|
    @Held.lruPush_core _ .free (item % pcaPartListNum) _ other invariant.held valid state
  refine ⟨invariant.held.lruPush valid state .free, ?_, ?_⟩
  · exact Owned.of (invariant.owned.pushFree role (fun _ => rfl) fun _ => rfl)
      (by simp [pushItem]) (fun other => (fields other).1)
      (fun other => iff_of_eq (congrArg (· ≠ 0) (fields other).2.1))
      (fun other => setPc_role _ thread other _) fun _ => rfl
  · exact invariant.keyed.congr (by simp [pushItem]) fun other => (fields other).2

end PcaSystem

end OpenGauss.Cfs
