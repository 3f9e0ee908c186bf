import OpenGauss.Cfs.PcaSteps
import OpenGauss.Lib.Run

namespace OpenGauss.Cfs

open PcaPageBuffCtx Lib

namespace PcaSystem

variable {system : PcaSystem} {hash : CfsBufferKey → Nat} {id : Nat}

private theorem init_prefix (maxCount : Nat) (count : Nat) : count ≤ maxCount →
    ∃ ctx : PcaPageBuffCtx, (List.range count).foldl
        (fun ctx index => ctx.lruPush .free ((index + 1) % pcaPartListNum) (index + 1)) { maxCount } = ctx ∧
      ctx.Held ∧ ctx.maxCount = maxCount ∧ ∀ id, (ctx.ctrl id).state =
      (if 1 ≤ id ∧ id ≤ count then .free else .isolation) ∧
        (ctx.ctrl id).bckId = 0 ∧ (ctx.ctrl id).pcaKey = {} ∧ (ctx.ctrl id).refNum = 0 := by
  induction count with
  | zero =>
    intro _
    refine ⟨_, rfl, ⟨fun kind part => ⟨[], ?_⟩, fun bucket => ⟨[], ?_⟩⟩, rfl, ?_⟩
    · refine ⟨⟨rfl, rfl⟩, rfl, List.nodup_nil, fun id => ?_⟩
      simp [kind.state_ne_isolation.symm]
    · refine ⟨⟨0, rfl, rfl⟩, rfl, List.nodup_nil, fun id => ?_⟩
      simp only [List.not_mem_nil, false_iff]
      rintro ⟨-, home, zero⟩
      exact zero home.symm
    · intro id
      refine ⟨?_, rfl, rfl, rfl⟩
      rw [if_neg (by omega)]
      rfl
  | succ count ih =>
    intro bounded
    obtain ⟨ctx, same, held, sameMax, fields⟩ := ih (by omega)
    rw [List.range_succ, List.foldl_append, same]
    have valid : ctx.IsCtrl (count + 1) := ⟨by omega, by omega⟩
    have isolated : (ctx.ctrl (count + 1)).state = .isolation := by
      rw [(fields (count + 1)).1, if_neg (by omega)]
    have pushed := fun other => fields_of_core <|
      @Held.lruPush_core _ .free ((count + 1) % pcaPartListNum) _ other held valid isolated
    refine ⟨_, rfl, held.lruPush valid isolated .free, (lruPush_maxCount ..).trans sameMax, ?_⟩
    intro id
    refine ⟨(pushed id).1.trans ?_, (pushed id).2.1.trans (fields id).2.1,
      (pushed id).2.2.1.trans (fields id).2.2.1, (pushed id).2.2.2.trans (fields id).2.2.2⟩
    by_cases here : id = count + 1
    · rw [if_pos here, if_pos (by omega)]
      rfl
    · rw [if_neg here]
      refine (fields id).1.trans ?_
      by_cases inside : 1 ≤ id ∧ id ≤ count
      · rw [if_pos inside, if_pos (by omega)]
      · rw [if_neg inside, if_neg (by omega)]

theorem init_invariant (hash : CfsBufferKey → Nat) (maxCount : Nat) : (init maxCount).Invariant hash := by
  obtain ⟨ctx, same, held, sameMax, fields⟩ := init_prefix maxCount maxCount le_rfl
  have start : (init maxCount).ctx = ctx := same
  have free : ∀ id, ctx.IsCtrl id → (ctx.ctrl id).state = .free := by
    intro id valid
    rw [(fields id).1, if_pos (by rwa [IsCtrl, sameMax] at valid)]
  refine ⟨by rw [start]; exact held, ?_, ?_⟩
  · unfold Owned
    rw [start]
    constructor
    · intro thread id holding
      cases holding
    · intro thread id pushing
      cases pushing
    · intro thread other id holds
      cases holds
    · intro id valid isolated
      rw [free id valid] at isolated
      cases isolated
    · intro id _ _ linked
      exact linked (fields id).2.1
    · intro id valid main
      rw [free id valid] at main
      cases main
    · intro thread part id evicting
      cases evicting
    · intro thread part id scanning
      cases scanning
    · intro part thread
      exact ⟨by rintro ⟨⟩, by rintro ⟨⟩⟩
  · rw [start]
    constructor
    · exact fun id _ linked => absurd (fields id).2.1 linked
    · exact fun id _ _ => (fields id).2.2.1
    · exact fun first _ _ _ linked => absurd (fields first).2.1 linked
    · rintro use ⟨⟩
    · exact fun id _ => (fields id).2.2.2

/-- A call that does not read the page finds its extent at the second lookup: no control block enters a
bucket without a key. -/
def Keying (hash : CfsBufferKey → Nat) (system : PcaSystem) : PcaEvent → Prop
  | .advance thread _ _ _ =>
    match system.pc thread with
    | .holding key .noRead _ =>
      key ≠ {} → system.ctx.findFromBucket (system.ctx.bucketOf hash key) key ≠ none
    | _ => True
  | _ => True

theorem Invariant.step (event : PcaEvent) (keying : Keying hash system event)
    (invariant : system.Invariant hash) : (step hash system event).Invariant hash := by
  cases event with
  | read thread key mode loaded =>
    simp only [PcaSystem.step]
    split_ifs with idle
    · exact invariant.readPage idle
    · exact invariant
  | advance thread loaded busy touch =>
    simp only [PcaSystem.step, advance]
    cases here : system.pc thread with
    | idle => exact invariant
    | popping key mode i => exact invariant.popFree here
    | recycling key mode i => exact invariant.tryMainList here
    | scanning key mode i curr turn => exact invariant.scanVictim here
    | evicting key mode i item => exact invariant.evict here
    | rechecking key mode i => exact invariant.recheckFree here
    | holding key mode item =>
      refine invariant.readAgain here ?_
      rintro rfl
      simpa only [Keying, here] using keying
    | pushing key item => exact invariant.pushMain here
    | sparing key item => exact invariant.pushFree here
  | free thread ctrl key needWrite written =>
    simp only [PcaSystem.step]
    split_ifs with inUse
    · exact invariant.freePage inUse.2
    · exact invariant

/-- Where a control block can be: on one of the lists, or with one thread between two lists. -/
inductive Place where
  | list (kind : LruKind) (part : Nat)
  | hand (thread : Nat)

def At (system : PcaSystem) (id : Nat) : Place → Prop
  | .list kind part => id ∈ system.ctx.listIds kind part
  | .hand thread => (system.pc thread).role.inHand = some id

/-- What the walks show. A thread between the two halves of an insertion or an eviction accounts for the
only differences between the buckets and the main lists. -/
structure Sound (hash : CfsBufferKey → Nat) (system : PcaSystem) : Prop where
  placed : ∀ id, 1 ≤ id → id ≤ system.ctx.maxCount → ∃! place, system.At id place
  lists : ∀ kind part, (system.ctx.listIds kind part).Nodup ∧
    ∀ id ∈ system.ctx.listIds kind part, 1 ≤ id ∧ id ≤ system.ctx.maxCount
  chained : ∀ id, (∃ bucket, id ∈ system.ctx.chainIds bucket) ↔
    (∃ part, id ∈ system.ctx.listIds .main part) ∧
      (¬ ∃ thread part, (system.pc thread).role = .evicting part id) ∨
      ∃ thread, (system.pc thread).role = .pushing id
  chains : ∀ bucket, (system.ctx.chainIds bucket).Nodup ∧ ∀ id ∈ system.ctx.chainIds bucket,
    bucket = system.ctx.bucketOf hash (system.ctx.ctrl id).pcaKey
  keys : ∀ first second firstBucket secondBucket, first ∈ system.ctx.chainIds firstBucket →
    second ∈ system.ctx.chainIds secondBucket →
    (system.ctx.ctrl first).pcaKey = (system.ctx.ctrl second).pcaKey → first = second
  inUse : ∀ use ∈ system.uses, (∃ bucket, use.ctrl ∈ system.ctx.chainIds bucket) ∧
    (system.ctx.ctrl use.ctrl).pcaKey = use.key
  shared : ∀ first ∈ system.uses, ∀ second ∈ system.uses, first.key = second.key → first.ctrl = second.ctrl

theorem Invariant.placed (invariant : system.Invariant hash) (valid : system.ctx.IsCtrl id) :
    ∃! place, system.At id place := by
  obtain ⟨held, owned, keyed⟩ := invariant
  have listed : ∀ kind part, id ∈ system.ctx.listIds kind part ↔
      (system.ctx.ctrl id).state = kind.state ∧ id % pcaPartListNum = part := by
    intro kind part
    rw [held.mem_listIds]
    exact ⟨fun inside => inside.2, fun inside => ⟨valid, inside⟩⟩
  have isolated : ∀ thread, (system.pc thread).role.inHand = some id → (system.ctx.ctrl id).state =
      .isolation := by
    intro thread holds
    rcases PcaRole.inHand_eq_some.mp holds with holding | pushing
    · exact (owned.holding thread id holding).2.1
    · exact (owned.pushing thread id pushing).2.1
  have onList : ∀ kind : LruKind, (system.ctx.ctrl id).state = kind.state → ∃! place, system.At id place := by
    intro kind state
    refine ⟨.list kind (id % pcaPartListNum), (listed kind _).mpr ⟨state, rfl⟩, ?_⟩
    rintro (⟨other, part⟩ | thread) stands
    · obtain ⟨same, rfl⟩ := (listed other part).mp stands
      rw [LruKind.state_injective (state.symm.trans same)]
    · exact absurd (state.symm.trans (isolated thread stands)) kind.state_ne_isolation
  cases state : (system.ctx.ctrl id).state with
  | main => exact onList .main state
  | free => exact onList .free state
  | isolation =>
    obtain ⟨thread, holds⟩ := owned.isolated id valid state
    refine ⟨.hand thread, holds, ?_⟩
    rintro (⟨kind, part⟩ | other) stands
    · exact absurd (((listed kind part).mp stands).1.symm.trans state) kind.state_ne_isolation
    · rw [owned.single other thread id stands holds]

theorem Invariant.chained (invariant : system.Invariant hash) : (∃ bucket, id ∈ system.ctx.chainIds bucket) ↔
      (∃ part, id ∈ system.ctx.listIds .main part) ∧
          (¬ ∃ thread part, (system.pc thread).role = .evicting part id) ∨
        ∃ thread, (system.pc thread).role = .pushing id := by
  obtain ⟨held, owned, keyed⟩ := invariant
  simp only [held.mem_chainIds, held.mem_listIds]
  constructor
  · rintro ⟨bucket, valid, rfl, linked⟩
    cases state : (system.ctx.ctrl id).state with
    | main =>
      refine Or.inl ⟨⟨_, valid, rfl, rfl⟩, ?_⟩
      rintro ⟨thread, part, evicting⟩
      exact (owned.evicting thread part id evicting).2.2.1 linked
    | free => exact absurd linked (owned.free id valid state)
    | isolation =>
      obtain ⟨thread, holds⟩ := owned.isolated id valid state
      rcases PcaRole.inHand_eq_some.mp holds with holding | pushing
      · exact absurd linked (owned.holding thread id holding).2.2
      · exact Or.inr ⟨thread, pushing⟩
  · rintro (⟨⟨part, valid, state, -⟩, kept⟩ | ⟨thread, pushing⟩)
    · rcases owned.main id valid state with linked | evicting
      · exact ⟨_, valid, rfl, linked⟩
      · exact absurd evicting kept
    · obtain ⟨valid, -, linked⟩ := owned.pushing thread id pushing
      exact ⟨_, valid, rfl, linked⟩

theorem Invariant.sound (invariant : system.Invariant hash) : system.Sound hash := by
  have held := invariant.held
  have keyed := invariant.keyed
  refine ⟨fun id low high => invariant.placed ⟨low, high⟩, ?_, fun id => invariant.chained, ?_, ?_, ?_, ?_⟩
  · intro kind part
    exact ⟨held.nodup_listIds, fun id inside => (held.mem_listIds.mp inside).1⟩
  · intro bucket
    refine ⟨held.nodup_chainIds, fun id inside => ?_⟩
    obtain ⟨valid, rfl, linked⟩ := held.mem_chainIds.mp inside
    exact keyed.home id valid linked
  · intro first second firstBucket secondBucket inFirst inSecond same
    obtain ⟨firstValid, rfl, firstLinked⟩ := held.mem_chainIds.mp inFirst
    obtain ⟨secondValid, rfl, secondLinked⟩ := held.mem_chainIds.mp inSecond
    exact keyed.distinct first second firstValid secondValid firstLinked secondLinked same
  · intro use member
    obtain ⟨valid, linked, has⟩ := keyed.used use member
    exact ⟨⟨_, held.mem_chainIds.mpr ⟨valid, rfl, linked⟩⟩, has⟩
  · intro first inFirst second inSecond same
    obtain ⟨firstValid, firstLinked, firstHas⟩ := keyed.used first inFirst
    obtain ⟨secondValid, secondLinked, secondHas⟩ := keyed.used second inSecond
    exact keyed.distinct _ _ firstValid secondValid firstLinked secondLinked
      (firstHas.trans (same.trans secondHas.symm))

/-- Whatever the interleaving, as long as every call that does not read the page finds its extent at the
second lookup. -/
theorem pca_sound (hash : CfsBufferKey → Nat) (maxCount : Nat) (events : List PcaEvent)
    (keying : Along (step hash) (Keying hash) (init maxCount) events) :
    Sound hash (run (step hash) (init maxCount) events) :=
  (run_invariant_along (Invariant hash) (fun _ event allowed invariant => invariant.step event allowed)
    keying (init_invariant hash maxCount)).sound

/-- The first thread has loaded the extent when the second, which does not read the page, looks it up again. -/
def secondLookup : List PcaEvent :=
  [.read 0 { relNode := 1 } .normalRead true, .read 1 { relNode := 1 } .noRead true] ++
    List.replicate 4 (.advance 0 true false 0) ++ List.replicate 5 (.advance 1 true false 0)

theorem pca_sound_read : Sound (fun _ => 0) (run (step fun _ => 0) (init 2) secondLookup) :=
  pca_sound (fun _ => 0) 2 secondLookup
    ⟨trivial, trivial, trivial, trivial, trivial, trivial, trivial, trivial, trivial,
      fun _ => by decide +kernel, trivial, trivial⟩

/-- Two calls for one extent that do not read the page take two control blocks for it. -/
theorem pca_not_sound : ¬ ∀ (hash : CfsBufferKey → Nat) (maxCount : Nat) (events : List PcaEvent),
    Sound hash (run (step hash) (init maxCount) events) := by
  intro all
  have sound := all (fun _ => 0) 2 [
    .read 0 { relNode := 1, extentCount := 1 } .noRead true, .advance 0 true false 0,
    .advance 0 true false 0, .advance 0 true false 0,
    .read 1 { relNode := 1, extentCount := 1 } .noRead true, .advance 1 true false 0,
    .advance 1 true false 0, .advance 1 true false 0, .advance 1 true false 0]
  have shared := sound.shared { thread := 0, ctrl := 1, key := { relNode := 1, extentCount := 1 } }
    (by decide +kernel) { thread := 1, ctrl := 2, key := { relNode := 1, extentCount := 1 } }
    (by decide +kernel) rfl
  exact absurd shared (by decide)

end PcaSystem

end OpenGauss.Cfs
