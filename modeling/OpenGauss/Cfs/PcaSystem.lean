import OpenGauss.Cfs.PcaHeld

namespace OpenGauss.Cfs

open Lib

namespace PcaPageBuffCtx

variable {ctx : PcaPageBuffCtx} {kind : LruKind} {part id bucket : Nat} {ids : List Nat}

def followed (next : Nat → Nat) : Nat → Nat → List Nat
  | 0, _ => []
  | steps + 1, id => if id = 0 then [] else id :: followed next steps (next id)

def listIds (ctx : PcaPageBuffCtx) (kind : LruKind) (part : Nat) : List Nat :=
  followed (fun id => (ctx.ctrl id).lruNext) ctx.maxCount (ctx.lru kind part).first

def chainIds (ctx : PcaPageBuffCtx) (bucket : Nat) : List Nat :=
  followed (fun id => (ctx.ctrl id).bckNext) ctx.maxCount (ctx.bucket bucket).firstCtrlId

theorem followed_linked {next prev : Nat → Nat} {before first last steps : Nat}
    (linked : Linked next prev before first ids last 0) (apart : 0 ∉ ids) (enough : ids.length ≤ steps) :
    followed next steps first = ids := by
  induction ids generalizing before first steps with
  | nil =>
    obtain rfl := linked.1
    cases steps <;> simp [followed]
  | cons id rest ih =>
    obtain ⟨rfl, -, tail⟩ := linked
    obtain ⟨steps, rfl⟩ := Nat.exists_eq_add_of_le' (Nat.lt_of_lt_of_le Nat.zero_lt_one
      (Nat.le_trans (by simp) enough) : 1 ≤ steps)
    rw [followed, if_neg (by rintro rfl; simp at apart), ih tail (by simp_all) (by simpa using enough)]

theorem findFrom_linked {next prev : Nat → Nat} {before first last steps : Nat} (key : CfsBufferKey)
    (chain : next = fun id => (ctx.ctrl id).bckNext)
    (linked : Linked next prev before first ids last 0) (apart : 0 ∉ ids) (enough : ids.length ≤ steps) :
    ctx.findFrom key steps first = ids.find? fun id => (ctx.ctrl id).pcaKey = key := by
  induction ids generalizing before first steps with
  | nil =>
    obtain rfl := linked.1
    cases steps <;> simp [findFrom]
  | cons id rest ih =>
    obtain ⟨rfl, -, tail⟩ := linked
    obtain ⟨steps, rfl⟩ := Nat.exists_eq_add_of_le' (Nat.lt_of_lt_of_le Nat.zero_lt_one
      (Nat.le_trans (by simp) enough) : 1 ≤ steps)
    rw [findFrom, if_neg (by rintro rfl; simp at apart), List.find?_cons]
    by_cases hit : (ctx.ctrl first).pcaKey = key
    · simp [hit]
    · simp only [hit, if_false, decide_false]
      subst chain
      exact ih tail (by simp_all) (by simpa using enough)

theorem length_le_maxCount (nodup : ids.Nodup) (valid : ∀ id ∈ ids, ctx.IsCtrl id) :
    ids.length ≤ ctx.maxCount := by
  have within : ids ⊆ List.range' 1 ctx.maxCount := by
    intro id inside
    obtain ⟨low, high⟩ := valid id inside
    exact List.mem_range'_1.mpr ⟨low, by omega⟩
  simpa using (List.subperm_of_subset nodup within).length_le

theorem LruHeld.listIds_eq (held : ctx.LruHeld kind part ids) : ctx.listIds kind part = ids :=
  followed_linked held.linked held.zero_notMem
    (length_le_maxCount held.nodup fun id inside => ((held.mem id).mp inside).1)

theorem ChainHeld.chainIds_eq (held : ctx.ChainHeld bucket ids) : ctx.chainIds bucket = ids := by
  obtain ⟨last, linked⟩ := held.linked
  exact followed_linked linked held.zero_notMem
    (length_le_maxCount held.nodup fun id inside => ((held.mem id).mp inside).1)

namespace Held

variable (held : ctx.Held)

include held

theorem mem_listIds : id ∈ ctx.listIds kind part ↔
    ctx.IsCtrl id ∧ (ctx.ctrl id).state = kind.state ∧ id % pcaPartListNum = part := by
  obtain ⟨ids, list⟩ := held.lru kind part
  rw [list.listIds_eq, list.mem id]

theorem mem_chainIds : id ∈ ctx.chainIds bucket ↔
    ctx.IsCtrl id ∧ (ctx.ctrl id).bckId = bucket ∧ bucket ≠ 0 := by
  obtain ⟨ids, chain⟩ := held.chain bucket
  rw [chain.chainIds_eq, chain.mem id]

theorem nodup_listIds : (ctx.listIds kind part).Nodup := by
  obtain ⟨ids, list⟩ := held.lru kind part
  rw [list.listIds_eq]
  exact list.nodup

theorem nodup_chainIds : (ctx.chainIds bucket).Nodup := by
  obtain ⟨ids, chain⟩ := held.chain bucket
  rw [chain.chainIds_eq]
  exact chain.nodup

theorem findFromBucket_eq (key : CfsBufferKey) : ctx.findFromBucket bucket key =
    (ctx.chainIds bucket).find? fun id => (ctx.ctrl id).pcaKey = key := by
  obtain ⟨ids, chain⟩ := held.chain bucket
  obtain ⟨last, linked⟩ := chain.linked
  rw [chain.chainIds_eq]
  exact findFrom_linked key rfl linked chain.zero_notMem
    (length_le_maxCount chain.nodup fun id inside => ((chain.mem id).mp inside).1)

theorem found {key : CfsBufferKey} (hit : ctx.findFromBucket bucket key = some id) :
    ctx.IsCtrl id ∧ (ctx.ctrl id).bckId = bucket ∧ bucket ≠ 0 ∧ (ctx.ctrl id).pcaKey = key := by
  rw [held.findFromBucket_eq key] at hit
  obtain ⟨valid, home, real⟩ := held.mem_chainIds.mp (List.mem_of_find?_eq_some hit)
  exact ⟨valid, home, real, by simpa using List.find?_some hit⟩

theorem notFound {key : CfsBufferKey} (miss : ctx.findFromBucket bucket key = none) (valid : ctx.IsCtrl id)
    (home : (ctx.ctrl id).bckId = bucket) (real : bucket ≠ 0) : (ctx.ctrl id).pcaKey ≠ key := by
  rw [held.findFromBucket_eq key, List.find?_eq_none] at miss
  simpa using miss id (held.mem_chainIds.mpr ⟨valid, home, real⟩)

theorem count_ne_zero (more : (ctx.lru kind part).last ≠ 0) : (ctx.lru kind part).count ≠ 0 := by
  obtain ⟨ids, list⟩ := held.lru kind part
  intro absent
  rw [list.count, List.length_eq_zero_iff] at absent
  subst absent
  exact more list.linked.2

theorem last_mem (nonempty : (ctx.lru kind part).count ≠ 0) :
    ctx.IsCtrl (ctx.lru kind part).last ∧ (ctx.ctrl (ctx.lru kind part).last).state = kind.state ∧
      (ctx.lru kind part).last % pcaPartListNum = part := by
  obtain ⟨ids, list⟩ := held.lru kind part
  have filled : ids ≠ [] := by
    rintro rfl
    exact nonempty list.count
  exact (list.mem _).mp (list.linked.last_mem filled)

/-- Walking towards the head stays on the list until it ends. -/
theorem lruPrev_mem (valid : ctx.IsCtrl id) (state : (ctx.ctrl id).state = kind.state)
    (more : (ctx.ctrl id).lruPrev ≠ 0) :
    ctx.IsCtrl (ctx.ctrl id).lruPrev ∧ (ctx.ctrl (ctx.ctrl id).lruPrev).state = kind.state ∧
      (ctx.ctrl id).lruPrev % pcaPartListNum = id % pcaPartListNum := by
  obtain ⟨ids, list⟩ := held.lru kind (id % pcaPartListNum)
  have inside : id ∈ ids := (list.mem id).mpr ⟨valid, state, rfl⟩
  exact (list.mem _).mp ((list.linked.links_mem inside).2 more)

end Held

end PcaPageBuffCtx

inductive ReadPc where
  | idle
  /-- Part 1 of `pca_buf_recycle`, about to pop the free list `(rand_start + i) % 8`. -/
  | popping (key : CfsBufferKey) (mode : PcaBufferReadMode) (i : Nat)
  /-- Part 2, about to try the lock of the main list `(rand_start + i) % 8`. -/
  | recycling (key : CfsBufferKey) (mode : PcaBufferReadMode) (i : Nat)
  /-- In `pca_buf_recycle_core` with the lock, about to look at `curr`. -/
  | scanning (key : CfsBufferKey) (mode : PcaBufferReadMode) (i curr step : Nat)
  | evicting (key : CfsBufferKey) (mode : PcaBufferReadMode) (i item : Nat)
  /-- Nothing recycled from main list `i`, about to look at the count of free list `i`. -/
  | rechecking (key : CfsBufferKey) (mode : PcaBufferReadMode) (i : Nat)
  /-- With a control block in hand, before the second lookup. -/
  | holding (key : CfsBufferKey) (mode : PcaBufferReadMode) (item : Nat)
  | pushing (key : CfsBufferKey) (item : Nat)
  /-- The second lookup found another one, and the one in hand is about to go to its free list. -/
  | sparing (key : CfsBufferKey) (item : Nat)
  deriving DecidableEq, Repr

/-- One use of a control block, from the count in `pca_buf_read_page` to `pca_buf_free_page`. -/
structure PcaUse where
  thread : Nat
  ctrl : Nat
  key : CfsBufferKey
  deriving DecidableEq, Repr

structure PcaSystem where
  ctx : PcaPageBuffCtx
  pc : Nat → ReadPc := fun _ => .idle
  mainLock : Nat → Option Nat := fun _ => none
  uses : List PcaUse := []

inductive PcaEvent where
  /-- A call of `pca_buf_read_page`, up to the end of the first lookup. -/
  | read (thread : Nat) (key : CfsBufferKey) (mode : PcaBufferReadMode) (loaded : Bool)
  | advance (thread : Nat) (loaded busy : Bool) (touch : Nat)
  | free (thread ctrl : Nat) (key : CfsBufferKey) (needWrite written : Bool)
  deriving Repr

namespace PcaSystem

open PcaPageBuffCtx

variable (system : PcaSystem)

variable (thread : Nat)

def setPc (pc : ReadPc) : PcaSystem :=
  { system with pc := Function.update system.pc thread pc }

def setLock (part : Nat) (owner : Option Nat) : PcaSystem :=
  { system with mainLock := Function.update system.mainLock part owner }

variable (key : CfsBufferKey)

def partOf (i : Nat) : Nat :=
  (key.extentCount % pcaPartListNum + i) % pcaPartListNum

def use (ctx : PcaPageBuffCtx) (thread ctrl : Nat) (key : CfsBufferKey) : PcaSystem :=
  { system with ctx, uses := { thread, ctrl, key } :: system.uses }

variable (hash : CfsBufferKey → Nat)

def readPage (system : PcaSystem) (thread : Nat) (key : CfsBufferKey)
    (mode : PcaBufferReadMode) (loaded : Bool) : PcaSystem :=
  let ctx := system.ctx
  match ctx.findFromBucket (ctx.bucketOf hash key) key with
  | some id => system.use (ctx.useFound id key mode loaded pcaBufTchAge) thread id key
  | none => system.setPc thread (.popping key mode 0)

variable (mode : PcaBufferReadMode)

def popFree (i : Nat) : PcaSystem :=
  match system.ctx.lruPop .free (partOf key i) with
  | some (item, ctx) => { system.setPc thread (.holding key mode item) with ctx }
  | none =>
    system.setPc thread (if i + 1 < pcaPartListNum then .popping key mode (i + 1) else .recycling key mode 0)

def tryMainList (i : Nat) : PcaSystem :=
  if system.mainLock (partOf key i) = none then
    (system.setLock (partOf key i) (some thread)).setPc thread
      (.scanning key mode i (system.ctx.lru .main (partOf key i)).last 0)
  else system.setPc thread (.rechecking key mode i)

def scanVictim (i curr step : Nat) (busy : Bool) (touch : Nat) : PcaSystem :=
  if curr = 0 ∨ step ≥ pcaBufMaxRecycleSteps then
    (system.setLock (partOf key i) none).setPc thread (.rechecking key mode i)
  else
    match if busy then none else system.ctx.recycleCoreTry curr with
    | some ctx => { system.setPc thread (.evicting key mode i curr) with ctx }
    | none =>
      { system.setPc thread (.scanning key mode i (system.ctx.ctrl curr).lruPrev (step + 1)) with
        ctx := system.ctx.setCtrl curr fun item => { item with touchNr := touch / 2 } }

def evict (i item : Nat) : PcaSystem :=
  { (system.setLock (partOf key i) none).setPc thread (.holding key mode item) with
    ctx := system.ctx.lruRemove .main (partOf key i) item }

/-- The end of part 2 of `pca_buf_recycle` for one main list. -/
def recheckFree (i : Nat) : PcaSystem :=
  system.setPc thread <|
    if (system.ctx.lru .free i).count ≠ 0 then .popping key mode 0
    else if i + 1 < pcaPartListNum then .recycling key mode (i + 1)
    else .popping key mode 0

def readAgain (system : PcaSystem) (thread : Nat) (key : CfsBufferKey)
    (mode : PcaBufferReadMode) (item : Nat) (loaded : Bool) : PcaSystem :=
  let ctx := system.ctx
  let bucket := ctx.bucketOf hash key
  match ctx.findFromBucket bucket key with
  | some id => (system.use (ctx.useFound id key mode loaded 1) thread id key).setPc thread (.sparing key item)
  | none => (system.use (ctx.linkItem bucket item key mode loaded) thread item key).setPc thread
      (.pushing key item)

/-- The last step of a call: the control block in hand goes to the list of its number. -/
def pushItem (kind : LruKind) (item : Nat) : PcaSystem :=
  { system.setPc thread .idle with ctx := system.ctx.lruPush kind (item % pcaPartListNum) item }

def advance (system : PcaSystem) (thread : Nat) (loaded busy : Bool)
    (touch : Nat) : PcaSystem :=
  match system.pc thread with
  | .idle => system
  | .popping key mode i => system.popFree thread key mode i
  | .recycling key mode i => system.tryMainList thread key mode i
  | .scanning key mode i curr step => system.scanVictim thread key mode i curr step busy touch
  | .evicting key mode i item => system.evict thread key mode i item
  | .rechecking key mode i => system.recheckFree thread key mode i
  | .holding key mode item => readAgain hash system thread key mode item loaded
  | .pushing _ item => system.pushItem thread .main item
  | .sparing _ item => system.pushItem thread .free item

def step (system : PcaSystem) : PcaEvent → PcaSystem
  | .read thread key mode loaded =>
    if system.pc thread = .idle then readPage hash system thread key mode loaded else system
  | .advance thread loaded busy touch => advance hash system thread loaded busy touch
  | .free thread ctrl key needWrite written =>
    if system.pc thread = .idle ∧ { thread, ctrl, key } ∈ system.uses then
      { system with
        ctx := system.ctx.freePage ctrl needWrite written
        uses := system.uses.erase { thread, ctrl, key } }
    else system

def init (maxCount : Nat) : PcaSystem := { ctx := PcaPageBuffCtx.init maxCount }

end PcaSystem

end OpenGauss.Cfs
