import OpenGauss.Lib.Linked

/-! The cache of compressed-extent headers. Control blocks and buckets are numbered from 1; 0 is
`PCA_INVALID_ID`. -/

namespace OpenGauss.Cfs

open Lib

/-- The physical file node and the number of the extent. -/
structure CfsBufferKey where
  spcNode : Nat := 0
  dbNode : Nat := 0
  relNode : Nat := 0
  bucketNode : Nat := 0
  extentCount : Nat := 0
  deriving DecidableEq, Repr

inductive CtrlState where
  | isolation | main | free
  deriving DecidableEq, Repr

inductive CtrlLoadStatus where
  | noLoad | loaded | loadedError
  deriving DecidableEq, Repr

structure PageCtrl where
  state : CtrlState := .isolation
  lruPrev : Nat := 0
  lruNext : Nat := 0
  bckPrev : Nat := 0
  bckNext : Nat := 0
  bckId : Nat := 0
  touchNr : Nat := 0
  refNum : Nat := 0
  loadStatus : CtrlLoadStatus := .noLoad
  pcaKey : CfsBufferKey := {}
  deriving DecidableEq, Repr

structure PcaHashBucket where
  ctrlCount : Nat := 0
  firstCtrlId : Nat := 0
  deriving DecidableEq, Repr

structure PcaLruList where
  count : Nat := 0
  first : Nat := 0
  last : Nat := 0
  deriving DecidableEq, Repr

/-- The two families of lists, `main_lru` and `free_lru`. -/
inductive LruKind where
  | main | free
  deriving DecidableEq, Repr

def LruKind.state : LruKind → CtrlState
  | .main => .main
  | .free => .free

inductive PcaBufferReadMode where
  | normalRead | noRead
  deriving DecidableEq, Repr

def pcaPartListNum : Nat := 8

def pcaBufTchAge : Nat := 3

def pcaBufMaxRecycleSteps : Nat := 1024

structure PcaPageBuffCtx where
  ctrl : Nat → PageCtrl := fun _ => {}
  bucket : Nat → PcaHashBucket := fun _ => {}
  lru : LruKind → Nat → PcaLruList := fun _ _ => {}
  maxCount : Nat

/-- A control block without its links. -/
def PageCtrl.core (item : PageCtrl) : PageCtrl :=
  { item with lruPrev := 0, lruNext := 0, bckPrev := 0, bckNext := 0 }

namespace PcaPageBuffCtx

def setCtrl (ctx : PcaPageBuffCtx) (id : Nat) (change : PageCtrl → PageCtrl) : PcaPageBuffCtx :=
  { ctx with ctrl := Function.update ctx.ctrl id (change (ctx.ctrl id)) }

def setBucket (ctx : PcaPageBuffCtx) (id : Nat) (bucket : PcaHashBucket) : PcaPageBuffCtx :=
  { ctx with bucket := Function.update ctx.bucket id bucket }

def setLru (ctx : PcaPageBuffCtx) (kind : LruKind) (part : Nat) (list : PcaLruList) : PcaPageBuffCtx :=
  { ctx with lru := Function.update ctx.lru kind (Function.update (ctx.lru kind) part list) }

def bucketOf (ctx : PcaPageBuffCtx) (hash : CfsBufferKey → Nat) (key : CfsBufferKey) : Nat :=
  hash key % (3 * ctx.maxCount) + 1

def findFrom (ctx : PcaPageBuffCtx) (key : CfsBufferKey) : Nat → Nat → Option Nat
  | 0, _ => none
  | steps + 1, id =>
    if id = 0 then none
    else if (ctx.ctrl id).pcaKey = key then some id
    else findFrom ctx key steps (ctx.ctrl id).bckNext

/-- `pca_buf_find_from_bucket`; no chain is longer than the number of control blocks. -/
def findFromBucket (ctx : PcaPageBuffCtx) (bucket : Nat) (key : CfsBufferKey) : Option Nat :=
  ctx.findFrom key ctx.maxCount (ctx.bucket bucket).firstCtrlId

def removeFromBucket (ctx : PcaPageBuffCtx) (bucket id : Nat) : PcaPageBuffCtx :=
  let item := ctx.ctrl id
  let ctx :=
    if item.bckPrev ≠ 0 then ctx.setCtrl item.bckPrev fun prev => { prev with bckNext := item.bckNext }
    else ctx.setBucket bucket { ctx.bucket bucket with firstCtrlId := item.bckNext }
  let ctx :=
    if item.bckNext ≠ 0 then ctx.setCtrl item.bckNext fun next => { next with bckPrev := item.bckPrev }
    else ctx
  let ctx := ctx.setCtrl id fun item =>
    { item with bckPrev := 0, bckNext := 0, bckId := 0, pcaKey := {} }
  ctx.setBucket bucket { ctx.bucket bucket with ctrlCount := (ctx.bucket bucket).ctrlCount - 1 }

def addIntoBucket (ctx : PcaPageBuffCtx) (bucket id : Nat) : PcaPageBuffCtx :=
  let found := ctx.bucket bucket
  if found.ctrlCount = 0 then
    (ctx.setCtrl id fun item => { item with bckId := bucket, bckPrev := 0, bckNext := 0 }).setBucket bucket
      { firstCtrlId := id, ctrlCount := found.ctrlCount + 1 }
  else
    let head := found.firstCtrlId
    ((ctx.setCtrl id fun item => { item with bckId := bucket, bckPrev := 0, bckNext := head }).setCtrl head
      fun item => { item with bckPrev := id }).setBucket bucket
      { firstCtrlId := id, ctrlCount := found.ctrlCount + 1 }

def lruPush (ctx : PcaPageBuffCtx) (kind : LruKind) (part id : Nat) : PcaPageBuffCtx :=
  let list := ctx.lru kind part
  if list.count = 0 then
    (ctx.setCtrl id fun item =>
      { item with lruNext := 0, lruPrev := 0, state := kind.state }).setLru kind part
      { first := id, last := id, count := list.count + 1 }
  else
    ((ctx.setCtrl id fun item =>
      { item with lruNext := list.first, lruPrev := 0, state := kind.state }).setCtrl list.first
      fun item => { item with lruPrev := id }).setLru kind part
      { list with first := id, count := list.count + 1 }

def lruRemove (ctx : PcaPageBuffCtx) (kind : LruKind) (part id : Nat) : PcaPageBuffCtx :=
  let item := ctx.ctrl id
  let list := ctx.lru kind part
  let ctx :=
    if item.lruPrev ≠ 0 then ctx.setCtrl item.lruPrev fun prev => { prev with lruNext := item.lruNext }
    else ctx
  let ctx :=
    if item.lruNext ≠ 0 then ctx.setCtrl item.lruNext fun next => { next with lruPrev := item.lruPrev }
    else ctx
  (ctx.setCtrl id fun item => { item with lruPrev := 0, lruNext := 0, state := .isolation }).setLru kind
    part
    { first := if item.lruPrev ≠ 0 then list.first else item.lruNext
      last := if item.lruNext ≠ 0 then list.last else item.lruPrev
      count := list.count - 1 }

def lruPop (ctx : PcaPageBuffCtx) (kind : LruKind) (part : Nat) : Option (Nat × PcaPageBuffCtx) :=
  let list := ctx.lru kind part
  if list.count = 0 then none
  else some (list.last, ctx.lruRemove kind part list.last)

/-- `pca_buf_recycle_core_try` with the bucket's lock; without it nothing is recycled. -/
def recycleCoreTry (ctx : PcaPageBuffCtx) (id : Nat) : Option PcaPageBuffCtx :=
  let item := ctx.ctrl id
  if item.refNum > 0 ∨ item.touchNr ≥ pcaBufTchAge then none
  else some ((ctx.removeFromBucket item.bckId id).setCtrl id fun item => { item with touchNr := 0 })

/-- `pca_buf_load_page`: `loaded` says whether the page was read and passed the check. -/
def loadPage (ctx : PcaPageBuffCtx) (id : Nat) (key : CfsBufferKey) (loaded : Bool) : PcaPageBuffCtx :=
  ctx.setCtrl id fun item =>
    { item with pcaKey := key, loadStatus := if loaded then .loaded else .loadedError }

/-- A lookup found the control block: load the page if it is not there, and count the user. -/
def useFound (ctx : PcaPageBuffCtx) (id : Nat) (key : CfsBufferKey) (mode : PcaBufferReadMode)
    (loaded : Bool) (touch : Nat) : PcaPageBuffCtx :=
  let ctx :=
    if (ctx.ctrl id).loadStatus ≠ .loaded ∧ mode = .normalRead then ctx.loadPage id key loaded else ctx
  ctx.setCtrl id fun item => { item with refNum := item.refNum + 1, touchNr := item.touchNr + touch }

/-- The second lookup failed: the control block in hand becomes the one of the extent. Without a read
nothing sets its key. -/
def linkItem (ctx : PcaPageBuffCtx) (bucket id : Nat) (key : CfsBufferKey) (mode : PcaBufferReadMode)
    (loaded : Bool) : PcaPageBuffCtx :=
  let ctx := ctx.setCtrl id fun item =>
    { item with refNum := 1, touchNr := pcaBufTchAge, loadStatus := .noLoad }
  let ctx := if mode = .normalRead then ctx.loadPage id key loaded else ctx
  ctx.addIntoBucket bucket id

/-- `pca_buf_free_page`. A write that fails ends in an error after the page was given up. -/
def freePage (ctx : PcaPageBuffCtx) (id : Nat) (needWrite written : Bool) : PcaPageBuffCtx :=
  ctx.setCtrl id fun item =>
    { item with
      refNum := item.refNum - 1
      loadStatus := if needWrite then (if written then .loaded else .loadedError) else item.loadStatus }

/-- `pca_buf_init_ctx`: every control block goes to the free list of its number. -/
def init (maxCount : Nat) : PcaPageBuffCtx :=
  (List.range maxCount).foldl (fun ctx index => ctx.lruPush .free ((index + 1) % pcaPartListNum) (index + 1))
    { maxCount }

variable {ctx : PcaPageBuffCtx} {kind : LruKind} {part id bucket other : Nat}

theorem setCtrl_ctrl (ctx : PcaPageBuffCtx) (id other : Nat) (change : PageCtrl → PageCtrl) :
    (ctx.setCtrl id change).ctrl other = if other = id then change (ctx.ctrl id) else ctx.ctrl other := by
  simp only [setCtrl, Function.update_apply]

variable (kind' : LruKind) (part' : Nat) (list : PcaLruList) (value : PcaHashBucket)
  (change : PageCtrl → PageCtrl)

@[simp] theorem setCtrl_bucket :
    (ctx.setCtrl id change).bucket = ctx.bucket := rfl

@[simp] theorem setCtrl_lru : (ctx.setCtrl id change).lru = ctx.lru := rfl

@[simp] theorem setCtrl_maxCount :
    (ctx.setCtrl id change).maxCount = ctx.maxCount := rfl

theorem setLru_lru (ctx : PcaPageBuffCtx) (list : PcaLruList) (kind' : LruKind) (part' : Nat) :
    (ctx.setLru kind part list).lru kind' part' =
      if kind' = kind ∧ part' = part then list else ctx.lru kind' part' := by
  by_cases sameKind : kind' = kind
  · subst sameKind
    simp [setLru, Function.update_apply]
  · simp [setLru, sameKind]

@[simp] theorem setLru_ctrl : (ctx.setLru kind part list).ctrl = ctx.ctrl := rfl

@[simp] theorem setLru_bucket : (ctx.setLru kind part list).bucket = ctx.bucket := rfl

@[simp] theorem setLru_maxCount :
    (ctx.setLru kind part list).maxCount = ctx.maxCount := rfl

theorem setBucket_bucket (ctx : PcaPageBuffCtx) (value : PcaHashBucket) (id other : Nat) :
    (ctx.setBucket id value).bucket other = if other = id then value else ctx.bucket other := by
  simp only [setBucket, Function.update_apply]

@[simp] theorem setBucket_ctrl : (ctx.setBucket id value).ctrl = ctx.ctrl := rfl

@[simp] theorem setBucket_lru : (ctx.setBucket id value).lru = ctx.lru := rfl

@[simp] theorem setBucket_maxCount :
    (ctx.setBucket id value).maxCount = ctx.maxCount := rfl

theorem lruPush_ctrl (apart : (ctx.lru kind part).first ≠ id) : (ctx.lruPush kind part id).ctrl other =
      if other = id then
        { ctx.ctrl id with
          lruNext := if (ctx.lru kind part).count = 0 then 0 else (ctx.lru kind part).first
          lruPrev := 0
          state := kind.state }
      else if (ctx.lru kind part).count ≠ 0 ∧ other = (ctx.lru kind part).first then
        { ctx.ctrl other with lruPrev := id }
      else ctx.ctrl other := by
  unfold lruPush
  by_cases empty : (ctx.lru kind part).count = 0
  · simp only [empty, setLru_ctrl, setCtrl_ctrl, if_true, ne_eq, not_true_eq_false, false_and, if_false]
  · by_cases self : other = id
    · subst self
      simp only [empty, setLru_ctrl, setCtrl_ctrl, if_false, if_true, apart.symm]
    · by_cases head : other = (ctx.lru kind part).first
      · subst head
        simp [empty, setCtrl_ctrl, self]
      · simp [empty, setCtrl_ctrl, self, head]

theorem lruPush_lru : (ctx.lruPush kind part id).lru kind' part' =
      if kind' = kind ∧ part' = part then
        { first := id
          last := if (ctx.lru kind part).count = 0 then id else (ctx.lru kind part).last
          count := (ctx.lru kind part).count + 1 }
      else ctx.lru kind' part' := by
  unfold lruPush
  by_cases empty : (ctx.lru kind part).count = 0 <;> simp [empty, setLru_lru]

@[simp] theorem lruPush_bucket : (ctx.lruPush kind part id).bucket = ctx.bucket := by
  unfold lruPush
  dsimp only
  split_ifs <;> rfl

@[simp] theorem lruPush_maxCount : (ctx.lruPush kind part id).maxCount = ctx.maxCount := by
  unfold lruPush
  dsimp only
  split_ifs <;> rfl

theorem lruRemove_ctrl (before : (ctx.ctrl id).lruPrev ≠ id) (after : (ctx.ctrl id).lruNext ≠ id) :
    (ctx.lruRemove kind part id).ctrl other =
      if other = id then { ctx.ctrl id with lruPrev := 0, lruNext := 0, state := .isolation }
      else
        { ctx.ctrl other with
          lruNext := if (ctx.ctrl id).lruPrev ≠ 0 ∧ other = (ctx.ctrl id).lruPrev then (ctx.ctrl id).lruNext
            else (ctx.ctrl other).lruNext
          lruPrev := if (ctx.ctrl id).lruNext ≠ 0 ∧ other = (ctx.ctrl id).lruNext then (ctx.ctrl id).lruPrev
            else (ctx.ctrl other).lruPrev } := by
  unfold lruRemove
  by_cases front : (ctx.ctrl id).lruPrev = 0 <;> by_cases back : (ctx.ctrl id).lruNext = 0 <;>
    simp only [front, back, ne_eq, not_true_eq_false, not_false_eq_true, if_true, if_false, true_and,
      false_and, setLru_ctrl, setCtrl_ctrl, before.symm, after.symm] <;>
    split_ifs <;> simp_all

theorem lruRemove_lru : (ctx.lruRemove kind part id).lru kind' part' =
      if kind' = kind ∧ part' = part then
        { first := if (ctx.ctrl id).lruPrev ≠ 0 then (ctx.lru kind part).first else (ctx.ctrl id).lruNext
          last := if (ctx.ctrl id).lruNext ≠ 0 then (ctx.lru kind part).last else (ctx.ctrl id).lruPrev
          count := (ctx.lru kind part).count - 1 }
      else ctx.lru kind' part' := by
  unfold lruRemove
  by_cases front : (ctx.ctrl id).lruPrev = 0 <;> by_cases back : (ctx.ctrl id).lruNext = 0 <;>
    simp [front, back, setLru_lru]

@[simp] theorem lruRemove_bucket : (ctx.lruRemove kind part id).bucket = ctx.bucket := by
  unfold lruRemove
  dsimp only
  split_ifs <;> rfl

@[simp] theorem lruRemove_maxCount : (ctx.lruRemove kind part id).maxCount = ctx.maxCount := by
  unfold lruRemove
  dsimp only
  split_ifs <;> rfl

theorem addIntoBucket_ctrl (apart : (ctx.bucket bucket).firstCtrlId ≠ id) :
    (ctx.addIntoBucket bucket id).ctrl other = if other = id then
        { ctx.ctrl id with
          bckId := bucket
          bckPrev := 0
          bckNext := if (ctx.bucket bucket).ctrlCount = 0 then 0 else (ctx.bucket bucket).firstCtrlId }
      else if (ctx.bucket bucket).ctrlCount ≠ 0 ∧ other = (ctx.bucket bucket).firstCtrlId then
        { ctx.ctrl other with bckPrev := id }
      else ctx.ctrl other := by
  unfold addIntoBucket
  by_cases empty : (ctx.bucket bucket).ctrlCount = 0
  · simp only [empty, setBucket_ctrl, setCtrl_ctrl, if_true, ne_eq, not_true_eq_false, false_and, if_false]
  · by_cases self : other = id
    · subst self
      simp only [empty, setBucket_ctrl, setCtrl_ctrl, if_false, if_true, apart.symm]
    · by_cases head : other = (ctx.bucket bucket).firstCtrlId
      · subst head
        simp [empty, setCtrl_ctrl, self]
      · simp [empty, setCtrl_ctrl, self, head]

theorem addIntoBucket_bucket : (ctx.addIntoBucket bucket id).bucket other =
      if other = bucket then { firstCtrlId := id, ctrlCount := (ctx.bucket bucket).ctrlCount + 1 }
      else ctx.bucket other := by
  unfold addIntoBucket
  by_cases empty : (ctx.bucket bucket).ctrlCount = 0 <;> simp [empty, setBucket_bucket]

@[simp] theorem addIntoBucket_lru : (ctx.addIntoBucket bucket id).lru = ctx.lru := by
  unfold addIntoBucket
  dsimp only
  split_ifs <;> rfl

@[simp] theorem addIntoBucket_maxCount : (ctx.addIntoBucket bucket id).maxCount = ctx.maxCount := by
  unfold addIntoBucket
  dsimp only
  split_ifs <;> rfl

theorem removeFromBucket_ctrl (before : (ctx.ctrl id).bckPrev ≠ id) (after : (ctx.ctrl id).bckNext ≠ id) :
    (ctx.removeFromBucket bucket id).ctrl other =
      if other = id then { ctx.ctrl id with bckPrev := 0, bckNext := 0, bckId := 0, pcaKey := {} }
      else
        { ctx.ctrl other with
          bckNext := if (ctx.ctrl id).bckPrev ≠ 0 ∧ other = (ctx.ctrl id).bckPrev then (ctx.ctrl id).bckNext
            else (ctx.ctrl other).bckNext
          bckPrev := if (ctx.ctrl id).bckNext ≠ 0 ∧ other = (ctx.ctrl id).bckNext then (ctx.ctrl id).bckPrev
            else (ctx.ctrl other).bckPrev } := by
  unfold removeFromBucket
  by_cases front : (ctx.ctrl id).bckPrev = 0 <;> by_cases back : (ctx.ctrl id).bckNext = 0 <;>
    simp only [front, back, ne_eq, not_true_eq_false, not_false_eq_true, if_true, if_false, true_and,
      false_and, setBucket_ctrl, setCtrl_ctrl, before.symm, after.symm] <;>
    split_ifs <;> simp_all

theorem removeFromBucket_bucket : (ctx.removeFromBucket bucket id).bucket other = if other = bucket then
        { firstCtrlId := if (ctx.ctrl id).bckPrev ≠ 0 then (ctx.bucket bucket).firstCtrlId
            else (ctx.ctrl id).bckNext
          ctrlCount := (ctx.bucket bucket).ctrlCount - 1 }
      else ctx.bucket other := by
  unfold removeFromBucket
  by_cases front : (ctx.ctrl id).bckPrev = 0 <;> by_cases back : (ctx.ctrl id).bckNext = 0 <;>
    by_cases here : other = bucket <;> simp [front, back, here, setBucket_bucket]

@[simp] theorem removeFromBucket_lru : (ctx.removeFromBucket bucket id).lru = ctx.lru := by
  unfold removeFromBucket
  dsimp only
  split_ifs <;> rfl

@[simp] theorem removeFromBucket_maxCount : (ctx.removeFromBucket bucket id).maxCount = ctx.maxCount := by
  unfold removeFromBucket
  dsimp only
  split_ifs <;> rfl

end PcaPageBuffCtx

end OpenGauss.Cfs
