import OpenGauss.Cfs.PcaBuffer

/-! Which control blocks a list or a chain holds is said by the control blocks themselves. -/

namespace OpenGauss.Cfs

open Lib

theorem LruKind.state_injective {first second : LruKind} (same : first.state = second.state) :
    first = second := by
  cases first <;> cases second <;> simp_all [LruKind.state]

theorem LruKind.state_ne_isolation (kind : LruKind) : kind.state ≠ .isolation := by
  cases kind <;> simp [LruKind.state]

namespace PcaPageBuffCtx

variable {ctx after : PcaPageBuffCtx} {kind : LruKind} {part id bucket other : Nat} {ids : List Nat}

/-- The numbers of the control blocks. -/
def IsCtrl (ctx : PcaPageBuffCtx) (id : Nat) : Prop := 1 ≤ id ∧ id ≤ ctx.maxCount

structure LruHeld (ctx : PcaPageBuffCtx) (kind : LruKind) (part : Nat) (ids : List Nat) : Prop where
  linked : Linked (fun id => (ctx.ctrl id).lruNext) (fun id => (ctx.ctrl id).lruPrev) 0
    (ctx.lru kind part).first ids (ctx.lru kind part).last 0
  count : (ctx.lru kind part).count = ids.length
  nodup : ids.Nodup
  mem : ∀ id, id ∈ ids ↔ ctx.IsCtrl id ∧ (ctx.ctrl id).state = kind.state ∧ id % pcaPartListNum = part

structure ChainHeld (ctx : PcaPageBuffCtx) (bucket : Nat) (ids : List Nat) : Prop where
  linked : ∃ last, Linked (fun id => (ctx.ctrl id).bckNext) (fun id => (ctx.ctrl id).bckPrev) 0
    (ctx.bucket bucket).firstCtrlId ids last 0
  count : (ctx.bucket bucket).ctrlCount = ids.length
  nodup : ids.Nodup
  mem : ∀ id, id ∈ ids ↔ ctx.IsCtrl id ∧ (ctx.ctrl id).bckId = bucket ∧ bucket ≠ 0

/-- Every list and every chain is well linked and holds exactly the control blocks that say so. -/
structure Held (ctx : PcaPageBuffCtx) : Prop where
  lru : ∀ kind part, ∃ ids, ctx.LruHeld kind part ids
  chain : ∀ bucket, ∃ ids, ctx.ChainHeld bucket ids

theorem IsCtrl.ne_zero (valid : ctx.IsCtrl id) : id ≠ 0 := by
  obtain ⟨positive, -⟩ := valid
  omega

theorem LruHeld.zero_notMem (held : ctx.LruHeld kind part ids) : 0 ∉ ids :=
  fun inside => ((held.mem 0).mp inside).1.ne_zero rfl

theorem ChainHeld.zero_notMem (held : ctx.ChainHeld bucket ids) : 0 ∉ ids :=
  fun inside => ((held.mem 0).mp inside).1.ne_zero rfl

theorem LruHeld.congr (held : ctx.LruHeld kind part ids)
    (sameList : after.lru kind part = ctx.lru kind part)
    (sameMax : after.maxCount = ctx.maxCount)
    (sameState : ∀ id, (after.ctrl id).state = kind.state ∧ id % pcaPartListNum = part ↔
      (ctx.ctrl id).state = kind.state ∧ id % pcaPartListNum = part)
    (sameNext : ∀ id ∈ ids, (after.ctrl id).lruNext = (ctx.ctrl id).lruNext)
    (samePrev : ∀ id ∈ ids, (after.ctrl id).lruPrev = (ctx.ctrl id).lruPrev) :
    after.LruHeld kind part ids where
  linked := by
    rw [sameList]
    exact held.linked.congr sameNext samePrev
  count := by rw [sameList, held.count]
  nodup := held.nodup
  mem := by
    intro id
    rw [held.mem id, sameState id, IsCtrl, IsCtrl, sameMax]

theorem ChainHeld.congr (held : ctx.ChainHeld bucket ids)
    (sameBucket : after.bucket bucket = ctx.bucket bucket)
    (sameMax : after.maxCount = ctx.maxCount)
    (sameId : ∀ id, (after.ctrl id).bckId = bucket ∧ bucket ≠ 0 ↔
      (ctx.ctrl id).bckId = bucket ∧ bucket ≠ 0)
    (sameNext : ∀ id ∈ ids, (after.ctrl id).bckNext = (ctx.ctrl id).bckNext)
    (samePrev : ∀ id ∈ ids, (after.ctrl id).bckPrev = (ctx.ctrl id).bckPrev) :
    after.ChainHeld bucket ids where
  linked := by
    obtain ⟨last, linked⟩ := held.linked
    rw [sameBucket]
    exact ⟨last, linked.congr sameNext samePrev⟩
  count := by rw [sameBucket, held.count]
  nodup := held.nodup
  mem := by
    intro id
    rw [held.mem id, sameId id, IsCtrl, IsCtrl, sameMax]

/-- The fields of a control block that the lists and chains depend on. -/
def SameLinks (first second : PageCtrl) : Prop :=
  first.state = second.state ∧ first.lruPrev = second.lruPrev ∧ first.lruNext = second.lruNext ∧
    first.bckPrev = second.bckPrev ∧ first.bckNext = second.bckNext ∧ first.bckId = second.bckId

theorem Held.congr (held : ctx.Held) (sameLru : after.lru = ctx.lru)
    (sameBucket : after.bucket = ctx.bucket) (sameMax : after.maxCount = ctx.maxCount)
    (same : ∀ id, SameLinks (after.ctrl id) (ctx.ctrl id)) : after.Held where
  lru kind part := by
    obtain ⟨ids, list⟩ := held.lru kind part
    refine ⟨ids, list.congr (by rw [sameLru]) sameMax ?_ ?_ ?_⟩
    · intro id
      rw [(same id).1]
    · exact fun id _ => (same id).2.2.1
    · exact fun id _ => (same id).2.1
  chain bucket := by
    obtain ⟨ids, chain⟩ := held.chain bucket
    refine ⟨ids, chain.congr (by rw [sameBucket]) sameMax ?_ ?_ ?_⟩
    · intro id
      rw [(same id).2.2.2.2.2]
    · exact fun id _ => (same id).2.2.2.2.1
    · exact fun id _ => (same id).2.2.2.1

/-- Assignments to the other fields of a control block. -/
theorem Held.setCtrl (held : ctx.Held) (id : Nat) {change : PageCtrl → PageCtrl}
    (same : ∀ item, SameLinks (change item) item) : (ctx.setCtrl id change).Held := by
  refine held.congr rfl rfl rfl ?_
  intro other
  rw [setCtrl_ctrl]
  split_ifs with here
  · subst here
    exact same _
  · exact ⟨rfl, rfl, rfl, rfl, rfl, rfl⟩

theorem LruHeld.first_ne (held : ctx.LruHeld kind part ids) (valid : ctx.IsCtrl id)
    (outside : id ∉ ids) : (ctx.lru kind part).first ≠ id := by
  rintro rfl
  cases ids with
  | nil => exact valid.ne_zero held.linked.1
  | cons head rest => exact outside (by simp [held.linked.1])

theorem LruHeld.push (held : ctx.LruHeld kind part ids) (valid : ctx.IsCtrl id)
    (isolated : (ctx.ctrl id).state = .isolation) (home : id % pcaPartListNum = part) :
    (ctx.lruPush kind part id).LruHeld kind part (id :: ids) := by
  have outside : id ∉ ids := by
    intro inside
    exact kind.state_ne_isolation (((held.mem id).mp inside).2.1 ▸ isolated)
  have apart := held.first_ne valid outside
  have empty_iff : (ctx.lru kind part).count = 0 ↔ ids = [] := by rw [held.count, List.length_eq_zero_iff]
  have others : ∀ other ∈ ids, other ≠ id := fun other inside same => outside (same ▸ inside)
  refine ⟨?_, ?_, List.nodup_cons.mpr ⟨outside, held.nodup⟩, ?_⟩
  · rw [lruPush_lru, if_pos ⟨rfl, rfl⟩]
    simp only [empty_iff]
    apply held.linked.push held.nodup held.zero_notMem
    · intro other inside
      simp only [lruPush_ctrl apart, if_neg (others other inside)]
      split_ifs <;> rfl
    · intro other inside
      have nonempty : ids ≠ [] := List.ne_nil_of_mem inside
      simp only [lruPush_ctrl apart, if_neg (others other inside), ne_eq, empty_iff, nonempty,
        not_false_eq_true, true_and]
      split_ifs <;> rfl
    · simp only [lruPush_ctrl apart, if_true]
      split_ifs with absent
      · rw [empty_iff] at absent
        subst absent
        exact held.linked.1.symm
      · rfl
    · simp only [lruPush_ctrl apart, if_true]
  · rw [lruPush_lru, if_pos ⟨rfl, rfl⟩]
    simp [held.count]
  · intro other
    rw [List.mem_cons, held.mem other, IsCtrl, IsCtrl, lruPush_maxCount, lruPush_ctrl apart]
    by_cases self : other = id
    · subst self
      simp only [true_or, if_true, true_iff]
      exact ⟨valid, trivial, home⟩
    · simp only [self, false_or, if_false]
      split_ifs <;> rfl

theorem LruHeld.remove (held : ctx.LruHeld kind part ids) (inside : id ∈ ids) :
    (ctx.lruRemove kind part id).LruHeld kind part (ids.erase id) := by
  obtain ⟨nextApart, prevApart⟩ := held.linked.links_apart held.nodup held.zero_notMem inside
  refine ⟨?_, ?_, held.nodup.erase id, ?_⟩
  · rw [lruRemove_lru, if_pos ⟨rfl, rfl⟩]
    apply held.linked.unlink held.nodup held.zero_notMem inside
    all_goals
      intro other within others
      simp only [lruRemove_ctrl prevApart nextApart, if_neg others]
  · rw [lruRemove_lru, if_pos ⟨rfl, rfl⟩]
    simp [held.count, List.length_erase_of_mem inside]
  · intro other
    rw [held.nodup.mem_erase_iff, held.mem other, IsCtrl, IsCtrl, lruRemove_maxCount,
      lruRemove_ctrl prevApart nextApart]
    by_cases self : other = id
    · simp [self, kind.state_ne_isolation.symm]
    · simp [self]

theorem ChainHeld.first_ne (held : ctx.ChainHeld bucket ids) (valid : ctx.IsCtrl id)
    (outside : id ∉ ids) : (ctx.bucket bucket).firstCtrlId ≠ id := by
  obtain ⟨last, linked⟩ := held.linked
  rintro rfl
  cases ids with
  | nil => exact valid.ne_zero linked.1
  | cons head rest => exact outside (by simp [linked.1])

theorem ChainHeld.add (held : ctx.ChainHeld bucket ids) (valid : ctx.IsCtrl id)
    (unlinked : (ctx.ctrl id).bckId = 0) (real : bucket ≠ 0) :
    (ctx.addIntoBucket bucket id).ChainHeld bucket (id :: ids) := by
  obtain ⟨last, linked⟩ := held.linked
  have outside : id ∉ ids := by
    intro inside
    exact real (((held.mem id).mp inside).2.1 ▸ unlinked)
  have apart := held.first_ne valid outside
  have empty_iff : (ctx.bucket bucket).ctrlCount = 0 ↔ ids = [] := by
    rw [held.count, List.length_eq_zero_iff]
  have others : ∀ other ∈ ids, other ≠ id := fun other inside same => outside (same ▸ inside)
  refine ⟨⟨if ids = [] then id else last, ?_⟩, ?_, List.nodup_cons.mpr ⟨outside, held.nodup⟩, ?_⟩
  · rw [addIntoBucket_bucket, if_pos rfl]
    apply linked.push held.nodup held.zero_notMem
    · intro other inside
      simp only [addIntoBucket_ctrl apart, if_neg (others other inside)]
      split_ifs <;> rfl
    · intro other inside
      have nonempty : ids ≠ [] := List.ne_nil_of_mem inside
      simp only [addIntoBucket_ctrl apart, if_neg (others other inside), ne_eq, empty_iff, nonempty,
        not_false_eq_true, true_and]
      split_ifs <;> rfl
    · simp only [addIntoBucket_ctrl apart, if_true]
      split_ifs with absent
      · rw [empty_iff] at absent
        subst absent
        exact linked.1.symm
      · rfl
    · simp only [addIntoBucket_ctrl apart, if_true]
  · rw [addIntoBucket_bucket, if_pos rfl]
    simp [held.count]
  · intro other
    rw [List.mem_cons, held.mem other, IsCtrl, IsCtrl, addIntoBucket_maxCount, addIntoBucket_ctrl apart]
    by_cases self : other = id
    · subst self
      simp only [true_or, if_true, true_iff]
      exact ⟨valid, trivial, real⟩
    · simp only [self, false_or, if_false]
      split_ifs <;> rfl

theorem ChainHeld.remove (held : ctx.ChainHeld bucket ids) (inside : id ∈ ids) :
    (ctx.removeFromBucket bucket id).ChainHeld bucket (ids.erase id) := by
  have real : bucket ≠ 0 := ((held.mem id).mp inside).2.2
  obtain ⟨last, linked⟩ := held.linked
  obtain ⟨nextApart, prevApart⟩ := linked.links_apart held.nodup held.zero_notMem inside
  refine ⟨⟨if (ctx.ctrl id).bckNext ≠ 0 then last else (ctx.ctrl id).bckPrev, ?_⟩, ?_,
    held.nodup.erase id, ?_⟩
  · rw [removeFromBucket_bucket, if_pos rfl]
    apply linked.unlink held.nodup held.zero_notMem inside
    all_goals
      intro other within others
      simp only [removeFromBucket_ctrl prevApart nextApart, if_neg others]
  · rw [removeFromBucket_bucket, if_pos rfl]
    simp [held.count, List.length_erase_of_mem inside]
  · intro other
    rw [held.nodup.mem_erase_iff, held.mem other, IsCtrl, IsCtrl, removeFromBucket_maxCount,
      removeFromBucket_ctrl prevApart nextApart]
    by_cases self : other = id
    · simp [self, real.symm]
    · simp [self]

end PcaPageBuffCtx

open Lib

namespace PcaPageBuffCtx

variable {ctx : PcaPageBuffCtx} {kind : LruKind} {part id bucket other : Nat}

section

variable (held : ctx.Held) (valid : ctx.IsCtrl id)

include held valid

theorem Held.links_apart (state : (ctx.ctrl id).state = kind.state) :
    (ctx.ctrl id).lruNext ≠ id ∧ (ctx.ctrl id).lruPrev ≠ id := by
  obtain ⟨ids, list⟩ := held.lru kind (id % pcaPartListNum)
  exact list.linked.links_apart list.nodup list.zero_notMem ((list.mem id).mpr ⟨valid, state, rfl⟩)

theorem Held.chain_apart (linked : (ctx.ctrl id).bckId ≠ 0) :
    (ctx.ctrl id).bckNext ≠ id ∧ (ctx.ctrl id).bckPrev ≠ id := by
  obtain ⟨ids, chain⟩ := held.chain (ctx.ctrl id).bckId
  obtain ⟨last, link⟩ := chain.linked
  exact link.links_apart chain.nodup chain.zero_notMem ((chain.mem id).mpr ⟨valid, rfl, linked⟩)

theorem Held.first_ne (isolated : (ctx.ctrl id).state = .isolation) (kind : LruKind) (part : Nat) :
    (ctx.lru kind part).first ≠ id := by
  obtain ⟨ids, list⟩ := held.lru kind part
  refine list.first_ne valid fun inside => ?_
  exact kind.state_ne_isolation (((list.mem id).mp inside).2.1 ▸ isolated)

theorem Held.firstCtrlId_ne (unlinked : (ctx.ctrl id).bckId = 0)
    (real : bucket ≠ 0) : (ctx.bucket bucket).firstCtrlId ≠ id := by
  obtain ⟨ids, chain⟩ := held.chain bucket
  refine chain.first_ne valid fun inside => ?_
  exact real (((chain.mem id).mp inside).2.1 ▸ unlinked)

theorem Held.lruPush (isolated : (ctx.ctrl id).state = .isolation) (kind : LruKind) :
    (ctx.lruPush kind (id % pcaPartListNum) id).Held where
  lru kind' part' := by
    have apart := held.first_ne valid isolated kind (id % pcaPartListNum)
    obtain ⟨ids, list⟩ := held.lru kind' part'
    by_cases here : kind' = kind ∧ part' = id % pcaPartListNum
    · obtain ⟨rfl, rfl⟩ := here
      exact ⟨id :: ids, list.push valid isolated rfl⟩
    · refine ⟨ids, list.congr (by rw [lruPush_lru, if_neg here]) (by simp) ?_ ?_ ?_⟩
      · intro other
        rw [lruPush_ctrl apart]
        by_cases self : other = id
        · subst self
          simp only [if_true, isolated, kind'.state_ne_isolation.symm, false_and, iff_false, not_and]
          intro state home
          exact here ⟨LruKind.state_injective state.symm, home.symm⟩
        · rw [if_neg self]
          split_ifs <;> rfl
      · intro other inside
        have self : other ≠ id := by
          rintro rfl
          exact kind'.state_ne_isolation (((list.mem other).mp inside).2.1 ▸ isolated)
        rw [lruPush_ctrl apart, if_neg self]
        split_ifs <;> rfl
      · intro other inside
        obtain ⟨-, state, home⟩ := (list.mem other).mp inside
        have self : other ≠ id := by
          rintro rfl
          exact kind'.state_ne_isolation (state ▸ isolated)
        rw [lruPush_ctrl apart, if_neg self, if_neg]
        rintro ⟨nonempty, rfl⟩
        obtain ⟨pushed, target⟩ := held.lru kind (id % pcaPartListNum)
        have within : (ctx.lru kind (id % pcaPartListNum)).first ∈ pushed :=
          target.linked.first_mem (by
            rintro rfl
            exact nonempty target.count)
        obtain ⟨-, state', home'⟩ := (target.mem _).mp within
        exact here ⟨LruKind.state_injective (state.symm.trans state'), home.symm.trans home'⟩
  chain bucket := by
    have apart := held.first_ne valid isolated kind (id % pcaPartListNum)
    obtain ⟨ids, chain⟩ := held.chain bucket
    refine ⟨ids, chain.congr (by simp) (by simp) ?_ ?_ ?_⟩
    all_goals
      intro other
      rw [lruPush_ctrl apart]
      split_ifs with self
      all_goals first | (subst self; simp) | simp

theorem Held.lruRemove (state : (ctx.ctrl id).state = kind.state) :
    (ctx.lruRemove kind (id % pcaPartListNum) id).Held where
  lru kind' part' := by
    obtain ⟨nextApart, prevApart⟩ := held.links_apart valid state
    obtain ⟨own, target⟩ := held.lru kind (id % pcaPartListNum)
    have inside : id ∈ own := (target.mem id).mpr ⟨valid, state, rfl⟩
    obtain ⟨ids, list⟩ := held.lru kind' part'
    by_cases here : kind' = kind ∧ part' = id % pcaPartListNum
    · obtain ⟨rfl, rfl⟩ := here
      exact ⟨own.erase id, target.remove inside⟩
    · have foreign : ∀ other ∈ ids, other ∉ own := by
        intro other within owned
        obtain ⟨-, state', home⟩ := (list.mem other).mp within
        obtain ⟨-, state'', home'⟩ := (target.mem other).mp owned
        exact here ⟨LruKind.state_injective (state'.symm.trans state''), home.symm.trans home'⟩
      obtain ⟨nextOwn, prevOwn⟩ := target.linked.links_mem inside
      refine ⟨ids, list.congr (by rw [lruRemove_lru, if_neg here]) (by simp) ?_ ?_ ?_⟩
      · intro other
        rw [lruRemove_ctrl prevApart nextApart]
        by_cases self : other = id
        · subst self
          simp only [if_true, state, kind'.state_ne_isolation.symm, false_and, false_iff, not_and]
          intro same home
          exact here ⟨LruKind.state_injective same.symm, home.symm⟩
        · rw [if_neg self]
      all_goals
        intro other within
        have self : other ≠ id := fun same => foreign other within (same ▸ inside)
        rw [lruRemove_ctrl prevApart nextApart, if_neg self]
        refine if_neg ?_
        rintro ⟨real, rfl⟩
      · exact foreign _ within (prevOwn real)
      · exact foreign _ within (nextOwn real)
  chain bucket := by
    obtain ⟨nextApart, prevApart⟩ := held.links_apart valid state
    obtain ⟨ids, chain⟩ := held.chain bucket
    refine ⟨ids, chain.congr (by simp) (by simp) ?_ ?_ ?_⟩
    all_goals
      intro other
      rw [lruRemove_ctrl prevApart nextApart]
      split_ifs with self
      all_goals first | (subst self; simp) | simp

theorem Held.addIntoBucket (unlinked : (ctx.ctrl id).bckId = 0)
    (real : bucket ≠ 0) : (ctx.addIntoBucket bucket id).Held := by
  have apart := held.firstCtrlId_ne valid unlinked real
  obtain ⟨own, target⟩ := held.chain bucket
  refine ⟨fun kind part => ?_, fun bucket' => ?_⟩
  · obtain ⟨ids, list⟩ := held.lru kind part
    refine ⟨ids, list.congr (by simp) (by simp) ?_ ?_ ?_⟩
    all_goals
      intro other
      rw [addIntoBucket_ctrl apart]
      split_ifs with self
      all_goals first | (subst self; simp) | simp
  · obtain ⟨ids, chain⟩ := held.chain bucket'
    by_cases here : bucket' = bucket
    · subst here
      exact ⟨id :: ids, chain.add valid unlinked real⟩
    · refine ⟨ids, chain.congr (by rw [addIntoBucket_bucket, if_neg here]) (by simp) ?_ ?_ ?_⟩
      · intro other
        rw [addIntoBucket_ctrl apart]
        by_cases self : other = id
        · subst self
          simp only [if_true, unlinked]
          constructor
          · rintro ⟨rfl, -⟩
            exact absurd rfl here
          · rintro ⟨rfl, zero⟩
            exact absurd rfl zero
        · rw [if_neg self]
          split_ifs <;> rfl
      · intro other inside
        have self : other ≠ id := by
          rintro rfl
          obtain ⟨-, rfl, zero⟩ := (chain.mem other).mp inside
          exact zero unlinked
        rw [addIntoBucket_ctrl apart, if_neg self]
        split_ifs <;> rfl
      · intro other inside
        obtain ⟨-, home, zero⟩ := (chain.mem other).mp inside
        have self : other ≠ id := by
          rintro rfl
          exact zero (home.symm.trans unlinked)
        rw [addIntoBucket_ctrl apart, if_neg self, if_neg]
        rintro ⟨nonempty, rfl⟩
        obtain ⟨last, linked⟩ := target.linked
        have within := linked.first_mem (by
          rintro rfl
          exact nonempty target.count)
        exact here (home.symm.trans ((target.mem _).mp within).2.1)

theorem Held.removeFromBucket (linked : (ctx.ctrl id).bckId ≠ 0) :
    (ctx.removeFromBucket (ctx.ctrl id).bckId id).Held := by
  obtain ⟨nextApart, prevApart⟩ := held.chain_apart valid linked
  obtain ⟨own, target⟩ := held.chain (ctx.ctrl id).bckId
  have inside : id ∈ own := (target.mem id).mpr ⟨valid, rfl, linked⟩
  refine ⟨fun kind part => ?_, fun bucket' => ?_⟩
  · obtain ⟨ids, list⟩ := held.lru kind part
    refine ⟨ids, list.congr (by simp) (by simp) ?_ ?_ ?_⟩
    all_goals
      intro other
      rw [removeFromBucket_ctrl prevApart nextApart]
      split_ifs with self
      all_goals first | (subst self; simp) | simp
  · obtain ⟨ids, chain⟩ := held.chain bucket'
    by_cases here : bucket' = (ctx.ctrl id).bckId
    · subst here
      exact ⟨own.erase id, target.remove inside⟩
    · have foreign : ∀ other ∈ ids, other ∉ own := by
        intro other within owned
        exact here (((chain.mem other).mp within).2.1.symm.trans ((target.mem other).mp owned).2.1)
      obtain ⟨last, ends⟩ := target.linked
      obtain ⟨nextOwn, prevOwn⟩ := ends.links_mem inside
      refine ⟨ids, chain.congr (by rw [removeFromBucket_bucket, if_neg here]) (by simp) ?_ ?_ ?_⟩
      · intro other
        rw [removeFromBucket_ctrl prevApart nextApart]
        by_cases self : other = id
        · subst self
          rw [if_pos rfl]
          constructor
          · rintro ⟨rfl, zero⟩
            exact absurd rfl zero
          · rintro ⟨rfl, -⟩
            exact absurd rfl here
        · rw [if_neg self]
      all_goals
        intro other within
        have self : other ≠ id := fun same => foreign other within (same ▸ inside)
        rw [removeFromBucket_ctrl prevApart nextApart, if_neg self]
        refine if_neg ?_
        rintro ⟨linked, rfl⟩
      · exact foreign _ within (prevOwn linked)
      · exact foreign _ within (nextOwn linked)

end

theorem fields_of_core {item target : PageCtrl} (same : item.core = target) :
    item.state = target.state ∧ item.bckId = target.bckId ∧ item.pcaKey = target.pcaKey ∧
      item.refNum = target.refNum := by
  subst same
  exact ⟨rfl, rfl, rfl, rfl⟩

section

variable (held : ctx.Held) (valid : ctx.IsCtrl id)

include held valid

/-- Pushing changes the state of the control block and nothing else but links. -/
theorem Held.lruPush_core (isolated : (ctx.ctrl id).state = .isolation) :
    ((ctx.lruPush kind part id).ctrl other).core =
      { (ctx.ctrl other).core with state := if other = id then kind.state else (ctx.ctrl other).state } := by
  rw [lruPush_ctrl (held.first_ne valid isolated kind part)]
  by_cases self : other = id
  · subst self
    simp [PageCtrl.core]
  · rw [if_neg self, if_neg self]
    split_ifs <;> rfl

theorem Held.lruRemove_core (state : (ctx.ctrl id).state = kind.state) :
    ((ctx.lruRemove kind part id).ctrl other).core =
      { (ctx.ctrl other).core with state := if other = id then .isolation else (ctx.ctrl other).state } := by
  obtain ⟨nextApart, prevApart⟩ := held.links_apart valid state
  rw [lruRemove_ctrl prevApart nextApart]
  by_cases self : other = id
  · subst self
    simp [PageCtrl.core]
  · rw [if_neg self, if_neg self]
    rfl

theorem Held.addIntoBucket_core (unlinked : (ctx.ctrl id).bckId = 0) (real : bucket ≠ 0) :
    ((ctx.addIntoBucket bucket id).ctrl other).core =
      { (ctx.ctrl other).core with bckId := if other = id then bucket else (ctx.ctrl other).bckId } := by
  rw [addIntoBucket_ctrl (held.firstCtrlId_ne valid unlinked real)]
  by_cases self : other = id
  · subst self
    simp [PageCtrl.core]
  · rw [if_neg self, if_neg self]
    split_ifs <;> rfl

theorem Held.removeFromBucket_core (linked : (ctx.ctrl id).bckId ≠ 0) :
    ((ctx.removeFromBucket bucket id).ctrl other).core =
      { (ctx.ctrl other).core with
        bckId := if other = id then 0 else (ctx.ctrl other).bckId
        pcaKey := if other = id then {} else (ctx.ctrl other).pcaKey } := by
  obtain ⟨nextApart, prevApart⟩ := held.chain_apart valid linked
  rw [removeFromBucket_ctrl prevApart nextApart]
  by_cases self : other = id
  · subst self
    simp [PageCtrl.core]
  · rw [if_neg self, if_neg self, if_neg self]
    rfl

end

end PcaPageBuffCtx

end OpenGauss.Cfs
