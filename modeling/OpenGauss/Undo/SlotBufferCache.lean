import OpenGauss.Lib.Linked
import OpenGauss.Lib.Run
import OpenGauss.Undo.MetaFile

/-! The cache of the buffers of transaction slots, `UndoSlotBufferCache` of `knl_uundotxn.cpp`.
Entries lie on a circular list; element 0 is the null pointer. -/

namespace OpenGauss.Undo

open Function (update update_apply update_of_ne update_self)

open Lib (Linked Ring)

def makeUndoPtrAlign (urp : Nat) : Nat := makeUndoPtr (urp >>> 44) (undoPtrGetOffset urp / blcksz * blcksz)

structure UndoSlotBuffer where
  blk : Nat
  buffer : Nat
  info : UInt8
deriving DecidableEq, Repr

def UndoSlotBuffer.init : UndoSlotBuffer := ⟨0xFFFFFFFF, 0, 0⟩

abbrev Element := Nat

structure SlotBufferCacheEntry where
  tag : Nat
  buf : UndoSlotBuffer
  hit : Bool
  prev : Element
  next : Element
deriving DecidableEq, Repr

abbrev Elements := Element → SlotBufferCacheEntry

namespace Elements

def setNext (elements : Elements) (entry next : Element) : Elements :=
  update elements entry { elements entry with next }

def setPrev (elements : Elements) (entry prev : Element) : Elements :=
  update elements entry { elements entry with prev }

def setHit (elements : Elements) (entry : Element) (hit : Bool) : Elements :=
  update elements entry { elements entry with hit }

/-- The neighbours of an entry are joined. -/
def unlink (elements : Elements) (prev next : Element) : Elements :=
  let elements := if prev ≠ 0 then elements.setNext prev next else elements
  if next ≠ 0 then elements.setPrev next prev else elements

end Elements

/-- An element keeps its data when it goes to the free list. Elements from `fresh` on have not been used
yet. -/
structure UndoSlotBufferCache where
  elements : Elements
  hashTable : Nat → Option Element
  freeList : List Element
  fresh : Element
  head : Element
  tail : Element
  victim : Element
  size : Int
  capacity : Int

namespace UndoSlotBufferCache

def create (capacity : Int) : UndoSlotBufferCache where
  elements := fun _ => ⟨0, .init, false, 0, 0⟩
  hashTable := fun _ => none
  freeList := []
  fresh := 1
  head := 0
  tail := 0
  victim := 0
  size := 0
  capacity := capacity

def removeEntry (cache : UndoSlotBufferCache) (ptr : Nat) (entry : Element) : UndoSlotBufferCache :=
  let prev := (cache.elements entry).prev
  let next := (cache.elements entry).next
  { cache with
    hashTable := update cache.hashTable ptr none
    freeList := entry :: cache.freeList
    head := if entry = cache.head then next else cache.head
    tail := if entry = cache.tail then prev else cache.tail
    elements := cache.elements.unlink prev next
    size := cache.size - 1 }

/-- `none` where the entry is not found, and the source goes on with a null pointer. -/
def removeSlotBuffer (cache : UndoSlotBufferCache) (slotPtr : Nat) : Option UndoSlotBufferCache :=
  let ptr := makeUndoPtrAlign slotPtr
  (cache.hashTable ptr).map (cache.removeEntry ptr)

/-- The loop of `VictimSlotBuffer`, which ends with the tag of an entry that was not hit, if there is
one. Every round but the last one takes a hit back, so there are not more rounds than elements. -/
def victimLoop (victim : Element) : Nat → Element → Elements → Option (Elements × Option Nat)
  | 0, _, _ => none
  | rounds + 1, entry, elements =>
    if entry = 0 then none
    else if (elements entry).hit then
      let cleared := elements.setHit entry false
      if (elements entry).next = victim then some (cleared, none)
      else victimLoop victim rounds (elements entry).next cleared
    else some (elements, some (elements entry).tag)

/-- The tag of the entry that has to go; `none` where a null pointer is followed. -/
def chooseVictim (cache : UndoSlotBufferCache) : Option (UndoSlotBufferCache × Nat) :=
  (victimLoop cache.victim (cache.fresh + 1) cache.victim cache.elements).bind fun (elements, found) =>
    match found with
    | some tag => some ({ cache with elements }, tag)
    | none => if cache.tail = 0 then none else some ({ cache with elements }, (elements cache.tail).tag)

def victimSlotBuffer (cache : UndoSlotBufferCache) : Option UndoSlotBufferCache :=
  cache.chooseVictim.bind fun (cleared, tag) => cleared.removeSlotBuffer tag

/-- `HASH_ENTER` of a key that the table does not have: the element freed last, or a new one. -/
def enter (cache : UndoSlotBufferCache) (ptr : Nat) : Element × UndoSlotBufferCache :=
  match cache.freeList with
  | entry :: freeList =>
    (entry, { cache with hashTable := update cache.hashTable ptr (some entry), freeList })
  | [] =>
    (cache.fresh, { cache with
      hashTable := update cache.hashTable ptr (some cache.fresh)
      fresh := cache.fresh + 1 })

/-- `none` where the source raises an error: head and tail must be both empty or both not empty. -/
def insertSlotBuffer (cache : UndoSlotBufferCache) (ptr : Nat) : Option (Element × UndoSlotBufferCache) :=
  let (entry, cache) := cache.enter ptr
  let elements := update cache.elements entry
    { tag := ptr, buf := .init, hit := false, prev := cache.tail, next := cache.head }
  if cache.head = 0 ∧ cache.tail ≠ 0 ∨ cache.head ≠ 0 ∧ cache.tail = 0 then none
  else if cache.head = 0 ∧ cache.tail = 0 then
    some (entry, { cache with
      elements
      head := entry
      tail := entry
      victim := entry
      size := cache.size + 1 })
  else
    some (entry, { cache with
      elements := Elements.setNext (Elements.setPrev elements cache.head entry) cache.tail entry
      head := entry
      size := cache.size + 1 })

/-- The entry whose buffer is returned. -/
def fetchTransactionBuffer (cache : UndoSlotBufferCache) (slotPtr : Nat) :
    Option (Element × UndoSlotBufferCache) :=
  let ptr := makeUndoPtrAlign slotPtr
  match cache.hashTable ptr with
  | some entry => some (entry, { cache with elements := cache.elements.setHit entry true })
  | none =>
    (if cache.capacity ≤ cache.size then cache.victimSlotBuffer else some cache).bind
      fun cache => cache.insertSlotBuffer ptr

inductive Call where
  | fetch (slotPtr : Nat)
  | remove (slotPtr : Nat)

def step (cache : UndoSlotBufferCache) : Call → Option UndoSlotBufferCache
  | .fetch slotPtr => (cache.fetchTransactionBuffer slotPtr).map Prod.snd
  | .remove slotPtr => cache.removeSlotBuffer slotPtr

def next (cache : UndoSlotBufferCache) (entry : Element) : Element := (cache.elements entry).next

def prev (cache : UndoSlotBufferCache) (entry : Element) : Element := (cache.elements entry).prev

/-- The list from head to tail. Its ends are joined, but a first entry points nowhere. -/
def Circular (cache : UndoSlotBufferCache) (slots : List Element) : Prop :=
  Linked cache.next cache.prev cache.tail cache.head slots cache.tail cache.head ∨
    slots.length = 1 ∧ Linked cache.next cache.prev 0 cache.head slots cache.tail 0

/-- The circular list has the entries of the table, each once, and the counter and the three pointers
agree with it. -/
structure Sound (cache : UndoSlotBufferCache) : Prop where
  listed : ∃ slots : List Element, slots.Nodup ∧
    (∀ entry, entry ∈ slots ↔ ∃ key, cache.hashTable key = some entry) ∧
    cache.size = slots.length ∧ cache.size ≤ cache.capacity ∧
    (slots ≠ [] → cache.Circular slots ∧ cache.head ∈ slots ∧ cache.tail ∈ slots ∧ cache.victim ∈ slots)
  keyed : ∀ key entry, cache.hashTable key = some entry → (cache.elements entry).tag = key

theorem makeUndoPtrAlign_eq (urp : Nat) : makeUndoPtrAlign urp = urp / blcksz * blcksz := by
  have low : urp % 2 ^ 44 / blcksz * blcksz < 2 ^ 44 :=
    (Nat.div_mul_le_self _ _).trans_lt (Nat.mod_lt _ (by decide))
  rw [makeUndoPtrAlign, undoPtrGetOffset, Nat.and_two_pow_sub_one_eq_mod, makeUndoPtr,
    ← Nat.shiftLeft_add_eq_or_of_lt low, Nat.shiftLeft_eq, Nat.shiftRight_eq_div_pow, blcksz]
  omega

theorem makeUndoPtrAlign_idem (urp : Nat) :
    makeUndoPtrAlign (makeUndoPtrAlign urp) = makeUndoPtrAlign urp := by
  rw [makeUndoPtrAlign_eq, makeUndoPtrAlign_eq, blcksz, Nat.mul_div_cancel _ (by decide)]

/-- Nothing but hits has changed. -/
def SameLinks (elements other : Elements) : Prop :=
  ∀ entry, (other entry).tag = (elements entry).tag ∧ (other entry).prev = (elements entry).prev ∧
    (other entry).next = (elements entry).next

theorem SameLinks.trans {first second third : Elements} (one : SameLinks first second)
    (two : SameLinks second third) : SameLinks first third := by
  intro entry
  obtain ⟨tag, prev, next⟩ := one entry
  obtain ⟨tag', prev', next'⟩ := two entry
  exact ⟨tag'.trans tag, prev'.trans prev, next'.trans next⟩

theorem sameLinks_setHit (elements : Elements) (entry : Element) (hit : Bool) :
    SameLinks elements (elements.setHit entry hit) := by
  intro other
  unfold Elements.setHit
  by_cases same : other = entry
  · subst same
    simp
  · simp [same]

theorem tag_unlink (elements : Elements) (prev next other : Element) :
    (elements.unlink prev next other).tag = (elements other).tag := by
  unfold Elements.unlink Elements.setPrev Elements.setNext
  by_cases one : other = next <;> by_cases two : other = prev <;> by_cases three : prev = 0 <;>
    by_cases four : next = 0 <;> simp_all [update_apply]

theorem links_unlink (elements : Elements) {left right : Element} (prev : left ≠ 0) (next : right ≠ 0)
    (other : Element) :
    (elements.unlink left right other).next = (if other = left then right else (elements other).next) ∧
      (elements.unlink left right other).prev = if other = right then left else (elements other).prev := by
  unfold Elements.unlink Elements.setPrev Elements.setNext
  by_cases one : other = right <;> by_cases two : other = left <;> simp_all [update_apply]

/-- The links after an entry has been put between tail and head. -/
theorem linkedIn (elements : Elements) {entry head tail : Element} (tag : Nat)
    (headApart : head ≠ entry) (tailApart : tail ≠ entry) (other : Element) :
    let after := Elements.setNext (Elements.setPrev (update elements entry
      { tag, buf := .init, hit := false, prev := tail, next := head }) head entry) tail entry
    (after other).tag = (if other = entry then tag else (elements other).tag) ∧
      (after other).next = (if other = entry then head else if other = tail then entry
        else (elements other).next) ∧
      (after other).prev = (if other = entry then tail else if other = head then entry
        else (elements other).prev) := by
  unfold Elements.setPrev Elements.setNext
  by_cases one : other = entry <;> by_cases two : other = head <;> by_cases three : other = tail <;>
    simp_all [update_apply]

/-- What holds between any two calls, and also within a fetch, where the entry that has just gone may be
the victim: its element is the next one that is used. -/
structure Inv (cache : UndoSlotBufferCache) (slots : List Element) : Prop where
  nodup : slots.Nodup
  used : ∀ entry ∈ slots, 0 < entry ∧ entry < cache.fresh
  table : ∀ key entry, cache.hashTable key = some entry ↔ entry ∈ slots ∧ (cache.elements entry).tag = key
  aligned : ∀ entry ∈ slots, makeUndoPtrAlign (cache.elements entry).tag = (cache.elements entry).tag
  size : cache.size = slots.length
  room : cache.size ≤ cache.capacity
  freed : ∀ entry ∈ cache.freeList, 0 < entry ∧ entry < cache.fresh ∧ entry ∉ slots
  freeNodup : cache.freeList.Nodup
  fresh : 0 < cache.fresh
  circular : slots ≠ [] → cache.Circular slots
  hand : slots ≠ [] → cache.victim ∈ slots ∨ cache.freeList.head? = some cache.victim
  empty : slots = [] → cache.head = 0 ∧ cache.tail = 0 ∨
    cache.freeList.head? = some cache.head ∧ cache.tail = cache.head ∧ cache.victim = cache.head

variable {cache : UndoSlotBufferCache} {slots : List Element}

theorem Circular.ends (circular : cache.Circular slots) (nonempty : slots ≠ []) :
    cache.head ∈ slots ∧ cache.tail ∈ slots := by
  rcases circular with linked | ⟨-, linked⟩
  · exact ⟨linked.first_mem nonempty, linked.last_mem nonempty⟩
  · exact ⟨linked.first_mem nonempty, linked.last_mem nonempty⟩

theorem create_inv {capacity : Int} (room : 0 ≤ capacity) : (create capacity).Inv [] where
  nodup := List.nodup_nil
  used := by simp
  table := by simp [create]
  aligned := by simp
  size := rfl
  room := room
  freed := by simp [create]
  freeNodup := List.nodup_nil
  fresh := Nat.zero_lt_one
  circular := fun present => absurd rfl present
  hand := fun present => absurd rfl present
  empty := fun _ => .inl ⟨rfl, rfl⟩

namespace Inv

/-- What the cache is to be, where the victim is one of the entries. -/
theorem sound (inv : cache.Inv slots) (hand : slots ≠ [] → cache.victim ∈ slots) : cache.Sound where
  listed := by
    refine ⟨slots, inv.nodup, fun entry => ⟨fun member => ?_, ?_⟩, inv.size, inv.room, fun present => ?_⟩
    · exact ⟨_, (inv.table _ entry).mpr ⟨member, rfl⟩⟩
    · rintro ⟨key, found⟩
      exact ((inv.table key entry).mp found).1
    · obtain ⟨head, tail⟩ := (inv.circular present).ends present
      exact ⟨inv.circular present, head, tail, hand present⟩
  keyed := fun key entry found => ((inv.table key entry).mp found).2

variable {elements : Elements} {front back : List Element} {entry : Element}

theorem sameLinks (inv : cache.Inv slots) (same : SameLinks cache.elements elements) :
    ({ cache with elements } : UndoSlotBufferCache).Inv slots where
  nodup := inv.nodup
  used := inv.used
  table := by
    intro key entry
    change cache.hashTable key = some entry ↔ entry ∈ slots ∧ (elements entry).tag = key
    rw [(same entry).1]
    exact inv.table key entry
  aligned := by
    intro entry member
    change makeUndoPtrAlign (elements entry).tag = (elements entry).tag
    rw [(same entry).1]
    exact inv.aligned entry member
  size := inv.size
  room := inv.room
  freed := inv.freed
  freeNodup := inv.freeNodup
  fresh := inv.fresh
  circular := by
    intro present
    have sameNext : ∀ entry ∈ slots, (elements entry).next = cache.next entry :=
      fun entry _ => (same entry).2.2
    have samePrev : ∀ entry ∈ slots, (elements entry).prev = cache.prev entry :=
      fun entry _ => (same entry).2.1
    rcases inv.circular present with linked | ⟨one, linked⟩
    · exact .inl (linked.congr sameNext samePrev)
    · exact .inr ⟨one, linked.congr sameNext samePrev⟩
  hand := inv.hand
  empty := inv.empty

theorem circular_remove (inv : cache.Inv (front ++ entry :: back)) (others : front ++ back ≠ [])
    {after : UndoSlotBufferCache}
    (elements : after.elements = cache.elements.unlink (cache.prev entry) (cache.next entry))
    (head : after.head = if entry = cache.head then cache.next entry else cache.head)
    (tail : after.tail = if entry = cache.tail then cache.prev entry else cache.tail) :
    after.Circular (front ++ back) := by
  have member : entry ∈ front ++ entry :: back := by simp
  rcases inv.circular (List.ne_nil_of_mem member) with linked | ⟨one, -⟩
  · have ring : Ring cache.next cache.prev (front ++ entry :: back) := ⟨_, _, linked⟩
    have left : cache.prev entry ≠ 0 := (inv.used _ (ring.prev_mem member)).1.ne'
    have right : cache.next entry ≠ 0 := (inv.used _ (ring.next_mem member)).1.ne'
    have links (other : Element) := links_unlink cache.elements left right other
    refine .inl ?_
    rw [head, tail]
    refine linked.removeRing inv.nodup others (fun other _ => ?_) (fun other _ => ?_)
    · rw [next, elements, (links other).1]
      rfl
    · rw [prev, elements, (links other).2]
      rfl
  · -- A list of one entry has no others.
    have absent : (front ++ back).length = 0 := by
      simp only [List.length_append, List.length_cons] at one ⊢
      omega
    exact absurd (List.eq_nil_of_length_eq_zero absent) others

theorem empty_remove (inv : cache.Inv [entry]) :
    let head := if entry = cache.head then cache.next entry else cache.head
    let tail := if entry = cache.tail then cache.prev entry else cache.tail
    head = 0 ∧ tail = 0 ∨ head = entry ∧ tail = entry := by
  rcases inv.circular (List.cons_ne_nil _ _) with ⟨head, back, forth, tail⟩ | ⟨-, head, back, forth, tail⟩
  · right
    rw [if_pos head.symm, if_pos tail.symm, forth, back, head, tail]
    exact ⟨rfl, rfl⟩
  · left
    rw [if_pos head.symm, if_pos tail.symm, forth, back]
    exact ⟨rfl, rfl⟩

/-- The rest of the list when an entry is removed. Its element is the next one to be used. -/
theorem removeEntry {ptr : Nat} (inv : cache.Inv (front ++ entry :: back))
    (hand : cache.victim ∈ front ++ entry :: back) (found : cache.hashTable ptr = some entry) :
      (cache.removeEntry ptr entry).Inv (front ++ back) := by
  obtain ⟨member, tag⟩ := (inv.table _ entry).mp found
  have apart : entry ∉ front ++ back := (List.nodup_middle.mp inv.nodup).notMem
  have kept {other : Element} (held : other ∈ front ++ entry :: back) (different : other ≠ entry) :
      other ∈ front ++ back := by
    simp only [List.mem_append, List.mem_cons] at held ⊢
    tauto
  have part {other : Element} (held : other ∈ front ++ back) :
      other ∈ front ++ entry :: back ∧ other ≠ entry := by
    refine ⟨?_, fun same => apart (same ▸ held)⟩
    simp only [List.mem_append, List.mem_cons] at held ⊢
    tauto
  have tags (other : Element) : ((cache.removeEntry ptr entry).elements other).tag =
      (cache.elements other).tag := tag_unlink _ _ _ other
  have length : (front ++ entry :: back).length = (front ++ back).length + 1 := by
    simp only [List.length_append, List.length_cons]
    omega
  have size := inv.size
  have room := inv.room
  exact {
    nodup := (List.nodup_cons.mp (List.nodup_middle.mp inv.nodup)).2
    used := fun other held => inv.used other (part held).1
    table := by
      intro key other
      rw [tags]
      change update cache.hashTable ptr none key = some other ↔ _
      by_cases same : key = ptr
      · subst same
        rw [update_self]
        refine ⟨fun absent => (by cases absent), fun held => ?_⟩
        have there := (inv.table _ other).mpr ⟨(part held.1).1, held.2⟩
        exact absurd (Option.some.inj (there.symm.trans found)) (part held.1).2
      · rw [update_of_ne same]
        refine (inv.table key other).trans (and_congr_left fun named => ?_)
        refine ⟨fun held => kept held ?_, fun held => (part held).1⟩
        rintro rfl
        exact same (named.symm.trans tag)
    aligned := by
      intro other held
      rw [tags]
      exact inv.aligned other (part held).1
    size := by
      change cache.size - 1 = _
      omega
    room := by
      change cache.size - 1 ≤ cache.capacity
      omega
    freed := by
      intro other held
      rcases List.mem_cons.mp held with rfl | old
      · exact ⟨(inv.used _ member).1, (inv.used _ member).2, apart⟩
      · obtain ⟨positive, below, outside⟩ := inv.freed other old
        exact ⟨positive, below, fun held => outside (part held).1⟩
    freeNodup := List.nodup_cons.mpr ⟨fun held => (inv.freed entry held).2.2 member, inv.freeNodup⟩
    fresh := inv.fresh
    circular := fun others => inv.circular_remove others rfl rfl rfl
    hand := by
      intro _
      by_cases same : cache.victim = entry
      · exact .inr (congrArg some same.symm)
      · exact .inl (kept hand same)
    empty := by
      intro absent
      obtain ⟨rfl, rfl⟩ := List.append_eq_nil_iff.mp absent
      rcases inv.empty_remove with ends | ⟨head, tail⟩
      · exact .inl ends
      · refine .inr ⟨congrArg some head.symm, tail.trans head.symm, ?_⟩
        exact (List.mem_singleton.mp hand).trans head.symm }

theorem remove (inv : cache.Inv slots) (hand : cache.victim ∈ slots) {slotPtr : Nat}
    (found : cache.hashTable (makeUndoPtrAlign slotPtr) = some entry) :
    ∃ left, (cache.removeEntry (makeUndoPtrAlign slotPtr) entry).Inv left ∧
      left.length + 1 = slots.length ∧ ∀ other ∈ slots, other ≠ entry → other ∈ left := by
  obtain ⟨front, back, rfl⟩ := List.append_of_mem ((inv.table _ entry).mp found).1
  refine ⟨front ++ back, inv.removeEntry hand found, ?_, fun other held different => ?_⟩
  · simp only [List.length_append, List.length_cons]
    omega
  · simp only [List.mem_append, List.mem_cons] at held ⊢
    tauto

/-- The loop ends when it is back at the victim, with a tag of an entry it has met or with none. -/
theorem victimLoop_spec {victim before entry last : Element} {rest : List Element} {rounds : Nat}
    (linked : Linked (fun entry => (elements entry).next)
      (fun entry => (elements entry).prev) before entry (entry :: rest) last victim)
    (positive : ∀ other ∈ entry :: rest, 0 < other) (apart : victim ∉ rest) (enough : rest.length < rounds) :
    ∃ cleared found, victimLoop victim rounds entry elements = some (cleared, found) ∧
      SameLinks elements cleared ∧
      ∀ tag, found = some tag → ∃ other ∈ entry :: rest, (elements other).tag = tag := by
  induction rest generalizing before entry elements rounds with
  | nil =>
    obtain ⟨rounds, rfl⟩ := Nat.exists_eq_add_one_of_ne_zero enough.ne'
    obtain ⟨-, -, forth, -⟩ := linked
    rw [victimLoop, if_neg (positive entry List.mem_cons_self).ne']
    split_ifs with hit
    · exact ⟨_, none, rfl, sameLinks_setHit elements entry false, fun tag found => by cases found⟩
    · exact ⟨_, _, rfl, fun _ => ⟨rfl, rfl, rfl⟩, fun tag found =>
        ⟨entry, List.mem_cons_self, Option.some.inj found⟩⟩
  | cons second more hyp =>
    obtain ⟨rounds, rfl⟩ := Nat.exists_eq_add_one_of_ne_zero (Nat.ne_zero_of_lt enough)
    obtain ⟨-, -, linked⟩ := linked
    have forth : (elements entry).next = second := linked.1
    rw [victimLoop, if_neg (positive entry List.mem_cons_self).ne']
    split_ifs with hit back
    · exact absurd (List.mem_cons.mpr (.inl (back.symm.trans forth))) apart
    · have same := sameLinks_setHit elements entry false
      have onward : Linked (fun other => ((elements.setHit entry false) other).next)
          (fun other => ((elements.setHit entry false) other).prev) entry second (second :: more) last
          victim := by
        change Linked _ _ entry (elements entry).next (second :: more) last victim at linked
        rw [forth] at linked
        exact linked.congr (fun other _ => (same other).2.2) fun other _ => (same other).2.1
      have left : more.length < rounds := by
        rw [List.length_cons] at enough
        omega
      obtain ⟨cleared, found, ends, kept, met⟩ := hyp onward
        (fun other member => positive other (List.mem_cons_of_mem _ member))
        (fun member => apart (List.mem_cons_of_mem _ member)) left
      rw [forth]
      refine ⟨cleared, found, ends, same.trans kept, fun tag named => ?_⟩
      obtain ⟨other, member, tagged⟩ := met tag named
      exact ⟨other, List.mem_cons_of_mem _ member, (same other).1.symm.trans tagged⟩
    · exact ⟨_, _, rfl, fun _ => ⟨rfl, rfl, rfl⟩, fun tag found =>
        ⟨entry, List.mem_cons_self, Option.some.inj found⟩⟩

theorem length_lt_fresh (inv : cache.Inv slots) : slots.length < cache.fresh + 1 := by
  have inside : slots.toFinset ⊆ Finset.range cache.fresh := by
    intro entry member
    exact Finset.mem_range.mpr (inv.used entry (List.mem_toFinset.mp member)).2
  have few := Finset.card_le_card inside
  rw [List.toFinset_card_of_nodup inv.nodup, Finset.card_range] at few
  omega

section

variable (inv : cache.Inv slots) (hand : cache.victim ∈ slots)
  (two : 1 < slots.length ∨ ¬ (cache.elements cache.victim).hit)

include inv hand two

/-- From the victim the loop is sound, unless a first entry was hit, which leads nowhere. -/
theorem victimLoop_sound : ∃ cleared found,
      victimLoop cache.victim (cache.fresh + 1) cache.victim cache.elements = some (cleared, found) ∧
      SameLinks cache.elements cleared ∧
      ∀ tag, found = some tag → ∃ other ∈ slots, (cache.elements other).tag = tag := by
  have positive := (inv.used _ hand).1
  by_cases hit : (cache.elements cache.victim).hit
  · have two := two.resolve_right (not_not.mpr hit)
    have linked := (inv.circular (List.ne_nil_of_mem hand)).resolve_right fun one => by omega
    have ring : Ring cache.next cache.prev slots := ⟨_, _, linked⟩
    obtain ⟨front, back, split⟩ := List.append_of_mem hand
    have inside (other : Element) : other ∈ cache.victim :: (back ++ front) ↔ other ∈ slots := by
      rw [split]
      simp only [List.mem_append, List.mem_cons]
      tauto
    rw [split] at ring
    obtain ⟨first, last, turned⟩ := ring.rotate_append
    obtain ⟨rfl, -⟩ := id turned
    have walk : Linked (fun entry => (cache.elements entry).next) (fun entry => (cache.elements entry).prev)
        last cache.victim (cache.victim :: (back ++ front)) last cache.victim := turned
    have apart : cache.victim ∉ back ++ front := by
      have once := List.nodup_middle.mp (split ▸ inv.nodup)
      intro member
      refine (List.nodup_cons.mp once).1 ?_
      simp only [List.mem_append] at member ⊢
      tauto
    have enough : (back ++ front).length < cache.fresh + 1 := by
      have few := inv.length_lt_fresh
      rw [split] at few
      simp only [List.length_append, List.length_cons] at few ⊢
      omega
    obtain ⟨cleared, found, ends, same, met⟩ :=
      victimLoop_spec walk (fun other member => (inv.used other ((inside other).mp member)).1) apart enough
    refine ⟨cleared, found, ends, same, fun tag named => ?_⟩
    obtain ⟨other, member, tagged⟩ := met tag named
    exact ⟨other, (inside other).mp member, tagged⟩
  · refine ⟨cache.elements, some (cache.elements cache.victim).tag, ?_, fun _ => ⟨rfl, rfl, rfl⟩, ?_⟩
    · rw [victimLoop, if_neg positive.ne', if_neg hit]
    · exact fun tag found => ⟨_, hand, Option.some.inj found⟩

theorem chooseVictim : ∃ elements tag entry, cache.chooseVictim = some ({ cache with elements }, tag) ∧
      SameLinks cache.elements elements ∧ cache.hashTable (makeUndoPtrAlign tag) = some entry := by
  obtain ⟨cleared, found, ends, same, met⟩ := inv.victimLoop_sound hand two
  have held {other : Element} (member : other ∈ slots) :
      cache.hashTable (makeUndoPtrAlign (cache.elements other).tag) = some other :=
    (inv.table _ other).mpr ⟨member, (inv.aligned other member).symm⟩
  cases found with
  | some tag =>
    obtain ⟨other, member, rfl⟩ := met tag rfl
    exact ⟨cleared, _, other, by rw [UndoSlotBufferCache.chooseVictim, ends]; rfl, same, held member⟩
  | none =>
    have tail := ((inv.circular (List.ne_nil_of_mem hand)).ends (List.ne_nil_of_mem hand)).2
    have real := (inv.used _ tail).1.ne'
    refine ⟨cleared, (cleared cache.tail).tag, cache.tail, ?_, same, ?_⟩
    · rw [UndoSlotBufferCache.chooseVictim, ends, Option.bind_some]
      dsimp only
      rw [if_neg real]
    · rw [(same cache.tail).1]
      exact held tail

end

/-- An element for a new entry, with what is left of the free list. -/
structure Taken (cache : UndoSlotBufferCache) (slots : List Element) (entry : Element)
    (freeList : List Element) (fresh : Element) : Prop where
  used : 0 < entry ∧ entry < fresh
  more : cache.fresh ≤ fresh
  apart : entry ∉ slots
  rest : ∀ other ∈ freeList, other ∈ cache.freeList ∧ other ≠ entry
  nodup : freeList.Nodup
  top : ∀ element, cache.freeList.head? = some element → element = entry

theorem enter (inv : cache.Inv slots) (ptr : Nat) :
    ∃ entry freeList fresh, Taken cache slots entry freeList fresh ∧
      cache.enter ptr = (entry, { cache with
        hashTable := update cache.hashTable ptr (some entry), freeList, fresh }) := by
  unfold UndoSlotBufferCache.enter
  cases free : cache.freeList with
  | nil =>
    refine ⟨cache.fresh, [], cache.fresh + 1, ⟨⟨inv.fresh, Nat.lt_succ_self _⟩, Nat.le_succ _, ?_,
      by simp, List.nodup_nil, fun element top => ?_⟩, ?_⟩
    · exact fun member => lt_irrefl _ (inv.used _ member).2
    · rw [free] at top
      cases top
    · rfl
  | cons entry freeList =>
    have nodup := inv.freeNodup
    rw [free] at nodup
    obtain ⟨once, nodup⟩ := List.nodup_cons.mp nodup
    obtain ⟨positive, below, apart⟩ := inv.freed entry (free ▸ List.mem_cons_self)
    refine ⟨entry, freeList, cache.fresh, ⟨⟨positive, below⟩, le_rfl, apart, fun other member => ?_, nodup,
      fun element top => ?_⟩, rfl⟩
    · exact ⟨free ▸ List.mem_cons_of_mem _ member, fun same => once (same ▸ member)⟩
    · rw [free] at top
      exact (Option.some.inj top).symm

section

variable {entry fresh : Element} {freeList : List Element} {ptr : Nat}

theorem add {after : UndoSlotBufferCache}
    (inv : cache.Inv slots) (taken : Taken cache slots entry freeList fresh)
    (absent : cache.hashTable ptr = none) (aligned : makeUndoPtrAlign ptr = ptr)
    (room : cache.size < cache.capacity)
    (table : after.hashTable = update cache.hashTable ptr (some entry))
    (tags : ∀ other, (after.elements other).tag = if other = entry then ptr else (cache.elements other).tag)
    (free : after.freeList = freeList) (next : after.fresh = fresh)
    (size : after.size = cache.size + 1) (capacity : after.capacity = cache.capacity)
    (circular : after.Circular (entry :: slots)) (hand : after.victim ∈ entry :: slots) :
    after.Inv (entry :: slots) where
  nodup := List.nodup_cons.mpr ⟨taken.apart, inv.nodup⟩
  used := by
    intro other member
    rw [next]
    rcases List.mem_cons.mp member with rfl | old
    · exact taken.used
    · exact ⟨(inv.used other old).1, (inv.used other old).2.trans_le taken.more⟩
  table := by
    intro key other
    rw [table, tags]
    by_cases same : other = entry
    · subst same
      rw [if_pos rfl]
      refine ⟨fun found => ⟨List.mem_cons_self, ?_⟩, fun ⟨_, named⟩ => ?_⟩
      · by_contra different
        rw [update_of_ne (Ne.symm different)] at found
        exact taken.apart ((inv.table key other).mp found).1
      · rw [← named, update_self]
    · rw [if_neg same, List.mem_cons, or_iff_right same]
      by_cases key' : key = ptr
      · subst key'
        rw [update_self, Option.some.injEq]
        refine ⟨fun here => absurd here.symm same, fun ⟨member, named⟩ => ?_⟩
        rw [(inv.table key other).mpr ⟨member, named⟩] at absent
        cases absent
      · rw [update_of_ne key']
        exact inv.table key other
  aligned := by
    intro other member
    rw [tags]
    by_cases same : other = entry
    · rw [if_pos same, aligned]
    · rw [if_neg same]
      exact inv.aligned other ((List.mem_cons.mp member).resolve_left same)
  size := by
    rw [size, inv.size, List.length_cons]
    push_cast
    rfl
  room := by
    rw [size, capacity]
    omega
  freed := by
    intro other member
    rw [free] at member
    obtain ⟨old, different⟩ := taken.rest other member
    obtain ⟨positive, below, apart⟩ := inv.freed other old
    rw [next, List.mem_cons, not_or]
    exact ⟨positive, below.trans_le taken.more, different, apart⟩
  freeNodup := free ▸ taken.nodup
  fresh := next ▸ inv.fresh.trans_le taken.more
  circular := fun _ => circular
  hand := fun _ => .inl hand
  empty := fun missing => by cases missing

/-- Into a list without entries, whose head and tail are null or still the entry that was there last. -/
theorem insert_empty (inv : cache.Inv []) (taken : Taken cache [] entry freeList fresh)
    (absent : cache.hashTable ptr = none) (aligned : makeUndoPtrAlign ptr = ptr)
    (room : cache.size < cache.capacity)
    (enters : cache.enter ptr = (entry, { cache with
      hashTable := update cache.hashTable ptr (some entry), freeList, fresh })) :
    ∃ after, cache.insertSlotBuffer ptr = some (entry, after) ∧ after.Inv [entry] ∧
      after.victim ∈ [entry] := by
  have positive := taken.used.1.ne'
  rcases inv.empty rfl with ⟨head, tail⟩ | ⟨top, same, victim⟩
  · refine ⟨_, by
      rw [insertSlotBuffer, enters]
      dsimp only
      rw [if_neg (by simp [head, tail]), if_pos ⟨head, tail⟩], ?_, List.mem_singleton_self entry⟩
    refine inv.add taken absent aligned room rfl (fun other => ?_) rfl rfl rfl rfl ?_
      (List.mem_singleton_self entry)
    · dsimp only
      rw [update_apply]
      split_ifs <;> rfl
    · refine .inr ⟨rfl, rfl, ?_, ?_, rfl⟩
      · simp [prev, tail]
      · simp [next, head]
  · -- The element is the one that head, tail and victim still name.
    have head := taken.top _ top
    have tail : cache.tail = entry := same.trans head
    refine ⟨_, by
      rw [insertSlotBuffer, enters]
      dsimp only
      rw [head, tail, if_neg (by simp [positive]), if_neg (by simp [positive])], ?_, ?_⟩
    swap
    · exact List.mem_singleton.mpr (victim.trans head)
    refine inv.add taken absent aligned room rfl (fun other => ?_) rfl rfl rfl rfl ?_
      (List.mem_singleton.mpr (victim.trans head))
    · by_cases here : other = entry <;> simp [Elements.setNext, Elements.setPrev, here]
    · refine .inl ⟨rfl, ?_, ?_, rfl⟩
      · simp [prev, Elements.setNext, Elements.setPrev]
      · simp [next, Elements.setNext, Elements.setPrev]

theorem insert_linked
    (inv : cache.Inv slots) (nonempty : slots ≠ []) (taken : Taken cache slots entry freeList fresh)
    (absent : cache.hashTable ptr = none) (aligned : makeUndoPtrAlign ptr = ptr)
    (room : cache.size < cache.capacity)
    (enters : cache.enter ptr = (entry, { cache with
      hashTable := update cache.hashTable ptr (some entry), freeList, fresh })) :
    ∃ after, cache.insertSlotBuffer ptr = some (entry, after) ∧ after.Inv (entry :: slots) ∧
      after.victim ∈ entry :: slots := by
  obtain ⟨headIn, tailIn⟩ := (inv.circular nonempty).ends nonempty
  have head := (inv.used _ headIn).1.ne'
  have tail := (inv.used _ tailIn).1.ne'
  have headApart : cache.head ≠ entry := fun same => taken.apart (same ▸ headIn)
  have tailApart : cache.tail ≠ entry := fun same => taken.apart (same ▸ tailIn)
  have links := linkedIn cache.elements ptr headApart tailApart
  have hand : cache.victim ∈ entry :: slots := by
    rcases inv.hand nonempty with member | top
    · exact List.mem_cons_of_mem _ member
    · exact List.mem_cons.mpr (.inl (taken.top _ top))
  refine ⟨_, by
    rw [insertSlotBuffer, enters]
    dsimp only
    rw [if_neg (by simp [head, tail]), if_neg (by simp [head])], ?_, ?_⟩
  swap
  · exact hand
  refine inv.add taken absent aligned room rfl (fun other => (links other).1) rfl rfl rfl rfl ?_ hand
  have old {other : Element} (member : other ∈ slots) : other ≠ entry := by
    rintro rfl
    exact taken.apart member
  have closed {before after : Element}
      (linked : Linked cache.next cache.prev before cache.head slots cache.tail after) :=
    linked.close nonempty inv.nodup (fun other member => (links other).2.1.trans (if_neg (old member)))
      (fun other member => (links other).2.2.trans (if_neg (old member)))
      ((links entry).2.1.trans (if_pos rfl)) ((links entry).2.2.trans (if_pos rfl))
  rcases inv.circular nonempty with linked | ⟨-, linked⟩
  · exact .inl (closed linked)
  · exact .inl (closed linked)

end

theorem insert (inv : cache.Inv slots) {ptr : Nat} (absent : cache.hashTable ptr = none)
    (aligned : makeUndoPtrAlign ptr = ptr) (room : cache.size < cache.capacity) :
    ∃ entry after, cache.insertSlotBuffer ptr = some (entry, after) ∧ after.Inv (entry :: slots) ∧
      after.victim ∈ entry :: slots := by
  obtain ⟨entry, freeList, fresh, taken, enters⟩ := inv.enter ptr
  refine ⟨entry, ?_⟩
  by_cases nonempty : slots = []
  · subst nonempty
    exact inv.insert_empty taken absent aligned room enters
  · exact inv.insert_linked nonempty taken absent aligned room enters

end Inv

/-- A fetch that has to make room finds more than a first entry that was hit. What is removed is there, and
is the victim only if it is the last entry. -/
def Allowed (cache : UndoSlotBufferCache) : Call → Prop
  | .fetch slotPtr => cache.hashTable (makeUndoPtrAlign slotPtr) = none → cache.capacity ≤ cache.size →
      1 < cache.capacity ∨ cache.capacity = 1 ∧ ¬ (cache.elements cache.victim).hit
  | .remove slotPtr => ∃ entry, cache.hashTable (makeUndoPtrAlign slotPtr) = some entry ∧
      (entry ≠ cache.victim ∨ cache.size = 1)

/-- A fetch that has to make room takes an entry of the table away. -/
def EvictsPresent (cache : UndoSlotBufferCache) (slotPtr : Nat) : Prop :=
  cache.hashTable (makeUndoPtrAlign slotPtr) = none → cache.capacity ≤ cache.size →
    ∃ cleared tag entry, cache.chooseVictim = some (cleared, tag) ∧ cleared.hashTable = cache.hashTable ∧
      cache.hashTable (makeUndoPtrAlign tag) = some entry

def Holds (cache : UndoSlotBufferCache) : Prop :=
  ∃ slots, cache.Inv slots ∧ (slots ≠ [] → cache.victim ∈ slots)

namespace Holds

theorem evict (holds : cache.Holds) {slotPtr : Nat} (allowed : cache.Allowed (.fetch slotPtr))
    (absent : cache.hashTable (makeUndoPtrAlign slotPtr) = none) (full : cache.capacity ≤ cache.size) :
    ∃ elements tag entry, cache.chooseVictim = some ({ cache with elements }, tag) ∧
      cache.hashTable (makeUndoPtrAlign tag) = some entry ∧
      ∃ rest left, cache.victimSlotBuffer = some rest ∧ rest.Inv left ∧ rest.size < rest.capacity ∧
        rest.hashTable = update cache.hashTable (makeUndoPtrAlign tag) none := by
  obtain ⟨slots, inv, hand⟩ := holds
  have size := inv.size
  have room := inv.room
  have filled := allowed absent full
  have nonempty : slots ≠ [] := by
    rintro rfl
    rw [List.length_nil] at size
    omega
  have two : 1 < slots.length ∨ ¬ (cache.elements cache.victim).hit := by
    rcases filled with wide | ⟨-, clear⟩
    · exact .inl (by omega)
    · exact .inr clear
  obtain ⟨elements, tag, entry, chosen, same, found⟩ := inv.chooseVictim (hand nonempty) two
  obtain ⟨left, after, -⟩ := (inv.sameLinks same).remove (hand nonempty) found
  refine ⟨elements, tag, entry, chosen, found, _, left, ?_, after, ?_, rfl⟩
  · rw [victimSlotBuffer, chosen, Option.bind_some]
    dsimp only
    rw [removeSlotBuffer, found]
    rfl
  · change cache.size - 1 < cache.capacity
    omega

theorem fetch (holds : cache.Holds) {slotPtr : Nat} (allowed : cache.Allowed (.fetch slotPtr)) :
    ∃ entry after, cache.fetchTransactionBuffer slotPtr = some (entry, after) ∧ after.Holds := by
  unfold fetchTransactionBuffer
  dsimp only
  cases found : cache.hashTable (makeUndoPtrAlign slotPtr) with
  | some entry =>
    obtain ⟨slots, inv, hand⟩ := holds
    exact ⟨_, _, rfl, slots, inv.sameLinks (sameLinks_setHit _ _ _), hand⟩
  | none =>
    have aligned := makeUndoPtrAlign_idem slotPtr
    dsimp only
    by_cases full : cache.capacity ≤ cache.size
    · obtain ⟨_, tag, _, -, -, rest, left, removed, inv, room, table⟩ := holds.evict allowed found full
      have absent : rest.hashTable (makeUndoPtrAlign slotPtr) = none := by
        rw [table, update_apply]
        split_ifs
        · rfl
        · exact found
      obtain ⟨entry, after, inserted, inv, hand⟩ := inv.insert absent aligned room
      refine ⟨entry, after, ?_, _, inv, fun _ => hand⟩
      rw [if_pos full, removed, Option.bind_some, inserted]
    · obtain ⟨slots, inv, -⟩ := holds
      obtain ⟨entry, after, inserted, inv, hand⟩ := inv.insert found aligned (not_le.mp full)
      refine ⟨entry, after, ?_, _, inv, fun _ => hand⟩
      rw [if_neg full, Option.bind_some, inserted]

theorem remove (holds : cache.Holds) {slotPtr : Nat} (allowed : cache.Allowed (.remove slotPtr)) :
    ∃ after, cache.removeSlotBuffer slotPtr = some after ∧ after.Holds := by
  obtain ⟨slots, inv, hand⟩ := holds
  obtain ⟨entry, found, kept⟩ := allowed
  have member := ((inv.table _ entry).mp found).1
  have hand := hand (List.ne_nil_of_mem member)
  obtain ⟨left, after, length, others⟩ := inv.remove hand found
  refine ⟨_, by rw [removeSlotBuffer, found]; rfl, left, after, fun nonempty => ?_⟩
  rcases kept with different | one
  · exact others _ hand different.symm
  · have size := inv.size
    exact absurd (List.eq_nil_of_length_eq_zero (by omega)) nonempty

theorem step (holds : cache.Holds) {call : Call} (allowed : cache.Allowed call) :
    ∃ after, cache.step call = some after ∧ after.Holds := by
  cases call with
  | fetch slotPtr =>
    obtain ⟨entry, after, fetched, holds⟩ := holds.fetch allowed
    exact ⟨after, by rw [UndoSlotBufferCache.step, fetched]; rfl, holds⟩
  | remove slotPtr => exact holds.remove allowed

end Holds

/-- The next state, `none` for good after a null pointer was followed. -/
def stepFrom (state : Option UndoSlotBufferCache) (call : Call) : Option UndoSlotBufferCache :=
  state.bind fun cache => cache.step call

def AllowedFrom (state : Option UndoSlotBufferCache) (call : Call) : Prop :=
  ∀ cache ∈ state, cache.Allowed call

/-- After every sequence of allowed calls the cache is what it is to be, and what the next fetch takes away
is there. -/
theorem sound_along {capacity : Int} (room : 0 ≤ capacity) (calls : List Call)
    (along : Lib.Along stepFrom AllowedFrom (some (create capacity)) calls) :
    ∃ cache, Lib.run stepFrom (some (create capacity)) calls = some cache ∧ cache.Sound ∧
      ∀ slotPtr, cache.Allowed (.fetch slotPtr) → cache.EvictsPresent slotPtr := by
  have kept : ∃ cache, Lib.run stepFrom (some (create capacity)) calls = some cache ∧ cache.Holds := by
    refine Lib.run_invariant_along (fun state => ∃ cache, state = some cache ∧ cache.Holds) ?_ along
      ⟨_, rfl, [], create_inv room, fun given => absurd rfl given⟩
    rintro _ call allowed ⟨cache, rfl, holds⟩
    exact holds.step (allowed cache rfl)
  obtain ⟨cache, reached, holds⟩ := kept
  refine ⟨cache, reached, ?_, fun slotPtr allowed absent full => ?_⟩
  · obtain ⟨slots, inv, hand⟩ := holds
    exact inv.sound hand
  · obtain ⟨elements, tag, entry, chosen, present, -⟩ := holds.evict allowed absent full
    exact ⟨_, tag, entry, chosen, rfl, present⟩

/-- A cache of two entries makes room for a third. -/
theorem sound_along_two :
    ∃ cache, Lib.run stepFrom (some (create 2)) [.fetch 8192, .fetch 16384, .fetch 24576] = some cache ∧
      cache.Sound ∧ ∀ slotPtr, cache.Allowed (.fetch slotPtr) → cache.EvictsPresent slotPtr := by
  refine sound_along (by decide) _ ⟨?_, ?_, ?_, trivial⟩ <;>
  · rintro cache same
    obtain rfl := Option.some.inj same
    exact fun _ _ => .inl (by decide)

def slotBufferCacheSize : Int := 16384

/-- Removing the first of two entries leaves the victim on the free list. -/
theorem not_sound : ¬ ∀ calls : List Call, ∃ cache,
    Lib.run stepFrom (some (create slotBufferCacheSize)) calls = some cache ∧ cache.Sound := by
  intro claim
  obtain ⟨cache, reached, sound⟩ := claim [.fetch 8192, .fetch 16384, .remove 8192]
  obtain rfl := Option.some.inj reached
  obtain ⟨slots, -, members, -, -, pointers⟩ := sound.listed
  have second : 2 ∈ slots := (members 2).mpr ⟨16384, rfl⟩
  obtain ⟨key, found⟩ := (members 1).mp (pointers (List.ne_nil_of_mem second)).2.2.2
  change update (update (update (fun _ => none) 8192 (some 1)) 16384 (some 2))
    8192 none key = some 1 at found
  simp only [update_apply] at found
  split_ifs at found
  cases found

end UndoSlotBufferCache

end OpenGauss.Undo
