import Mathlib.Tactic

/-! Doubly linked segments and rings threaded through two link functions. An empty segment joins
its surroundings. -/

namespace OpenGauss.Lib

universe u

variable {Slot : Type u}

def Linked (next prev : Slot → Slot) (before first : Slot) : List Slot → Slot → Slot → Prop
  | [], last, after => first = after ∧ last = before
  | slot :: rest, last, after =>
    first = slot ∧ prev slot = before ∧ Linked next prev slot (next slot) rest last after

variable {next prev next' prev' : Slot → Slot} {before first last after : Slot}

theorem linked_append {front back : List Slot} : Linked next prev before first (front ++ back) last after ↔
      ∃ left right, Linked next prev before first front left right ∧
        Linked next prev left right back last after := by
  induction front generalizing before first with
  | nil =>
    constructor
    · intro linked
      exact ⟨before, first, ⟨rfl, rfl⟩, linked⟩
    · rintro ⟨left, right, ⟨rfl, rfl⟩, linked⟩
      exact linked
  | cons slot rest ih => simp [Linked, ih, and_assoc]

namespace Linked

section

variable {slots : List Slot} (linked : Linked next prev before first slots last after)

include linked

theorem congr (sameNext : ∀ slot ∈ slots, next' slot = next slot)
    (samePrev : ∀ slot ∈ slots, prev' slot = prev slot) :
    Linked next' prev' before first slots last after := by
  induction slots generalizing before first with
  | nil => exact linked
  | cons slot rest ih =>
    obtain ⟨start, back, tail⟩ := linked
    refine ⟨start, (samePrev slot (by simp)).trans back, ?_⟩
    rw [sameNext slot (by simp)]
    exact ih tail (fun other member => sameNext other (by simp [member]))
      (fun other member => samePrev other (by simp [member]))

theorem first_mem (nonempty : slots ≠ []) : first ∈ slots := by
  cases slots with
  | nil => exact absurd rfl nonempty
  | cons slot rest => simp [linked.1]

theorem last_mem (nonempty : slots ≠ []) : last ∈ slots := by
  induction slots generalizing before first with
  | nil => exact absurd rfl nonempty
  | cons slot rest ih =>
    obtain ⟨-, -, tail⟩ := linked
    by_cases empty : rest = []
    · subst empty
      simp [tail.2]
    · exact List.mem_cons_of_mem _ (ih tail empty)

theorem prev_first (nonempty : slots ≠ []) : prev first = before := by
  cases slots with
  | nil => exact absurd rfl nonempty
  | cons slot rest =>
    obtain ⟨rfl, back, -⟩ := linked
    exact back

theorem next_last (nonempty : slots ≠ []) : next last = after := by
  induction slots generalizing before first with
  | nil => exact absurd rfl nonempty
  | cons slot rest ih =>
    obtain ⟨-, -, tail⟩ := linked
    by_cases empty : rest = []
    · subst empty
      obtain ⟨forth, rfl⟩ := tail
      exact forth
    · exact ih tail empty

end

theorem last_eq {slots : List Slot} {final : Slot}
    (linked : Linked next prev before first (slots ++ [final]) last after) : last = final := by
  obtain ⟨left, right, -, -, -, -, same⟩ := linked_append.mp linked
  exact same

section

variable {slots : List Slot} {target : Slot}
  (linked : Linked next prev before first slots last after) (nonempty : slots ≠ [])
  (nodup : slots.Nodup)

include linked nonempty nodup

/-- Redirecting the pointer that leaves a nonempty segment at its end. -/
theorem changeAfter (samePrev : ∀ slot ∈ slots, prev' slot = prev slot)
    (sameNext : ∀ slot ∈ slots, slot ≠ last → next' slot = next slot)
    (redirected : next' last = target) :
    Linked next' prev' before first slots last target := by
  induction slots generalizing before first with
  | nil => exact absurd rfl nonempty
  | cons slot rest ih =>
    obtain ⟨start, back, tail⟩ := linked
    refine ⟨start, (samePrev slot (by simp)).trans back, ?_⟩
    by_cases empty : rest = []
    · subst empty
      obtain ⟨-, rfl⟩ := tail
      exact ⟨redirected, rfl⟩
    · have member := tail.last_mem empty
      have other : slot ≠ last := by
        rintro rfl
        exact (List.nodup_cons.mp nodup).1 member
      rw [sameNext slot (by simp) other]
      exact ih tail empty (List.nodup_cons.mp nodup).2
        (fun inner inside => samePrev inner (by simp [inside]))
        (fun inner inside => sameNext inner (by simp [inside]))

/-- Redirecting the pointer that leaves a nonempty segment at its front. -/
theorem changeBefore (sameNext : ∀ slot ∈ slots, next' slot = next slot)
    (samePrev : ∀ slot ∈ slots, slot ≠ first → prev' slot = prev slot)
    (redirected : prev' first = target) :
    Linked next' prev' target first slots last after := by
  cases slots with
  | nil => exact absurd rfl nonempty
  | cons slot rest =>
    obtain ⟨rfl, -, tail⟩ := linked
    refine ⟨rfl, redirected, ?_⟩
    rw [sameNext first (by simp)]
    apply tail.congr (fun other inside => sameNext other (by simp [inside]))
    intro other inside
    apply samePrev other (by simp [inside])
    rintro rfl
    exact (List.nodup_cons.mp nodup).1 inside

end

variable {front back : List Slot} {slots : List Slot} {null slot : Slot}

/-- A new slot between two adjacent segments. -/
theorem insert [DecidableEq Slot] {left right slot : Slot}
    (linkedFront : Linked next prev before first front left right)
    (linkedBack : Linked next prev left right back last after) (nodupFront : front.Nodup)
    (nodupBack : back.Nodup) (leftApart : left ∉ back) (rightApart : right ∉ front)
    (newNext : ∀ other ∈ front ++ back, next' other = if other = left then slot else next other)
    (newPrev : ∀ other ∈ front ++ back, prev' other = if other = right then slot else prev other)
    (slotNext : next' slot = right) (slotPrev : prev' slot = left) :
    Linked next' prev' before (if front = [] then slot else first) (front ++ slot :: back)
      (if back = [] then slot else last) after := by
  have frontPart : Linked next' prev' before (if front = [] then slot else first) front left slot := by
    by_cases empty : front = []
    · subst empty
      exact ⟨by simp, linkedFront.2⟩
    · rw [if_neg empty]
      refine linkedFront.changeAfter empty nodupFront ?_ ?_ ?_
      · intro other inside
        rw [newPrev other (by simp [inside]), if_neg (by rintro rfl; exact rightApart inside)]
      · intro other inside different
        rw [newNext other (by simp [inside]), if_neg different]
      · rw [newNext left (by simp [linkedFront.last_mem empty]), if_pos rfl]
  have backPart : Linked next' prev' slot right back (if back = [] then slot else last) after := by
    by_cases empty : back = []
    · subst empty
      exact ⟨linkedBack.1, by simp⟩
    · rw [if_neg empty]
      refine linkedBack.changeBefore empty nodupBack ?_ ?_ ?_
      · intro other inside
        rw [newNext other (by simp [inside]), if_neg (by rintro rfl; exact leftApart inside)]
      · intro other inside different
        rw [newPrev other (by simp [inside]), if_neg different]
      · rw [newPrev right (by simp [linkedBack.first_mem empty]), if_pos rfl]
  refine linked_append.mpr ⟨left, slot, frontPart, rfl, slotPrev, ?_⟩
  rwa [slotNext]

/-- Unlinking a slot: its neighbours are joined, and an end that was the slot moves inwards. -/
theorem remove [DecidableEq Slot] {slot : Slot}
    (linked : Linked next prev before first (front ++ slot :: back) last after)
    (nodup : (front ++ slot :: back).Nodup) (beforeApart : before ∉ front ++ slot :: back)
    (afterApart : after ∉ front ++ slot :: back)
    (newNext : ∀ other ∈ front ++ back, next' other = if other = prev slot then next slot else next other)
    (newPrev : ∀ other ∈ front ++ back, prev' other = if other = next slot then prev slot else prev other) :
    Linked next' prev' before (if first = slot then next slot else first) (front ++ back)
      (if last = slot then prev slot else last) after := by
  obtain ⟨left, _, linkedFront, rfl, prevSlot, linkedBack⟩ := linked_append.mp linked
  rename_i slot
  rw [prevSlot] at newNext newPrev ⊢
  have apart := List.nodup_append.mp nodup
  have frontApart : slot ∉ front := fun inside => apart.2.2 slot inside slot (by simp) rfl
  have backApart : slot ∉ back := (List.nodup_cons.mp apart.2.1).1
  have nextApart : next slot ∉ front := by
    intro inside
    by_cases empty : back = []
    · subst empty
      exact afterApart (by simp [← linkedBack.1, inside])
    · exact apart.2.2 _ inside _ (by simp [linkedBack.first_mem empty]) rfl
  have leftApart : left ∉ back := by
    intro inside
    by_cases empty : front = []
    · subst empty
      exact beforeApart (by simp [← linkedFront.2, inside])
    · exact apart.2.2 _ (linkedFront.last_mem empty) _ (by simp [inside]) rfl
  have frontPart : Linked next' prev' before (if first = slot then next slot else first) front left
      (next slot) := by
    by_cases empty : front = []
    · subst empty
      exact ⟨by simp [linkedFront.1], linkedFront.2⟩
    · have kept : first ≠ slot := by
        rintro rfl
        exact frontApart (linkedFront.first_mem empty)
      rw [if_neg kept]
      refine linkedFront.changeAfter empty apart.1 ?_ ?_ ?_
      · intro other inside
        rw [newPrev other (by simp [inside]), if_neg (by rintro rfl; exact nextApart inside)]
      · intro other inside different
        rw [newNext other (by simp [inside]), if_neg different]
      · rw [newNext left (by simp [linkedFront.last_mem empty]), if_pos rfl]
  have backPart : Linked next' prev' left (next slot) back (if last = slot then left else last)
      after := by
    by_cases empty : back = []
    · subst empty
      exact ⟨linkedBack.1, by simp [linkedBack.2]⟩
    · have kept : last ≠ slot := by
        rintro rfl
        exact backApart (linkedBack.last_mem empty)
      rw [if_neg kept]
      refine linkedBack.changeBefore empty (List.nodup_cons.mp apart.2.1).2 ?_ ?_ ?_
      · intro other inside
        rw [newNext other (by simp [inside]), if_neg (by rintro rfl; exact leftApart inside)]
      · intro other inside different
        rw [newPrev other (by simp [inside]), if_neg different]
      · rw [newPrev (next slot) (by simp [linkedBack.first_mem empty]), if_pos rfl]
  exact linked_append.mpr ⟨left, next slot, frontPart, backPart⟩

section

variable (linked : Linked next prev null first slots last null)
include linked

/-- No slot of a list whose ends are marked by `null` points to itself. -/
theorem links_apart (nodup : slots.Nodup)
    (apart : null ∉ slots) (member : slot ∈ slots) : next slot ≠ slot ∧ prev slot ≠ slot := by
  obtain ⟨front, back, rfl⟩ := List.append_of_mem member
  obtain ⟨left, _, linkedFront, rfl, prevSlot, linkedBack⟩ := linked_append.mp linked
  rename_i slot
  have parts := List.nodup_append.mp nodup
  constructor
  · intro same
    by_cases empty : back = []
    · subst empty
      exact apart (by simp [← linkedBack.1, same])
    · have inside := linkedBack.first_mem empty
      rw [same] at inside
      exact (List.nodup_cons.mp parts.2.1).1 inside
  · intro same
    rw [prevSlot] at same
    by_cases empty : front = []
    · subst empty
      exact apart (by simp [← linkedFront.2, same])
    · exact parts.2.2 left (linkedFront.last_mem empty) slot (by simp) same

/-- The links of a slot lead to slots of the list or to the end marker. -/
theorem links_mem (member : slot ∈ slots) :
    (next slot ≠ null → next slot ∈ slots) ∧ (prev slot ≠ null → prev slot ∈ slots) := by
  obtain ⟨front, back, rfl⟩ := List.append_of_mem member
  obtain ⟨left, _, linkedFront, rfl, prevSlot, linkedBack⟩ := linked_append.mp linked
  constructor
  · intro real
    have nonempty : back ≠ [] := by
      rintro rfl
      exact real linkedBack.1
    simp [linkedBack.first_mem nonempty]
  · intro real
    rw [prevSlot] at real ⊢
    have nonempty : front ≠ [] := by
      rintro rfl
      exact real linkedFront.2
    simp [linkedFront.last_mem nonempty]

/-- A new first slot of a list whose ends are marked by `null`. -/
theorem push [DecidableEq Slot] (nodup : slots.Nodup)
    (apart : null ∉ slots) (sameNext : ∀ other ∈ slots, next' other = next other)
    (newPrev : ∀ other ∈ slots, prev' other = if other = first then slot else prev other)
    (slotNext : next' slot = first) (slotPrev : prev' slot = null) :
    Linked next' prev' null slot (slot :: slots) (if slots = [] then slot else last) null := by
  have front : Linked next prev null first [] null first := ⟨rfl, rfl⟩
  have inserted := @Linked.insert _ _ _ next' prev' _ _ _ _ _ _ _ _ _ _ front linked List.nodup_nil nodup apart
    List.not_mem_nil ?_ newPrev slotNext slotPrev
  · simpa using inserted
  · intro other inside
    rw [sameNext other inside, if_neg (by rintro rfl; exact apart inside)]

/-- Unlinking when the ends are marked by `null`: only neighbours that exist are rewritten. -/
theorem unlink [DecidableEq Slot]
    (nodup : slots.Nodup) (apart : null ∉ slots) (member : slot ∈ slots)
    (newNext : ∀ other ∈ slots, other ≠ slot →
      next' other = if prev slot ≠ null ∧ other = prev slot then next slot else next other)
    (newPrev : ∀ other ∈ slots, other ≠ slot →
      prev' other = if next slot ≠ null ∧ other = next slot then prev slot else prev other) :
    Linked next' prev' null (if prev slot ≠ null then first else next slot) (slots.erase slot)
      (if next slot ≠ null then last else prev slot) null := by
  obtain ⟨front, back, rfl⟩ := List.append_of_mem member
  have parts := List.nodup_append.mp nodup
  have frontApart : slot ∉ front := fun within => parts.2.2 slot within slot (by simp) rfl
  have others : ∀ other ∈ front ++ back, other ∈ front ++ slot :: back ∧ other ≠ slot := by
    intro other within
    refine ⟨by simp only [List.mem_append, List.mem_cons] at within ⊢; tauto, ?_⟩
    rintro rfl
    rcases List.mem_append.mp within with within | within
    · exact frontApart within
    · exact (List.nodup_cons.mp parts.2.1).1 within
  rw [List.erase_append_right _ frontApart, List.erase_cons_head]
  have inner : ∀ other ∈ front ++ back, other ≠ null := by
    rintro other inside rfl
    exact apart (others other inside).1
  have removed := @Linked.remove _ _ _ next' prev' _ _ _ _ _ _ _ _ linked nodup apart apart ?_ ?_
  · obtain ⟨left, _, linkedFront, rfl, prevSlot, linkedBack⟩ := linked_append.mp linked
    rename_i slot
    have firstSame : (if first = slot then next slot else first) =
        if prev slot ≠ null then first else next slot := by
      by_cases empty : front = []
      · subst empty
        rw [if_pos linkedFront.1, if_neg (by rw [prevSlot, linkedFront.2]; simp)]
      · have inside := linkedFront.last_mem empty
        rw [if_neg, if_pos]
        · rw [prevSlot]
          exact inner left (by simp [inside])
        · rintro rfl
          exact parts.2.2 _ (linkedFront.first_mem empty) _ (by simp) rfl
    have lastSame : (if last = slot then prev slot else last) =
        if next slot ≠ null then last else prev slot := by
      by_cases empty : back = []
      · subst empty
        rw [if_pos linkedBack.2, if_neg (by rw [linkedBack.1]; simp)]
      · have inside := linkedBack.last_mem empty
        rw [if_neg, if_pos]
        · exact inner _ (by simp [linkedBack.first_mem empty])
        · rintro rfl
          exact (List.nodup_cons.mp parts.2.1).1 inside
    rwa [firstSame, lastSame] at removed
  · intro other inside
    rw [newNext other (others other inside).1 (others other inside).2]
    by_cases here : other = prev slot
    · rw [if_pos ⟨here ▸ inner other inside, here⟩, if_pos here]
    · rw [if_neg fun both => here both.2, if_neg here]
  · intro other inside
    rw [newPrev other (others other inside).1 (others other inside).2]
    by_cases here : other = next slot
    · rw [if_pos ⟨here ▸ inner other inside, here⟩, if_pos here]
    · rw [if_neg fun both => here both.2, if_neg here]

end

/-- A new slot closes a segment to a ring, whatever its ends pointed to. -/
theorem close [DecidableEq Slot] {slot : Slot} (linked : Linked next prev before first slots last after)
    (nonempty : slots ≠ []) (nodup : slots.Nodup)
    (newNext : ∀ other ∈ slots, next' other = if other = last then slot else next other)
    (newPrev : ∀ other ∈ slots, prev' other = if other = first then slot else prev other)
    (slotNext : next' slot = first) (slotPrev : prev' slot = last) :
    Linked next' prev' last slot (slot :: slots) last slot := by
  refine ⟨rfl, slotPrev, ?_⟩
  rw [slotNext]
  have redirected : Linked next' prev before first slots last slot :=
    linked.changeAfter nonempty nodup (fun _ _ => rfl)
      (fun other inside different => by rw [newNext other inside, if_neg different])
      (by rw [newNext last (linked.last_mem nonempty), if_pos rfl])
  exact redirected.changeBefore nonempty nodup (fun _ _ => rfl)
    (fun other inside different => by rw [newPrev other inside, if_neg different])
    (by rw [newPrev first (linked.first_mem nonempty), if_pos rfl])

/-- Unlinking a slot of a ring leaves a ring. -/
theorem removeRing [DecidableEq Slot] {slot : Slot}
    (linked : Linked next prev last first (front ++ slot :: back) last first)
    (nodup : (front ++ slot :: back).Nodup) (others : front ++ back ≠ [])
    (newNext : ∀ other ∈ front ++ back, next' other = if other = prev slot then next slot else next other)
    (newPrev : ∀ other ∈ front ++ back, prev' other = if other = next slot then prev slot else prev other) :
    Linked next' prev' (if slot = last then prev slot else last) (if slot = first then next slot else first)
      (front ++ back) (if slot = last then prev slot else last)
      (if slot = first then next slot else first) := by
  obtain ⟨left, _, linkedFront, rfl, prevSlot, linkedBack⟩ := linked_append.mp linked
  rename_i slot
  rw [prevSlot] at newNext newPrev ⊢
  obtain ⟨nodupFront, nodupTail, apart⟩ := List.nodup_append.mp nodup
  obtain ⟨backApart, nodupBack⟩ := List.nodup_cons.mp nodupTail
  have frontApart : slot ∉ front := fun inside => apart slot inside slot (by simp) rfl
  rcases List.eq_nil_or_concat front with rfl | ⟨init, final, rfl⟩
  · -- The first slot goes, and its neighbours are the ends of the rest.
    obtain ⟨rfl, rfl⟩ := linkedFront
    rw [List.nil_append] at others newNext newPrev ⊢
    have kept : first ≠ left := fun same => backApart (same ▸ linkedBack.last_mem others)
    rw [if_neg kept, if_pos rfl]
    have joined : Linked next' prev first (next first) back left (next first) :=
      linkedBack.changeAfter others nodupBack (fun _ _ => rfl)
        (fun other inside different => by rw [newNext other inside, if_neg different])
        (by rw [newNext left (linkedBack.last_mem others), if_pos rfl])
    exact joined.changeBefore others nodupBack (fun _ _ => rfl)
      (fun other inside different => by rw [newPrev other inside, if_neg different])
      (by rw [newPrev _ (linkedBack.first_mem others), if_pos rfl])
  · rw [List.concat_eq_append] at *
    have filled : init ++ [final] ≠ [] := by simp
    have firstKept : slot ≠ first := fun same => frontApart (same ▸ linkedFront.first_mem filled)
    rw [if_neg firstKept]
    by_cases empty : back = []
    · subst empty
      obtain ⟨forth, rfl⟩ := linkedBack
      rw [List.append_nil] at newNext newPrev ⊢
      rw [forth] at newNext newPrev
      rw [if_pos rfl]
      have joined : Linked next' prev last first (init ++ [final]) left first :=
        linkedFront.changeAfter filled nodupFront (fun _ _ => rfl)
          (fun other inside different => by rw [newNext other inside, if_neg different])
          (by rw [newNext left (linkedFront.last_mem filled), if_pos rfl])
      exact joined.changeBefore filled nodupFront (fun _ _ => rfl)
        (fun other inside different => by rw [newPrev other inside, if_neg different])
        (by rw [newPrev first (linkedFront.first_mem filled), if_pos rfl])
    · have lastKept : slot ≠ last := fun same => backApart (same ▸ linkedBack.last_mem empty)
      rw [if_neg lastKept]
      have across {one other : Slot} (inFront : one ∈ init ++ [final]) (inBack : other ∈ back) :
          one ≠ other := apart one inFront other (List.mem_cons_of_mem _ inBack)
      refine linked_append.mpr ⟨left, next slot, ?_, ?_⟩
      · refine linkedFront.changeAfter filled nodupFront (fun other inside => ?_)
          (fun other inside different => ?_) ?_
        · rw [newPrev other (List.mem_append_left _ inside),
            if_neg (across inside (linkedBack.first_mem empty))]
        · rw [newNext other (List.mem_append_left _ inside), if_neg different]
        · rw [newNext left (List.mem_append_left _ (linkedFront.last_mem filled)), if_pos rfl]
      · refine linkedBack.changeBefore empty nodupBack (fun other inside => ?_)
          (fun other inside different => ?_) ?_
        · rw [newNext other (List.mem_append_right _ inside),
            if_neg (across (linkedFront.last_mem filled) inside).symm]
        · rw [newPrev other (List.mem_append_right _ inside), if_neg different]
        · rw [newPrev _ (List.mem_append_right _ (linkedBack.first_mem empty)), if_pos rfl]

end Linked

/-- A singly linked list from `first` to the end marker `after`. -/
def Threaded (next : Slot → Slot) (first : Slot) : List Slot → Slot → Prop
  | [], after => first = after
  | slot :: rest, after => first = slot ∧ Threaded next (next slot) rest after

theorem Threaded.congr {slots : List Slot} (threaded : Threaded next first slots after)
    (sameNext : ∀ slot ∈ slots, next' slot = next slot) : Threaded next' first slots after := by
  induction slots generalizing first with
  | nil => exact threaded
  | cons slot rest ih =>
    refine ⟨threaded.1, ?_⟩
    rw [sameNext slot (by simp)]
    exact ih threaded.2 (fun other inside => sameNext other (by simp [inside]))

/-- A singly linked list whose links and start may be missing. -/
def Listed (next : Slot → Option Slot) : Option Slot → List Slot → Prop
  | start, [] => start = none
  | start, slot :: rest => start = some slot ∧ Listed next (next slot) rest

namespace Listed

variable {link link' : Slot → Option Slot} {start : Option Slot} {slots : List Slot}

theorem congr (listed : Listed link start slots) (same : ∀ slot ∈ slots, link' slot = link slot) :
    Listed link' start slots := by
  induction slots generalizing start with
  | nil => exact listed
  | cons slot rest ih =>
    refine ⟨listed.1, ?_⟩
    rw [same slot (by simp)]
    exact ih listed.2 fun other inside => same other (by simp [inside])

theorem eq_nil_iff (listed : Listed link start slots) : slots = [] ↔ start = none := by
  cases slots with
  | nil => exact ⟨fun _ => listed, fun _ => rfl⟩
  | cons slot rest => simp [listed.1]

theorem cons_of_some {slot : Slot} (listed : Listed link (some slot) slots) :
    ∃ rest, slots = slot :: rest ∧ Listed link (link slot) rest := by
  cases slots with
  | nil => cases listed
  | cons head rest =>
    obtain ⟨same, tail⟩ := listed
    obtain rfl := Option.some.inj same
    exact ⟨rest, rfl, tail⟩

end Listed

/-- A closed doubly linked list, read from one of its slots. -/
def Ring (next prev : Slot → Slot) (slots : List Slot) : Prop :=
  ∃ first last, Linked next prev last first slots last first

namespace Ring

variable {slots : List Slot} {slot : Slot} {front back : List Slot}

theorem congr (ring : Ring next prev slots) (sameNext : ∀ slot ∈ slots, next' slot = next slot)
    (samePrev : ∀ slot ∈ slots, prev' slot = prev slot) : Ring next' prev' slots := by
  obtain ⟨first, last, linked⟩ := ring
  exact ⟨first, last, linked.congr sameNext samePrev⟩

/-- Reading the ring from its second slot. -/
theorem rotate {rest : List Slot} (ring : Ring next prev (slot :: rest)) :
    Ring next prev (rest ++ [slot]) := by
  obtain ⟨first, last, rfl, back, linked⟩ := ring
  refine ⟨next first, first, linked_append.mpr ⟨last, first, linked, rfl, back, rfl, rfl⟩⟩

/-- Reading the ring from any of its slots. -/
theorem rotate_append (ring : Ring next prev (front ++ back)) : Ring next prev (back ++ front) := by
  induction front generalizing back with
  | nil => simpa using ring
  | cons slot rest ih =>
    have moved : Ring next prev (rest ++ (back ++ [slot])) := by
      simpa using ring.rotate
    simpa using ih moved

theorem next_mem (ring : Ring next prev slots) (member : slot ∈ slots) : next slot ∈ slots := by
  obtain ⟨first, last, linked⟩ := ring
  obtain ⟨front, back, rfl⟩ := List.append_of_mem member
  obtain ⟨left, _, linkedFront, rfl, -, linkedBack⟩ := linked_append.mp linked
  by_cases empty : back = []
  · subst empty
    rw [linkedBack.1]
    exact linked.first_mem (by simp)
  · simp [linkedBack.first_mem empty]

theorem prev_mem (ring : Ring next prev slots) (member : slot ∈ slots) : prev slot ∈ slots := by
  obtain ⟨first, last, linked⟩ := ring
  obtain ⟨front, back, rfl⟩ := List.append_of_mem member
  obtain ⟨left, _, linkedFront, rfl, back, -⟩ := linked_append.mp linked
  rw [back]
  by_cases empty : front = []
  · subst empty
    rw [linkedFront.2]
    exact linked.last_mem (by simp)
  · exact List.mem_append_left _ (linkedFront.last_mem empty)

theorem next_adjacent {left right : Slot} (ring : Ring next prev (front ++ left :: right :: back)) :
    next left = right := by
  obtain ⟨first, last, linked⟩ := ring
  obtain ⟨_, _, -, -, -, same, -⟩ := linked_append.mp linked
  exact same

/-- A new slot after the last one read. -/
theorem push {slot left right : Slot} (linked : Linked next prev left right slots left right)
    (nonempty : slots ≠ []) (nodup : slots.Nodup)
    (sameNext : ∀ other ∈ slots, other ≠ left → next' other = next other)
    (samePrev : ∀ other ∈ slots, other ≠ right → prev' other = prev other) (leftNext : next' left = slot)
    (rightPrev : prev' right = slot) (slotNext : next' slot = right) (slotPrev : prev' slot = left) :
    Ring next' prev' (slots ++ [slot]) := by
  have leaving : Linked next' prev left right slots left slot :=
    linked.changeAfter nonempty nodup (fun _ _ => rfl) sameNext leftNext
  have entering : Linked next' prev' slot right slots left slot :=
    leaving.changeBefore nonempty nodup (fun _ _ => rfl) samePrev rightPrev
  exact ⟨right, slot, linked_append.mpr ⟨left, slot, entering, rfl, slotPrev, slotNext, rfl⟩⟩

end Ring

end OpenGauss.Lib
