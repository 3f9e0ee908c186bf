import OpenGauss.Lib.Run

/-! The redo queue between one producer and one consumer. A step is one read or write of an index
or of a slot, and an index that a call has read may be old when it is used. -/

namespace OpenGauss.ExtremeRto

open Lib Function

universe u

variable {Elem : Type u}

def count (head tail mask : Nat) : Nat := (head + 2 ^ 32 - tail) % 2 ^ 32 &&& mask

/-- `SPACE`: one slot stays empty. -/
def space (head tail mask : Nat) : Nat := (tail + 2 ^ 32 - (head + 1) % 2 ^ 32) % 2 ^ 32 &&& mask

/-- `(index + n) & mask`, in `uint32`. -/
def advance (index n mask : Nat) : Nat := (index + n) % 2 ^ 32 &&& mask

/-- What `SPSCBlockingQueueCreate` asserts of the capacity. -/
structure QueueCapacity where
  value : Nat
  least : 2 ≤ value
  powerOfTwo : value &&& (value - 1) = 0
  fits : value < 2 ^ 32

structure SPSCBlockingQueue (Elem : Type u) where
  writeHead : Nat := 0
  readTail : Nat := 0
  capacity : Nat
  mask : Nat
  maxUsage : Nat := 0
  totalCnt : Nat := 0
  buffer : Nat → Elem

/-- `SPSCBlockingQueueCreate`: the slots are zeroed. -/
def spscBlockingQueueCreate (null : Elem) (capacity : QueueCapacity) : SPSCBlockingQueue Elem where
  capacity := capacity.value
  mask := capacity.value - 1
  buffer := fun _ => null

namespace SPSCBlockingQueue

variable (queue : SPSCBlockingQueue Elem) (head tmpCnt : Nat) (element : Elem)

def setSlot : SPSCBlockingQueue Elem :=
  { queue with
    maxUsage := if tmpCnt > queue.maxUsage then tmpCnt else queue.maxUsage
    buffer := update queue.buffer head element }

@[simp] theorem setSlot_capacity :
    (queue.setSlot head tmpCnt element).capacity = queue.capacity := by rw [setSlot]

@[simp] theorem setSlot_mask : (queue.setSlot head tmpCnt element).mask = queue.mask := by rw [setSlot]

@[simp] theorem setSlot_writeHead :
    (queue.setSlot head tmpCnt element).writeHead = queue.writeHead := by rw [setSlot]

@[simp] theorem setSlot_readTail :
    (queue.setSlot head tmpCnt element).readTail = queue.readTail := by rw [setSlot]

@[simp] theorem setSlot_buffer :
    (queue.setSlot head tmpCnt element).buffer = update queue.buffer head element := by rw [setSlot]

end SPSCBlockingQueue

/-- Where the producer is in `SPSCBlockingQueuePut`, with what it has read. -/
inductive PutPc (Elem : Type u) where
  | idle
  | readTail (head : Nat) (element : Elem)
  | writeSlot (head tail : Nat) (element : Elem)
  | writeHead (head : Nat) (element : Elem)

/-- What `SPSCBlockingQueueTop` or `SPSCBlockingQueueGetAll` gave the consumer. A slice starts at a slot;
`content` is what it held when it was given. -/
inductive Shown (Elem : Type u) where
  | nothing
  | top (element : Elem)
  | slice (start : Nat) (content : List Elem)

inductive ReadCall where
  | take
  | top
  | getAll

/-- Where the consumer is in a call. The last two are `SPSCBlockingQueuePop` and `SPSCBlockingQueuePopN`. -/
inductive ReadPc (Elem : Type u) where
  | idle (shown : Shown Elem)
  | readHead (call : ReadCall) (tail : Nat)
  | readSlot (call : ReadCall) (tail head : Nat)
  | writeTail (tail : Nat) (element : Elem)
  | popHead (shown : Shown Elem) (n totalCnt tail : Nat)
  | popTail (shown : Shown Elem) (n totalCnt tail : Nat)

/-- What the consumer holds: a slice or a top element is its own until the end of the pop. -/
def ReadPc.shown : ReadPc Elem → Shown Elem
  | .idle shown | .popHead shown _ _ _ | .popTail shown _ _ _ => shown
  | _ => .nothing

/-- The elements whose `SPSCBlockingQueuePut` has ended are in `put`, in order. -/
structure QueueSystem (Elem : Type u) where
  queue : SPSCBlockingQueue Elem
  producer : PutPc Elem := .idle
  consumer : ReadPc Elem := .idle .nothing
  put : List Elem := []
  received : List Elem := []
  warnings : Nat := 0

inductive QueueEvent (Elem : Type u) where
  | put (element : Elem)
  | producer
  | read (call : ReadCall)
  | pop
  | popN (n : Nat)
  | consumer

section

variable {bits head tail : Nat}

theorem sub_mod_eq {capacity first second gap : Nat} (divides : capacity ∣ 2 ^ 32) (fits : second ≤ 2 ^ 32)
    (same : first ≡ gap + second [MOD capacity]) (small : gap < capacity) :
    (first + 2 ^ 32 - second) % 2 ^ 32 % capacity = gap := by
  rw [Nat.mod_mod_of_dvd _ divides]
  have wrapped : first + 2 ^ 32 - second + second ≡ gap + second [MOD capacity] := by
    rw [Nat.sub_add_cancel (by omega)]
    calc first + 2 ^ 32 ≡ first + 0 [MOD capacity] :=
          Nat.ModEq.add_left _ (Nat.modEq_zero_iff_dvd.mpr divides)
      _ ≡ gap + second [MOD capacity] := same
  have reduced := Nat.ModEq.add_right_cancel' second wrapped
  rwa [Nat.ModEq, Nat.mod_eq_of_lt small] at reduced

variable (fits : bits < 32)

include fits

theorem pow_le : 2 ^ bits ≤ 2 ^ 31 := Nat.pow_le_pow_right (by decide) (by omega)

/-- An index is the number of elements ever put or taken, reduced to the capacity. -/
theorem count_eq {n : Nat} (small : n < 2 ^ bits) :
    count ((tail + n) % 2 ^ bits) (tail % 2 ^ bits) (2 ^ bits - 1) = n := by
  have bound := Nat.mod_lt tail (Nat.two_pow_pos bits)
  have capacity := pow_le fits
  rw [count, Nat.and_two_pow_sub_one_eq_mod]
  refine sub_mod_eq (Nat.pow_dvd_pow 2 (by omega)) (by omega) ?_ small
  rw [Nat.add_comm n]
  exact (Nat.mod_modEq _ _).trans ((Nat.mod_modEq tail _).symm.add_right n)

theorem space_eq {n : Nat} (small : n < 2 ^ bits) :
    space ((tail + n) % 2 ^ bits) (tail % 2 ^ bits) (2 ^ bits - 1) = 2 ^ bits - 1 - n := by
  have bound := Nat.mod_lt (tail + n) (Nat.two_pow_pos bits)
  have capacity := pow_le fits
  rw [space, Nat.and_two_pow_sub_one_eq_mod, Nat.mod_eq_of_lt (by omega : (tail + n) % 2 ^ bits + 1 < 2 ^ 32)]
  refine sub_mod_eq (Nat.pow_dvd_pow 2 (by omega)) (by omega) ?_ (by omega)
  calc tail % 2 ^ bits ≡ tail + 2 ^ bits [MOD 2 ^ bits] :=
        (Nat.mod_modEq _ _).trans (Nat.ModEq.symm (Nat.add_mod_right _ _))
    _ = 2 ^ bits - 1 - n + 1 + (tail + n) := by omega
    _ ≡ 2 ^ bits - 1 - n + 1 + (tail + n) % 2 ^ bits [MOD 2 ^ bits] :=
        (Nat.mod_modEq _ _).symm.add_left _
    _ = 2 ^ bits - 1 - n + ((tail + n) % 2 ^ bits + 1) := by omega

theorem advance_eq {n : Nat} (small : n ≤ 2 ^ bits) :
    advance (tail % 2 ^ bits) n (2 ^ bits - 1) = (tail + n) % 2 ^ bits := by
  have bound := Nat.mod_lt tail (Nat.two_pow_pos bits)
  have capacity := pow_le fits
  rw [advance, Nat.and_two_pow_sub_one_eq_mod, Nat.mod_eq_of_lt (by omega : tail % 2 ^ bits + n < 2 ^ 32),
    Nat.mod_add_mod]

end

namespace QueueSystem

def putStep (system : QueueSystem Elem) : QueueSystem Elem :=
  match system.producer with
  | .idle => system
  | .readTail head element =>
    -- without space the loop reads the tail again
    if space head system.queue.readTail system.queue.mask = 0 then system
    else { system with producer := .writeSlot head system.queue.readTail element }
  | .writeSlot head tail element =>
    { system with
      queue := system.queue.setSlot head (count head tail system.queue.mask) element
      producer := .writeHead head element }
  | .writeHead head element =>
    { system with
      queue := { system.queue with writeHead := advance head 1 system.queue.mask }
      producer := .idle
      put := system.put ++ [element] }

variable (queue : SPSCBlockingQueue Elem)

/-- The number of slots that `SPSCBlockingQueueGetAll` gives: at most to the end of the array. -/
def eleNum (head tail : Nat) : Nat :=
  if tail &&& queue.mask ≤ head &&& queue.mask then (head &&& queue.mask) - (tail &&& queue.mask)
  else queue.capacity - (tail &&& queue.mask)

def slots (start n : Nat) : List Elem :=
  (List.range n).map fun i => queue.buffer (start + i)

/-- The test that refuses a pop; `SPSCBlockingQueuePop` asks only for one element. -/
def refused (shown : Shown Elem) (n tail : Nat) : Prop :=
  match shown with
  | .slice _ _ => count queue.writeHead tail queue.mask < n ∨
      queue.capacity < ((tail &&& queue.mask) + n) % 2 ^ 32
  | _ => count queue.writeHead tail queue.mask = 0

instance (queue : SPSCBlockingQueue Elem) (shown : Shown Elem) (n tail : Nat) :
    Decidable (refused queue shown n tail) :=
  match shown with
  | .nothing | .top _ => inferInstanceAs (Decidable (_ = 0))
  | .slice _ _ => inferInstanceAs (Decidable (_ ∨ _))

/-- What a pop makes the consumer's own: the top element, or the first `n` slots of the slice. -/
def taken (shown : Shown Elem) (n : Nat) : List Elem :=
  match shown with
  | .nothing => []
  | .top element => [element]
  | .slice _ content => content.take n

def readStep (system : QueueSystem Elem) : QueueSystem Elem :=
  match system.consumer with
  | .idle _ => system
  | .readHead call tail =>
    -- the loop reads the head again as long as there is nothing
    if count system.queue.writeHead tail system.queue.mask = 0 then system
    else { system with consumer := .readSlot call tail system.queue.writeHead }
  | .readSlot .take tail _ => { system with consumer := .writeTail tail (system.queue.buffer tail) }
  | .readSlot .top tail _ => { system with consumer := .idle (.top (system.queue.buffer tail)) }
  | .readSlot .getAll tail head =>
    let start := tail &&& system.queue.mask
    { system with
      consumer := .idle (.slice start (slots system.queue start (eleNum system.queue head tail))) }
  | .writeTail tail element =>
    { system with
      queue := { system.queue with readTail := advance tail 1 system.queue.mask }
      consumer := .idle .nothing
      received := system.received ++ [element] }
  | .popHead shown n totalCnt tail =>
    if refused system.queue shown n tail then
      { system with consumer := .idle .nothing, warnings := system.warnings + 1 }
    else { system with consumer := .popTail shown n totalCnt tail }
  | .popTail shown n totalCnt tail =>
    { system with
      queue := { system.queue with
        totalCnt := (totalCnt + n) % 2 ^ 64
        readTail := advance tail n system.queue.mask }
      consumer := .idle .nothing
      received := system.received ++ taken shown n }

/-- A call begins with the read of its own index. A pop follows the call that showed what it drops, and
drops no more than was shown; a read gives up what was shown. -/
def step (system : QueueSystem Elem) (event : QueueEvent Elem) : QueueSystem Elem :=
  match event, system.producer, system.consumer with
  | .put element, .idle, _ => { system with producer := .readTail system.queue.writeHead element }
  | .producer, _, _ => system.putStep
  | .read call, _, .idle _ => { system with consumer := .readHead call system.queue.readTail }
  | .pop, _, .idle (.top element) =>
    { system with consumer := .popHead (.top element) 1 system.queue.totalCnt system.queue.readTail }
  | .popN n, _, .idle (.slice start content) =>
    if n ≤ content.length then
      { system with
        consumer := .popHead (.slice start content) n system.queue.totalCnt system.queue.readTail }
    else system
  | .consumer, _, _ => system.readStep
  | _, _, _ => system

variable {bits : Nat} {system : QueueSystem Elem} {pending : List Elem}

/-- What the producer has read is still good enough: its slot is free and stays so. -/
def PutFits (bits : Nat) (system : QueueSystem Elem) (pending : List Elem) : Prop :=
  let slot := (system.received.length + pending.length) % 2 ^ bits
  match system.producer with
  | .idle => True
  | .readTail head _ => head = slot
  | .writeSlot head _ _ => head = slot ∧ pending.length + 1 < 2 ^ bits
  | .writeHead head element =>
    head = slot ∧ pending.length + 1 < 2 ^ bits ∧ system.queue.buffer slot = element

/-- What was shown is the front of what is pending, and a slice ends inside the array. -/
def ShownFits (bits : Nat) (system : QueueSystem Elem) (pending : List Elem) : Shown Elem → Prop
  | .nothing => True
  | .top element => pending.head? = some element
  | .slice start content => start = system.received.length % 2 ^ bits ∧ content <+: pending ∧
      start + content.length ≤ 2 ^ bits

/-- How many elements a pop may drop. -/
def PopFits (shown : Shown Elem) (n : Nat) : Prop :=
  match shown with
  | .nothing => False
  | .top _ => n = 1
  | .slice _ content => n ≤ content.length

/-- The head that the consumer has read may be old, but it is not before the tail. -/
def ReadFits (bits : Nat) (system : QueueSystem Elem) (pending : List Elem) : Prop :=
  let slot := system.received.length % 2 ^ bits
  match system.consumer with
  | .idle shown => ShownFits bits system pending shown
  | .readHead _ tail => tail = slot
  | .readSlot _ tail head => tail = slot ∧ ∃ n, 0 < n ∧ n ≤ pending.length ∧
      head = (system.received.length + n) % 2 ^ bits
  | .writeTail tail element => tail = slot ∧ pending.head? = some element
  | .popHead shown n _ tail | .popTail shown n _ tail =>
    tail = slot ∧ ShownFits bits system pending shown ∧ PopFits shown n

/-- What was put is what was received and then what is pending, in the slots from the tail on. -/
structure Invariant (bits : Nat) (system : QueueSystem Elem) (pending : List Elem) : Prop where
  capacity : system.queue.capacity = 2 ^ bits
  mask : system.queue.mask = 2 ^ bits - 1
  head : system.queue.writeHead = (system.received.length + pending.length) % 2 ^ bits
  tail : system.queue.readTail = system.received.length % 2 ^ bits
  put : system.put = system.received ++ pending
  room : pending.length < 2 ^ bits
  slots : ∀ i element, pending[i]? = some element →
    system.queue.buffer ((system.received.length + i) % 2 ^ bits) = element
  producer : PutFits bits system pending
  consumer : ReadFits bits system pending
  warnings : system.warnings = 0

def unread : List Elem :=
  (List.range (count queue.writeHead queue.readTail queue.mask)).map fun i =>
    queue.buffer (advance queue.readTail i queue.mask)

/-- What holds at every point of every interleaving. -/
structure Sound (system : QueueSystem Elem) : Prop where
  delivered : system.put = system.received ++ unread system.queue
  apart : ∀ head tail element, system.producer = .writeSlot head tail element →
    head < system.queue.capacity ∧
      ∀ i < count system.queue.writeHead system.queue.readTail system.queue.mask,
        advance system.queue.readTail i system.queue.mask ≠ head
  top : ∀ element, system.consumer.shown = .top element → (unread system.queue).head? = some element
  slice : ∀ start content, system.consumer.shown = .slice start content →
    slots system.queue start content.length = content ∧
      start + content.length ≤ system.queue.capacity ∧ content <+: unread system.queue
  warnings : system.warnings = 0

namespace Invariant

variable (fits : bits < 32) (invariant : Invariant bits system pending)

include invariant

theorem slot_apart {i : Nat} (inside : i < pending.length) :
    (system.received.length + i) % 2 ^ bits ≠ (system.received.length + pending.length) % 2 ^ bits := by
  intro same
  have room := invariant.room
  have gap : i ≡ pending.length [MOD 2 ^ bits] := Nat.ModEq.add_left_cancel' _ same
  rw [Nat.ModEq, Nat.mod_eq_of_lt (by omega), Nat.mod_eq_of_lt room] at gap
  omega

/-- The slots of a slice are the front of what is pending. -/
theorem slots_eq {n : Nat} (inside : n ≤ pending.length)
    (ends : system.received.length % 2 ^ bits + n ≤ 2 ^ bits) :
    QueueSystem.slots system.queue (system.received.length % 2 ^ bits) n = pending.take n := by
  apply List.ext_getElem
  · simp [QueueSystem.slots, inside]
  · intro i first second
    have bound : i < n := by simpa [QueueSystem.slots] using first
    have slot := invariant.slots i _ (List.getElem?_eq_getElem (by omega))
    rw [← Nat.mod_add_mod, Nat.mod_eq_of_lt (by omega : system.received.length % 2 ^ bits + i < 2 ^ bits)]
      at slot
    simp [QueueSystem.slots, slot]

/-- A slice ends at the end of the array or at the head that was read. -/
theorem eleNum_le {n : Nat} (inside : n ≤ pending.length) :
    let num := eleNum system.queue ((system.received.length + n) % 2 ^ bits) (system.received.length % 2 ^ bits)
    num ≤ n ∧ system.received.length % 2 ^ bits + num ≤ 2 ^ bits := by
  have room := invariant.room
  have start := Nat.mod_lt system.received.length (Nat.two_pow_pos bits)
  have wrap : (system.received.length + n) % 2 ^ bits = (system.received.length % 2 ^ bits + n) % 2 ^ bits :=
    (Nat.mod_add_mod ..).symm
  simp only [eleNum, invariant.mask, invariant.capacity, Nat.and_two_pow_sub_one_eq_mod, Nat.mod_mod, wrap]
  generalize system.received.length % 2 ^ bits = first at start ⊢
  rcases Nat.lt_or_ge (first + n) (2 ^ bits) with whole | past
  · rw [Nat.mod_eq_of_lt whole]
    split_ifs <;> omega
  · rw [Nat.mod_eq_sub_mod past, Nat.mod_eq_of_lt (by omega)]
    split_ifs <;> omega

omit invariant in
theorem shown_mono {later : QueueSystem Elem} {more : List Elem} {shown : Shown Elem}
    (same : later.received = system.received) (front : pending <+: more)
    (shows : ShownFits bits system pending shown) : ShownFits bits later more shown := by
  cases shown with
  | nothing => trivial
  | top first =>
    obtain ⟨rest, rfl⟩ := front
    rw [ShownFits] at shows ⊢
    rw [List.head?_append, shows, Option.some_or]
  | slice start content => exact ⟨same ▸ shows.1, shows.2.1.trans front, shows.2.2⟩

/-- The producer only adds to what is pending. -/
theorem consumer_mono {later : QueueSystem Elem} {more : List Elem} (front : pending <+: more)
    (same : later.received = system.received) (still : later.consumer = system.consumer) :
    ReadFits bits later more := by
  have own := invariant.consumer
  unfold ReadFits at own ⊢
  rw [still, same]
  cases here : system.consumer with
  | idle shown =>
    rw [here] at own
    exact shown_mono same front own
  | readHead call tail => simpa only [here] using own
  | readSlot call tail head =>
    simp only [here] at own
    obtain ⟨slot, n, positive, bound, old⟩ := own
    exact ⟨slot, n, positive, bound.trans front.length_le, old⟩
  | writeTail tail first =>
    simp only [here] at own
    obtain ⟨rest, rfl⟩ := front
    exact ⟨own.1, by rw [List.head?_append, own.2, Option.some_or]⟩
  | popHead shown n totalCnt tail | popTail shown n totalCnt tail =>
    simp only [here] at own
    exact ⟨own.1, shown_mono same front own.2.1, own.2.2⟩

include fits

theorem publish {head : Nat} {element : Elem} (here : system.producer = .writeHead head element) :
    Invariant bits system.putStep (pending ++ [element]) := by
  have own := invariant.producer
  simp only [PutFits, here] at own
  obtain ⟨slot, room, written⟩ := own
  simp only [QueueSystem.putStep, here]
  constructor
  case capacity => exact invariant.capacity
  case mask => exact invariant.mask
  case head =>
    simp only
    rw [slot, invariant.mask, advance_eq fits (by omega), List.length_append, List.length_singleton,
      Nat.add_assoc]
  case tail => exact invariant.tail
  case put => simp only [invariant.put, List.append_assoc]
  case room => simpa using room
  case slots =>
    intro i first found
    rcases Nat.lt_or_ge i pending.length with inside | last
    · rw [List.getElem?_append_left inside] at found
      exact invariant.slots i first found
    · rw [List.getElem?_append_right last, List.getElem?_singleton] at found
      obtain ⟨zero, rfl⟩ : i - pending.length = 0 ∧ element = first := by simpa using found
      rwa [show i = pending.length by omega]
  case producer => trivial
  case consumer => exact invariant.consumer_mono (List.prefix_append _ _) rfl rfl
  case warnings => exact invariant.warnings

theorem putStep : ∃ later, Invariant bits system.putStep later := by
  have own := invariant.producer
  unfold PutFits at own
  cases here : system.producer with
  | idle =>
    simp only [QueueSystem.putStep, here]
    exact ⟨pending, invariant⟩
  | readTail head element =>
    simp only [here] at own
    simp only [QueueSystem.putStep, here]
    rw [own, invariant.tail, invariant.mask, space_eq fits invariant.room]
    split_ifs with full
    · exact ⟨pending, invariant⟩
    · exact ⟨pending, { invariant with
        producer := ⟨rfl, by omega⟩
        consumer := invariant.consumer_mono List.prefix_rfl rfl rfl }⟩
  | writeSlot head tail element =>
    simp only [here] at own
    obtain ⟨slot, room⟩ := own
    simp only [QueueSystem.putStep, here]
    refine ⟨pending, ?_⟩
    constructor
    case slots =>
      intro i first found
      have inside := (List.getElem?_eq_some_iff.mp found).1
      have apart := invariant.slot_apart inside
      rw [← slot] at apart
      simp only [SPSCBlockingQueue.setSlot_buffer, update_of_ne apart]
      exact invariant.slots i first found
    case producer => exact ⟨slot, room, by simp only [← slot, SPSCBlockingQueue.setSlot_buffer, update_self]⟩
    case consumer => exact invariant.consumer_mono List.prefix_rfl rfl rfl
    all_goals simp only [SPSCBlockingQueue.setSlot_capacity, SPSCBlockingQueue.setSlot_mask,
      SPSCBlockingQueue.setSlot_writeHead, SPSCBlockingQueue.setSlot_readTail, invariant.capacity,
      invariant.mask, invariant.head, invariant.tail, invariant.put, invariant.room, invariant.warnings]
  | writeHead head element => exact ⟨_, invariant.publish fits here⟩

/-- The end of a read or of a pop: the next `n` elements are received and their slots are free. -/
theorem retire {n totalCnt : Nat} {tail : Nat} (slot : tail = system.received.length % 2 ^ bits)
    (inside : n ≤ pending.length) : Invariant bits
      { system with
        queue := { system.queue with totalCnt := totalCnt, readTail := advance tail n system.queue.mask }
        consumer := .idle .nothing
        received := system.received ++ pending.take n } (pending.drop n) := by
  have room := invariant.room
  have total : (pending.take n).length = n := by simp [inside]
  have next (i : Nat) : system.received.length + n + i = system.received.length + (n + i) := Nat.add_assoc ..
  constructor
  case capacity => exact invariant.capacity
  case mask => exact invariant.mask
  case head =>
    simp only [List.length_append, total, List.length_drop]
    rw [next, Nat.add_sub_cancel' inside]
    exact invariant.head
  case tail =>
    simp only [List.length_append, total]
    rw [slot, invariant.mask, advance_eq fits (by omega)]
  case put => simpa using invariant.put
  case room => simp only [List.length_drop]; omega
  case slots =>
    intro i element found
    rw [List.getElem?_drop] at found
    simp only [List.length_append, total, next]
    exact invariant.slots _ element found
  case producer =>
    have own := invariant.producer
    unfold PutFits at own ⊢
    simp only [List.length_append, total, List.length_drop]
    rw [next, Nat.add_sub_cancel' inside]
    cases here : system.producer with
    | idle => trivial
    | readTail head element => simpa only [here] using own
    | writeSlot head tail element =>
      simp only [here] at own
      exact ⟨own.1, by omega⟩
    | writeHead head element =>
      simp only [here] at own
      exact ⟨own.1, by omega, own.2.2⟩
  case consumer => trivial
  case warnings => exact invariant.warnings

/-- A pop that drops no more than was shown is not refused, and it takes the front of what is pending. -/
theorem pop_fits {shown : Shown Elem} {n : Nat} (shows : ShownFits bits system pending shown)
    (present : PopFits shown n) :
    ¬ refused system.queue shown n (system.received.length % 2 ^ bits) ∧ n ≤ pending.length ∧
      taken shown n = pending.take n := by
  have room := invariant.room
  unfold refused
  rw [invariant.head, invariant.mask, count_eq fits room, invariant.capacity,
    Nat.and_two_pow_sub_one_eq_mod, Nat.mod_mod]
  cases shown with
  | nothing => exact present.elim
  | top element =>
    obtain ⟨rest, rfl⟩ := List.head?_eq_some_iff.mp shows
    rw [PopFits] at present
    subst present
    exact ⟨by simp, by simp, rfl⟩
  | slice start content =>
    obtain ⟨rfl, ⟨rest, rfl⟩, ends⟩ := shows
    have capacity := pow_le fits
    rw [PopFits] at present
    rw [Nat.mod_eq_of_lt (by omega : system.received.length % 2 ^ bits + n < 2 ^ 32), List.length_append]
    exact ⟨by omega, by omega, (List.take_append_of_le_length present).symm⟩

theorem readStep : ∃ later, Invariant bits system.readStep later := by
  have own := invariant.consumer
  have producer := invariant.producer
  unfold ReadFits at own
  unfold QueueSystem.readStep
  cases here : system.consumer with
  | idle shown => exact ⟨pending, by simpa only [here] using invariant⟩
  | readHead call tail =>
    simp only [here] at own ⊢
    have counted := @count_eq _ system.received.length fits _ invariant.room
    rw [own, invariant.head, invariant.mask, counted]
    split_ifs with empty
    · exact ⟨pending, invariant⟩
    · exact ⟨pending, { invariant with
        consumer := ⟨rfl, pending.length, by omega, le_rfl, rfl⟩ }⟩
  | readSlot call tail head =>
    obtain ⟨rfl, n, positive, inside, old⟩ := by simpa only [here] using own
    have first : pending.head? = some (system.queue.buffer (system.received.length % 2 ^ bits)) := by
      have found := List.getElem?_eq_getElem (by omega : 0 < pending.length)
      rw [List.head?_eq_getElem?, found, ← invariant.slots 0 _ found, Nat.add_zero]
    cases call with
    | take => exact ⟨pending, { invariant with consumer := ⟨rfl, first⟩ }⟩
    | top => exact ⟨pending, { invariant with consumer := first }⟩
    | getAll =>
      obtain ⟨within, ends⟩ := invariant.eleNum_le inside
      simp only [old]
      rw [invariant.mask, Nat.and_two_pow_sub_one_eq_mod, Nat.mod_mod,
        invariant.slots_eq (within.trans inside) ends]
      refine ⟨pending, { invariant with consumer := ⟨rfl, List.take_prefix _ _, ?_⟩ }⟩
      rw [List.length_take, Nat.min_eq_left (within.trans inside)]
      exact ends
  | writeTail tail element =>
    obtain ⟨slot, first⟩ := by simpa only [here] using own
    obtain ⟨rest, rfl⟩ := List.head?_eq_some_iff.mp first
    exact ⟨_, invariant.retire fits slot (by simp : 1 ≤ _)⟩
  | popHead shown n totalCnt tail =>
    obtain ⟨rfl, shows, present⟩ := by simpa only [here] using own
    simp only
    rw [if_neg (invariant.pop_fits fits shows present).1]
    exact ⟨pending, { invariant with consumer := ⟨rfl, shows, present⟩ }⟩
  | popTail shown n totalCnt tail =>
    obtain ⟨slot, shows, present⟩ := by simpa only [here] using own
    obtain ⟨-, inside, same⟩ := invariant.pop_fits fits shows present
    simp only
    rw [same]
    exact ⟨_, invariant.retire fits slot inside⟩

theorem step (event : QueueEvent Elem) : ∃ later, Invariant bits (system.step event) later := by
  have producer := invariant.producer
  have consumer := invariant.consumer
  unfold QueueSystem.step
  split
  case h_1 element idle =>
    exact ⟨pending, { invariant with
      producer := invariant.head
      consumer := invariant.consumer_mono List.prefix_rfl rfl rfl }⟩
  case h_2 => exact invariant.putStep fits
  case h_3 call shown idle => exact ⟨pending, { invariant with consumer := invariant.tail }⟩
  case h_4 element idle =>
    rw [ReadFits, idle] at consumer
    exact ⟨pending, { invariant with consumer := ⟨invariant.tail, consumer, rfl⟩ }⟩
  case h_5 n start content idle =>
    rw [ReadFits, idle] at consumer
    split_ifs with enough
    · exact ⟨pending, { invariant with consumer := ⟨invariant.tail, consumer, enough⟩ }⟩
    · exact ⟨pending, invariant⟩
  case h_6 => exact invariant.readStep fits
  case h_7 => exact ⟨pending, invariant⟩

theorem unread_eq : unread system.queue = pending := by
  have counted := @count_eq _ system.received.length fits _ invariant.room
  unfold unread
  rw [invariant.head, invariant.tail, invariant.mask, counted]
  apply List.ext_getElem
  · simp
  · intro i first second
    have room := invariant.room
    have slot := invariant.slots i _ (List.getElem?_eq_getElem second)
    rw [List.getElem_map, List.getElem_range, advance_eq fits (by omega), slot]

theorem sound : Sound system := by
  have unread := invariant.unread_eq fits
  have consumer := invariant.consumer
  have shows : ShownFits bits system pending system.consumer.shown := by
    unfold ReadFits at consumer
    cases here : system.consumer with
    | idle shown =>
      simp only [here] at consumer
      exact consumer
    | popHead shown n totalCnt tail | popTail shown n totalCnt tail =>
      simp only [here] at consumer
      exact consumer.2.1
    | _ => trivial
  constructor
  case delivered => rw [unread, invariant.put]
  case apart =>
    intro head tail element here
    have own := invariant.producer
    simp only [PutFits, here] at own
    have counted := @count_eq _ system.received.length fits _ invariant.room
    rw [own.1, invariant.capacity, invariant.head, invariant.tail, invariant.mask, counted]
    refine ⟨Nat.mod_lt _ (Nat.two_pow_pos bits), ?_⟩
    intro i inside
    rw [advance_eq fits (by have := invariant.room; omega)]
    exact invariant.slot_apart inside
  case top =>
    intro element here
    rw [here] at shows
    rwa [unread]
  case slice =>
    intro start content here
    rw [here] at shows
    obtain ⟨rfl, front, ends⟩ := shows
    refine ⟨?_, invariant.capacity ▸ ends, unread.symm ▸ front⟩
    rw [invariant.slots_eq front.length_le ends]
    exact (List.prefix_iff_eq_take.mp front).symm
  case warnings => exact invariant.warnings

end Invariant

/-- The consumer receives what was put, in order and once; the producer's next slot has been popped; what
the consumer was shown stays as it was until it is popped, and no pop is refused. -/
theorem blockingQueue_sound (null : Elem) (capacity : QueueCapacity) (events : List (QueueEvent Elem)) :
    Sound (run step { queue := spscBlockingQueueCreate null capacity } events) := by
  have least := capacity.least
  obtain ⟨bits, value⟩ := (Nat.and_sub_one_eq_zero_iff_isPowerOfTwo (by omega)).mp capacity.powerOfTwo
  have fits : bits < 32 := (Nat.pow_lt_pow_iff_right (by decide : 1 < 2)).mp (value ▸ capacity.fits)
  have initial : ∃ pending,
      Invariant bits { queue := spscBlockingQueueCreate null capacity : QueueSystem Elem } pending :=
    ⟨[], value, congrArg (· - 1) value, (Nat.zero_mod _).symm, (Nat.zero_mod _).symm, rfl, Nat.two_pow_pos bits,
      nofun, trivial, trivial, rfl⟩
  obtain ⟨pending, invariant⟩ := run_invariant (fun system => ∃ pending, Invariant bits system pending)
    (fun _ event ⟨_, invariant⟩ => invariant.step fits event) initial events
  exact invariant.sound fits

end QueueSystem

end OpenGauss.ExtremeRto
