import OpenGauss.Segment.ExtentSystem

namespace OpenGauss.Segment

namespace ExtentGroup

variable {eg : ExtentGroup}

section Pages

variable (inv : eg.MapInvariant)
include inv

theorem MapInvariant.firstMap_add {index : Nat} {group : MapGroup}
    (found : eg.mapHead.groups[index]? = some group) {page : Nat} (inside : page < mapGroupSize) :
    group.firstMap + page = eg.extentSize.pageBlock (index * mapGroupSize + page) := by
  have block : (index * mapGroupSize + page) / mapGroupSize = index ∧
      (index * mapGroupSize + page) % mapGroupSize = page := by
    simp only [mapGroupSize] at *
    omega
  rw [(inv.groups index group found).1, ExtentSize.pageBlock, block.1, block.2]

/-- The pages of the groups are the map pages in their order. -/
theorem MapInvariant.allMapPages_take {count : Nat} (inside : count ≤ eg.mapHead.groups.length) :
    ((eg.mapHead.groups.take count).flatMap fun group =>
        (List.range group.pageCount).map fun page => eg.mapPages (group.firstMap + page)) =
      (List.range (count * mapGroupSize)).map fun page => eg.mapPages (eg.extentSize.pageBlock page) := by
  induction count with
  | zero => rw [List.take_zero, Nat.zero_mul, List.range_zero, List.flatMap_nil, List.map_nil]
  | succ count ih =>
    have found := List.getElem?_eq_getElem inside
    rw [List.take_add_one, List.flatMap_append, ih (Nat.le_of_lt inside), found, Nat.add_mul,
      Nat.one_mul, List.range_add, List.map_append, List.map_map]
    congr 1
    rw [Option.toList_some, List.flatMap_singleton, (inv.groups _ _ found).2.1]
    refine List.map_congr_left fun page member => ?_
    rw [inv.firstMap_add found (List.mem_range.mp member), Function.comp_apply]

theorem MapInvariant.allMapPages_eq :
    eg.allMapPages = (List.range (eg.mapHead.groups.length * mapGroupSize)).map fun page =>
      eg.mapPages (eg.extentSize.pageBlock page) := by
  rw [← inv.allMapPages_take le_rfl, List.take_length, allMapPages]

theorem MapInvariant.mem_allMapPages {mapPage : MapPage} :
    mapPage ∈ eg.allMapPages ↔ ∃ page < eg.mapHead.groups.length * mapGroupSize,
      eg.mapPages (eg.extentSize.pageBlock page) = mapPage := by
  simp only [inv.allMapPages_eq, List.mem_map, List.mem_range]

omit inv in
theorem setCount_pages (eg : ExtentGroup) (count : Nat) : ((List.range count).map fun page =>
        Lib.setCount (eg.mapPages (eg.extentSize.pageBlock page)).bitmap mapBitCnt).sum =
      Lib.setCount eg.bit (count * mapBitCnt) := by
  induction count with
  | zero => rw [List.range_zero, Nat.zero_mul]; rfl
  | succ count ih =>
    have last : Lib.setCount (fun bitId => eg.bit (count * mapBitCnt + bitId)) mapBitCnt =
        Lib.setCount (eg.mapPages (eg.extentSize.pageBlock count)).bitmap mapBitCnt := by
      refine Lib.setCount_congr fun bitId below => ?_
      have place : (count * mapBitCnt + bitId) / mapBitCnt = count ∧
          (count * mapBitCnt + bitId) % mapBitCnt = bitId := by
        simp only [mapBitCnt] at *
        omega
      rw [bit, place.1, place.2]
    rw [List.range_succ, List.map_append, List.sum_append, ih, Nat.add_mul, Nat.one_mul,
      Lib.setCount_add, List.map_singleton, List.sum_singleton, last]

theorem MapInvariant.allocatedExtents_eq : eg.mapHead.allocatedExtents =
    (eg.allMapPages.map fun page => Lib.setCount page.bitmap mapBitCnt).sum := by
  have extents : eg.mapHead.groups.length * mapGroupExtents =
      eg.mapHead.groups.length * mapGroupSize * mapBitCnt := by
    rw [Nat.mul_assoc, show mapGroupSize * mapBitCnt = mapGroupExtents from rfl]
  rw [inv.allMapPages_eq, List.map_map, inv.allocated, extents, ← setCount_pages, Function.comp_def]

/-- The bits of a full page, read from the page. -/
theorem MapInvariant.fullMapPage_of {index : Nat} {group : MapGroup}
    (found : eg.mapHead.groups[index]? = some group) {page : Nat} (inside : page < mapGroupSize)
    (full : eg.FullPage (index * mapGroupSize + page)) :
    fullMapPage (eg.mapPages (group.firstMap + page)) := by
  intro bitId below
  rw [inv.firstMap_add found inside]
  have place : ((index * mapGroupSize + page) * mapBitCnt + bitId) / mapBitCnt =
        index * mapGroupSize + page ∧
      ((index * mapGroupSize + page) * mapBitCnt + bitId) % mapBitCnt = bitId := by
    simp only [mapBitCnt] at *
    omega
  have set := full _ place.1
  rwa [bit, place.1, place.2] at set

/-- With a free extent inside the file one attempt is enough, and nothing is extended. -/
theorem MapInvariant.allocExtent_found {number : Nat}
    (inside : number < eg.mapHead.groups.length * mapGroupExtents) (clear : eg.bit number = false)
    (enough : eg.extentSize.extentStart number + eg.extentSize.blocks ≤ eg.totalBlocks)
    (spaceLimit : Nat) :
    ∃ later block, eg.allocExtent invalidBlockNumber spaceLimit = .allocated later block ∧
      later.totalBlocks = eg.totalBlocks ∧
      later.mapHead.groups.length = eg.mapHead.groups.length := by
  obtain ⟨least, below, free, first⟩ := Lib.exists_least_clear ⟨number, inside, clear⟩
  have before : least ≤ number := by
    by_contra late
    simp [first number (Nat.not_le.mp late)] at clear
  have start := eg.extentSize.extentStart_le before
  have filled : eg.mapHead.groups ≠ [] := by
    intro absent
    simp [absent] at inside
  have fits : eg.extentSize.Fits least := by
    have last := inv.file_last
    obtain ⟨-, -, -, -, groups, -⟩ := inv.groups (eg.mapHead.groups.length - 1) _
      (List.getElem?_eq_getElem (Nat.sub_lt (List.length_pos_iff.mpr filled) Nat.one_pos))
    have last_lt := Nat.lt_of_mul_lt_mul_right groups
    exact ⟨below.trans_le (Nat.mul_le_mul_right _ (by omega)), by omega⟩
  obtain ⟨attempt, tried, attempts⟩ := inv.tryAllocExtent_least below free first fits
  rcases allocLoop_attempt inv filled fits tried attempts spaceLimit 3 with
    ⟨-, later, done, took⟩ | ⟨short, -⟩
  · refine ⟨later, _, done, took.totalBlocks, ?_⟩
    rw [took.groups, List.length_modify]
  · omega

end Pages

end ExtentGroup

open ExtentGroup

/-- The extents handed out are those with their bit set. -/
structure ExtentSystem.Invariant (system : ExtentSystem) : Prop where
  map : system.eg.MapInvariant
  nodup : system.allocated.Nodup
  extents : ∀ block, block ∈ system.allocated ↔
    ∃ number, system.eg.bit number = true ∧ block = system.eg.extentSize.extentStart number
  fits : ∀ number, system.eg.bit number = true → system.eg.extentSize.Fits number

namespace ExtentSystem

theorem start_invariant (size : ExtentSize) : (start size).Invariant where
  map := initDataFiles_invariant size
  nodup := List.nodup_nil
  extents := by simp [start, bit, initDataFiles]
  fits := by simp [start, bit, initDataFiles]

variable {system : ExtentSystem}

theorem Invariant.mem_iff (inv : system.Invariant) (number : Nat) :
    system.eg.extentSize.extentStart number ∈ system.allocated ↔ system.eg.bit number = true := by
  rw [inv.extents]
  constructor
  · rintro ⟨other, set, same⟩
    rwa [system.eg.extentSize.extentStart_inj same]
  · exact fun set => ⟨number, set, rfl⟩

theorem Invariant.outcome (inv : system.Invariant) {number spaceLimit mapGroup freePage : Nat}
    {result : AllocResult} (clear : system.eg.bit number = false)
    (fits : system.eg.extentSize.Fits number)
    (outcome : Outcome system.eg spaceLimit number mapGroup freePage result) :
    (∃ eg, result = .error eg ∧ ({ system with eg } : ExtentSystem).Invariant) ∨
      ∃ eg, result = .allocated eg (system.eg.extentSize.extentStart number) ∧
        ({ system with
            eg
            allocated := system.eg.extentSize.extentStart number :: system.allocated } :
          ExtentSystem).Invariant := by
  cases outcome with
  | @error eg map bits size full =>
    left
    refine ⟨eg, rfl, map, inv.nodup, ?_, ?_⟩
    · rw [bits, size]
      exact inv.extents
    · rw [bits, size]
      exact inv.fits
  | @allocated grown eg bits size took =>
    right
    have bit_eq : eg.bit = Function.update system.eg.bit number true := by rw [took.bit_eq, bits]
    have extentSize : eg.extentSize = system.eg.extentSize := by rw [took.extentSize, size]
    refine ⟨eg, rfl, took.inv, List.nodup_cons.mpr ⟨?_, inv.nodup⟩, ?_, ?_⟩
    · rw [inv.mem_iff, clear]
      exact Bool.false_ne_true
    · intro block
      rw [List.mem_cons, inv.extents, bit_eq, extentSize]
      constructor
      · rintro (rfl | ⟨other, set, rfl⟩)
        · exact ⟨number, Function.update_self _ _ _, rfl⟩
        · refine ⟨other, ?_, rfl⟩
          rw [Function.update_of_ne]
          · exact set
          · rintro rfl
            simp [clear] at set
      · rintro ⟨other, set, rfl⟩
        by_cases same : other = number
        · exact Or.inl (by rw [same])
        · rw [Function.update_of_ne same] at set
          exact Or.inr ⟨other, set, rfl⟩
    · intro other set
      rw [extentSize]
      rw [bit_eq] at set
      by_cases same : other = number
      · rwa [same]
      · rw [Function.update_of_ne same] at set
        exact inv.fits other set

theorem Invariant.freed (inv : system.Invariant) {number : Nat} {eg : ExtentGroup}
    (freed : Freed system.eg number eg) :
    ({ system with
        eg
        allocated := system.allocated.erase (system.eg.extentSize.extentStart number) } :
      ExtentSystem).Invariant where
  map := freed.inv
  nodup := inv.nodup.erase _
  extents := by
    intro block
    rw [inv.nodup.mem_erase_iff, inv.extents, freed.bit_eq, freed.extentSize]
    constructor
    · rintro ⟨different, other, set, rfl⟩
      refine ⟨other, ?_, rfl⟩
      rw [Function.update_of_ne]
      · exact set
      · rintro rfl
        exact different rfl
    · rintro ⟨other, set, rfl⟩
      have different : other ≠ number := by
        rintro rfl
        rw [Function.update_self] at set
        cases set
      rw [Function.update_of_ne different] at set
      exact ⟨fun same => different (system.eg.extentSize.extentStart_inj same), other, set, rfl⟩
  fits := by
    intro other set
    rw [freed.extentSize]
    rw [freed.bit_eq] at set
    by_cases same : other = number
    · rw [same, Function.update_self] at set
      cases set
    · rw [Function.update_of_ne same] at set
      exact inv.fits other set

theorem Invariant.step {event : ExtentEvent} (within : system.Within event) (inv : system.Invariant) :
    (system.step event).Invariant := by
  unfold ExtentSystem.step
  split
  · exact inv
  · have stopped : ({ system with stopped := true } : ExtentSystem).Invariant :=
      ⟨inv.map, inv.nodup, inv.extents, inv.fits⟩
    cases event with
    | alloc preassignedBlock spaceLimit =>
      dsimp only
      obtain ⟨room, rfl | ⟨number, inside, rfl, locatable, fits⟩⟩ := within
      · obtain ⟨number, clear, -, counted, outcome⟩ := inv.map.allocExtent room spaceLimit
        rcases inv.outcome clear (room.mono counted) outcome with ⟨eg, done, next⟩ | ⟨eg, done,
          next⟩ <;> rwa [done]
      · rcases inv.map.allocExtent_preassigned inside locatable fits spaceLimit with
          ⟨-, panic⟩ | ⟨clear, mapGroup, freePage, outcome⟩
        · rwa [panic]
        · rcases inv.outcome clear fits outcome with ⟨eg, done, next⟩ | ⟨eg, done, next⟩ <;> rwa [done]
    | free block =>
      dsimp only
      split
      · rename_i member
        obtain ⟨number, set, rfl⟩ := (inv.extents block).mp member
        obtain ⟨eg, done, freed⟩ := inv.map.freeExtent set (within number rfl)
        rw [done]
        exact inv.freed freed
      · exact inv

/-- The invariant over block numbers and bits says what callers rely on. -/
theorem Invariant.sound (inv : system.Invariant) : system.Sound where
  disjoint := by
    refine inv.nodup.pairwise_of_forall_ne fun first inFirst second inSecond different => ?_
    obtain ⟨number, -, rfl⟩ := (inv.extents first).mp inFirst
    obtain ⟨other, -, rfl⟩ := (inv.extents second).mp inSecond
    rcases Nat.lt_trichotomy number other with before | same | after
    · exact Or.inl (system.eg.extentSize.extentStart_lt before)
    · exact absurd (by rw [same]) different
    · exact Or.inr (system.eg.extentSize.extentStart_lt after)
  outside := by
    intro block member
    obtain ⟨number, -, rfl⟩ := (inv.extents block).mp member
    refine ⟨(system.eg.extentSize.extentStart_outside number 0).1, ?_⟩
    intro group known
    obtain ⟨index, found⟩ := List.getElem?_of_mem known
    obtain ⟨firstMap, pageCount, -⟩ := inv.map.groups index group found
    rw [firstMap, pageCount]
    exact (system.eg.extentSize.extentStart_outside number index).2
  marked := by
    intro block
    rw [inv.extents]
    constructor
    · rintro ⟨number, set, rfl⟩
      have inside := inv.map.mapped set
      refine ⟨_, inv.map.mem_allMapPages.mpr ⟨number / mapBitCnt, ?_, rfl⟩, number % mapBitCnt,
        Nat.mod_lt _ (by decide), set, (inv.map.pagenum inside (inv.fits number set)).symm⟩
      simp only [mapBitCnt, mapGroupExtents, mapGroupSize] at *
      omega
    · rintro ⟨mapPage, member, bitId, below, set, rfl⟩
      obtain ⟨page, inside, rfl⟩ := inv.map.mem_allMapPages.mp member
      have place : (page * mapBitCnt + bitId) / mapBitCnt = page ∧
          (page * mapBitCnt + bitId) % mapBitCnt = bitId := by
        simp only [mapBitCnt] at *
        omega
      have mapped : page * mapBitCnt + bitId < system.eg.mapHead.groups.length * mapGroupExtents := by
        simp only [mapBitCnt, mapGroupExtents, mapGroupSize] at *
        omega
      have marked : system.eg.bit (page * mapBitCnt + bitId) = true := by rwa [bit, place.1, place.2]
      have start := inv.map.pagenum mapped (inv.fits _ marked)
      rw [place.1, place.2] at start
      exact ⟨_, marked, start⟩
  freeBits := by
    intro mapPage member
    obtain ⟨page, inside, rfl⟩ := inv.map.mem_allMapPages.mp member
    exact (inv.map.pages page inside).1.freeBits
  allocatedExtents := inv.map.allocatedExtents_eq
  freeBegin := by
    intro mapPage member
    obtain ⟨page, inside, rfl⟩ := inv.map.mem_allMapPages.mp member
    exact (inv.map.pages page inside).1.freeBegin
  dirtyLast := by
    intro mapPage member
    obtain ⟨page, inside, rfl⟩ := inv.map.mem_allMapPages.mp member
    exact (inv.map.pages page inside).1.dirtyLast
  freePage := by
    intro group member
    obtain ⟨index, found⟩ := List.getElem?_of_mem member
    obtain ⟨-, pageCount, below, hint, -⟩ := inv.map.groups index group found
    refine ⟨by rwa [pageCount], fun page before => ?_⟩
    exact inv.map.fullMapPage_of found (before.trans below) (hint page before)
  freeGroup := by
    intro group member page inside
    obtain ⟨index, found⟩ := List.getElem?_of_mem member
    rw [List.getElem?_take] at found
    split at found
    · rename_i before
      rw [(inv.map.groups index group found).2.1] at inside
      refine inv.map.fullMapPage_of found inside (inv.map.freeGroup_full _ ?_)
      simp only [mapGroupSize] at *
      omega
    · cases found
  found := fun _ inside clear enough => inv.map.allocExtent_found inside clear enough

/-- Over every run within the block numbers the extents handed out are disjoint, the counters are
right and the hints lead to every free extent. -/
theorem extents_sound (size : ExtentSize) (events : List ExtentEvent)
    (within : Lib.Along step Within (start size) events) :
    (Lib.run step (start size) events).Sound :=
  (Lib.run_invariant_along Invariant (fun _ _ allowed inv => inv.step allowed) within
    (start_invariant size)).sound

end ExtentSystem

end OpenGauss.Segment
