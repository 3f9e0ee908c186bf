import OpenGauss.Segment.ExtentReplay
import OpenGauss.Segment.ExtentRuns

namespace OpenGauss.Segment

open ExtentGroup

namespace ExtentSystem

/-- No preassigned block, and a space without a limit. -/
def allocNext : ExtentEvent := .alloc invalidBlockNumber 4294967296

/-- Exactly the first `count` extents are in use, and the hints are at the last one. -/
structure Filled (system : ExtentSystem) (size : ExtentSize) (count : Nat) : Prop where
  inv : system.Invariant
  running : system.stopped = false
  extentSize : system.eg.extentSize = size
  bit_iff : ∀ number, system.eg.bit number = true ↔ number < count
  hint : ∀ last, count = last + 1 → system.eg.mapHead.freeGroup = last / mapGroupExtents ∧
    ∃ group, system.eg.mapHead.groups[last / mapGroupExtents]? = some group ∧
      group.freePage = last / mapBitCnt % mapGroupSize

variable {system : ExtentSystem} {size : ExtentSize} {count : Nat}

theorem start_filled (size : ExtentSize) : (start size).Filled size 0 where
  inv := start_invariant size
  running := rfl
  extentSize := rfl
  bit_iff := by simp [start, bit, initDataFiles]
  hint := fun last absent => absurd absent.symm (Nat.succ_ne_zero last)

section

variable (filled : system.Filled size count)

include filled

theorem Filled.clear {number : Nat} (far : count ≤ number) : system.eg.bit number = false := by
  rw [Bool.eq_false_iff, Ne, filled.bit_iff]
  omega

theorem Filled.mapped {number : Nat} (used : number < count) :
    number < system.eg.mapHead.groups.length * mapGroupExtents :=
  filled.inv.map.mapped ((filled.bit_iff number).mpr used)

theorem Filled.allocatedExtents : system.eg.mapHead.allocatedExtents = count := by
  have inside : count ≤ system.eg.mapHead.groups.length * mapGroupExtents := by
    by_contra small
    exact Nat.lt_irrefl _ (filled.mapped (Nat.not_le.mp small))
  obtain ⟨rest, split⟩ := Nat.exists_eq_add_of_le inside
  rw [filled.inv.map.allocated, split, Lib.setCount_add,
    Lib.setCount_full fun number below => (filled.bit_iff number).mpr below,
    Lib.setCount_eq_zero fun number _ => filled.clear (Nat.le_add_right count number)]
  rfl

theorem Filled.within (fits : size.Fits count) :
    system.Within allocNext := by
  refine ⟨?_, Or.inl rfl⟩
  rwa [filled.extentSize, filled.allocatedExtents]

/-- The next allocation takes the next extent. -/
theorem Filled.step (fits : size.Fits count) : (system.step allocNext).Filled size (count + 1) := by
  have within := filled.within fits
  obtain ⟨number, clear, least, -, outcome⟩ := filled.inv.map.allocExtent within.1 4294967296
  have next : number = count := by
    refine Nat.le_antisymm ?_ ?_
    · by_contra late
      have set := (filled.bit_iff _).mp (least count (Nat.not_le.mp late))
      exact Nat.lt_irrefl _ set
    · by_contra early
      rw [(filled.bit_iff _).mpr (Nat.not_le.mp early)] at clear
      cases clear
  subst next
  have kept := filled.inv.step within
  cases returned : system.eg.allocExtent invalidBlockNumber 4294967296 with
  | panic => rw [returned] at outcome; cases outcome
  | looping => rw [returned] at outcome; cases outcome
  | error eg =>
    rw [returned] at outcome
    cases outcome with
    | error _ _ _ full => exact absurd full (Nat.lt_irrefl _)
  | allocated eg block =>
    rw [returned] at outcome
    rw [allocNext, step_allocated filled.running returned] at kept ⊢
    cases outcome with
    | allocated bits grownSize took =>
      refine ⟨kept, filled.running, ?_, ?_, ?_⟩
      · exact (took.extentSize.trans grownSize).trans filled.extentSize
      · intro other
        dsimp only
        rw [took.bit_eq, bits]
        by_cases same : other = number
        · simp [same]
        · rw [Function.update_of_ne same, filled.bit_iff]
          omega
      · intro last counted
        obtain rfl := Nat.succ.inj counted
        exact ⟨took.freeGroup, took.hint⟩

end

theorem run_filled (fits : ∀ number < count, size.Fits number) :
    Lib.Along step Within (start size) (List.replicate count allocNext) ∧
      (Lib.run step (start size) (List.replicate count allocNext)).Filled size count := by
  induction count with
  | zero => exact ⟨trivial, start_filled size⟩
  | succ count ih =>
    obtain ⟨along, filled⟩ := ih fun number below => fits number (Nat.lt_succ_of_lt below)
    have room := fits count (Nat.lt_succ_self count)
    rw [List.replicate_succ', Lib.run_append, Lib.along_append]
    exact ⟨⟨along, filled.within room, trivial⟩, filled.step room⟩

/-- In the largest size the first group cannot be followed by another one. -/
theorem Filled.one_group (filled : system.Filled .size8192 count) (used : 0 < count) :
    system.eg.mapHead.groups.length = 1 := by
  have pos : 0 < system.eg.mapHead.groups.length := Nat.pos_of_mul_pos_right (filled.mapped used)
  by_contra more
  obtain ⟨-, -, -, -, fits⟩ := filled.inv.map.groups 1 _
    (List.getElem?_eq_getElem (show 1 < system.eg.mapHead.groups.length by omega))
  rw [filled.extentSize] at fits
  exact absurd fits (by decide)

/-- Giving back an extent behind the computed end frees the first extent of the group instead. -/
theorem Filled.free_missed (filled : system.Filled .size8192 count) {number : Nat}
    (used : number < count) (unlocatable : ¬ ExtentSize.size8192.Locatable number) :
    ∃ later, system.eg.freeExtent (ExtentSize.size8192.extentStart number) = some later ∧
      Freed system.eg 0 later := by
  have one := filled.one_group (Nat.zero_lt_of_lt used)
  obtain ⟨group, groups⟩ := List.length_eq_one_iff.mp one
  have found : system.eg.mapHead.groups[0]? = some group := by rw [groups, List.getElem?_cons_zero]
  obtain ⟨firstMap, -⟩ := filled.inv.map.groups 0 group found
  rw [filled.extentSize] at firstMap
  have missed : system.eg.locateMapByPageid (ExtentSize.size8192.extentStart number) =
      { group := some group } := by
    have final : system.eg.mapHead.groups.getLast? = some group := by
      rw [groups, List.getLast?_singleton]
    rw [← filled.extentSize] at unlocatable ⊢
    rw [filled.inv.map.locate_missed (fun other _ holds => ?_) final, one]
    rwa [holds.unique (.start _ _)]
  have freed : ∀ {first : Nat}, first = 0 → ∃ later, system.eg.freeExtent
      (ExtentSize.size8192.extentStart number) = some later ∧ Freed system.eg first later := by
    rintro _ rfl
    refine filled.inv.map.freeExtent_at missed ?_ ?_ ?_ ?_
    · rw [one, Nat.one_mul]
      decide
    · exact (filled.bit_iff 0).mpr (Nat.zero_lt_of_lt used)
    · rw [firstMap]
      decide
    · rw [firstMap, filled.extentSize]
      rfl
  exact freed rfl

/-- Giving back the extent behind the computed end frees the bit of the first one, and the next call
hands that out a second time. -/
theorem handed_twice (filled : system.Filled .size8192 count) (used : 505856 < count)
    (small : ∀ number < count, ExtentSize.size8192.Fits number) :
    (∀ block ∈ (Lib.run step system [.free 4143976509, allocNext]).allocated,
      block + ExtentSize.size8192.blocks ≤ 4294967296) ∧
    ¬ (Lib.run step system [.free 4143976509, allocNext]).Sound := by
  rw [Lib.run_cons, Lib.run_cons, Lib.run_nil]
  have blocks := filled.inv.extents
  have member := filled.inv.mem_iff
  rw [filled.extentSize] at blocks member
  have last : ExtentSize.size8192.extentStart 505856 = 4143976509 := by decide
  have first : ExtentSize.size8192.extentStart 0 = 4157 := by decide
  have given := (member 505856).mpr ((filled.bit_iff _).mpr used)
  obtain ⟨later, done, freed⟩ := filled.free_missed used (by decide)
  rw [last] at given done
  rw [step_freed filled.running given done]
  have again : Outcome later 4294967296 0 (0 / mapGroupExtents) (0 / mapBitCnt % mapGroupSize)
      (later.allocExtent invalidBlockNumber 4294967296) := by
    refine freed.inv.allocLoop_least ?_ ?_ ?_ (ExtentSize.Fits.zero _) 4294967296 2
    · rw [freed.groups, List.length_modify, filled.one_group (by omega), Nat.one_mul]
      decide
    · rw [freed.bit_eq, Function.update_self]
    · exact fun earlier before => absurd before (Nat.not_lt_zero earlier)
  have second : ∃ eg, later.allocExtent invalidBlockNumber 4294967296 = .allocated eg 4157 ∧
      eg.extentSize = .size8192 := by
    generalize later.allocExtent invalidBlockNumber 4294967296 = result at again
    cases again with
    | error _ _ _ full => exact absurd full (Nat.lt_irrefl _)
    | allocated bits grownSize took =>
      rw [freed.extentSize, filled.extentSize, first]
      refine ⟨_, rfl, ?_⟩
      rw [took.extentSize, grownSize, freed.extentSize, filled.extentSize]
  obtain ⟨eg, returned, size⟩ := second
  have running : ({ system with eg := later, allocated := system.allocated.erase 4143976509 } :
      ExtentSystem).stopped = false := filled.running
  rw [allocNext, step_allocated running returned]
  refine ⟨?_, ?_⟩
  · intro block handed
    rcases List.mem_cons.mp handed with rfl | handed
    · decide
    · obtain ⟨number, set, rfl⟩ := (blocks block).mp (List.mem_of_mem_erase handed)
      exact (Nat.le_add_right _ _).trans (small number ((filled.bit_iff number).mp set)).2
  · intro sound
    have held : 4157 ∈ system.allocated.erase 4143976509 := by
      rw [filled.inv.nodup.mem_erase_iff]
      refine ⟨by omega, ?_⟩
      rw [← first, member, filled.bit_iff]
      omega
    have apart := (List.pairwise_cons.mp sound.disjoint).1 4157 held
    rw [size, ExtentSize.blocks] at apart
    omega

/-- 505857 extents are handed out, all below block `2 ^ 32`, and the last one is given back. -/
theorem extents_not_sound : (∀ block ∈ (Lib.run step (start .size8192)
        (List.replicate 505857 allocNext ++ [.free 4143976509, allocNext])).allocated,
      block + ExtentSize.size8192.blocks ≤ 4294967296) ∧
    ¬ (Lib.run step (start .size8192)
        (List.replicate 505857 allocNext ++ [.free 4143976509, allocNext])).Sound := by
  have small : ∀ number < 505857, ExtentSize.size8192.Fits number := by
    intro number below
    have last : ExtentSize.size8192.Fits 505856 := by decide
    exact last.mono (Nat.le_of_lt_succ below)
  rw [Lib.run_append]
  exact handed_twice (run_filled small).2 (Nat.lt_succ_self _) small

/-- Within the block numbers: three extents are handed out and the second one is given back. -/
theorem extents_sound_three : (Lib.run step (start .size1024)
      (List.replicate 3 allocNext ++ [.free (ExtentSize.size1024.extentStart 1)])).Sound := by
  have small : ∀ number < 3, ExtentSize.size1024.Fits number := by decide
  obtain ⟨along, filled⟩ := run_filled small
  refine extents_sound _ _ ((Lib.along_append _ _ _ _).mpr ⟨along, ?_, trivial⟩)
  intro number same
  rw [filled.extentSize] at same ⊢
  rw [← ExtentSize.size1024.extentStart_inj same]
  decide

end ExtentSystem

open ExtentGroup

namespace ExtentSystem

/-- A free moves no hint that its record leaves out. -/
def Logged (system : ExtentSystem) : ExtentEvent → Prop
  | .alloc _ _ => True
  | .free block => system.eg.FreeLogged block

variable {system : ExtentSystem}

theorem step_replays {event : ExtentEvent} (logged : system.Logged event) :
    Replays system.eg (system.step event).eg := by
  unfold step
  split
  · exact .refl system.eg
  · cases event with
    | alloc preassignedBlock spaceLimit =>
      have replayed := system.eg.allocLoop_replays preassignedBlock spaceLimit 4
      rw [← allocExtent] at replayed
      dsimp only
      cases returned : system.eg.allocExtent preassignedBlock spaceLimit with
      | panic => exact .refl system.eg
      | looping => exact .refl system.eg
      | error later =>
        rw [returned] at replayed
        exact replayed
      | allocated later block =>
        rw [returned] at replayed
        exact replayed
    | free block =>
      dsimp only
      split
      · cases done : system.eg.freeExtent block with
        | none => exact .refl system.eg
        | some later => exact freeExtent_replays done logged
      · exact .refl system.eg

/-- From any state on: replaying what a run logs leads from the pages at its start to those at its end,
bits, counters and hints. -/
theorem run_replays (system : ExtentSystem) (events : List ExtentEvent)
    (logged : Lib.Along step Logged system events) :
    Replays system.eg (Lib.run step system events).eg :=
  Lib.run_invariant_along (fun later => Replays system.eg later.eg)
    (fun _ _ here before => before.trans (step_replays here)) logged (.refl system.eg)

theorem allocNext_logged (system : ExtentSystem) (count : Nat) :
    Lib.Along step Logged system (List.replicate count allocNext) := by
  induction count generalizing system with
  | zero => trivial
  | succ count ih => exact ⟨trivial, ih _⟩

/-- Two extents are handed out, and the second one comes back. -/
theorem run_replays_two : Replays (start .size1024).eg (Lib.run step (start .size1024)
        (List.replicate 2 allocNext ++ [.free (ExtentSize.size1024.extentStart 1)])).eg := by
  have filled := (run_filled (show ∀ number < 2, ExtentSize.size1024.Fits number by decide)).2
  refine run_replays _ _ ((Lib.along_append _ _ _ _).mpr ⟨allocNext_logged _ 2, ?_, trivial⟩)
  obtain ⟨group, -, location, -⟩ := filled.inv.map.locate (filled.mapped Nat.one_lt_two)
    (.start _ _) (by rw [filled.extentSize]; decide)
  rw [filled.extentSize] at location
  left
  rw [location]
  exact Nat.zero_le _

/-- The records of a free behind the free group leave out the hint that it moves back. -/
theorem freeExtent_diverges {eg later : ExtentGroup} {block index : Nat} {old new : MapGroup}
    (done : eg.freeExtent block = some later) (behind : later.mapHead.freeGroup ≠ index)
    (before : eg.mapHead.groups[index]? = some old) (after : later.mapHead.groups[index]? = some new)
    (moved : old.freePage ≠ new.freePage) {first : ExtentGroup} (replayed : Replays first eg) :
    ¬ Replays first later := by
  rintro ⟨records, logged, reached⟩
  obtain ⟨early, logged', reached'⟩ := replayed
  obtain ⟨last, appended, hint⟩ := freeExtent_replayed done
  rw [appended, logged', List.append_assoc] at logged
  rw [← List.append_cancel_left logged, ExtentPages.replay_append, reached', Option.bind_some, hint,
    Option.some.injEq] at reached
  have groups := congrArg (fun pages : ExtentPages => pages.mapHead.groups[index]?) reached
  simp only [pages, List.getElem?_modify, if_neg behind, before, after] at groups
  exact moved (congrArg MapGroup.freePage (Option.some.inj groups))

/-- The first free moves the free group back to the first group, the second one is behind it. -/
theorem two_frees_diverge {first : ExtentGroup} (filled : system.Filled .size1 4241121)
    (replayed : Replays first system.eg) :
    ¬ Replays first (Lib.run step system [.free 4157, .free 4184183]).eg := by
  have start0 : ExtentSize.size1.extentStart 0 = 4157 := by decide
  have start1 : ExtentSize.size1.extentStart 4175872 = 4184183 := by decide
  obtain ⟨freeGroup, group, found, freePage⟩ := filled.hint 4241120 rfl
  have member := filled.inv.mem_iff
  rw [filled.extentSize] at member
  have given0 := (member 0).mpr ((filled.bit_iff _).mpr (by omega))
  have given1 := (member 4175872).mpr ((filled.bit_iff _).mpr (by omega))
  rw [start0] at given0
  rw [start1] at given1
  obtain ⟨middle, done0, freed0⟩ := filled.inv.map.freeExtent ((filled.bit_iff 0).mpr (by omega))
    (by rw [filled.extentSize]; decide)
  rw [filled.extentSize, start0] at done0
  have size : middle.extentSize = .size1 := freed0.extentSize.trans filled.extentSize
  have used : middle.bit 4175872 = true := by
    rw [freed0.bit_eq, Function.update_of_ne (by omega), filled.bit_iff]
    omega
  obtain ⟨later, done1, freed1⟩ := freed0.inv.freeExtent used (by rw [size]; decide)
  rw [size, start1] at done1
  have atStart : middle.mapHead.freeGroup = 0 := by
    rw [freed0.freeGroup, freeGroup]
    rfl
  have behind : later.mapHead.freeGroup ≠ 1 := by
    rw [freed1.freeGroup, atStart]
    decide
  have page : group.freePage = 1 := freePage
  have before : middle.mapHead.groups[1]? = some group := by
    have other : 0 / mapGroupExtents ≠ 1 := by decide
    rw [freed0.groups, List.getElem?_modify_ne _ _ other]
    exact found
  have after : later.mapHead.groups[1]? = some { group with freePage := 0 } := by
    have moved : 4175872 / mapBitCnt % mapGroupSize < group.freePage := by
      rw [freePage]
      decide
    rw [freed1.groups, show 4175872 / mapGroupExtents = 1 by decide, List.getElem?_modify_eq, before]
    exact congrArg (fun page => some { group with freePage := page }) (if_pos moved)
  have logged : system.eg.FreeLogged 4157 := by
    obtain ⟨group', -, location, -⟩ := filled.inv.map.locate
      (filled.mapped (show 0 < 4241121 by omega)) (.start _ _)
      (by rw [filled.extentSize]; decide)
    rw [filled.extentSize, start0] at location
    left
    rw [location]
    exact Nat.zero_le _
  have running : ({ system with eg := middle, allocated := system.allocated.erase 4157 } :
      ExtentSystem).stopped = false := filled.running
  have kept : 4184183 ∈ system.allocated.erase 4157 := by
    rw [filled.inv.nodup.mem_erase_iff]
    exact ⟨by omega, given1⟩
  rw [Lib.run_cons, Lib.run_cons, Lib.run_nil, step_freed filled.running given0 done0,
    step_freed running kept done1]
  exact freeExtent_diverges done1 behind before after (by dsimp only; omega)
    (replayed.trans (freeExtent_replays done0 logged))

/-- The first group and a page of the second one are filled. Then the first extent of each group comes
back: the primary's second group starts at its first page again, the replica's does not. -/
theorem run_not_replays : ¬ Replays (start .size1).eg (Lib.run step (start .size1)
        (List.replicate 4241121 allocNext ++ [.free 4157, .free 4184183])).eg := by
  have small : ∀ number < 4241121, ExtentSize.size1.Fits number := by
    intro number below
    have last : ExtentSize.size1.Fits 4241120 := by decide
    exact last.mono (Nat.le_of_lt_succ below)
  have replayed := run_replays (start .size1) _ (allocNext_logged _ 4241121)
  rw [Lib.run_append]
  exact two_frees_diverge (run_filled small).2 replayed

end ExtentSystem

end OpenGauss.Segment
