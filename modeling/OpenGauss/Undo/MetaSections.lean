import OpenGauss.Undo.MetaFile

namespace OpenGauss.Undo

open Lib

namespace MetaSection

/-- The record of a zone id in the file. -/
def entry (area : MetaSection) (file : MetaFile) (zone : Nat) : List Nat :=
  readAt file.words (area.address (area.base * area.perPage + zone)) area.width

def pageRecords (area : MetaSection) (page : Nat) : Nat :=
  if page = persistZoneCount / area.perPage then persistZoneCount % area.perPage else area.perPage

/-- Recovery accepts the section: every page is there and its CRC matches. -/
structure Readable (area : MetaSection) (file : MetaFile) : Prop where
  long : (area.base + (persistZoneCount / area.perPage + 1)) * area.pageSize ≤ file.size
  closed : ∀ page ≤ persistZoneCount / area.perPage,
    area.Sealed crcWord file.words (area.base + page) (area.pageRecords page)

/-- Some zone of the group that `zone` belongs to is dirty. -/
def GroupDirty (area : MetaSection) (dirty : Nat → Bool) (zone : Nat) : Prop :=
  ∃ other < persistZoneCount, other / area.perWrite = zone / area.perWrite ∧ dirty other = true

/-- The checkpoint writes the record of `zone`. -/
def Written (area : MetaSection) (dirty : Nat → Bool) (zone : Nat) : Prop :=
  area.GroupDirty dirty zone ∧
    zone % area.perWrite / area.perPage < area.writePages (zone / area.perWrite * area.perWrite)

variable {area : MetaSection} {record : Nat → List Nat}

theorem pageRecords_le (area : MetaSection) (page : Nat) : area.pageRecords page ≤ area.perPage := by
  unfold pageRecords
  split
  · exact (Nat.mod_lt _ area.perPage_pos).le
  · exact Nat.le_refl _

/-- The last page a write takes begins with a zone id of the group. -/
theorem writePages_spec {start count : Nat} (below : start < persistZoneCount)
    (aligned : area.perWrite ∣ start)
    (size : count = min area.perWrite (persistZoneCount - start)) :
    ∃ extra, area.writePages start = extra + 1 ∧ extra < pagesPerWrite ∧ extra * area.perPage < count := by
  unfold writePages
  split
  · rename_i short
    have rest : count = persistZoneCount - start := by omega
    have lower : (persistZoneCount - start) / area.lastUnit ≤ count / area.perPage := by
      rw [rest]
      exact Nat.div_le_div_left area.perPage_le area.perPage_pos
    have whole := Nat.div_add_mod count area.perPage
    have notFull : count % area.perPage ≠ 0 := by
      have slot := area.lastPage
      have total : persistZoneCount = start + count := by omega
      rwa [total, mod_of_aligned (Nat.dvd_trans area.perPage_dvd_perWrite aligned)] at slot
    refine ⟨_, rfl, ?_, ?_⟩
    · have within : count / area.perPage < pagesPerWrite := by
        rw [Nat.div_lt_iff_lt_mul area.perPage_pos, Nat.mul_comm]
        exact rest.trans_lt short
      omega
    · have pages := Nat.mul_le_mul_right area.perPage lower
      rw [Nat.mul_comm (count / _)] at pages
      omega
  · rename_i long
    have full : count = area.perWrite := by omega
    refine ⟨7, rfl, by decide, ?_⟩
    have positive := area.perPage_pos
    rw [full, perWrite, pagesPerWrite]
    omega

/-- The state of the outer loop once the ids below `done` were visited. -/
structure Visited (area : MetaSection) (record : Nat → List Nat) (file : MetaFile) (dirty : Nat → Bool)
    (done : Nat) (state : CheckPointState) : Prop where
  unset : state.needFlush = false
  written : ∀ zone < done, area.Written dirty zone → area.entry state.file zone = record zone
  kept : ∀ zone < persistZoneCount, ¬ (zone < done ∧ area.Written dirty zone) →
    area.entry state.file zone = area.entry file zone
  readable : area.Readable file → area.Readable state.file
  outside : ∀ cell, cell < area.base * area.pageSize ∨
    (area.base + (persistZoneCount / area.perPage + 1)) * area.pageSize ≤ cell →
    state.file.words cell = file.words cell
  size : file.size ≤ state.file.size
  clean : ∀ zone < done, area.GroupDirty dirty zone → state.dirty zone = false
  flags : ∀ zone, ¬ (zone < done ∧ area.GroupDirty dirty zone) → state.dirty zone = dirty zone

theorem visited_start (area : MetaSection) (record : Nat → List Nat) (file : MetaFile)
    (dirty : Nat → Bool) : area.Visited record file dirty 0 { file, dirty } where
  unset := rfl
  written _ none := absurd none (Nat.not_lt_zero _)
  kept _ _ _ := rfl
  readable same := same
  outside _ _ := rfl
  size := Nat.le_refl _
  clean _ none := absurd none (Nat.not_lt_zero _)
  flags _ _ := rfl

section Group

variable {file : MetaFile} {dirty : Nat → Bool} {state : CheckPointState} {groups count : Nat}

theorem group_iff (area : MetaSection) {zone : Nat} (inside : count ≤ area.perWrite)
    (low : groups * area.perWrite ≤ zone) (high : zone < groups * area.perWrite + count) :
    zone / area.perWrite = groups := by
  apply Nat.div_eq_of_lt_le low
  rw [Nat.succ_mul]
  omega

section

variable (visited : area.Visited record file dirty (groups * area.perWrite) state)
  (size : count = min area.perWrite (persistZoneCount - groups * area.perWrite))

include visited size

theorem anyDirty_iff {zone : Nat}
    (low : groups * area.perWrite ≤ zone) (high : zone < groups * area.perWrite + count) :
    anyDirty state.dirty (groups * area.perWrite) count = true ↔ area.GroupDirty dirty zone := by
  have group := group_iff area (by omega) low high
  have same : ∀ index, state.dirty (groups * area.perWrite + index) =
      dirty (groups * area.perWrite + index) := fun index => visited.flags _ (by omega)
  simp only [anyDirty, List.any_eq_true, List.mem_range, same, GroupDirty, group]
  constructor
  · rintro ⟨index, inside, set⟩
    have belongs : (groups * area.perWrite + index) / area.perWrite = groups :=
      group_iff area (Nat.le_trans size.le (Nat.min_le_left _ _)) (Nat.le_add_right _ _) (by omega)
    exact ⟨_, by omega, belongs, set⟩
  · rintro ⟨other, below, belongs, set⟩
    have bounds := Nat.div_add_mod other area.perWrite
    have slot := Nat.mod_lt other area.perWrite_pos
    rw [belongs, Nat.mul_comm] at bounds
    refine ⟨other % area.perWrite, by omega, ?_⟩
    rwa [bounds]

theorem Visited.skip {result : CheckPointState} (unset : result.needFlush = false)
    (absent : anyDirty state.dirty (groups * area.perWrite) count = false)
    (flags : result.dirty = state.dirty) (same : result.file = state.file) :
    area.Visited record file dirty (groups * area.perWrite + count) result := by
  have idle : ∀ zone, groups * area.perWrite ≤ zone → zone < groups * area.perWrite + count →
      ¬ area.GroupDirty dirty zone := by
    intro zone low high set
    rw [← anyDirty_iff visited size low high, absent] at set
    cases set
  constructor
  · exact unset
  · intro zone early written
    rw [same]
    refine visited.written zone ?_ written
    by_contra late
    exact idle zone (by omega) early written.1
  · intro zone below others
    rw [same]
    exact visited.kept zone below fun both => others ⟨by omega, both.2⟩
  · rw [same]
    exact visited.readable
  · rw [same]
    exact visited.outside
  · rw [same]
    exact visited.size
  · intro zone early set
    rw [flags]
    refine visited.clean zone ?_ set
    by_contra late
    exact idle zone (by omega) early set
  · intro zone others
    rw [flags]
    exact visited.flags zone fun both => others ⟨by omega, both.2⟩

end

theorem write_eq (file : MetaFile) (buffer : Nat → Nat) (groups pages : Nat) :
    (file.write (area.base * area.pageSize +
        groups * area.perWrite / area.perWrite * (pagesPerWrite * area.pageSize))
      (readAt buffer 0 (pages * area.pageSize))).words =
      area.copyPages file.words buffer (area.base + groups * pagesPerWrite) pages := by
  rw [MetaFile.write, Nat.mul_div_cancel _ area.perWrite_pos, PageShape.copyPages, Nat.add_mul,
    Nat.mul_assoc groups]

theorem group_index (area : MetaSection) (groups index : Nat) :
    area.base * area.perPage + (groups * area.perWrite + index) =
      (area.base + groups * pagesPerWrite) * area.perPage + index := by
  rw [perWrite, Nat.add_mul, Nat.mul_assoc groups pagesPerWrite, Nat.mul_comm pagesPerWrite, Nat.add_assoc]

/-- A page of the buffer that was written is closed with the right number of records. -/
theorem filled_closed {buffer : Nat → Nat} (filled : area.Filled record buffer (groups * area.perWrite) count)
    (size : count = min area.perWrite (persistZoneCount - groups * area.perWrite)) {page : Nat}
    (inside : page * area.perPage < count) (last : page < pagesPerWrite) :
    groups * pagesPerWrite + page ≤ persistZoneCount / area.perPage ∧
    area.Sealed crcWord buffer page (area.pageRecords (groups * pagesPerWrite + page)) := by
  have positive := area.perPage_pos
  have aligned : area.perPage ∣ groups * area.perWrite :=
    Nat.dvd_trans area.perPage_dvd_perWrite (Nat.dvd_mul_left _ _)
  have pages : (groups * pagesPerWrite + page) * area.perPage =
      groups * area.perWrite + page * area.perPage := by
    rw [perWrite, Nat.add_mul, Nat.mul_assoc, Nat.mul_comm pagesPerWrite]
  have within : groups * pagesPerWrite + page ≤ persistZoneCount / area.perPage := by
    rw [Nat.le_div_iff_mul_le area.perPage_pos, pages]
    omega
  have slots : ∀ slot < area.perPage, (page * area.perPage + slot) / area.perPage = page ∧
      (page * area.perPage + slot) % area.perPage = slot := by
    intro slot below
    rw [Nat.mul_comm, Nat.mul_add_div area.perPage_pos, Nat.mul_add_mod, Nat.div_eq_of_lt below,
      Nat.mod_eq_of_lt below]
    exact ⟨rfl, rfl⟩
  have whole := Nat.div_add_mod persistZoneCount area.perPage
  rw [Nat.mul_comm] at whole
  refine ⟨within, ?_⟩
  unfold pageRecords
  split
  · rename_i final
    rw [← final, pages] at whole
    have slot_lt := Nat.mod_lt persistZoneCount area.perPage_pos
    have notFull := area.lastPage
    have ends : count = page * area.perPage + persistZoneCount % area.perPage := by
      have room := Nat.mul_le_mul_right area.perPage (Nat.succ_le_of_lt last)
      rw [Nat.succ_mul] at room
      have write : area.perWrite = pagesPerWrite * area.perPage := Nat.mul_comm _ _
      omega
    have closed := filled.closed (page * area.perPage + (persistZoneCount % area.perPage - 1))
      (by omega) (Or.inr (by omega))
    rw [(slots _ (by omega)).1, (slots _ (by omega)).2] at closed
    rwa [Nat.sub_add_cancel (by omega)] at closed
  · rename_i inner
    have early := Nat.lt_of_le_of_ne within inner
    have room := Nat.mul_le_mul_right area.perPage (Nat.succ_le_of_lt early)
    have part := Nat.mul_le_mul_right area.perPage (Nat.succ_le_of_lt last)
    rw [Nat.succ_mul, pages] at room
    rw [Nat.succ_mul] at part
    have write : area.perWrite = pagesPerWrite * area.perPage := Nat.mul_comm _ _
    have full : page * area.perPage + area.perPage ≤ count := by omega
    have closed := filled.closed (page * area.perPage + (area.perPage - 1)) (by omega) (Or.inl (by
      rw [Nat.add_assoc, mod_of_aligned aligned, Nat.add_assoc, Nat.sub_add_cancel positive,
        ← Nat.succ_mul, Nat.mul_mod_left]))
    rw [(slots _ (by omega)).1, (slots _ (by omega)).2] at closed
    rwa [Nat.sub_add_cancel positive] at closed

/-- A zone of a written group is written when its page is among those the write takes. -/
theorem written_iff {zone pages : Nat} (inside : count ≤ area.perWrite)
    (low : groups * area.perWrite ≤ zone) (high : zone < groups * area.perWrite + count)
    (set : area.GroupDirty dirty zone) (taken : area.writePages (groups * area.perWrite) = pages) :
    area.Written dirty zone ↔ zone - groups * area.perWrite < pages * area.perPage := by
  have group := group_iff area inside low high
  have slot : zone % area.perWrite = zone - groups * area.perWrite := by
    have bounds := Nat.div_add_mod zone area.perWrite
    rw [group, Nat.mul_comm] at bounds
    omega
  rw [Written, group, taken, slot, Nat.div_lt_iff_lt_mul area.perPage_pos]
  exact and_iff_right set

/-- A group with a dirty id is written as far as the write goes. -/
theorem Visited.flush (visited : area.Visited record file dirty (groups * area.perWrite) state)
    (below : groups * area.perWrite < persistZoneCount)
    (size : count = min area.perWrite (persistZoneCount - groups * area.perWrite))
    {result : CheckPointState} (unset : result.needFlush = false)
    (present : anyDirty state.dirty (groups * area.perWrite) count = true)
    (flags : result.dirty = cleaned state.dirty (groups * area.perWrite) count)
    {buffer : Nat → Nat} (filled : area.Filled record buffer (groups * area.perWrite) count)
    (same : result.file = state.file.write (area.base * area.pageSize +
        groups * area.perWrite / area.perWrite * (pagesPerWrite * area.pageSize))
      (readAt buffer 0 (area.writePages (groups * area.perWrite) * area.pageSize))) :
    area.Visited record file dirty (groups * area.perWrite + count) result := by
  obtain ⟨extra, taken, few, early⟩ := writePages_spec below (Nat.dvd_mul_left _ _) size
  have set : ∀ zone, groups * area.perWrite ≤ zone → zone < groups * area.perWrite + count →
      area.GroupDirty dirty zone :=
    fun zone low high => (anyDirty_iff visited size low high).mp present
  have words : result.file.words = area.copyPages state.file.words buffer
      (area.base + groups * pagesPerWrite) (extra + 1) := by
    rw [same, write_eq, taken]
  have lengthened : state.file.size ≤ result.file.size := by
    rw [same]
    exact Nat.le_max_left _ _
  have inGroup : ∀ index < (extra + 1) * area.perPage, index < count →
      area.entry result.file (groups * area.perWrite + index) = record (groups * area.perWrite + index) := by
    intro index page here
    rw [entry, words, group_index, PageShape.read_copyPages _ _ page]
    exact filled.records index here
  have away : ∀ zone < persistZoneCount,
      (zone < groups * area.perWrite ∨ groups * area.perWrite + (extra + 1) * area.perPage ≤ zone) →
      area.entry result.file zone = area.entry state.file zone := by
    intro zone _ outside
    rw [entry, words, PageShape.read_copyPages_outside, ← entry]
    have start := group_index area groups 0
    rw [Nat.add_mul (area.base + groups * pagesPerWrite)]
    omega
  have last : ∀ page ≤ extra, groups * pagesPerWrite + page ≤ persistZoneCount / area.perPage ∧
      area.Sealed crcWord buffer page (area.pageRecords (groups * pagesPerWrite + page)) := by
    intro page within
    have room := Nat.mul_le_mul_right area.perPage within
    exact filled_closed filled size (by omega) (by omega)
  constructor
  · exact unset
  · intro zone here written
    rcases Nat.lt_or_ge zone (groups * area.perWrite) with before | inside
    · rw [away zone (by omega) (Or.inl before)]
      exact visited.written zone before written
    · have page := (written_iff (by omega) inside here (set zone inside here) taken).mp written
      obtain ⟨index, rfl⟩ := Nat.exists_eq_add_of_le inside
      exact inGroup index (by omega) (by omega)
  · intro zone inFile others
    rcases Nat.lt_or_ge zone (groups * area.perWrite) with before | inside
    · rw [away zone inFile (Or.inl before)]
      exact visited.kept zone inFile fun both => others ⟨by omega, both.2⟩
    · rw [away zone inFile, visited.kept zone inFile fun both => by omega]
      right
      rcases Nat.lt_or_ge zone (groups * area.perWrite + count) with here | past
      · have unwritten := mt (written_iff (by omega) inside here (set zone inside here) taken).mpr
          fun written => others ⟨here, written⟩
        omega
      · have room := Nat.mul_le_mul_right area.perPage (Nat.succ_le_of_lt few)
        have write : area.perWrite = pagesPerWrite * area.perPage := Nat.mul_comm _ _
        rw [Nat.succ_eq_add_one] at room
        omega
  · intro readable
    have old := visited.readable readable
    refine ⟨Nat.le_trans old.long lengthened, fun page inFile => ?_⟩
    rw [words]
    by_cases outside : area.base + page < area.base + groups * pagesPerWrite ∨
        area.base + groups * pagesPerWrite + (extra + 1) ≤ area.base + page
    · exact PageShape.sealed_copyPages_outside buffer outside (area.pageRecords_le page)
        (old.closed page inFile)
    · obtain ⟨own, rfl⟩ : ∃ own, page = groups * pagesPerWrite + own :=
        ⟨page - groups * pagesPerWrite, by omega⟩
      rw [← Nat.add_assoc]
      exact PageShape.sealed_copyPages _ (by omega) (area.pageRecords_le _) (last own (by omega)).2
  · intro cell outside
    rw [words, PageShape.copyPages_outside, visited.outside cell outside]
    have inFile := (last extra (Nat.le_refl _)).1
    rcases outside with before | after
    · exact Or.inl (Nat.lt_of_lt_of_le before (Nat.mul_le_mul_right _ (Nat.le_add_right _ _)))
    · exact Or.inr (Nat.le_trans (Nat.mul_le_mul_right _ (by omega)) after)
  · exact Nat.le_trans visited.size lengthened
  · intro zone here dirtyGroup
    rw [flags, cleaned]
    split
    · rfl
    · exact visited.clean zone (by omega) dirtyGroup
  · intro zone others
    rw [flags, cleaned, if_neg]
    · exact visited.flags zone fun both => others ⟨by omega, both.2⟩
    · exact fun inside => others ⟨inside.2, set zone inside.1 inside.2⟩

theorem range_append (first second : Nat) :
    List.range (first + second) = List.range first ++ List.range' first second := by
  rw [List.range_eq_range', List.range_eq_range', ← List.range'_append_1, Nat.zero_add]

theorem checkPoint_visited (lengths : ∀ zone, (record zone).length = area.width) (file : MetaFile)
    (dirty : Nat → Bool) :
    area.Visited record file dirty persistZoneCount (area.checkPoint record file dirty) := by
  have next : ∀ {groups count state}, area.Visited record file dirty (groups * area.perWrite) state →
      groups * area.perWrite < persistZoneCount →
      count = min area.perWrite (persistZoneCount - groups * area.perWrite) →
      area.Visited record file dirty (groups * area.perWrite + count)
        ((List.range' (groups * area.perWrite) count).foldl (area.visit record) state) := by
    intro groups count state visited below size
    have positive := area.perWrite_pos
    obtain ⟨less, rfl⟩ : ∃ less, count = less + 1 := ⟨count - 1, by omega⟩
    obtain ⟨result, ran, unset, outcome⟩ := visit_group (Nat.dvd_mul_left area.perWrite groups)
      lengths visited.unset (show less < area.perWrite by omega) (by omega) (by omega)
    rw [ran]
    split at outcome
    · rename_i present
      obtain ⟨flags, buffer, filled, same⟩ := outcome
      exact visited.flush below size unset present flags filled same
    · rename_i absent
      exact visited.skip size unset (Bool.eq_false_iff.mpr absent) outcome.1 outcome.2
  have whole : ∀ groups, groups * area.perWrite ≤ persistZoneCount →
      area.Visited record file dirty (groups * area.perWrite)
        ((List.range (groups * area.perWrite)).foldl (area.visit record) { file, dirty }) := by
    intro groups
    induction groups with
    | zero =>
      intro _
      rw [Nat.zero_mul]
      exact visited_start area record file dirty
    | succ groups ih =>
      intro within
      rw [Nat.succ_mul] at within ⊢
      have positive := area.perWrite_pos
      have full : area.perWrite = min area.perWrite (persistZoneCount - groups * area.perWrite) := by omega
      rw [range_append, List.foldl_append]
      exact next (ih (by omega)) (by omega) full
  have parts := Nat.div_add_mod persistZoneCount area.perWrite
  have slot := Nat.mod_lt persistZoneCount area.perWrite_pos
  rw [Nat.mul_comm] at parts
  have rest : persistZoneCount % area.perWrite ≠ 0 := fun zero =>
    area.lastPage (Nat.mod_eq_zero_of_dvd
      (Nat.dvd_trans area.perPage_dvd_perWrite (Nat.dvd_of_mod_eq_zero zero)))
  have short : persistZoneCount % area.perWrite =
      min area.perWrite (persistZoneCount - persistZoneCount / area.perWrite * area.perWrite) := by omega
  have final := next (whole (persistZoneCount / area.perWrite) (by omega)) (by omega) short
  rw [← List.foldl_append, ← range_append, parts] at final
  exact final

end Group

end MetaSection

end OpenGauss.Undo
