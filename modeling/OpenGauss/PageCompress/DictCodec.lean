import OpenGauss.PageCompress.PrefixCodec

namespace OpenGauss.PageCompress

abbrev DictKey := List UInt8

structure DictItemEntry where
  hitCount : Int16
  beChoose : Bool

/-- The hash table for building the dictionary, with the items chosen so far. -/
structure DictBuild where
  dictHash : DictKey → Option DictItemEntry := fun _ => none
  dictItems : List DictKey := []

def dictItemMinRepeats : Nat := 3

def dictItemNumFactor : Nat := 10

def maxDicitemid : Nat := 256

def dictMissThreshold : Nat := 2

/-- How often one value must repeat. -/
def dictRepeats (num : Nat) : Nat := max (num / dictItemNumFactor) dictItemMinRepeats

/-- What the loop of `DictGetCmprMeta` does with a value that is not null. -/
def DictBuild.enter (num : Nat) (build : DictBuild) (key : DictKey) : DictBuild :=
  match build.dictHash key with
  | none => { build with dictHash := Function.update build.dictHash key (some ⟨1, false⟩) }
  | some entry =>
    let hitCount := entry.hitCount + 1
    if !entry.beChoose ∧ (dictRepeats num : Int) ≤ hitCount.toInt then
      { dictHash := Function.update build.dictHash key (some ⟨hitCount, true⟩)
        dictItems := build.dictItems ++ [key] }
    else
      { build with
        dictHash := Function.update build.dictHash key (some ⟨hitCount, entry.beChoose⟩) }

/-- The loop, which ends early with the last item there is a number for. -/
def DictBuild.enterAll (num : Nat) (build : DictBuild) : List DictKey → DictBuild
  | [] => build
  | key :: rest =>
    let next := build.enter num key
    if build.dictItems.length < next.dictItems.length ∧ maxDicitemid ≤ next.dictItems.length then next
    else next.enterAll num rest

/-- The items of the dictionary, and how often the column had none. -/
def dictGetCmprMeta (dictMiss : Nat) (colArray : List (Option DictKey)) : Option (List DictKey) × Nat :=
  if dictMissThreshold < dictMiss then (none, dictMiss)
  else
    let build := ({} : DictBuild).enterAll colArray.length colArray.reduceOption
    if build.dictItems = [] then (none, dictMiss + 1) else (some build.dictItems, dictMiss)

def buildHashTbl (dictItems : List DictKey) : DictKey → Option UInt8 :=
  dictItems.zipIdx.foldl
    (fun table entry => Function.update table entry.1 (some (UInt8.ofNat entry.2))) fun _ => none

/-- The items chosen are different, and each of them has been seen often enough. -/
structure DictBuild.Chosen (num : Nat) (seen : List DictKey) (build : DictBuild) : Prop where
  nodup : build.dictItems.Nodup
  marked : ∀ key ∈ build.dictItems, ∃ entry, build.dictHash key = some entry ∧ entry.beChoose
  counted : ∀ key entry, build.dictHash key = some entry → entry.hitCount.toInt ≤ seen.count key
  often : ∀ key ∈ build.dictItems, dictRepeats num ≤ seen.count key

namespace DictBuild

variable {num : Nat} {seen : List DictKey} {build : DictBuild}

theorem chosen_empty (num : Nat) : ({} : DictBuild).Chosen num [] where
  nodup := List.nodup_nil
  marked := by simp
  counted := by simp
  often := by simp

theorem hitCount_succ_le (hitCount : Int16) : (hitCount + 1).toInt ≤ hitCount.toInt + 1 := by
  have least := Int16.le_toInt hitCount
  have most := Int16.toInt_lt hitCount
  rw [Int16.toInt_add]
  change (hitCount.toInt + 1).bmod (2 ^ 16) ≤ _
  rw [Int.bmod]
  split_ifs <;> omega

/-- A value changes its own entry only, and the list of items by itself only. -/
theorem Chosen.update (chosen : build.Chosen num seen) {key : DictKey} {entry : DictItemEntry}
    (count : entry.hitCount.toInt ≤ (key :: seen).count key) {items : List DictKey}
    (nodup : items.Nodup) (others : ∀ item ∈ items, item ≠ key → item ∈ build.dictItems)
    (mark : key ∈ items → entry.beChoose ∧ dictRepeats num ≤ (key :: seen).count key) :
    ({ dictHash := Function.update build.dictHash key (some entry), dictItems := items } :
      DictBuild).Chosen num (key :: seen) where
  nodup := nodup
  marked := by
    intro item member
    by_cases same : item = key
    · subst same
      exact ⟨entry, Function.update_self .., (mark member).1⟩
    · obtain ⟨old, found, choose⟩ := chosen.marked item (others item member same)
      exact ⟨old, (Function.update_of_ne same ..).trans found, choose⟩
  counted := by
    intro item old found
    by_cases same : item = key
    · subst same
      dsimp only at found
      rw [Function.update_self, Option.some.injEq] at found
      exact found ▸ count
    · dsimp only at found
      rw [Function.update_of_ne same] at found
      exact (chosen.counted item old found).trans (Int.ofNat_le.mpr List.count_le_count_cons)
  often := by
    intro item member
    by_cases same : item = key
    · subst same
      exact (mark member).2
    · exact (chosen.often item (others item member same)).trans List.count_le_count_cons

theorem Chosen.enter (chosen : build.Chosen num seen) (key : DictKey) :
    (build.enter num key).Chosen num (key :: seen) := by
  have more : (key :: seen).count key = seen.count key + 1 := List.count_cons_self
  unfold DictBuild.enter
  split
  · rename_i new
    refine chosen.update ?_ chosen.nodup (fun item member _ => member) fun member => ?_
    · change (1 : Int) ≤ _
      omega
    · obtain ⟨entry, found, -⟩ := chosen.marked key member
      exact absurd (new.symm.trans found) (Option.some_ne_none entry).symm
  · rename_i entry found
    have count : (entry.hitCount + 1).toInt ≤ (key :: seen).count key := by
      have before := chosen.counted key entry found
      have step := hitCount_succ_le entry.hitCount
      omega
    dsimp only
    generalize entry.hitCount + 1 = hitCount at count ⊢
    split_ifs with choose
    · have fresh : key ∉ build.dictItems := by
        intro member
        obtain ⟨other, same, mark⟩ := chosen.marked key member
        obtain rfl := Option.some.inj (same.symm.trans found)
        simp [mark] at choose
      refine chosen.update count ?_ ?_ fun _ => ⟨rfl, ?_⟩
      · exact List.nodup_append.mpr ⟨chosen.nodup, List.nodup_singleton key, by
          intro item member other same
          rw [List.mem_singleton] at same
          rintro rfl
          exact fresh (same ▸ member)⟩
      · intro item member different
        exact (List.mem_append.mp member).resolve_right fun last =>
          different (List.mem_singleton.mp last)
      · exact Int.ofNat_le.mp (choose.2.trans count)
    · refine chosen.update count chosen.nodup (fun item member _ => member) fun member => ?_
      obtain ⟨other, same, mark⟩ := chosen.marked key member
      obtain rfl := Option.some.inj (same.symm.trans found)
      exact ⟨mark, (chosen.often key member).trans List.count_le_count_cons⟩

theorem Chosen.enterAll (chosen : build.Chosen num seen) (keys : List DictKey) :
    ∃ first rest, keys = first ++ rest ∧ (build.enterAll num keys).Chosen num (first.reverse ++ seen) := by
  induction keys generalizing build seen with
  | nil => exact ⟨[], [], rfl, chosen⟩
  | cons key keys hyp =>
    rw [DictBuild.enterAll]
    split_ifs with full
    · exact ⟨[key], keys, rfl, chosen.enter key⟩
    · obtain ⟨first, rest, rfl, done⟩ := hyp (chosen.enter key)
      refine ⟨key :: first, rest, rfl, ?_⟩
      rw [List.reverse_cons, List.append_assoc, List.singleton_append]
      exact done

end DictBuild

/-- Different values that a list has often are few. -/
theorem length_mul_le {items keys : List DictKey} {repeats : Nat} (nodup : items.Nodup)
    (often : ∀ key ∈ items, repeats ≤ keys.count key) : items.length * repeats ≤ keys.length := by
  induction items generalizing keys with
  | nil => simp
  | cons item items hyp =>
    obtain ⟨fresh, nodup⟩ := List.nodup_cons.mp nodup
    have others : ∀ key ∈ items, repeats ≤ (keys.filter (· ≠ item)).count key := by
      intro key member
      have different : key ≠ item := fun same => fresh (same ▸ member)
      rw [List.count_filter (by simpa using different)]
      exact often key (List.mem_cons_of_mem _ member)
    have rest := hyp nodup others
    have own := often item List.mem_cons_self
    have split := List.length_eq_length_filter_add (l := keys) (· == item)
    rw [List.count_eq_length_filter] at own
    have same : (keys.filter fun key => !(key == item)) = keys.filter (· ≠ item) :=
      List.filter_congr fun key _ => by rw [Bool.eq_iff_iff]; simp
    rw [same] at split
    rw [List.length_cons, Nat.add_mul, Nat.one_mul]
    omega

/-- The items of a dictionary are different values of the column, so few that a signed byte can count
them. -/
theorem dictGetCmprMeta_spec {dictMiss : Nat} {colArray : List (Option DictKey)}
    {dictItems : List DictKey} (built : (dictGetCmprMeta dictMiss colArray).1 = some dictItems) :
    dictItems ≠ [] ∧ dictItems.Nodup ∧ (∀ key ∈ dictItems, some key ∈ colArray) ∧
      dictItems.length < 128 := by
  unfold dictGetCmprMeta at built
  dsimp only at built
  split_ifs at built with missed absent
  obtain rfl := Option.some.inj built
  obtain ⟨first, rest, split, chosen⟩ :=
    (DictBuild.chosen_empty colArray.length).enterAll colArray.reduceOption
  rw [List.append_nil] at chosen
  have few := length_mul_le chosen.nodup chosen.often
  have least : 1 ≤ dictRepeats colArray.length := le_max_of_le_right (by decide)
  refine ⟨absent, chosen.nodup, fun key member => ?_, ?_⟩
  · have held : key ∈ first.reverse :=
      List.count_pos_iff.mp (lt_of_lt_of_le Nat.zero_lt_one (least.trans (chosen.often key member)))
    rw [← List.reduceOption_mem_iff, split]
    exact List.mem_append_left _ (List.mem_reverse.mp held)
  · have within : first.length ≤ colArray.length := by
      have part := List.reduceOption_length_le colArray
      rw [split, List.length_append] at part
      omega
    rw [List.length_reverse] at few
    have often : colArray.length < 10 * dictRepeats colArray.length + 10 := by
      have one : colArray.length / dictItemNumFactor ≤ dictRepeats colArray.length :=
        le_max_left _ _
      rw [dictItemNumFactor] at one
      omega
    have three : 3 ≤ dictRepeats colArray.length := le_max_right _ _
    by_contra many
    have big : 128 * dictRepeats colArray.length ≤ _ :=
      Nat.mul_le_mul_right (dictRepeats colArray.length) (not_lt.mp many)
    omega

theorem zipIdx_append_singleton (items : List DictKey) (item : DictKey) :
    (items ++ [item]).zipIdx = items.zipIdx ++ [(item, items.length)] := by
  simp [List.zipIdx_append]

theorem buildHashTbl_spec {dictItems : List DictKey} (few : dictItems.length ≤ 256) {key : DictKey}
    {id : UInt8} (found : buildHashTbl dictItems key = some id) :
    dictItems[id.toNat]? = some key := by
  induction dictItems using List.reverseRecOn with
  | nil => cases found
  | append_singleton items item hyp =>
    rw [List.length_append, List.length_singleton] at few
    rw [buildHashTbl, zipIdx_append_singleton, List.foldl_append, List.foldl_cons, List.foldl_nil] at found
    by_cases same : key = item
    · subst same
      rw [Function.update_self, Option.some.injEq] at found
      rw [← found, UInt8.toNat_ofNat', Nat.mod_eq_of_lt (by omega)]
      simp
    · rw [Function.update_of_ne same] at found
      have before := hyp (by omega) found
      rw [List.getElem?_append_left (List.getElem?_eq_some_iff.mp before).1, before]

end OpenGauss.PageCompress
