import OpenGauss.ProcArray.GroupInvariant

namespace OpenGauss.ProcArray

open Function (update update_apply update_of_ne update_self)

open Lib

namespace GroupSystem

namespace GroupInvariant

variable {system : GroupSystem} {place : Nat → GroupPlace} {backend member field extraWaits : Nat}
  {request : Request} {wake cur seen next : Option Nat} {copy : GroupCache}

section

variable (invariant : GroupInvariant system place)

include invariant

theorem call (idle : system.pc backend = .idle) (valid : request.valid)
    (apart : ∀ leader, (system.pc leader).halfway ≠ some backend) :
    GroupInvariant { system.setPc backend (.posting request 0) with
      asked := (backend, request) :: system.asked
      opened := update system.opened backend (some (request, system.proc backend)) } place := by
  have outside : (system.pc backend).role = .outside := by rw [idle]; rfl
  have samePc : ∀ other, other ≠ backend →
      (system.setPc backend (.posting request 0)).pc other = system.pc other :=
    fun other different => by rw [setPc_pc, if_neg different]
  have here : (system.setPc backend (.posting request 0)).pc backend = .posting request 0 := by
    rw [setPc_pc, if_pos rfl]
  refine ⟨?_, ?_, ?_, ?_⟩
  · show Placement _ (fun id => ((system.setPc backend (.posting request 0)).pc id).halfway) _ _ _ _
    rw [setPc_halfway_same (by rw [idle]; rfl)]
    exact invariant.placed.enter outside apart fun other => setPc_role other
  · exact invariant.lists.move samePc (by rw [here]; nofun) (by rw [here]; nofun) (by rw [here]; nofun)
      (by rw [here]; nofun)
  · have openedHere : update system.opened backend (some (request, system.proc backend)) backend =
        some (request, system.proc backend) := update_self ..
    refine invariant.requests.frame samePc (fun _ _ _ => rfl) (fun id different => update_of_ne different _ _)
      (fun _ _ full => full) (fun _ _ _ _ _ => rfl) ?_ ?_ ?_ (by rw [here]; nofun) (by rw [here]; nofun)
    · intro again before same
      cases openedHere.symm.trans same
      exact valid
    · rw [here]
      rintro again field ⟨⟩
      exact ⟨by omega, ⟨_, openedHere⟩, fun field _ below => absurd below (by omega)⟩
    · rw [here, invariant.placed.away (Or.inl outside)]
      rintro (impossible | impossible)
      · cases impossible
      · exact absurd rfl impossible
  · refine invariant.accounts.call (invariant.not_pending outside) ?_ (fun other => update_apply _ _ _ _) ?_
    · intro other
      show (((system.setPc backend (.posting request 0)).pc other).role = .entering ∨ _) ↔ _
      rw [setPc_role]
      by_cases same : other = backend
      · simp [same, GroupPc.role]
      · simp [same, Pending]
    · intro other
      by_cases same : other = backend
      · simp [same, askedOf]
      · simp [same, Ne.symm same, askedOf]

theorem posting (here : system.pc backend = .posting request field) :
    GroupInvariant ((system.setCache backend (request.cache.put field (system.cache backend))).setPc backend
      (if field < 4 then .posting request (field + 1) else .reading)) place := by
  obtain ⟨most, ⟨before, isOpen⟩, written⟩ := invariant.requests.posting backend request field here
  have entering : (system.pc backend).role = .entering := by rw [here]; rfl
  generalize newCache : request.cache.put field (system.cache backend) = cache
  generalize newPc : (if field < 4 then GroupPc.posting request (field + 1) else .reading) = pc
  have role : pc.role = .entering := by rw [← newPc]; split_ifs <;> rfl
  have halfway : pc.halfway = none := by rw [← newPc]; split_ifs <;> rfl
  have more : request.cache.Written 0 (field + 1) cache := newCache ▸ written.put
  have out := invariant.placed.away (Or.inr entering)
  have samePc : ∀ other, other ≠ backend →
      ((system.setCache backend cache).setPc backend pc).pc other = system.pc other :=
    fun other different => by rw [setPc_pc, if_neg different]; rfl
  have stands : ((system.setCache backend cache).setPc backend pc).pc backend = pc := by
      rw [setPc_pc, if_pos rfl]
  have sameCache : ∀ id, id ≠ backend →
      ((system.setCache backend cache).setPc backend pc).cache id = system.cache id :=
    fun id different => (setCache_cache system backend cache id).trans (if_neg different)
  have cacheHere : ((system.setCache backend cache).setPc backend pc).cache backend = cache :=
    (setCache_cache system backend cache backend).trans (if_pos rfl)
  have kinds : pc = .posting request (field + 1) ∧ field < 4 ∨ pc = .reading ∧ field = 4 := by
    rw [← newPc]
    split_ifs with less
    · exact Or.inl ⟨rfl, less⟩
    · exact Or.inr ⟨rfl, by omega⟩
  refine ⟨?_, ?_, ?_, ?_⟩
  · rw [@setPc_role_same (system.setCache backend cache) backend pc (role.trans entering.symm),
      @setPc_halfway_same (system.setCache backend cache) backend pc
        (halfway.trans (congrArg GroupPc.halfway here).symm)]
    exact invariant.placed.mark entering fun other different =>
      congrArg GroupCache.member (sameCache other different)
  · refine invariant.lists.move samePc ?_ ?_ ?_ ?_ <;> rw [stands] <;>
      rcases kinds with ⟨rfl, -⟩ | ⟨rfl, -⟩ <;> nofun
  · refine invariant.requests.frame samePc (fun id different _ => sameCache id different) (fun _ _ => rfl)
      (fun _ _ full => full) ?_ (invariant.requests.valid backend) ?_ ?_ ?_ ?_
    · intro leader wake id _ reads
      refine sameCache id ?_
      rintro rfl
      have placed := invariant.reads reads
      rw [out] at placed
      cases placed
    · rw [stands, cacheHere]
      intro again count same
      rcases kinds with ⟨rfl, less⟩ | ⟨rfl, -⟩
      · cases same
        exact ⟨less, ⟨before, isOpen⟩, more⟩
      · cases same
    · rw [stands, cacheHere]
      rintro (full | full)
      · rcases kinds with ⟨rfl, -⟩ | ⟨rfl, rfl⟩
        · cases full
        · exact ⟨request, before, isOpen, more.all⟩
      · exact absurd out full
    · rw [stands]
      rcases kinds with ⟨rfl, -⟩ | ⟨rfl, -⟩ <;> nofun
    · rw [stands]
      rcases kinds with ⟨rfl, -⟩ | ⟨rfl, -⟩ <;> nofun
  · exact invariant.accounts.congr (@setPc_pending (system.setCache backend cache) place place backend pc
      (by rw [role]; exact ⟨fun _ => entering, fun _ => rfl⟩) fun _ => rfl)

theorem linking (here : system.pc backend = .linking seen) :
    GroupInvariant ((system.setNext backend seen).setPc backend (.joining seen)) place := by
  have entering : (system.pc backend).role = .entering := by rw [here]; rfl
  have out := invariant.placed.away (Or.inr entering)
  have sameNext : ∀ id, place id ≠ .away → (system.setNext backend seen).next id = system.next id := by
    intro id placed
    rw [setNext_next, if_neg]
    rintro rfl
    exact placed out
  have linked : GroupInvariant (system.setNext backend seen) place := by
    refine ⟨invariant.placed, ?_, invariant.requests, invariant.accounts⟩
    obtain ⟨slots, listed, nodup, members⟩ := invariant.lists.forming
    have forming : ∃ slots, Listed (system.setNext backend seen).next system.first slots ∧ slots.Nodup ∧
        ∀ id, id ∈ slots ↔ place id = .forming :=
      ⟨slots, listed.congr fun id inside => sameNext id (by rw [(members id).mp inside]; nofun), nodup, members⟩
    refine invariant.lists.frame (fun _ _ => rfl) ?_ (fun _ _ _ => Iff.rfl)
      (fun _ _ _ => Iff.rfl) ?_ forming
      (by rw [show (system.setNext backend seen).pc backend = _ from here]; nofun)
      (by rw [show (system.setNext backend seen).pc backend = _ from here]; nofun)
      (by rw [show (system.setNext backend seen).pc backend = _ from here]; nofun)
      (by rw [show (system.setNext backend seen).pc backend = _ from here]; nofun)
    · rintro other id - (placed | placed)
      · exact sameNext id (by rw [placed]; nofun)
      · exact sameNext id (by rw [placed]; nofun)
    · intro id _ different _
      rw [setNext_next, if_neg different]
  refine linked.move ?_ ?_ nofun ?_ ⟨nofun, nofun, nofun, ?_, nofun, nofun⟩
  · rw [show (system.setNext backend seen).pc backend = _ from here]; rfl
  · rw [show (system.setNext backend seen).pc backend = _ from here]; rfl
  · rw [show (system.setNext backend seen).pc backend = _ from here]; exact fun _ => rfl
  · rintro _ ⟨⟩
    rw [setNext_next, if_pos rfl]

/-- A backend enters the list: the place it gets and the leader of its group. -/
theorem joined (here : system.pc backend = .joining seen)
    (same : system.first = seen) {pc : GroupPc} (halfway : pc.halfway = none)
    (unlisted : GroupStand system (update place backend .forming) backend pc)
    (posting : ∀ request field, pc ≠ .posting request field) {groupLeader : Nat → Nat}
    (placed : Placement (fun id => ((system.setPc backend pc).pc id).role)
      (fun id => (system.pc id).halfway) (update place backend .forming)
      (fun id => (system.cache id).member) groupLeader system.lock) :
    GroupInvariant { system.setPc backend pc with first := some backend, groupLeader }
      (update place backend .forming) := by
  have entering : (system.pc backend).role = .entering := by rw [here]; rfl
  have out := invariant.placed.away (Or.inr entering)
  have samePc : ∀ other, other ≠ backend → (system.setPc backend pc).pc other = system.pc other :=
    fun other different => by rw [setPc_pc, if_neg different]
  have stands : (system.setPc backend pc).pc backend = pc := by rw [setPc_pc, if_pos rfl]
  have samePlace : ∀ id, id ≠ backend → update place backend .forming id = place id :=
    fun id different => update_of_ne different _ _
  have placeHere : update place backend .forming backend = .forming := update_self ..
  have apart : ∀ id target, target ≠ .away → target ≠ .forming →
      (update place backend .forming id = target ↔ place id = target) := by
    intro id target notAway notForming
    by_cases self : id = backend
    · subst self
      rw [placeHere, out]
      exact ⟨fun impossible => absurd impossible.symm notForming,
        fun impossible => absurd impossible.symm notAway⟩
    · rw [samePlace id self]
  refine ⟨?_, ?_, ?_, ?_⟩
  · show Placement _ (fun id => ((system.setPc backend pc).pc id).halfway) _ _ _ _
    rw [setPc_halfway_same (by rw [halfway, here]; rfl)]
    exact placed
  · obtain ⟨slots, listed, nodup, members⟩ := invariant.lists.forming
    have fresh : backend ∉ slots := by
      rw [members, out]
      nofun
    refine invariant.lists.frame samePc (fun _ _ _ _ => rfl) (fun _ id _ => apart id _ nofun nofun)
      (fun _ id _ => apart id _ nofun nofun) (fun _ _ _ _ => rfl)
      ⟨backend :: slots, ⟨rfl, ?_⟩, List.nodup_cons.mpr ⟨fresh, nodup⟩, ?_⟩
      (by rw [stands]; exact unlisted.walk) (by rw [stands]; exact unlisted.rest)
      (by rw [stands]; exact unlisted.following) (by rw [stands]; exact unlisted.linked)
    · rw [show (system.setPc backend pc).next backend =
        seen from invariant.lists.linked backend seen here, ← same]
      exact listed
    · intro id
      rw [List.mem_cons, members]
      by_cases self : id = backend
      · subst self
        simp
      · rw [samePlace id self]
        simp [self]
  · obtain ⟨request, before, isOpen, full⟩ := invariant.requests.posted backend (Or.inl (by rw [here]; rfl))
    refine invariant.requests.frame samePc (fun _ _ _ => rfl) (fun _ _ => rfl)
      (fun id different placed => by rwa [samePlace id different] at placed) (fun _ _ _ _ _ => rfl)
      (invariant.requests.valid backend) ?_ (fun _ => ⟨request, before, isOpen, full⟩)
      (by rw [stands]; exact unlisted.ending) (by rw [stands]; exact unlisted.removing)
    rw [stands]
    exact fun request field impossible => absurd impossible (posting request field)
  · refine invariant.accounts.congr ?_
    intro id
    show (((system.setPc backend pc).pc id).role = .entering ∨ _) ↔ _
    rw [setPc_role]
    by_cases self : id = backend
    · subst self
      rw [placeHere]
      exact ⟨fun _ => Or.inl entering, fun _ => Or.inr rfl⟩
    · rw [if_neg self, samePlace id self]
      rfl

/-- The first of a group leads it; the others follow. -/
theorem join (here : system.pc backend = .joining seen) (same : system.first = seen) :
    GroupInvariant { system.setPc backend (if seen = none then .locking else .sleeping 0) with
      first := some backend
      groupLeader := update system.groupLeader backend (system.leaderBehind backend seen) }
        (update place backend .forming) := by
  have entering : (system.pc backend).role = .entering := by rw [here]; rfl
  obtain ⟨request, before, isOpen, full⟩ := invariant.requests.posted backend (Or.inl (by rw [here]; rfl))
  have marked : (system.cache backend).member = true := by
    rw [full]
    cases request <;> rfl
  obtain ⟨slots, listed, -, members⟩ := invariant.lists.forming
  rw [same] at listed
  cases seen with
  | none =>
    have empty : ∀ other, place other ≠ .forming := by
      intro other forming
      rw [listed.eq_nil_iff.mpr rfl] at members
      exact List.not_mem_nil ((members other).mpr forming)
    have unlisted : GroupStand system (update place backend .forming) backend .locking :=
      ⟨nofun, nofun, nofun, nofun, nofun, nofun⟩
    refine invariant.joined here same rfl unlisted nofun ?_
    exact invariant.placed.head entering marked empty (fun other => setPc_role other)
      (fun other => update_apply _ _ _ _) fun other => update_apply _ _ _ _
  | some other =>
    obtain ⟨rest, rfl, -⟩ := listed.cons_of_some
    have unlisted : GroupStand system (update place backend .forming) backend (.sleeping 0) :=
      ⟨nofun, nofun, nofun, nofun, nofun, nofun⟩
    refine invariant.joined here same rfl unlisted nofun ?_
    exact invariant.placed.join entering marked ((members other).mp (by simp)) (fun other => setPc_role other)
      (fun other => update_apply _ _ _ _) fun other => update_apply _ _ _ _

end

theorem checking (invariant : GroupInvariant system place) (here : system.pc backend = .checking extraWaits) :
    GroupInvariant (system.setPc backend
      (if (system.cache backend).member then .sleeping (extraWaits + 1) else .repaying extraWaits)) place := by
  have waiting : (system.pc backend).role = .waiting := by rw [here]; rfl
  by_cases marked : (system.cache backend).member
  · rw [if_pos marked]
    exact invariant.move (by rw [here]; rfl) (by rw [here]; rfl) nofun nofun ⟨nofun, nofun, nofun,
      nofun, nofun, nofun⟩
  · rw [if_neg marked]
    refine @turn system place backend (.repaying extraWaits) invariant system.lock ?_
      (by rw [waiting]; exact ⟨nofun, nofun⟩) nofun nofun
      ⟨nofun, nofun, nofun, nofun, nofun, nofun⟩
    rw [setPc_halfway_same (by rw [here]; rfl)]
    exact invariant.placed.leave waiting (by simpa using marked) fun other => setPc_role other

end GroupInvariant

end GroupSystem

end OpenGauss.ProcArray
