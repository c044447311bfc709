import Gmker.Programs.KernelEffects
import Gmker.Programs.RoundRobin

/-!
# The ownership invariant

In every state of every run the slots, the resource owners and the circular
wait queues agree, so none of the panics of the resource manager is reachable
and only the owner of a transport ever uses it.
-/

namespace Gmker.Programs

open Foundation

/-- The agreement of the three places that store ownership. -/
structure OwnershipInvariant (kernel : GmKernel) : Prop where
  owner_iff : ∀ index (slot : GmSlot),
    (kernel.resources index).owner = slot.val + 1 ↔
      (kernel.apps slot).ownedResource = resourceId index
  owner_slot : ∀ index, (kernel.resources index).owner ≤ gmAppMax
  owned_resource : ∀ slot,
    (kernel.apps slot).ownedResource = gmResourceNone ∨
      ∃ index, (kernel.apps slot).ownedResource = resourceId index
  owner_active : ∀ slot, (kernel.apps slot).ownedResource ≠ gmResourceNone →
    (kernel.apps slot).state = .ready ∨ (kernel.apps slot).state = .running
  waiting_resource : ∀ slot,
    (kernel.apps slot).waitingResource = gmResourceNone ∨
      ∃ index, (kernel.apps slot).waitingResource = resourceId index
  blocked_iff : ∀ slot, (kernel.apps slot).state = .blocked ↔
    (kernel.apps slot).waitingResource ≠ gmResourceNone
  queued_iff : ∀ index (slot : GmSlot), slot.val ∈ (kernel.resources index).waiters ↔
    (kernel.apps slot).waitingResource = resourceId index
  queued_once : ∀ index, (kernel.resources index).waiters.Nodup
  queued_slot : ∀ index waiter,
    waiter ∈ (kernel.resources index).waiters → waiter < gmAppMax
  exclusive : ∀ slot, (kernel.apps slot).ownedResource = gmResourceNone ∨
    (kernel.apps slot).waitingResource = gmResourceNone
  free_idle : ∀ slot, (kernel.apps slot).state = .free →
    (kernel.apps slot).ownedResource = gmResourceNone ∧
      (kernel.apps slot).waitingResource = gmResourceNone
  single : ∀ (slot : GmSlot) first second,
    (kernel.resources first).owner = slot.val + 1 →
      (kernel.resources second).owner = slot.val + 1 → first = second
  waiting_owner : ∀ index, 0 < (kernel.resources index).waitLen →
    (kernel.resources index).owner ≠ 0 ∧ (kernel.resources index).waitLen ≤ 3

/-- A slot waits for a resource another slot owns. -/
def WaitsOn (kernel : GmKernel) (waiter owner : GmSlot) : Prop :=
  ∃ index, (kernel.apps waiter).waitingResource = resourceId index ∧
    (kernel.resources index).owner = owner.val + 1

namespace Tracks

variable {kernel : GmKernel} {lines : GmLines}

section

variable (tracks : Tracks kernel lines)

include tracks

theorem owner_iff_owned (index : GmResourceIndex) (slot : GmSlot) :
    (kernel.resources index).owner = slot.val + 1 ↔
      (kernel.apps slot).ownedResource = resourceId index := by
  rw [(tracks.resources index).owner_iff]
  constructor
  · rintro ⟨rest, line⟩
    have member : slot ∈ lines index := by simp [line]
    cases tracks.apps slot with
    | idle absent _ _ _ => exact absurd member (absent index)
    | owner other rest' line' owned _ _ =>
      have same : index = other :=
        tracks.wellFormed.single member (by simp [line'])
      rw [same]
      exact owned
    | waiter other front rest' line' inRest _ _ _ =>
      have same : index = other :=
        tracks.wellFormed.single member (by simp [line', inRest])
      subst other
      rw [line] at line'
      obtain ⟨rfl, rfl⟩ := List.cons.inj line'
      have nodup := tracks.wellFormed.nodup index
      rw [line] at nodup
      exact absurd inRest (List.nodup_cons.mp nodup).1
  · exact (tracks.apps slot).line_of_owned

theorem queued_iff_waiting (index : GmResourceIndex) (slot : GmSlot) :
    slot.val ∈ (kernel.resources index).waiters ↔
      (kernel.apps slot).waitingResource = resourceId index := by
  have inTail : slot.val ∈ (kernel.resources index).waiters ↔
      slot ∈ (lines index).tail := by
    rw [(tracks.resources index).waiters, List.mem_map]
    constructor
    · rintro ⟨other, member, same⟩
      rw [← Fin.ext same]
      exact member
    · intro member
      exact ⟨slot, member, rfl⟩
  rw [inTail]
  constructor
  · intro member
    cases line : lines index with
    | nil => simp [line] at member
    | cons front rest =>
      rw [line, List.tail_cons] at member
      have inLine : slot ∈ lines index := by simp [line, member]
      cases tracks.apps slot with
      | idle absent _ _ _ => exact absurd inLine (absent index)
      | owner other rest' line' _ _ _ =>
        have same : index = other :=
          tracks.wellFormed.single inLine (by simp [line'])
        subst other
        have nodup := tracks.wellFormed.nodup index
        rw [line] at line'
        obtain ⟨rfl, rfl⟩ := List.cons.inj line'
        rw [line] at nodup
        exact absurd member (List.nodup_cons.mp nodup).1
      | waiter other front' rest' line' inRest _ waiting _ =>
        have same : index = other :=
          tracks.wellFormed.single inLine (by simp [line', inRest])
        rw [same]
        exact waiting
  · intro awaits
    cases tracks.apps slot with
    | idle _ _ waiting _ | owner _ _ _ _ waiting _ =>
      exact absurd (awaits.symm.trans waiting) (resourceId_ne_none index)
    | waiter other front rest line inRest _ waiting _ =>
      have same : index = other :=
        resourceId_inj.mp (awaits.symm.trans waiting)
      subst other
      rw [line]
      exact inRest

theorem waiters_nodup (index : GmResourceIndex) :
    (kernel.resources index).waiters.Nodup := by
  rw [(tracks.resources index).waiters]
  exact ((tracks.wellFormed.nodup index).tail).map Fin.val_injective

/-- The queue of a resource only fills up behind an owner. -/
theorem waiting_has_owner (index : GmResourceIndex)
    (waiting : 0 < (kernel.resources index).waitLen) :
    (kernel.resources index).owner ≠ 0 ∧
      (kernel.resources index).waitLen ≤ 3 := by
  have resource := tracks.resources index
  have len := resource.waitLen_eq
  cases line : lines index with
  | nil =>
    rw [line] at len
    simp [len] at waiting
  | cons front rest =>
    have bound := tracks.wellFormed.length_le index
    rw [line] at len bound
    simp only [List.tail_cons, List.length_cons, Fintype.card_fin]
      at len bound
    have below : rest.length + 1 ≤ 4 := bound
    refine ⟨?_, by omega⟩
    rw [ne_eq, resource.owner_eq_zero, line]
    exact List.cons_ne_nil front rest

theorem ownershipInvariant :
    OwnershipInvariant kernel where
  owner_iff := tracks.owner_iff_owned
  owner_slot index := by
    rw [(tracks.resources index).owner]
    cases lines index with
    | nil => simp
    | cons front rest =>
      exact front.isLt
  owned_resource slot := by
    cases tracks.apps slot with
    | idle _ owned _ _ | waiter _ _ _ _ _ owned _ _ => exact .inl owned
    | owner index _ _ owned _ _ => exact .inr ⟨index, owned⟩
  owner_active slot owns := by
    cases tracks.apps slot with
    | idle _ owned _ _ | waiter _ _ _ _ _ owned _ _ => exact absurd owned owns
    | owner _ _ _ _ _ state => exact state
  waiting_resource slot := by
    cases tracks.apps slot with
    | idle _ _ waiting _ | owner _ _ _ _ waiting _ => exact .inl waiting
    | waiter index _ _ _ _ _ waiting _ => exact .inr ⟨index, waiting⟩
  blocked_iff slot := by
    cases tracks.apps slot with
    | idle _ _ waiting state => simp [waiting, state]
    | owner _ _ _ _ waiting state =>
      rcases state with now | now <;> simp [waiting, now]
    | waiter index _ _ _ _ _ waiting state => simp [waiting, state]
  queued_iff := tracks.queued_iff_waiting
  queued_once := tracks.waiters_nodup
  queued_slot index waiter member := by
    rw [(tracks.resources index).waiters, List.mem_map] at member
    obtain ⟨slot, _, rfl⟩ := member
    exact slot.isLt
  exclusive slot := by
    cases tracks.apps slot with
    | idle _ owned _ _ | waiter _ _ _ _ _ owned _ _ => exact .inl owned
    | owner _ _ _ _ waiting _ => exact .inr waiting
  free_idle slot free := ((tracks.apps slot).free_idle free).2
  single slot first second ownsFirst ownsSecond := by
    apply resourceId_inj.mp
    exact ((tracks.owner_iff_owned first slot).mp ownsFirst).symm.trans
      ((tracks.owner_iff_owned second slot).mp ownsSecond)
  waiting_owner := tracks.waiting_has_owner

/-- Waiting for an owner is waiting in its line. -/
theorem waitsFor_of_waitsOn {waiter owner : GmSlot}
    (waits : WaitsOn kernel waiter owner) : lines.WaitsFor waiter owner := by
  obtain ⟨index, waiting, owns⟩ := waits
  obtain ⟨rest, line⟩ := ((tracks.resources index).owner_iff owner).mp owns
  refine ⟨index, rest, line, ?_⟩
  have queued := (tracks.queued_iff_waiting index waiter).mpr waiting
  rw [(tracks.resources index).waiters, line, List.tail_cons,
    List.mem_map] at queued
  obtain ⟨other, member, same⟩ := queued
  rw [← Fin.ext same]
  exact member

theorem no_circular_wait (slot : GmSlot) :
    ¬ Relation.TransGen (WaitsOn kernel) slot slot := by
  intro cycle
  apply tracks.wellFormed.no_circular_wait slot
  exact cycle.lift id fun _ _ => tracks.waitsFor_of_waitsOn

end

end Tracks

theorem gmProgramsInit_tracks (kernelCr3 : UInt64) (cr3 : GmSlot → UInt64) :
    Tracks (gmProgramsInit kernelCr3 cr3) Lines.empty where
  wellFormed := Lines.wellFormed_empty
  resources index := ⟨rfl, rfl, Nat.zero_lt_succ 3⟩
  apps slot := .idle (fun _ => List.not_mem_nil) rfl rfl
    (by simp [gmProgramsInit])

/-- Every run succeeds and ends in a state that represents some lines. -/
theorem gmRun_tracks (kernelCr3 : UInt64) (cr3 : GmSlot → UInt64)
    (steps : List GmStep) :
    ∃ kernel, gmRun steps (gmProgramsInit kernelCr3 cr3) = .ok kernel ∧
      ∃ lines, Tracks kernel lines := by
  refine runSteps_invariant ?_ steps _ ⟨_, gmProgramsInit_tracks kernelCr3 cr3⟩
  rintro step kernel ⟨lines, tracks⟩
  obtain ⟨after, lines', events, stepped, effect⟩ := gmStep_effect tracks step
  exact ⟨after, stepped, lines', effect.tracks⟩

/-- Along every run ownership is consistent, nobody waits in a circle, no
further step can panic and a service only touches a transport its caller
owns. -/
theorem gmRun_ownership (kernelCr3 : UInt64) (cr3 : GmSlot → UInt64)
    (steps : List GmStep) :
    ∃ kernel, gmRun steps (gmProgramsInit kernelCr3 cr3) = .ok kernel ∧
      OwnershipInvariant kernel ∧
      (∀ slot, ¬ Relation.TransGen (WaitsOn kernel) slot slot) ∧
      (∀ step panic, gmStep step kernel ≠ .error panic) ∧
      ∀ env frame, ∃ outcome,
        gmProgramService env frame kernel = .ok outcome ∧
        TransportOwned kernel kernel.current outcome.calls := by
  obtain ⟨kernel, reached, lines, tracks⟩ := gmRun_tracks kernelCr3 cr3 steps
  refine ⟨kernel, reached, tracks.ownershipInvariant, tracks.no_circular_wait,
    ?_, ?_⟩
  · intro step panic failed
    obtain ⟨after, _, _, stepped, _⟩ := gmStep_effect tracks step
    rw [stepped] at failed
    cases failed
  · intro env frame
    obtain ⟨outcome, _, _, served, _, owned⟩ :=
      gmProgramService_effect tracks env frame
    exact ⟨outcome, served, owned⟩

/-- No deadlock: with nobody running, the dispatcher idles exactly when no
application is left. -/
theorem gmRun_idle_iff (kernelCr3 : UInt64) (cr3 : GmSlot → UInt64)
    (steps : List GmStep) :
    ∃ kernel, gmRun steps (gmProgramsInit kernelCr3 cr3) = .ok kernel ∧
      ((gmProgramSchedule kernel).1 = false ∧
          (∀ slot, (kernel.apps slot).state ≠ .running) ↔
        ∀ slot, (kernel.apps slot).state = .free) := by
  obtain ⟨kernel, reached, lines, tracks⟩ := gmRun_tracks kernelCr3 cr3 steps
  refine ⟨kernel, reached, ?_, ?_⟩
  · rintro ⟨idle, stopped⟩ slot
    have unready : ∀ slot, (kernel.apps slot).state ≠ .ready := by
      intro slot ready
      obtain ⟨chosen, found, -⟩ := gmNextReady_distance ready
      simp [gmProgramSchedule, found] at idle
    cases state : (kernel.apps slot).state with
    | free => rfl
    | ready => exact absurd state (unready slot)
    | running => exact absurd state (stopped slot)
    | blocked =>
      cases tracks.apps slot with
      | idle _ _ _ other => exact absurd state other
      | owner _ _ _ _ _ other => simp [state] at other
      | waiter index front rest line =>
        -- the owner in front of it could go on
        have owns := (tracks.owner_iff_owned index front).mp
          (((tracks.resources index).owner_iff front).mpr ⟨rest, line⟩)
        rcases tracks.ownershipInvariant.owner_active front
          (owns ▸ resourceId_ne_none index) with ready | running
        · exact absurd ready (unready front)
        · exact absurd running (stopped front)
  · intro free
    have nobody : gmNextReady kernel = none :=
      List.find?_eq_none.mpr fun slot _ => by simp [free slot]
    simp [gmProgramSchedule, nobody, free]

end Gmker.Programs
