import Gmker.Programs.Ownership

/-!
# First come, first served

The history of a run records who blocked on a resource and who was granted it
by handoff.  Read off per resource, the slots that blocked are the slots that
were granted followed by those still waiting, in every state of every run.
-/

namespace Gmker.Programs

open Foundation

variable {events : List GmEvent} {index : GmResourceIndex}
  {before after : GmKernel} {lines lines' : GmLines}

/-- The slot an event blocks on a resource. -/
def GmEvent.blockedOn (index : GmResourceIndex) : GmEvent → Option GmSlot
  | .blocked slot resource => if resource = index then some slot else none
  | _ => none

/-- The slot an event hands a resource to. -/
def GmEvent.grantedOf (index : GmResourceIndex) : GmEvent → Option GmSlot
  | .granted slot resource _ => if resource = index then some slot else none
  | _ => none

/-- The acquirers that blocked on a resource, in order. -/
def blockOrder (index : GmResourceIndex) (history : List GmEvent) :
    List GmSlot :=
  history.filterMap (GmEvent.blockedOn index)

/-- The acquirers a resource was handed to, in order. -/
def grantOrder (index : GmResourceIndex) (history : List GmEvent) :
    List GmSlot :=
  history.filterMap (GmEvent.grantedOf index)

/-- Blocked acquirers are granted in the order in which they blocked, and the
ones not granted yet are the queue. -/
def FirstComeFirstServed (kernel : GmKernel) : Prop :=
  ∀ index, (blockOrder index kernel.history).map Fin.val =
    (grantOrder index kernel.history).map Fin.val ++
      (kernel.resources index).waiters

/-- The owner of a resource gives it up: the resource becomes free only when
nobody waits, and otherwise belongs to the oldest waiter at once. -/
inductive HandedOver (before after : GmKernel) (index : GmResourceIndex)
    (events : List GmEvent) (tick : Nat) : Prop where
  | toNobody (nobody : (before.resources index).waiters = [])
      (owner : (after.resources index).owner = 0)
      (waiters : (after.resources index).waiters = [])
  | toOldest (next : GmSlot) (rest : List Nat)
      (oldest : (before.resources index).waiters = next.val :: rest)
      (owner : (after.resources index).owner = next.val + 1)
      (waiters : (after.resources index).waiters = rest)
      (reported : .granted next index tick ∈ events)
      (state : (after.apps next).state = .ready)
      (context : (after.apps next).context =
        { (before.apps next).context with rax := 1 })

/-- One step, seen from one resource. -/
structure HandoffStep (before after : GmKernel) (events : List GmEvent)
    (index : GmResourceIndex) : Prop where
  immediate : ∀ slot tick, .acquired slot index tick ∈ events →
    (before.resources index).owner = 0 ∧ (before.resources index).waiters = []
  blocked : ∀ slot, .blocked slot index ∈ events →
    (before.resources index).owner ≠ 0 ∧
      (after.resources index).waiters =
        (before.resources index).waiters ++ [slot.val] ∧
      (after.apps slot).state = .blocked
  released_iff : ∀ owner : GmSlot,
    (before.resources index).owner = owner.val + 1 →
      ((after.resources index).owner ≠ owner.val + 1 ↔
        ∃ tick, .released owner index tick ∈ events)
  handed : ∀ owner tick, .released owner index tick ∈ events →
    (before.resources index).owner = owner.val + 1 ∧
      HandedOver before after index events tick
  granted : ∀ slot tick, .granted slot index tick ∈ events →
    ∃ owner, .released owner index tick ∈ events

private theorem not_mem_of_silent
    (silent : ∀ event, event ∈ events → event.resource? = none)
    {event : GmEvent} (concerns : event.resource? = some index) :
    event ∉ events := by
  intro member
  rw [silent event member] at concerns
  cases concerns

/-- A step whose events do not concern the resource and that leaves its line
alone. -/
private theorem HandoffStep.of_silent
    (silent : ∀ event, event ∈ events → event.resource? ≠ some index)
    (owner : (after.resources index).owner = (before.resources index).owner) :
    HandoffStep before after events index where
  immediate slot tick member := absurd rfl (silent _ member)
  blocked slot member := absurd rfl (silent _ member)
  released_iff slot owns := by
    constructor
    · intro changed
      exact absurd (owner.trans owns) changed
    · rintro ⟨tick, member⟩
      exact absurd rfl (silent _ member)
  handed slot tick member := absurd rfl (silent _ member)
  granted slot tick member := absurd rfl (silent _ member)

section

variable (tracks : Tracks before lines)

include tracks

private theorem owner_of_line (tracks' : Tracks after lines')
    (same : lines' index = lines index) :
    (after.resources index).owner = (before.resources index).owner := by
  rw [(tracks.resources index).owner, (tracks'.resources index).owner, same]

private theorem handedOver_of_release {slot : GmSlot} {rest : List GmSlot}
    {tick : Nat} {trailing : List GmEvent}
    (tracks' : Tracks after (lines.leave index))
    (line : lines index = slot :: rest)
    (handed : ∀ next, rest.head? = some next →
      after.apps next = handedApp index (before.apps next)) :
    HandedOver before after index
      (releaseEvents index slot rest.head? tick ++ trailing) tick := by
  have resource := tracks.resources index
  have resource' := tracks'.resources index
  rw [Lines.leave_self] at resource'
  rw [line, List.tail_cons] at resource'
  rw [line] at resource
  cases rest with
  | nil =>
    apply HandedOver.toNobody
    · simpa using resource.waiters
    · simpa using resource'.owner
    · simpa using resource'.waiters
  | cons next later =>
    have received := handed next rfl
    refine .toOldest next (later.map Fin.val) ?_ ?_ ?_ ?_ ?_ ?_
    · simpa using resource.waiters
    · simpa using resource'.owner
    · simpa using resource'.waiters
    · simp [releaseEvents]
    · simp [received, handedApp]
    · simp [received, handedApp]

private theorem HandoffStep.release {slot : GmSlot} {rest : List GmSlot}
    {tick : Nat} {trailing : List GmEvent}
    (tracks' : Tracks after (lines.leave index))
    (line : lines index = slot :: rest)
    (handed : ∀ next, rest.head? = some next →
      after.apps next = handedApp index (before.apps next))
    (silent : ∀ event, event ∈ trailing → event.resource? = none) :
    HandoffStep before after
      (releaseEvents index slot rest.head? tick ++ trailing) index := by
  have owns : (before.resources index).owner = slot.val + 1 :=
    ((tracks.resources index).owner_iff slot).mpr ⟨rest, line⟩
  have givesUp : (after.resources index).owner ≠ slot.val + 1 := by
    intro still
    obtain ⟨rest', line'⟩ := ((tracks'.resources index).owner_iff slot).mp still
    have member : slot ∈ lines.leave index index := by
      rw [line']
      exact List.mem_cons_self
    exact tracks.wellFormed.not_mem_leave line index member
  have mem_iff : ∀ event, event.resource? = some index →
      (event ∈ releaseEvents index slot rest.head? tick ++ trailing ↔
        event ∈ releaseEvents index slot rest.head? tick) := by
    intro event concerns
    rw [List.mem_append]
    exact or_iff_left (not_mem_of_silent silent concerns)
  constructor
  · intro other when member
    rw [mem_iff _ rfl] at member
    cases rest <;> simp [releaseEvents] at member
  · intro other member
    rw [mem_iff _ rfl] at member
    cases rest <;> simp [releaseEvents] at member
  · intro owner isOwner
    obtain rfl : owner = slot := by
      apply Fin.ext
      omega
    refine ⟨fun _ => ⟨tick, ?_⟩, fun _ => givesUp⟩
    simp [releaseEvents]
  · intro owner when member
    rw [mem_iff _ rfl] at member
    obtain ⟨rfl, rfl⟩ : owner = slot ∧ when = tick := by
      cases rest <;> simpa [releaseEvents] using member
    exact ⟨owns, handedOver_of_release tracks tracks' line handed⟩
  · intro other when member
    rw [mem_iff _ rfl] at member
    refine ⟨slot, ?_⟩
    have same : when = tick := by
      cases rest with
      | nil => simp [releaseEvents] at member
      | cons next later =>
        simp only [List.head?_cons, releaseEvents, Option.map_some,
          Option.toList_some, List.mem_cons, reduceCtorEq, false_or,
          List.not_mem_nil, or_false, GmEvent.granted.injEq] at member
        exact member.2.2
    simp [releaseEvents, same]

/-- Every resource sees every step as a handoff step. -/
theorem StepEffect.handoff
    (effect : StepEffect before after lines lines' events)
    (index : GmResourceIndex) : HandoffStep before after events index := by
  have tracks' := effect.tracks
  cases effect.move with
  | quiet _ silent =>
    apply HandoffStep.of_silent
    · intro event member concerns
      exact not_mem_of_silent silent concerns member
    · exact owner_of_line tracks tracks' rfl
  | acquire slot moved tick free absent =>
    by_cases same : index = moved
    · subst moved
      have resource := tracks.resources index
      rw [free] at resource
      have unowned := resource.of_empty.1
      constructor
      · intro other when member
        exact ⟨unowned, by simpa using resource.waiters⟩
      · simp
      · intro owner owns
        rw [unowned] at owns
        omega
      · simp
      · simp
    · apply HandoffStep.of_silent
      · simp [GmEvent.resource?, Ne.symm same]
      · exact owner_of_line tracks tracks' (Lines.join_other _ _ same)
  | block slot moved front rest line absent =>
    by_cases same : index = moved
    · subst moved
      have resource := tracks.resources index
      have resource' := tracks'.resources index
      have joined : lines.join index slot index = front :: (rest ++ [slot]) := by
        simp [line]
      constructor
      · simp
      · intro other member
        obtain rfl : other = slot := by simpa using member
        refine ⟨?_, ?_, ?_⟩
        · rw [ne_eq, resource.owner_eq_zero, line]
          exact List.cons_ne_nil front rest
        · rw [resource'.waiters, resource.waiters, joined, line]
          simp
        · have queued : other.val ∈ (after.resources index).waiters := by
            rw [resource'.waiters, joined]
            simp
          have waiting := (tracks'.queued_iff_waiting index other).mp queued
          rw [tracks'.ownershipInvariant.blocked_iff, waiting]
          exact resourceId_ne_none index
      · intro owner owns
        rw [resource'.owner, joined]
        rw [resource.owner, line] at owns
        simp only [List.head?_cons, Option.map_some, Option.getD_some]
          at owns ⊢
        simp [owns]
      · simp
      · simp
    · apply HandoffStep.of_silent
      · simp [GmEvent.resource?, Ne.symm same]
      · exact owner_of_line tracks tracks' (Lines.join_other _ _ same)
  | release slot moved rest tick line handed trailing silent =>
    by_cases same : index = moved
    · subst moved
      exact .release tracks tracks' line handed silent
    · apply HandoffStep.of_silent
      · intro event member
        rcases List.mem_append.mp member with inRelease | inTrailing
        · cases rest with
          | nil =>
            obtain rfl : event = .released slot moved tick := by
              simpa [releaseEvents] using inRelease
            simp [GmEvent.resource?, Ne.symm same]
          | cons next later =>
            rcases (by simpa [releaseEvents] using inRelease :
              event = .released slot moved tick ∨
                event = .granted next moved tick) with rfl | rfl <;>
              simp [GmEvent.resource?, Ne.symm same]
        · simp [silent event inTrailing]
      · exact owner_of_line tracks tracks' (Lines.leave_other _ same)

end

private theorem order_of_silent
    (silent : ∀ event, event ∈ events → event.resource? = none) :
    blockOrder index events = [] ∧ grantOrder index events = [] := by
  constructor
  · apply List.filterMap_eq_nil_iff.mpr
    intro event member
    have concerns := silent event member
    cases event <;> simp_all [GmEvent.resource?, GmEvent.blockedOn]
  · apply List.filterMap_eq_nil_iff.mpr
    intro event member
    have concerns := silent event member
    cases event <;> simp_all [GmEvent.resource?, GmEvent.grantedOf]

theorem blockOrder_append (index : GmResourceIndex)
    (first second : List GmEvent) :
    blockOrder index (first ++ second) =
      blockOrder index first ++ blockOrder index second :=
  List.filterMap_append

theorem grantOrder_append (index : GmResourceIndex)
    (first second : List GmEvent) :
    grantOrder index (first ++ second) =
      grantOrder index first ++ grantOrder index second :=
  List.filterMap_append

/-- What one move adds at the back of a queue and takes from its front. -/
theorem Move.queue_balance (move : Move before after lines lines' events)
    (index : GmResourceIndex) :
    (lines index).tail ++ blockOrder index events =
      grantOrder index events ++ (lines' index).tail := by
  cases move with
  | quiet _ silent =>
    obtain ⟨noBlocks, noGrants⟩ := order_of_silent silent
    rw [noBlocks, noGrants, List.append_nil, List.nil_append]
  | acquire slot moved tick free absent =>
    by_cases same : index = moved
    · subst moved
      simp [blockOrder, grantOrder, List.filterMap_cons,
        GmEvent.blockedOn, GmEvent.grantedOf, free]
    · simp [blockOrder, grantOrder, List.filterMap_cons,
        GmEvent.blockedOn, GmEvent.grantedOf, same]
  | block slot moved front rest line absent =>
    by_cases same : index = moved
    · subst moved
      simp [blockOrder, grantOrder, List.filterMap_cons,
        GmEvent.blockedOn, GmEvent.grantedOf, line]
    · simp [blockOrder, grantOrder, List.filterMap_cons,
        GmEvent.blockedOn, GmEvent.grantedOf, same, Ne.symm same]
  | release slot moved rest tick line handed trailing silent =>
    obtain ⟨noBlocks, noGrants⟩ := order_of_silent silent
    rw [blockOrder_append, grantOrder_append, noBlocks, noGrants,
      List.append_nil, List.append_nil]
    by_cases same : index = moved
    · subst moved
      rw [Lines.leave_self, line]
      cases rest <;>
        simp [blockOrder, grantOrder, releaseEvents, List.filterMap_cons,
          GmEvent.blockedOn, GmEvent.grantedOf]
    · rw [Lines.leave_other _ same]
      cases rest <;>
        simp [blockOrder, grantOrder, releaseEvents, List.filterMap_cons,
          GmEvent.blockedOn, GmEvent.grantedOf, Ne.symm same]

theorem StepEffect.firstComeFirstServed (tracks : Tracks before lines)
    (effect : StepEffect before after lines lines' events)
    (fair : FirstComeFirstServed before) : FirstComeFirstServed after := by
  intro index
  have balance := congrArg (List.map Fin.val)
    (effect.move.queue_balance index)
  simp only [List.map_append] at balance
  rw [effect.history, blockOrder_append, grantOrder_append, List.map_append,
    List.map_append, fair index, List.append_assoc, List.append_assoc,
    (tracks.resources index).waiters, (effect.tracks.resources index).waiters,
    balance]

/-- In every state of every run grants follow the order of blocking, no
resource is free while somebody waits, and the next step, whatever it is,
treats every resource as a handoff step. -/
theorem gmRun_first_come_first_served (kernelCr3 : UInt64)
    (cr3 : GmSlot → UInt64) (steps : List GmStep) :
    ∃ kernel, gmRun steps (gmProgramsInit kernelCr3 cr3) = .ok kernel ∧
      FirstComeFirstServed kernel ∧
      (∀ index, (kernel.resources index).waiters.Nodup ∧
        ((kernel.resources index).owner = 0 →
          (kernel.resources index).waiters = [])) ∧
      ∀ step, ∃ after events, gmStep step kernel = .ok after ∧
        after.history = kernel.history ++ events ∧
        (∀ index, HandoffStep kernel after events index) ∧
        ∀ index (owner : GmSlot),
          (kernel.resources index).owner = owner.val + 1 →
          (after.apps owner).state = .free →
          ∃ tick, .released owner index tick ∈ events := by
  have reached : ∃ kernel,
      gmRun steps (gmProgramsInit kernelCr3 cr3) = .ok kernel ∧
      (∃ lines, Tracks kernel lines) ∧ FirstComeFirstServed kernel := by
    refine runSteps_invariant ?_ steps _
      ⟨⟨_, gmProgramsInit_tracks kernelCr3 cr3⟩, fun _ => rfl⟩
    rintro step kernel ⟨⟨lines, tracks⟩, fair⟩
    obtain ⟨after, lines', events, stepped, effect⟩ := gmStep_effect tracks step
    exact ⟨after, stepped, ⟨lines', effect.tracks⟩,
      effect.firstComeFirstServed tracks fair⟩
  obtain ⟨kernel, run, ⟨lines, tracks⟩, fair⟩ := reached
  refine ⟨kernel, run, fair, ?_, ?_⟩
  · intro index
    refine ⟨tracks.waiters_nodup index, ?_⟩
    intro free
    have empty := (tracks.resources index).owner_eq_zero.mp free
    rw [(tracks.resources index).waiters, empty]
    rfl
  · intro step
    obtain ⟨after, lines', events, stepped, effect⟩ := gmStep_effect tracks step
    have handoff := effect.handoff tracks
    refine ⟨after, events, stepped, effect.history, handoff, ?_⟩
    intro index owner owns freed
    apply ((handoff index).released_iff owner owns).mp
    intro still
    have owned := (effect.tracks.owner_iff_owned index owner).mp still
    have none := (effect.tracks.ownershipInvariant.free_idle owner freed).1
    exact resourceId_ne_none index (owned.symm.trans none)

end Gmker.Programs
