import Gmker.Programs.SlotChanges

/-!
# The life of a slot

Along every run of the machine a slot goes through launch, dispatch, trap and
end in order, its saved context is the one prepared at the start or its last
trap frame, and its charged ticks stay below the limit.
-/

namespace Gmker.Programs

open Foundation

variable {change : GmChange} {changes : List GmChange} {step : GmStep}
  {kernel before after : GmKernel} {mode : GmMode} {slot : GmSlot}

/-- The entries that may launch programs. -/
def GmStep.starts : GmStep → Bool
  | .run .. => true
  | .periodicPoll .. => true
  | _ => false

/-! ## One slot in one step -/

/-- What a step of the machine does to one slot, with the change noted. -/
inductive SlotStep (step : GmStep) (kernel : GmKernel) (mode : GmMode)
    (slot : GmSlot) (before after : GmAppSlot) : GmChange → Prop where
  | kept (same : SlotKept before after) :
      SlotStep step kernel mode slot before after .kept
  | launched (loop : mode = .loop) (starts : step.starts = true)
      (launch : SlotLaunched before after) :
      SlotStep step kernel mode slot before after (.launched after.context)
  | dispatched (loop : mode = .loop) (isSchedule : step = .schedule)
      (was : before.state = .ready) (now : after.state = .running)
      (context : after.context = before.context)
      (ticks : after.runtimeTicks = before.runtimeTicks) :
      SlotStep step kernel mode slot before after (.dispatched after.context)
  | granted (other : GmSlot) (trap : mode = .user other)
      (different : other ≠ slot) (grant : SlotGranted before after) :
      SlotStep step kernel mode slot before after .granted
  | trapped (own : mode = .user slot) (was : before.state = .running)
      (trap : Trapped step kernel before after) :
      SlotStep step kernel mode slot before after
        (gmTrapChange step kernel after.state)

section Observed

variable {step : GmStep} {before after : GmKernel} {mode : GmMode}
  {slot : GmSlot}

theorem gmObserve_kept (same : (after.apps slot).state =
    (before.apps slot).state) : gmObserve step before after slot = .kept := by
  unfold gmObserve
  rw [same]
  cases (before.apps slot).state <;> rfl

theorem SlotStep.observed_kept
    (same : SlotKept (before.apps slot) (after.apps slot)) :
    SlotStep step before mode slot (before.apps slot) (after.apps slot)
      (gmObserve step before after slot) := by
  rw [gmObserve_kept same.state]
  exact .kept same

theorem SlotStep.observed_launched (loop : mode = .loop)
    (starts : step.starts = true)
    (change : LoopChange (before.apps slot) (after.apps slot)) :
    SlotStep step before mode slot (before.apps slot) (after.apps slot)
      (gmObserve step before after slot) := by
  cases change with
  | kept same => exact .observed_kept same
  | launched launch =>
    have seen : gmObserve step before after slot =
        .launched (after.apps slot).context := by
      simp [gmObserve, launch.was, launch.now]
    rw [seen]
    exact .launched loop starts launch

theorem SlotStep.observed_bystander {other : GmSlot}
    (trap : mode = .user other) (different : other ≠ slot)
    (change : Bystander (before.apps slot) (after.apps slot)) :
    SlotStep step before mode slot (before.apps slot) (after.apps slot)
      (gmObserve step before after slot) := by
  cases change with
  | kept same => exact .observed_kept same
  | granted grant =>
    have seen : gmObserve step before after slot = .granted := by
      simp [gmObserve, grant.was, grant.now]
    rw [seen]
    exact .granted other trap different grant

theorem SlotStep.observed_trap (own : mode = .user slot)
    (was : (before.apps slot).state = .running)
    (trap : Trapped step before (before.apps slot) (after.apps slot)) :
    SlotStep step before mode slot (before.apps slot) (after.apps slot)
      (gmObserve step before after slot) := by
  have seen : gmObserve step before after slot =
      gmTrapChange step before (after.apps slot).state := by
    simp [gmObserve, was]
  rw [seen]
  exact .trapped own was trap

end Observed

/-! ## Invariants of one slot -/

/-- Every dispatch loaded the context that was saved for it. -/
def Resumed (changes : List GmChange) : Prop :=
  ∀ later context earlier, changes = later ++ .dispatched context :: earlier →
    gmSaved earlier = some context

theorem Resumed.cons (old : Resumed changes)
    (new : ∀ context, change = .dispatched context →
      gmSaved changes = some context) : Resumed (change :: changes) := by
  intro later context earlier split
  cases later with
  | nil =>
    obtain ⟨isDispatch, rfl⟩ := List.cons.inj split
    exact new context isDispatch
  | cons first rest =>
    exact old rest context earlier (List.cons.inj split).2

/-- A slot and its noted changes. -/
structure SlotOrderly (app : GmAppSlot) (changes : List GmChange) : Prop where
  ticks : app.state ≠ .free → app.runtimeTicks = gmCharged changes
  below : app.state ≠ .free → app.runtimeTicks < gmProgramMaxTicks
  charged : gmCharged changes ≤ gmProgramMaxTicks
  saved : app.state = .ready → gmSaved changes = some app.context
  awaited : app.state = .blocked → gmAwaited changes = some app.context
  resumed : Resumed changes
  started : ∀ context, .launched context ∈ changes →
    ∃ argLen entry, context = gmStartContext argLen entry

/-- Changes that are no launch add no prepared context. -/
theorem started_cons
    (old : ∀ context, .launched context ∈ changes →
      ∃ argLen entry, context = gmStartContext argLen entry)
    (other : ∀ context, change ≠ .launched context) :
    ∀ context, .launched context ∈ change :: changes →
      ∃ argLen entry, context = gmStartContext argLen entry := by
  intro context member
  rcases List.mem_cons.mp member with isNew | isOld
  · exact absurd isNew.symm (other context)
  · exact old context isOld

namespace SlotOrderly

variable {before after : GmAppSlot} {changes : List GmChange}

section

variable (orderly : SlotOrderly before changes)

include orderly

theorem kept (same : SlotKept before after) :
    SlotOrderly after (.kept :: changes) where
  ticks alive := by
    rw [same.ticks]
    exact orderly.ticks (same.state ▸ alive)
  below alive := by
    rw [same.ticks]
    exact orderly.below (same.state ▸ alive)
  charged := orderly.charged
  saved ready := by
    rw [same.context]
    exact orderly.saved (same.state ▸ ready)
  awaited waits := by
    rw [same.context]
    exact orderly.awaited (same.state ▸ waits)
  resumed := orderly.resumed.cons (by simp)
  started := started_cons orderly.started (by simp)

theorem launched (launch : SlotLaunched before after) :
    SlotOrderly after (.launched after.context :: changes) where
  ticks _ := launch.ticks
  below _ := by
    rw [launch.ticks]
    decide
  charged := Nat.zero_le _
  saved _ := rfl
  awaited waits := by
    rw [launch.now] at waits
    cases waits
  resumed := orderly.resumed.cons (by simp)
  started context member := by
    rcases List.mem_cons.mp member with isNew | isOld
    · cases isNew
      exact launch.context
    · exact orderly.started context isOld

theorem dispatched (was : before.state = .ready) (now : after.state = .running)
    (context : after.context = before.context)
    (ticks : after.runtimeTicks = before.runtimeTicks) :
    SlotOrderly after (.dispatched after.context :: changes) where
  ticks _ := by
    rw [ticks]
    exact orderly.ticks (by simp [was])
  below _ := by
    rw [ticks]
    exact orderly.below (by simp [was])
  charged := orderly.charged
  saved ready := by
    rw [now] at ready
    cases ready
  awaited waits := by
    rw [now] at waits
    cases waits
  resumed := by
    apply orderly.resumed.cons
    intro loaded same
    cases same
    rw [context]
    exact orderly.saved was
  started := started_cons orderly.started (by simp)

theorem granted (grant : SlotGranted before after) :
    SlotOrderly after (.granted :: changes) where
  ticks _ := by
    rw [grant.ticks]
    exact orderly.ticks (by simp [grant.was])
  below _ := by
    rw [grant.ticks]
    exact orderly.below (by simp [grant.was])
  charged := orderly.charged
  saved _ := by
    rw [gmSaved, orderly.awaited grant.was, grant.context]
    rfl
  awaited waits := by
    rw [grant.now] at waits
    cases waits
  resumed := orderly.resumed.cons (by simp)
  started := started_cons orderly.started (by simp)

theorem trapped (was : before.state = .running)
    (trap : Trapped step kernel before after) :
    SlotOrderly after (gmTrapChange step kernel after.state :: changes) := by
  have ticked := orderly.ticks (by simp [was])
  have below := orderly.below (by simp [was])
  cases trap with
  | answered env frame isService now context ticks =>
    subst isService
    rw [now]
    refine ⟨fun _ => ticks.trans ticked, fun _ => by rw [ticks]; exact below,
      orderly.charged, ?_, ?_, orderly.resumed.cons (by simp [gmTrapChange]),
      started_cons orderly.started (by simp [gmTrapChange])⟩
    · intro _
      rw [context]
      rfl
    · intro waits
      rw [now] at waits
      cases waits
  | blocked env frame isService now context ticks =>
    subst isService
    rw [now]
    refine ⟨fun _ => ticks.trans ticked, fun _ => by rw [ticks]; exact below,
      orderly.charged, ?_, ?_, orderly.resumed.cons (by simp [gmTrapChange]),
      started_cons orderly.started (by simp [gmTrapChange])⟩
    · intro ready
      rw [now] at ready
      cases ready
    · intro _
      rw [context]
      rfl
  | preempted frame isTimer now context ticks limit =>
    subst isTimer
    rw [now]
    have charge : after.runtimeTicks = gmCharged changes + 1 := by
      rw [ticks, ticked]
    refine ⟨fun _ => charge, fun _ => limit, ?_, ?_, ?_,
      orderly.resumed.cons (by simp [gmTrapChange]),
      started_cons orderly.started (by simp [gmTrapChange])⟩
    · change gmCharged changes + 1 ≤ gmProgramMaxTicks
      omega
    · intro _
      rw [context]
      rfl
    · intro waits
      rw [now] at waits
      cases waits
  | expired frame isTimer now limit =>
    subst isTimer
    rw [now]
    refine ⟨fun alive => absurd now alive, fun alive => absurd now alive,
      ?_, ?_, ?_, orderly.resumed.cons (by simp [gmTrapChange]),
      started_cons orderly.started (by simp [gmTrapChange])⟩
    · change gmCharged changes + 1 ≤ gmProgramMaxTicks
      omega
    · intro ready
      rw [now] at ready
      cases ready
    · intro waits
      rw [now] at waits
      cases waits
  | ended notTimer now =>
    have change : gmTrapChange step kernel after.state = .ended := by
      rw [now]
      cases step <;> first
        | rfl
        | exact absurd rfl (notTimer _)
    rw [change]
    refine ⟨fun alive => absurd now alive, fun alive => absurd now alive,
      orderly.charged, ?_, ?_, orderly.resumed.cons (by simp),
      started_cons orderly.started (by simp)⟩
    · intro ready
      rw [now] at ready
      cases ready
    · intro waits
      rw [now] at waits
      cases waits

end

end SlotOrderly

theorem SlotStep.orderly {before after : GmAppSlot}
    (stepped : SlotStep step kernel mode slot before after change)
    (orderly : SlotOrderly before changes) :
    SlotOrderly after (change :: changes) := by
  cases stepped with
  | kept same => exact orderly.kept same
  | launched _ _ launch => exact orderly.launched launch
  | dispatched _ _ was now context ticks =>
    exact orderly.dispatched was now context ticks
  | granted _ _ _ grant => exact orderly.granted grant
  | trapped _ was trap => exact orderly.trapped was trap

/-! ## The whole machine -/

/-- Which slot may be running in a mode. -/
def ModeOrderly : GmMode → GmKernel → Prop
  | .loop, kernel => ∀ slot, (kernel.apps slot).state ≠ .running
  | .user slot, kernel => kernel.current = slot ∧
      ∀ other, (kernel.apps other).state = .running ↔ other = slot

structure Orderly (machine : GmMachine) : Prop where
  slots : ∀ slot,
    SlotOrderly (machine.kernel.apps slot) (machine.changes slot)
  mode : ModeOrderly machine.mode machine.kernel

/-- A step of the kernel in a mode: what it does to every slot, and who
executes next. -/
structure ModeStep (step : GmStep) (mode : GmMode) (before after : GmKernel) :
    Prop where
  slots : ∀ slot, SlotStep step before mode slot (before.apps slot)
    (after.apps slot) (gmObserve step before after slot)
  mode : ModeOrderly (gmNextMode step before mode) after

/-- Nothing runs after a step of the loop that dispatches nothing. -/
theorem ModeStep.of_loop (idle : ModeOrderly .loop before)
    (stays : gmNextMode step before .loop = .loop)
    (changes : ∀ slot, SlotKept (before.apps slot) (after.apps slot) ∨
      (step.starts = true ∧
        LoopChange (before.apps slot) (after.apps slot))) :
    ModeStep step .loop before after := by
  constructor
  · intro slot
    rcases changes slot with same | ⟨starts, change⟩
    · exact .observed_kept same
    · exact .observed_launched rfl starts change
  · rw [stays]
    intro slot running
    have change : LoopChange (before.apps slot) (after.apps slot) := by
      rcases changes slot with same | ⟨_, change⟩
      · exact .kept same
      · exact change
    cases change with
    | kept same => exact idle slot (same.state ▸ running)
    | launched launch =>
      rw [launch.now] at running
      cases running

theorem gmProgramSchedule_mode (idle : ModeOrderly .loop before) :
    ModeStep .schedule .loop before (gmProgramSchedule before).2 := by
  cases found : gmNextReady before with
  | none =>
    have same : (gmProgramSchedule before).2 = before := by
      simp [gmProgramSchedule, found]
    rw [same]
    exact .of_loop idle (by simp [gmNextMode, found])
      (fun slot => .inl (.refl _))
  | some chosen =>
    have ready : (before.apps chosen).state = .ready := by
      simpa using List.find?_some found
    have own : ((gmProgramSchedule before).2.apps chosen) =
        { before.apps chosen with state := .running } := by
      simp [gmProgramSchedule, found, gmProgramActivate, GmKernel.record,
        GmKernel.setApp]
    have others : ∀ other, other ≠ chosen →
        (gmProgramSchedule before).2.apps other = before.apps other := by
      intro other different
      simp [gmProgramSchedule, found, gmProgramActivate, GmKernel.record,
        GmKernel.setApp,
        different]
    have current : (gmProgramSchedule before).2.current = chosen := by
      simp [gmProgramSchedule, found, gmProgramActivate, GmKernel.record,
        GmKernel.setApp]
    constructor
    · intro slot
      by_cases isChosen : slot = chosen
      · subst isChosen
        have seen : gmObserve .schedule before (gmProgramSchedule before).2
            slot =
              .dispatched ((gmProgramSchedule before).2.apps slot).context := by
          simp [gmObserve, ready, own]
        rw [seen]
        exact .dispatched rfl rfl ready (by rw [own]) (by rw [own])
          (by rw [own])
      · apply SlotStep.observed_kept
        rw [others slot isChosen]
        exact .refl _
    · have next : gmNextMode .schedule before .loop = .user chosen := by
        simp [gmNextMode, found]
      rw [next]
      refine ⟨current, ?_⟩
      intro other
      by_cases isChosen : other = chosen
      · simp [isChosen, own]
      · rw [others other isChosen]
        simp [isChosen, idle other]

/-- A handled trap gives control back to the loop. -/
theorem ModeStep.of_trap (busy : ModeOrderly (.user slot) before)
    (handled : gmTrapHandled step before = true)
    (trap : TrapSlots step before after slot) :
    ModeStep step (.user slot) before after := by
  have running : (before.apps slot).state = .running :=
    (busy.2 slot).mpr rfl
  constructor
  · intro other
    by_cases isSlot : other = slot
    · subst isSlot
      exact .observed_trap rfl running trap.own
    · exact .observed_bystander rfl (Ne.symm isSlot) (trap.others other isSlot)
  · rw [gmNextMode, if_pos handled]
    intro other now
    by_cases isSlot : other = slot
    · subst isSlot
      have left : (after.apps other).state ≠ .running := by
        cases trap.own <;> simp_all
      exact left now
    · have idle : (before.apps other).state ≠ .running := by
        intro runs
        exact isSlot ((busy.2 other).mp runs)
      cases trap.others other isSlot with
      | kept same => exact idle (same.state ▸ now)
      | granted grant =>
        rw [grant.now] at now
        cases now

theorem gmStep_loop (idle : ModeOrderly .loop before)
    (enabled : gmEnabled .loop step = true)
    (ran : gmStep step before = .ok after) :
    ModeStep step .loop before after := by
  cases step with
  | run load name args =>
    cases ran
    exact .of_loop idle rfl fun slot =>
      .inr ⟨rfl, (gmProgramRun_moves load name args before).slots slot⟩
  | periodicAdd seconds count name args =>
    cases ran
    refine .of_loop idle rfl ?_
    intro slot
    rw [gmPeriodicAdd_apps]
    exact .inl (.refl _)
  | periodicCancel id =>
    cases ran
    refine .of_loop idle rfl ?_
    intro slot
    rw [gmPeriodicCancel_apps]
    exact .inl (.refl _)
  | periodicPoll load =>
    cases ran
    exact .of_loop idle rfl fun slot =>
      .inr ⟨rfl, (gmPeriodicPoll_moves load before).slots slot⟩
  | schedule =>
    cases ran
    exact gmProgramSchedule_mode idle
  | timer frame =>
    have inKernel : fromUser frame.cs = false := by
      simpa [gmEnabled] using enabled
    rw [gmStep, gmIsrTimer_kernel before inKernel] at ran
    cases ran
    exact .of_loop idle rfl (fun slot => .inl (.refl _))
  | service env frame => simp [gmEnabled] at enabled
  | fault vector cs => simp [gmEnabled] at enabled

theorem gmStep_user (busy : ModeOrderly (.user slot) before)
    (enabled : gmEnabled (.user slot) step = true)
    (ran : gmStep step before = .ok after) :
    ModeStep step (.user slot) before after := by
  obtain ⟨current, only⟩ := busy
  subst current
  have running : (before.apps before.current).state = .running :=
    (only before.current).mpr rfl
  have busy : ModeOrderly (.user before.current) before := ⟨rfl, only⟩
  cases step with
  | service env frame =>
    obtain ⟨outcome, served, rfl⟩ := map_ok ran
    obtain ⟨handled, trap⟩ := (gmProgramService_slots served).trap running enabled
    exact .of_trap busy (by rw [gmTrapHandled, served]; exact handled) trap
  | fault vector cs =>
    obtain ⟨outcome, faulted, rfl⟩ := map_ok ran
    obtain ⟨handled, trap⟩ := (gmProgramFault_slots faulted).trap running enabled
    exact .of_trap busy (by rw [gmTrapHandled, faulted]; exact handled) trap
  | timer frame =>
    obtain ⟨outcome, ticked, rfl⟩ := map_ok ran
    obtain ⟨handled, trap⟩ := (gmIsrTimer_slots ticked).trap running enabled
    exact .of_trap busy (by rw [gmTrapHandled, ticked]; exact handled) trap
  | run load name args => simp [gmEnabled] at enabled
  | periodicAdd seconds count name args => simp [gmEnabled] at enabled
  | periodicCancel id => simp [gmEnabled] at enabled
  | periodicPoll load => simp [gmEnabled] at enabled
  | schedule => simp [gmEnabled] at enabled

theorem gmMachineStep_mode {machine next : GmMachine}
    (orderly : Orderly machine) (ran : gmMachineStep step machine = .ok next) :
    ModeStep step machine.mode machine.kernel next.kernel ∧
      next.mode = gmNextMode step machine.kernel machine.mode ∧
      ∀ slot, next.changes slot =
        gmObserve step machine.kernel next.kernel slot ::
          machine.changes slot := by
  unfold gmMachineStep at ran
  split at ran
  · rename_i enabled
    split at ran
    · cases ran
    · rename_i kernel stepped
      cases ran
      refine ⟨?_, rfl, fun slot => rfl⟩
      have mode := orderly.mode
      generalize machine.mode = current at *
      cases current with
      | loop => exact gmStep_loop mode enabled stepped
      | user slot => exact gmStep_user mode enabled stepped
  · cases ran

theorem gmMachineStep_orderly {machine next : GmMachine}
    (orderly : Orderly machine) (ran : gmMachineStep step machine = .ok next) :
    Orderly next := by
  obtain ⟨stepped, mode, noted⟩ := gmMachineStep_mode orderly ran
  constructor
  · intro slot
    rw [noted slot]
    exact (stepped.slots slot).orderly (orderly.slots slot)
  · rw [mode]
    exact stepped.mode

theorem gmMachineInit_orderly (kernelCr3 : UInt64) (cr3 : GmSlot → UInt64) :
    Orderly (gmMachineInit kernelCr3 cr3) := by
  constructor
  · intro slot
    refine ⟨?_, ?_, Nat.zero_le _, ?_, ?_, ?_, ?_⟩
    · intro alive
      exact absurd rfl alive
    · intro alive
      exact absurd rfl alive
    · intro ready
      cases ready
    · intro waits
      cases waits
    · intro later context earlier split
      cases later <;> cases split
    · intro context member
      cases member
  · intro slot running
    cases running

theorem gmMachineRun_orderly {kernelCr3 : UInt64} {cr3 : GmSlot → UInt64}
    {steps : List GmStep} {machine : GmMachine}
    (ran : gmMachineRun steps (gmMachineInit kernelCr3 cr3) = .ok machine) :
    Orderly machine :=
  runSteps_keeps (fun _ _ _ holds stepped =>
    gmMachineStep_orderly holds stepped) (gmMachineInit_orderly _ _) ran

/-! ## Saved contexts -/

/-- A slot that is alive and does not trap in a step keeps its saved context;
a grant sets `rax` to 1. -/
inductive ContextKept (before after : GmAppSlot) : Prop where
  | same (context : after.context = before.context)
  | granted (was : before.state = .blocked) (now : after.state = .ready)
      (context : after.context = { before.context with rax := 1 })

theorem SlotStep.context_kept {before after : GmAppSlot}
    (stepped : SlotStep step kernel mode slot before after change)
    (alive : before.state ≠ .free) (other : mode ≠ .user slot) :
    ContextKept before after := by
  cases stepped with
  | kept same => exact .same same.context
  | launched _ _ launch => exact absurd launch.was alive
  | dispatched _ _ _ _ context _ => exact .same context
  | granted _ _ _ grant => exact .granted grant.was grant.now grant.context
  | trapped own _ _ => exact absurd own other

/-- Every dispatch loads the context prepared at the launch or left by the
last trap, and no step of another slot touches it. -/
theorem gmMachineRun_contexts (kernelCr3 : UInt64) (cr3 : GmSlot → UInt64)
    (steps : List GmStep) (machine : GmMachine)
    (ran : gmMachineRun steps (gmMachineInit kernelCr3 cr3) = .ok machine)
    (slot : GmSlot) :
    (∀ later context earlier,
      machine.changes slot = later ++ .dispatched context :: earlier →
        gmSaved earlier = some context) ∧
    (∀ context, .launched context ∈ machine.changes slot →
      ∃ argLen entry, context = gmStartContext argLen entry) ∧
    (∀ step next, gmMachineStep step machine = .ok next →
      (machine.kernel.apps slot).state ≠ .free → machine.mode ≠ .user slot →
        ContextKept (machine.kernel.apps slot) (next.kernel.apps slot)) := by
  have orderly := gmMachineRun_orderly ran
  refine ⟨(orderly.slots slot).resumed, (orderly.slots slot).started, ?_⟩
  intro step next stepped alive other
  obtain ⟨effect, _, _⟩ := gmMachineStep_mode orderly stepped
  exact (effect.slots slot).context_kept alive other

/-- A ring-3 frame with two marked registers. -/
def userFrame (rax rdi rbx : UInt64) : GmServiceFrame :=
  { rax := rax, rdi := rdi, rbx := rbx, cs := 0x23 }

/-- Two programs; the second waits for the resource of the first and is
granted it. -/
def contendedSteps : List GmStep :=
  [ .run (fun _ => some 16) (ascii "a") none,
    .run (fun _ => some 32) (ascii "b") none,
    .schedule,
    .service idleServices (userFrame gmSvcResourceAcquire 1 77),
    .schedule,
    .service idleServices (userFrame gmSvcResourceAcquire 1 88),
    .schedule,
    .timer (userFrame 5 6 77),
    .timer { cs := 0x08 },
    .schedule,
    .service idleServices (userFrame gmSvcResourceRelease 1 77),
    .schedule ]

theorem gmMachineRun_contexts_granted :
    ∃ machine,
      gmMachineRun contendedSteps (gmMachineInit 0x1000 fun _ => 0x2000) =
        .ok machine ∧
      machine.mode = .user 1 ∧
      (machine.changes 1).head? =
        some (.dispatched { userFrame gmSvcResourceAcquire 1 88 with rax := 1 }) ∧
      gmSaved (machine.changes 1).tail =
        some { userFrame gmSvcResourceAcquire 1 88 with rax := 1 } := by
  refine ⟨_, rfl, rfl, rfl, ?_⟩
  exact (gmMachineRun_contexts 0x1000 (fun _ => 0x2000) contendedSteps _ rfl
    1).1 [] _ _ rfl

/-! ## States and deadlines -/

/-- The transitions a slot can make in a step. -/
inductive GmTransition (step : GmStep) (mode : GmMode) (slot : GmSlot) :
    GmAppState → GmAppState → Prop where
  | stay (state : GmAppState) : GmTransition step mode slot state state
  | start (loop : mode = .loop) (starts : step.starts = true) :
      GmTransition step mode slot .free .ready
  | schedule (loop : mode = .loop) (isSchedule : step = .schedule) :
      GmTransition step mode slot .ready .running
  | yield (own : mode = .user slot) :
      GmTransition step mode slot .running .ready
  | block (own : mode = .user slot) :
      GmTransition step mode slot .running .blocked
  | finish (own : mode = .user slot) :
      GmTransition step mode slot .running .free
  | grant (other : GmSlot) (trap : mode = .user other)
      (different : other ≠ slot) : GmTransition step mode slot .blocked .ready

theorem SlotStep.transition {before after : GmAppSlot}
    (stepped : SlotStep step kernel mode slot before after change) :
    GmTransition step mode slot before.state after.state := by
  cases stepped with
  | kept same =>
    rw [same.state]
    exact .stay _
  | launched loop starts launch =>
    rw [launch.was, launch.now]
    exact .start loop starts
  | dispatched loop isSchedule was now _ _ =>
    rw [was, now]
    exact .schedule loop isSchedule
  | granted other trap different grant =>
    rw [grant.was, grant.now]
    exact .grant other trap different
  | trapped own was trap =>
    rw [was]
    cases trap with
    | answered _ _ _ now _ _ =>
      rw [now]
      exact .yield own
    | blocked _ _ _ now _ _ =>
      rw [now]
      exact .block own
    | preempted _ _ now _ _ _ =>
      rw [now]
      exact .yield own
    | expired _ _ now _ =>
      rw [now]
      exact .finish own
    | ended _ now =>
      rw [now]
      exact .finish own

end Gmker.Programs
