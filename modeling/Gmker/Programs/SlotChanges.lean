import Gmker.Programs.Accounting
import Gmker.Programs.ControlFlow

/-!
# What each entry does to the slots

Every function of the kernel, for one slot at a time: the slot whose
application trapped, the slot that is launched or dispatched, and the
bystanders, which are either left alone or handed a resource they waited for.
State, saved context and charged ticks are followed here, and with them the
books and the pointer of the dispatcher.
-/

namespace Gmker.Programs

open Foundation Function

variable {kernel after before : GmKernel} {slot : GmSlot}
  {frame : GmServiceFrame}

/-- State, saved context and charged ticks are unchanged. -/
structure SlotKept (before after : GmAppSlot) : Prop where
  state : after.state = before.state
  context : after.context = before.context
  ticks : after.runtimeTicks = before.runtimeTicks

theorem SlotKept.refl (app : GmAppSlot) : SlotKept app app :=
  ⟨rfl, rfl, rfl⟩

theorem SlotKept.trans {first second third : GmAppSlot}
    (left : SlotKept first second) (right : SlotKept second third) :
    SlotKept first third :=
  ⟨right.state.trans left.state, right.context.trans left.context,
    right.ticks.trans left.ticks⟩

/-- A blocked slot is handed the resource it waited for. -/
structure SlotGranted (before after : GmAppSlot) : Prop where
  was : before.state = .blocked
  now : after.state = .ready
  context : after.context = { before.context with rax := 1 }
  ticks : after.runtimeTicks = before.runtimeTicks

/-- What happens to a slot during the trap of another one. -/
inductive Bystander (before after : GmAppSlot) : Prop where
  | kept (same : SlotKept before after)
  | granted (grant : SlotGranted before after)

theorem Bystander.refl (app : GmAppSlot) : Bystander app app :=
  .kept (.refl app)

theorem Bystander.after_kept {before middle after : GmAppSlot}
    (same : SlotKept before middle) (later : Bystander middle after) :
    Bystander before after := by
  cases later with
  | kept last => exact .kept (same.trans last)
  | granted grant =>
    exact .granted ⟨same.state ▸ grant.was, grant.now,
      by rw [grant.context, same.context], grant.ticks.trans same.ticks⟩

/-- A slot that is not blocked is left alone. -/
theorem Bystander.of_active {before after : GmAppSlot}
    (change : Bystander before after) (active : before.state ≠ .blocked) :
    SlotKept before after := by
  cases change with
  | kept same => exact same
  | granted grant => exact absurd grant.was active

theorem setApp_kept (kernel : GmKernel) (slot : GmSlot) (app : GmAppSlot)
    (same : SlotKept (kernel.apps slot) app) (other : GmSlot) :
    SlotKept (kernel.apps other) ((kernel.setApp slot app).apps other) := by
  by_cases isSlot : other = slot
  · subst isSlot
    simpa [GmKernel.setApp] using same
  · simp only [GmKernel.setApp, update_of_ne isSlot]
    exact .refl _

/-! ## Resources -/

/-- What a release does: holds begin and end, and every slot is left alone or
handed a resource. -/
structure Managed (before after : GmKernel) : Prop where
  kept : BooksKept before after
  current : after.current = before.current
  slots : ∀ slot, Bystander (before.apps slot) (after.apps slot)

theorem Managed.refl (kernel : GmKernel) : Managed kernel kernel :=
  ⟨.of_eq rfl, rfl, fun _ => .refl _⟩

theorem gmResourceGrantNext_managed {index : GmResourceIndex}
    (free : (kernel.resources index).owner = 0)
    (ran : gmResourceGrantNext index kernel.ticks kernel = .ok after) :
    Managed kernel after := by
  unfold gmResourceGrantNext at ran
  dsimp only at ran
  split at ran
  · cases ran
    exact .refl kernel
  split at ran
  · rename_i within
    split at ran
    · cases ran
    rename_i waits
    cases ran
    simp only [not_or, Decidable.not_not] at waits
    refine ⟨.of_step (.began index ⟨_, within⟩ free ⟨rfl, rfl, ?_, ?_⟩) rfl,
      rfl, ?_⟩
    · exact update_sameBook ⟨⟨rfl, rfl, rfl, rfl, rfl⟩, rfl⟩
    · intro other
      simp only [GmKernel.beginHold, GmKernel.record, GmKernel.setApp,
        GmKernel.setResource, gmMarks_append]
      rfl
    · intro slot
      simp only [GmKernel.record, GmKernel.setApp, GmKernel.setResource]
      by_cases isNext : slot = ⟨_, within⟩
      · subst isNext
        rw [update_self]
        exact .granted ⟨waits.1, rfl, rfl, rfl⟩
      · rw [update_of_ne isNext]
        exact .refl _
  · cases ran

theorem gmResourceReleaseApp_managed {resource : Nat} {released : Bool}
    (ran : gmResourceReleaseApp slot resource kernel = .ok (released, after)) :
    Managed kernel after := by
  unfold gmResourceReleaseApp at ran
  split at ran
  · cases ran
    exact .refl kernel
  rename_i index _
  split at ran
  · cases ran
    exact .refl kernel
  rename_i owned
  have held : (kernel.resources index).owner ≠ 0 := by
    rw [not_or, not_not, not_not] at owned
    rw [owned.2]
    exact Nat.succ_ne_zero _
  have same := gmResourceAccount_sameQueues index kernel.ticks kernel
  dsimp only at ran
  split at ran
  · cases ran
  rename_i granted
  cases ran
  -- The kernel between the release and the grant.
  generalize freedEq : GmKernel.record _ _ = freed at granted
  have books : SameBooks (kernel.endHold index slot) freed := by
    subst freedEq
    exact .of_eq rfl
  have kept : BooksKept kernel freed := by
    refine .of_step (.ended index slot held books) ?_
    subst freedEq
    exact same.programNext
  have free : (freed.resources index).owner = 0 := by
    rw [(books.resources index).owner]
    simp only [GmKernel.endHold, GmKernel.record, GmKernel.setResource,
      update_self]
  have ticks : freed.ticks = kernel.ticks := books.ticks.trans same.ticks
  rw [← ticks] at granted
  have later := gmResourceGrantNext_managed free granted
  subst freedEq
  refine ⟨kept.trans later.kept, later.current.trans same.current, ?_⟩
  intro other
  refine Bystander.after_kept ?_ (later.slots other)
  have gone := setApp_kept kernel slot
    { kernel.apps slot with ownedResource := gmResourceNone } ⟨rfl, rfl, rfl⟩
    other
  simpa [GmKernel.record, GmKernel.setApp, GmKernel.setResource, same.apps]
    using gone

theorem gmResourceReclaim_managed
    (ran : gmResourceReclaim slot kernel = .ok after) :
    Managed kernel after := by
  unfold gmResourceReclaim at ran
  dsimp only at ran
  split at ran
  · cases ran
    exact .refl kernel
  split at ran
  · cases ran
  rename_i released
  split at ran
  · cases ran
    exact gmResourceReleaseApp_managed released
  · cases ran

theorem terminateApp_slots {result : Int}
    (ran : terminateApp slot result kernel = .ok after) :
    (after.apps slot).state = .free ∧
      (∀ other, other ≠ slot →
        Bystander (kernel.apps other) (after.apps other)) ∧
      BooksKept kernel after := by
  unfold terminateApp at ran
  split at ran
  · cases ran
  rename_i reclaimed ended
  cases ran
  have managed := gmResourceReclaim_managed ended
  refine ⟨by simp [GmKernel.record, GmKernel.setApp], ?_, ?_⟩
  · intro other different
    simpa [GmKernel.record, GmKernel.setApp, different] using
      managed.slots other
  · refine (managed.kept.trans ?_).start rfl
    exact .start (.record fun _ => rfl) rfl

/-- An acquire either answers and leaves every slot alone, or blocks the
caller with its trap frame. -/
theorem gmResourceAcquireService_slots {resource : Nat}
    {outcome : GmAcquireOutcome}
    (ran : gmResourceAcquireService slot resource frame kernel =
      .ok (outcome, after)) :
    BooksKept kernel after ∧ after.current = kernel.current ∧
      ((outcome ≠ .blocked ∧
          ∀ other, SlotKept (kernel.apps other) (after.apps other)) ∨
        (outcome = .blocked ∧
          after.apps slot = { kernel.apps slot with
            context := frame
            waitingResource := resource
            state := .blocked } ∧
          ∀ other, other ≠ slot → after.apps other = kernel.apps other)) := by
  unfold gmResourceAcquireService at ran
  dsimp only at ran
  split at ran
  · cases ran
    exact ⟨.of_eq rfl, rfl, .inl ⟨by simp, fun other => .refl _⟩⟩
  rename_i index _
  split at ran
  · cases ran
    exact ⟨.of_eq rfl, rfl, .inl ⟨by simp, fun other => .refl _⟩⟩
  split at ran
  · rename_i free
    cases ran
    refine ⟨.of_step (.began index slot free (.of_eq rfl)) rfl, rfl,
      .inl ⟨by simp, ?_⟩⟩
    intro other
    exact setApp_kept kernel slot
      { kernel.apps slot with ownedResource := resource } ⟨rfl, rfl, rfl⟩
      other
  split at ran
  · cases ran
  rename_i entry queued
  cases ran
  have booked : SameBook (kernel.resources index) entry := by
    unfold gmResourceWait at queued
    split at queued
    · cases queued
    obtain rfl := Option.some.inj queued
    exact ⟨⟨rfl, rfl, rfl, rfl, rfl⟩, rfl⟩
  refine ⟨(BooksKept.setResource booked).trans
    (.start (.trans (.record fun _ => rfl) (.of_eq rfl)) rfl), rfl,
    .inr ⟨rfl, ?_, ?_⟩⟩
  · simp [gmProgramKernel, GmKernel.record, GmKernel.setApp,
      GmKernel.setResource]
  · intro other different
    simp [gmProgramKernel, GmKernel.record, GmKernel.setApp,
      GmKernel.setResource, different]

/-! ## Entries from the kernel loop -/

/-- A free slot is given a program. -/
structure SlotLaunched (before after : GmAppSlot) : Prop where
  was : before.state = .free
  now : after.state = .ready
  context : ∃ argLen entry, after.context = gmStartContext argLen entry
  ticks : after.runtimeTicks = 0

/-- What the kernel loop does to a slot, the dispatcher apart. -/
inductive LoopChange (before after : GmAppSlot) : Prop where
  | kept (same : SlotKept before after)
  | launched (launch : SlotLaunched before after)

theorem LoopChange.trans {first second third : GmAppSlot}
    (left : LoopChange first second) (right : LoopChange second third) :
    LoopChange first third := by
  cases left with
  | kept same =>
    cases right with
    | kept later => exact .kept (same.trans later)
    | launched launch =>
      exact .launched ⟨same.state ▸ launch.was, launch.now, launch.context,
        launch.ticks⟩
  | launched launch =>
    cases right with
    | kept later =>
      refine .launched ⟨launch.was, later.state.trans launch.now, ?_,
        later.ticks.trans launch.ticks⟩
      rw [later.context]
      exact launch.context
    | launched again =>
      have ready := launch.now
      rw [again.was] at ready
      cases ready

/-- The slots of two kernels, one by one. -/
def LoopChanges (before after : GmKernel) : Prop :=
  ∀ slot, LoopChange (before.apps slot) (after.apps slot)

theorem LoopChanges.of_eq (apps : after.apps = before.apps) :
    LoopChanges before after := by
  intro slot
  rw [apps]
  exact .kept (.refl _)

theorem LoopChanges.trans {first second third : GmKernel}
    (left : LoopChanges first second) (right : LoopChanges second third) :
    LoopChanges first third :=
  fun slot => (left slot).trans (right slot)

theorem LoopMove.slots (move : LoopMove before after) :
    LoopChanges before after := by
  cases move with
  | switch current addressSpace => exact .of_eq rfl
  | launch chosen argLen entry periodicId free =>
    intro slot
    by_cases isChosen : slot = chosen
    · subst isChosen
      refine .launched ⟨free, ?_, ⟨argLen, entry, ?_⟩, ?_⟩
      all_goals simp [GmAppSlot.launch, GmKernel.record, GmKernel.setApp]
    · refine .kept ?_
      simp only [GmKernel.record, GmKernel.setApp,
        update_of_ne isChosen]
      exact .refl _
  | table index entry => exact .of_eq rfl
  | noted index entry event about => exact .of_eq rfl

theorem LoopMoves.slots (moves : LoopMoves before after) :
    LoopChanges before after := by
  induction moves with
  | refl => exact .of_eq rfl
  | tail _ move slots => exact slots.trans move.slots

theorem gmPeriodicAdd_apps (seconds count : Nat) (name : List UInt8)
    (args : Option (List UInt8)) (kernel : GmKernel) :
    (gmPeriodicAdd seconds count name args kernel).2.apps = kernel.apps := by
  fun_cases gmPeriodicAdd seconds count name args kernel <;> rfl

theorem gmPeriodicCancel_apps (id : Nat) (kernel : GmKernel) :
    (gmPeriodicCancel id kernel).2.apps = kernel.apps := by
  fun_cases gmPeriodicCancel id kernel <;> rfl

/-- A tick that is not taken from ring 3 changes the tick counter only,
whatever the kernel was doing. -/
theorem gmIsrTimer_kernel (kernel : GmKernel)
    (inKernel : fromUser frame.cs = false) :
    gmIsrTimer frame kernel =
      .ok (false, { kernel with ticks := kernel.ticks + 1 }) := by
  unfold gmIsrTimer gmProgramPreempt
  simp [inKernel]

/-! ## Traps of the running application -/

/-- The running slot after its trap. -/
inductive Trapped (step : GmStep) (kernel : GmKernel)
    (before after : GmAppSlot) : Prop where
  | answered (env : GmServiceEnv) (frame : GmServiceFrame)
      (isService : step = .service env frame) (now : after.state = .ready)
      (context : after.context =
        { frame with rax := gmServiceResult env frame kernel })
      (ticks : after.runtimeTicks = before.runtimeTicks)
  | blocked (env : GmServiceEnv) (frame : GmServiceFrame)
      (isService : step = .service env frame) (now : after.state = .blocked)
      (context : after.context = frame)
      (ticks : after.runtimeTicks = before.runtimeTicks)
  | preempted (frame : GmServiceFrame) (isTimer : step = .timer frame)
      (now : after.state = .ready) (context : after.context = frame)
      (ticks : after.runtimeTicks = before.runtimeTicks + 1)
      (below : after.runtimeTicks < gmProgramMaxTicks)
  | expired (frame : GmServiceFrame) (isTimer : step = .timer frame)
      (now : after.state = .free)
      (limit : gmProgramMaxTicks ≤ before.runtimeTicks + 1)
  | ended (notTimer : ∀ frame, step ≠ .timer frame)
      (now : after.state = .free)

/-- The kernel that a trap finds: the timer has counted its tick. -/
def GmStep.entered : GmStep → GmKernel → GmKernel
  | .timer _, kernel => kernel.tick
  | _, kernel => kernel

/-- A handled trap: what it does to the running slot and to the others. -/
structure TrapSlots (step : GmStep) (before after : GmKernel)
    (slot : GmSlot) : Prop where
  own : Trapped step before (before.apps slot) (after.apps slot)
  others : ∀ other, other ≠ slot →
    Bystander (before.apps other) (after.apps other)
  kept : BooksKept (step.entered before) after

/-- A trap is handled, unless it does not come from the running application. -/
inductive TrapOutcome (step : GmStep) (cs : UInt64) (before after : GmKernel)
    (handled : Bool) : Prop where
  | refused
      (idle : (before.apps before.current).state ≠ .running ∨
        fromUser cs = false) (same : after = step.entered before)
  | handled (done : handled = true)
      (trap : TrapSlots step before after before.current)

theorem TrapOutcome.trap {step : GmStep} {cs : UInt64} {handled : Bool}
    (outcome : TrapOutcome step cs before after handled)
    (running : (before.apps before.current).state = .running)
    (user : fromUser cs = true) :
    handled = true ∧ TrapSlots step before after before.current := by
  cases outcome with
  | refused idle same => simp [running, user] at idle
  | handled done trap => exact ⟨done, trap⟩

theorem TrapOutcome.kept {step : GmStep} {cs : UInt64} {handled : Bool}
    (outcome : TrapOutcome step cs before after handled) :
    BooksKept (step.entered before) after := by
  cases outcome with
  | refused idle same => exact .of_eq (congrArg GmKernel.accounts same)
  | handled done trap => exact trap.kept

/-- Yielding after a part of the service that left the caller running. -/
theorem gmProgramYield_slots {env : GmServiceEnv} {middle : GmKernel}
    {rax : UInt64} (running : (before.apps before.current).state = .running)
    (managed : Managed before middle)
    (result : gmServiceResult env frame before = rax) :
    TrapSlots (.service env frame) before
      (gmProgramYield { frame with rax := rax } middle) before.current := by
  have current := managed.current
  have same := (managed.slots before.current).of_active (by simp [running])
  refine ⟨.answered env frame rfl ?_ ?_ ?_, ?_,
    managed.kept.trans (.of_eq rfl)⟩
  · simp [gmProgramYield, gmProgramKernel, GmKernel.setApp, current]
  · simp [gmProgramYield, gmProgramKernel, GmKernel.setApp, current, result]
  · simpa [gmProgramYield, gmProgramKernel, GmKernel.setApp, current]
      using same.ticks
  · intro other different
    simpa [gmProgramYield, gmProgramKernel, GmKernel.setApp, current,
      different] using managed.slots other

theorem gmProgramFinish_slots {env : GmServiceEnv} {result : Int}
    (ran : gmProgramFinish before.current result before = .ok after) :
    TrapSlots (.service env frame) before after before.current := by
  unfold gmProgramFinish at ran
  split at ran
  · cases ran
  rename_i ended
  cases ran
  obtain ⟨free, others, kept⟩ := terminateApp_slots ended
  exact ⟨.ended (by simp) free, others, kept.trans (.of_eq rfl)⟩

theorem gmProgramService_slots {env : GmServiceEnv} {outcome : GmServiceOutcome}
    (ran : gmProgramService env frame before = .ok outcome) :
    TrapOutcome (.service env frame) frame.cs before outcome.kernel
      outcome.handled := by
  unfold gmProgramService at ran
  dsimp only at ran
  split at ran
  · rename_i idle
    cases ran
    exact .refused idle rfl
  rename_i active
  have running : (before.apps before.current).state = .running :=
    not_not.mp (not_or.mp active).1
  split at ran
  · split at ran
    · cases ran
    · rename_i finished
      cases ran
      exact .handled rfl (gmProgramFinish_slots finished)
  split at ran
  · split at ran
    · cases ran
    · rename_i finished
      cases ran
      exact .handled rfl (gmProgramFinish_slots finished)
  split at ran
  · rename_i isAcquire
    split at ran
    · cases ran
    · rename_i acquired
      cases ran
      obtain ⟨kept, _, ⟨notBlocked, _⟩ | ⟨_, own, others⟩⟩ :=
        gmResourceAcquireService_slots acquired
      · exact absurd rfl notBlocked
      · refine .handled rfl ⟨.blocked env frame rfl (by rw [own]) (by rw [own])
          (by rw [own]), ?_, kept⟩
        intro other different
        rw [others other different]
        exact .refl _
    · rename_i rax middle acquired
      cases ran
      obtain ⟨kept, current, ⟨_, slots⟩ | ⟨blocked, _⟩⟩ :=
        gmResourceAcquireService_slots acquired
      · exact .handled rfl (gmProgramYield_slots running
          ⟨kept, current, fun other => .kept (slots other)⟩
          (by rw [gmServiceResult, if_pos isAcquire, acquired]))
      · cases blocked
  rename_i notAcquire
  split at ran
  · rename_i isRelease
    split at ran
    · cases ran
    · rename_i flag middle released
      cases ran
      exact .handled rfl (gmProgramYield_slots running
        (gmResourceReleaseApp_managed released)
        (by rw [gmServiceResult, if_neg notAcquire, if_pos isRelease,
          released]))
  · rename_i notRelease
    split at ran
    · cases ran
    · rename_i rax calls answered
      cases ran
      exact .handled rfl (gmProgramYield_slots running (.refl before)
        (by rw [gmServiceResult, if_neg notAcquire, if_neg notRelease,
          answered]))

theorem gmProgramFault_slots {vector : Nat} {cs : UInt64} {handled : Bool}
    (ran : gmProgramFault vector cs before = .ok (handled, after)) :
    TrapOutcome (.fault vector cs) cs before after handled := by
  unfold gmProgramFault at ran
  dsimp only at ran
  split at ran
  · rename_i idle
    cases ran
    exact .refused idle rfl
  split at ran
  · cases ran
  rename_i ended
  cases ran
  obtain ⟨free, others, kept⟩ := terminateApp_slots ended
  exact .handled rfl
    ⟨.ended (by simp) free, others, kept.start rfl⟩

theorem gmIsrTimer_slots {handled : Bool}
    (ran : gmIsrTimer frame before = .ok (handled, after)) :
    TrapOutcome (.timer frame) frame.cs before after handled := by
  unfold gmIsrTimer gmProgramPreempt at ran
  dsimp only at ran
  split at ran
  · rename_i idle
    cases ran
    exact .refused idle rfl
  split at ran
  · rename_i limit
    split at ran
    · cases ran
    rename_i ended
    cases ran
    obtain ⟨free, others, kept⟩ := terminateApp_slots ended
    refine .handled rfl
      ⟨.expired frame rfl free limit, ?_, kept.start rfl⟩
    intro other different
    simpa [gmProgramKernel, GmKernel.setApp, different] using
      others other different
  · rename_i below
    cases ran
    refine .handled rfl ⟨.preempted frame rfl ?_ ?_ ?_ ?_, ?_, .of_eq rfl⟩
    · simp [gmProgramKernel, GmKernel.setApp]
    · simp [gmProgramKernel, GmKernel.setApp]
    · simp [gmProgramKernel, GmKernel.setApp]
    · simpa [gmProgramKernel, GmKernel.setApp] using Nat.not_le.mp below
    · intro other different
      simp only [gmProgramKernel, GmKernel.setApp,
        update_of_ne different]
      exact .refl _

/-- Every entry keeps books: a timer interrupt counts its tick first, and
whatever holds begin or end do so within one tick.  Only the dispatcher moves
its pointer. -/
theorem gmStep_books {step : GmStep} (stepped : gmStep step kernel = .ok after) :
    (Books kernel after ∨ Books kernel.tick after) ∧
      (step ≠ .schedule → after.programNext = kernel.programNext) := by
  by_cases isLoop : step.isLoop = true
  · obtain ⟨loop, ran, moves⟩ := gmStep_moves isLoop kernel
    cases ran.symm.trans stepped
    exact ⟨.inl moves.booksKept.books, fun _ => moves.booksKept.pointer⟩
  cases step with
  | run load name args => exact absurd rfl isLoop
  | periodicAdd seconds count name args => exact absurd rfl isLoop
  | periodicCancel id => exact absurd rfl isLoop
  | periodicPoll load => exact absurd rfl isLoop
  | schedule =>
    obtain rfl := Except.ok.inj stepped
    refine ⟨.inl ?_, fun other => absurd rfl other⟩
    unfold gmProgramSchedule
    split
    · exact .refl
    · refine .single (.same ⟨rfl, rfl, fun _ => .refl _, ?_⟩)
      intro index
      exact (gmMarks_append ..).trans (List.append_nil _)
  | service env frame =>
    obtain ⟨outcome, served, rfl⟩ := map_ok stepped
    have kept := (gmProgramService_slots served).kept
    exact ⟨.inl kept.books, fun _ => kept.pointer⟩
  | fault vector cs =>
    obtain ⟨⟨handled, ended⟩, faulted, rfl⟩ := map_ok stepped
    have kept := (gmProgramFault_slots faulted).kept
    exact ⟨.inl kept.books, fun _ => kept.pointer⟩
  | timer frame =>
    obtain ⟨⟨handled, preempted⟩, ticked, rfl⟩ := map_ok stepped
    have kept := (gmIsrTimer_slots ticked).kept
    exact ⟨.inr kept.books, fun _ => kept.pointer⟩

end Gmker.Programs
