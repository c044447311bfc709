import Gmker.Programs.LoopMoves
import Gmker.Programs.StepEffects

/-!
# Effects of services, traps and launches

The remaining entries of the kernel, assembled from the effects of the
resource operations.  `gmStep_effect` is the summary: no step fails, and the
lines change by one move at most.
-/

namespace Gmker.Programs

open Foundation

variable {index : GmResourceIndex} {kernel before after : GmKernel}
  {lines : GmLines}

/-! ## Transports used by services -/

/-- Slot and resource table agree that the slot owns the resource. -/
def OwnsResource (kernel : GmKernel) (slot : GmSlot)
    (index : GmResourceIndex) : Prop :=
  (kernel.apps slot).ownedResource = resourceId index ∧
    (kernel.resources index).owner = slot.val + 1

/-- Every transport a list of calls touches is owned by the slot. -/
def TransportOwned (kernel : GmKernel) (slot : GmSlot)
    (calls : List GmCall) : Prop :=
  ∀ call, call ∈ calls → ∀ index, call.transport = some index →
    OwnsResource kernel slot index

/-- The calls touch no transport but that of one resource. -/
def UsesOnly (index : GmResourceIndex) (calls : List GmCall) : Prop :=
  ∀ call ∈ calls, call.transport = none ∨ call.transport = some index

private theorem gmStoreSession_usesOnly (env : GmServiceEnv) :
    UsesOnly 0 (gmStoreSession env).2 := by
  unfold gmStoreSession
  split
  · exact List.forall_mem_nil _
  · exact List.forall_mem_singleton.mpr (.inr rfl)

/-- What is called once the session is there. -/
private theorem UsesOnly.append {first second : List GmCall}
    (left : UsesOnly index first) (right : UsesOnly index second) :
    UsesOnly index (first ++ second) :=
  List.forall_mem_append.mpr ⟨left, right⟩

private theorem gmServiceStoreStat_usesOnly (env : GmServiceEnv)
    (frame : GmServiceFrame) : UsesOnly 0 (gmServiceStoreStat env frame).2 := by
  have opening := gmStoreSession_usesOnly env
  unfold gmServiceStoreStat
  split
  · exact List.forall_mem_nil _
  generalize gmStoreSession env = session at opening
  obtain ⟨_ | _, calls⟩ := session
  · exact opening
  · cases env.storeSize with
    | none => exact opening.append (List.forall_mem_singleton.mpr (.inr rfl))
    | some _ =>
      exact opening.append (List.forall_mem_cons.mpr
        ⟨.inr rfl, List.forall_mem_singleton.mpr (.inl rfl)⟩)

private theorem gmServiceStoreRead_usesOnly (env : GmServiceEnv)
    (frame : GmServiceFrame) : UsesOnly 0 (gmServiceStoreRead env frame).2 := by
  have opening := gmStoreSession_usesOnly env
  unfold gmServiceStoreRead
  generalize gmStoreSession env = session at opening
  obtain ⟨_ | _, calls⟩ := session
  · exact opening
  · dsimp only
    split
    · exact opening
    · exact opening.append (List.forall_mem_singleton.mpr (.inr rfl))

private theorem gmServiceStoreWrite_usesOnly (env : GmServiceEnv)
    (frame : GmServiceFrame) :
    UsesOnly 0 (gmServiceStoreWrite env frame).2 := by
  have opening := gmStoreSession_usesOnly env
  unfold gmServiceStoreWrite
  generalize gmStoreSession env = session at opening
  obtain ⟨_ | _, calls⟩ := session
  · exact opening
  · dsimp only
    split
    · exact opening
    · exact opening.append (List.forall_mem_singleton.mpr (.inr rfl))

private theorem gmServiceUdpExchange_usesOnly (env : GmServiceEnv)
    (frame : GmServiceFrame) :
    UsesOnly 1 (gmServiceUdpExchange env frame).2 := by
  unfold gmServiceUdpExchange
  split
  · exact List.forall_mem_nil _
  · exact List.forall_mem_singleton.mpr (.inr rfl)

/-- A service that touches no exclusive transport. -/
private theorem answered_silently {rax : UInt64} {calls : List GmCall}
    (silent : ∀ call, call ∈ calls → call.transport = none) :
    ∃ rax' calls', (.ok (rax, calls) :
        Except GmPanic (UInt64 × List GmCall)) = .ok (rax', calls') ∧
      TransportOwned kernel kernel.current calls' := by
  refine ⟨rax, calls, rfl, ?_⟩
  intro call member index transport
  rw [silent call member] at transport
  cases transport

private theorem gmServiceOwned_answer (tracks : Tracks kernel lines)
    (index : GmResourceIndex) {body : UInt64 × List GmCall}
    (uses : UsesOnly index body.2) :
    ∃ rax calls,
      gmServiceOwned (resourceId index) kernel body = .ok (rax, calls) ∧
      TransportOwned kernel kernel.current calls := by
  unfold gmServiceOwned
  rcases gmResourceOwned_tracks tracks kernel.current index with
    ⟨_, owned, isOwner, answer⟩ | answer
  · rw [answer]
    refine ⟨body.1, body.2, rfl, ?_⟩
    intro call member other transport
    rcases uses call member with none | only
    · cases none.symm.trans transport
    · obtain rfl := Option.some.inj (only.symm.trans transport)
      exact ⟨owned, isOwner⟩
  · rw [answer]
    exact answered_silently (by simp)

theorem gmServiceAnswer_owned (tracks : Tracks kernel lines)
    (env : GmServiceEnv) (frame : GmServiceFrame) :
    ∃ rax calls, gmServiceAnswer env frame kernel = .ok (rax, calls) ∧
      TransportOwned kernel kernel.current calls := by
  unfold gmServiceAnswer
  split
  · split
    · exact answered_silently (by simp)
    · exact answered_silently (List.forall_mem_singleton.mpr rfl)
  split
  · exact answered_silently (List.forall_mem_singleton.mpr rfl)
  split
  · exact answered_silently (by simp)
  split
  · split
    · exact answered_silently (by simp)
    · exact answered_silently (List.forall_mem_singleton.mpr rfl)
  split
  · split
    · exact answered_silently (by simp)
    · exact answered_silently (List.forall_mem_singleton.mpr rfl)
  split
  · exact gmServiceOwned_answer tracks 1
      (gmServiceUdpExchange_usesOnly env frame)
  split
  · exact gmServiceOwned_answer tracks 0 (gmServiceStoreStat_usesOnly env frame)
  split
  · exact gmServiceOwned_answer tracks 0 (gmServiceStoreRead_usesOnly env frame)
  split
  · exact gmServiceOwned_answer tracks 0
      (gmServiceStoreWrite_usesOnly env frame)
  · exact answered_silently (by simp)

/-! ## Traps -/

theorem gmProgramService_effect (tracks : Tracks before lines)
    (env : GmServiceEnv) (frame : GmServiceFrame) :
    ∃ outcome lines' events,
      gmProgramService env frame before = .ok outcome ∧
      TrapEffect before outcome.kernel lines lines' events ∧
      TransportOwned before before.current outcome.calls := by
  have noCalls : TransportOwned before before.current [] := by
    intro call member
    cases member
  unfold gmProgramService
  simp only
  split
  · exact ⟨_, lines, [], rfl, .idle tracks rfl rfl rfl rfl, noCalls⟩
  rename_i trapped
  have running : (before.apps before.current).state = .running :=
    not_not.mp (not_or.mp trapped).1
  split
  · obtain ⟨after, lines', events, finished, effect⟩ :=
      gmProgramFinish_effect tracks (-200) running
    exact ⟨_, lines', events, by rw [finished], effect, noCalls⟩
  split
  · obtain ⟨after, lines', events, finished, effect⟩ :=
      gmProgramFinish_effect tracks frame.rdi.toUInt32.toInt32.toInt running
    exact ⟨_, lines', events, by rw [finished], effect, noCalls⟩
  split
  · obtain ⟨outcome, after, acquired, effect⟩ :=
      gmResourceAcquireService_running tracks before.current
        frame.rdi.toUInt32.toNat frame running
    obtain ⟨lines', events, trap, still, current⟩ := effect.trap tracks running
    cases outcome with
    | blocked => exact ⟨_, lines', events, by rw [acquired], trap, noCalls⟩
    | answered rax =>
      refine ⟨_, lines', events, by rw [acquired], ?_, noCalls⟩
      apply trap.yield
      rw [current]
      exact still (by simp)
  split
  · obtain ⟨released, after, lines', events, done, trap, still, current⟩ :=
      gmResourceReleaseApp_trap tracks frame.rdi.toUInt32.toNat running
    refine ⟨_, lines', events, by rw [done], ?_, noCalls⟩
    apply trap.yield
    rw [current]
    exact still
  · obtain ⟨rax, calls, answered, owned⟩ :=
      gmServiceAnswer_owned tracks env frame
    exact ⟨_, lines, [], by rw [answered],
      gmProgramYield_effect tracks _ running, owned⟩

theorem gmProgramFault_effect (tracks : Tracks before lines) (vector : Nat)
    (cs : UInt64) :
    ∃ handled after lines' events,
      gmProgramFault vector cs before = .ok (handled, after) ∧
      TrapEffect before after lines lines' events := by
  unfold gmProgramFault
  simp only
  split
  · exact ⟨_, _, lines, [], rfl, .idle tracks rfl rfl rfl rfl⟩
  · rename_i trapped
    have running : (before.apps before.current).state = .running :=
      not_not.mp (not_or.mp trapped).1
    have entered : Tracks (gmProgramKernel before) lines :=
      tracks.of_eq rfl rfl
    obtain ⟨after, lines', events, ended, effect⟩ :=
      terminateApp_effect before entered (-100 - vector) (.inr running)
        (by simp [running]) rfl (fun _ _ => rfl) rfl rfl
    exact ⟨_, _, lines', events, by rw [ended], effect⟩

theorem gmIsrTimer_effect (tracks : Tracks before lines)
    (frame : GmServiceFrame) :
    ∃ handled after lines' events,
      gmIsrTimer frame before = .ok (handled, after) ∧
      TrapEffect before after lines lines' events := by
  unfold gmIsrTimer gmProgramPreempt
  simp only
  split
  · exact ⟨_, _, lines, [], rfl, .idle tracks rfl rfl rfl rfl⟩
  rename_i trapped
  have running : (before.apps before.current).state = .running :=
    not_not.mp (not_or.mp trapped).1
  split
  · let charged := { before.apps before.current with
      runtimeTicks := (before.apps before.current).runtimeTicks + 1 }
    let kernel := gmProgramKernel
      (GmKernel.setApp { before with ticks := before.ticks + 1 }
        before.current charged)
    have chargedTracks : Tracks kernel lines := by
      have charge := tracks.setApp
        (((tracks.apps before.current).congr rfl rfl rfl :
          SlotTracks lines before.current charged))
      exact charge.of_eq rfl rfl
    have chargedSlot : kernel.apps before.current = charged := by
      simp [kernel, gmProgramKernel, GmKernel.setApp]
    obtain ⟨after, lines', events, ended, effect⟩ :=
      terminateApp_effect before chargedTracks (-200)
        (.inr (by rw [chargedSlot]; exact running)) (by simp [running])
        (by rw [chargedSlot])
        (by
          intro other different
          simp [kernel, gmProgramKernel, GmKernel.setApp, different])
        rfl rfl
    refine ⟨true, after, lines', events, ?_, effect⟩
    simp only [kernel, charged] at ended
    rw [ended]
  · refine ⟨_, _, lines, [], rfl, ?_⟩
    exact .switch tracks before.current
      { before.apps before.current with
        runtimeTicks := (before.apps before.current).runtimeTicks + 1
        context := frame
        state := .ready } [] (.inr running) (.inl rfl) rfl rfl rfl rfl rfl
      (List.append_nil _).symm (.inl rfl) rfl

/-! ## Launches and the periodic table -/

/-- A part of the kernel that stays away from the lines. -/
structure QuietEffect (before after : GmKernel) (lines : GmLines) :
    Prop where
  tracks : Tracks after lines
  history : ∃ events, after.history = before.history ++ events ∧
    ∀ event, event ∈ events → event.resource? = none

theorem QuietEffect.of_eq (tracks : Tracks before lines)
    (apps : after.apps = before.apps)
    (resources : after.resources = before.resources) {events : List GmEvent}
    (history : after.history = before.history ++ events)
    (silent : ∀ event, event ∈ events → event.resource? = none) :
    QuietEffect before after lines :=
  ⟨tracks.of_eq apps resources, events, history, silent⟩

theorem QuietEffect.refl (tracks : Tracks kernel lines) :
    QuietEffect kernel kernel lines :=
  ⟨tracks, [], by simp, by simp⟩

theorem QuietEffect.trans {first second third : GmKernel}
    (left : QuietEffect first second lines)
    (right : QuietEffect second third lines) :
    QuietEffect first third lines := by
  obtain ⟨early, leftHistory, leftSilent⟩ := left.history
  obtain ⟨late, rightHistory, rightSilent⟩ := right.history
  refine ⟨right.tracks, early ++ late, ?_, ?_⟩
  · rw [rightHistory, leftHistory, List.append_assoc]
  · intro event member
    rcases List.mem_append.mp member with inEarly | inLate
    · exact leftSilent event inEarly
    · exact rightSilent event inLate

/-- The three ways `gm_program_start_path` ends. -/
inductive StartEffect (before : GmKernel) (periodicId : Nat) :
    GmStartResult × GmKernel → Prop where
  | busy : StartEffect before periodicId (.busy, before)
  | error (after : GmKernel) (apps : after.apps = before.apps)
      (resources : after.resources = before.resources)
      (periodics : after.periodics = before.periodics)
      (ticks : after.ticks = before.ticks)
      (history : after.history = before.history) :
      StartEffect before periodicId (.error, after)
  | ok (slot : GmSlot) (app : GmAppSlot) (after : GmKernel)
      (free : (before.apps slot).state = .free)
      (owned : app.ownedResource = gmResourceNone)
      (waiting : app.waitingResource = gmResourceNone)
      (state : app.state = .ready) (id : app.periodicId = periodicId)
      (apps : after.apps = Function.update before.apps slot app)
      (resources : after.resources = before.resources)
      (periodics : after.periodics = before.periodics)
      (ticks : after.ticks = before.ticks)
      (history : after.history =
        before.history ++ [.started slot periodicId before.ticks]) :
      StartEffect before periodicId (.ok slot, after)

theorem gmProgramStartPath_effect (load : List UInt8 → Option Nat)
    (path : List UInt8) (args : Option (List UInt8)) (periodicId : Nat)
    (kernel : GmKernel) :
    StartEffect kernel periodicId
      (gmProgramStartPath load path args periodicId kernel) := by
  unfold gmProgramStartPath
  cases found : gmFreeSlot kernel with
  | none => exact .busy
  | some slot =>
    simp only
    cases load path with
    | none => exact .error _ rfl rfl rfl rfl rfl
    | some entry =>
      simp only
      split
      · exact .error _ rfl rfl rfl rfl rfl
      · exact .ok slot
          { kernel.apps slot with
            context := gmStartContext (args.getD []).length entry
            runtimeTicks := 0
            result := -1
            ownedResource := gmResourceNone
            waitingResource := gmResourceNone
            periodicId := periodicId
            state := .ready } _ (gmFreeSlot_free found) rfl rfl rfl rfl rfl
          rfl rfl rfl rfl

theorem LoopMove.quiet (tracks : Tracks before lines)
    (move : LoopMove before after) : QuietEffect before after lines := by
  cases move with
  | switch current addressSpace =>
    exact .of_eq tracks rfl rfl (List.append_nil _).symm (by simp)
  | launch slot argLen entry periodicId free =>
    obtain ⟨absent, _, _⟩ := (tracks.apps slot).free_idle free
    have idle : SlotTracks lines slot
        ((before.apps slot).launch argLen entry periodicId) :=
      .idle absent rfl rfl (by simp [GmAppSlot.launch])
    refine ⟨(tracks.setApp idle).of_eq rfl rfl, _, rfl, ?_⟩
    simp [GmEvent.resource?]
  | table index entry =>
    exact .of_eq tracks rfl rfl (List.append_nil _).symm (by simp)
  | noted index entry event about =>
    refine .of_eq tracks rfl rfl rfl ?_
    cases about <;> simp [GmEvent.resource?]

theorem LoopMoves.quiet (tracks : Tracks before lines)
    (moves : LoopMoves before after) : QuietEffect before after lines := by
  induction moves with
  | refl => exact .refl tracks
  | tail _ move quiet => exact quiet.trans (move.quiet quiet.tracks)

/-! ## One step -/

/-- What any step does to the lines. -/
structure StepEffect (before after : GmKernel) (lines lines' : GmLines)
    (events : List GmEvent) : Prop where
  tracks : Tracks after lines'
  history : after.history = before.history ++ events
  move : Move before after lines lines' events

theorem TrapEffect.step {lines lines' : GmLines} {events : List GmEvent}
    (effect : TrapEffect before after lines lines' events) :
    StepEffect before after lines lines' events :=
  ⟨effect.tracks, effect.history, effect.move⟩

theorem QuietEffect.step (effect : QuietEffect before after lines) :
    ∃ lines' events, StepEffect before after lines lines' events := by
  obtain ⟨events, history, silent⟩ := effect.history
  exact ⟨lines, events, effect.tracks, history, .quiet events silent⟩

/-- No step fails, and it changes the lines by one move at most. -/
theorem gmStep_effect (tracks : Tracks before lines) (step : GmStep) :
    ∃ after lines' events, gmStep step before = .ok after ∧
      StepEffect before after lines lines' events := by
  by_cases isLoop : step.isLoop = true
  · obtain ⟨after, ran, moves⟩ := gmStep_moves isLoop before
    obtain ⟨lines', events, summary⟩ := (moves.quiet tracks).step
    exact ⟨after, lines', events, ran, summary⟩
  cases step with
  | run load name args => exact absurd rfl isLoop
  | periodicAdd seconds count name args => exact absurd rfl isLoop
  | periodicCancel id => exact absurd rfl isLoop
  | periodicPoll load => exact absurd rfl isLoop
  | schedule =>
    obtain ⟨events, effect⟩ := gmProgramSchedule_effect tracks
    exact ⟨_, lines, events, rfl, effect.step⟩
  | service env frame =>
    obtain ⟨outcome, lines', events, served, effect, _⟩ :=
      gmProgramService_effect tracks env frame
    exact ⟨_, lines', events, by simp [gmStep, served, Except.map],
      effect.step⟩
  | fault vector cs =>
    obtain ⟨handled, after, lines', events, faulted, effect⟩ :=
      gmProgramFault_effect tracks vector cs
    exact ⟨_, lines', events, by simp [gmStep, faulted, Except.map],
      effect.step⟩
  | timer frame =>
    obtain ⟨handled, after, lines', events, ticked, effect⟩ :=
      gmIsrTimer_effect tracks frame
    exact ⟨_, lines', events, by simp [gmStep, ticked, Except.map],
      effect.step⟩

end Gmker.Programs
