import Gmker.Machine.ContextSwitch
import Gmker.Programs.Lifecycle

/-!
# Timer interrupts of the kernel

The states of the slots over whole runs, together with what a timer interrupt
does to them that is taken while the kernel itself executes.  The handler
leaves the slots alone, but the processor saves the interrupted context on the
stack it finds.  On the kernel stack this is harmless.  In
`gm_program_resume_user`, once the stack pointer points into a slot, it
overwrites the state of the slot and its ticks.
-/

namespace Gmker.Machine

open Foundation Programs

/-- A timer interrupt of the kernel returns to where it was taken, with every
word of the slots as it was. -/
def LeavesSlots (layout : GmLayout) (scratch : GmScratch) (here : Cpu) : Prop :=
  ∃ after, gmIsrTimer layout scratch here = some after ∧
    after.context = here.context ∧
    ∀ address, layout.apps ≤ address →
      address < layout.apps + gmAppMax * gmSlotSize →
      after.mem address = here.mem address

/-- A timer interrupt at a boundary of `gm_program_resume_user` leaves the slots
alone, however the routine was entered. -/
def LeavesSlotsAt (boundary : Nat) : Prop :=
  ∀ (layout : GmLayout) (slot : Fin gmAppMax) (saved : Context)
    (scratch : GmScratch) (low : Nat) (cpu : Cpu),
    Entry layout slot saved cpu → StackRoom layout low scratch.depth cpu →
    LeavesSlots layout scratch
      (cpu.run ((gmProgramResumeUser layout).take boundary))

section Slots

variable {layout : GmLayout} {scratch : GmScratch} {low : Nat} {cpu here : Cpu}

theorem slots_untouched (room : StackRoom layout low scratch.depth cpu)
    {address : Nat} (above : layout.apps ≤ address)
    (below : address < layout.apps + gmAppMax * gmSlotSize) :
    ¬ Touched layout low cpu address := by
  have apps := room.apps
  have tick := layout.tickApart
  rintro (⟨inside, top⟩ | same) <;> omega

/-- On the kernel stack the interrupt leaves the slots alone. -/
theorem LeavesSlots.of_stack (room : StackRoom layout low scratch.depth cpu)
    (kernel : here.cs = 8) (bottom : cpu.rsp - 56 ≤ here.rsp)
    (top : here.rsp ≤ cpu.rsp) : LeavesSlots layout scratch here := by
  obtain ⟨after, handled, mem, returned, same⟩ :=
    gmIsrTimer_returns room kernel bottom top
  refine ⟨after, handled, by rw [returned]; rfl, ?_⟩
  intro address above below
  rw [returned]
  exact same address (slots_untouched room above below)

end Slots

theorem LeavesSlotsAt.of_early {boundary : Nat} (early : boundary ≤ 9) :
    LeavesSlotsAt boundary := by
  intro layout slot saved scratch low cpu entry room
  obtain ⟨kernel, bottom, top⟩ := gmResumeSave_stack room boundary early
  exact .of_stack room (kernel.trans entry.kernel) bottom top

/-- Behind the switch of the stack, the interrupt overwrites the word of the
slot that holds its address space. -/
theorem sampleCpu_overwritten : ∀ boundary ≤ 25, 9 < boundary →
    let here := sampleCpu.run ((gmProgramResumeUser sampleLayout).take boundary)
    (gmIsrTimer sampleLayout { depth := 8 } here).map
      (fun after => after.mem 0x10018) ≠ some (here.mem 0x10018) := by
  decide +kernel

theorem LeavesSlotsAt.early {boundary : Nat} (within : boundary ≤ 25)
    (leaves : LeavesSlotsAt boundary) : boundary ≤ 9 := by
  by_contra late
  obtain ⟨after, handled, _, same⟩ := leaves sampleLayout 0 {} { depth := 8 }
    0x30000 sampleCpu sampleCpu_entry sampleCpu_room
  apply sampleCpu_overwritten boundary within (Nat.lt_of_not_le late)
  rw [handled, Option.map_some, same 0x10018 (by decide) (by decide)]

/-- The state machine of the slots and the execution deadline.  An interrupt of
the kernel changes no slot as long as it finds the kernel stack; of the
boundaries of `gm_program_resume_user` these are the ones before the switch of
the stack. -/
theorem gmMachineRun_states (kernelCr3 : UInt64) (cr3 : GmSlot → UInt64)
    (steps : List GmStep) (machine : GmMachine)
    (ran : gmMachineRun steps (gmMachineInit kernelCr3 cr3) = .ok machine) :
    (machine.mode = .loop →
      ∀ slot, (machine.kernel.apps slot).state ≠ .running) ∧
    (∀ slot, machine.mode = .user slot → machine.kernel.current = slot ∧
      ∀ other, (machine.kernel.apps other).state = .running ↔ other = slot) ∧
    (∀ step next, gmMachineStep step machine = .ok next → ∀ slot,
      GmTransition step machine.mode slot (machine.kernel.apps slot).state
        (next.kernel.apps slot).state) ∧
    (∀ (frame : GmServiceFrame) (kernel : GmKernel),
      fromUser frame.cs = false → Programs.gmIsrTimer frame kernel =
        .ok (false, { kernel with ticks := kernel.ticks + 1 })) ∧
    (∀ (layout : GmLayout) (scratch : GmScratch) (low : Nat) (here : Cpu),
      StackRoom layout low scratch.depth here → here.cs = 8 →
        LeavesSlots layout scratch here) ∧
    (∀ boundary ≤ 25, LeavesSlotsAt boundary ↔ boundary ≤ 9) ∧
    (∀ slot, gmCharged (machine.changes slot) ≤ gmProgramMaxTicks) ∧
    (∀ slot, (machine.kernel.apps slot).state ≠ .free →
      (machine.kernel.apps slot).runtimeTicks < gmProgramMaxTicks ∧
        (machine.kernel.apps slot).runtimeTicks =
          gmCharged (machine.changes slot)) := by
  have orderly := gmMachineRun_orderly ran
  have mode := orderly.mode
  refine ⟨?_, ?_, ?_, ?_, ?_, ?_, ?_, ?_⟩
  · intro loop
    rw [loop] at mode
    exact mode
  · intro slot user
    rw [user] at mode
    exact mode
  · intro step next stepped slot
    obtain ⟨effect, _, _⟩ := gmMachineStep_mode orderly stepped
    exact (effect.slots slot).transition
  · intro frame kernel inKernel
    exact gmIsrTimer_kernel kernel inKernel
  · intro layout scratch low here room kernel
    exact .of_stack room kernel (Nat.sub_le _ _) le_rfl
  · intro boundary within
    exact ⟨LeavesSlotsAt.early within, .of_early⟩
  · intro slot
    exact (orderly.slots slot).charged
  · intro slot alive
    exact ⟨(orderly.slots slot).below alive, (orderly.slots slot).ticks alive⟩

theorem gmMachineRun_states_preempted :
    ∃ machine,
      gmMachineRun contendedSteps (gmMachineInit 0x1000 fun _ => 0x2000) =
        .ok machine ∧
      machine.mode = .user 1 ∧ machine.kernel.current = 1 ∧
      (machine.kernel.apps 0).state = .ready ∧
      (machine.kernel.apps 0).runtimeTicks = 1 ∧
      (machine.kernel.apps 0).runtimeTicks < gmProgramMaxTicks := by
  refine ⟨_, rfl, rfl, ?_, rfl, rfl, ?_⟩
  · exact ((gmMachineRun_states 0x1000 (fun _ => 0x2000) contendedSteps _
      rfl).2.1 1 rfl).1
  · exact ((gmMachineRun_states 0x1000 (fun _ => 0x2000) contendedSteps _
      rfl).2.2.2.2.2.2.2 0 (by decide)).1

/-- Right after the stack was switched, the slot is running and has used no
tick.  The interrupt leaves it free, with the code segment for its ticks. -/
theorem gmIsrTimer_overwrites_slot :
    let here := sampleCpu.run ((gmProgramResumeUser sampleLayout).take 10)
    here.cs = 8 ∧
    GmSlotField.state.value sampleLayout 0 here.mem = 2 ∧
    GmSlotField.runtimeTicks.value sampleLayout 0 here.mem = 0 ∧
    (gmIsrTimer sampleLayout { depth := 8 } here).map (fun after =>
      (GmSlotField.state.value sampleLayout 0 after.mem,
        GmSlotField.runtimeTicks.value sampleLayout 0 after.mem)) =
      some (0, 8) := by
  decide +kernel

end Gmker.Machine
