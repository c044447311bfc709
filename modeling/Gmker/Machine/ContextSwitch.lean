import Mathlib.Tactic.IntervalCases
import Gmker.Foundation.StackMachine
import Gmker.Programs.Slots

/-!
# The switch to an application

`gm_program_resume_user` of `isr.asm` as its instructions over a memory that
holds the application slots, and the timer interrupt that may come between any
two of them.  As long as the routine is on the kernel stack, the interrupt
leaves no trace.  Once the stack pointer points into a slot, the interrupt
pushes over the fields before the context.
-/

namespace Gmker.Machine

open Foundation Programs

abbrev gmSlotSize : Nat := 232
abbrev gmSlotContext : Nat := 56

/-- The addresses of `gm_apps`, `gm_program_current`, `gm_tick_count` and
`gm_isr_timer`. -/
structure GmLayout where
  apps : Nat
  current : Nat
  tickCount : Nat
  isrTimer : Nat
  currentApart : current < apps ∨ apps + gmAppMax * gmSlotSize ≤ current
  tickApart : tickCount < apps ∨ apps + gmAppMax * gmSlotSize ≤ tickCount
  tickNotCurrent : tickCount ≠ current

namespace GmLayout

variable (layout : GmLayout)

def slot (slot : Fin gmAppMax) : Nat := layout.apps + gmSlotSize * slot

def context (slot : Fin gmAppMax) : Nat := layout.slot slot + gmSlotContext

end GmLayout

/-- The fields of `struct gm_app_slot` before the context. -/
inductive GmSlotField where
  | resumeRsp
  | result
  | state
  | runtimeTicks
  | cr3
  | image
  | arg
  | stack
  deriving DecidableEq, Repr

def GmSlotField.offset : GmSlotField → Nat
  | .resumeRsp => 0
  | .result => 8
  | .state => 8
  | .runtimeTicks => 16
  | .cr3 => 24
  | .image => 32
  | .arg => 40
  | .stack => 48

/-- The value of a field; `result` and `state` share a word. -/
def GmSlotField.value (field : GmSlotField) (layout : GmLayout)
    (slot : Fin gmAppMax) (mem : Nat → Nat) : Nat :=
  let word := mem (layout.slot slot + field.offset)
  match field with
  | .result => word % 2 ^ 32
  | .state => word / 2 ^ 32
  | .resumeRsp | .runtimeTicks | .cr3 | .image | .arg | .stack => word

/-- The registers in the order of `struct gm_service_frame`. -/
def gmFrameRegs : List Reg :=
  [.rax, .rbx, .rcx, .rdx, .rsi, .rdi, .rbp, .r8, .r9, .r10, .r11, .r12, .r13,
    .r14, .r15]

theorem mem_gmFrameRegs (reg : Reg) : reg ∈ gmFrameRegs := by
  cases reg <;> decide

/-- `gm_program_resume_user` up to the switch of the stack. -/
def gmResumeSave (layout : GmLayout) : List Instr :=
  .pushf :: [Reg.rbx, .rbp, .r12, .r13, .r14, .r15].map .push ++
    [.load .rax layout.current, .storeSp .rax, .setSp .rdi]

/-- `gm_program_resume_user`. -/
def gmProgramResumeUser (layout : GmLayout) : List Instr :=
  gmResumeSave layout ++ (gmFrameRegs.map .pop ++ [.iret])

/-- What the compiled code of `gm_timer_irq` and `gm_program_preempt` leaves
behind in registers and on the stack. -/
structure GmScratch where
  depth : Nat
  words : Nat → Nat := fun _ => 0
  regs : Reg → Nat := fun _ => 0
  rflags : Nat := 0

/-- The body of `gm_isr_timer`: a tick, and the traces of its calls. -/
def gmTimerBody (layout : GmLayout) (scratch : GmScratch) (cpu : Cpu) : Cpu :=
  { cpu with
    regs := scratch.regs
    rflags := scratch.rflags
    mem := fun address =>
      if address = layout.tickCount then (cpu.mem address + 1) % 2 ^ 64
      else if cpu.rsp - scratch.depth ≤ address ∧ address < cpu.rsp then
        scratch.words address
      else cpu.mem address }

/-- The test of `gm_program_preempt`: the current application is running, and
the frame comes from user mode. -/
def gmProgramPreempts (layout : GmLayout) (cpu : Cpu) : Bool :=
  cpu.mem (cpu.mem layout.current + 8) / 2 ^ 32 = 2 ∧
    cpu.mem (cpu.rsp + 128) % 4 = 3

/-- A timer interrupt of kernel code.  Nothing if `gm_program_preempt` switches
away. -/
def gmIsrTimer (layout : GmLayout) (scratch : GmScratch) (cpu : Cpu) :
    Option Cpu :=
  if cpu.Enabled then
    let saved :=
      (cpu.deliver layout.isrTimer 8).run (gmFrameRegs.reverse.map .push)
    let handled := gmTimerBody layout scratch saved
    if gmProgramPreempts layout handled then none
    else some (handled.run (gmFrameRegs.map .pop ++ [.iret]))
  else some cpu

/-- `gm_program_resume_user` with a timer interrupt after some instructions. -/
def gmResumeInterrupted (layout : GmLayout) (scratch : GmScratch)
    (boundary : Nat) (cpu : Cpu) : Option Cpu :=
  (gmIsrTimer layout scratch
    (cpu.run ((gmProgramResumeUser layout).take boundary))).map fun cpu =>
      cpu.run ((gmProgramResumeUser layout).drop boundary)

/-- How `gm_program_schedule` enters the routine. -/
structure Entry (layout : GmLayout) (slot : Fin gmAppMax) (saved : Context)
    (cpu : Cpu) : Prop where
  rdi : cpu.regs .rdi = layout.context slot
  current : cpu.mem layout.current = layout.slot slot
  context : Holds cpu.mem (layout.context slot) (saved.words gmFrameRegs)
  kernel : cpu.cs = 8

/-- The kernel stack reaches down to an address, has room for the routine and an
interrupt, and holds none of the variables. -/
structure StackRoom (layout : GmLayout) (low depth : Nat) (cpu : Cpu) :
    Prop where
  room : low + (56 + 16 + 160 + depth) ≤ cpu.rsp
  apps : layout.apps + gmAppMax * gmSlotSize ≤ low ∨ cpu.rsp ≤ layout.apps
  current : layout.current < low ∨ cpu.rsp ≤ layout.current
  tick : layout.tickCount < low ∨ cpu.rsp ≤ layout.tickCount

theorem GmLayout.slot_within (layout : GmLayout) (slot : Fin gmAppMax) :
    layout.apps ≤ layout.slot slot ∧
      layout.slot slot + gmSlotSize ≤ layout.apps + gmAppMax * gmSlotSize := by
  have index : slot.val + 1 ≤ gmAppMax := slot.isLt
  have upper := Nat.mul_le_mul_right gmSlotSize index
  rw [Nat.add_mul, Nat.one_mul] at upper
  rw [GmLayout.slot, Nat.mul_comm gmSlotSize]
  exact ⟨Nat.le_add_right _ _, by omega⟩

section Run

variable {layout : GmLayout} {slot : Fin gmAppMax} {saved : Context}
  {low depth : Nat} {cpu : Cpu}

/-- A timer interrupt at a boundary of the routine is invisible: whatever the
slot, its saved context, the memory and the traces of the handler, the
application gets its saved context, and every field of every slot is as without
the interrupt. -/
def TransparentAt (boundary : Nat) : Prop :=
  ∀ (layout : GmLayout) (slot : Fin gmAppMax) (saved : Context)
    (scratch : GmScratch) (low : Nat) (cpu : Cpu),
    Entry layout slot saved cpu → StackRoom layout low scratch.depth cpu →
    ∃ after, gmResumeInterrupted layout scratch boundary cpu = some after ∧
      after.context = saved ∧
      ∀ other field, GmSlotField.value field layout other after.mem =
        field.value layout other (cpu.run (gmProgramResumeUser layout)).mem

/-- The memory that an interrupt of the routine may change. -/
def Touched (layout : GmLayout) (low : Nat) (cpu : Cpu) (address : Nat) :
    Prop :=
  low ≤ address ∧ address < cpu.rsp ∨ address = layout.tickCount

/-- The memory that the routine reads. -/
def Needed (layout : GmLayout) (slot : Fin gmAppMax) (address : Nat) : Prop :=
  address = layout.current ∨
    layout.context slot ≤ address ∧ address < layout.context slot + 160

section

variable (entry : Entry layout slot saved cpu)
  (room : StackRoom layout low depth cpu)

include room

theorem needed_untouched (address : Nat) (needed : Needed layout slot address) :
    ¬ Touched layout low cpu address := by
  have within := layout.slot_within slot
  have size : gmSlotSize = 232 := rfl
  have offset : gmSlotContext = 56 := rfl
  have apps := room.apps
  have current := room.current
  have tick := layout.tickApart
  have other := layout.tickNotCurrent
  rcases needed with rfl | ⟨above, below⟩
  · rintro (⟨inside, top⟩ | same)
    · omega
    · exact other same.symm
  · rw [GmLayout.context] at above below
    rintro (⟨inside, top⟩ | same) <;> omega

/-- The fields of the slots are out of reach of an interrupt on the kernel
stack. -/
theorem field_untouched (other : Fin gmAppMax) (field : GmSlotField) :
    ¬ Touched layout low cpu (layout.slot other + field.offset) := by
  have within := layout.slot_within other
  have size : gmSlotSize = 232 := rfl
  have small : field.offset ≤ 48 := by cases field <;> decide
  have apps := room.apps
  have tick := layout.tickApart
  rintro (⟨inside, top⟩ | same) <;> omega

/-- What the routine has done when it switches the stack. -/
structure AtSwitch (layout : GmLayout) (slot : Fin gmAppMax) (cpu after : Cpu) :
    Prop where
  rsp : after.rsp = layout.context slot
  mem : ∀ address, address < cpu.rsp - 56 ∨ cpu.rsp ≤ address →
    address ≠ layout.slot slot → after.mem address = cpu.mem address

/-- Before the stack is switched, the routine is on the kernel stack. -/
theorem gmResumeSave_stack (boundary : Nat) (early : boundary ≤ 9) :
    let here := cpu.run ((gmProgramResumeUser layout).take boundary)
    here.cs = cpu.cs ∧ cpu.rsp - 56 ≤ here.rsp ∧ here.rsp ≤ cpu.rsp := by
  have space := room.room
  interval_cases boundary <;>
    simp [gmProgramResumeUser, gmResumeSave, Cpu.run, Cpu.exec, Cpu.next,
      Cpu.pushWord, Cpu.setReg] <;>
    omega

include entry

theorem gmResumeSave_atSwitch :
    AtSwitch layout slot cpu (cpu.run (gmResumeSave layout)) := by
  have space := room.room
  -- The flags and six registers go to the kernel stack.
  have frame := (cpu.exec .pushf).run_push_frame
    [.rbx, .rbp, .r12, .r13, .r14, .r15]
    (by simp only [Cpu.exec, Cpu.next, Cpu.pushWord, List.length_cons,
      List.length_nil]; omega)
  have flags : ∀ address, address ≠ cpu.rsp - 8 →
      (cpu.exec .pushf).mem address = cpu.mem address := fun address other =>
    Function.update_of_ne other _ _
  have flagsRsp : (cpu.exec .pushf).rsp = cpu.rsp - 8 := rfl
  rw [flagsRsp] at frame
  obtain ⟨savedRsp, savedRegs, savedMem⟩ := frame
  have stackMem : ∀ address, address < cpu.rsp - 56 ∨ cpu.rsp ≤ address →
      ((cpu.exec .pushf).run ([Reg.rbx, .rbp, .r12, .r13, .r14, .r15].map
        .push)).mem address = cpu.mem address := by
    intro address outside
    rw [savedMem address
      (by simp only [List.length_cons, List.length_nil]; omega),
      flags address (by omega)]
  have steps : cpu.run (gmResumeSave layout) =
      ((cpu.exec .pushf).run ([Reg.rbx, .rbp, .r12, .r13, .r14, .r15].map
        .push)).run [.load .rax layout.current, .storeSp .rax, .setSp .rdi] := by
    rw [gmResumeSave, List.cons_append, Cpu.run_cons, Cpu.run_append]
  rw [steps]
  generalize (cpu.exec .pushf).run
    ([Reg.rbx, .rbp, .r12, .r13, .r14, .r15].map .push) = stacked
    at savedRsp savedRegs stackMem
  -- The current slot is found, and its first word takes the stack pointer.
  have found : stacked.mem layout.current = layout.slot slot := by
    have current := room.current
    rw [stackMem layout.current (by omega), entry.current]
  constructor
  · have target : stacked.regs .rdi = layout.context slot := by
      rw [savedRegs]
      exact entry.rdi
    exact target
  · intro address outside other
    have kept : Function.update stacked.mem (stacked.mem layout.current)
        stacked.rsp address = stacked.mem address :=
      Function.update_of_ne (found ▸ other) _ _
    exact kept.trans (stackMem address outside)

/-- Without an interrupt the routine loads the saved context, and writes to its
slot only the saved stack pointer. -/
theorem gmProgramResumeUser_loads :
    cpu.run (gmProgramResumeUser layout) =
      saved.cpu (cpu.run (gmResumeSave layout)).mem := by
  obtain ⟨rsp, mem⟩ := gmResumeSave_atSwitch entry room
  rw [gmProgramResumeUser, Cpu.run_append]
  apply Cpu.run_resume mem_gmFrameRegs
  rw [rsp]
  apply entry.context.congr
  intro address above below
  have size : 8 * (saved.words gmFrameRegs).length = 160 := rfl
  have offset : gmSlotContext = 56 := rfl
  have slotSize : gmSlotSize = 232 := rfl
  have within := layout.slot_within slot
  have apps := room.apps
  have space := room.room
  rw [size, GmLayout.context] at below
  rw [GmLayout.context] at above
  exact mem address (by omega) (by omega)

theorem gmProgramResumeUser_reads :
    cpu.ReadsOnly (Needed layout slot) (gmProgramResumeUser layout) := by
  have switched := (gmResumeSave_atSwitch entry room).rsp
  rw [gmProgramResumeUser, Cpu.readsOnly_append]
  constructor
  · simp [gmResumeSave, Cpu.ReadsOnly, Instr.reads, Needed]
  · apply Cpu.readsOnly_resume
    rw [switched]
    intro address above below
    exact .inr ⟨above, below⟩

end

/-- The handler touches the tick counter and the stack below it only. -/
theorem gmTimerBody_frame (layout : GmLayout) (scratch : GmScratch)
    (start : Cpu) (address : Nat) (notTick : address ≠ layout.tickCount)
    (outside : address < start.rsp - scratch.depth ∨ start.rsp ≤ address) :
    (gmTimerBody layout scratch start).mem address = start.mem address := by
  have apart : ¬ (start.rsp - scratch.depth ≤ address ∧ address < start.rsp) :=
    by omega
  simp only [gmTimerBody, if_neg notTick, if_neg apart]

theorem gmProgramPreempts_kernel {handled here : Cpu}
    (holds : Holds handled.mem handled.rsp (here.context.words gmFrameRegs))
    (kernel : here.cs = 8) : gmProgramPreempts layout handled = false := by
  obtain ⟨_, _, cs, _⟩ := holds_append.mp holds
  have segment : handled.mem (handled.rsp + 128) = 8 := cs.trans kernel
  simp [gmProgramPreempts, segment]

/-- A timer interrupt of kernel code on the kernel stack returns to it, and
leaves traces only on the stack and in the tick counter. -/
theorem gmIsrTimer_returns {scratch : GmScratch} {here : Cpu}
    (room : StackRoom layout low scratch.depth cpu) (kernel : here.cs = 8)
    (bottom : cpu.rsp - 56 ≤ here.rsp) (top : here.rsp ≤ cpu.rsp) :
    ∃ after, gmIsrTimer layout scratch here = some after ∧
      here.Agree (Touched layout low cpu) after := by
  by_cases enabled : here.Enabled
  · have space := room.room
    have tick := room.tick
    have aligned : here.rsp - 15 ≤ here.aligned ∧ here.aligned ≤ here.rsp := by
      rw [Cpu.aligned]
      omega
    have size : 8 * gmFrameRegs.length + 40 = 160 := rfl
    obtain ⟨savedRsp, savedMem, holds⟩ :=
      here.saved_holds gmFrameRegs layout.isrTimer 8 (by omega)
    rw [gmIsrTimer, if_pos enabled]
    generalize (here.deliver layout.isrTimer 8).run
      (gmFrameRegs.reverse.map .push) = start at savedRsp savedMem holds
    -- The saved frame lies on the stack, above what the handler uses.
    have kept : Holds (gmTimerBody layout scratch start).mem
        (gmTimerBody layout scratch start).rsp
        (here.context.words gmFrameRegs) := by
      apply holds.congr
      intro address low high
      have words : 8 * (here.context.words gmFrameRegs).length = 160 := rfl
      exact gmTimerBody_frame layout scratch start address (by omega) (.inr low)
    simp only [gmProgramPreempts_kernel kept kernel, Bool.false_eq_true,
      if_false, Cpu.run_resume mem_gmFrameRegs _ here.context kept]
    refine ⟨here.context.cpu (gmTimerBody layout scratch start).mem, rfl,
      (gmTimerBody layout scratch start).mem, rfl, ?_⟩
    intro address untouched
    rw [Touched] at untouched
    rw [gmTimerBody_frame layout scratch start address (by omega) (by omega)]
    exact savedMem address (by omega)
  · rw [gmIsrTimer, if_neg enabled]
    refine ⟨here, rfl, here.mem, rfl, ?_⟩
    intro _ _
    rfl

theorem TransparentAt.of_early {boundary : Nat} (early : boundary ≤ 9) :
    TransparentAt boundary := by
  intro layout slot saved scratch low cpu entry room
  have stack := gmResumeSave_stack room boundary early
  have reads := gmProgramResumeUser_reads entry room
  have whole : (cpu.run ((gmProgramResumeUser layout).take boundary)).run
      ((gmProgramResumeUser layout).drop boundary) =
        cpu.run (gmProgramResumeUser layout) := by
    rw [← Cpu.run_append, List.take_append_drop]
  rw [← List.take_append_drop boundary (gmProgramResumeUser layout),
    Cpu.readsOnly_append] at reads
  obtain ⟨kernel, bottom, top⟩ := stack
  obtain ⟨after, handled, agree⟩ := gmIsrTimer_returns room
    (kernel.trans entry.kernel) bottom top
  have final := agree.run (needed_untouched room)
    ((gmProgramResumeUser layout).drop boundary) reads.2
  rw [whole, gmProgramResumeUser_loads entry room] at final
  obtain ⟨mem, loaded, same⟩ := final
  refine ⟨after.run ((gmProgramResumeUser layout).drop boundary),
    by rw [gmResumeInterrupted, handled, Option.map_some], ?_, ?_⟩
  · rw [loaded]
    rfl
  · intro other field
    rw [loaded, gmProgramResumeUser_loads entry room]
    have word := same _ (field_untouched room other field)
    cases field <;> simp only [GmSlotField.value] <;> rw [word]

end Run

/-- One place for the variables. -/
def sampleLayout : GmLayout where
  apps := 0x10000
  current := 0x8000
  tickCount := 0x8008
  isrTimer := 0x1000
  currentApart := .inl (by decide)
  tickApart := .inl (by decide)
  tickNotCurrent := by decide

/-- The kernel about to resume the first slot, which is running and has its
address space at 0x5000. -/
def sampleCpu : Cpu where
  regs := fun reg => if reg = .rdi then 0x10038 else 0
  rsp := 0x40000
  cs := 8
  ss := 0x10
  rflags := 0x202
  mem := fun address =>
    if address = 0x8000 then 0x10000
    else if address = 0x10008 then 0x200000000
    else if address = 0x10018 then 0x5000
    else 0

theorem sampleCpu_entry : Entry sampleLayout 0 {} sampleCpu :=
  ⟨rfl, rfl, by decide +kernel, rfl⟩

theorem sampleCpu_room : StackRoom sampleLayout 0x30000 8 sampleCpu :=
  ⟨by decide, .inl (by decide), .inl (by decide), .inl (by decide)⟩

/-- An interrupt behind the switch of the stack overwrites the address space of
the slot. -/
theorem sampleCpu_corrupted : ∀ boundary ≤ 25, 9 < boundary →
    (gmResumeInterrupted sampleLayout { depth := 8 } boundary sampleCpu).map
        (fun after => GmSlotField.cr3.value sampleLayout 0 after.mem) ≠
      some (GmSlotField.cr3.value sampleLayout 0
        (sampleCpu.run (gmProgramResumeUser sampleLayout)).mem) := by
  decide +kernel

/-- A timer interrupt of `gm_program_resume_user` is invisible exactly at the
boundaries before the switch of the stack. -/
theorem gmProgramResumeUser_transparent (boundary : Nat)
    (within : boundary ≤ 25) : TransparentAt boundary ↔ boundary ≤ 9 := by
  refine ⟨?_, .of_early⟩
  intro transparent
  by_contra late
  obtain ⟨after, ran, _, fields⟩ := transparent sampleLayout 0 {} { depth := 8 }
    0x30000 sampleCpu sampleCpu_entry sampleCpu_room
  apply sampleCpu_corrupted boundary within (Nat.lt_of_not_le late)
  rw [ran, Option.map_some, fields]

theorem gmProgramResumeUser_transparent_sample :
    ¬ TransparentAt 25 ∧
    ∃ after, gmResumeInterrupted sampleLayout { depth := 8 } 9 sampleCpu =
        some after ∧
      after.context = {} ∧
      ∀ other field, GmSlotField.value field sampleLayout other after.mem =
        field.value sampleLayout other
          (sampleCpu.run (gmProgramResumeUser sampleLayout)).mem :=
  ⟨mt (gmProgramResumeUser_transparent 25 (by decide)).mp (by decide),
    (gmProgramResumeUser_transparent 9 (by decide)).mpr (by decide) _ _ _ _ _ _
      sampleCpu_entry sampleCpu_room⟩

/-- Right after the stack was switched, an interrupt pushes the flags over the
address space of the slot. -/
theorem gmProgramResumeUser_corrupts_slot :
    (gmResumeInterrupted sampleLayout { depth := 8 } 10 sampleCpu).map
        (fun after => GmSlotField.cr3.value sampleLayout 0 after.mem) =
      some 0x202 ∧
    GmSlotField.cr3.value sampleLayout 0
        (sampleCpu.run (gmProgramResumeUser sampleLayout)).mem = 0x5000 := by
  decide +kernel

end Gmker.Machine
