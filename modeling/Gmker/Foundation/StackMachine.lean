import Mathlib.Logic.Function.Basic

/-!
# A machine with a stack and interrupts

Registers, a memory of words, and the instructions by which code saves and
restores them.  An interrupt pushes the interrupted state below the aligned
stack pointer; a handler that saves every register and keeps to the stack below
returns to exactly that state, and leaves traces only below it.

Words and addresses are natural numbers; the code of interest computes nothing
but stack addresses.  Instructions have consecutive addresses.
-/

namespace Foundation

open Function

/-- The general registers, without the stack pointer. -/
inductive Reg where
  | rax
  | rbx
  | rcx
  | rdx
  | rsi
  | rdi
  | rbp
  | r8
  | r9
  | r10
  | r11
  | r12
  | r13
  | r14
  | r15
  deriving DecidableEq, Repr

structure Cpu where
  regs : Reg → Nat := fun _ => 0
  rsp : Nat := 0
  rip : Nat := 0
  cs : Nat := 0
  ss : Nat := 0
  rflags : Nat := 0
  mem : Nat → Nat := fun _ => 0

inductive Instr where
  | pushf
  | push (reg : Reg)
  | pop (reg : Reg)
  /-- Load a register from a fixed address. -/
  | load (reg : Reg) (address : Nat)
  /-- Store the stack pointer where a register points. -/
  | storeSp (base : Reg)
  /-- Set the stack pointer from a register. -/
  | setSp (reg : Reg)
  | iret
  deriving DecidableEq, Repr

namespace Cpu

def setReg (cpu : Cpu) (reg : Reg) (value : Nat) : Cpu :=
  { cpu with regs := update cpu.regs reg value }

def pushWord (cpu : Cpu) (value : Nat) : Cpu :=
  { cpu with
    rsp := cpu.rsp - 8
    mem := update cpu.mem (cpu.rsp - 8) value }

def next (cpu : Cpu) : Cpu := { cpu with rip := cpu.rip + 1 }

/-- The effect of one instruction. -/
def exec (cpu : Cpu) : Instr → Cpu
  | .pushf => (cpu.pushWord cpu.rflags).next
  | .push reg => (cpu.pushWord (cpu.regs reg)).next
  | .pop reg => { cpu.setReg reg (cpu.mem cpu.rsp) with rsp := cpu.rsp + 8 }.next
  | .load reg address => (cpu.setReg reg (cpu.mem address)).next
  | .storeSp base =>
    { cpu with
      mem := update cpu.mem (cpu.regs base) cpu.rsp }.next
  | .setSp reg => { cpu with rsp := cpu.regs reg }.next
  | .iret =>
    { cpu with
      rip := cpu.mem cpu.rsp
      cs := cpu.mem (cpu.rsp + 8)
      rflags := cpu.mem (cpu.rsp + 16)
      rsp := cpu.mem (cpu.rsp + 24)
      ss := cpu.mem (cpu.rsp + 32) }

def run (cpu : Cpu) (program : List Instr) : Cpu := program.foldl exec cpu

theorem run_cons (cpu : Cpu) (instr : Instr) (program : List Instr) :
    cpu.run (instr :: program) = (cpu.exec instr).run program := rfl

theorem run_append (cpu : Cpu) (first second : List Instr) :
    cpu.run (first ++ second) = (cpu.run first).run second :=
  List.foldl_append

/-- Interrupts are taken while the flag is set. -/
def Enabled (cpu : Cpu) : Prop := cpu.rflags / 512 % 2 = 1

instance (cpu : Cpu) : Decidable cpu.Enabled :=
  inferInstanceAs (Decidable (_ = _))

/-- The stack pointer at which an interrupt starts to push. -/
def aligned (cpu : Cpu) : Nat := cpu.rsp - cpu.rsp % 16

/-- What an interrupt pushes, lowest address first. -/
def interruptWords (cpu : Cpu) : List Nat :=
  [cpu.rip, cpu.cs, cpu.rflags, cpu.rsp, cpu.ss]

/-- An interrupt that does not change the privilege level, through a gate that
closes interrupts. -/
def deliver (cpu : Cpu) (handler codeSegment : Nat) : Cpu :=
  let pushed :=
    cpu.interruptWords.reverse.foldl pushWord { cpu with rsp := cpu.aligned }
  { pushed with
    rip := handler, cs := codeSegment, rflags := cpu.rflags - 512 }

end Cpu

/-! Words on a stack. -/

/-- Words lie in memory one behind the other. -/
def Holds (mem : Nat → Nat) : Nat → List Nat → Prop
  | _, [] => True
  | base, word :: words => mem base = word ∧ Holds mem (base + 8) words

instance decidableHolds (mem : Nat → Nat) :
    (base : Nat) → (words : List Nat) → Decidable (Holds mem base words)
  | _, [] => inferInstanceAs (Decidable True)
  | base, word :: words =>
    have := decidableHolds mem (base + 8) words
    inferInstanceAs (Decidable (mem base = word ∧ _))

theorem Holds.congr {mem other : Nat → Nat} {base : Nat} {words : List Nat}
    (holds : Holds mem base words)
    (same : ∀ address, base ≤ address →
      address < base + 8 * words.length → other address = mem address) :
    Holds other base words := by
  induction words generalizing base with
  | nil => exact True.intro
  | cons word words induction =>
    rw [List.length_cons] at same
    refine ⟨(same base (by omega) (by omega)).trans holds.1, ?_⟩
    apply induction holds.2
    intro address low high
    exact same address (by omega) (by omega)

theorem holds_append {mem : Nat → Nat} {base : Nat} {first second : List Nat} :
    Holds mem base (first ++ second) ↔
      Holds mem base first ∧ Holds mem (base + 8 * first.length) second := by
  induction first generalizing base with
  | nil => simp [Holds]
  | cons word words induction =>
    have step : base + 8 + 8 * words.length =
        base + 8 * (word :: words).length := by
      rw [List.length_cons]
      omega
    rw [List.cons_append, Holds, Holds, induction, step, and_assoc]

namespace Cpu

/-- Pushing words leaves them on the stack, the last one lowest. -/
theorem foldl_pushWord (cpu : Cpu) (words : List Nat)
    (room : 8 * words.length ≤ cpu.rsp) :
    (words.foldl pushWord cpu).rsp = cpu.rsp - 8 * words.length ∧
      (∀ address, address < cpu.rsp - 8 * words.length ∨ cpu.rsp ≤ address →
        (words.foldl pushWord cpu).mem address = cpu.mem address) ∧
      Holds (words.foldl pushWord cpu).mem (cpu.rsp - 8 * words.length)
        words.reverse := by
  induction words generalizing cpu with
  | nil => simp [Holds]
  | cons word words induction =>
    rw [List.length_cons] at room ⊢
    have rest := induction (cpu.pushWord word)
      (by simp only [pushWord]; omega)
    obtain ⟨rsp, mem, holds⟩ := rest
    have depth : (cpu.pushWord word).rsp - 8 * words.length =
        cpu.rsp - 8 * (words.length + 1) := by
      simp only [pushWord]
      omega
    rw [depth] at rsp mem holds
    refine ⟨rsp, ?_, ?_⟩
    · intro address outside
      have kept : (cpu.pushWord word).mem address = cpu.mem address :=
        update_of_ne (by omega) _ _
      rw [List.foldl_cons, ← kept]
      apply mem
      simp only [pushWord]
      omega
    · rw [List.foldl_cons, List.reverse_cons]
      apply holds_append.mpr
      refine ⟨holds, ?_, True.intro⟩
      rw [List.length_reverse]
      have top : cpu.rsp - 8 * (words.length + 1) + 8 * words.length =
          cpu.rsp - 8 := by omega
      rw [top]
      have kept := mem (cpu.rsp - 8) (.inr (by simp [pushWord]))
      rw [kept]
      exact update_self _ _ _

theorem run_push (cpu : Cpu) (regs : List Reg) :
    cpu.run (regs.map .push) =
      { (regs.map cpu.regs).foldl pushWord cpu with
        rip := cpu.rip + regs.length } := by
  induction regs generalizing cpu with
  | nil => rfl
  | cons reg regs induction =>
    have rest := induction (cpu.exec (.push reg))
    have shifted : ∀ (words : List Nat) (start : Cpu) (rip : Nat),
        words.foldl pushWord { start with rip := rip } =
          { words.foldl pushWord start with rip := rip } := by
      intro words
      induction words with
      | nil => intro _ _; rfl
      | cons word words inner =>
        intro start rip
        exact inner (start.pushWord word) rip
    rw [List.map_cons, run_cons]
    refine rest.trans ?_
    simp only [exec, next, List.map_cons, List.foldl_cons, List.length_cons]
    rw [shifted]
    simp only [pushWord, Nat.add_assoc, Nat.add_comm 1]

theorem run_push_frame (cpu : Cpu) (regs : List Reg)
    (room : 8 * regs.length ≤ cpu.rsp) :
    (cpu.run (regs.map .push)).rsp = cpu.rsp - 8 * regs.length ∧
      (cpu.run (regs.map .push)).regs = cpu.regs ∧
      ∀ address, address < cpu.rsp - 8 * regs.length ∨ cpu.rsp ≤ address →
        (cpu.run (regs.map .push)).mem address = cpu.mem address := by
  have regsKept : ∀ (words : List Nat) (start : Cpu),
      (words.foldl pushWord start).regs = start.regs := by
    intro words
    induction words with
    | nil => intro _; rfl
    | cons word words induction =>
      intro start
      exact induction (start.pushWord word)
  have pushed := foldl_pushWord cpu (regs.map cpu.regs)
    (by rw [List.length_map]; exact room)
  rw [List.length_map] at pushed
  rw [run_push]
  exact ⟨pushed.1, regsKept _ _, pushed.2.1⟩

theorem run_pop (cpu : Cpu) (regs : List Reg) (values : Reg → Nat)
    (holds : Holds cpu.mem cpu.rsp (regs.map values)) :
    cpu.run (regs.map .pop) =
      { cpu with
        regs := fun reg => if reg ∈ regs then values reg else cpu.regs reg
        rsp := cpu.rsp + 8 * regs.length
        rip := cpu.rip + regs.length } := by
  induction regs generalizing cpu with
  | nil => simp [run]
  | cons reg regs induction =>
    have rest := induction (cpu.exec (.pop reg)) holds.2
    rw [List.map_cons, run_cons]
    refine rest.trans ?_
    have values' : (fun other => if other ∈ regs then values other
          else (cpu.exec (.pop reg)).regs other) =
        fun other => if other ∈ reg :: regs then values other
          else cpu.regs other := by
      funext other
      by_cases later : other ∈ regs
      · simp [later]
      · by_cases here : other = reg
        · subst here
          have top : cpu.mem cpu.rsp = values other := holds.1
          simp [later, exec, next, setReg, top]
        · simp [later, here, exec, next, setReg]
    rw [values']
    simp only [exec, next, setReg, List.length_cons]
    congr 1 <;> omega

end Cpu

/-- Everything an interrupt frame and the saved registers hold. -/
structure Context where
  regs : Reg → Nat := fun _ => 0
  rip : Nat := 0
  cs : Nat := 0
  rflags : Nat := 0
  rsp : Nat := 0
  ss : Nat := 0

/-- The words of a context, lowest address first. -/
def Context.words (context : Context) (order : List Reg) : List Nat :=
  order.map context.regs ++
    [context.rip, context.cs, context.rflags, context.rsp, context.ss]

/-- The machine in a context. -/
def Context.cpu (context : Context) (mem : Nat → Nat) : Cpu :=
  { regs := context.regs
    rsp := context.rsp
    rip := context.rip
    cs := context.cs
    ss := context.ss
    rflags := context.rflags
    mem := mem }

def Cpu.context (cpu : Cpu) : Context :=
  { regs := cpu.regs
    rip := cpu.rip
    cs := cpu.cs
    rflags := cpu.rflags
    rsp := cpu.rsp
    ss := cpu.ss }

section Frames

variable {order : List Reg} (complete : ∀ reg, reg ∈ order)
include complete

/-- Popping all registers and returning loads the context on the stack. -/
theorem Cpu.run_resume (cpu : Cpu) (context : Context)
    (holds : Holds cpu.mem cpu.rsp (context.words order)) :
    cpu.run (order.map .pop ++ [.iret]) = context.cpu cpu.mem := by
  obtain ⟨registers, frame⟩ := holds_append.mp holds
  rw [Cpu.run_append, cpu.run_pop order context.regs registers]
  rw [List.length_map] at frame
  obtain ⟨rip, cs, rflags, rsp, ss, _⟩ := frame
  simp only [Cpu.run, List.foldl_cons, List.foldl_nil, Cpu.exec, Context.cpu,
    complete, if_true, rip]
  simp only [Nat.add_assoc, Nat.reduceAdd] at cs rflags rsp ss ⊢
  rw [cs, rflags, rsp, ss]

omit complete in
theorem Cpu.deliver_holds (cpu : Cpu) (handler codeSegment : Nat)
    (room : 40 ≤ cpu.aligned) :
    (cpu.deliver handler codeSegment).rsp = cpu.aligned - 40 ∧
      (∀ address, address < cpu.aligned - 40 ∨ cpu.aligned ≤ address →
        (cpu.deliver handler codeSegment).mem address = cpu.mem address) ∧
      Holds (cpu.deliver handler codeSegment).mem (cpu.aligned - 40)
        cpu.interruptWords :=
  foldl_pushWord { cpu with rsp := cpu.aligned } cpu.interruptWords.reverse room

omit complete in
/-- What an interrupt and the pushes of its handler leave on the stack. -/
theorem Cpu.saved_holds (order : List Reg) (cpu : Cpu)
    (handler codeSegment : Nat) (room : 8 * order.length + 40 ≤ cpu.aligned) :
    let saved := (cpu.deliver handler codeSegment).run (order.reverse.map .push)
    saved.rsp = cpu.aligned - (8 * order.length + 40) ∧
      (∀ address, address < saved.rsp ∨ cpu.aligned ≤ address →
        saved.mem address = cpu.mem address) ∧
      Holds saved.mem saved.rsp (cpu.context.words order) := by
  intro saved
  obtain ⟨frameRsp, frameMem, frame⟩ :=
    cpu.deliver_holds handler codeSegment (by omega)
  have pushed := foldl_pushWord (cpu.deliver handler codeSegment)
    (order.reverse.map cpu.regs)
    (by rw [frameRsp, List.length_map, List.length_reverse]; omega)
  rw [List.length_map, List.length_reverse, frameRsp, ← List.map_reverse,
    List.reverse_reverse] at pushed
  obtain ⟨rsp, mem, registers⟩ := pushed
  have bottom : cpu.aligned - 40 - 8 * order.length =
      cpu.aligned - (8 * order.length + 40) := by omega
  rw [bottom] at rsp mem registers
  have whole : saved =
      { (order.reverse.map cpu.regs).foldl pushWord
          (cpu.deliver handler codeSegment) with
        rip := handler + order.reverse.length } := run_push _ _
  have savedRsp : saved.rsp = cpu.aligned - (8 * order.length + 40) := by
    rw [whole]
    exact rsp
  have savedMem : saved.mem = ((order.reverse.map cpu.regs).foldl pushWord
      (cpu.deliver handler codeSegment)).mem := by
    rw [whole]
  rw [savedRsp, savedMem]
  refine ⟨rfl, ?_, ?_⟩
  · intro address outside
    rw [mem address (by omega), frameMem address (by omega)]
  · apply holds_append.mpr
    refine ⟨registers, ?_⟩
    have top : cpu.aligned - (8 * order.length + 40) +
        8 * (order.map cpu.context.regs).length = cpu.aligned - 40 := by
      rw [List.length_map]
      omega
    rw [top]
    apply frame.congr
    intro address low _
    exact mem address (.inr low)

end Frames

/-! Runs that cannot tell two memories apart. -/

/-- The addresses an instruction reads. -/
def Instr.reads (cpu : Cpu) : Instr → List Nat
  | .pop _ => [cpu.rsp]
  | .load _ address => [address]
  | .iret => [cpu.rsp, cpu.rsp + 8, cpu.rsp + 16, cpu.rsp + 24, cpu.rsp + 32]
  | .pushf | .push _ | .storeSp _ | .setSp _ => []

namespace Cpu

/-- Every address that a program reads is alive. -/
def ReadsOnly (Alive : Nat → Prop) : List Instr → Cpu → Prop
  | [], _ => True
  | instr :: program, cpu =>
    (∀ address ∈ instr.reads cpu, Alive address) ∧
      ReadsOnly Alive program (cpu.exec instr)

theorem readsOnly_append {Alive : Nat → Prop} (first second : List Instr)
    (cpu : Cpu) :
    ReadsOnly Alive (first ++ second) cpu ↔
      ReadsOnly Alive first cpu ∧ ReadsOnly Alive second (cpu.run first) := by
  induction first generalizing cpu with
  | nil => simp [ReadsOnly, run]
  | cons instr first induction =>
    rw [List.cons_append, ReadsOnly, ReadsOnly, induction, and_assoc]
    rfl

/-- Loading a context reads its words. -/
theorem readsOnly_resume {Alive : Nat → Prop} (order : List Reg) (cpu : Cpu)
    (alive : ∀ address, cpu.rsp ≤ address →
      address < cpu.rsp + (8 * order.length + 40) → Alive address) :
    ReadsOnly Alive (order.map .pop ++ [.iret]) cpu := by
  induction order generalizing cpu with
  | nil =>
    refine ⟨?_, True.intro⟩
    intro address read
    simp only [Instr.reads, List.mem_cons, List.not_mem_nil,
      or_false] at read
    simp only [List.length_nil] at alive
    exact alive address (by omega) (by omega)
  | cons reg order induction =>
    rw [List.length_cons] at alive
    refine ⟨?_, ?_⟩
    · intro address read
      rw [Instr.reads, List.mem_singleton] at read
      exact alive address (by omega) (by omega)
    · apply induction
      intro address low high
      simp only [exec, next, setReg] at low high
      exact alive address (by omega) (by omega)

/-- Two machines differ at most in dead memory. -/
def Agree (Dead : Nat → Prop) (left right : Cpu) : Prop :=
  ∃ mem, right = { left with mem := mem } ∧
    ∀ address, ¬ Dead address → mem address = left.mem address

/-- An instruction that reads nothing dead keeps the agreement. -/
theorem Agree.exec {Dead : Nat → Prop} {left right : Cpu}
    (agree : Agree Dead left right) (instr : Instr)
    (alive : ∀ address ∈ instr.reads left, ¬ Dead address) :
    Agree Dead (left.exec instr) (right.exec instr) := by
  obtain ⟨mem, rfl, same⟩ := agree
  have stored : ∀ place value address, ¬ Dead address →
      update mem place value address =
        update left.mem place value address := by
    intro place value address notDead
    by_cases here : address = place
    · subst here
      rw [update_self, update_self]
    · rw [update_of_ne here, update_of_ne here]
      exact same address notDead
  cases instr with
  | pushf => exact ⟨_, rfl, stored _ _⟩
  | push reg => exact ⟨_, rfl, stored _ _⟩
  | pop reg =>
    have top : mem left.rsp = left.mem left.rsp :=
      same _ (alive _ (by simp [Instr.reads]))
    exact ⟨mem, by simp [Cpu.exec, next, setReg, top], same⟩
  | load reg address =>
    have value : mem address = left.mem address :=
      same _ (alive _ (by simp [Instr.reads]))
    exact ⟨mem, by simp [Cpu.exec, next, setReg, value], same⟩
  | storeSp base => exact ⟨_, rfl, stored _ _⟩
  | setSp reg => exact ⟨mem, rfl, same⟩
  | iret =>
    have words : ∀ address ∈ Instr.iret.reads left,
        mem address = left.mem address := fun address read =>
      same address (alive address read)
    simp only [Instr.reads, List.forall_mem_cons] at words
    exact ⟨mem, by simp [Cpu.exec, words], same⟩

theorem Agree.run {Alive Dead : Nat → Prop}
    (apart : ∀ address, Alive address → ¬ Dead address)
    {left right : Cpu} (agree : Agree Dead left right) (program : List Instr)
    (reads : ReadsOnly Alive program left) :
    Agree Dead (left.run program) (right.run program) := by
  induction program generalizing left right with
  | nil => exact agree
  | cons instr program induction =>
    apply induction _ reads.2
    exact agree.exec instr fun address read => apart address
      (reads.1 address read)

end Cpu

end Foundation
