import Mathlib.Logic.Relation
import Gmker.Programs.Kernel

/-!
# What the kernel loop changes

Shell commands and the periodic poll change the kernel by four moves only.
`LoopMoves` says so once for every function of the loop; what such a function
keeps is then read off the four moves.
-/

namespace Gmker.Programs

variable {before after kernel : GmKernel}

/-- The slot of a program that was just loaded. -/
def GmAppSlot.launch (app : GmAppSlot) (argLen entry periodicId : Nat) :
    GmAppSlot :=
  { app with
    context := gmStartContext argLen entry
    runtimeTicks := 0
    result := -1
    ownedResource := gmResourceNone
    waitingResource := gmResourceNone
    periodicId := periodicId
    state := .ready }

/-- An event of the periodic table. -/
inductive TableEvent : GmEvent → Prop where
  | scheduled (index : GmPeriodicIndex) (interval count now : Nat) :
      TableEvent (.scheduled index interval count now)
  | cancelled (index : GmPeriodicIndex) : TableEvent (.cancelled index)
  | completed (index : GmPeriodicIndex) : TableEvent (.completed index)
  | launchError (index : GmPeriodicIndex) : TableEvent (.launchError index)

/-- One move of the kernel loop: another address space, a program in a free
slot, or a write to the periodic table with or without an event. -/
inductive LoopMove (before : GmKernel) : GmKernel → Prop where
  | switch (current : GmSlot) (addressSpace : UInt64) :
      LoopMove before
        { before with current := current, addressSpace := addressSpace }
  | launch (slot : GmSlot) (argLen entry periodicId : Nat)
      (free : (before.apps slot).state = .free) :
      LoopMove before ((before.setApp slot
        ((before.apps slot).launch argLen entry periodicId)).record
          (.started slot periodicId before.ticks))
  | table (index : GmPeriodicIndex) (entry : GmPeriodic) :
      LoopMove before (before.setPeriodic index entry)
  | noted (index : GmPeriodicIndex) (entry : GmPeriodic) (event : GmEvent)
      (about : TableEvent event) :
      LoopMove before ((before.setPeriodic index entry).record event)

/-- Any number of moves. -/
def LoopMoves : GmKernel → GmKernel → Prop := Relation.ReflTransGen LoopMove

theorem LoopMoves.refl (kernel : GmKernel) : LoopMoves kernel kernel :=
  Relation.ReflTransGen.refl

theorem LoopMoves.snoc {middle : GmKernel} (moves : LoopMoves before middle)
    (move : LoopMove middle after) : LoopMoves before after :=
  Relation.ReflTransGen.tail moves move

theorem LoopMoves.trans {middle : GmKernel} (left : LoopMoves before middle)
    (right : LoopMoves middle after) : LoopMoves before after :=
  Relation.ReflTransGen.trans left right

theorem LoopMove.once (move : LoopMove before after) :
    LoopMoves before after :=
  Relation.ReflTransGen.single move

theorem gmFreeSlot_free {slot : GmSlot} (found : gmFreeSlot kernel = some slot) :
    (kernel.apps slot).state = .free := by
  simpa using List.find?_some found

theorem gmProgramStartPath_moves (load : List UInt8 → Option Nat)
    (path : List UInt8) (args : Option (List UInt8)) (periodicId : Nat)
    (kernel : GmKernel) :
    LoopMoves kernel
      (gmProgramStartPath load path args periodicId kernel).2 := by
  unfold gmProgramStartPath
  cases found : gmFreeSlot kernel with
  | none => exact .refl kernel
  | some slot =>
    have switched : LoopMoves kernel
        { kernel with
          current := slot, addressSpace := kernel.programKernelCr3 } :=
      (LoopMove.switch slot _).once
    dsimp only
    cases load path with
    | none => exact switched
    | some entry =>
      dsimp only
      split
      · exact switched
      · exact ((LoopMove.launch slot _ _ periodicId
          (gmFreeSlot_free found)).once).snoc (.switch slot _)

theorem gmProgramRun_moves (load : List UInt8 → Option Nat)
    (name : List UInt8) (args : Option (List UInt8)) (kernel : GmKernel) :
    LoopMoves kernel (gmProgramRun load name args kernel).2 := by
  unfold gmProgramRun
  cases gmProgramPath name with
  | none => exact .refl kernel
  | some path => exact gmProgramStartPath_moves load path args 0 kernel

theorem gmPeriodicAdd_moves (seconds count : Nat) (name : List UInt8)
    (args : Option (List UInt8)) (kernel : GmKernel) :
    LoopMoves kernel (gmPeriodicAdd seconds count name args kernel).2 := by
  fun_cases gmPeriodicAdd seconds count name args kernel
  case case6 =>
    exact (LoopMove.noted _ _ _ (.scheduled _ _ _ _)).once
  all_goals exact .refl kernel

theorem gmPeriodicCancel_moves (id : Nat) (kernel : GmKernel) :
    LoopMoves kernel (gmPeriodicCancel id kernel).2 := by
  unfold gmPeriodicCancel
  split
  · dsimp only
    split
    · exact (LoopMove.noted _ _ _ (.cancelled _)).once
    · exact .refl kernel
  · exact .refl kernel

theorem gmPeriodicLaunch_moves (now : Nat) (load : List UInt8 → Option Nat)
    (index : GmPeriodicIndex) (kernel : GmKernel) :
    LoopMoves kernel (gmPeriodicLaunch now load index kernel) := by
  unfold gmPeriodicLaunch
  dsimp only
  split
  · exact .refl kernel
  · have started := gmProgramStartPath_moves load (kernel.periodics index).name
      (some (kernel.periodics index).args) (index.val + 1) kernel
    generalize gmProgramStartPath load _ _ _ kernel = outcome at started
    obtain ⟨result, launched⟩ := outcome
    cases result with
    | busy => exact started
    | error => exact started.snoc (.noted index _ _ (.launchError index))
    | ok slot => exact started.snoc (.table index _)

theorem gmPeriodicPollEntry_moves (now : Nat) (load : List UInt8 → Option Nat)
    (index : GmPeriodicIndex) (kernel : GmKernel) :
    LoopMoves kernel (gmPeriodicPollEntry now load index kernel) := by
  unfold gmPeriodicPollEntry
  dsimp only
  split
  · exact .refl kernel
  split
  · split
    · exact .refl kernel
    split
    · exact (LoopMove.noted index _ _ (.completed index)).once
    · exact (LoopMove.table index _).once.trans
        (gmPeriodicLaunch_moves now load index _)
  · exact gmPeriodicLaunch_moves now load index kernel

theorem gmPeriodicPoll_moves
    (load : GmPeriodicIndex → List UInt8 → Option Nat) (kernel : GmKernel) :
    LoopMoves kernel (gmPeriodicPoll load kernel) := by
  unfold gmPeriodicPoll
  -- The tick is read before the loop, so it is no part of the induction.
  generalize kernel.ticks = now
  generalize List.finRange gmPeriodicMax = indices
  induction indices generalizing kernel with
  | nil => exact .refl kernel
  | cons index rest induction =>
    exact (gmPeriodicPollEntry_moves now (load index) index kernel).trans
      (induction _)

/-- The entries of the kernel loop, the dispatcher apart. -/
def GmStep.isLoop : GmStep → Bool
  | .run .. | .periodicAdd .. | .periodicCancel .. | .periodicPoll .. => true
  | _ => false

/-- An entry of the loop does not fail and is a sequence of moves. -/
theorem gmStep_moves {step : GmStep} (isLoop : step.isLoop = true)
    (kernel : GmKernel) :
    ∃ after, gmStep step kernel = .ok after ∧ LoopMoves kernel after := by
  cases step with
  | run load name args =>
    exact ⟨_, rfl, gmProgramRun_moves load name args kernel⟩
  | periodicAdd seconds count name args =>
    exact ⟨_, rfl, gmPeriodicAdd_moves _ _ name args kernel⟩
  | periodicCancel id => exact ⟨_, rfl, gmPeriodicCancel_moves _ kernel⟩
  | periodicPoll load => exact ⟨_, rfl, gmPeriodicPoll_moves load kernel⟩
  | schedule => cases isLoop
  | service env frame => cases isLoop
  | fault vector cs => cases isLoop
  | timer frame => cases isLoop

end Gmker.Programs
