import Gmker.Decimals
import Gmker.Programs.Kernel

/-!
# The reported exit status

`gm_program_result` prints what an application returned.  It negates a negative
status as an `int`, and the smallest `int` has no negation.
-/

namespace Gmker.Programs

variable {kernel after : GmKernel} {slot : GmSlot}

/-- The negation of an `int`, undefined on overflow. -/
def intNeg (value : Int) : Option Int :=
  if 2147483647 < -value then none else some (-value)

/-- `gm_program_result`: the text on the console, where `gm_write` puts a
return before a newline. -/
def gmProgramResult (slot : GmSlot) (kernel : GmKernel) :
    Option (List UInt8) :=
  let result := (kernel.apps slot).result
  let head := ascii "app " ++ gmPrintU64 (UInt64.ofNat slot.val) ++
    ascii " returned "
  if result < 0 then
    (intNeg result).map fun size =>
      head ++ ascii "-" ++ gmPrintU64 (UInt64.ofInt size) ++ ascii "\r\n"
  else some (head ++ gmPrintU64 (UInt64.ofInt result) ++ ascii "\r\n")

/-- A change of other fields of one slot. -/
theorem setApp_result (kernel : GmKernel) {changed : GmSlot}
    (app : GmAppSlot) (same : app.result = (kernel.apps changed).result) :
    ((kernel.setApp changed app).apps slot).result =
      (kernel.apps slot).result := by
  by_cases here : slot = changed
  · subst here
    simpa [GmKernel.setApp] using same
  · simp [GmKernel.setApp, Function.update_of_ne here]

theorem gmResourceGrantNext_result {index : GmResourceIndex} {now : Nat}
    (granted : gmResourceGrantNext index now kernel = .ok after) :
    (after.apps slot).result = (kernel.apps slot).result := by
  revert granted
  fun_cases gmResourceGrantNext index now kernel <;> rintro ⟨⟩
  · rfl
  · exact setApp_result (kernel.setResource _ _) _ rfl

theorem gmResourceReclaim_result {owner : GmSlot}
    (reclaimed : gmResourceReclaim owner kernel = .ok after) :
    (after.apps slot).result = (kernel.apps slot).result := by
  revert reclaimed
  fun_cases gmResourceReclaim owner kernel <;> rintro ⟨⟩
  · rfl
  rename_i ran
  revert ran
  fun_cases gmResourceReleaseApp owner _ kernel <;> rintro ⟨⟩
  case case4 index _ _ _ _ _ _ _ granted =>
    have accounted := (gmResourceAccount_sameQueues index kernel.ticks
      kernel).apps
    rw [gmResourceGrantNext_result granted]
    refine (setApp_result _ _ ?_).trans ?_
    · rfl
    · exact congrArg (fun apps => (apps slot).result) accounted

theorem gmProgramFinish_result {result : Int}
    (finished : gmProgramFinish slot result kernel = .ok after) :
    (after.apps slot).result = result := by
  revert finished
  fun_cases gmProgramFinish slot result kernel <;> rintro ⟨⟩
  rename_i ran
  revert ran
  fun_cases terminateApp slot result kernel <;> rintro ⟨⟩
  rename_i freed reclaimed
  have kept : (freed.apps slot).result = result := by
    rw [gmResourceReclaim_result reclaimed]
    simp [GmKernel.setApp]
  rw [← kept]
  exact setApp_result freed _ (by rfl)

/-- The text reports a status: its sign and the digits of its size. -/
def Reports (slot : GmSlot) (status : Int) (text : Option (List UInt8)) :
    Prop :=
  ∃ number digits, ShortDecimal number slot.val ∧
    ShortDecimal digits status.natAbs ∧
    text = some (ascii "app " ++ number ++ ascii " returned " ++
      (if status < 0 then ascii "-" else []) ++ digits ++ ascii "\r\n")

theorem gmPrintU64_int {size : Int} (low : 0 ≤ size) (high : size < 2 ^ 64) :
    ShortDecimal (gmPrintU64 (UInt64.ofInt size)) size.natAbs := by
  have short := gmPrintU64_short (UInt64.ofInt size)
  have same : (UInt64.ofInt size).toNat = size.natAbs := by
    rw [UInt64.ofInt, UInt64.toNat_ofNat']
    omega
  rwa [same] at short

/-- The report is exact for every `int` but the smallest. -/
theorem gmProgramResult_reports {status : Int}
    (low : -2147483648 ≤ status) (high : status ≤ 2147483647)
    (result : (kernel.apps slot).result = status) :
    Reports slot status (gmProgramResult slot kernel) ↔
      status ≠ -2147483648 := by
  have number : ShortDecimal (gmPrintU64 (UInt64.ofNat slot.val)) slot.val := by
    have short := gmPrintU64_short (UInt64.ofNat slot.val)
    rwa [UInt64.toNat_ofNat_of_lt' (Nat.lt_trans slot.isLt (by decide))]
      at short
  constructor
  · -- the negation of the smallest `int` overflows
    rintro ⟨_, _, _, _, text⟩ rfl
    simp [gmProgramResult, result, intNeg] at text
  intro least
  unfold gmProgramResult
  simp only [result]
  by_cases negative : status < 0
  · have digits := gmPrintU64_int (Int.neg_nonneg_of_nonpos negative.le)
      (by omega)
    rw [Int.natAbs_neg] at digits
    refine ⟨_, _, number, digits, ?_⟩
    rw [if_pos negative, if_pos negative, intNeg, if_neg (by omega),
      Option.map_some]
  · have digits := gmPrintU64_int (Int.not_lt.1 negative) (by omega)
    refine ⟨_, _, number, digits, ?_⟩
    rw [if_neg negative, if_neg negative, List.append_nil]

/-- The status an application leaves behind. -/
def exitStatus (rdi : UInt64) : Int := rdi.toUInt32.toInt32.toInt

theorem exitStatus_bounds (rdi : UInt64) :
    -2147483648 ≤ exitStatus rdi ∧ exitStatus rdi ≤ 2147483647 ∧
      (exitStatus rdi = -2147483648 ↔ rdi.toUInt32 = 0x80000000) := by
  have low := Int32.le_toInt rdi.toUInt32.toInt32
  have high := Int32.toInt_lt rdi.toUInt32.toInt32
  refine ⟨by unfold exitStatus; omega, by unfold exitStatus; omega, ?_⟩
  constructor
  · intro least
    have same : rdi.toUInt32.toInt32 = (0x80000000 : UInt32).toInt32 :=
      Int32.toInt_inj.1 least
    exact congrArg Int32.toUInt32 same
  · intro least
    rw [exitStatus, least]
    rfl

/-- An exit is reported exactly, unless its status is the smallest `int`. -/
theorem gmProgramService_exit_reported {env : GmServiceEnv}
    {frame : GmServiceFrame} {outcome : GmServiceOutcome}
    (running : (kernel.apps kernel.current).state = .running)
    (user : fromUser frame.cs = true)
    (time : (kernel.apps kernel.current).runtimeTicks < gmProgramMaxTicks)
    (exit : frame.rax = gmSvcExit)
    (served : gmProgramService env frame kernel = .ok outcome) :
    Reports kernel.current (exitStatus frame.rdi)
        (gmProgramResult kernel.current outcome.kernel) ↔
      frame.rdi.toUInt32 ≠ 0x80000000 := by
  obtain ⟨low, high, least⟩ := exitStatus_bounds frame.rdi
  have reached : (outcome.kernel.apps kernel.current).result =
      exitStatus frame.rdi := by
    revert served
    rw [gmProgramService, if_neg (by simp [running, user]),
      if_neg (Nat.not_le.2 time), if_pos exit]
    split
    · rintro ⟨⟩
    · rintro ⟨⟩
      rename_i finished
      exact gmProgramFinish_result finished
  rw [gmProgramResult_reports low high reached]
  exact not_congr least

def exitKernel : GmKernel :=
  (gmProgramsInit 0 fun _ => 0).setApp (gmProgramsInit 0 fun _ => 0).current
    { state := .running }

def exitFrame (rdi : UInt64) : GmServiceFrame :=
  { rax := gmSvcExit, rdi := rdi, cs := 3 }

/-- A program that returns -1. -/
theorem gmProgramService_exit_reported_minus :
    ∃ outcome, gmProgramService idleServices (exitFrame 0xffffffff)
        exitKernel = .ok outcome ∧
      Reports exitKernel.current (exitStatus 0xffffffff)
        (gmProgramResult exitKernel.current outcome.kernel) :=
  ⟨_, rfl, (gmProgramService_exit_reported rfl rfl (by decide) rfl
    (rfl : gmProgramService idleServices (exitFrame 0xffffffff) exitKernel =
      _)).2 (by decide)⟩

/-- The smallest status has no report. -/
theorem gmProgramService_exit_overflows :
    ∃ outcome, gmProgramService idleServices (exitFrame 0x80000000)
        exitKernel = .ok outcome ∧
      ¬ Reports exitKernel.current (exitStatus 0x80000000)
        (gmProgramResult exitKernel.current outcome.kernel) := by
  refine ⟨_, rfl, ?_⟩
  rintro ⟨_, _, _, _, text⟩
  cases text

end Gmker.Programs
