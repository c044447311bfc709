import Gmker.Programs.Ownership
import Gmker.Programs.PeriodicTracking

/-!
# The contract of periodic launches

Over every run, each incarnation of a table entry launches its application one
at a time, spaced by its interval and as often as it was asked to, and neither
a reused entry nor a reused slot mixes up two incarnations.
-/

namespace Gmker.Programs

open Foundation

/-- What the state of the kernel and its history say about all incarnations
so far.  An incarnation is a job of `gmLedger`. -/
structure PeriodicContract (kernel : GmKernel) : Prop where
  /-- Places of the ledger are occupied exactly while the slot is in use. -/
  occupied_iff : ∀ slot, (kernel.apps slot).state = .free ↔
    (gmLedger kernel.history).tenant slot = .vacant
  one_application : ∀ first second id,
    (gmLedger kernel.history).tenant first = .worker id →
    (gmLedger kernel.history).tenant second = .worker id → first = second
  active_iff : ∀ index, (kernel.periodics index).active = true ↔
    ∃ id, (gmLedger kernel.history).entry index = some id
  counted : ∀ index id job, (gmLedger kernel.history).entry index = some id →
    (gmLedger kernel.history).jobs[id]? = some job →
      job.status = .open ∧
      (kernel.periodics index).intervalTicks = job.interval ∧
      job.launches.length + (kernel.periodics index).remaining = job.count
  bounded : ∀ (id : Nat) (job : Job GmSlot),
    (gmLedger kernel.history).jobs[id]? = some job →
      job.launches.length ≤ job.count
  spaced : ∀ (id : Nat) (job : Job GmSlot),
    (gmLedger kernel.history).jobs[id]? = some job → job.Spaced
  completed : ∀ (id : Nat) (job : Job GmSlot),
    (gmLedger kernel.history).jobs[id]? = some job →
      job.status = .completed → job.launches.length = job.count ∧
        ∀ slot, (gmLedger kernel.history).tenant slot ≠ .worker id
  /-- The slot an entry watches never stands for another incarnation. -/
  attributed : ∀ index id, (gmLedger kernel.history).entry index = some id →
    gmPeriodicBusy index kernel = true →
      ∃ slot : GmSlot, (kernel.periodics index).slot = slot.val ∧
        (gmLedger kernel.history).tenant slot = .worker id
  /-- An incarnation that is over stays as it is. -/
  closed : ∀ past future, kernel.history = past ++ future →
    ∀ (id : Nat) (job : Job GmSlot),
      (gmLedger past).jobs[id]? = some job → job.status ≠ .open →
        (gmLedger kernel.history).jobs[id]? = some job
  /-- Every event was permitted when it happened. -/
  accepted : ({} : GmLedger).Accepts (jobEvents kernel.history)

/-- The steps that work on the periodic table. -/
def GmStep.isTable : GmStep → Bool
  | .periodicAdd .. | .periodicCancel _ | .periodicPoll _ => true
  | _ => false

/-- The kernel together with the lines and the ledger it represents. -/
structure Represents (kernel : GmKernel) : Prop where
  lines : ∃ lines, Tracks kernel lines
  accepted : ({} : GmLedger).Accepts (jobEvents kernel.history)
  follows : Follows kernel (gmLedger kernel.history)

theorem Advances.represents {before after : GmKernel}
    (represents : Represents before)
    (advances : Advances before after (gmLedger before.history))
    (lines : ∃ lines, Tracks after lines) : Represents after := by
  obtain ⟨events, history, accepted, follows⟩ := advances
  have ledger : gmLedger after.history =
      (gmLedger before.history).replay (jobEvents events) := by
    rw [gmLedger, history, jobEvents_append, Ledger.replay_append]
    rfl
  refine ⟨lines, ?_, ?_⟩
  · rw [history, jobEvents_append, Ledger.accepts_append]
    exact ⟨represents.accepted, accepted⟩
  · rw [ledger]
    exact follows

/-- Steps on the table leave every living application alone. -/
theorem gmStep_table {kernel after : GmKernel} {ledger : GmLedger}
    (follows : Follows kernel ledger) {step : GmStep}
    (table : step.isTable = true) (stepped : gmStep step kernel = .ok after) :
    TableEffect kernel after ledger := by
  cases step with
  | periodicAdd seconds count name args =>
    obtain rfl := Except.ok.inj stepped
    exact gmPeriodicAdd_effect follows seconds.toNat count.toNat
      count.toNat_lt name args
  | periodicCancel id =>
    obtain rfl := Except.ok.inj stepped
    exact gmPeriodicCancel_effect follows id.toNat
  | periodicPoll load =>
    obtain rfl := Except.ok.inj stepped
    exact gmPeriodicPoll_effect follows load
  | run | schedule | service | fault | timer => cases table

theorem gmStep_advances {kernel after : GmKernel} {lines : GmLines}
    {ledger : GmLedger} (tracks : Tracks kernel lines)
    (follows : Follows kernel ledger) {step : GmStep}
    (stepped : gmStep step kernel = .ok after) :
    Advances kernel after ledger := by
  cases step with
  | run load name args =>
    obtain rfl := Except.ok.inj stepped
    unfold gmProgramRun
    cases gmProgramPath name with
    | none => exact .refl follows
    | some path =>
      exact ((gmProgramStartPath_effect load path args 0 kernel).manual
        follows).advances
  | periodicAdd | periodicCancel | periodicPoll =>
    exact (gmStep_table follows rfl stepped).advances
  | schedule =>
    obtain rfl := Except.ok.inj stepped
    obtain ⟨events, effect⟩ := gmProgramSchedule_effect tracks
    exact effect.advances follows
  | service env frame =>
    obtain ⟨outcome, lines', events, served, effect, _⟩ :=
      gmProgramService_effect tracks env frame
    simp only [gmStep, served, Except.map, Except.ok.injEq] at stepped
    subst stepped
    exact effect.advances follows
  | fault vector cs =>
    obtain ⟨handled, next, lines', events, faulted, effect⟩ :=
      gmProgramFault_effect tracks vector cs
    simp only [gmStep, faulted, Except.map, Except.ok.injEq] at stepped
    subst stepped
    exact effect.advances follows
  | timer frame =>
    obtain ⟨handled, next, lines', events, ticked, effect⟩ :=
      gmIsrTimer_effect tracks frame
    simp only [gmStep, ticked, Except.map, Except.ok.injEq] at stepped
    subst stepped
    exact effect.advances follows

theorem gmProgramsInit_represents (kernelCr3 : UInt64)
    (cr3 : GmSlot → UInt64) : Represents (gmProgramsInit kernelCr3 cr3) where
  lines := ⟨_, gmProgramsInit_tracks kernelCr3 cr3⟩
  accepted := trivial
  follows := by
    refine ⟨Ledger.sound_empty, ?_, ?_⟩
    · intro index
      exact .idle rfl rfl
    · intro slot
      exact iff_of_true rfl rfl

theorem gmRun_represents (kernelCr3 : UInt64) (cr3 : GmSlot → UInt64)
    (steps : List GmStep) :
    ∃ kernel, gmRun steps (gmProgramsInit kernelCr3 cr3) = .ok kernel ∧
      Represents kernel := by
  refine runSteps_invariant ?_ steps _ (gmProgramsInit_represents kernelCr3 cr3)
  intro step kernel represents
  obtain ⟨lines, tracks⟩ := represents.lines
  obtain ⟨after, lines', events, stepped, effect⟩ := gmStep_effect tracks step
  refine ⟨after, stepped, ?_⟩
  exact (gmStep_advances tracks represents.follows stepped).represents represents
    ⟨lines', effect.tracks⟩

namespace Represents

variable {kernel : GmKernel}

private theorem attributed (represents : Represents kernel)
    {index : GmPeriodicIndex} {id : Nat}
    (opened : (gmLedger kernel.history).entry index = some id)
    (busy : gmPeriodicBusy index kernel = true) :
    ∃ slot : GmSlot, (kernel.periodics index).slot = slot.val ∧
      (gmLedger kernel.history).tenant slot = .worker id := by
  unfold gmPeriodicBusy at busy
  split at busy
  · rename_i within
    simp only [Bool.and_eq_true, beq_iff_eq, bne_iff_ne] at busy
    cases represents.follows.entries index with
    | idle closed _ => simp [opened] at closed
    | holds key job held _ _ _ _ _ _ _ _ attributed =>
      obtain rfl : id = key := Option.some.inj (opened.symm.trans held)
      refine ⟨⟨_, within⟩, rfl, ?_⟩
      rcases attributed ⟨_, within⟩ rfl with works | free | other
      · exact works
      · exact absurd free busy.2
      · exact absurd busy.1 other
  · cases busy

private theorem closed (represents : Represents kernel)
    {past future : List GmEvent} (history : kernel.history = past ++ future)
    {id : Nat} {job : Job GmSlot}
    (found : (gmLedger past).jobs[id]? = some job)
    (ended : job.status ≠ .open) :
    (gmLedger kernel.history).jobs[id]? = some job := by
  have accepted := represents.accepted
  rw [history, jobEvents_append, Ledger.accepts_append] at accepted
  have sound : (gmLedger past).Sound :=
    Ledger.sound_empty.replay accepted.1
  rw [gmLedger, history, jobEvents_append, Ledger.replay_append]
  exact sound.closed_replay accepted.2 found ended

theorem periodicContract (represents : Represents kernel) :
    PeriodicContract kernel where
  occupied_iff := represents.follows.places
  one_application := represents.follows.sound.alone
  active_iff index := by
    cases represents.follows.entries index with
    | idle closed inactive => simp [closed, inactive]
    | holds id _ opened _ active => simp [opened, active]
  counted index id job opened found := by
    cases represents.follows.entries index with
    | idle closed _ => simp [opened] at closed
    | holds key other held foundOther _ interval left =>
      obtain rfl : id = key := Option.some.inj (opened.symm.trans held)
      obtain rfl : job = other :=
        Option.some.inj (found.symm.trans foundOther)
      obtain ⟨current, currentFound, isOpen⟩ :=
        represents.follows.sound.opened index id opened
      obtain rfl : job = current :=
        Option.some.inj (found.symm.trans currentFound)
      exact ⟨isOpen, interval, left⟩
  bounded id job found := (represents.follows.sound.jobs id job found).bounded
  spaced id job found := (represents.follows.sound.jobs id job found).spaced
  completed id job found :=
    (represents.follows.sound.jobs id job found).completed
  attributed _ _ opened busy := represents.attributed opened busy
  closed _ _ history _ _ found ended := represents.closed history found ended
  accepted := represents.accepted

end Represents

/-- Every run keeps the periodic contract, and no step on the periodic table
stops or changes an application that is alive. -/
theorem gmRun_periodic_contract (kernelCr3 : UInt64) (cr3 : GmSlot → UInt64)
    (steps : List GmStep) :
    ∃ kernel, gmRun steps (gmProgramsInit kernelCr3 cr3) = .ok kernel ∧
      PeriodicContract kernel ∧
      ∀ step, step.isTable = true →
        ∃ after, gmStep step kernel = .ok after ∧
          ∀ slot, (kernel.apps slot).state ≠ .free →
            after.apps slot = kernel.apps slot := by
  obtain ⟨kernel, reached, represents⟩ := gmRun_represents kernelCr3 cr3 steps
  refine ⟨kernel, reached, represents.periodicContract, ?_⟩
  intro step table
  obtain ⟨lines, tracks⟩ := represents.lines
  obtain ⟨after, _, _, stepped, _⟩ := gmStep_effect tracks step
  exact ⟨after, stepped,
    (gmStep_table represents.follows table stepped).kept⟩

end Gmker.Programs
