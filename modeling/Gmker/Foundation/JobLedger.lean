import Mathlib.Data.List.Chain
import Mathlib.Logic.Function.Basic

/-!
# A ledger of repeated jobs

A table entry opens a job that is to be launched a fixed number of times, one
launch at a time and not more often than once per interval.  The ledger names
every job that was ever opened by its position, so that a reused entry or a
reused place never confuses two jobs.  `Permits` is the contract of one event;
`Sound` is what follows for every ledger reached through permitted events.
-/

namespace Foundation

open Function

universe u v

inductive JobStatus where
  | open
  | cancelled
  | completed
  deriving DecidableEq, Repr

/-- A job with the tick and place of each of its launches, oldest first. -/
structure Job (σ : Type v) where
  interval : Nat
  count : Nat
  added : Nat
  launches : List (Nat × σ) := []
  status : JobStatus := .open

/-- Who occupies a place. -/
inductive Tenant where
  | vacant
  | guest
  | worker (job : Nat)
  deriving DecidableEq, Repr

inductive JobEvent (κ : Type u) (σ : Type v) where
  | opened (entry : κ) (interval count tick : Nat)
  | cancelled (entry : κ)
  | completed (entry : κ)
  | launched (entry : κ) (place : σ) (tick : Nat)
  | occupied (place : σ)
  | vacated (place : σ)

structure Ledger (κ : Type u) (σ : Type v) where
  jobs : List (Job σ) := []
  entry : κ → Option Nat := fun _ => none
  tenant : σ → Tenant := fun _ => .vacant

variable {κ : Type u} {σ : Type v}

namespace Job

/-- The tick of the last launch, or of the opening before the first one. -/
def last (job : Job σ) : Nat :=
  (job.launches.getLast?.map Prod.fst).getD job.added

/-- The first launch is an interval after the opening, and every further
launch an interval after the one before. -/
def Spaced (job : Job σ) : Prop :=
  List.IsChain (fun earlier later => earlier + job.interval ≤ later)
    (job.added :: job.launches.map Prod.fst)

def launch (job : Job σ) (tick : Nat) (place : σ) : Job σ :=
  { job with launches := job.launches ++ [(tick, place)] }

@[simp] theorem launch_launches (job : Job σ) (tick : Nat) (place : σ) :
    (job.launch tick place).launches = job.launches ++ [(tick, place)] := rfl

@[simp] theorem launch_interval (job : Job σ) (tick : Nat) (place : σ) :
    (job.launch tick place).interval = job.interval := rfl

@[simp] theorem launch_count (job : Job σ) (tick : Nat) (place : σ) :
    (job.launch tick place).count = job.count := rfl

@[simp] theorem launch_last (job : Job σ) (tick : Nat) (place : σ) :
    (job.launch tick place).last = tick := by
  simp [last, launch]

theorem getLast?_ticks (job : Job σ) :
    (job.added :: job.launches.map Prod.fst).getLast? = some job.last := by
  cases reversed : job.launches.getLast? with
  | none => simp [last, List.getLast?_eq_none_iff.mp reversed]
  | some launch => simp [last, List.getLast?_cons, reversed]

theorem Spaced.launch {job : Job σ} (spaced : job.Spaced) {tick : Nat}
    (due : job.last + job.interval ≤ tick) (place : σ) :
    (job.launch tick place).Spaced := by
  have longer : (job.launch tick place).added ::
      (job.launch tick place).launches.map Prod.fst =
        (job.added :: job.launches.map Prod.fst) ++ [tick] := by
    simp [Job.launch]
  unfold Spaced
  rw [longer]
  apply List.isChain_append.mpr
  refine ⟨spaced, List.isChain_singleton tick, ?_⟩
  intro earlier isLast later isFirst
  rw [getLast?_ticks, Option.mem_some_iff] at isLast
  rw [List.head?_cons, Option.mem_some_iff] at isFirst
  rw [← isLast, ← isFirst]
  exact due

end Job

namespace Ledger

variable {id key : Nat}

private theorem modified_job {jobs : List (Job σ)} {change : Job σ → Job σ}
    {job : Job σ} (found : (jobs.modify id change)[key]? = some job) :
    ∃ old, jobs[key]? = some old ∧
      (key = id ∧ job = change old ∨ key ≠ id ∧ job = old) := by
  rw [List.getElem?_modify] at found
  obtain ⟨old, oldFound, rfl⟩ := Option.map_eq_some_iff.mp found
  refine ⟨old, oldFound, ?_⟩
  by_cases same : key = id
  · exact .inl ⟨same, if_pos same.symm⟩
  · exact .inr ⟨same, if_neg (Ne.symm same)⟩

private theorem modify_other {jobs : List (Job σ)} {change : Job σ → Job σ}
    (different : key ≠ id) : (jobs.modify id change)[key]? = jobs[key]? := by
  rw [List.getElem?_modify]
  cases jobs[key]? with
  | none => rfl
  | some job => simp [Ne.symm different]

private theorem modify_self {jobs : List (Job σ)} {job : Job σ}
    {change : Job σ → Job σ} (found : jobs[id]? = some job) :
    (jobs.modify id change)[id]? = some (change job) := by
  rw [List.getElem?_modify, found]
  simp

variable [DecidableEq κ] [DecidableEq σ]

/-- Close the job an entry holds. -/
def close (ledger : Ledger κ σ) (entry : κ) (status : JobStatus) :
    Ledger κ σ :=
  match ledger.entry entry with
  | none => ledger
  | some id =>
    { ledger with
      jobs := ledger.jobs.modify id fun job => { job with status := status }
      entry := update ledger.entry entry none }

def settle (ledger : Ledger κ σ) (place : σ) (tenant : Tenant) :
    Ledger κ σ :=
  { ledger with tenant := update ledger.tenant place tenant }

omit [DecidableEq κ] in
theorem settle_self (ledger : Ledger κ σ) (place : σ) (tenant : Tenant) :
    (ledger.settle place tenant).tenant place = tenant := by
  simp [settle]

omit [DecidableEq κ] in
theorem settle_other (ledger : Ledger κ σ) {place other : σ} (tenant : Tenant)
    (different : other ≠ place) :
    (ledger.settle place tenant).tenant other = ledger.tenant other := by
  simp [settle, different]

/-- Enter one event. -/
def apply (ledger : Ledger κ σ) : JobEvent κ σ → Ledger κ σ
  | .opened entry interval count tick =>
    { ledger with
      jobs := ledger.jobs ++ [{ interval, count, added := tick }]
      entry := update ledger.entry entry (some ledger.jobs.length) }
  | .cancelled entry => ledger.close entry .cancelled
  | .completed entry => ledger.close entry .completed
  | .launched entry place tick =>
    match ledger.entry entry with
    | none => ledger.settle place .guest
    | some id =>
      { ledger with
        jobs := ledger.jobs.modify id fun job => job.launch tick place
        tenant := update ledger.tenant place (.worker id) }
  | .occupied place => ledger.settle place .guest
  | .vacated place => ledger.settle place .vacant

theorem apply_launched {ledger : Ledger κ σ} {entry : κ}
    (opened : ledger.entry entry = some id) (place : σ) (tick : Nat) :
    ledger.apply (.launched entry place tick) =
      { ledger with
        jobs := ledger.jobs.modify id fun job => job.launch tick place
        tenant := update ledger.tenant place (.worker id) } := by
  simp only [apply, opened]

omit [DecidableEq σ] in
theorem close_opened {ledger : Ledger κ σ} {entry : κ}
    (opened : ledger.entry entry = some id) (status : JobStatus) :
    ledger.close entry status =
      { ledger with
        jobs := ledger.jobs.modify id fun job => { job with status := status }
        entry := update ledger.entry entry none } := by
  simp only [close, opened]

def replay (ledger : Ledger κ σ) (events : List (JobEvent κ σ)) :
    Ledger κ σ :=
  events.foldl apply ledger

/-- The contract of one event. -/
def Permits (ledger : Ledger κ σ) : JobEvent κ σ → Prop
  | .opened entry _ count _ => ledger.entry entry = none ∧ 0 < count
  | .cancelled entry => ∃ id, ledger.entry entry = some id
  | .completed entry => ∃ id job, ledger.entry entry = some id ∧
      ledger.jobs[id]? = some job ∧ job.launches.length = job.count ∧
      ∀ place, ledger.tenant place ≠ .worker id
  | .launched entry place tick => ledger.tenant place = .vacant ∧
      ∃ id job, ledger.entry entry = some id ∧ ledger.jobs[id]? = some job ∧
      job.launches.length < job.count ∧ job.last + job.interval ≤ tick ∧
      ∀ other, ledger.tenant other ≠ .worker id
  | .occupied place => ledger.tenant place = .vacant
  | .vacated _ => True

/-- Every event is permitted when it is entered. -/
def Accepts (ledger : Ledger κ σ) : List (JobEvent κ σ) → Prop
  | [] => True
  | event :: events => ledger.Permits event ∧ (ledger.apply event).Accepts events

@[simp] theorem replay_nil (ledger : Ledger κ σ) : ledger.replay [] = ledger :=
  rfl

@[simp] theorem replay_cons (ledger : Ledger κ σ) (event : JobEvent κ σ)
    (events : List (JobEvent κ σ)) :
    ledger.replay (event :: events) = (ledger.apply event).replay events := rfl

theorem replay_append (ledger : Ledger κ σ) (first second : List (JobEvent κ σ)) :
    ledger.replay (first ++ second) = (ledger.replay first).replay second :=
  List.foldl_append

theorem accepts_append (ledger : Ledger κ σ)
    (first second : List (JobEvent κ σ)) :
    ledger.Accepts (first ++ second) ↔
      ledger.Accepts first ∧ (ledger.replay first).Accepts second := by
  induction first generalizing ledger with
  | nil => simp [Accepts]
  | cons event events induction =>
    simp only [List.cons_append, Accepts, replay_cons, induction, and_assoc]

/-- Places that are vacated touch no job. -/
theorem replay_vacated (ledger : Ledger κ σ) {events : List (JobEvent κ σ)}
    (vacated : ∀ event, event ∈ events → ∃ place, event = .vacated place) :
    ledger.Accepts events ∧ (ledger.replay events).jobs = ledger.jobs ∧
      (ledger.replay events).entry = ledger.entry ∧
      ∀ place,
        (.vacated place ∈ events →
          (ledger.replay events).tenant place = .vacant) ∧
        (.vacated place ∉ events →
          (ledger.replay events).tenant place = ledger.tenant place) := by
  induction events generalizing ledger with
  | nil => exact ⟨trivial, rfl, rfl, fun _ => ⟨by simp, fun _ => rfl⟩⟩
  | cons event events induction =>
    obtain ⟨left, rfl⟩ := vacated event List.mem_cons_self
    obtain ⟨accepted, jobs, entry, tenants⟩ :=
      induction (ledger.apply (.vacated left)) fun event member =>
        vacated event (List.mem_cons_of_mem _ member)
    refine ⟨⟨trivial, accepted⟩, jobs, entry, ?_⟩
    intro place
    obtain ⟨gone, kept⟩ := tenants place
    constructor
    · intro member
      by_cases later : .vacated place ∈ events
      · exact gone later
      · have same : place = left := by
          rcases List.mem_cons.mp member with equal | inRest
          · exact JobEvent.vacated.inj equal
          · exact absurd inRest later
        rw [replay_cons, kept later, same]
        exact settle_self ledger left .vacant
    · intro absent
      rw [List.mem_cons, not_or, JobEvent.vacated.injEq] at absent
      rw [replay_cons, kept absent.2]
      exact settle_other ledger .vacant absent.1

/-- What every job of a ledger with these tenants satisfies. -/
structure JobKept (tenant : σ → Tenant) (id : Nat) (job : Job σ) : Prop where
  bounded : job.launches.length ≤ job.count
  spaced : job.Spaced
  completed : job.status = .completed →
    job.launches.length = job.count ∧ ∀ place, tenant place ≠ .worker id

/-- What every ledger of permitted events satisfies. -/
structure Sound (ledger : Ledger κ σ) : Prop where
  opened : ∀ entry id, ledger.entry entry = some id →
    ∃ job, ledger.jobs[id]? = some job ∧ job.status = .open
  separate : ∀ first second id, ledger.entry first = some id →
    ledger.entry second = some id → first = second
  worker : ∀ place id, ledger.tenant place = .worker id →
    id < ledger.jobs.length
  alone : ∀ first second id, ledger.tenant first = .worker id →
    ledger.tenant second = .worker id → first = second
  jobs : ∀ (id : Nat) (job : Job σ), ledger.jobs[id]? = some job →
    JobKept ledger.tenant id job

omit [DecidableEq κ] [DecidableEq σ] in
theorem sound_empty : Sound ({} : Ledger κ σ) := by
  constructor <;> simp

namespace Sound

variable {ledger : Ledger κ σ} (sound : ledger.Sound)

include sound

omit [DecidableEq κ] in
theorem settle (place : σ) {tenant : Tenant}
    (noWorker : ∀ id, tenant ≠ .worker id) :
    (ledger.settle place tenant).Sound := by
  have before : ∀ other id,
      (ledger.settle place tenant).tenant other = .worker id →
        ledger.tenant other = .worker id := by
    intro other id works
    by_cases same : other = place
    · subst other
      rw [settle_self] at works
      exact absurd works (noWorker id)
    · rwa [settle_other _ _ same] at works
  constructor
  · exact sound.opened
  · exact sound.separate
  · intro other id works
    exact sound.worker other id (before other id works)
  · intro first second id works works'
    exact sound.alone first second id (before first id works)
      (before second id works')
  · intro id job found
    obtain ⟨bounded, spaced, completed⟩ := sound.jobs id job found
    refine ⟨bounded, spaced, fun done => ⟨(completed done).1, ?_⟩⟩
    intro other works
    exact (completed done).2 other (before other id works)

theorem opened_job {entry : κ} (interval count tick : Nat) :
    (ledger.apply (.opened entry interval count tick)).Sound := by
  let fresh : Job σ := { interval, count, added := tick }
  have jobs : ∀ (id : Nat) job, (ledger.jobs ++ [fresh])[id]? = some job →
      ledger.jobs[id]? = some job ∨ id = ledger.jobs.length ∧ job = fresh := by
    intro id job found
    rcases Nat.lt_or_ge id ledger.jobs.length with old | new
    · rw [List.getElem?_append_left old] at found
      exact .inl found
    · rw [List.getElem?_append_right new] at found
      right
      rw [List.getElem?_singleton] at found
      split at found
      · exact ⟨by omega, (Option.some.inj found).symm⟩
      · cases found
  have kept : ∀ (id : Nat) (job : Job σ), ledger.jobs[id]? = some job →
      (ledger.jobs ++ [fresh])[id]? = some job := by
    intro id job found
    have old := (List.getElem?_eq_some_iff.mp found).1
    rw [List.getElem?_append_left old]
    exact found
  have unused : ∀ other, ledger.entry other ≠ some ledger.jobs.length := by
    intro other opened
    obtain ⟨job, found, _⟩ := sound.opened other _ opened
    simp at found
  constructor
  · intro other id opened
    by_cases same : other = entry
    · subst other
      simp only [apply, update_self, Option.some.injEq] at opened ⊢
      subst opened
      exact ⟨fresh, List.getElem?_concat_length, rfl⟩
    · simp only [apply, update_of_ne same] at opened ⊢
      obtain ⟨job, found, isOpen⟩ := sound.opened other id opened
      exact ⟨job, kept id job found, isOpen⟩
  · intro first second id opened opened'
    simp only [apply] at opened opened'
    by_cases isFirst : first = entry <;> by_cases isSecond : second = entry
    · rw [isFirst, isSecond]
    · subst first
      rw [update_self, Option.some.injEq] at opened
      rw [update_of_ne isSecond, ← opened] at opened'
      exact absurd opened' (unused second)
    · subst second
      rw [update_self, Option.some.injEq] at opened'
      rw [update_of_ne isFirst, ← opened'] at opened
      exact absurd opened (unused first)
    · rw [update_of_ne isFirst] at opened
      rw [update_of_ne isSecond] at opened'
      exact sound.separate first second id opened opened'
  · intro place id works
    exact Nat.lt_of_lt_of_le (sound.worker place id works) (by simp [apply])
  · exact sound.alone
  · intro id job found
    rcases jobs id job found with old | ⟨_, rfl⟩
    · exact sound.jobs id job old
    · exact ⟨Nat.zero_le count, List.isChain_singleton tick, nofun⟩

omit [DecidableEq σ] in
theorem close {entry : κ} {status : JobStatus} {job : Job σ}
    (opened : ledger.entry entry = some id)
    (found : ledger.jobs[id]? = some job)
    (finished : status = .completed → job.launches.length = job.count ∧
      ∀ place, ledger.tenant place ≠ .worker id) :
    (ledger.close entry status).Sound := by
  simp only [Ledger.close, opened]
  constructor
  · intro other key opened'
    by_cases same : other = entry
    · subst other
      simp at opened'
    · simp only [update_of_ne same] at opened' ⊢
      have different : key ≠ id := by
        rintro rfl
        exact same (sound.separate other entry key opened' opened)
      rw [modify_other different]
      exact sound.opened other key opened'
  · intro first second key opened' opened''
    by_cases isFirst : first = entry
    · subst first
      simp at opened'
    · by_cases isSecond : second = entry
      · subst second
        simp at opened''
      · simp only [update_of_ne isFirst] at opened'
        simp only [update_of_ne isSecond] at opened''
        exact sound.separate first second key opened' opened''
  · intro place key works
    rw [List.length_modify]
    exact sound.worker place key works
  · exact sound.alone
  · intro key changed changedFound
    obtain ⟨old, oldFound, ⟨rfl, rfl⟩ | ⟨_, rfl⟩⟩ := modified_job changedFound
    · rw [found, Option.some.injEq] at oldFound
      subst oldFound
      have kept := sound.jobs key job found
      exact ⟨kept.bounded, kept.spaced, finished⟩
    · exact sound.jobs key _ oldFound

theorem launched {entry : κ} {place : σ} {tick id : Nat} {job : Job σ}
    (opened : ledger.entry entry = some id)
    (found : ledger.jobs[id]? = some job)
    (left : job.launches.length < job.count)
    (due : job.last + job.interval ≤ tick)
    (idle : ∀ other, ledger.tenant other ≠ .worker id) :
    (ledger.apply (.launched entry place tick)).Sound := by
  simp only [apply, opened]
  have tenants : ∀ other key,
      update ledger.tenant place (.worker id) other = .worker key →
        other = place ∧ key = id ∨
          other ≠ place ∧ key ≠ id ∧ ledger.tenant other = .worker key := by
    intro other key works
    by_cases same : other = place
    · subst other
      rw [update_self, Tenant.worker.injEq] at works
      exact .inl ⟨rfl, works.symm⟩
    · rw [update_of_ne same] at works
      refine .inr ⟨same, ?_, works⟩
      rintro rfl
      exact idle other works
  constructor
  · intro other key opened'
    obtain ⟨old, oldFound, isOpen⟩ := sound.opened other key opened'
    by_cases same : key = id
    · subst key
      exact ⟨_, modify_self oldFound, isOpen⟩
    · exact ⟨old, (modify_other same).trans oldFound, isOpen⟩
  · exact sound.separate
  · intro other key works
    rw [List.length_modify]
    rcases tenants other key works with ⟨_, rfl⟩ | ⟨_, _, works'⟩
    · exact (List.getElem?_eq_some_iff.mp found).1
    · exact sound.worker other key works'
  · intro first second key works works'
    rcases tenants first key works with ⟨rfl, rfl⟩ | ⟨_, different, early⟩ <;>
      rcases tenants second key works' with ⟨rfl, same⟩ | ⟨_, different', late⟩
    · rfl
    · exact absurd rfl different'
    · exact absurd same different
    · exact sound.alone first second key early late
  · intro key changed changedFound
    obtain ⟨old, oldFound, ⟨rfl, rfl⟩ | ⟨different, rfl⟩⟩ :=
      modified_job changedFound
    · obtain ⟨current, currentFound, isOpen⟩ := sound.opened entry key opened
      rw [found, Option.some.injEq] at oldFound currentFound
      subst oldFound currentFound
      refine ⟨?_, (sound.jobs key job found).spaced.launch due place, ?_⟩
      · rw [Job.launch_launches, List.length_append]
        exact left
      · intro done
        cases isOpen.symm.trans done
    · obtain ⟨bounded, spaced, completed⟩ := sound.jobs key _ oldFound
      refine ⟨bounded, spaced, fun done => ⟨(completed done).1, ?_⟩⟩
      intro other works
      rcases tenants other key works with ⟨_, same⟩ | ⟨_, _, works'⟩
      · exact different same
      · exact (completed done).2 other works'

theorem apply {event : JobEvent κ σ} (permitted : ledger.Permits event) :
    (ledger.apply event).Sound := by
  cases event with
  | opened entry interval count tick =>
    exact sound.opened_job interval count tick
  | cancelled entry =>
    obtain ⟨id, opened⟩ := permitted
    obtain ⟨job, found, _⟩ := sound.opened entry id opened
    refine sound.close opened found ?_
    intro impossible
    cases impossible
  | completed entry =>
    obtain ⟨id, job, opened, found, all, gone⟩ := permitted
    exact sound.close opened found fun _ => ⟨all, gone⟩
  | launched entry place tick =>
    obtain ⟨_, id, job, opened, found, left, due, idle⟩ := permitted
    exact sound.launched opened found left due idle
  | occupied place => exact sound.settle place (by simp)
  | vacated place => exact sound.settle place (by simp)

theorem replay {events : List (JobEvent κ σ)}
    (accepted : ledger.Accepts events) : (ledger.replay events).Sound := by
  induction events generalizing ledger with
  | nil => exact sound
  | cons event events induction =>
    exact induction (sound.apply accepted.1) accepted.2

omit [DecidableEq κ] [DecidableEq σ] in
private theorem closed_ne {entry : κ} {job : Job σ}
    (opened : ledger.entry entry = some id)
    (found : ledger.jobs[key]? = some job) (closed : job.status ≠ .open) :
    key ≠ id := by
  rintro rfl
  obtain ⟨other, otherFound, isOpen⟩ := sound.opened entry key opened
  rw [found, Option.some.injEq] at otherFound
  subst otherFound
  exact closed isOpen

theorem closed_apply (event : JobEvent κ σ) {job : Job σ}
    (found : ledger.jobs[key]? = some job) (closed : job.status ≠ .open) :
    (ledger.apply event).jobs[key]? = some job := by
  have closing : ∀ entry status,
      (ledger.close entry status).jobs[key]? = some job := by
    intro entry status
    unfold Ledger.close
    cases opened : ledger.entry entry with
    | none => exact found
    | some id =>
      exact (modify_other (sound.closed_ne opened found closed)).trans found
  cases event with
  | opened entry interval count tick =>
    have old := (List.getElem?_eq_some_iff.mp found).1
    exact (List.getElem?_append_left old).trans found
  | cancelled entry => exact closing entry .cancelled
  | completed entry => exact closing entry .completed
  | launched entry place tick =>
    simp only [Ledger.apply]
    cases opened : ledger.entry entry with
    | none => exact found
    | some id =>
      exact (modify_other (sound.closed_ne opened found closed)).trans found
  | occupied place => exact found
  | vacated place => exact found

theorem closed_replay {events : List (JobEvent κ σ)}
    (accepted : ledger.Accepts events) {job : Job σ}
    (found : ledger.jobs[key]? = some job) (closed : job.status ≠ .open) :
    (ledger.replay events).jobs[key]? = some job := by
  induction events generalizing ledger with
  | nil => exact found
  | cons event events induction =>
    exact induction (sound.apply accepted.1) accepted.2
      (sound.closed_apply event found closed)

end Sound

end Ledger

end Foundation
