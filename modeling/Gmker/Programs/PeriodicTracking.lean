import Gmker.Foundation.JobLedger
import Gmker.Programs.KernelEffects

/-!
# The periodic table follows a job ledger

Every incarnation of a table entry is one job of the ledger that the history
of the kernel spells out.  `Follows` ties the entry, the slot it watches and
the applications to the job it stands for.
-/

namespace Gmker.Programs

open Foundation Function

variable {index : GmPeriodicIndex} {periodic : GmPeriodic} {kernel : GmKernel}
  {slot : GmSlot} {app : GmAppSlot} {id : Nat}

abbrev GmJobEvent := JobEvent GmPeriodicIndex GmSlot
abbrev GmLedger := Ledger GmPeriodicIndex GmSlot

variable {ledger : GmLedger}

/-- What an event means for the periodic jobs.  A start with periodic id
`i + 1` is a launch by entry `i`, a start with id zero is a manual one. -/
def GmEvent.job? : GmEvent → Option GmJobEvent
  | .scheduled index interval count tick =>
    some (.opened index interval count tick)
  | .cancelled index => some (.cancelled index)
  | .completed index => some (.completed index)
  | .started slot id tick =>
    if within : 0 < id ∧ id ≤ gmPeriodicMax then
      some (.launched ⟨id - 1, by omega⟩ slot tick)
    else some (.occupied slot)
  | .terminated slot _ => some (.vacated slot)
  | _ => none

def jobEvents (history : List GmEvent) : List GmJobEvent :=
  history.filterMap GmEvent.job?

/-- The ledger a history spells out. -/
def gmLedger (history : List GmEvent) : GmLedger :=
  ({} : GmLedger).replay (jobEvents history)

theorem jobEvents_append (first second : List GmEvent) :
    jobEvents (first ++ second) = jobEvents first ++ jobEvents second :=
  List.filterMap_append

theorem job?_started (slot : GmSlot) (index : GmPeriodicIndex) (tick : Nat) :
    GmEvent.job? (.started slot (index.val + 1) tick) =
      some (.launched index slot tick) := by
  have within : 0 < index.val + 1 ∧ index.val + 1 ≤ gmPeriodicMax :=
    ⟨Nat.succ_pos _, index.isLt⟩
  simp only [GmEvent.job?, dif_pos within, Nat.add_sub_cancel]

/-- What a table entry says about the job it stands for. -/
inductive EntryFollows (ledger : GmLedger) (apps : GmSlot → GmAppSlot)
    (index : GmPeriodicIndex) (periodic : GmPeriodic) : Prop where
  | idle (closed : ledger.entry index = none)
      (inactive : periodic.active = false)
  | holds (id : Nat) (job : Job GmSlot)
      (opened : ledger.entry index = some id)
      (found : ledger.jobs[id]? = some job)
      (active : periodic.active = true)
      (interval : periodic.intervalTicks = job.interval)
      (left : job.launches.length + periodic.remaining = job.count)
      (range : job.count < 2 ^ 32)
      (due : job.last + job.interval ≤ periodic.nextTick)
      (pending : gmAppMax ≤ periodic.slot → 0 < periodic.remaining)
      (tracked : ∀ slot, ledger.tenant slot = .worker id →
        periodic.slot = slot.val ∧ (apps slot).periodicId = index.val + 1)
      (attributed : ∀ slot : GmSlot, periodic.slot = slot.val →
        ledger.tenant slot = .worker id ∨ (apps slot).state = .free ∨
          (apps slot).periodicId ≠ index.val + 1)

/-- The kernel state represents the jobs of a ledger. -/
structure Follows (kernel : GmKernel) (ledger : GmLedger) : Prop where
  sound : ledger.Sound
  entries : ∀ index,
    EntryFollows ledger kernel.apps index (kernel.periodics index)
  places : ∀ slot, (kernel.apps slot).state = .free ↔
    ledger.tenant slot = .vacant

theorem Follows.congr {after : GmKernel} (follows : Follows kernel ledger)
    (apps : after.apps = kernel.apps)
    (periodics : after.periodics = kernel.periodics) : Follows after ledger := by
  refine ⟨follows.sound, ?_, ?_⟩
  · rw [apps, periodics]
    exact follows.entries
  · rw [apps]
    exact follows.places

/-- An entry whose job is left alone. -/
theorem EntryFollows.frame {ledger ledger' : GmLedger}
    {apps apps' : GmSlot → GmAppSlot}
    (follows : EntryFollows ledger apps index periodic)
    (entry : ledger'.entry index = ledger.entry index)
    (jobs : ∀ id job, ledger.entry index = some id →
      ledger.jobs[id]? = some job → ledger'.jobs[id]? = some job)
    (workers : ∀ id slot, ledger.entry index = some id →
      ledger'.tenant slot = .worker id → ledger.tenant slot = .worker id ∧
        (apps' slot).periodicId = (apps slot).periodicId)
    (others : ∀ id slot, ledger.entry index = some id →
      ledger.tenant slot = .worker id ∨ (apps slot).state = .free ∨
        (apps slot).periodicId ≠ index.val + 1 →
      ledger'.tenant slot = .worker id ∨ (apps' slot).state = .free ∨
        (apps' slot).periodicId ≠ index.val + 1) :
    EntryFollows ledger' apps' index periodic := by
  cases follows with
  | idle closed inactive => exact .idle (entry.trans closed) inactive
  | holds id job opened found active interval left range due pending tracked
      attributed =>
    refine .holds id job (entry.trans opened) (jobs id job opened found)
      active interval left range due pending ?_ ?_
    · intro slot works
      obtain ⟨worked, samePeriodic⟩ := workers id slot opened works
      obtain ⟨isSlot, marked⟩ := tracked slot worked
      exact ⟨isSlot, samePeriodic.trans marked⟩
    · intro slot isSlot
      exact others id slot opened (attributed slot isSlot)

/-- One step advances the ledger by permitted events. -/
def Advances (before after : GmKernel) (ledger : GmLedger) : Prop :=
  ∃ events, after.history = before.history ++ events ∧
    ledger.Accepts (jobEvents events) ∧
    Follows after (ledger.replay (jobEvents events))

/-! ## Traps -/

private theorem job?_trap {event : GmEvent} {job : GmJobEvent}
    (unlaunched : event.isLaunch = false) (isJob : event.job? = some job) :
    ∃ slot result, event = .terminated slot result ∧ job = .vacated slot := by
  cases event with
  | terminated slot result =>
    exact ⟨slot, result, rfl, (Option.some.inj isJob).symm⟩
  | started | scheduled | cancelled | launchError | completed =>
    simp [GmEvent.isLaunch] at unlaunched
  | acquired | blocked | granted | released | dispatched => cases isJob

private theorem trap_jobs {events : List GmEvent}
    (unlaunched : ∀ event, event ∈ events → event.isLaunch = false) :
    (∀ event, event ∈ jobEvents events → ∃ slot, event = .vacated slot) ∧
      ∀ slot, .vacated slot ∈ jobEvents events ↔
        ∃ result, .terminated slot result ∈ events := by
  constructor
  · intro event member
    obtain ⟨source, inEvents, isJob⟩ := List.mem_filterMap.mp member
    obtain ⟨slot, _, _, same⟩ :=
      job?_trap (unlaunched source inEvents) isJob
    exact ⟨slot, same⟩
  · intro slot
    constructor
    · intro member
      obtain ⟨source, inEvents, isJob⟩ := List.mem_filterMap.mp member
      obtain ⟨other, result, rfl, same⟩ :=
        job?_trap (unlaunched source inEvents) isJob
      obtain rfl := JobEvent.vacated.inj same
      exact ⟨result, inEvents⟩
    · rintro ⟨result, inEvents⟩
      exact List.mem_filterMap.mpr ⟨_, inEvents, rfl⟩

/-- A trap only ever vacates places. -/
theorem TrapEffect.advances {before after : GmKernel} {lines lines' : GmLines}
    {events : List GmEvent}
    (effect : TrapEffect before after lines lines' events)
    (follows : Follows before ledger) : Advances before after ledger := by
  obtain ⟨vacated, vacated_iff⟩ := trap_jobs effect.unlaunched
  obtain ⟨accepted, jobs, entry, tenants⟩ := ledger.replay_vacated vacated
  have kept : ∀ {slot}, (∀ result, .terminated slot result ∉ events) →
      (ledger.replay (jobEvents events)).tenant slot = ledger.tenant slot := by
    intro slot silent
    exact (tenants slot).2 (by simpa [vacated_iff] using silent)
  refine ⟨events, effect.history, accepted,
    follows.sound.replay accepted, ?_, ?_⟩
  · intro index
    rw [effect.periodics]
    refine (follows.entries index).frame (congrFun entry index) ?_ ?_ ?_
    · intro id job _ found
      rw [jobs]
      exact found
    · intro id slot _ works
      cases effect.lives slot with
      | dead _ same silent =>
        rw [kept silent] at works
        rw [same]
        exact ⟨works, rfl⟩
      | alive _ _ periodicId silent =>
        rw [kept silent] at works
        exact ⟨works, periodicId⟩
      | ended _ _ _ result reported =>
        rw [(tenants slot).1 ((vacated_iff slot).mpr ⟨result, reported⟩)]
          at works
        cases works
    · intro id slot _ before
      cases effect.lives slot with
      | dead _ same silent =>
        rw [same, kept silent]
        exact before
      | alive was still periodicId silent =>
        rw [periodicId, kept silent]
        rcases before with works | free | other
        · exact .inl works
        · exact absurd free was
        · exact .inr (.inr other)
      | ended _ now _ _ _ => exact .inr (.inl now)
  · intro slot
    cases effect.lives slot with
    | dead _ same silent =>
      rw [same, kept silent]
      exact follows.places slot
    | alive was still _ silent =>
      rw [kept silent, ← follows.places slot]
      exact iff_of_false still was
    | ended _ now _ result reported =>
      rw [(tenants slot).1 ((vacated_iff slot).mpr ⟨result, reported⟩)]
      exact iff_of_true now rfl

/-! ## Launches and the periodic table -/

/-- A pass over the periodic table: the clock stands still and applications
that are alive are left alone. -/
structure TableEffect (before after : GmKernel) (ledger : GmLedger) :
    Prop where
  advances : Advances before after ledger
  ticks : after.ticks = before.ticks
  kept : ∀ slot, (before.apps slot).state ≠ .free →
    after.apps slot = before.apps slot

theorem Advances.refl (follows : Follows kernel ledger) :
    Advances kernel kernel ledger :=
  ⟨[], (List.append_nil _).symm, trivial, follows⟩

theorem TableEffect.refl (follows : Follows kernel ledger) :
    TableEffect kernel kernel ledger :=
  ⟨.refl follows, rfl, fun _ _ => rfl⟩

/-- A state with the same applications, clock and history, seen from a later
change. -/
theorem TableEffect.of_same {before mid after : GmKernel}
    (effect : TableEffect mid after ledger) (apps : mid.apps = before.apps)
    (ticks : mid.ticks = before.ticks) (history : mid.history = before.history) :
    TableEffect before after ledger := by
  obtain ⟨events, extended, accepted, follows⟩ := effect.advances
  refine ⟨⟨events, ?_, accepted, follows⟩, effect.ticks.trans ticks, ?_⟩
  · rw [extended, history]
  · intro slot alive
    rw [effect.kept slot (by rw [apps]; exact alive), apps]

/-- A start on behalf of somebody else than the given entry. -/
private theorem EntryFollows.start {ledger ledger' : GmLedger}
    {apps : GmSlot → GmAppSlot}
    (follows : EntryFollows ledger apps index periodic) {tenant : Tenant}
    (notOwn : app.periodicId ≠ index.val + 1)
    (entry : ledger'.entry index = ledger.entry index)
    (jobs : ∀ id job, ledger.entry index = some id →
      ledger.jobs[id]? = some job → ledger'.jobs[id]? = some job)
    (tenants : ledger'.tenant = update ledger.tenant slot tenant)
    (notWorker : ∀ id, ledger.entry index = some id → tenant ≠ .worker id) :
    EntryFollows ledger' (update apps slot app) index periodic := by
  refine follows.frame entry jobs ?_ ?_
  · intro id other opened works
    rw [tenants] at works
    by_cases same : other = slot
    · subst other
      rw [update_self] at works
      exact absurd works (notWorker id opened)
    · rw [update_of_ne same] at works ⊢
      exact ⟨works, rfl⟩
  · intro id other opened before
    rw [tenants]
    by_cases same : other = slot
    · subst other
      rw [update_self, update_self]
      exact .inr (.inr notOwn)
    · rw [update_of_ne same, update_of_ne same]
      exact before

private theorem places_start (follows : Follows kernel ledger) {tenant : Tenant}
    (state : app.state = .ready) (present : tenant ≠ .vacant) (other : GmSlot) :
    (update kernel.apps slot app other).state = .free ↔
      update ledger.tenant slot tenant other = .vacant := by
  by_cases same : other = slot
  · subst other
    rw [update_self, update_self]
    exact iff_of_false (by simp [state]) present
  · rw [update_of_ne same, update_of_ne same]
    exact follows.places other

private theorem kept_start (app : GmAppSlot)
    (free : (kernel.apps slot).state = .free) (other : GmSlot)
    (alive : (kernel.apps other).state ≠ .free) :
    update kernel.apps slot app other = kernel.apps other := by
  apply update_of_ne
  rintro rfl
  exact alive free

theorem StartEffect.manual {started : GmStartResult × GmKernel}
    (follows : Follows kernel ledger) (effect : StartEffect kernel 0 started) :
    TableEffect kernel started.2 ledger := by
  cases effect with
  | busy => exact .refl follows
  | error after apps _ periodics ticks history =>
    exact ⟨⟨[], by simp [history], trivial, follows.congr apps periodics⟩,
      ticks, fun slot _ => congrFun apps slot⟩
  | ok slot app after free _ _ state id apps _ periodics ticks history =>
    have vacant := (follows.places slot).mp free
    have manual : jobEvents [.started slot 0 kernel.ticks] =
        [.occupied slot] := rfl
    refine ⟨⟨_, history, ?_, ?_⟩, ticks, ?_⟩
    · rw [manual]
      exact ⟨vacant, trivial⟩
    · rw [manual]
      refine ⟨follows.sound.settle slot (by simp), ?_, ?_⟩
      · intro index
        rw [apps, periodics]
        refine (follows.entries index).start ?_ rfl (fun _ _ _ found => found)
          rfl ?_
        · rw [id]
          exact (Nat.succ_ne_zero _).symm
        · intro key _ isWorker
          cases isWorker
      · rw [apps]
        exact places_start follows state (by simp)
    · rw [apps]
      exact kept_start app free

/-- Entries other than the one whose job changes. -/
private theorem jobs_other (sound : ledger.Sound)
    {index other : GmPeriodicIndex} (different : other ≠ index)
    (opened : ledger.entry index = some id) {change : Job GmSlot → Job GmSlot}
    (key : Nat) (job : Job GmSlot) (held : ledger.entry other = some key)
    (found : ledger.jobs[key]? = some job) :
    (ledger.jobs.modify id change)[key]? = some job := by
  have distinct : id ≠ key := by
    rintro rfl
    exact different (sound.separate other index id held opened)
  rw [List.getElem?_modify, found]
  simp [distinct]

/-- A change of one table entry that records nothing. -/
private theorem Follows.setPeriodic (follows : Follows kernel ledger)
    (entry : EntryFollows ledger kernel.apps index periodic) :
    Follows (kernel.setPeriodic index periodic) ledger := by
  refine ⟨follows.sound, ?_, follows.places⟩
  intro other
  by_cases same : other = index
  · subst other
    simpa [GmKernel.setPeriodic] using entry
  · simpa [GmKernel.setPeriodic, same] using follows.entries other

/-- Closing the job of an entry, by completion or by cancellation. -/
private theorem Follows.close (follows : Follows kernel ledger)
    (opened : ledger.entry index = some id) {status : JobStatus}
    (sound : (ledger.close index status).Sound)
    (inactive : periodic.active = false) {event : GmEvent} :
    Follows ((kernel.setPeriodic index periodic).record event)
      (ledger.close index status) := by
  rw [Ledger.close_opened opened] at sound ⊢
  refine ⟨sound, ?_, follows.places⟩
  intro other
  by_cases same : other = index
  · subst other
    simp only [GmKernel.record, GmKernel.setPeriodic, update_self]
    exact .idle (update_self ..) inactive
  · simp only [GmKernel.record, GmKernel.setPeriodic,
      update_of_ne same]
    exact (follows.entries other).frame (update_of_ne same ..)
      (jobs_other follows.sound same opened)
      (fun _ _ _ works => ⟨works, rfl⟩) (fun _ _ _ before => before)

private theorem EntryFollows.launch {apps : GmSlot → GmAppSlot}
    {job : Job GmSlot} (now : Nat) (opened : ledger.entry index = some id)
    (found : ledger.jobs[id]? = some job) (active : periodic.active = true)
    (interval : periodic.intervalTicks = job.interval)
    (left : job.launches.length + periodic.remaining = job.count)
    (range : job.count < 2 ^ 32) (some_left : 0 < periodic.remaining)
    (idle : ∀ other, ledger.tenant other ≠ .worker id)
    (mark : app.periodicId = index.val + 1) :
    EntryFollows (ledger.apply (.launched index slot now))
      (update apps slot app) index
      { periodic with
        slot := slot.val
        remaining := (periodic.remaining + (2 ^ 32 - 1)) % 2 ^ 32
        nextTick := now + periodic.intervalTicks } := by
  have lowered : (periodic.remaining + (2 ^ 32 - 1)) % 2 ^ 32 =
      periodic.remaining - 1 := by
    omega
  rw [Ledger.apply_launched opened, lowered]
  refine .holds id (job.launch now slot) opened ?_ active interval ?_ range
    ?_ ?_ ?_ ?_
  · simp only [List.getElem?_modify, found]
    simp
  · simp only [Job.launch_launches, Job.launch_count, List.length_append,
      List.length_cons, List.length_nil]
    omega
  · simp [interval]
  · intro beyond
    exact absurd slot.isLt (Nat.not_lt.mpr beyond)
  · intro place works
    by_cases isSlot : place = slot
    · subst place
      rw [update_self]
      exact ⟨rfl, mark⟩
    · simp only [update_of_ne isSlot] at works
      exact absurd works (idle place)
  · intro place isPlace
    obtain rfl : slot = place := Fin.ext isPlace
    exact .inl (update_self ..)

/-- The launch of an entry that watches no slot. -/
theorem gmPeriodicLaunch_effect (follows : Follows kernel ledger)
    (load : List UInt8 → Option Nat) (index : GmPeriodicIndex)
    (active : (kernel.periodics index).active = true)
    (unwatched : gmAppMax ≤ (kernel.periodics index).slot) :
    TableEffect kernel (gmPeriodicLaunch kernel.ticks load index kernel)
      ledger := by
  unfold gmPeriodicLaunch
  simp only
  split
  · exact .refl follows
  rename_i reached
  have start := gmProgramStartPath_effect load (kernel.periodics index).name
    (some (kernel.periodics index).args) (index.val + 1) kernel
  generalize gmProgramStartPath load (kernel.periodics index).name
    (some (kernel.periodics index).args) (index.val + 1) kernel = started
    at start ⊢
  cases follows.entries index with
  | idle _ inactive => simp [active] at inactive
  | holds id job opened found _ interval left range due pending tracked
      attributed =>
    have idle : ∀ slot, ledger.tenant slot ≠ .worker id := by
      intro slot works
      have watched := (tracked slot works).1
      have bound := slot.isLt
      omega
    have some_left := pending unwatched
    cases start with
    | busy => exact .refl follows
    | error after apps _ periodics ticks history =>
      let postponed := { kernel.periodics index with
        nextTick := kernel.ticks + (kernel.periodics index).intervalTicks }
      have entry : EntryFollows ledger after.apps index postponed := by
        rw [apps]
        refine .holds id job opened found active interval left range ?_
          pending tracked attributed
        simp only [postponed, interval]
        omega
      have changed := (follows.congr apps periodics).setPeriodic entry
      refine ⟨⟨[.launchError index], by simp [GmKernel.record,
        GmKernel.setPeriodic, history], trivial, ?_⟩, ticks, ?_⟩
      · exact ⟨changed.sound, changed.entries, changed.places⟩
      · intro slot _
        exact congrFun apps slot
    | ok slot app after free _ _ state mark apps _ periodics ticks history =>
      have launch : jobEvents
          [.started slot (index.val + 1) kernel.ticks] =
          [.launched index slot kernel.ticks] := by
        simp [jobEvents, job?_started]
      have permitted :
          ledger.Permits (.launched index slot kernel.ticks) :=
        ⟨(follows.places slot).mp free, id, job, opened, found, by omega,
          by omega, idle⟩
      refine ⟨⟨_, history, ?_, ?_⟩, ticks, ?_⟩
      · rw [launch]
        exact ⟨permitted, trivial⟩
      · rw [launch, Ledger.replay_cons, Ledger.replay_nil]
        refine ⟨follows.sound.apply permitted, ?_, ?_⟩
        · intro other
          by_cases same : other = index
          · subst other
            simp only [GmKernel.setPeriodic, update_self, apps]
            exact EntryFollows.launch kernel.ticks opened found active
              interval left range some_left idle mark
          · simp only [GmKernel.setPeriodic, update_of_ne same,
              apps, periodics, Ledger.apply_launched opened]
            refine (follows.entries other).start ?_ rfl
              (jobs_other follows.sound same opened) rfl ?_
            · rw [mark]
              intro equal
              exact same (Fin.ext (Nat.succ.inj equal)).symm
            · intro key held isWorker
              cases isWorker
              exact same (follows.sound.separate other index id held opened)
        · simp only [GmKernel.setPeriodic, apps,
            Ledger.apply_launched opened]
          exact places_start follows state (by simp)
      · simp only [GmKernel.setPeriodic, apps]
        exact kept_start app free

/-- An entry whose application is gone watches a slot without a worker. -/
private theorem no_worker (follows : Follows kernel ledger)
    (tracked : ∀ slot, ledger.tenant slot = .worker id →
      (kernel.periodics index).slot = slot.val ∧
        (kernel.apps slot).periodicId = index.val + 1)
    (gone : gmPeriodicBusy index kernel = false) (slot : GmSlot) :
    ledger.tenant slot ≠ .worker id := by
  intro works
  obtain ⟨watched, marked⟩ := tracked slot works
  have alive : (kernel.apps slot).state ≠ .free := by
    rw [ne_eq, follows.places slot, works]
    simp
  have busy : gmPeriodicBusy index kernel = true := by
    simp [gmPeriodicBusy, watched, marked, alive]
  rw [gone] at busy
  cases busy

theorem gmPeriodicPollEntry_effect (follows : Follows kernel ledger)
    (load : List UInt8 → Option Nat) (index : GmPeriodicIndex) :
    TableEffect kernel (gmPeriodicPollEntry kernel.ticks load index kernel)
      ledger := by
  unfold gmPeriodicPollEntry
  simp only
  split
  · exact .refl follows
  rename_i isActive
  have active : (kernel.periodics index).active = true := by simpa using isActive
  split
  · split
    · exact .refl follows
    rename_i notBusy
    have gone : gmPeriodicBusy index kernel = false := by simpa using notBusy
    cases follows.entries index with
    | idle _ inactive => simp [active] at inactive
    | holds id job opened found _ interval left range due pending tracked
        attributed =>
      have idle := no_worker follows tracked gone
      split
      · rename_i finished
        have all : job.launches.length = job.count := by omega
        have permitted : ledger.Permits (.completed index) :=
          ⟨id, job, opened, found, all, idle⟩
        refine ⟨⟨[.completed index], rfl, ⟨permitted, trivial⟩, ?_⟩, rfl,
          fun _ _ => rfl⟩
        exact follows.close opened (follows.sound.apply permitted) rfl
      · rename_i unfinished
        have cleared : Follows (kernel.setPeriodic index
            { kernel.periodics index with slot := gmAppMax }) ledger := by
          refine follows.setPeriodic ?_
          refine .holds id job opened found active interval left range due
            ?_ ?_ ?_
          · intro _
            simp only
            omega
          · intro slot works
            exact absurd works (idle slot)
          · intro slot isSlot
            have bound := slot.isLt
            simp only at isSlot
            omega
        have launch := gmPeriodicLaunch_effect cleared load index
          (by simpa [GmKernel.setPeriodic] using active)
          (by simp [GmKernel.setPeriodic])
        exact launch.of_same rfl rfl rfl
  · rename_i unwatched
    exact gmPeriodicLaunch_effect follows load index active
      (Nat.not_lt.mp unwatched)

theorem TableEffect.trans {first second third : GmKernel}
    (left : TableEffect first second ledger)
    (right : ∀ ledger', Follows second ledger' →
      TableEffect second third ledger') : TableEffect first third ledger := by
  obtain ⟨early, leftHistory, leftAccepted, middle⟩ := left.advances
  have last := right _ middle
  obtain ⟨late, rightHistory, rightAccepted, follows⟩ := last.advances
  refine ⟨⟨early ++ late, ?_, ?_, ?_⟩, last.ticks.trans left.ticks, ?_⟩
  · rw [rightHistory, leftHistory, List.append_assoc]
  · rw [jobEvents_append, Ledger.accepts_append]
    exact ⟨leftAccepted, rightAccepted⟩
  · rw [jobEvents_append, Ledger.replay_append]
    exact follows
  · intro slot alive
    have kept := left.kept slot alive
    rw [last.kept slot (by rw [kept]; exact alive), kept]

theorem gmPeriodicPoll_effect (follows : Follows kernel ledger)
    (load : GmPeriodicIndex → List UInt8 → Option Nat) :
    TableEffect kernel (gmPeriodicPoll load kernel) ledger := by
  unfold gmPeriodicPoll
  generalize now : kernel.ticks = tick
  generalize List.finRange gmPeriodicMax = indices
  -- No entry moves the clock, so the tick read before the loop stays current.
  induction indices generalizing kernel ledger with
  | nil => exact .refl follows
  | cons index rest induction =>
    have first := gmPeriodicPollEntry_effect follows (load index) index
    rw [now] at first
    refine first.trans ?_
    intro ledger' middle
    exact induction middle (first.ticks.trans now)

theorem gmPeriodicCancel_effect (follows : Follows kernel ledger) (id : Nat) :
    TableEffect kernel (gmPeriodicCancel id kernel).2 ledger := by
  unfold gmPeriodicCancel
  split
  · rename_i within
    simp only
    split
    · rename_i active
      cases follows.entries ⟨id, within⟩ with
      | idle _ inactive => simp [active] at inactive
      | holds key job opened found =>
        have permitted : ledger.Permits (.cancelled ⟨id, within⟩) :=
          ⟨key, opened⟩
        refine ⟨⟨[.cancelled ⟨id, within⟩], rfl, ⟨permitted, trivial⟩, ?_⟩,
          rfl, fun _ _ => rfl⟩
        exact follows.close opened (follows.sound.apply permitted) rfl
    · exact .refl follows
  · exact .refl follows

theorem gmPeriodicAdd_effect (follows : Follows kernel ledger)
    (seconds count : Nat) (range : count < 2 ^ 32) (name : List UInt8)
    (args : Option (List UInt8)) :
    TableEffect kernel (gmPeriodicAdd seconds count name args kernel).2
      ledger := by
  fun_cases gmPeriodicAdd seconds count name args kernel
  case case6 positive path isPath short index found interval now fits =>
    have inactive : (kernel.periodics index).active = false := by
      simpa using List.find?_some found
    have closed : ledger.entry index = none := by
      cases follows.entries index with
      | idle closed _ => exact closed
      | holds _ _ _ _ active => simp [inactive] at active
    have counted : 0 < count := by omega
    have permitted :
        ledger.Permits (.opened index interval count now) := ⟨closed, counted⟩
    refine ⟨⟨[.scheduled index interval count now], rfl,
      ⟨permitted, trivial⟩, ?_⟩, rfl, fun _ _ => rfl⟩
    refine ⟨follows.sound.apply permitted, ?_, follows.places⟩
    intro other
    by_cases same : other = index
    · subst other
      simp only [GmKernel.record, GmKernel.setPeriodic, update_self]
      refine .holds ledger.jobs.length
        { interval := interval, count := count, added := now }
        (update_self ..) List.getElem?_concat_length rfl rfl
        (Nat.zero_add count) range (Nat.le_refl _) (fun _ => counted) ?_ ?_
      · intro slot works
        exact absurd (follows.sound.worker slot _ works) (Nat.lt_irrefl _)
      · intro slot isSlot
        exact absurd slot.isLt (Nat.not_lt.mpr (Nat.le_of_eq isSlot))
    · simp only [GmKernel.record, GmKernel.setPeriodic,
        update_of_ne same]
      refine (follows.entries other).frame (update_of_ne same ..) ?_
        (fun _ _ _ works => ⟨works, rfl⟩) (fun _ _ _ before => before)
      intro key job _ old
      have below := (List.getElem?_eq_some_iff.mp old).1
      exact (List.getElem?_append_left below).trans old
  all_goals exact .refl follows

end Gmker.Programs
