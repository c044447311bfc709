import Gmker.Programs.Kernel
import Gmker.Programs.ResourceEffects

/-!
# What one kernel step can do

The case analysis over all entries into the kernel is made once, here.  A step
never fails, changes the waiting lines by at most one move, and moves every
slot along its life cycle.
-/

namespace Gmker.Programs

open Foundation Function

variable {events : List GmEvent} {slot : GmSlot}
  {before after kernel : GmKernel} {lines lines' : GmLines}

/-- The events that concern a resource. -/
def GmEvent.resource? : GmEvent → Option GmResourceIndex
  | .acquired _ index _ | .blocked _ index | .granted _ index _
  | .released _ index _ => some index
  | _ => none

/-- The events of program starts and of the periodic table. -/
def GmEvent.isLaunch : GmEvent → Bool
  | .started .. | .scheduled .. | .cancelled _ | .launchError _
  | .completed _ => true
  | _ => false

/-- One step's effect on the waiting lines, with the events it records. -/
inductive Move (before after : GmKernel) (lines : GmLines) :
    GmLines → List GmEvent → Prop where
  | quiet (events : List GmEvent)
      (silent : ∀ event, event ∈ events → event.resource? = none) :
      Move before after lines lines events
  | acquire (slot : GmSlot) (index : GmResourceIndex) (tick : Nat)
      (free : lines index = []) (absent : ∀ other, slot ∉ lines other) :
      Move before after lines (lines.join index slot)
        [.acquired slot index tick]
  | block (slot : GmSlot) (index : GmResourceIndex) (front : GmSlot)
      (rest : List GmSlot) (line : lines index = front :: rest)
      (absent : ∀ other, slot ∉ lines other) :
      Move before after lines (lines.join index slot) [.blocked slot index]
  | release (slot : GmSlot) (index : GmResourceIndex) (rest : List GmSlot)
      (tick : Nat) (line : lines index = slot :: rest)
      (handed : ∀ next, rest.head? = some next →
        after.apps next = handedApp index (before.apps next))
      (trailing : List GmEvent)
      (silent : ∀ event, event ∈ trailing → event.resource? = none) :
      Move before after lines (lines.leave index)
        (releaseEvents index slot rest.head? tick ++ trailing)

/-- A slot's life across a step that launches nothing. -/
inductive LifeStep (events : List GmEvent) (slot : GmSlot)
    (before after : GmAppSlot) : Prop where
  | dead (was : before.state = .free) (same : after = before)
      (silent : ∀ result, .terminated slot result ∉ events)
  | alive (was : before.state ≠ .free) (still : after.state ≠ .free)
      (periodicId : after.periodicId = before.periodicId)
      (silent : ∀ result, .terminated slot result ∉ events)
  | ended (was : before.state ≠ .free) (now : after.state = .free)
      (periodicId : after.periodicId = before.periodicId) (result : Int)
      (reported : .terminated slot result ∈ events)

theorem LifeStep.refl (app : GmAppSlot)
    (silent : ∀ result, .terminated slot result ∉ events) :
    LifeStep events slot app app := by
  by_cases free : app.state = .free
  · exact .dead free rfl silent
  · exact .alive free free rfl silent

private theorem update_lives {before : GmSlot → GmAppSlot} {app : GmAppSlot}
    (was : (before slot).state ≠ .free) (now : app.state ≠ .free)
    (periodicId : app.periodicId = (before slot).periodicId) (other : GmSlot)
    (silent : ∀ result, .terminated other result ∉ events) :
    LifeStep events other (before other) (update before slot app other) := by
  by_cases same : other = slot
  · subst other
    rw [update_self]
    exact .alive was now periodicId silent
  · rw [update_of_ne same]
    exact .refl _ silent

/-- The effect of a trap or a dispatch. -/
structure TrapEffect (before after : GmKernel) (lines lines' : GmLines)
    (events : List GmEvent) : Prop where
  tracks : Tracks after lines'
  history : after.history = before.history ++ events
  move : Move before after lines lines' events
  lives : ∀ slot, LifeStep events slot (before.apps slot) (after.apps slot)
  periodics : after.periodics = before.periodics
  unlaunched : ∀ event, event ∈ events → event.isLaunch = false

/-- Nothing but the clock and the address space changes. -/
theorem TrapEffect.idle (tracks : Tracks before lines)
    (apps : after.apps = before.apps)
    (resources : after.resources = before.resources)
    (history : after.history = before.history)
    (periodics : after.periodics = before.periodics) :
    TrapEffect before after lines lines [] where
  tracks := tracks.of_eq apps resources
  history := by simp [history]
  move := .quiet [] (by simp)
  lives slot := by
    rw [apps]
    exact .refl _ (by simp)
  periodics := periodics
  unlaunched := by simp

/-- Only a slot that was handed a resource matters to a move. -/
theorem Move.keep {other : GmKernel}
    (move : Move before after lines lines' events)
    (same : ∀ next index,
      after.apps next = handedApp index (before.apps next) →
        other.apps next = after.apps next) :
    Move before other lines lines' events := by
  cases move with
  | quiet _ silent => exact .quiet _ silent
  | acquire slot index tick free absent =>
    exact .acquire slot index tick free absent
  | block slot index front rest line absent =>
    exact .block slot index front rest line absent
  | release slot index rest tick line handed trailing silent =>
    refine .release slot index rest tick line ?_ trailing silent
    intro next isNext
    have received := handed next isNext
    exact (same next index received).trans received

/-- Only slots, resources, the periodic table and the history matter. -/
theorem TrapEffect.after_eq {before after other : GmKernel}
    (effect : TrapEffect before after lines lines' events)
    (apps : other.apps = after.apps)
    (resources : other.resources = after.resources)
    (history : other.history = after.history)
    (periodics : other.periodics = after.periodics) :
    TrapEffect before other lines lines' events where
  tracks := effect.tracks.of_eq apps resources
  history := history.trans effect.history
  move := effect.move.keep fun _ _ _ => by rw [apps]
  lives slot := by
    rw [apps]
    exact effect.lives slot
  periodics := periodics.trans effect.periodics
  unlaunched := effect.unlaunched

/-- A running application goes back to READY with a new saved frame. -/
theorem TrapEffect.switch (tracks : Tracks before lines) (slot : GmSlot)
    (app : GmAppSlot) (events : List GmEvent)
    (was : (before.apps slot).state = .ready ∨
      (before.apps slot).state = .running)
    (now : app.state = .ready ∨ app.state = .running)
    (owned : app.ownedResource = (before.apps slot).ownedResource)
    (waiting : app.waitingResource = (before.apps slot).waitingResource)
    (periodicId : app.periodicId = (before.apps slot).periodicId)
    (apps : after.apps = update before.apps slot app)
    (resources : after.resources = before.resources)
    (history : after.history = before.history ++ events)
    (quiet : events = [] ∨ events = [.dispatched slot])
    (periodics : after.periodics = before.periodics) :
    TrapEffect before after lines lines events where
  tracks := by
    have tracked := tracks.setApp
      ((tracks.apps slot).activity owned waiting was now)
    exact tracked.of_eq apps resources
  history := history
  move := by
    apply Move.quiet
    intro event member
    rcases quiet with rfl | rfl
    · cases member
    · obtain rfl := List.mem_singleton.mp member
      rfl
  lives other := by
    have silent : ∀ result, .terminated other result ∉ events := by
      rcases quiet with rfl | rfl <;> simp
    rw [apps]
    refine update_lives ?_ ?_ periodicId other silent
    · rcases was with state | state <;> simp [state]
    · rcases now with state | state <;> simp [state]
  periodics := periodics
  unlaunched := by
    rcases quiet with rfl | rfl <;> simp [GmEvent.isLaunch]

private theorem releaseEvents_facts (index : GmResourceIndex) (owner : GmSlot)
    (next : Option GmSlot) (tick : Nat) :
    (∀ slot result,
        .terminated slot result ∉ releaseEvents index owner next tick) ∧
      ∀ event, event ∈ releaseEvents index owner next tick →
        event.isLaunch = false := by
  cases next <;> simp [releaseEvents, GmEvent.isLaunch]

private theorem releasedApps_life {apps : GmSlot → GmAppSlot}
    (index : GmResourceIndex) {owner : GmSlot} {next : Option GmSlot}
    (active : (apps owner).state ≠ .free)
    (blocked : ∀ slot, next = some slot → (apps slot).state = .blocked)
    (slot : GmSlot) (events : List GmEvent)
    (silent : ∀ result, .terminated slot result ∉ events) :
    LifeStep events slot (apps slot)
      (releasedApps apps index owner next slot) := by
  have without : LifeStep events slot (apps slot) (update apps owner
      { apps owner with ownedResource := gmResourceNone } slot) := by
    apply update_lives active
    · exact active
    · rfl
    · exact silent
  cases next with
  | none => exact without
  | some heir =>
    by_cases isHeir : slot = heir
    · subst slot
      have state := blocked heir rfl
      simp only [releasedApps, update_self]
      exact .alive (by simp [state]) (by simp [handedApp]) rfl silent
    · simp only [releasedApps, update_of_ne isHeir]
      exact without

private theorem releasedApps_owner {apps : GmSlot → GmAppSlot}
    (index : GmResourceIndex) {owner : GmSlot} {next : Option GmSlot}
    (others : ∀ slot, next = some slot → slot ≠ owner) :
    releasedApps apps index owner next owner =
      { apps owner with ownedResource := gmResourceNone } := by
  cases next with
  | none => simp [releasedApps]
  | some heir => simp [releasedApps, (others heir rfl).symm]

/-- The owner of a resource and the next in line. -/
private theorem line_states (tracks : Tracks kernel lines)
    {index : GmResourceIndex} {owner : GmSlot} {rest : List GmSlot}
    (line : lines index = owner :: rest) :
    ∀ next, rest.head? = some next →
      next ≠ owner ∧ (kernel.apps next).state = .blocked := by
  intro next isNext
  cases rest with
  | nil => cases isNext
  | cons front later =>
    obtain rfl : front = next := by simpa using isNext
    obtain ⟨distinct, blocked, _, _⟩ := tracks.next_in_line line
    exact ⟨distinct, blocked⟩

/-- The state a terminating slot is in just before it is freed. -/
private theorem freed_tracks (tracks : Tracks kernel lines) (app : GmAppSlot)
    (absent : ∀ index, slot ∉ lines index)
    (owned : app.ownedResource = gmResourceNone)
    (waiting : app.waitingResource = gmResourceNone) (state : app.state = .free) :
    Tracks (kernel.setApp slot app) lines := by
  apply tracks.setApp
  exact .idle absent owned waiting (by simp [state])

/-- Ending an application never fails.  `before` is the state at the trap and
`kernel` the state the termination path starts from. -/
theorem terminateApp_effect (before : GmKernel) (tracks : Tracks kernel lines)
    (result : Int)
    (active : (kernel.apps slot).state = .ready ∨
      (kernel.apps slot).state = .running)
    (was : (before.apps slot).state ≠ .free)
    (periodicId : (kernel.apps slot).periodicId = (before.apps slot).periodicId)
    (others : ∀ other, other ≠ slot → kernel.apps other = before.apps other)
    (history : kernel.history = before.history)
    (periodics : kernel.periodics = before.periodics) :
    ∃ after lines' events, terminateApp slot result kernel = .ok after ∧
      TrapEffect before after lines lines' events := by
  let marked := kernel.setApp slot { kernel.apps slot with result := result }
  have markedTracks : Tracks marked lines :=
    tracks.setApp ((tracks.apps slot).congr rfl rfl rfl)
  have markedSlot : marked.apps slot =
      { kernel.apps slot with result := result } := by
    simp [marked, GmKernel.setApp]
  have markedOther : ∀ other, other ≠ slot →
      marked.apps other = before.apps other := by
    intro other different
    rw [← others other different]
    simp [marked, GmKernel.setApp, different]
  have notFree : (kernel.apps slot).state ≠ .free := by
    rcases active with state | state <;> simp [state]
  unfold terminateApp
  cases tracked : tracks.apps slot with
  | waiter _ _ _ _ _ _ _ state =>
    rcases active with now | now <;> simp [now] at state
  | idle absent owned waiting _ =>
    have reclaimed : gmResourceReclaim slot marked = .ok marked := by
      simp [gmResourceReclaim, markedSlot, owned]
    refine ⟨_, lines, [.terminated slot result], by
      simp only [marked] at reclaimed
      rw [reclaimed], ?_⟩
    constructor
    · refine (freed_tracks markedTracks
        { marked.apps slot with state := .free } absent ?_ ?_ rfl).of_eq
        rfl rfl
      · simpa [markedSlot] using owned
      · simpa [markedSlot] using waiting
    · simp [GmKernel.record, GmKernel.setApp, history]
    · exact .quiet _ (by simp [GmEvent.resource?])
    · intro other
      by_cases same : other = slot
      · subst other
        refine .ended was ?_ ?_ result (by simp)
        · simp [GmKernel.record, GmKernel.setApp]
        · simpa [GmKernel.record, GmKernel.setApp] using periodicId
      · have unchanged := markedOther other same
        simp only [GmKernel.record, GmKernel.setApp,
          update_of_ne same] at unchanged ⊢
        rw [others other same]
        exact .refl _ (by simp [same])
    · exact periodics
    · simp [GmEvent.isLaunch]
  | owner index rest line owned waiting _ =>
    have markedOwned : (marked.apps slot).ownedResource = resourceId index := by
      simpa [markedSlot] using owned
    obtain ⟨after, released, effect⟩ :=
      gmResourceReleaseApp_owner markedTracks line markedOwned
    have reclaimed : gmResourceReclaim slot marked = .ok after := by
      simp [gmResourceReclaim, markedOwned, released]
    have heirs := line_states markedTracks line
    have slotAfter : after.apps slot =
        { marked.apps slot with ownedResource := gmResourceNone } := by
      rw [effect.apps]
      exact releasedApps_owner index fun next isNext => (heirs next isNext).1
    refine ⟨_, lines.leave index,
      releaseEvents index slot rest.head? marked.ticks ++
        [.terminated slot result], by
      simp only [marked] at reclaimed
      rw [reclaimed], ?_⟩
    constructor
    · refine (freed_tracks effect.tracks
        { after.apps slot with state := .free }
        (markedTracks.wellFormed.not_mem_leave line) ?_ ?_ rfl).of_eq
        rfl rfl
      · simp [slotAfter]
      · simpa [slotAfter, markedSlot] using waiting
    · simp only [GmKernel.record, GmKernel.setApp, effect.history,
        List.append_assoc]
      congr 1
    · refine .release slot index rest _ line ?_ [.terminated slot result]
        (by simp [GmEvent.resource?])
      intro next isNext
      obtain ⟨distinct, _⟩ := heirs next isNext
      simp only [GmKernel.record, GmKernel.setApp,
        update_of_ne distinct, effect.apps, isNext, releasedApps,
        update_self]
      rw [markedOther next distinct]
    · intro other
      obtain ⟨silent, _⟩ :=
        releaseEvents_facts index slot rest.head? marked.ticks
      by_cases same : other = slot
      · subst other
        refine .ended was ?_ ?_ result (by simp)
        · simp [GmKernel.record, GmKernel.setApp]
        · simpa [GmKernel.record, GmKernel.setApp, slotAfter, markedSlot]
            using periodicId
      · have markedActive : (marked.apps slot).state ≠ .free := by
          simpa [markedSlot] using notFree
        have life := releasedApps_life index markedActive
          (fun next isNext => (heirs next isNext).2) other
          (releaseEvents index slot rest.head? marked.ticks ++
            [.terminated slot result])
          (by
            intro value member
            rcases List.mem_append.mp member with inRelease | isLast
            · exact silent other value inRelease
            · simp [same] at isLast)
        rw [markedOther other same] at life
        simpa [GmKernel.record, GmKernel.setApp, same, effect.apps] using life
    · exact effect.loop.periodics.trans periodics
    · intro event member
      rcases List.mem_append.mp member with inRelease | isLast
      · exact (releaseEvents_facts index slot rest.head? _).2 event inRelease
      · obtain rfl := List.mem_singleton.mp isLast
        rfl

/-! ## Traps and dispatches -/

theorem gmProgramSchedule_effect (tracks : Tracks before lines) :
    ∃ events, TrapEffect before (gmProgramSchedule before).2 lines lines
      events := by
  unfold gmProgramSchedule
  cases found : gmNextReady before with
  | none => exact ⟨[], .idle tracks rfl rfl rfl rfl⟩
  | some slot =>
    have ready : (before.apps slot).state = .ready := by
      simpa using List.find?_some found
    refine ⟨[.dispatched slot], ?_⟩
    exact .switch tracks slot { before.apps slot with state := .running }
      [.dispatched slot] (.inl ready) (.inr rfl) rfl rfl rfl rfl rfl rfl
      (.inr rfl) rfl

theorem gmProgramYield_effect (tracks : Tracks before lines)
    (frame : GmServiceFrame)
    (running : (before.apps before.current).state = .running) :
    TrapEffect before (gmProgramYield frame before) lines lines [] :=
  .switch tracks before.current
    { before.apps before.current with context := frame, state := .ready } []
    (.inr running) (.inl rfl) rfl rfl rfl rfl rfl
    (List.append_nil _).symm (.inl rfl) rfl

theorem gmProgramFinish_effect (tracks : Tracks before lines) (result : Int)
    (running : (before.apps slot).state = .running) :
    ∃ after lines' events, gmProgramFinish slot result before = .ok after ∧
      TrapEffect before after lines lines' events := by
  obtain ⟨after, lines', events, ended, effect⟩ :=
    terminateApp_effect before tracks result (.inr running)
      (by simp [running]) rfl (fun _ _ => rfl) rfl rfl
  refine ⟨gmProgramKernel after, lines', events, ?_, ?_⟩
  · simp [gmProgramFinish, ended]
  · exact effect.after_eq rfl rfl rfl rfl

/-- Yielding after another effect of the same service. -/
theorem TrapEffect.yield {before mid : GmKernel}
    (effect : TrapEffect before mid lines lines' events)
    (frame : GmServiceFrame) (running : (mid.apps mid.current).state = .running) :
    TrapEffect before (gmProgramYield frame mid) lines lines' events := by
  have yielded := gmProgramYield_effect effect.tracks frame running
  have other : ∀ slot, slot ≠ mid.current →
      (gmProgramYield frame mid).apps slot = mid.apps slot := by
    intro slot different
    simp [gmProgramYield, gmProgramKernel, GmKernel.setApp, different]
  constructor
  · exact yielded.tracks
  · simpa using yielded.history.trans (congrArg (· ++ []) effect.history)
  · refine effect.move.keep fun next index received => other next ?_
    rintro rfl
    rw [received] at running
    simp [handedApp] at running
  · intro slot
    by_cases same : slot = mid.current
    · subst slot
      have now : ((gmProgramYield frame mid).apps mid.current).state ≠ .free := by
        simp [gmProgramYield, gmProgramKernel, GmKernel.setApp]
      have kept : ((gmProgramYield frame mid).apps mid.current).periodicId =
          (mid.apps mid.current).periodicId := by
        simp [gmProgramYield, gmProgramKernel, GmKernel.setApp]
      cases effect.lives mid.current with
      | dead was unchanged _ =>
        rw [unchanged] at running
        simp [running] at was
      | alive was _ periodicId silent =>
        exact .alive was now (kept.trans periodicId) silent
      | ended _ free _ _ _ => simp [running] at free
    · rw [other slot same]
      exact effect.lives slot
  · exact effect.periodics
  · exact effect.unlaunched

/-- The acquire service, up to the yield that follows an answer. -/
theorem AcquireEffect.trap {frame : GmServiceFrame} {outcome : GmAcquireOutcome}
    (tracks : Tracks before lines)
    (running : (before.apps slot).state = .running)
    (effect : AcquireEffect before after lines slot frame outcome) :
    ∃ lines' events, TrapEffect before after lines lines' events ∧
      (outcome ≠ .blocked → (after.apps slot).state = .running) ∧
      after.current = before.current := by
  have notFree : (before.apps slot).state ≠ .free := by simp [running]
  cases effect with
  | refused same =>
    subst same
    exact ⟨lines, [], .idle tracks rfl rfl rfl rfl, fun _ => running, rfl⟩
  | taken index free absent tracked apps history loop =>
    refine ⟨_, _, ⟨tracked, history, .acquire slot index _ free absent,
      ?_, loop.periodics, by simp [GmEvent.isLaunch]⟩, ?_, loop.current⟩
    · intro other
      rw [apps]
      apply update_lives notFree
      · exact notFree
      · rfl
      · simp
    · intro _
      rw [apps, update_self]
      exact running
  | queued index front rest line absent tracked apps history loop =>
    refine ⟨_, _, ⟨tracked, history, .block slot index front rest line absent,
      ?_, loop.periodics, by simp [GmEvent.isLaunch]⟩, ?_, loop.current⟩
    · intro other
      rw [apps]
      apply update_lives notFree
      · simp
      · rfl
      · simp
    · intro unblocked
      exact absurd rfl unblocked

/-- The release service, up to the yield that follows it. -/
theorem gmResourceReleaseApp_trap (tracks : Tracks before lines)
    (resource : Nat) (running : (before.apps slot).state = .running) :
    ∃ released after lines' events,
      gmResourceReleaseApp slot resource before = .ok (released, after) ∧
      TrapEffect before after lines lines' events ∧
      (after.apps slot).state = .running ∧ after.current = before.current := by
  by_cases owns : ∃ index, resource = resourceId index ∧
      (before.apps slot).ownedResource = resource
  · obtain ⟨index, rfl, owned⟩ := owns
    obtain ⟨rest, line⟩ := (tracks.apps slot).line_of_owned owned
    obtain ⟨after, released, effect⟩ :=
      gmResourceReleaseApp_owner tracks line owned
    have heirs := line_states tracks line
    obtain ⟨silent, unlaunched⟩ :=
      releaseEvents_facts index slot rest.head? before.ticks
    have current : after.apps slot =
        { before.apps slot with ownedResource := gmResourceNone } := by
      rw [effect.apps]
      exact releasedApps_owner index fun next isNext => (heirs next isNext).1
    refine ⟨true, after, lines.leave index, _, released,
      ⟨effect.tracks, effect.history, ?_, ?_, effect.loop.periodics,
        unlaunched⟩, ?_, effect.loop.current⟩
    · have move : Move before after lines (lines.leave index)
          (releaseEvents index slot rest.head? before.ticks ++ []) := by
        refine .release slot index rest before.ticks line ?_ [] (by simp)
        intro next isNext
        simp [effect.apps, isNext, releasedApps]
      simpa using move
    · intro other
      rw [effect.apps]
      exact releasedApps_life index (by simp [running])
        (fun next isNext => (heirs next isNext).2) other _
        (fun result => silent other result)
    · rw [current]
      exact running
  · have refused : gmResourceReleaseApp slot resource before =
        .ok (false, before) := by
      apply gmResourceReleaseApp_refused
      intro index isIndex owned
      exact owns ⟨index, isIndex, owned⟩
    exact ⟨false, before, lines, [], refused,
      .idle tracks rfl rfl rfl rfl, running, rfl⟩

end Gmker.Programs
