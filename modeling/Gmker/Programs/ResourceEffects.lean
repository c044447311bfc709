import Gmker.Programs.OwnershipTracking

/-!
# What acquire and release do to the lines

Each operation of the resource manager, started in a state that tracks some
waiting lines, succeeds and has exactly the effect described here.  Later
invariants cite these lemmas and never unfold the operations again.
-/

namespace Gmker.Programs

open Foundation Function

variable {kernel : GmKernel} {lines : GmLines} {index : GmResourceIndex}
  {rest : List GmSlot}

/-- The application that receives a resource by handoff. -/
def handedApp (index : GmResourceIndex) (app : GmAppSlot) : GmAppSlot :=
  { app with
    waitingResource := gmResourceNone
    ownedResource := resourceId index
    context := { app.context with rax := 1 }
    state := .ready }

/-- The slots after the owner of a resource gave it up: the owner loses it and
the next in line, if any, receives it. -/
def releasedApps (apps : GmSlot → GmAppSlot) (index : GmResourceIndex)
    (owner : GmSlot) (next : Option GmSlot) : GmSlot → GmAppSlot :=
  let without := update apps owner
    { apps owner with ownedResource := gmResourceNone }
  match next with
  | none => without
  | some slot => update without slot (handedApp index (apps slot))

/-- The events of one release. -/
def releaseEvents (index : GmResourceIndex) (owner : GmSlot)
    (next : Option GmSlot) (tick : Nat) : List GmEvent :=
  .released owner index tick ::
    (next.map fun slot => GmEvent.granted slot index tick).toList

/-- The parts of the kernel that no resource operation touches. -/
structure SameLoop (before after : GmKernel) : Prop where
  ticks : after.ticks = before.ticks
  current : after.current = before.current
  periodics : after.periodics = before.periodics
  programNext : after.programNext = before.programNext

/-- The effect of releasing a resource whose line is `owner :: rest`. -/
structure ReleaseEffect (before after : GmKernel) (lines : GmLines)
    (index : GmResourceIndex) (owner : GmSlot) (rest : List GmSlot) :
    Prop where
  tracks : Tracks after (lines.leave index)
  apps : after.apps = releasedApps before.apps index owner rest.head?
  history : after.history =
    before.history ++ releaseEvents index owner rest.head? before.ticks
  loop : SameLoop before after

/-- The oldest waiter is blocked on the resource and owns nothing. -/
theorem Tracks.next_in_line (tracks : Tracks kernel lines) {owner next : GmSlot}
    (line : lines index = owner :: next :: rest) :
    next ≠ owner ∧ (kernel.apps next).state = .blocked ∧
      (kernel.apps next).waitingResource = resourceId index ∧
      (kernel.apps next).ownedResource = gmResourceNone := by
  have member : next ∈ lines index := by simp [line]
  have different : next ≠ owner := by
    have nodup := tracks.wellFormed.nodup index
    rw [line] at nodup
    intro same
    subst same
    simp at nodup
  refine ⟨different, ?_⟩
  cases tracks.apps next with
  | idle absent _ _ _ => exact absurd member (absent index)
  | owner other rest' line' _ _ _ =>
    have same : index = other :=
      tracks.wellFormed.single member (by simp [line'])
    subst other
    rw [line] at line'
    exact absurd (List.cons.inj line').1.symm different
  | waiter other front rest' line' inRest owned waiting state =>
    have same : index = other :=
      tracks.wellFormed.single member (by simp [line', inRest])
    subst other
    exact ⟨state, waiting, owned⟩

private theorem releasedApps_tracks (tracks : Tracks kernel lines)
    {owner : GmSlot} (line : lines index = owner :: rest) (slot : GmSlot) :
    SlotTracks (lines.leave index) slot
      (releasedApps kernel.apps index owner rest.head? slot) := by
  have ownerFields : (kernel.apps owner).waitingResource = gmResourceNone ∧
      (kernel.apps owner).state ≠ .blocked := by
    have member : owner ∈ lines index := by simp [line]
    cases tracks.apps owner with
    | idle absent _ _ _ => exact absurd member (absent index)
    | owner _ _ _ _ waiting state =>
      refine ⟨waiting, ?_⟩
      rcases state with now | now <;> simp [now]
    | waiter other front rest' line' inRest _ _ _ =>
      have same : index = other :=
        tracks.wellFormed.single member (by simp [line', inRest])
      subst other
      rw [line] at line'
      obtain ⟨rfl, rfl⟩ := List.cons.inj line'
      exact absurd inRest
        (List.nodup_cons.mp (line ▸ tracks.wellFormed.nodup index)).1
  have ownerIdle : SlotTracks (lines.leave index) owner
      { kernel.apps owner with ownedResource := gmResourceNone } :=
    .idle (tracks.wellFormed.not_mem_leave line) rfl ownerFields.1
      ownerFields.2
  cases rest with
  | nil =>
    by_cases isOwner : slot = owner
    · subst slot
      simpa [releasedApps] using ownerIdle
    · simpa [releasedApps, isOwner] using
        (tracks.apps slot).leave line isOwner (by simp)
  | cons next later =>
    have distinct := (tracks.next_in_line line).1
    by_cases isNext : slot = next
    · subst slot
      simp only [List.head?_cons, releasedApps, update_self]
      exact .owner index later (by simp [line]) rfl rfl (.inl rfl)
    · by_cases isOwner : slot = owner
      · subst slot
        simpa [releasedApps, isNext] using ownerIdle
      · simpa [releasedApps, isNext, isOwner] using
          (tracks.apps slot).leave line isOwner (by simpa using Ne.symm isNext)

/-- The owner of a resource always succeeds in releasing it. -/
theorem gmResourceReleaseApp_owner (tracks : Tracks kernel lines)
    {slot : GmSlot} (line : lines index = slot :: rest)
    (owned : (kernel.apps slot).ownedResource = resourceId index) :
    ∃ after, gmResourceReleaseApp slot (resourceId index) kernel =
        .ok (true, after) ∧
      ReleaseEffect kernel after lines index slot rest := by
  have resource := tracks.resources index
  have isOwner : (kernel.resources index).owner = slot.val + 1 :=
    (resource.owner_iff slot).mpr ⟨rest, line⟩
  have found := gmResourceGet_resourceId index
  have same := gmResourceAccount_sameQueues index kernel.ticks kernel
  have accounted := (tracks.of_same same).resources index
  generalize accountedEq :
    gmResourceAccount index kernel.ticks kernel = charged at same accounted
  rw [line] at accounted
  simp only [gmResourceReleaseApp, found, owned, isOwner, ne_eq,
    not_true_eq_false, or_self, if_false, accountedEq]
  cases rest with
  | nil =>
    have empty : (charged.resources index).waitLen = 0 := by
      simpa using accounted.waitLen_eq
    refine ⟨_, by simp [gmResourceGrantNext, GmKernel.record,
      GmKernel.setApp, GmKernel.setResource, empty]; rfl, ?_⟩
    constructor
    · refine ⟨tracks.wellFormed.leave index, ?_, ?_⟩
      · intro other
        by_cases sameIndex : other = index
        · subst other
          simp only [update_self, Lines.leave_self, line,
            List.tail_cons]
          exact ⟨rfl, by simp [GmResource.waiters], accounted.waitHead⟩
        · simpa [sameIndex] using (tracks.of_same same).resources other
      · intro other
        simp only [same.apps]
        exact releasedApps_tracks tracks line other
    · simp [same.apps, releasedApps]
    · simp [same.history, releaseEvents]
    · exact ⟨same.ticks, same.current, same.periodics, same.programNext⟩
  | cons next later =>
    obtain ⟨distinct, blocked, waiting, unowned⟩ := tracks.next_in_line line
    obtain ⟨busy, oldest⟩ := accounted.oldest
    have within : (charged.resources index).wait
        (charged.resources index).waitHead < gmAppMax := by
      rw [oldest]
      exact next.isLt
    refine ⟨_, by
      simp [gmResourceGrantNext, GmKernel.record, GmKernel.setApp,
        GmKernel.setResource, busy, oldest, same.apps, distinct, blocked,
        waiting, unowned]
      rfl, ?_⟩
    constructor
    · refine ⟨tracks.wellFormed.leave index, ?_, ?_⟩
      · intro other
        by_cases sameIndex : other = index
        · subst other
          simp only [update_self, Lines.leave_self, line,
            List.tail_cons]
          exact accounted.dequeue rfl rfl rfl rfl
        · simpa [sameIndex] using (tracks.of_same same).resources other
      · intro other
        exact releasedApps_tracks tracks line other
    · rfl
    · simp [same.history, releaseEvents]
    · exact ⟨same.ticks, same.current, same.periodics, same.programNext⟩

/-- Releasing what one does not own changes nothing. -/
theorem gmResourceReleaseApp_refused {slot : GmSlot} {resource : Nat}
    (unowned : ∀ index, resource = resourceId index →
      (kernel.apps slot).ownedResource ≠ resource) :
    gmResourceReleaseApp slot resource kernel = .ok (false, kernel) := by
  unfold gmResourceReleaseApp
  cases found : gmResourceGet resource with
  | none => rfl
  | some index =>
    have refused := unowned index (gmResourceGet_eq_some.mp found)
    simp [refused]

/-- `gm_resource_owned` answers whether the slot heads the line. -/
theorem gmResourceOwned_tracks (tracks : Tracks kernel lines) (slot : GmSlot)
    (index : GmResourceIndex) :
    (∃ rest, lines index = slot :: rest) ∧
        (kernel.apps slot).ownedResource = resourceId index ∧
        (kernel.resources index).owner = slot.val + 1 ∧
        gmResourceOwned slot (resourceId index) kernel = .ok true ∨
      gmResourceOwned slot (resourceId index) kernel = .ok false := by
  have found := gmResourceGet_resourceId index
  by_cases owned : (kernel.apps slot).ownedResource = resourceId index
  · left
    obtain ⟨rest, line⟩ := (tracks.apps slot).line_of_owned owned
    have isOwner := ((tracks.resources index).owner_iff slot).mpr ⟨rest, line⟩
    refine ⟨⟨rest, line⟩, owned, isOwner, ?_⟩
    simp [gmResourceOwned, found, owned, isOwner]
  · right
    simp [gmResourceOwned, found, owned]

/-- The three ways an acquire ends. -/
inductive AcquireEffect (before after : GmKernel) (lines : GmLines)
    (slot : GmSlot) (frame : GmServiceFrame) : GmAcquireOutcome → Prop where
  | refused (same : after = before) :
      AcquireEffect before after lines slot frame (.answered 0)
  | taken (index : GmResourceIndex) (free : lines index = [])
      (absent : ∀ other, slot ∉ lines other)
      (tracks : Tracks after (lines.join index slot))
      (apps : after.apps = update before.apps slot
        { before.apps slot with ownedResource := resourceId index })
      (history : after.history =
        before.history ++ [.acquired slot index before.ticks])
      (loop : SameLoop before after) :
      AcquireEffect before after lines slot frame (.answered 1)
  | queued (index : GmResourceIndex) (front : GmSlot) (rest : List GmSlot)
      (line : lines index = front :: rest)
      (absent : ∀ other, slot ∉ lines other)
      (tracks : Tracks after (lines.join index slot))
      (apps : after.apps = update before.apps slot
        { before.apps slot with
          context := frame
          waitingResource := resourceId index
          state := .blocked })
      (history : after.history = before.history ++ [.blocked slot index])
      (loop : SameLoop before after) :
      AcquireEffect before after lines slot frame .blocked

/-- A line that a newcomer may still join has room in the wait queue. -/
private theorem room_of_absent (tracks : Tracks kernel lines)
    {slot front : GmSlot} (line : lines index = front :: rest)
    (absent : ∀ other, slot ∉ lines other) :
    (kernel.resources index).waitLen < gmAppMax := by
  have longer := (tracks.wellFormed.join index absent).length_le index
  have len := (tracks.resources index).waitLen_eq
  simp only [Lines.join_self, line, List.length_append, List.length_cons,
    List.length_nil, Fintype.card_fin] at longer
  simp only [line, List.tail_cons] at len
  omega

theorem gmResourceAcquireService_running (tracks : Tracks kernel lines)
    (slot : GmSlot) (resource : Nat) (frame : GmServiceFrame)
    (running : (kernel.apps slot).state = .running) :
    ∃ outcome after,
      gmResourceAcquireService slot resource frame kernel =
        .ok (outcome, after) ∧
      AcquireEffect kernel after lines slot frame outcome := by
  unfold gmResourceAcquireService
  cases found : gmResourceGet resource with
  | none => exact ⟨_, _, rfl, .refused rfl⟩
  | some index =>
    obtain rfl := gmResourceGet_eq_some.mp found
    by_cases engaged : (kernel.apps slot).ownedResource ≠ gmResourceNone ∨
        (kernel.apps slot).waitingResource ≠ gmResourceNone
    · exact ⟨_, _, by simp only [if_pos engaged], .refused rfl⟩
    · simp only [if_neg engaged]
      simp only [ne_eq, not_or, Decidable.not_not] at engaged
      obtain ⟨unowned, notWaiting⟩ := engaged
      have absent := (tracks.apps slot).absent unowned notWaiting
      have joined := tracks.wellFormed.join index absent
      have others : ∀ other, other ≠ slot →
          SlotTracks (lines.join index slot) other (kernel.apps other) :=
        fun other different => (tracks.apps other).join different index
      have otherLines : ∀ other, other ≠ index →
          lines.join index slot other = lines other :=
        fun other different => Lines.join_other _ _ different
      cases line : lines index with
      | nil =>
        have resource := tracks.resources index
        rw [line] at resource
        have free := resource.of_empty.1
        refine ⟨_, _, by rw [if_pos free], ?_⟩
        refine .taken index line absent ?_ rfl rfl ⟨rfl, rfl, rfl, rfl⟩
        refine (tracks.change joined otherLines ?_ ?_ others).of_eq rfl rfl
        · rw [Lines.join_self, line]
          exact ⟨rfl, resource.waiters, resource.waitHead⟩
        · exact .owner index [] (by simp [line]) rfl notWaiting
            (.inr running)
      | cons front rest =>
        have resource := tracks.resources index
        have busy : (kernel.resources index).owner ≠ 0 := by
          rw [ne_eq, resource.owner_eq_zero, line]
          exact List.cons_ne_nil front rest
        have room := room_of_absent tracks line absent
        rw [line] at resource
        obtain ⟨queued, enqueued, tracked⟩ := resource.enqueue slot room
        refine ⟨_, _, by rw [if_neg busy, enqueued], ?_⟩
        refine .queued index front rest line absent ?_ rfl rfl
          ⟨rfl, rfl, rfl, rfl⟩
        refine (tracks.change joined otherLines ?_ ?_ others).of_eq rfl rfl
        · rw [Lines.join_self, line]
          exact tracked
        · exact .waiter index front (rest ++ [slot]) (by simp [line])
            (by simp) unowned rfl rfl

end Gmker.Programs
