import Gmker.Foundation.WaitingLines
import Gmker.Programs.ResourceManager

/-!
# The resource manager refines waiting lines

`Tracks` ties the three places where ownership is stored (the owner of each
resource, the fields of each slot and the circular wait queues) to one waiting
line for each resource.  Acquire joins a line, release leaves it, and nothing
else changes the lines.
-/

namespace Gmker.Programs

open Foundation

variable {resource : GmResource} {line rest : List GmSlot} {slot : GmSlot}
  {app : GmAppSlot} {index : GmResourceIndex}

abbrev GmLines := Lines GmResourceIndex GmSlot

variable {lines : GmLines}

/-- What a slot's fields say about its place in the lines. -/
inductive SlotTracks (lines : GmLines) (slot : GmSlot) (app : GmAppSlot) :
    Prop where
  | idle (absent : ∀ index, slot ∉ lines index)
      (owned : app.ownedResource = gmResourceNone)
      (waiting : app.waitingResource = gmResourceNone)
      (state : app.state ≠ .blocked)
  | owner (index : GmResourceIndex) (rest : List GmSlot)
      (line : lines index = slot :: rest)
      (owned : app.ownedResource = resourceId index)
      (waiting : app.waitingResource = gmResourceNone)
      (state : app.state = .ready ∨ app.state = .running)
  | waiter (index : GmResourceIndex) (front : GmSlot) (rest : List GmSlot)
      (line : lines index = front :: rest) (member : slot ∈ rest)
      (owned : app.ownedResource = gmResourceNone)
      (waiting : app.waitingResource = resourceId index)
      (state : app.state = .blocked)

/-- What a resource's fields say about its line. -/
structure ResourceTracks (line : List GmSlot) (resource : GmResource) :
    Prop where
  owner : resource.owner = (line.head?.map fun slot => slot.val + 1).getD 0
  waiters : resource.waiters = line.tail.map Fin.val
  waitHead : resource.waitHead < gmAppMax

/-- The kernel state represents the given waiting lines. -/
structure Tracks (kernel : GmKernel) (lines : GmLines) : Prop where
  wellFormed : lines.WellFormed
  resources : ∀ index, ResourceTracks (lines index) (kernel.resources index)
  apps : ∀ slot, SlotTracks lines slot (kernel.apps slot)

theorem ResourceTracks.of_empty (tracks : ResourceTracks [] resource) :
    resource.owner = 0 ∧ resource.waitLen = 0 := by
  refine ⟨by simpa using tracks.owner, ?_⟩
  apply ringContents_eq_nil.mp
  simpa [GmResource.waiters] using tracks.waiters

theorem ResourceTracks.owner_iff (tracks : ResourceTracks line resource)
    (slot : GmSlot) :
    resource.owner = slot.val + 1 ↔ ∃ rest, line = slot :: rest := by
  rw [tracks.owner]
  cases line with
  | nil => simp
  | cons front rest => simp [Fin.ext_iff]

theorem ResourceTracks.owner_eq_zero (tracks : ResourceTracks line resource) :
    resource.owner = 0 ↔ line = [] := by
  rw [tracks.owner]
  cases line <;> simp

theorem ResourceTracks.waitLen_eq (tracks : ResourceTracks line resource) :
    resource.waitLen = line.tail.length := by
  have lengths := congrArg List.length tracks.waiters
  simpa only [GmResource.waiters, ringContents_length, List.length_map]
    using lengths

/-- Enqueueing a slot behind a non-empty line. -/
theorem ResourceTracks.enqueue {front : GmSlot} (slot : GmSlot)
    (tracks : ResourceTracks (front :: rest) resource)
    (room : resource.waitLen < gmAppMax) :
    ∃ queued, gmResourceWait slot resource = some queued ∧
      ResourceTracks (front :: rest ++ [slot]) queued := by
  refine ⟨_, if_neg (Nat.not_le.mpr room), ?_⟩
  constructor
  · simpa using tracks.owner
  · have pushed := ringContents_push gmAppMax resource.wait
      resource.waitHead resource.waitLen slot.val room
    have before := tracks.waiters
    simp only [GmResource.waiters, List.tail_cons] at before
    simp only [GmResource.waiters, pushed, before]
    simp
  · exact tracks.waitHead

theorem ResourceTracks.oldest {front next : GmSlot}
    (tracks : ResourceTracks (front :: next :: rest) resource) :
    resource.waitLen ≠ 0 ∧ resource.wait resource.waitHead = next.val := by
  have len : resource.waitLen = rest.length + 1 := by
    simpa using tracks.waitLen_eq
  refine ⟨by omega, ?_⟩
  have waiters := tracks.waiters
  rw [GmResource.waiters, len, ringContents_succ,
    Nat.mod_eq_of_lt tracks.waitHead] at waiters
  exact (List.cons.inj waiters).1

theorem ResourceTracks.dequeue {front next : GmSlot}
    {resource handed : GmResource}
    (tracks : ResourceTracks (front :: next :: rest) resource)
    (owner : handed.owner = next.val + 1) (wait : handed.wait = resource.wait)
    (waitHead : handed.waitHead = (resource.waitHead + 1) % gmAppMax)
    (waitLen : handed.waitLen = resource.waitLen - 1) :
    ResourceTracks (next :: rest) handed := by
  have len : resource.waitLen = rest.length + 1 := by
    simpa using tracks.waitLen_eq
  have waiters := tracks.waiters
  rw [GmResource.waiters, len, ringContents_succ] at waiters
  constructor
  · simpa using owner
  · have shorter : resource.waitLen - 1 = rest.length := by omega
    rw [GmResource.waiters, wait, waitHead, waitLen, shorter]
    exact (List.cons.inj waiters).2
  · rw [waitHead]
    exact Nat.mod_lt _ (by decide)

namespace SlotTracks

/-- A change of the fields that the tracking does not read. -/
theorem congr {before after : GmAppSlot} (tracks : SlotTracks lines slot before)
    (owned : after.ownedResource = before.ownedResource)
    (waiting : after.waitingResource = before.waitingResource)
    (state : after.state = before.state) : SlotTracks lines slot after := by
  cases tracks with
  | idle absent owned' waiting' state' =>
    exact .idle absent (owned.trans owned') (waiting.trans waiting')
      (state ▸ state')
  | owner index rest line owned' waiting' state' =>
    exact .owner index rest line (owned.trans owned')
      (waiting.trans waiting') (state ▸ state')
  | waiter index front rest line member owned' waiting' state' =>
    exact .waiter index front rest line member (owned.trans owned')
      (waiting.trans waiting') (state.trans state')

theorem activity {before after : GmAppSlot}
    (tracks : SlotTracks lines slot before)
    (owned : after.ownedResource = before.ownedResource)
    (waiting : after.waitingResource = before.waitingResource)
    (was : before.state = .ready ∨ before.state = .running)
    (state : after.state = .ready ∨ after.state = .running) :
    SlotTracks lines slot after := by
  have notBlocked : after.state ≠ .blocked := by
    rcases state with now | now <;> simp [now]
  cases tracks with
  | idle absent owned' waiting' _ =>
    exact .idle absent (owned.trans owned') (waiting.trans waiting')
      notBlocked
  | owner index rest line owned' waiting' _ =>
    exact .owner index rest line (owned.trans owned')
      (waiting.trans waiting') state
  | waiter index front rest line member owned' waiting' state' =>
    rcases was with now | now <;> simp [now] at state'

variable (tracks : SlotTracks lines slot app)

include tracks

/-- A slot that neither owns nor waits stands in no line. -/
theorem absent (owned : app.ownedResource = gmResourceNone)
    (waiting : app.waitingResource = gmResourceNone) :
    ∀ index, slot ∉ lines index := by
  cases tracks with
  | idle absent _ _ _ => exact absent
  | owner index rest line owned' _ _ =>
    exact absurd (owned'.symm.trans owned) (resourceId_ne_none index)
  | waiter index front rest line member _ waiting' _ =>
    exact absurd (waiting'.symm.trans waiting) (resourceId_ne_none index)

theorem free_idle (state : app.state = .free) :
    (∀ index, slot ∉ lines index) ∧ app.ownedResource = gmResourceNone ∧
      app.waitingResource = gmResourceNone := by
  cases tracks with
  | idle absent owned waiting _ => exact ⟨absent, owned, waiting⟩
  | owner index rest line _ _ state' =>
    rcases state' with now | now <;> simp [state] at now
  | waiter index front rest line member _ _ state' => simp [state] at state'

/-- Only the owner of a resource stores its identifier as owned. -/
theorem line_of_owned (owned : app.ownedResource = resourceId index) :
    ∃ rest, lines index = slot :: rest := by
  cases tracks with
  | idle _ owned' _ _ =>
    exact absurd (owned.symm.trans owned') (resourceId_ne_none index)
  | owner other rest line owned' _ _ =>
    have same : index = other := resourceId_inj.mp (owned.symm.trans owned')
    subst other
    exact ⟨rest, line⟩
  | waiter _ _ _ _ _ owned' _ _ =>
    exact absurd (owned.symm.trans owned') (resourceId_ne_none index)

/-- Somebody else joining a line does not move a slot. -/
theorem join {other : GmSlot} (different : slot ≠ other)
    (index : GmResourceIndex) :
    SlotTracks (lines.join index other) slot app := by
  have extended : ∀ target front rest, lines target = front :: rest →
      ∃ longer, lines.join index other target = front :: longer ∧
        ∀ member, member ∈ rest → member ∈ longer := by
    intro target front rest line
    by_cases same : target = index
    · subst target
      refine ⟨rest ++ [other], by simp [line], ?_⟩
      intro member inRest
      exact List.mem_append_left _ inRest
    · exact ⟨rest, by simp [same, line], fun _ inRest => inRest⟩
  cases tracks with
  | idle absent owned waiting state =>
    refine .idle ?_ owned waiting state
    intro target member
    rcases Lines.mem_join.mp member with old | ⟨_, isOther⟩
    · exact absent target old
    · exact different isOther
  | owner target rest line owned waiting state =>
    obtain ⟨longer, line', _⟩ := extended target slot rest line
    exact .owner target longer line' owned waiting state
  | waiter target front rest line member owned waiting state =>
    obtain ⟨longer, line', keeps⟩ := extended target front rest line
    exact .waiter target front longer line' (keeps slot member) owned
      waiting state

/-- The owner leaving moves only the owner and the next in line. -/
theorem leave {owner : GmSlot} (line : lines index = owner :: rest)
    (notOwner : slot ≠ owner) (notNext : rest.head? ≠ some slot) :
    SlotTracks (lines.leave index) slot app := by
  cases tracks with
  | idle absent owned waiting state =>
    exact .idle (fun target member =>
      absent target (Lines.mem_of_mem_leave member)) owned waiting state
  | owner target rest' line' owned waiting state =>
    have other : target ≠ index := by
      rintro rfl
      rw [line] at line'
      exact notOwner (List.cons.inj line').1.symm
    exact .owner target rest' (by rw [Lines.leave_other _ other, line'])
      owned waiting state
  | waiter target front rest' line' member owned waiting state =>
    by_cases same : target = index
    · subst target
      rw [line] at line'
      obtain ⟨rfl, rfl⟩ := List.cons.inj line'
      cases rest with
      | nil => cases member
      | cons next later =>
        have inLater : slot ∈ later := by
          rcases List.mem_cons.mp member with isNext | inLater
          · subst isNext
            simp at notNext
          · exact inLater
        exact .waiter index next later (by simp [line]) inLater owned
          waiting state
    · exact .waiter target front rest'
        (by rw [Lines.leave_other _ same, line']) member owned waiting state

end SlotTracks

namespace Tracks

/-- Only slots and queues are tracked. -/
theorem of_same {before after : GmKernel} (tracks : Tracks before lines)
    (same : SameQueues before after) : Tracks after lines := by
  refine ⟨tracks.wellFormed, ?_, ?_⟩
  · intro index
    have resource := tracks.resources index
    exact ⟨by rw [same.owner, resource.owner],
      by rw [same.waiters, resource.waiters],
      by rw [same.waitHead]; exact resource.waitHead⟩
  · intro slot
    rw [same.apps]
    exact tracks.apps slot

theorem of_eq {before after : GmKernel} (tracks : Tracks before lines)
    (apps : after.apps = before.apps)
    (resources : after.resources = before.resources) : Tracks after lines := by
  refine ⟨tracks.wellFormed, ?_, ?_⟩
  · rw [resources]
    exact tracks.resources
  · rw [apps]
    exact tracks.apps

theorem setApp {kernel : GmKernel} (tracks : Tracks kernel lines)
    (tracksApp : SlotTracks lines slot app) :
    Tracks (kernel.setApp slot app) lines := by
  refine ⟨tracks.wellFormed, tracks.resources, ?_⟩
  intro other
  by_cases same : other = slot
  · subst other
    simpa [GmKernel.setApp] using tracksApp
  · simpa [GmKernel.setApp, same] using tracks.apps other

/-- One resource and one slot change together with the lines. -/
theorem change {kernel : GmKernel} {lines changed : GmLines}
    (tracks : Tracks kernel lines) (valid : changed.WellFormed)
    (otherLines : ∀ other, other ≠ index → changed other = lines other)
    (tracksResource : ResourceTracks (changed index) resource)
    (tracksApp : SlotTracks changed slot app)
    (others : ∀ other, other ≠ slot →
      SlotTracks changed other (kernel.apps other)) :
    Tracks ((kernel.setResource index resource).setApp slot app) changed := by
  refine ⟨valid, ?_, ?_⟩
  · intro other
    by_cases same : other = index
    · subst other
      simpa [GmKernel.setResource, GmKernel.setApp] using tracksResource
    · simpa [GmKernel.setResource, GmKernel.setApp, same, otherLines other same]
        using tracks.resources other
  · intro other
    by_cases same : other = slot
    · subst other
      simpa [GmKernel.setResource, GmKernel.setApp] using tracksApp
    · simpa [GmKernel.setResource, GmKernel.setApp, same] using others other same

end Tracks

end Gmker.Programs
