import Gmker.Programs.Slots

/-!
# The resource manager

Acquire, release and direct handoff of the exclusive resources, with the
hold accounting of every release.  The accounting never touches ownership or
the wait queues, which is what `SameQueues` records.
-/

namespace Gmker.Programs

open Function

/-- `gm_resource_owned`: the caller holds the resource.  The panic guards the
agreement of the slot with the resource table. -/
def gmResourceOwned (slot : GmSlot) (resource : Nat) (kernel : GmKernel) :
    Except GmPanic Bool :=
  match gmResourceGet resource with
  | none => .ok false
  | some index =>
    if (kernel.apps slot).ownedResource ≠ resource then .ok false
    else if (kernel.resources index).owner ≠ slot.val + 1 then
      .error .resourceOwner
    else .ok true

/-- `gm_resource_bucket`: recycle the bucket of an epoch for both resources
when it still belongs to an older epoch. -/
def gmResourceBucket (epoch : Nat) (kernel : GmKernel) : GmKernel :=
  let bucket := epoch % gmResourceBuckets
  if kernel.resourceEpochs bucket = epoch + 1 then kernel
  else
    { kernel with
      resourceEpochs := update kernel.resourceEpochs bucket (epoch + 1)
      resources := fun index =>
        { kernel.resources index with
          recent := update (kernel.resources index).recent bucket 0 } }

/-- The bucket loop of `gm_resource_account`.  Every turn advances `start`, so
`fuel` turns are enough as soon as `now - start ≤ fuel`. -/
def gmResourceAccountLoop (index : GmResourceIndex) (now : Nat) :
    Nat → Nat → GmKernel → GmKernel
  | 0, _, kernel => kernel
  | fuel + 1, start, kernel =>
    if start < now then
      let epoch := start / gmResourceBucketTicks
      let bucket := epoch % gmResourceBuckets
      let kernel := gmResourceBucket epoch kernel
      let resource := kernel.resources index
      let finish := min ((epoch + 1) * gmResourceBucketTicks) now
      gmResourceAccountLoop index now fuel finish
        (kernel.setResource index
          { resource with
            recent := update resource.recent bucket
              ((resource.recent bucket + (finish - start) % 2 ^ 32) %
                2 ^ 32) })
    else kernel

/-- `gm_resource_account`: charge the hold that ends now. -/
def gmResourceAccount (index : GmResourceIndex) (now : Nat)
    (kernel : GmKernel) : GmKernel :=
  let resource := kernel.resources index
  let start := resource.acquiredTick
  if now < start then kernel
  else
    let hold := now - start
    let kernel := kernel.setResource index
      { resource with
        totalTicks := resource.totalTicks + hold
        maxHold := if resource.maxHold < hold then hold else resource.maxHold }
    let start :=
      if gmResourceWindowTicks < hold then now - gmResourceWindowTicks
      else start
    gmResourceAccountLoop index now (now - start) start kernel

/-- `gm_resource_wait`: enqueue a slot, unless the queue is full. -/
def gmResourceWait (slot : GmSlot) (resource : GmResource) :
    Option GmResource :=
  if gmAppMax ≤ resource.waitLen then none
  else
    let tail := (resource.waitHead + resource.waitLen) % gmAppMax
    some { resource with
      wait := update resource.wait tail slot.val
      waitLen := resource.waitLen + 1 }

/-- `gm_resource_grant_next`: hand the resource to the oldest waiter. -/
def gmResourceGrantNext (index : GmResourceIndex) (now : Nat)
    (kernel : GmKernel) : Except GmPanic GmKernel :=
  let resource := kernel.resources index
  if resource.waitLen = 0 then .ok kernel
  else
    let slot := resource.wait resource.waitHead
    if within : slot < gmAppMax then
      let app := kernel.apps ⟨slot, within⟩
      if app.state ≠ .blocked ∨ app.waitingResource ≠ resourceId index ∨
          app.ownedResource ≠ gmResourceNone then
        .error .resourceWaitState
      else
        .ok (((kernel.setResource index
            { resource with
              waitHead := (resource.waitHead + 1) % gmAppMax
              waitLen := resource.waitLen - 1
              owner := slot + 1
              acquiredTick := now
              acquisitions := resource.acquisitions + 1 }).setApp ⟨slot, within⟩
            { app with
              waitingResource := gmResourceNone
              ownedResource := resourceId index
              context := { app.context with rax := 1 }
              state := .ready }).record (.granted ⟨slot, within⟩ index now))
    else .error .resourceWaiter

/-- `gm_resource_release_app`.  The flag is the function's return value. -/
def gmResourceReleaseApp (slot : GmSlot) (resource : Nat)
    (kernel : GmKernel) : Except GmPanic (Bool × GmKernel) :=
  match gmResourceGet resource with
  | none => .ok (false, kernel)
  | some index =>
    if (kernel.apps slot).ownedResource ≠ resource ∨
        (kernel.resources index).owner ≠ slot.val + 1 then
      .ok (false, kernel)
    else
      let now := kernel.ticks
      let kernel := gmResourceAccount index now kernel
      let kernel := kernel.setResource index
        { kernel.resources index with owner := 0 }
      let kernel := kernel.setApp slot
        { kernel.apps slot with ownedResource := gmResourceNone }
      let kernel := kernel.record (.released slot index now)
      match gmResourceGrantNext index now kernel with
      | .error panic => .error panic
      | .ok kernel => .ok (true, kernel)

/-- `gm_resource_reclaim`: release whatever a terminating slot still owns. -/
def gmResourceReclaim (slot : GmSlot) (kernel : GmKernel) :
    Except GmPanic GmKernel :=
  let resource := (kernel.apps slot).ownedResource
  if resource = gmResourceNone then .ok kernel
  else
    match gmResourceReleaseApp slot resource kernel with
    | .error panic => .error panic
    | .ok (released, kernel) =>
      if released then .ok kernel else .error .resourceReclaim

/-- The outcome of `gm_resource_acquire_service`: either the service goes on
with the value put into `frame->rax`, or the caller is blocked. -/
inductive GmAcquireOutcome where
  | answered (rax : UInt64)
  | blocked
  deriving DecidableEq, Repr

/-- `gm_resource_acquire_service`. -/
def gmResourceAcquireService (slot : GmSlot) (resource : Nat)
    (frame : GmServiceFrame) (kernel : GmKernel) :
    Except GmPanic (GmAcquireOutcome × GmKernel) :=
  let app := kernel.apps slot
  match gmResourceGet resource with
  | none => .ok (.answered 0, kernel)
  | some index =>
    if app.ownedResource ≠ gmResourceNone ∨
        app.waitingResource ≠ gmResourceNone then
      .ok (.answered 0, kernel)
    else
      let entry := kernel.resources index
      if entry.owner = 0 then
        .ok (.answered 1,
          ((kernel.setResource index
            { entry with
              owner := slot.val + 1
              acquiredTick := kernel.ticks
              acquisitions := entry.acquisitions + 1 }).setApp slot
            { app with ownedResource := resource }).record
              (.acquired slot index kernel.ticks))
      else
        match gmResourceWait slot entry with
        | none => .error .resourceWaitFull
        | some entry =>
          .ok (.blocked,
            gmProgramKernel
              (((kernel.setResource index entry).setApp slot
                { app with
                  context := frame
                  waitingResource := resource
                  state := .blocked }).record (.blocked slot index)))

/-! ## Accounting leaves ownership alone -/

/-- Two kernels that differ at most in the usage accounting. -/
structure SameQueues (before after : GmKernel) : Prop where
  apps : after.apps = before.apps
  owner : ∀ index,
    (after.resources index).owner = (before.resources index).owner
  wait : ∀ index, (after.resources index).wait = (before.resources index).wait
  waitHead : ∀ index,
    (after.resources index).waitHead = (before.resources index).waitHead
  waitLen : ∀ index,
    (after.resources index).waitLen = (before.resources index).waitLen
  ticks : after.ticks = before.ticks
  current : after.current = before.current
  periodics : after.periodics = before.periodics
  programNext : after.programNext = before.programNext
  history : after.history = before.history

theorem SameQueues.refl (kernel : GmKernel) : SameQueues kernel kernel := by
  constructor <;> intros <;> rfl

theorem SameQueues.trans {first second third : GmKernel}
    (left : SameQueues first second) (right : SameQueues second third) :
    SameQueues first third where
  apps := right.apps.trans left.apps
  owner index := (right.owner index).trans (left.owner index)
  wait index := (right.wait index).trans (left.wait index)
  waitHead index := (right.waitHead index).trans (left.waitHead index)
  waitLen index := (right.waitLen index).trans (left.waitLen index)
  ticks := right.ticks.trans left.ticks
  current := right.current.trans left.current
  periodics := right.periodics.trans left.periodics
  programNext := right.programNext.trans left.programNext
  history := right.history.trans left.history

theorem SameQueues.waiters {before after : GmKernel}
    (same : SameQueues before after) (index : GmResourceIndex) :
    (after.resources index).waiters = (before.resources index).waiters := by
  simp only [GmResource.waiters, same.wait, same.waitHead, same.waitLen]

/-- Replacing one resource by one with the same owner and queue. -/
theorem sameQueues_setResource (kernel : GmKernel) (index : GmResourceIndex)
    (resource : GmResource)
    (owner : resource.owner = (kernel.resources index).owner)
    (wait : resource.wait = (kernel.resources index).wait)
    (waitHead : resource.waitHead = (kernel.resources index).waitHead)
    (waitLen : resource.waitLen = (kernel.resources index).waitLen) :
    SameQueues kernel (kernel.setResource index resource) := by
  constructor
  case apps | ticks | current | periodics | programNext | history => rfl
  all_goals
    intro other
    by_cases same : other = index
    · subst other
      simpa [GmKernel.setResource]
    · simp [GmKernel.setResource, same]

theorem gmResourceBucket_sameQueues (epoch : Nat) (kernel : GmKernel) :
    SameQueues kernel (gmResourceBucket epoch kernel) := by
  unfold gmResourceBucket
  simp only
  split
  · exact .refl kernel
  · constructor <;> intros <;> rfl

theorem gmResourceAccountLoop_sameQueues (index : GmResourceIndex)
    (now fuel start : Nat) (kernel : GmKernel) :
    SameQueues kernel (gmResourceAccountLoop index now fuel start kernel) := by
  induction fuel generalizing start kernel with
  | zero => exact .refl kernel
  | succ fuel induction =>
    simp only [gmResourceAccountLoop]
    split
    · refine SameQueues.trans ?_ (induction _ _)
      refine (gmResourceBucket_sameQueues
        (start / gmResourceBucketTicks) kernel).trans ?_
      apply sameQueues_setResource <;> rfl
    · exact .refl kernel

theorem gmResourceAccount_sameQueues (index : GmResourceIndex) (now : Nat)
    (kernel : GmKernel) :
    SameQueues kernel (gmResourceAccount index now kernel) := by
  unfold gmResourceAccount
  simp only
  split
  · exact .refl kernel
  · refine SameQueues.trans ?_
      (gmResourceAccountLoop_sameQueues index now _ _ _)
    apply sameQueues_setResource <;> rfl

end Gmker.Programs
