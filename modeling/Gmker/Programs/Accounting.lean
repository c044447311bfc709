import Gmker.Foundation.UsageRing
import Gmker.Programs.LoopMoves

/-!
# Usage accounting

The figures the `resources` command shows, and the ownership intervals they
are about.  The accounting changes by beginning and ending holds only;
`BookStep` says once what such a change can be.
-/

namespace Gmker.Programs

open Foundation Function

variable {before after kernel : GmKernel}

/-! ## The figures of the `resources` command -/

/-- `gm_resource_live`. -/
def gmResourceLive (resource : GmResource) (now : Nat) : Nat :=
  if resource.owner = 0 ∨ now < resource.acquiredTick then 0
  else now - resource.acquiredTick

/-- The loop body of `gm_resource_recent`. -/
def gmResourceRecentTurn (epochs recent : Nat → Nat) (currentEpoch : Nat)
    (sum bucket : Nat) : Nat :=
  if epochs bucket = 0 then sum
  else
    let epoch := epochs bucket - 1
    if epoch ≤ currentEpoch ∧ currentEpoch - epoch < gmResourceBuckets then
      sum + recent bucket
    else sum

/-- `gm_resource_recent`. -/
def gmResourceRecent (epochs : Nat → Nat) (resource : GmResource)
    (now : Nat) : Nat :=
  let currentEpoch := now / gmResourceBucketTicks
  let recent := (List.range gmResourceBuckets).foldl
    (gmResourceRecentTurn epochs resource.recent currentEpoch) 0
  if resource.owner ≠ 0 ∧ resource.acquiredTick ≤ now then
    let start :=
      if gmResourceWindowTicks < now ∧
          resource.acquiredTick < now - gmResourceWindowTicks then
        now - gmResourceWindowTicks
      else resource.acquiredTick
    recent + (now - start)
  else recent

/-- `gm_resource_name`. -/
def gmResourceName (resource : Nat) : String :=
  if resource = gmResourceTcp then "tcp"
  else if resource = gmResourceUdp then "udp"
  else "-"

/-- The values `gm_resource_status` prints, in its order.  The owner is a slot
number, or absent for `free`. -/
structure GmResourceStatus where
  name : String
  owner : Option Nat
  held : Nat
  waiters : Nat
  acquisitions : Nat
  total : Nat
  max : Nat
  recent : Nat
  deriving DecidableEq, Repr

/-- `gm_resource_status`. -/
def gmResourceStatus (resource now : Nat) (kernel : GmKernel) :
    Option GmResourceStatus :=
  match gmResourceGet resource with
  | none => none
  | some index =>
    let entry := kernel.resources index
    let live := gmResourceLive entry now
    some
      { name := gmResourceName resource
        owner := if entry.owner ≠ 0 then some (entry.owner - 1) else none
        held := live
        waiters := entry.waitLen
        acquisitions := entry.acquisitions
        total := entry.totalTicks + live
        max := if entry.maxHold < live then live else entry.maxHold
        recent := gmResourceRecent kernel.resourceEpochs entry now }

/-! ## Ownership intervals -/

/-- The beginning or the end of a hold. -/
inductive GmMark where
  | began (tick : Nat)
  | ended (tick : Nat)
  deriving DecidableEq, Repr

/-- What an event says about the ownership of a resource. -/
def GmEvent.mark (index : GmResourceIndex) : GmEvent → Option GmMark
  | .acquired _ resource tick | .granted _ resource tick =>
    if resource = index then some (.began tick) else none
  | .released _ resource tick =>
    if resource = index then some (.ended tick) else none
  | _ => none

/-- The acquire and release ticks of a resource, in order. -/
def gmMarks (index : GmResourceIndex) (history : List GmEvent) : List GmMark :=
  history.filterMap (GmEvent.mark index)

/-- The completed holds, oldest first, and the start of the current one. -/
structure GmUse where
  completed : List (Nat × Nat) := []
  live : Option Nat := none
  deriving DecidableEq, Repr

def GmUse.note (use : GmUse) : GmMark → GmUse
  | .began tick => { use with live := some tick }
  | .ended tick =>
    match use.live with
    | none => use
    | some since =>
      { completed := use.completed ++ [(since, tick)], live := none }

/-- The holds that a sequence of marks describes. -/
def gmUse (marks : List GmMark) : GmUse := marks.foldl GmUse.note {}

/-- The number of ownership grants. -/
def gmGrants (marks : List GmMark) : Nat :=
  marks.countP fun mark =>
    match mark with
    | .began _ => true
    | .ended _ => false

/-- The ticks of a list of holds. -/
def heldTicks (holds : List (Nat × Nat)) : List Nat :=
  holds.flatMap fun hold => List.range' hold.1 (hold.2 - hold.1)

theorem gmMarks_append (index : GmResourceIndex) (old new : List GmEvent) :
    gmMarks index (old ++ new) = gmMarks index old ++ gmMarks index new :=
  List.filterMap_append

theorem gmUse_snoc (marks : List GmMark) (mark : GmMark) :
    gmUse (marks ++ [mark]) = (gmUse marks).note mark := by
  simp only [gmUse, List.foldl_append, List.foldl_cons, List.foldl_nil]

theorem heldTicks_snoc (holds : List (Nat × Nat)) (hold : Nat × Nat) :
    heldTicks (holds ++ [hold]) =
      heldTicks holds ++ List.range' hold.1 (hold.2 - hold.1) := by
  simp only [heldTicks, List.flatMap_append, List.flatMap_cons,
    List.flatMap_nil, List.append_nil]

/-! ## What a step does to the books -/

/-- Two resources with the same owner and the same figures, buckets apart. -/
structure SameFigures (before after : GmResource) : Prop where
  owner : after.owner = before.owner
  acquiredTick : after.acquiredTick = before.acquiredTick
  totalTicks : after.totalTicks = before.totalTicks
  acquisitions : after.acquisitions = before.acquisitions
  maxHold : after.maxHold = before.maxHold

structure SameBook (before after : GmResource) : Prop extends
    SameFigures before after where
  recent : after.recent = before.recent

/-- Two kernels with the same accounting and the same record of holds. -/
structure SameBooks (before after : GmKernel) : Prop where
  ticks : after.ticks = before.ticks
  epochs : after.resourceEpochs = before.resourceEpochs
  resources : ∀ index, SameBook (before.resources index) (after.resources index)
  marks : ∀ index,
    gmMarks index after.history = gmMarks index before.history

/-- Give a free resource to a slot. -/
def GmKernel.beginHold (kernel : GmKernel) (index : GmResourceIndex)
    (slot : GmSlot) : GmKernel :=
  (kernel.setResource index
    { kernel.resources index with
      owner := slot.val + 1
      acquiredTick := kernel.ticks
      acquisitions := (kernel.resources index).acquisitions + 1 }).record
    (.acquired slot index kernel.ticks)

/-- Account the current hold of a resource and free it. -/
def GmKernel.endHold (kernel : GmKernel) (index : GmResourceIndex)
    (slot : GmSlot) : GmKernel :=
  let accounted := gmResourceAccount index kernel.ticks kernel
  (accounted.setResource index
    { accounted.resources index with owner := 0 }).record
    (.released slot index kernel.ticks)

/-- The changes of the accounting. -/
inductive BookStep (before after : GmKernel) : Prop where
  | same (same : SameBooks before after)
  | began (index : GmResourceIndex) (slot : GmSlot)
      (free : (before.resources index).owner = 0)
      (same : SameBooks (before.beginHold index slot) after)
  | ended (index : GmResourceIndex) (slot : GmSlot)
      (held : (before.resources index).owner ≠ 0)
      (same : SameBooks (before.endHold index slot) after)

/-- Any number of changes within one tick. -/
def Books : GmKernel → GmKernel → Prop := Relation.ReflTransGen BookStep

theorem SameFigures.refl (resource : GmResource) :
    SameFigures resource resource :=
  ⟨rfl, rfl, rfl, rfl, rfl⟩

theorem SameBook.refl (resource : GmResource) : SameBook resource resource :=
  ⟨.refl resource, rfl⟩

theorem update_sameBook {resources : GmResourceIndex → GmResource}
    {index : GmResourceIndex} {first second : GmResource}
    (same : SameBook first second) (other : GmResourceIndex) :
    SameBook (update resources index first other)
      (update resources index second other) := by
  by_cases here : other = index
  · subst here
    simpa using same
  · simp only [update_of_ne here]
    exact .refl _

/-- The parts of a kernel that its books and its dispatcher are about. -/
def GmKernel.accounts (kernel : GmKernel) : Nat × (Nat → Nat) ×
    (GmResourceIndex → GmResource) × List GmEvent × Nat :=
  (kernel.ticks, kernel.resourceEpochs, kernel.resources, kernel.history,
    kernel.programNext)

theorem SameBooks.of_eq (same : after.accounts = before.accounts) :
    SameBooks before after := by
  simp only [GmKernel.accounts, Prod.mk.injEq] at same
  obtain ⟨ticks, epochs, resources, history, _⟩ := same
  refine ⟨ticks, epochs, ?_, ?_⟩
  · intro index
    rw [resources]
    exact .refl _
  · intro index
    rw [history]

/-- Holds begin and end, and the pointer of the dispatcher stays. -/
structure BooksKept (before after : GmKernel) : Prop where
  books : Books before after
  pointer : after.programNext = before.programNext

theorem BooksKept.of_step (step : BookStep before after)
    (pointer : after.programNext = before.programNext) :
    BooksKept before after :=
  ⟨Relation.ReflTransGen.single step, pointer⟩

theorem BooksKept.of_eq (same : after.accounts = before.accounts) :
    BooksKept before after :=
  .of_step (.same (.of_eq same))
    (congrArg (fun accounts => accounts.2.2.2.2) same)

theorem BooksKept.trans {first second third : GmKernel}
    (left : BooksKept first second) (right : BooksKept second third) :
    BooksKept first third :=
  ⟨Relation.ReflTransGen.trans left.books right.books,
    right.pointer.trans left.pointer⟩

/-- The kernel before may differ in what the books are not about. -/
theorem BooksKept.start {middle : GmKernel} (kept : BooksKept middle after)
    (same : middle.accounts = before.accounts) : BooksKept before after :=
  (BooksKept.of_eq same).trans kept

/-- Recording what is neither an acquire nor a release. -/
theorem BooksKept.record {event : GmEvent}
    (quiet : ∀ index, event.mark index = none) :
    BooksKept kernel (kernel.record event) := by
  refine .of_step (.same ⟨rfl, rfl, fun index => .refl _, ?_⟩) rfl
  intro index
  simp [GmKernel.record, gmMarks, quiet index]

theorem BooksKept.setResource {index : GmResourceIndex} {resource : GmResource}
    (same : SameBook (kernel.resources index) resource) :
    BooksKept kernel (kernel.setResource index resource) := by
  refine .of_step (.same ⟨rfl, rfl, ?_, fun _ => rfl⟩) rfl
  intro other
  have updated := @update_sameBook kernel.resources index _ _ same other
  rwa [update_eq_self] at updated

theorem LoopMove.booksKept (move : LoopMove before after) :
    BooksKept before after := by
  cases move with
  | switch current addressSpace => exact .of_eq rfl
  | launch slot argLen entry periodicId free =>
    exact .start (.record fun _ => rfl) rfl
  | table index entry => exact .of_eq rfl
  | noted index entry event about =>
    refine .start (.record fun _ => ?_) rfl
    cases about <;> rfl

theorem LoopMoves.booksKept (moves : LoopMoves before after) :
    BooksKept before after := by
  induction moves with
  | refl => exact .of_eq rfl
  | tail _ move kept => exact kept.trans move.booksKept

/-- The kernel one tick later. -/
def GmKernel.tick (kernel : GmKernel) : GmKernel :=
  { kernel with ticks := kernel.ticks + 1 }

end Gmker.Programs
