import Gmker.Programs.SlotChanges

/-!
# What the accounting says about ownership

The figures of a resource are compared with the ticks during which it was
owned.  `Accounted` is the invariant of every run: totals, longest hold and
grant count are exact, and no bucket shows more than the completed holds have
put into its epoch.
-/

namespace Gmker.Programs

open Foundation Function

variable {index : GmResourceIndex} {kernel before after : GmKernel}

/-- The usage buckets of both resources. -/
def gmUsage (kernel : GmKernel) : UsageRing GmResourceIndex :=
  { tags := kernel.resourceEpochs
    fill := fun index => (kernel.resources index).recent }

/-- What a bucket of usage shows for an epoch. -/
def gmShown (kernel : GmKernel) (index : GmResourceIndex) (epoch : Nat) : Nat :=
  (gmUsage kernel).shown gmResourceBuckets index epoch

theorem gmUsage_record (kernel : GmKernel) (event : GmEvent) :
    gmUsage (kernel.record event) = gmUsage kernel := rfl

theorem gmUsage_setResource {resource : GmResource}
    (recent : resource.recent = (kernel.resources index).recent) :
    gmUsage (kernel.setResource index resource) = gmUsage kernel := by
  apply UsageRing.ext
  · rfl
  · funext other
    by_cases same : other = index
    · subst same
      simpa [gmUsage, GmKernel.setResource] using recent
    · simp [gmUsage, GmKernel.setResource, same]

/-! ## Charging a hold -/

theorem gmResourceBucket_usage (epoch : Nat) (kernel : GmKernel) :
    gmUsage (gmResourceBucket epoch kernel) =
      (gmUsage kernel).recycle gmResourceBuckets epoch := by
  unfold gmResourceBucket UsageRing.recycle
  by_cases owned : kernel.resourceEpochs (epoch % gmResourceBuckets) = epoch + 1
  · have tag : (gmUsage kernel).tags (epoch % gmResourceBuckets) = epoch + 1 :=
      owned
    rw [if_pos tag]
    dsimp only
    rw [if_pos owned]
  · have tag : (gmUsage kernel).tags (epoch % gmResourceBuckets) ≠ epoch + 1 :=
      owned
    rw [if_neg tag]
    dsimp only
    rw [if_neg owned]
    rfl

/-- One turn of the accounting loop. -/
def gmResourceCharge (index : GmResourceIndex) (start finish : Nat)
    (kernel : GmKernel) : GmKernel :=
  let epoch := start / gmResourceBucketTicks
  let bucket := epoch % gmResourceBuckets
  let kernel := gmResourceBucket epoch kernel
  let resource := kernel.resources index
  kernel.setResource index
    { resource with
      recent := update resource.recent bucket
        ((resource.recent bucket + (finish - start) % 2 ^ 32) % 2 ^ 32) }

/-- A turn that does not wrap the 32-bit bucket charges a piece. -/
theorem gmResourceCharge_usage {start finish : Nat}
    (small : gmShown kernel index (start / gmResourceBucketTicks) +
      (finish - start) < 2 ^ 32) :
    gmUsage (gmResourceCharge index start finish kernel) =
      (gmUsage kernel).charge gmResourceBuckets index
        (start / gmResourceBucketTicks, finish - start) := by
  generalize epochEq : start / gmResourceBucketTicks = epoch at small
  have recycled := gmResourceBucket_usage epoch kernel
  have content : ((gmResourceBucket epoch kernel).resources index).recent =
      ((gmUsage kernel).recycle gmResourceBuckets epoch).fill index :=
    congrFun (congrArg UsageRing.fill recycled) index
  have value : ((gmResourceBucket epoch kernel).resources index).recent
      (epoch % gmResourceBuckets) = gmShown kernel index epoch := by
    rw [content, UsageRing.recycle_fill, update_self]
    rfl
  have sum : (((gmResourceBucket epoch kernel).resources index).recent
        (epoch % gmResourceBuckets) + (finish - start) % 2 ^ 32) % 2 ^ 32 =
      ((gmUsage kernel).recycle gmResourceBuckets epoch).fill index
        (epoch % gmResourceBuckets) + (finish - start) := by
    rw [Nat.mod_eq_of_lt (show finish - start < 2 ^ 32 by omega), value,
      Nat.mod_eq_of_lt small, ← value, content]
  unfold gmResourceCharge
  rw [epochEq]
  dsimp only
  rw [sum]
  have tags : (gmResourceBucket epoch kernel).resourceEpochs =
      ((gmUsage kernel).recycle gmResourceBuckets epoch).tags :=
    congrArg UsageRing.tags recycled
  apply UsageRing.ext
  · exact tags
  · funext other
    by_cases same : other = index
    · subst same
      simp only [gmUsage, GmKernel.setResource, UsageRing.charge,
        update_self]
      exact congrArg (update · _ _) content
    · simp only [gmUsage, GmKernel.setResource, UsageRing.charge,
        update_of_ne same]
      exact congrFun (congrArg UsageRing.fill recycled) other

theorem gmResourceAccountLoop_usage {now : Nat} :
    ∀ fuel start kernel,
      (∀ epoch, gmShown kernel index epoch +
        UsageRing.amount (UsageRing.pieces gmResourceBucketTicks now fuel start)
          epoch < 2 ^ 32) →
      gmUsage (gmResourceAccountLoop index now fuel start kernel) =
        (gmUsage kernel).chargeAll gmResourceBuckets index
          (UsageRing.pieces gmResourceBucketTicks now fuel start) := by
  intro fuel
  induction fuel with
  | zero =>
    intro start kernel small
    rfl
  | succ fuel induction =>
    intro start kernel small
    rw [gmResourceAccountLoop, UsageRing.pieces]
    rw [UsageRing.pieces] at small
    split
    · rename_i before
      rw [if_pos before] at small
      generalize finishEq : min ((start / gmResourceBucketTicks + 1) *
        gmResourceBucketTicks) now = finish at small
      have turn : gmUsage (gmResourceCharge index start finish kernel) =
          (gmUsage kernel).charge gmResourceBuckets index
            (start / gmResourceBucketTicks, finish - start) := by
        apply gmResourceCharge_usage
        have here := small (start / gmResourceBucketTicks)
        rw [UsageRing.amount_cons, if_pos rfl] at here
        omega
      have later := induction finish
        (gmResourceCharge index start finish kernel) (by
          intro epoch
          have here := small epoch
          have grown : gmShown (gmResourceCharge index start finish kernel)
              index epoch ≤ gmShown kernel index epoch +
                if epoch = start / gmResourceBucketTicks then finish - start
                else 0 := by
            unfold gmShown
            rw [turn]
            refine le_trans (UsageRing.shown_charge_le _ _ _ _ _) ?_
            simp only [UsageRing.share, if_true, UsageRing.amount_cons,
              UsageRing.amount_nil, Nat.add_zero, le_refl]
          rw [UsageRing.amount_cons] at here
          dsimp only at here
          omega)
      dsimp only
      rw [finishEq]
      rw [UsageRing.chargeAll, List.foldl_cons, ← turn]
      exact later
    · rfl

theorem SameFigures.trans {first second third : GmResource}
    (left : SameFigures first second) (right : SameFigures second third) :
    SameFigures first third where
  owner := right.owner.trans left.owner
  acquiredTick := right.acquiredTick.trans left.acquiredTick
  totalTicks := right.totalTicks.trans left.totalTicks
  acquisitions := right.acquisitions.trans left.acquisitions
  maxHold := right.maxHold.trans left.maxHold

theorem gmResourceCharge_figures (index : GmResourceIndex) (start finish : Nat)
    (kernel : GmKernel) (other : GmResourceIndex) :
    SameFigures (kernel.resources other)
      ((gmResourceCharge index start finish kernel).resources other) := by
  have bucket : ∀ epoch, SameFigures (kernel.resources other)
      ((gmResourceBucket epoch kernel).resources other) := by
    intro epoch
    unfold gmResourceBucket
    dsimp only
    split <;> exact ⟨rfl, rfl, rfl, rfl, rfl⟩
  refine (bucket (start / gmResourceBucketTicks)).trans ?_
  unfold gmResourceCharge
  by_cases same : other = index
  · subst same
    simp only [GmKernel.setResource, update_self]
    exact ⟨rfl, rfl, rfl, rfl, rfl⟩
  · simp only [GmKernel.setResource, update_of_ne same]
    exact .refl _

theorem gmResourceAccountLoop_figures (index : GmResourceIndex) (now : Nat)
    (other : GmResourceIndex) :
    ∀ fuel start kernel, SameFigures (kernel.resources other)
      ((gmResourceAccountLoop index now fuel start kernel).resources other) := by
  intro fuel
  induction fuel with
  | zero =>
    intro start kernel
    exact .refl _
  | succ fuel induction =>
    intro start kernel
    rw [gmResourceAccountLoop]
    split
    · exact (gmResourceCharge_figures index start _ kernel other).trans
        (induction _ _)
    · exact .refl _

/-- The part of a hold that is charged to the buckets. -/
def clippedStart (acquired now : Nat) : Nat :=
  max acquired (now - gmResourceWindowTicks)

/-- The pieces in which a hold is charged. -/
def holdPieces (acquired now : Nat) : List (Nat × Nat) :=
  UsageRing.pieces gmResourceBucketTicks now (now - clippedStart acquired now)
    (clippedStart acquired now)

/-- Add the hold of a resource to its total and its maximum. -/
def GmKernel.bookHold (kernel : GmKernel) (index : GmResourceIndex) :
    GmKernel :=
  let resource := kernel.resources index
  kernel.setResource index
    { resource with
      totalTicks := resource.totalTicks +
        (kernel.ticks - resource.acquiredTick)
      maxHold := max resource.maxHold (kernel.ticks - resource.acquiredTick) }

theorem bookHold_self (kernel : GmKernel) (index : GmResourceIndex) :
    (kernel.bookHold index).resources index =
      { kernel.resources index with
        totalTicks := (kernel.resources index).totalTicks +
          (kernel.ticks - (kernel.resources index).acquiredTick)
        maxHold := max (kernel.resources index).maxHold
          (kernel.ticks - (kernel.resources index).acquiredTick) } :=
  update_self _ _ _

theorem bookHold_of_ne (kernel : GmKernel) {index other : GmResourceIndex}
    (different : other ≠ index) :
    (kernel.bookHold index).resources other = kernel.resources other :=
  update_of_ne different _ _

theorem bookHold_usage (kernel : GmKernel) (index : GmResourceIndex) :
    gmUsage (kernel.bookHold index) = gmUsage kernel :=
  gmUsage_setResource rfl

/-- `gm_resource_account` books the whole hold and charges the clipped one. -/
theorem gmResourceAccount_eq
    (started : (kernel.resources index).acquiredTick ≤ kernel.ticks) :
    gmResourceAccount index kernel.ticks kernel =
      gmResourceAccountLoop index kernel.ticks
        (kernel.ticks -
          clippedStart (kernel.resources index).acquiredTick kernel.ticks)
        (clippedStart (kernel.resources index).acquiredTick kernel.ticks)
        (kernel.bookHold index) := by
  have longest : (if (kernel.resources index).maxHold <
      kernel.ticks - (kernel.resources index).acquiredTick then
        kernel.ticks - (kernel.resources index).acquiredTick
      else (kernel.resources index).maxHold) =
      max (kernel.resources index).maxHold
        (kernel.ticks - (kernel.resources index).acquiredTick) := by
    split <;> omega
  have start : (if gmResourceWindowTicks <
      kernel.ticks - (kernel.resources index).acquiredTick then
        kernel.ticks - gmResourceWindowTicks
      else (kernel.resources index).acquiredTick) =
      clippedStart (kernel.resources index).acquiredTick kernel.ticks := by
    unfold clippedStart
    split <;> omega
  unfold gmResourceAccount
  dsimp only
  rw [if_neg (Nat.not_lt.mpr started), longest, start]
  rfl

/-- The effect of ending a hold. -/
structure HoldEnded (index : GmResourceIndex) (slot : GmSlot)
    (before after : GmKernel) : Prop where
  ticks : after.ticks = before.ticks
  history : after.history =
    before.history ++ [.released slot index before.ticks]
  others : ∀ other, other ≠ index →
    SameFigures (before.resources other) (after.resources other)
  owner : (after.resources index).owner = 0
  totalTicks : (after.resources index).totalTicks =
    (before.resources index).totalTicks +
      (before.ticks - (before.resources index).acquiredTick)
  acquisitions : (after.resources index).acquisitions =
    (before.resources index).acquisitions
  maxHold : (after.resources index).maxHold =
    max (before.resources index).maxHold
      (before.ticks - (before.resources index).acquiredTick)
  usage : (∀ epoch, gmShown before index epoch + UsageRing.amount
      (holdPieces (before.resources index).acquiredTick before.ticks) epoch <
        2 ^ 32) →
    gmUsage after = (gmUsage before).chargeAll gmResourceBuckets index
      (holdPieces (before.resources index).acquiredTick before.ticks)

theorem endHold_effect (index : GmResourceIndex) (slot : GmSlot)
    (started : (kernel.resources index).acquiredTick ≤ kernel.ticks) :
    HoldEnded index slot kernel (kernel.endHold index slot) := by
  have same := gmResourceAccount_sameQueues index kernel.ticks kernel
  have account := gmResourceAccount_eq started
  have figures : ∀ other, SameFigures ((kernel.bookHold index).resources other)
      ((gmResourceAccount index kernel.ticks kernel).resources other) := by
    intro other
    rw [account]
    exact gmResourceAccountLoop_figures index kernel.ticks other _ _ _
  have own := figures index
  rw [bookHold_self] at own
  have released : (kernel.endHold index slot).resources index =
      { (gmResourceAccount index kernel.ticks kernel).resources index with
        owner := 0 } :=
    update_self _ _ _
  constructor
  · exact same.ticks
  · exact congrArg (· ++ [GmEvent.released slot index kernel.ticks])
      same.history
  · intro other different
    have kept : (kernel.endHold index slot).resources other =
        (gmResourceAccount index kernel.ticks kernel).resources other :=
      update_of_ne different _ _
    rw [kept, ← bookHold_of_ne kernel different]
    exact figures other
  · rw [released]
  · rw [released]
    exact own.totalTicks
  · rw [released]
    exact own.acquisitions
  · rw [released]
    exact own.maxHold
  · intro small
    have buckets : gmUsage (kernel.endHold index slot) =
        gmUsage (gmResourceAccount index kernel.ticks kernel) :=
      (gmUsage_record _ _).trans (gmUsage_setResource rfl)
    have unbooked : ∀ epoch, gmShown (kernel.bookHold index) index epoch =
        gmShown kernel index epoch := by
      intro epoch
      unfold gmShown
      rw [bookHold_usage]
    rw [buckets, account, gmResourceAccountLoop_usage, bookHold_usage]
    · rfl
    · intro epoch
      rw [unbooked]
      exact small epoch

/-! ## The invariant -/

/-- The holds of a resource so far. -/
def GmKernel.use (kernel : GmKernel) (index : GmResourceIndex) : GmUse :=
  gmUse (gmMarks index kernel.history)

/-- The ticks of the completed holds of a resource. -/
def GmKernel.completedTicks (kernel : GmKernel) (index : GmResourceIndex) :
    List Nat :=
  heldTicks (kernel.use index).completed

/-- The length of the longest hold in a list. -/
def longestHold (holds : List (Nat × Nat)) : Nat :=
  holds.foldl (fun longest hold => max longest (hold.2 - hold.1)) 0

/-- The figures of a resource agree with its holds, and no bucket shows more
than they have put into its epoch. -/
structure Accounted (kernel : GmKernel) (index : GmResourceIndex) : Prop where
  live : (kernel.use index).live =
    if (kernel.resources index).owner = 0 then none
    else some (kernel.resources index).acquiredTick
  started : (kernel.resources index).owner ≠ 0 →
    (kernel.resources index).acquiredTick ≤ kernel.ticks
  total : (kernel.resources index).totalTicks =
    (kernel.completedTicks index).length
  longest : (kernel.resources index).maxHold =
    longestHold (kernel.use index).completed
  grants : (kernel.resources index).acquisitions =
    gmGrants (gmMarks index kernel.history)
  ascending : (kernel.completedTicks index).Pairwise (· < ·)
  past : ∀ tick ∈ kernel.completedTicks index, tick < kernel.ticks ∧
    ((kernel.resources index).owner ≠ 0 →
      tick < (kernel.resources index).acquiredTick)
  shown : ∀ epoch, gmShown kernel index epoch ≤
    UsageRing.usage gmResourceBucketTicks (kernel.completedTicks index) epoch

/-- The books of both resources are in order. -/
structure BooksInOrder (kernel : GmKernel) : Prop where
  tagged : (gmUsage kernel).WellTagged gmResourceBuckets
  accounted : ∀ index, Accounted kernel index

theorem SameBooks.usage (same : SameBooks before after) :
    gmUsage after = gmUsage before := by
  apply UsageRing.ext
  · exact same.epochs
  · funext index
    exact (same.resources index).recent

theorem SameBooks.use (same : SameBooks before after) (index : GmResourceIndex) :
    after.use index = before.use index :=
  congrArg gmUse (same.marks index)

theorem Accounted.congr (accounted : Accounted before index)
    (figures : SameFigures (before.resources index) (after.resources index))
    (marks : gmMarks index after.history = gmMarks index before.history)
    (later : before.ticks ≤ after.ticks)
    (shown : ∀ epoch, gmShown after index epoch ≤ gmShown before index epoch) :
    Accounted after index := by
  have use : after.use index = before.use index := congrArg gmUse marks
  have ticks : after.completedTicks index = before.completedTicks index := by
    unfold GmKernel.completedTicks
    rw [use]
  constructor
  · rw [use, figures.owner, figures.acquiredTick]
    exact accounted.live
  · intro held
    rw [figures.owner] at held
    rw [figures.acquiredTick]
    exact le_trans (accounted.started held) later
  · rw [figures.totalTicks, ticks]
    exact accounted.total
  · rw [figures.maxHold, use]
    exact accounted.longest
  · rw [figures.acquisitions, marks]
    exact accounted.grants
  · rw [ticks]
    exact accounted.ascending
  · intro tick member
    rw [ticks] at member
    rw [figures.owner, figures.acquiredTick]
    obtain ⟨before, free⟩ := accounted.past tick member
    exact ⟨lt_of_lt_of_le before later, free⟩
  · intro epoch
    rw [ticks]
    exact le_trans (shown epoch) (accounted.shown epoch)

theorem BooksInOrder.same (order : BooksInOrder before)
    (same : SameBooks before after) : BooksInOrder after := by
  constructor
  · rw [same.usage]
    exact order.tagged
  · intro index
    refine (order.accounted index).congr (same.resources index).toSameFigures
      (same.marks index) (le_of_eq same.ticks.symm) ?_
    intro epoch
    unfold gmShown
    rw [same.usage]

theorem BooksInOrder.tick (order : BooksInOrder kernel) :
    BooksInOrder kernel.tick := by
  constructor
  · exact order.tagged
  · intro index
    exact (order.accounted index).congr (.refl _) rfl (Nat.le_succ _)
      fun epoch => le_refl _

theorem gmGrants_snoc (marks : List GmMark) (mark : GmMark) :
    gmGrants (marks ++ [mark]) = gmGrants marks + gmGrants [mark] :=
  List.countP_append

theorem beginHold_self (kernel : GmKernel) (index : GmResourceIndex)
    (slot : GmSlot) :
    (kernel.beginHold index slot).resources index =
      { kernel.resources index with
        owner := slot.val + 1
        acquiredTick := kernel.ticks
        acquisitions := (kernel.resources index).acquisitions + 1 } :=
  update_self _ _ _

theorem beginHold_of_ne (kernel : GmKernel) {index other : GmResourceIndex}
    (different : other ≠ index) (slot : GmSlot) :
    (kernel.beginHold index slot).resources other = kernel.resources other :=
  update_of_ne different _ _

theorem beginHold_marks (kernel : GmKernel) (index other : GmResourceIndex)
    (slot : GmSlot) :
    gmMarks other (kernel.beginHold index slot).history =
      gmMarks other kernel.history ++
        if index = other then [.began kernel.ticks] else [] := by
  rw [GmKernel.beginHold, GmKernel.record]
  simp only [gmMarks_append]
  by_cases same : index = other <;>
    simp [gmMarks, GmEvent.mark, GmKernel.setResource, same]

theorem beginHold_use (kernel : GmKernel) (index : GmResourceIndex)
    (slot : GmSlot) :
    (kernel.beginHold index slot).use index =
      { kernel.use index with live := some kernel.ticks } := by
  unfold GmKernel.use
  rw [beginHold_marks, if_pos rfl, gmUse_snoc]
  rfl

theorem beginHold_completed (kernel : GmKernel) (index other : GmResourceIndex)
    (slot : GmSlot) :
    ((kernel.beginHold index slot).use other).completed =
      (kernel.use other).completed := by
  unfold GmKernel.use
  rw [beginHold_marks]
  split
  · rw [gmUse_snoc]
    rfl
  · rw [List.append_nil]

theorem beginHold_completedTicks (kernel : GmKernel)
    (index other : GmResourceIndex) (slot : GmSlot) :
    (kernel.beginHold index slot).completedTicks other =
      kernel.completedTicks other :=
  congrArg heldTicks (beginHold_completed kernel index other slot)

theorem beginHold_usage (kernel : GmKernel) (index : GmResourceIndex)
    (slot : GmSlot) :
    gmUsage (kernel.beginHold index slot) = gmUsage kernel :=
  (gmUsage_record _ _).trans (gmUsage_setResource rfl)

theorem BooksInOrder.beginHold (order : BooksInOrder kernel)
    (index : GmResourceIndex) (slot : GmSlot) :
    BooksInOrder (kernel.beginHold index slot) := by
  have shown : ∀ other epoch,
      gmShown (kernel.beginHold index slot) other epoch =
        gmShown kernel other epoch := by
    intro other epoch
    unfold gmShown
    rw [beginHold_usage]
  constructor
  · rw [beginHold_usage]
    exact order.tagged
  intro other
  by_cases same : other = index
  · subst same
    have before := order.accounted other
    constructor
    · rw [beginHold_use, beginHold_self]
      rfl
    · intro held
      rw [beginHold_self]
      exact le_refl _
    · rw [beginHold_self, beginHold_completedTicks]
      exact before.total
    · rw [beginHold_self, beginHold_use]
      exact before.longest
    · rw [beginHold_self, beginHold_marks, if_pos rfl, gmGrants_snoc,
        ← before.grants]
      rfl
    · rw [beginHold_completedTicks]
      exact before.ascending
    · intro tick member
      rw [beginHold_completedTicks] at member
      obtain ⟨past, -⟩ := before.past tick member
      rw [beginHold_self]
      exact ⟨past, fun _ => past⟩
    · intro epoch
      rw [shown, beginHold_completedTicks]
      exact before.shown epoch
  · refine (order.accounted other).congr ?_ ?_ (le_refl _) ?_
    · rw [beginHold_of_ne kernel same]
      exact .refl _
    · rw [beginHold_marks, if_neg (Ne.symm same), List.append_nil]
    · intro epoch
      exact le_of_eq (shown other epoch)

/-- A charged hold puts at most its ticks into an epoch. -/
theorem amount_holdPieces (acquired now epoch : Nat) :
    UsageRing.amount (holdPieces acquired now) epoch =
      UsageRing.usage gmResourceBucketTicks
        (List.range' (clippedStart acquired now)
          (now - clippedStart acquired now)) epoch :=
  UsageRing.amount_pieces (by decide) epoch _ _ (le_refl _)

/-- The clipped part is the end of the hold. -/
theorem range_clippedStart {acquired now : Nat} (started : acquired ≤ now) :
    List.range' acquired (now - acquired) =
      List.range' acquired (clippedStart acquired now - acquired) ++
        List.range' (clippedStart acquired now)
          (now - clippedStart acquired now) := by
  have low : acquired ≤ clippedStart acquired now := Nat.le_max_left _ _
  have high : clippedStart acquired now ≤ now := by
    unfold clippedStart
    omega
  generalize clippedStart acquired now = start at low high
  rw [show now - acquired = (start - acquired) + (now - start) by omega,
    ← List.range'_append_1, show acquired + (start - acquired) = start by omega]

theorem amount_holdPieces_le {acquired now : Nat} (started : acquired ≤ now)
    (epoch : Nat) :
    UsageRing.amount (holdPieces acquired now) epoch ≤
      UsageRing.usage gmResourceBucketTicks
        (List.range' acquired (now - acquired)) epoch := by
  rw [amount_holdPieces, range_clippedStart started, UsageRing.usage_append]
  exact Nat.le_add_left _ _

section

variable {slot : GmSlot} {kernel : GmKernel} {index : GmResourceIndex}

section

variable (effect : HoldEnded index slot kernel after)
  (accounted : Accounted kernel index)
  (held : (kernel.resources index).owner ≠ 0)

section

include effect

theorem HoldEnded.marks (other : GmResourceIndex) :
    gmMarks other after.history = gmMarks other kernel.history ++
      if index = other then [.ended kernel.ticks] else [] := by
  rw [effect.history, gmMarks_append]
  by_cases same : index = other <;> simp [gmMarks, GmEvent.mark, same]

theorem HoldEnded.use_of_ne {other : GmResourceIndex}
    (different : other ≠ index) : after.use other = kernel.use other := by
  unfold GmKernel.use
  rw [effect.marks, if_neg (Ne.symm different), List.append_nil]

include accounted held

theorem HoldEnded.use :
    after.use index =
      { completed := (kernel.use index).completed ++
          [((kernel.resources index).acquiredTick, kernel.ticks)]
        live := none } := by
  have live : (kernel.use index).live =
      some (kernel.resources index).acquiredTick := by
    rw [accounted.live, if_neg held]
  have noted : after.use index =
      (kernel.use index).note (.ended kernel.ticks) := by
    unfold GmKernel.use
    rw [effect.marks, if_pos rfl, gmUse_snoc]
  rw [noted, GmUse.note, live]

theorem HoldEnded.completedTicks :
    after.completedTicks index = kernel.completedTicks index ++
      List.range' (kernel.resources index).acquiredTick
        (kernel.ticks - (kernel.resources index).acquiredTick) := by
  unfold GmKernel.completedTicks
  rw [effect.use accounted held, heldTicks_snoc]

end

include accounted held

/-- The ticks of the completed holds and the current one are in order. -/
theorem Accounted.ascending_live :
    (kernel.completedTicks index ++
      List.range' (kernel.resources index).acquiredTick
        (kernel.ticks - (kernel.resources index).acquiredTick)).Pairwise
      (· < ·) := by
  refine List.pairwise_append.mpr
    ⟨accounted.ascending, List.pairwise_lt_range', ?_⟩
  intro old before new current
  have early := (accounted.past old before).2 held
  have late := (List.mem_range'_1.mp current).1
  exact lt_of_lt_of_le early late

/-- A bucket never holds more than the ticks of an epoch, not even while a hold
is being charged. -/
theorem Accounted.small (epoch : Nat) :
    gmShown kernel index epoch + UsageRing.amount
      (holdPieces (kernel.resources index).acquiredTick kernel.ticks) epoch ≤
        gmResourceBucketTicks := by
  have shown := accounted.shown epoch
  have amount := amount_holdPieces_le (accounted.started held) epoch
  have distinct := (accounted.ascending_live held).imp ne_of_lt
  have bound := UsageRing.usage_le_width
    (show 0 < gmResourceBucketTicks by decide) distinct epoch
  rw [UsageRing.usage_append] at bound
  omega

theorem Accounted.endHold_usage (slot : GmSlot) :
    gmUsage (kernel.endHold index slot) =
      (gmUsage kernel).chargeAll gmResourceBuckets index
        (holdPieces (kernel.resources index).acquiredTick kernel.ticks) :=
  (endHold_effect index slot (accounted.started held)).usage fun epoch =>
    lt_of_le_of_lt (accounted.small held epoch) (by decide)

end

/-- A hold ends: its ticks are completed and charged. -/
theorem BooksInOrder.endHold (order : BooksInOrder kernel)
    (held : (kernel.resources index).owner ≠ 0) (slot : GmSlot) :
    BooksInOrder (kernel.endHold index slot) := by
  have before := order.accounted index
  have effect := endHold_effect index slot (before.started held)
  have usage := before.endHold_usage held slot
  have shown : ∀ other epoch, gmShown (kernel.endHold index slot) other epoch ≤
      gmShown kernel other epoch + UsageRing.share index
        (holdPieces (kernel.resources index).acquiredTick kernel.ticks)
        other epoch := by
    intro other epoch
    unfold gmShown
    rw [usage]
    exact UsageRing.shown_chargeAll_le index _ _ other epoch
  constructor
  · rw [usage]
    exact order.tagged.chargeAll index _
  intro other
  by_cases same : other = index
  · subst same
    have ticks := effect.completedTicks before held
    constructor
    · rw [effect.use before held, if_pos effect.owner]
    · intro owned
      exact absurd effect.owner owned
    · rw [effect.totalTicks, ticks, List.length_append, List.length_range',
        before.total]
    · rw [effect.maxHold, effect.use before held, before.longest]
      simp only [longestHold, List.foldl_append, List.foldl_cons,
        List.foldl_nil]
    · rw [effect.acquisitions, effect.marks, if_pos rfl, gmGrants_snoc,
        before.grants]
      rfl
    · rw [ticks]
      exact before.ascending_live held
    · intro tick member
      refine ⟨?_, fun owned => absurd effect.owner owned⟩
      rw [ticks] at member
      rw [effect.ticks]
      rcases List.mem_append.mp member with old | new
      · exact (before.past tick old).1
      · have early := List.mem_range'_1.mp new
        omega
    · intro epoch
      rw [ticks, UsageRing.usage_append]
      refine le_trans (shown other epoch) ?_
      rw [UsageRing.share, if_pos rfl]
      exact Nat.add_le_add (before.shown epoch)
        (amount_holdPieces_le (before.started held) epoch)
  · refine (order.accounted other).congr (effect.others other same) ?_
      (le_of_eq effect.ticks.symm) ?_
    · rw [effect.marks, if_neg (Ne.symm same), List.append_nil]
    · intro epoch
      have bound := shown other epoch
      rwa [UsageRing.share, if_neg same, Nat.add_zero] at bound

end

theorem BooksInOrder.step (order : BooksInOrder before)
    (step : BookStep before after) : BooksInOrder after := by
  cases step with
  | same same => exact order.same same
  | began index slot free same => exact (order.beginHold index slot).same same
  | ended index slot held same => exact (order.endHold held slot).same same

theorem BooksInOrder.books (order : BooksInOrder before)
    (books : Books before after) : BooksInOrder after := by
  induction books with
  | refl => exact order
  | tail earlier step induction => exact induction.step step

theorem gmProgramsInit_inOrder (kernelCr3 : UInt64) (cr3 : GmSlot → UInt64) :
    BooksInOrder (gmProgramsInit kernelCr3 cr3) := by
  have empty : ∀ index epoch,
      gmShown (gmProgramsInit kernelCr3 cr3) index epoch = 0 := by
    intro index epoch
    unfold gmShown UsageRing.shown
    split <;> rfl
  constructor
  · constructor
    · intro bucket inside epoch owned
      cases owned
    · intro bucket inside free meter
      rfl
  · intro index
    constructor
    · rfl
    · intro held
      exact absurd rfl held
    · rfl
    · rfl
    · rfl
    · exact List.Pairwise.nil
    · intro tick member
      cases member
    · intro epoch
      rw [empty]
      exact Nat.zero_le _

theorem gmStep_inOrder {step : GmStep} (order : BooksInOrder kernel)
    (stepped : gmStep step kernel = .ok after) : BooksInOrder after := by
  rcases (gmStep_books stepped).1 with books | books
  · exact order.books books
  · exact order.tick.books books

theorem gmRun_inOrder {kernelCr3 : UInt64} {cr3 : GmSlot → UInt64}
    {steps : List GmStep}
    (ran : gmRun steps (gmProgramsInit kernelCr3 cr3) = .ok kernel) :
    BooksInOrder kernel :=
  runSteps_keeps (fun _ _ _ order stepped => gmStep_inOrder order stepped)
    (gmProgramsInit_inOrder kernelCr3 cr3) ran

end Gmker.Programs
