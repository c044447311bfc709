import Mathlib.Algebra.Order.BigOperators.Group.Finset
import Gmker.Programs.Ownership
import Gmker.Programs.Usage

/-!
# The usage figures over whole runs

The ticks during which a resource was owned are read off a run by looking at
its owner whenever the timer counts a tick.  The totals agree with them
exactly, and the recent usage never exceeds those of the last ten minutes.
-/

namespace Gmker.Programs

open Foundation

variable {before after : GmKernel}

/-- The ticks of a run during which a resource was owned. -/
def gmOwnedTicks (index : GmResourceIndex) : List GmStep → GmKernel → List Nat
  | [], _ => []
  | step :: steps, kernel =>
    match gmStep step kernel with
    | .error _ => []
    | .ok next =>
      if kernel.ticks < next.ticks ∧
          (kernel.resources index).owner ≠ 0 then
        kernel.ticks :: gmOwnedTicks index steps next
      else gmOwnedTicks index steps next

/-- The ticks of all holds, the current one included. -/
def GmKernel.ownedTicks (kernel : GmKernel) (index : GmResourceIndex) :
    List Nat :=
  kernel.completedTicks index ++
    if (kernel.resources index).owner = 0 then []
    else
      List.range' (kernel.resources index).acquiredTick
        (kernel.ticks - (kernel.resources index).acquiredTick)

/-! ## The owned ticks of a run -/

theorem SameBooks.ownedTicks (same : SameBooks before after)
    (index : GmResourceIndex) :
    after.ownedTicks index = before.ownedTicks index := by
  have book := same.resources index
  unfold GmKernel.ownedTicks GmKernel.completedTicks
  rw [same.use, same.ticks, book.owner, book.acquiredTick]

/-- Beginning or ending a hold adds no tick. -/
theorem BookStep.ownedTicks (order : BooksInOrder before)
    (step : BookStep before after) (index : GmResourceIndex) :
    after.ownedTicks index = before.ownedTicks index := by
  cases step with
  | same same => exact same.ownedTicks index
  | began started slot free same =>
    rw [same.ownedTicks]
    unfold GmKernel.ownedTicks
    rw [beginHold_completedTicks]
    by_cases here : index = started
    · subst here
      rw [beginHold_self, if_pos free, if_neg (Nat.succ_ne_zero _)]
      exact congrArg _ (congrArg (List.range' before.ticks)
        (Nat.sub_self before.ticks))
    · rw [beginHold_of_ne before here]
      rfl
  | ended freed slot held same =>
    rw [same.ownedTicks]
    have accounted := order.accounted freed
    have effect := endHold_effect freed slot (accounted.started held)
    by_cases here : index = freed
    · subst here
      unfold GmKernel.ownedTicks
      rw [effect.completedTicks accounted held, if_pos effect.owner,
        if_neg held, List.append_nil]
    · have figures := effect.others index here
      unfold GmKernel.ownedTicks GmKernel.completedTicks
      rw [effect.use_of_ne here, figures.owner, figures.acquiredTick,
        effect.ticks]

theorem Books.ownedTicks (books : Books before after)
    (order : BooksInOrder before) (index : GmResourceIndex) :
    after.ownedTicks index = before.ownedTicks index := by
  induction books with
  | refl => rfl
  | tail earlier step induction =>
    rw [step.ownedTicks (order.books earlier), induction]

theorem Books.ticks (books : Books before after) (order : BooksInOrder before) :
    after.ticks = before.ticks := by
  induction books with
  | refl => rfl
  | tail earlier step induction =>
    rw [← induction]
    cases step with
    | same same => exact same.ticks
    | began index slot free same => exact same.ticks
    | ended index slot held same =>
      have accounted := (order.books earlier).accounted index
      exact same.ticks.trans
        (endHold_effect index slot (accounted.started held)).ticks

theorem BooksInOrder.tick_ownedTicks {kernel : GmKernel}
    (order : BooksInOrder kernel) (index : GmResourceIndex) :
    kernel.tick.ownedTicks index = kernel.ownedTicks index ++
      if (kernel.resources index).owner ≠ 0 then [kernel.ticks] else [] := by
  have accounted := order.accounted index
  by_cases held : (kernel.resources index).owner = 0
  · have free : (kernel.tick.resources index).owner = 0 := held
    unfold GmKernel.ownedTicks
    rw [if_pos held, if_pos free, if_neg (not_not.mpr held)]
    simp only [List.append_nil]
    rfl
  · have owned : (kernel.tick.resources index).owner ≠ 0 := held
    have started := accounted.started held
    unfold GmKernel.ownedTicks
    rw [if_neg held, if_neg owned, if_pos held, List.append_assoc]
    refine congrArg (kernel.completedTicks index ++ ·) ?_
    have grown : kernel.tick.ticks - (kernel.resources index).acquiredTick =
        kernel.ticks - (kernel.resources index).acquiredTick + 1 := by
      have next : kernel.tick.ticks = kernel.ticks + 1 := rfl
      omega
    change List.range' (kernel.resources index).acquiredTick
      (kernel.tick.ticks - (kernel.resources index).acquiredTick) = _
    rw [grown, List.range'_1_concat, Nat.add_sub_cancel' started]

theorem gmOwnedTicks_eq {index : GmResourceIndex} :
    ∀ {steps : List GmStep} {kernel final : GmKernel}, BooksInOrder kernel →
      gmRun steps kernel = .ok final →
      final.ownedTicks index =
        kernel.ownedTicks index ++ gmOwnedTicks index steps kernel := by
  intro steps
  induction steps with
  | nil =>
    intro kernel final order ran
    cases ran
    exact (List.append_nil _).symm
  | cons step steps induction =>
    intro kernel final order ran
    unfold gmRun runSteps at ran
    unfold gmOwnedTicks
    cases stepped : gmStep step kernel with
    | error panic =>
      rw [stepped] at ran
      cases ran
    | ok next =>
      rw [stepped] at ran
      dsimp only at ran ⊢
      have later := induction (gmStep_inOrder order stepped) ran
      rw [later]
      rcases (gmStep_books stepped).1 with books | books
      · have still := books.ticks order
        rw [if_neg (by omega), books.ownedTicks order]
      · have counted : next.ticks = kernel.ticks + 1 :=
          books.ticks order.tick
        rw [books.ownedTicks order.tick, order.tick_ownedTicks]
        by_cases held : (kernel.resources index).owner = 0
        · rw [if_neg (not_not.mpr held),
            if_neg (fun both => both.2 held), List.append_nil]
        · rw [if_pos held, if_pos ⟨by omega, held⟩, List.append_assoc]
          rfl

theorem gmRun_ownedTicks {kernelCr3 : UInt64} {cr3 : GmSlot → UInt64}
    {steps : List GmStep} {kernel : GmKernel}
    (ran : gmRun steps (gmProgramsInit kernelCr3 cr3) = .ok kernel)
    (index : GmResourceIndex) :
    kernel.ownedTicks index =
      gmOwnedTicks index steps (gmProgramsInit kernelCr3 cr3) :=
  gmOwnedTicks_eq (gmProgramsInit_inOrder kernelCr3 cr3) ran

section

variable {kernel : GmKernel} {index : GmResourceIndex}
  (accounted : Accounted kernel index)

include accounted

theorem Accounted.ownedTicks_ascending :
    (kernel.ownedTicks index).Pairwise (· < ·) := by
  unfold GmKernel.ownedTicks
  by_cases held : (kernel.resources index).owner = 0
  · rw [if_pos held, List.append_nil]
    exact accounted.ascending
  · rw [if_neg held]
    exact accounted.ascending_live held

/-! ## Totals -/

/-- The longest hold up to a tick, the current one included. -/
def GmUse.longest (use : GmUse) (now : Nat) : Nat :=
  max (longestHold use.completed)
    (match use.live with
    | none => 0
    | some since => now - since)

theorem Accounted.live_eq :
    gmResourceLive (kernel.resources index) kernel.ticks =
      if (kernel.resources index).owner = 0 then 0
      else kernel.ticks - (kernel.resources index).acquiredTick := by
  unfold gmResourceLive
  by_cases held : (kernel.resources index).owner = 0
  · rw [if_pos (.inl held), if_pos held]
  · have started := accounted.started held
    rw [if_neg held, if_neg (by omega)]

theorem Accounted.total_live :
    (kernel.resources index).totalTicks +
        gmResourceLive (kernel.resources index) kernel.ticks =
      (kernel.ownedTicks index).length := by
  rw [accounted.live_eq, accounted.total, GmKernel.ownedTicks,
    List.length_append]
  split
  · rfl
  · rw [List.length_range']

theorem Accounted.longest_live :
    max (kernel.resources index).maxHold
        (gmResourceLive (kernel.resources index) kernel.ticks) =
      (kernel.use index).longest kernel.ticks := by
  rw [accounted.live_eq, accounted.longest, GmUse.longest, accounted.live]
  by_cases held : (kernel.resources index).owner = 0
  · rw [if_pos held, if_pos held]
  · rw [if_neg held, if_neg held]

end

/-- Total, maximum and grant count are exact at every point of every run, and
so is what the `resources` command shows of them. -/
theorem gmRun_totals_exact (kernelCr3 : UInt64) (cr3 : GmSlot → UInt64)
    (steps : List GmStep) (index : GmResourceIndex) :
    ∃ kernel, gmRun steps (gmProgramsInit kernelCr3 cr3) = .ok kernel ∧
      (kernel.resources index).totalTicks +
          gmResourceLive (kernel.resources index) kernel.ticks =
        (gmOwnedTicks index steps (gmProgramsInit kernelCr3 cr3)).length ∧
      max (kernel.resources index).maxHold
          (gmResourceLive (kernel.resources index) kernel.ticks) =
        (gmUse (gmMarks index kernel.history)).longest kernel.ticks ∧
      (kernel.resources index).acquisitions =
        gmGrants (gmMarks index kernel.history) ∧
      ∃ status, gmResourceStatus (resourceId index) kernel.ticks kernel =
          some status ∧
        status.total =
          (gmOwnedTicks index steps (gmProgramsInit kernelCr3 cr3)).length ∧
        status.max =
          (gmUse (gmMarks index kernel.history)).longest kernel.ticks ∧
        status.acquisitions = gmGrants (gmMarks index kernel.history) := by
  obtain ⟨kernel, ran, -⟩ := gmRun_tracks kernelCr3 cr3 steps
  have accounted := (gmRun_inOrder ran).accounted index
  have total := accounted.total_live
  rw [gmRun_ownedTicks ran] at total
  have longest : max (kernel.resources index).maxHold
      (gmResourceLive (kernel.resources index) kernel.ticks) =
        (gmUse (gmMarks index kernel.history)).longest kernel.ticks :=
    accounted.longest_live
  refine ⟨kernel, ran, total, longest, accounted.grants, ?_⟩
  unfold gmResourceStatus
  rw [gmResourceGet_resourceId]
  refine ⟨_, rfl, total, ?_, accounted.grants⟩
  rw [← longest]
  dsimp only
  split <;> omega

/-! ## Recent usage -/

/-- A loop that adds one term in every turn computes a sum. -/
private theorem foldl_range_add {turn : Nat → Nat → Nat} {term : Nat → Nat}
    (adds : ∀ sum position, turn sum position = sum + term position)
    (count : Nat) :
    (List.range count).foldl turn 0 =
      ∑ position ∈ Finset.range count, term position := by
  induction count with
  | zero => rfl
  | succ count induction =>
    rw [List.range_succ, List.foldl_append, induction, Finset.sum_range_succ]
    exact adds _ _

/-- The loop of `gm_resource_recent` reads the buckets of the last epochs. -/
theorem gmResourceRecent_buckets (kernel : GmKernel) (index : GmResourceIndex)
    (now : Nat) :
    (List.range gmResourceBuckets).foldl
        (gmResourceRecentTurn kernel.resourceEpochs
          (kernel.resources index).recent (now / gmResourceBucketTicks)) 0 =
      (gmUsage kernel).reading gmResourceBuckets gmResourceBucketTicks index
        now := by
  apply foldl_range_add
  intro sum bucket
  change gmResourceRecentTurn (gmUsage kernel).tags
    ((gmUsage kernel).fill index) (now / gmResourceBucketTicks) sum bucket = _
  generalize gmUsage kernel = ring
  unfold gmResourceRecentTurn
  dsimp only
  by_cases used : ring.tags bucket = 0
  · rw [if_pos used, if_neg (fun covered => covered.1 used), Nat.add_zero]
  · rw [if_neg used]
    by_cases covered : ring.tags bucket - 1 ≤ now / gmResourceBucketTicks ∧
        now / gmResourceBucketTicks - (ring.tags bucket - 1) <
          gmResourceBuckets
    · rw [if_pos covered, if_pos ⟨used, covered⟩]
    · rw [if_neg covered, if_neg (fun both => covered both.2), Nat.add_zero]

/-- The live hold as `gm_resource_recent` counts it. -/
def GmUse.recentLive (use : GmUse) (now : Nat) : Nat :=
  match use.live with
  | none => 0
  | some since => now - clippedStart since now

section

variable {kernel : GmKernel} {index : GmResourceIndex}

/-- Recent usage is what the last epochs show, and the live hold. -/
theorem BooksInOrder.recent_eq (order : BooksInOrder kernel) :
    gmResourceRecent kernel.resourceEpochs (kernel.resources index)
        kernel.ticks =
      ∑ epoch ∈ UsageRing.window gmResourceBuckets
          (kernel.ticks / gmResourceBucketTicks), gmShown kernel index epoch +
        (kernel.use index).recentLive kernel.ticks := by
  have accounted := order.accounted index
  have shown : ∑ epoch ∈ UsageRing.window gmResourceBuckets
      (kernel.ticks / gmResourceBucketTicks), gmShown kernel index epoch =
        (gmUsage kernel).reading gmResourceBuckets gmResourceBucketTicks index
          kernel.ticks :=
    (order.tagged.reading_eq (by decide) index kernel.ticks).symm
  unfold gmResourceRecent
  dsimp only
  rw [gmResourceRecent_buckets, shown, GmUse.recentLive, accounted.live]
  by_cases held : (kernel.resources index).owner = 0
  · rw [if_neg (fun both => both.1 held), if_pos held]
    exact (Nat.add_zero _).symm
  · have started := accounted.started held
    have start : (if gmResourceWindowTicks < kernel.ticks ∧
        (kernel.resources index).acquiredTick <
          kernel.ticks - gmResourceWindowTicks then
          kernel.ticks - gmResourceWindowTicks
        else (kernel.resources index).acquiredTick) =
        clippedStart (kernel.resources index).acquiredTick kernel.ticks := by
      unfold clippedStart
      split <;> omega
    rw [if_pos ⟨held, started⟩, if_neg held, start]

/-- The owned ticks of the last ten minutes. -/
def recentTicks (now : Nat) (ticks : List Nat) : Nat :=
  ticks.countP fun tick => now - gmResourceWindowTicks ≤ tick ∧ tick < now

/-- An epoch that is read begins within the last ten minutes. -/
private theorem window_recent {now tick : Nat}
    (read : tick / gmResourceBucketTicks ∈ UsageRing.window gmResourceBuckets
      (now / gmResourceBucketTicks)) : now - gmResourceWindowTicks ≤ tick := by
  have covered := (UsageRing.mem_window.mp read).2
  simp only [gmResourceBuckets, gmResourceWindowTicks, gmResourceBucketTicks,
    gmTickHz] at covered ⊢
  omega

theorem recentTicks_range {acquired now : Nat} (started : acquired ≤ now) :
    recentTicks now (List.range' acquired (now - acquired)) =
      now - clippedStart acquired now := by
  have clipped : clippedStart acquired now =
      max acquired (now - gmResourceWindowTicks) := rfl
  rw [range_clippedStart started, recentTicks, List.countP_append]
  have before : (List.range' acquired
      (clippedStart acquired now - acquired)).countP
        (fun tick => now - gmResourceWindowTicks ≤ tick ∧ tick < now) = 0 := by
    apply List.countP_eq_zero.mpr
    intro tick member
    have place := List.mem_range'_1.mp member
    simp only [decide_eq_true_eq]
    omega
  have after : (List.range' (clippedStart acquired now)
      (now - clippedStart acquired now)).countP
        (fun tick => now - gmResourceWindowTicks ≤ tick ∧ tick < now) =
      now - clippedStart acquired now := by
    rw [List.countP_eq_length.mpr, List.length_range']
    intro tick member
    have place := List.mem_range'_1.mp member
    simp only [decide_eq_true_eq]
    omega
  rw [before, after, Nat.zero_add]

theorem BooksInOrder.recent_le (order : BooksInOrder kernel) :
    gmResourceRecent kernel.resourceEpochs (kernel.resources index)
        kernel.ticks ≤
      recentTicks kernel.ticks (kernel.ownedTicks index) := by
  have accounted := order.accounted index
  have completed : ∑ epoch ∈ UsageRing.window gmResourceBuckets
      (kernel.ticks / gmResourceBucketTicks), gmShown kernel index epoch ≤
        recentTicks kernel.ticks (kernel.completedTicks index) := by
    calc
      _ ≤ ∑ epoch ∈ UsageRing.window gmResourceBuckets
            (kernel.ticks / gmResourceBucketTicks),
            UsageRing.usage gmResourceBucketTicks
              (kernel.completedTicks index) epoch :=
          Finset.sum_le_sum fun epoch _ => accounted.shown epoch
      _ = (kernel.completedTicks index).countP fun tick =>
            tick / gmResourceBucketTicks ∈ UsageRing.window gmResourceBuckets
              (kernel.ticks / gmResourceBucketTicks) :=
          UsageRing.sum_usage _ _
      _ ≤ recentTicks kernel.ticks (kernel.completedTicks index) := by
          apply List.countP_mono_left
          intro tick member read
          simp only [decide_eq_true_eq] at read ⊢
          exact ⟨window_recent read, (accounted.past tick member).1⟩
  have live : (kernel.use index).recentLive kernel.ticks =
      recentTicks kernel.ticks
        (if (kernel.resources index).owner = 0 then []
        else List.range' (kernel.resources index).acquiredTick
          (kernel.ticks - (kernel.resources index).acquiredTick)) := by
    rw [GmUse.recentLive, accounted.live]
    by_cases held : (kernel.resources index).owner = 0
    · rw [if_pos held, if_pos held]
      rfl
    · rw [if_neg held, if_neg held]
      exact (recentTicks_range (accounted.started held)).symm
  have split : recentTicks kernel.ticks (kernel.ownedTicks index) =
      recentTicks kernel.ticks (kernel.completedTicks index) +
        (kernel.use index).recentLive kernel.ticks := by
    rw [live]
    exact List.countP_append
  rw [order.recent_eq, split]
  exact Nat.add_le_add_right completed _

theorem Accounted.recentTicks_le (accounted : Accounted kernel index) :
    recentTicks kernel.ticks (kernel.ownedTicks index) ≤
      gmResourceWindowTicks := by
  have distinct := (accounted.ownedTicks_ascending.imp ne_of_lt).filter
    (fun tick => decide (kernel.ticks - gmResourceWindowTicks ≤ tick ∧
      tick < kernel.ticks))
  rw [recentTicks, List.countP_eq_length_filter]
  refine le_trans (UsageRing.length_le_of_nodup distinct ?_)
    (show kernel.ticks - (kernel.ticks - gmResourceWindowTicks) ≤
      gmResourceWindowTicks by omega)
  intro tick member
  exact of_decide_eq_true (List.mem_filter.mp member).2

theorem BooksInOrder.bucket_le (order : BooksInOrder kernel) {bucket : Nat}
    (inside : bucket < gmResourceBuckets) :
    (kernel.resources index).recent bucket ≤ gmResourceBucketTicks := by
  have accounted := order.accounted index
  rcases order.tagged.fill_eq_shown inside index with empty | ⟨epoch, shown⟩
  · have content : (kernel.resources index).recent bucket = 0 := empty
    rw [content]
    exact Nat.zero_le _
  · have content : (kernel.resources index).recent bucket =
        gmShown kernel index epoch := shown
    rw [content]
    refine le_trans (accounted.shown epoch) ?_
    exact UsageRing.usage_le_width (by decide)
      (accounted.ascending.imp ne_of_lt) epoch

end

/-! ## The turns of the accounting loop -/

/-- The stretches of time that the turns of the accounting loop charge. -/
def gmResourceAccountTurns (now : Nat) : Nat → Nat → List (Nat × Nat)
  | 0, _ => []
  | fuel + 1, start =>
    if start < now then
      let finish :=
        min ((start / gmResourceBucketTicks + 1) * gmResourceBucketTicks) now
      (start, finish) :: gmResourceAccountTurns now fuel finish
    else []

/-- The loop does one turn after the other, and nothing else. -/
theorem gmResourceAccountLoop_turns (index : GmResourceIndex) (now : Nat) :
    ∀ fuel start kernel, gmResourceAccountLoop index now fuel start kernel =
      (gmResourceAccountTurns now fuel start).foldl
        (fun kernel turn => gmResourceCharge index turn.1 turn.2 kernel)
        kernel := by
  intro fuel
  induction fuel with
  | zero =>
    intro start kernel
    rfl
  | succ fuel induction =>
    intro start kernel
    rw [gmResourceAccountLoop, gmResourceAccountTurns]
    split
    · exact induction _ _
    · rfl

theorem gmResourceAccountTurns_length (now : Nat) :
    ∀ fuel start, (gmResourceAccountTurns now fuel start).length =
      (UsageRing.pieces gmResourceBucketTicks now fuel start).length := by
  intro fuel
  induction fuel with
  | zero =>
    intro start
    rfl
  | succ fuel induction =>
    intro start
    rw [gmResourceAccountTurns, UsageRing.pieces]
    split
    · exact congrArg (· + 1) (induction _)
    · rfl

/-- A clipped hold touches sixty epochs and the rest of one more. -/
theorem gmResourceAccountTurns_bounded (acquired now : Nat) :
    (gmResourceAccountTurns now (now - clippedStart acquired now)
      (clippedStart acquired now)).length ≤ gmResourceBuckets + 1 := by
  have clipped : now - gmResourceWindowTicks ≤ clippedStart acquired now :=
    Nat.le_max_right _ _
  rw [gmResourceAccountTurns_length]
  generalize clippedStart acquired now = start at clipped
  have length := UsageRing.pieces_length
    (show 0 < gmResourceBucketTicks by decide) now (now - start) start
  simp only [gmResourceBuckets, gmResourceWindowTicks, gmResourceBucketTicks,
    gmTickHz] at clipped length ⊢
  omega

/-- Recent usage never exceeds the ticks of ownership in the last ten minutes,
no bucket exceeds the ticks of its epoch, so charging a hold computes what it
would without the 32-bit bound, and it takes at most 61 turns. -/
theorem gmRun_recent_bounded (kernelCr3 : UInt64) (cr3 : GmSlot → UInt64)
    (steps : List GmStep) (index : GmResourceIndex) :
    ∃ kernel, gmRun steps (gmProgramsInit kernelCr3 cr3) = .ok kernel ∧
      gmResourceRecent kernel.resourceEpochs (kernel.resources index)
          kernel.ticks ≤
        recentTicks kernel.ticks
          (gmOwnedTicks index steps (gmProgramsInit kernelCr3 cr3)) ∧
      recentTicks kernel.ticks
          (gmOwnedTicks index steps (gmProgramsInit kernelCr3 cr3)) ≤ 60000 ∧
      (∀ bucket < gmResourceBuckets,
        (kernel.resources index).recent bucket ≤ 1000) ∧
      (∀ slot, (kernel.resources index).owner ≠ 0 →
        gmUsage (kernel.endHold index slot) =
          (gmUsage kernel).chargeAll gmResourceBuckets index
            (holdPieces (kernel.resources index).acquiredTick kernel.ticks)) ∧
      ((kernel.resources index).owner ≠ 0 →
        ∃ start, gmResourceAccount index kernel.ticks kernel =
            (gmResourceAccountTurns kernel.ticks (kernel.ticks - start)
              start).foldl
              (fun kernel turn => gmResourceCharge index turn.1 turn.2 kernel)
              (kernel.bookHold index) ∧
          (gmResourceAccountTurns kernel.ticks (kernel.ticks - start)
            start).length ≤ 61) := by
  obtain ⟨kernel, ran, -⟩ := gmRun_tracks kernelCr3 cr3 steps
  have order := gmRun_inOrder ran
  have accounted := order.accounted index
  rw [← gmRun_ownedTicks ran]
  refine ⟨kernel, ran, order.recent_le, accounted.recentTicks_le,
    fun bucket inside => order.bucket_le inside,
    fun slot held => accounted.endHold_usage held slot, ?_⟩
  intro held
  refine ⟨_, ?_, gmResourceAccountTurns_bounded
    (kernel.resources index).acquiredTick kernel.ticks⟩
  rw [gmResourceAccount_eq (accounted.started held)]
  exact gmResourceAccountLoop_turns index kernel.ticks _ _ _

end Gmker.Programs
