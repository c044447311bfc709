import Gmker.Programs.UsageFigures

/-!
# Independence of the usage figures

The buckets of both resources share their epoch tags.  A hold that reaches
sixty epochs back recycles the bucket of the current epoch before it charges
it, and takes with it what the other resource has completed there.  Apart from
that, recent usage depends on the holds of its own resource only.
-/

namespace Gmker.Programs

open Foundation

variable {holds : List (Nat × Nat)} {before after kernel : GmKernel}
  {index : GmResourceIndex}

/-- A hold whose charged part starts in the epoch that shares its bucket with
the epoch it ends in. -/
def ReachesRound (hold : Nat × Nat) : Prop :=
  clippedStart hold.1 hold.2 / gmResourceBucketTicks + gmResourceBuckets ≤
    hold.2 / gmResourceBucketTicks

/-- No hold of another resource that goes a whole round of the buckets has
ended in an epoch in which a hold of this one had ended before. -/
def Undisturbed (index : GmResourceIndex) (use : GmResourceIndex → GmUse) :
    Prop :=
  ∀ other ≠ index, ∀ hold ∈ (use other).completed, ReachesRound hold →
    ∀ own ∈ (use index).completed, own.2 ≤ hold.2 →
      own.2 ≤ hold.2 / gmResourceBucketTicks * gmResourceBucketTicks

instance (hold : Nat × Nat) : Decidable (ReachesRound hold) :=
  inferInstanceAs (Decidable (_ ≤ _))

instance (index : GmResourceIndex) (use : GmResourceIndex → GmUse) :
    Decidable (Undisturbed index use) :=
  inferInstanceAs (Decidable (∀ other ≠ index, ∀ hold ∈ (use other).completed,
    ReachesRound hold → ∀ own ∈ (use index).completed, own.2 ≤ hold.2 →
      own.2 ≤ hold.2 / gmResourceBucketTicks * gmResourceBucketTicks))

/-- A tick that one of the holds covers. -/
def covered (holds : List (Nat × Nat)) (tick : Nat) : Bool :=
  holds.any fun hold => hold.1 ≤ tick && tick < hold.2

/-- The completed ticks of the last sixty epochs and the clipped live hold. -/
def GmUse.recent (use : GmUse) (now : Nat) : Nat :=
  (List.range now).countP (fun tick => covered use.completed tick &&
    decide (now / gmResourceBucketTicks <
      tick / gmResourceBucketTicks + gmResourceBuckets)) +
    use.recentLive now

/-! ## Completed ticks -/

theorem mem_heldTicks {tick : Nat} :
    tick ∈ heldTicks holds ↔
      ∃ hold ∈ holds, hold.1 ≤ tick ∧ tick < hold.2 := by
  simp only [heldTicks, List.mem_flatMap, List.mem_range'_1]
  constructor
  · rintro ⟨hold, member, low, high⟩
    exact ⟨hold, member, low, by omega⟩
  · rintro ⟨hold, member, low, high⟩
    exact ⟨hold, member, low, by omega⟩

theorem covered_iff {tick : Nat} :
    covered holds tick = true ↔ tick ∈ heldTicks holds := by
  rw [mem_heldTicks, covered, List.any_eq_true]
  simp only [Bool.and_eq_true, decide_eq_true_eq]

/-- Counting the ticks of ordered holds is counting the ticks they cover. -/
theorem countP_heldTicks {now : Nat} (distinct : (heldTicks holds).Nodup)
    (past : ∀ tick ∈ heldTicks holds, tick < now) (test : Nat → Bool) :
    (heldTicks holds).countP test =
      (List.range now).countP fun tick => covered holds tick && test tick := by
  rw [List.countP_eq_length_filter, List.countP_eq_length_filter]
  apply List.Perm.length_eq
  rw [List.perm_ext_iff_of_nodup (distinct.filter _)
    (List.nodup_range.filter _)]
  intro tick
  simp only [List.mem_filter, List.mem_range, Bool.and_eq_true, covered_iff]
  constructor
  · rintro ⟨member, passed⟩
    exact ⟨past tick member, member, passed⟩
  · rintro ⟨-, member, passed⟩
    exact ⟨member, passed⟩

/-! ## Exact buckets -/

/-- The buckets of a resource show exactly its completed ticks. -/
def ExactBuckets (kernel : GmKernel) (index : GmResourceIndex) : Prop :=
  UsageRing.Exact gmResourceBuckets (gmUsage kernel) index
    (kernel.ticks / gmResourceBucketTicks)
    (UsageRing.usage gmResourceBucketTicks (kernel.completedTicks index))

section

variable {kernel : GmKernel} {index : GmResourceIndex}

/-- The pieces of a hold lie in the last sixty epochs and the one before. -/
theorem mem_holdPieces {acquired now : Nat} {piece : Nat × Nat}
    (member : piece ∈ holdPieces acquired now) :
    clippedStart acquired now / gmResourceBucketTicks ≤ piece.1 ∧
      piece.1 ≤ now / gmResourceBucketTicks ∧
      now / gmResourceBucketTicks ≤ piece.1 + gmResourceBuckets := by
  obtain ⟨-, low, high⟩ := UsageRing.mem_pieces
    (show 0 < gmResourceBucketTicks by decide) _ _ member
  have clipped : now - gmResourceWindowTicks ≤ clippedStart acquired now :=
    Nat.le_max_right _ _
  refine ⟨low, high, ?_⟩
  simp only [gmResourceBuckets, gmResourceWindowTicks, gmResourceBucketTicks,
    gmTickHz] at clipped low ⊢
  omega

/-- Charging a hold keeps the buckets of a resource exact, unless it goes a
whole round and the resource has used the current epoch. -/
theorem ExactBuckets.charge (exact : ExactBuckets kernel index)
    (charged : GmResourceIndex) (acquired : Nat)
    (safe : ReachesRound (acquired, kernel.ticks) →
      ∀ tick ∈ kernel.completedTicks index,
        tick / gmResourceBucketTicks ≠ kernel.ticks / gmResourceBucketTicks) :
    UsageRing.Exact gmResourceBuckets
      ((gmUsage kernel).chargeAll gmResourceBuckets charged
        (holdPieces acquired kernel.ticks)) index
      (kernel.ticks / gmResourceBucketTicks)
      (fun epoch => UsageRing.usage gmResourceBucketTicks
          (kernel.completedTicks index) epoch +
        UsageRing.share charged (holdPieces acquired kernel.ticks) index
          epoch) := by
  apply UsageRing.Exact.chargeAll exact charged
  · exact UsageRing.pieces_ascending (by decide) _ _ _
  · intro piece member
    exact (mem_holdPieces member).2.1
  · intro piece member
    exact (mem_holdPieces member).2.2
  · by_cases round : ReachesRound (acquired, kernel.ticks)
    · exact .inr (UsageRing.usage_eq_zero (safe round))
    · refine .inl fun piece member => ?_
      have low := (mem_holdPieces member).1
      unfold ReachesRound at round
      dsimp only at round
      omega

/-- The clipped part of a hold lies before the epochs that are read. -/
theorem usage_clipped {acquired now epoch : Nat}
    (recent : now / gmResourceBucketTicks < epoch + gmResourceBuckets) :
    UsageRing.usage gmResourceBucketTicks
      (List.range' acquired (clippedStart acquired now - acquired)) epoch =
        0 := by
  apply UsageRing.usage_eq_zero
  intro tick member here
  have place := List.mem_range'_1.mp member
  have clipped : clippedStart acquired now =
      max acquired (now - gmResourceWindowTicks) := rfl
  simp only [gmResourceBuckets, gmResourceWindowTicks, gmResourceBucketTicks,
    gmTickHz] at clipped recent here
  omega

theorem ExactBuckets.endHold_self (exact : ExactBuckets kernel index)
    (accounted : Accounted kernel index)
    (held : (kernel.resources index).owner ≠ 0) (slot : GmSlot) :
    ExactBuckets (kernel.endHold index slot) index := by
  have started := accounted.started held
  have effect := endHold_effect index slot started
  unfold ExactBuckets
  rw [accounted.endHold_usage held, effect.ticks,
    effect.completedTicks accounted held]
  refine (exact.charge index (kernel.resources index).acquiredTick ?_).congr ?_
  · -- What was completed before the hold lies before its first epoch.
    intro round tick member
    have early := (accounted.past tick member).2 held
    have low : (kernel.resources index).acquiredTick ≤
        clippedStart (kernel.resources index).acquiredTick kernel.ticks :=
      Nat.le_max_left _ _
    unfold ReachesRound at round
    simp only [gmResourceBuckets, gmResourceBucketTicks, gmTickHz] at round ⊢
    omega
  · intro epoch recent
    rw [UsageRing.usage_append, range_clippedStart started,
      UsageRing.usage_append, usage_clipped recent, Nat.zero_add,
      UsageRing.share, if_pos rfl, amount_holdPieces]

theorem ExactBuckets.endHold_other (exact : ExactBuckets kernel index)
    {freed : GmResourceIndex} (different : index ≠ freed)
    (accounted : Accounted kernel freed)
    (held : (kernel.resources freed).owner ≠ 0) (slot : GmSlot)
    (safe : ReachesRound ((kernel.resources freed).acquiredTick, kernel.ticks) →
      ∀ tick ∈ kernel.completedTicks index,
        tick / gmResourceBucketTicks ≠ kernel.ticks / gmResourceBucketTicks) :
    ExactBuckets (kernel.endHold freed slot) index := by
  have effect := endHold_effect freed slot (accounted.started held)
  have ticks : (kernel.endHold freed slot).completedTicks index =
      kernel.completedTicks index := by
    unfold GmKernel.completedTicks
    rw [effect.use_of_ne different]
  unfold ExactBuckets
  rw [accounted.endHold_usage held, effect.ticks, ticks]
  refine (exact.charge freed (kernel.resources freed).acquiredTick safe).congr
    ?_
  intro epoch recent
  rw [UsageRing.share, if_neg different, Nat.add_zero]

end

/-! ## Runs -/

theorem BookStep.completed_subset (order : BooksInOrder before)
    (step : BookStep before after) (index : GmResourceIndex) :
    ∀ hold ∈ (before.use index).completed,
      hold ∈ (after.use index).completed := by
  intro hold member
  cases step with
  | same same =>
    rw [same.use]
    exact member
  | began started slot free same =>
    rw [same.use, beginHold_completed]
    exact member
  | ended freed slot held same =>
    have accounted := order.accounted freed
    have effect := endHold_effect freed slot (accounted.started held)
    rw [same.use]
    by_cases here : index = freed
    · subst here
      rw [effect.use accounted held]
      exact List.mem_append_left _ member
    · rw [effect.use_of_ne here]
      exact member

theorem Undisturbed.earlier {before after : GmResourceIndex → GmUse}
    (clear : Undisturbed index after)
    (grows : ∀ other, ∀ hold ∈ (before other).completed,
      hold ∈ (after other).completed) : Undisturbed index before := by
  intro other different hold member round own completed
  exact clear other different hold (grows other hold member) round own
    (grows index own completed)

/-- A resource whose holds were not disturbed has exact buckets. -/
def KeepsExact (kernel : GmKernel) (index : GmResourceIndex) : Prop :=
  Undisturbed index kernel.use → ExactBuckets kernel index

theorem SameBooks.exactBuckets (same : SameBooks before after)
    (exact : ExactBuckets before index) : ExactBuckets after index := by
  unfold ExactBuckets GmKernel.completedTicks
  rw [same.usage, same.ticks, same.use]
  exact exact

theorem KeepsExact.step (keeps : KeepsExact before index)
    (order : BooksInOrder before) (step : BookStep before after) :
    KeepsExact after index := by
  intro clear
  have exact := keeps (clear.earlier (step.completed_subset order))
  cases step with
  | same same => exact same.exactBuckets exact
  | began started slot free same =>
    apply same.exactBuckets
    unfold ExactBuckets
    rw [beginHold_usage, beginHold_completedTicks]
    exact exact
  | ended freed slot held same =>
    apply same.exactBuckets
    have accounted := order.accounted freed
    have effect := endHold_effect freed slot (accounted.started held)
    by_cases here : index = freed
    · subst here
      exact exact.endHold_self accounted held slot
    · apply exact.endHold_other here accounted held slot
      intro round tick member
      obtain ⟨own, completed, low, high⟩ := mem_heldTicks.mp member
      -- The last tick of that hold has passed, so the hold has ended.
      have passed := ((order.accounted index).past (own.2 - 1)
        (mem_heldTicks.mpr ⟨own, completed, by omega, by omega⟩)).1
      have released : ((before.resources freed).acquiredTick, before.ticks) ∈
          (after.use freed).completed := by
        rw [same.use, effect.use accounted held]
        exact List.mem_append_right _ List.mem_cons_self
      have kept : own ∈ (after.use index).completed :=
        (BookStep.ended freed slot held same).completed_subset order index
          own completed
      have early := clear freed (Ne.symm here) _ released round own kept
        (show own.2 ≤ before.ticks by omega)
      simp only [gmResourceBucketTicks, gmTickHz] at early ⊢
      omega

theorem KeepsExact.books (keeps : KeepsExact before index)
    (order : BooksInOrder before) (books : Books before after) :
    KeepsExact after index := by
  induction books with
  | refl => exact keeps
  | tail earlier step induction =>
    exact induction.step (order.books earlier) step

theorem KeepsExact.tick (keeps : KeepsExact kernel index) :
    KeepsExact kernel.tick index := by
  intro clear
  have exact : ExactBuckets kernel index := keeps clear
  exact UsageRing.Exact.later exact
    (Nat.div_le_div_right (Nat.le_succ kernel.ticks))

theorem gmProgramsInit_keepsExact (kernelCr3 : UInt64)
    (cr3 : GmSlot → UInt64) (index : GmResourceIndex) :
    KeepsExact (gmProgramsInit kernelCr3 cr3) index := by
  intro clear
  constructor
  · intro epoch recent
    unfold UsageRing.shown
    split <;> rfl
  · intro epoch ahead
    rfl

theorem gmRun_keepsExact {kernelCr3 : UInt64} {cr3 : GmSlot → UInt64}
    {steps : List GmStep}
    (ran : gmRun steps (gmProgramsInit kernelCr3 cr3) = .ok kernel)
    (index : GmResourceIndex) : KeepsExact kernel index := by
  have kept : ∀ step before after,
      BooksInOrder before ∧ KeepsExact before index →
      gmStep step before = .ok after →
      BooksInOrder after ∧ KeepsExact after index := by
    rintro step before after ⟨order, keeps⟩ stepped
    refine ⟨gmStep_inOrder order stepped, ?_⟩
    rcases (gmStep_books stepped).1 with books | books
    · exact keeps.books order books
    · exact keeps.tick.books order.tick books
  exact (runSteps_keeps kept ⟨gmProgramsInit_inOrder kernelCr3 cr3,
    gmProgramsInit_keepsExact kernelCr3 cr3 index⟩ ran).2

theorem ExactBuckets.recent_eq (exact : ExactBuckets kernel index)
    (order : BooksInOrder kernel) :
    gmResourceRecent kernel.resourceEpochs (kernel.resources index)
        kernel.ticks = (kernel.use index).recent kernel.ticks := by
  have accounted := order.accounted index
  have past : ∀ tick ∈ kernel.completedTicks index, tick < kernel.ticks :=
    fun tick member => (accounted.past tick member).1
  have completed : ∑ epoch ∈ UsageRing.window gmResourceBuckets
      (kernel.ticks / gmResourceBucketTicks), gmShown kernel index epoch =
        (List.range kernel.ticks).countP (fun tick =>
          covered (kernel.use index).completed tick &&
            decide (kernel.ticks / gmResourceBucketTicks <
              tick / gmResourceBucketTicks + gmResourceBuckets)) := by
    calc
      _ = ∑ epoch ∈ UsageRing.window gmResourceBuckets
            (kernel.ticks / gmResourceBucketTicks),
            UsageRing.usage gmResourceBucketTicks
              (kernel.completedTicks index) epoch :=
          Finset.sum_congr rfl fun epoch read =>
            exact.shown epoch (UsageRing.mem_window.mp read).2
      _ = (kernel.completedTicks index).countP fun tick =>
            tick / gmResourceBucketTicks ∈ UsageRing.window gmResourceBuckets
              (kernel.ticks / gmResourceBucketTicks) :=
          UsageRing.sum_usage _ _
      _ = (kernel.completedTicks index).countP fun tick =>
            decide (kernel.ticks / gmResourceBucketTicks <
              tick / gmResourceBucketTicks + gmResourceBuckets) := by
          apply List.countP_congr
          intro tick member
          have order : tick / gmResourceBucketTicks ≤
              kernel.ticks / gmResourceBucketTicks :=
            Nat.div_le_div_right (Nat.le_of_lt (past tick member))
          simp only [decide_eq_true_eq, UsageRing.mem_window, order, true_and]
      _ = _ := countP_heldTicks (accounted.ascending.imp ne_of_lt) past _
  rw [order.recent_eq, completed, GmUse.recent]

/-- Recent usage of a resource that was not disturbed is the number of its
completed ticks in the last sixty epochs and its clipped live hold.  In
particular it is the same in two runs with the same holds of that resource,
whatever the other resource did. -/
theorem gmRun_recent_independent {leftCr3 rightCr3 : UInt64}
    {leftSpaces rightSpaces : GmSlot → UInt64}
    {leftSteps rightSteps : List GmStep}
    {left right : GmKernel} {index : GmResourceIndex}
    (leftRan : gmRun leftSteps (gmProgramsInit leftCr3 leftSpaces) = .ok left)
    (rightRan : gmRun rightSteps (gmProgramsInit rightCr3 rightSpaces) =
      .ok right)
    (holds : gmMarks index left.history = gmMarks index right.history)
    (ticks : left.ticks = right.ticks)
    (leftClear : Undisturbed index left.use)
    (rightClear : Undisturbed index right.use) :
    gmResourceRecent left.resourceEpochs (left.resources index) left.ticks =
        gmResourceRecent right.resourceEpochs (right.resources index)
          right.ticks ∧
      gmResourceRecent left.resourceEpochs (left.resources index) left.ticks =
        (gmUse (gmMarks index left.history)).recent left.ticks := by
  have leftRecent := (gmRun_keepsExact leftRan index leftClear).recent_eq
    (gmRun_inOrder leftRan)
  have rightRecent := (gmRun_keepsExact rightRan index rightClear).recent_eq
    (gmRun_inOrder rightRan)
  refine ⟨?_, leftRecent⟩
  rw [leftRecent, rightRecent, GmKernel.use, GmKernel.use, holds, ticks]

/-! ## Two programs that take turns -/

/-- A service call of a program. -/
def userCall (service argument : UInt64) : GmStep :=
  .service idleServices { rax := service, rdi := argument, cs := 0x23 }

/-- Timer interrupts that find the kernel at work. -/
def idleTicks (count : Nat) : List GmStep := List.replicate count (.timer {})

/-- The second of two programs holds UDP for a hundred ticks.  The first one
makes a call of its own before and another one at the end. -/
def sharedUse (early wait late : Nat) (first last : GmStep) : List GmStep :=
  [.run (fun _ => some 0) (ascii "a") none,
    .run (fun _ => some 0) (ascii "b") none] ++
  (idleTicks early ++ ([.schedule, first] ++
  (idleTicks wait ++ ([.schedule, userCall gmSvcResourceAcquire 2] ++
  (idleTicks 100 ++ ([.schedule, userCall gmSvcTicks 0, .schedule,
    userCall gmSvcResourceRelease 2] ++
  (idleTicks late ++ [.schedule, last])))))))

theorem udpIndex_lt : 1 < gmResourceCount := by decide

/-- The entry of UDP in the resource table. -/
def udpIndex : GmResourceIndex := ⟨1, udpIndex_lt⟩

/-- What a run shows about UDP. -/
def udpReport (steps : List GmStep) :
    Except GmPanic (List GmMark × Nat × Nat) :=
  (gmRun steps (gmProgramsInit 0 fun _ => 0)).map fun kernel =>
    (gmMarks udpIndex kernel.history, kernel.ticks,
      gmResourceRecent kernel.resourceEpochs (kernel.resources udpIndex)
        kernel.ticks)

/-- The kernel some ticks later. -/
def GmKernel.idle (kernel : GmKernel) (count : Nat) : GmKernel :=
  { kernel with ticks := kernel.ticks + count }

theorem gmRun_idleTicks (count : Nat) (kernel : GmKernel) :
    gmRun (idleTicks count) kernel = .ok (kernel.idle count) := by
  induction count generalizing kernel with
  | zero => rfl
  | succ count induction =>
    have stepped : gmStep (.timer {}) kernel = .ok kernel.tick := by
      have kernelMode : fromUser ({} : GmServiceFrame).cs = false := by decide
      unfold gmStep gmIsrTimer gmProgramPreempt
      dsimp only
      rw [if_pos (.inr kernelMode)]
      rfl
    have later := induction kernel.tick
    unfold gmRun idleTicks
    rw [List.replicate_succ, runSteps_cons_ok stepped]
    refine later.trans ?_
    unfold GmKernel.idle GmKernel.tick
    rw [Nat.add_right_comm, Nat.add_assoc]

theorem gmRun_append (first second : List GmStep) (kernel : GmKernel) :
    gmRun (first ++ second) kernel =
      (gmRun first kernel).bind (gmRun second) :=
  runSteps_append gmStep first second kernel

theorem gmRun_idleTicks_append (count : Nat) (steps : List GmStep)
    (kernel : GmKernel) :
    gmRun (idleTicks count ++ steps) kernel =
      gmRun steps (kernel.idle count) := by
  rw [gmRun_append, gmRun_idleTicks]
  rfl

/-- The same run without the ticks in between. -/
theorem gmRun_sharedUse (early wait late : Nat) (first last : GmStep)
    (kernel : GmKernel) :
    gmRun (sharedUse early wait late first last) kernel =
      (gmRun [.run (fun _ => some 0) (ascii "a") none,
        .run (fun _ => some 0) (ascii "b") none] kernel).bind fun kernel =>
      (gmRun [.schedule, first] (kernel.idle early)).bind fun kernel =>
      (gmRun [.schedule, userCall gmSvcResourceAcquire 2]
        (kernel.idle wait)).bind fun kernel =>
      (gmRun [.schedule, userCall gmSvcTicks 0, .schedule,
        userCall gmSvcResourceRelease 2] (kernel.idle 100)).bind fun kernel =>
      gmRun [.schedule, last] (kernel.idle late) := by
  unfold sharedUse
  rw [gmRun_append]
  refine congrArg _ (funext fun kernel => ?_)
  rw [gmRun_idleTicks_append, gmRun_append]
  refine congrArg _ (funext fun kernel => ?_)
  rw [gmRun_idleTicks_append, gmRun_append]
  refine congrArg _ (funext fun kernel => ?_)
  rw [gmRun_idleTicks_append, gmRun_append]
  refine congrArg _ (funext fun kernel => ?_)
  exact gmRun_idleTicks_append late _ kernel

/-- Holding TCP from tick 500 to tick 60500 erases the UDP usage that ended at
tick 60200: both runs have the same UDP holds, one of them shows nothing. -/
theorem gmRun_recent_disturbed :
    udpReport (sharedUse 500 59600 300 (userCall gmSvcTicks 0)
        (userCall gmSvcTicks 0)) =
      .ok ([.began 60100, .ended 60200], 60500, 100) ∧
    udpReport (sharedUse 500 59600 300 (userCall gmSvcResourceAcquire 1)
        (userCall gmSvcResourceRelease 1)) =
      .ok ([.began 60100, .ended 60200], 60500, 0) := by
  unfold udpReport
  rw [gmRun_sharedUse, gmRun_sharedUse]
  constructor <;> decide +kernel

/-- The state a run ends in. -/
def endKernel (steps : List GmStep) : GmKernel :=
  match gmRun steps (gmProgramsInit 0 fun _ => 0) with
  | .ok kernel => kernel
  | .error _ => gmProgramsInit 0 fun _ => 0

theorem gmRun_endKernel (steps : List GmStep) :
    gmRun steps (gmProgramsInit 0 fun _ => 0) = .ok (endKernel steps) := by
  obtain ⟨kernel, ran, -⟩ := gmRun_tracks 0 (fun _ => 0) steps
  unfold endKernel
  rw [ran]

/-- Two programs with short holds do not disturb each other. -/
theorem gmRun_recent_independent_short :
    let alone := endKernel (sharedUse 1 2 1 (userCall gmSvcTicks 0)
      (userCall gmSvcTicks 0))
    let shared := endKernel (sharedUse 1 2 1 (userCall gmSvcResourceAcquire 1)
      (userCall gmSvcResourceRelease 1))
    gmResourceRecent alone.resourceEpochs (alone.resources udpIndex)
          alone.ticks =
        gmResourceRecent shared.resourceEpochs (shared.resources udpIndex)
          shared.ticks ∧
      gmResourceRecent alone.resourceEpochs (alone.resources udpIndex)
          alone.ticks =
        (gmUse (gmMarks udpIndex alone.history)).recent alone.ticks :=
  gmRun_recent_independent (gmRun_endKernel _) (gmRun_endKernel _)
    (by decide +kernel) (by decide +kernel) (by decide +kernel)
    (by decide +kernel)

end Gmker.Programs
