import Gmker.Virtio.ReceiveQueue

/-!
# Every frame once and in order

The receive queue along whole runs: device turns, reaps, sends and polls keep
it, so the frames of successful polls are the valid returned frames in
used-ring order.
-/

namespace Gmker.Virtio

open Foundation

variable {nic after : GmVirtio} {device : GmDevice} {cap : UInt16}

/-! ## Device turns -/

/-- The queue, as long as the device wrote and returned only what it held. -/
def RxServed (ahead : Nat) (nic : GmVirtio) : Prop :=
  HeldAlways nic.history → RxQueue ahead nic

theorem RxServed.write {ahead : Nat} {write : GmDeviceWrite}
    (protocol : write.Protocol) (served : RxServed ahead nic) :
    RxServed ahead (write.apply nic) := by
  intro held
  have heldBefore : HeldAlways nic.history := EachTime.of_append held
  have queue := served heldBefore
  cases write with
  | status value =>
    exact queue.carry rfl rfl (fun _ _ => rfl) rfl (by simp [GmDeviceWrite.noted])
  | usedIdx which idx =>
    cases which with
    | rx => exact protocol.elim
    | tx =>
      exact queue.carry rfl rfl (fun _ _ => rfl) rfl
        (by simp [GmDeviceWrite.noted])
  | usedElem which position elem =>
    cases which with
    | rx => exact protocol.elim
    | tx =>
      exact queue.carry rfl rfl (fun _ _ => rfl) rfl
        (by simp [GmDeviceWrite.noted])
  | rxBuf slot offset data =>
    have isHeld : heldByDevice.Out nic.history slot := EachTime.last held
    have absent := (queue.held.out_iff slot).mpr isHeld
    refine queue.carry rfl rfl ?_ rfl ?_
    · intro entry member
      have different : entry.slot ≠ slot := by
        rintro rfl
        exact absent (List.mem_map_of_mem member)
      simp [GmDeviceWrite.apply, GmDeviceWrite.store, different]
    · intro event member
      rw [List.mem_singleton.mp member]
      exact silent_filled slot
  | giveBack slot bytes =>
    have isHeld : heldByDevice.Out nic.history slot := EachTime.last held
    exact queue.giveBack bytes isHeld

theorem RxServed.turn
    (protocol : ∀ clock, ∀ write ∈ device clock, write.Protocol) {ahead : Nat}
    (served : RxServed ahead nic) : RxServed ahead (nic.turn device) := by
  apply turn_invariant
  · intro held
    exact (served held).carry rfl rfl (fun _ _ => rfl)
      (List.append_nil _).symm (by simp)
  · intro write member nic before
    exact before.write (protocol _ write member)

theorem rxServed_rule
    (protocol : ∀ clock, ∀ write ∈ device clock, write.Protocol) :
    RxRule device (RxServed 0) where
  turn _ served := served.turn protocol
  same before after same served := by
    intro held
    obtain ⟨events, extended, apart⟩ := same.history
    rw [extended] at held
    refine (served (EachTime.of_append held)).carry (by rw [same.rx]) same.used
      (fun _ _ => by rw [same.buf]) extended ?_
    intro event member
    exact silent_of_not_aboutRx (apart event member)

/-- The device only adds to the queue. -/
theorem uncopied_turn (device : GmDevice) {entry : GmReturn}
    {rest : List GmReturn} (split : uncopied nic.history = entry :: rest) :
    ∃ more, uncopied (nic.turn device).history = entry :: more := by
  obtain ⟨events, extended, fromDevice⟩ := (turn_turned device nic).history
  have noCopies : copied events = [] := by
    apply List.filterMap_eq_nil_iff.mpr
    intro event member
    have device := fromDevice event member
    cases event <;> first
      | rfl
      | exact device.elim
  have counted : (copied nic.history).length ≤ (returned nic.history).length := by
    have nonempty : uncopied nic.history ≠ [] := by simp [split]
    exact (Nat.not_le.mp (List.drop_eq_nil_iff.not.mp nonempty)).le
  refine ⟨rest ++ returned events, ?_⟩
  rw [extended, uncopied, returned_append, copied_append, noCopies,
    List.append_nil, List.drop_append_of_le_length counted, ← uncopied, split]
  rfl

/-! ## Poll rounds -/

theorem PollRound.front
    (protocol : ∀ clock, ∀ write ∈ device clock, write.Protocol)
    (served : RxServed 0 nic)
    (held : HeldAlways (((nic.turn device).turn device).turn device).history)
    (ahead : (nic.turn device).driver.rx.lastUsed ≠
      (nic.turn device).shared.rxUsed.idx) :
    ∃ entry rest,
      uncopied (((nic.turn device).turn device).turn device).history =
        entry :: rest ∧
      (((nic.turn device).turn device).shared.rxUsed.ring
        (gmRxPosition ((nic.turn device).turn device))).id =
          UInt32.ofNat entry.slot.val ∧
      ((((nic.turn device).turn device).turn device).shared.rxUsed.ring
        (gmRxPosition (((nic.turn device).turn device).turn device))).len =
          entry.bytes := by
  have heldBefore : ∀ nic : GmVirtio, HeldAlways (nic.turn device).history →
      HeldAlways nic.history := by
    intro nic held
    obtain ⟨events, extended, _⟩ := (turn_turned device nic).history
    rw [extended] at held
    exact EachTime.of_append held
  have looked := served.turn protocol
  have first := looked.turn protocol
  have second := first.turn protocol
  have heldFirst := heldBefore _ held
  have queue := looked (heldBefore _ heldFirst)
  have nonempty := queue.caughtUp_iff.not.mp ahead
  obtain ⟨entry, rest, split⟩ := List.exists_cons_of_ne_nil nonempty
  obtain ⟨more, splitFirst⟩ := uncopied_turn device split
  obtain ⟨most, splitSecond⟩ := uncopied_turn device splitFirst
  refine ⟨entry, most, splitSecond, ?_, ?_⟩
  · rw [(first heldFirst).front splitFirst]
    rfl
  · rw [(second held).front splitSecond]
    rfl

theorem PollRound.rxServed
    (protocol : ∀ clock, ∀ write ∈ device clock, write.Protocol)
    {outcome : Option GmPollResult}
    (round : PollRound device cap nic outcome after) (served : RxServed 0 nic) :
    RxServed 0 after := by
  intro held
  have read := ((served.turn protocol).turn protocol).turn protocol
  have small : ∀ slot : GmDesc, (UInt32.ofNat slot.val).toNat = slot.val := by
    intro slot
    rw [UInt32.toNat_ofNat']
    have below := slot.isLt
    have size : gmVirtioQueueSize = 8 := rfl
    exact Nat.mod_eq_of_lt (by omega)
  cases round with
  | empty => exact served.turn protocol held
  | outside first second id bytes ahead firstRead secondRead readId readLen
      beyond =>
    -- a compliant device never names a descriptor out of range
    subst firstRead secondRead
    obtain ⟨_, events, value, extended, _, _, _⟩ :=
      gmVirtioFail_offline device (gmRxAdvance id bytes
        (((nic.turn device).turn device).turn device))
    rw [extended, List.append_assoc] at held
    have heldAdvance := EachTime.of_append held
    have heldRead : HeldAlways
        (((nic.turn device).turn device).turn device).history :=
      EachTime.of_append heldAdvance
    obtain ⟨entry, rest, _, isId, _⟩ :=
      PollRound.front protocol served heldRead ahead
    rw [readId, isId, small] at beyond
    exact absurd entry.slot.isLt beyond
  | posted first second copying id bytes slot frame ahead firstRead secondRead
      readId readLen named beforeCopy copy =>
    subst firstRead secondRead
    have heldCopying : HeldAlways copying.history := by
      have whole : (gmRxPost slot (copying.record
          (.rxCopied slot bytes cap frame))).history = copying.history ++
            [.rxCopied slot bytes cap frame, .rxPosted slot,
              .notified .rx] := by
        simp [gmRxPost, GmVirtio.record]
      rw [whole] at held
      exact EachTime.of_append held
    have heldAdvance : HeldAlways (gmRxAdvance id bytes
        (((nic.turn device).turn device).turn device)).history := by
      obtain ⟨events, extended, _⟩ := (turn_turned device (gmRxAdvance id
        bytes (((nic.turn device).turn device).turn device))).history
      rw [beforeCopy, extended] at heldCopying
      exact EachTime.of_append heldCopying
    have heldRead : HeldAlways
        (((nic.turn device).turn device).turn device).history :=
      EachTime.of_append heldAdvance
    obtain ⟨entry, rest, split, isId, isLen⟩ :=
      PollRound.front protocol served heldRead ahead
    have sameSlot : slot = entry.slot := by
      apply Fin.ext
      rw [← named, readId, isId, small]
    have sameLen : bytes = entry.bytes := readLen.trans isLen
    have advanced : RxServed 1 (gmRxAdvance id bytes
        (((nic.turn device).turn device).turn device)) := by
      intro _
      exact (read heldRead).advance (by simp [split]) id bytes
    have splitAdvance : uncopied (gmRxAdvance id bytes
        (((nic.turn device).turn device).turn device)).history =
          entry :: rest := by
      rw [← split]
      apply uncopied_append_silent
      intro event member
      rw [List.mem_singleton.mp member]
      exact silent_used _ _ _
    obtain ⟨more, splitCopy⟩ := uncopied_turn device splitAdvance
    rw [← beforeCopy] at splitCopy
    have queue : RxQueue 1 copying := by
      have turned := advanced.turn protocol
      rw [← beforeCopy] at turned
      exact turned heldCopying
    subst sameSlot sameLen copy
    exact queue.post splitCopy cap

theorem gmVirtioNetInit_rxServed (status : UInt8)
    (rxPage txPage : Nat → UInt64) :
    RxServed 0 (gmVirtioNetInit status rxPage txPage) := by
  intro _
  have returns : returned (gmVirtioNetInit status rxPage txPage).history =
      [] := rfl
  have copies : copied (gmVirtioNetInit status rxPage txPage).history = [] :=
    rfl
  have empty : uncopied (gmVirtioNetInit status rxPage txPage).history = [] :=
    rfl
  have onceHeld : ∀ slot, heldByDevice.Out
      (gmVirtioNetInit status rxPage txPage).history slot := by
    change ∀ slot : GmDesc, heldByDevice.Out
      ((List.finRange gmVirtioQueueSize).map GmVirtioEvent.rxPosted ++
        [.notified .rx]) slot
    decide
  have oncePosted : ∀ slot, postedByDriver.Out
      (gmVirtioNetInit status rxPage txPage).history slot := by
    change ∀ slot : GmDesc, postedByDriver.Out
      ((List.finRange gmVirtioQueueSize).map GmVirtioEvent.rxPosted ++
        [.notified .rx]) slot
    decide
  constructor
  · exact Nat.zero_le _
  · change (0 : UInt16) - 0 = UInt16.ofNat 0
    decide
  · rw [empty]
    rfl
  · simp [empty]
  · simp [empty]
  · intro slot
    simp [empty, onceHeld slot]
  · intro slot
    simp [oncePosted slot]
  · simp [copies, returns]
  · simp [copies, returns]
  · change EachTime (fun past event _ => PostedHome past event)
      ((List.finRange gmVirtioQueueSize).map GmVirtioEvent.rxPosted ++
        [.notified .rx])
    decide

theorem gmVirtioRun_rxServed
    (protocol : ∀ clock, ∀ write ∈ device clock, write.Protocol)
    {calls : List GmVirtioCall} (served : RxServed 0 nic)
    (ran : gmVirtioRun device calls nic = .ok after) : RxServed 0 after := by
  refine runSteps_keeps ?_ served ran
  intro call nic next holds stepped
  apply (rxServed_rule protocol).call
    (fun _ _ _ _ served round => round.rxServed protocol served) ?_ holds
    stepped
  intro result nic served held
  refine (served (EachTime.of_append held)).carry rfl rfl (fun _ _ => rfl)
    rfl ?_
  intro event member
  rw [List.mem_singleton.mp member]
  exact silent_polled result

/-! ## What the polls return -/

/-- The frames copied out so far. -/
def framesCopied (history : List GmVirtioEvent) : List (List UInt8) :=
  (copied history).filterMap GmCopy.frame

/-- The frame of a poll result. -/
def GmPollResult.frames : GmPollResult → List (List UInt8)
  | .failed => []
  | .empty => []
  | .frame data => [data]

/-- What was copied out and what was returned to the caller. -/
def Accounts (frames calls : List (List UInt8)) (nic : GmVirtio) : Prop :=
  framesCopied nic.history = frames ∧ delivered nic.history = calls

theorem Accounts.carry {frames calls : List (List UInt8)}
    {before after : GmVirtio} {events : List GmVirtioEvent}
    (accounts : Accounts frames calls before)
    (history : after.history = before.history ++ events)
    (copies : copied events = []) (delivers : delivered events = []) :
    Accounts frames calls after := by
  unfold Accounts framesCopied
  rw [history, copied_append, delivered_append, copies, delivers,
    List.append_nil, List.append_nil]
  exact accounts

theorem accounts_rule (device : GmDevice) (frames calls : List (List UInt8)) :
    RxRule device (Accounts frames calls) where
  turn nic accounts := by
    obtain ⟨events, extended, fromDevice⟩ := (turn_turned device nic).history
    apply accounts.carry extended
    all_goals
      apply List.filterMap_eq_nil_iff.mpr
      intro event member
      have device := fromDevice event member
      cases event <;> first
        | rfl
        | exact device.elim
  same before after same accounts := by
    obtain ⟨events, extended, apart⟩ := same.history
    apply accounts.carry extended
    all_goals
      apply List.filterMap_eq_nil_iff.mpr
      intro event member
      have other := apart event member
      cases event <;> first
        | rfl
        | exact absurd trivial other

theorem PollRound.accounts {outcome : Option GmPollResult}
    {frames calls : List (List UInt8)}
    (round : PollRound device cap nic outcome after)
    (accounts : Accounts frames calls nic) :
    Accounts (frames ++ (outcome.map GmPollResult.frames).getD []) calls
      after := by
  have rule := accounts_rule device frames calls
  have read := rule.turn _ (rule.turn _ (rule.turn nic accounts))
  cases round with
  | empty =>
    simp only [Option.map_some, Option.getD_some, GmPollResult.frames,
      List.append_nil]
    exact rule.turn nic accounts
  | outside first second id bytes _ firstRead secondRead =>
    subst firstRead secondRead
    simp only [Option.map_some, Option.getD_some, GmPollResult.frames,
      List.append_nil]
    exact rule.fail (read.carry rfl rfl rfl)
  | posted first second copying id bytes slot frame _ firstRead secondRead _ _
      _ beforeCopy =>
    subst firstRead secondRead
    have taken : Accounts frames calls copying := by
      rw [beforeCopy]
      exact rule.turn _ (read.carry rfl rfl rfl)
    have history : (gmRxPost slot (copying.record
        (.rxCopied slot bytes cap frame))).history = copying.history ++
          [.rxCopied slot bytes cap frame, .rxPosted slot, .notified .rx] := by
      simp [gmRxPost, GmVirtio.record]
    obtain ⟨copies, delivers⟩ := taken
    unfold framesCopied at copies
    refine ⟨?_, ?_⟩
    · rw [framesCopied, history, copied_append, List.filterMap_append, copies]
      cases frame <;> rfl
    · rw [history, delivered_append, delivers]
      exact List.append_nil _

theorem gmPollLoop_accounts {rounds : Nat} {result : GmPollResult}
    {frames calls : List (List UInt8)} (accounts : Accounts frames calls nic)
    (ran : gmPollLoop device cap rounds nic = .ok (result, after)) :
    Accounts (frames ++ result.frames) calls after := by
  induction rounds generalizing nic with
  | zero => cases ran
  | succ rounds induction =>
    obtain ⟨outcome, middle, round, rest⟩ := gmPollLoop_round ran
    have next := round.accounts accounts
    rcases rest with ⟨rfl, rfl⟩ | ⟨rfl, again⟩
    · exact next
    · rw [Option.map_none, Option.getD_none, List.append_nil] at next
      exact induction next again

/-- Between calls, what was copied out is what was returned. -/
def Settled (nic : GmVirtio) : Prop :=
  delivered nic.history = framesCopied nic.history

theorem gmVirtioCall_settled {call : GmVirtioCall} (settled : Settled nic)
    (ran : gmVirtioCall device call nic = .ok after) : Settled after := by
  have accounts : Accounts (framesCopied nic.history)
      (framesCopied nic.history) nic := ⟨rfl, settled⟩
  have rule := accounts_rule device (framesCopied nic.history)
    (framesCopied nic.history)
  rcases gmVirtioCall_cases ran with ⟨frame, result, sent⟩ |
    ⟨result, reaped⟩ | ⟨given, cap, rounds, result, unnoted, polled, rfl⟩
  · obtain ⟨copies, delivers⟩ := rule.send accounts sent
    exact delivers.trans copies.symm
  · obtain ⟨copies, delivers⟩ := rule.reapTx accounts reaped
    exact delivers.trans copies.symm
  · have unnotedAccounts : Accounts (framesCopied nic.history ++ result.frames)
        (framesCopied nic.history) unnoted := by
      rcases gmVirtioNetPoll_cases polled with ⟨rfl, rfl⟩ | ⟨rfl, reaped⟩ |
        ⟨middle, reaped, looped⟩
      · rw [GmPollResult.frames, List.append_nil]
        exact accounts
      · rw [GmPollResult.frames, List.append_nil]
        exact rule.reapTx accounts reaped
      · exact gmPollLoop_accounts (rule.reapTx accounts reaped) looped
    obtain ⟨copies, delivers⟩ := unnotedAccounts
    unfold framesCopied at copies
    unfold Settled framesCopied GmVirtio.record
    rw [delivered_append, copied_append, delivers, List.filterMap_append,
      copies]
    cases result <;> simp [delivered, copied, GmPollResult.frames, framesCopied]

theorem gmVirtioRun_settled {calls : List GmVirtioCall} (settled : Settled nic)
    (ran : gmVirtioRun device calls nic = .ok after) : Settled after :=
  runSteps_keeps
    (fun _ _ _ holds stepped => gmVirtioCall_settled holds stepped) settled ran

/-! ## The contract -/

/-- Exactly-once, in-order reception: the handled entries are the first
returned ones, each handled faithfully, the polls delivered their frames in
that order, no buffer was posted before it was copied out, and every
descriptor is posted exactly once. -/
structure RxContract (history : List GmVirtioEvent) : Prop where
  handled : (copied history).length ≤ (returned history).length
  faithful : List.Forall₂ Faithful
    ((returned history).take (copied history).length) (copied history)
  delivers : delivered history = (copied history).filterMap GmCopy.frame
  home : EachTime (fun past event _ => PostedHome past event) history
  posted : ∀ slot, postedByDriver.Out history slot

theorem gmVirtioRun_receives (device : GmDevice) (status : UInt8)
    (rxPage txPage : Nat → UInt64) (calls : List GmVirtioCall)
    (nic : GmVirtio)
    (ran : gmVirtioRun device calls (gmVirtioNetInit status rxPage txPage) =
      .ok nic)
    (compliant : Compliant device nic.history) : RxContract nic.history := by
  have served : RxServed 0 nic := gmVirtioRun_rxServed compliant.protocol
    (gmVirtioNetInit_rxServed status rxPage txPage) ran
  have queue := served compliant.held
  have initial : Settled (gmVirtioNetInit status rxPage txPage) := rfl
  have settled := gmVirtioRun_settled initial ran
  refine ⟨queue.copies, queue.faithful, settled, queue.home, ?_⟩
  intro slot
  exact (queue.posted slot).1 trivial

/-- A device that returns descriptor 3 with a frame, then descriptor 1 with a
length below the header, then descriptor 0 with a frame. -/
def shuffledDevice : GmDevice := fun clock =>
  if clock = 0 then
    [.rxBuf 3 12 [1, 2], .giveBack 3 14, .giveBack 1 5, .rxBuf 0 12 [9],
      .giveBack 0 13]
  else []

theorem shuffledDevice_protocol (clock : Nat) :
    ∀ write ∈ shuffledDevice clock, write.Protocol := by
  intro write member
  unfold shuffledDevice at member
  split at member
  · simp only [List.mem_cons, List.not_mem_nil, or_false] at member
    rcases member with rfl | rfl | rfl | rfl | rfl <;> trivial
  · cases member

/-- Out of order, with an invalid length between: both frames arrive. -/
theorem gmVirtioRun_receives_shuffled :
    ∃ nic, gmVirtioRun shuffledDevice
        [.poll true 1518 4, .poll true 1518 4, .poll true 1518 4]
        (gmVirtioNetInit 15 (fun _ => 0x200000) (fun _ => 0x201000)) =
          .ok nic ∧
      delivered nic.history = [[1, 2], [9]] ∧ RxContract nic.history :=
  ⟨_, rfl, rfl,
    gmVirtioRun_receives shuffledDevice 15 (fun _ => 0x200000)
      (fun _ => 0x201000)
      [.poll true 1518 4, .poll true 1518 4, .poll true 1518 4] _ rfl
      ⟨shuffledDevice_protocol, of_decide_eq_true rfl⟩⟩

end Gmker.Virtio
