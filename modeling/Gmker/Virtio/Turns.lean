import Gmker.Foundation.History
import Gmker.Foundation.Runs
import Gmker.Virtio.Queues

/-!
# What a device turn and the transmit side can change

The device never writes the driver's half of the state, and its turns only add
device events to the history.  The transmit side never touches the receive
queue.  Both facts are packaged as rules, so that invariants of one queue are
carried over everything that belongs to the other.
-/

namespace Gmker.Virtio

open Foundation

variable {device : GmDevice} {nic after : GmVirtio} {cap : UInt16}
  {rounds : Nat} {result : GmPollResult}

/-- Events that stem from device writes. -/
def GmVirtioEvent.FromDevice : GmVirtioEvent → Prop
  | .rxFilled _ => True
  | .rxReturned .. => True
  | _ => False

/-- Events of the transmit queue. -/
def GmVirtioEvent.AboutTx : GmVirtioEvent → Prop
  | .txPublished _ => True
  | .txUsed _ => True
  | .txReaped _ => True
  | _ => False

/-- Events of the receive queue. -/
def GmVirtioEvent.AboutRx : GmVirtioEvent → Prop
  | .rxPosted _ => True
  | .rxUsed .. => True
  | .rxCopied .. => True
  | .polled _ => True
  | .rxFilled _ => True
  | .rxReturned .. => True
  | _ => False

theorem GmVirtioEvent.FromDevice.not_aboutTx {event : GmVirtioEvent}
    (device : event.FromDevice) : ¬ event.AboutTx := by
  cases event <;> simp_all [FromDevice, AboutTx]

/-! ## Device turns -/

/-- The device changed its own half of the state at most. -/
structure Turned (before after : GmVirtio) : Prop where
  driver : after.driver = before.driver
  history : ∃ events, after.history = before.history ++ events ∧
    ∀ event ∈ events, event.FromDevice

theorem Turned.trans {first second third : GmVirtio}
    (left : Turned first second) (right : Turned second third) :
    Turned first third := by
  obtain ⟨early, earlier, earlyDevice⟩ := left.history
  obtain ⟨late, later, lateDevice⟩ := right.history
  refine ⟨right.driver.trans left.driver, early ++ late, ?_, ?_⟩
  · rw [later, earlier, List.append_assoc]
  · intro event member
    rcases List.mem_append.mp member with inEarly | inLate
    · exact earlyDevice event inEarly
    · exact lateDevice event inLate

theorem noted_fromDevice (write : GmDeviceWrite) (shared : GmShared) :
    ∀ event ∈ write.noted shared, event.FromDevice := by
  intro event member
  cases write with
  | status | usedIdx | usedElem => cases member
  | rxBuf slot offset data =>
    rw [List.mem_singleton.mp member]
    trivial
  | giveBack slot bytes =>
    rw [List.mem_singleton.mp member]
    trivial

theorem apply_turned (write : GmDeviceWrite) (nic : GmVirtio) :
    Turned nic (write.apply nic) :=
  ⟨rfl, write.noted nic.shared, rfl, noted_fromDevice write nic.shared⟩

theorem applyAll_turned (writes : List GmDeviceWrite) (nic : GmVirtio) :
    Turned nic (writes.foldl (fun nic write => write.apply nic) nic) := by
  induction writes generalizing nic with
  | nil => exact ⟨rfl, [], by simp, by simp⟩
  | cons write writes induction =>
    exact (apply_turned write nic).trans (induction (write.apply nic))

theorem turn_turned (device : GmDevice) (nic : GmVirtio) :
    Turned nic (nic.turn device) := by
  have ticked : Turned nic { nic with clock := nic.clock + 1 } :=
    ⟨rfl, [], by simp, by simp⟩
  exact ticked.trans (applyAll_turned _ _)

@[simp] theorem turn_driver (device : GmDevice) (nic : GmVirtio) :
    (nic.turn device).driver = nic.driver :=
  (turn_turned device nic).driver

/-- A property that every single device write keeps is kept by a turn. -/
theorem turn_invariant {Holds : GmVirtio → Prop}
    (initial : Holds { nic with clock := nic.clock + 1 })
    (kept : ∀ write ∈ device nic.clock, ∀ nic, Holds nic →
      Holds (write.apply nic)) : Holds (nic.turn device) := by
  have general : ∀ (writes : List GmDeviceWrite) (start : GmVirtio),
      (∀ write ∈ writes, ∀ nic, Holds nic → Holds (write.apply nic)) →
      Holds start →
      Holds (writes.foldl (fun nic write => write.apply nic) start) := by
    intro writes
    induction writes with
    | nil =>
      intro start _ holds
      exact holds
    | cons write writes induction =>
      intro start keeps holds
      apply induction
      · intro later member
        exact keeps later (List.mem_cons_of_mem _ member)
      · exact keeps write List.mem_cons_self start holds
  exact general _ _ kept initial

/-! ## The offline path -/

theorem gmVirtioAlive_cases (device : GmDevice) (nic : GmVirtio) :
    (gmVirtioAlive device nic = (false, nic) ∧ nic.driver.ready = false) ∨
      gmVirtioAlive device nic = (true, nic.turn device) ∧
        nic.driver.ready = true ∨
      gmVirtioAlive device nic =
        (false, { nic.turn device with
          driver := { nic.driver with ready := false } }) := by
  unfold gmVirtioAlive
  cases ready : nic.driver.ready with
  | false => simp
  | true =>
    simp only [Bool.true_eq_false, if_false, turn_driver]
    split
    · right; right; rfl
    · right; left; simp

/-- What going offline does. -/
structure WentOffline (before after : GmVirtio) : Prop where
  driver : after.driver = { before.driver with ready := false }
  history : ∃ events value,
    after.history = before.history ++ events ++ [.statusWritten value] ∧
    (∀ event ∈ events, event.FromDevice) ∧
    value &&& gmVirtioStatusFailed ≠ 0 ∧ after.shared.status = value

theorem failed_bit (status : UInt8) :
    (status ||| gmVirtioStatusFailed) &&& gmVirtioStatusFailed ≠ 0 := by
  intro cleared
  have bit := congrArg (fun value : UInt8 => value.toBitVec.getLsbD 7) cleared
  simp at bit

theorem gmVirtioFail_offline (device : GmDevice) (nic : GmVirtio) :
    WentOffline nic (gmVirtioFail device nic) := by
  obtain ⟨events, extended, fromDevice⟩ := (turn_turned device nic).history
  refine ⟨by simp [gmVirtioFail, GmVirtio.record], events,
    (nic.turn device).shared.status ||| gmVirtioStatusFailed, ?_, fromDevice,
    failed_bit _, rfl⟩
  simp only [gmVirtioFail, GmVirtio.record, extended]

/-! ## One round of a poll -/

/-- What one round of the poll loop does: it ends the poll with a result, or
asks for another round. -/
inductive PollRound (device : GmDevice) (cap : UInt16) (nic : GmVirtio) :
    Option GmPollResult → GmVirtio → Prop where
  | empty
      (caughtUp : (nic.turn device).driver.rx.lastUsed =
        (nic.turn device).shared.rxUsed.idx) :
      PollRound device cap nic (some .empty) (nic.turn device)
  | outside (first second : GmVirtio) (id bytes : UInt32)
      (ahead : (nic.turn device).driver.rx.lastUsed ≠
        (nic.turn device).shared.rxUsed.idx)
      (firstRead : first = (nic.turn device).turn device)
      (secondRead : second = first.turn device)
      (readId : id = (first.shared.rxUsed.ring (gmRxPosition first)).id)
      (readLen : bytes = (second.shared.rxUsed.ring (gmRxPosition second)).len)
      (beyond : ¬ id.toNat < gmVirtioQueueSize) :
      PollRound device cap nic (some .failed)
        (gmVirtioFail device (gmRxAdvance id bytes second))
  | posted (first second copying : GmVirtio) (id bytes : UInt32)
      (slot : GmDesc) (frame : Option (List UInt8))
      (ahead : (nic.turn device).driver.rx.lastUsed ≠
        (nic.turn device).shared.rxUsed.idx)
      (firstRead : first = (nic.turn device).turn device)
      (secondRead : second = first.turn device)
      (readId : id = (first.shared.rxUsed.ring (gmRxPosition first)).id)
      (readLen : bytes = (second.shared.rxUsed.ring (gmRxPosition second)).len)
      (named : id.toNat = slot.val)
      (beforeCopy : copying = (gmRxAdvance id bytes second).turn device)
      (copy : frame = gmRxCopy slot bytes cap copying) :
      PollRound device cap nic (frame.map .frame)
        (gmRxPost slot (copying.record (.rxCopied slot bytes cap frame)))

/-- A poll that returns goes through a round that either returns or is followed
by a shorter poll. -/
theorem gmPollLoop_round
    (ran : gmPollLoop device cap (rounds + 1) nic = .ok (result, after)) :
    ∃ outcome middle, PollRound device cap nic outcome middle ∧
      ((outcome = some result ∧ after = middle) ∨
        (outcome = none ∧
          gmPollLoop device cap rounds middle = .ok (result, after))) := by
  unfold gmPollLoop at ran
  simp only at ran
  split at ran
  · rename_i caughtUp
    cases ran
    exact ⟨_, _, .empty caughtUp, .inl ⟨rfl, rfl⟩⟩
  · rename_i ahead
    split at ran
    · rename_i within
      have round := PollRound.posted _ _ _ _ _ ⟨_, within⟩ _ ahead rfl rfl rfl
        rfl rfl rfl (Eq.refl (gmRxCopy _ _ cap _))
      refine ⟨_, _, round, ?_⟩
      split at ran
      · rename_i skipped
        rw [skipped] at ran ⊢
        exact .inr ⟨rfl, ran⟩
      · rename_i data copied
        cases ran
        rw [copied]
        exact .inl ⟨rfl, rfl⟩
    · rename_i beyond
      cases ran
      exact ⟨_, _, .outside _ _ _ _ ahead rfl rfl rfl rfl beyond,
        .inl ⟨rfl, rfl⟩⟩

/-- What every round keeps, a poll keeps. -/
theorem gmPollLoop_keeps {Holds : GmVirtio → Prop}
    (kept : ∀ nic outcome middle, Holds nic →
      PollRound device cap nic outcome middle → Holds middle)
    (holds : Holds nic)
    (ran : gmPollLoop device cap rounds nic = .ok (result, after)) :
    Holds after := by
  induction rounds generalizing nic with
  | zero => cases ran
  | succ rounds induction =>
    obtain ⟨outcome, middle, round, rest⟩ := gmPollLoop_round ran
    have next := kept nic outcome middle holds round
    rcases rest with ⟨_, rfl⟩ | ⟨_, again⟩
    · exact next
    · exact induction next again

/-! ## Calls -/

theorem gmVirtioNetPoll_cases {given : Bool}
    (ran : gmVirtioNetPoll device given cap rounds nic = .ok (result, after)) :
    (result = .failed ∧ after = nic) ∨
      (result = .failed ∧ gmVirtioReapTx device nic = .ok (false, after)) ∨
      ∃ reaped, gmVirtioReapTx device nic = .ok (true, reaped) ∧
        gmPollLoop device cap rounds reaped = .ok (result, after) := by
  unfold gmVirtioNetPoll at ran
  split at ran
  · cases ran
    exact .inl ⟨rfl, rfl⟩
  · split at ran
    · cases ran
    · rename_i reaped
      cases ran
      exact .inr (.inl ⟨rfl, reaped⟩)
    · rename_i middle reaped
      exact .inr (.inr ⟨middle, reaped, ran⟩)

theorem gmVirtioCall_cases {call : GmVirtioCall}
    (ran : gmVirtioCall device call nic = .ok after) :
    (∃ frame result, gmVirtioNetSend device frame nic = .ok (result, after)) ∨
      (∃ result, gmVirtioReapTx device nic = .ok (result, after)) ∨
      ∃ given cap rounds result unnoted,
        gmVirtioNetPoll device given cap rounds nic = .ok (result, unnoted) ∧
        after = unnoted.record (.polled result) := by
  cases call with
  | send frame =>
    obtain ⟨outcome, sent, rfl⟩ := map_ok ran
    exact .inl ⟨frame, outcome.1, sent⟩
  | reapTx =>
    obtain ⟨outcome, reaped, rfl⟩ := map_ok ran
    exact .inr (.inl ⟨outcome.1, reaped⟩)
  | poll given cap rounds =>
    obtain ⟨outcome, polled, rfl⟩ := map_ok ran
    exact .inr (.inr ⟨given, cap, rounds, outcome.1, outcome.2, polled, rfl⟩)

/-! ## The receive queue during a reap -/

/-- Nothing of the receive queue changed. -/
structure RxSame (before after : GmVirtio) : Prop where
  rx : after.driver.rx = before.driver.rx
  used : after.shared.rxUsed = before.shared.rxUsed
  buf : after.shared.rxBuf = before.shared.rxBuf
  ready : after.driver.ready = true → before.driver.ready = true
  history : ∃ events, after.history = before.history ++ events ∧
    ∀ event ∈ events, ¬ event.AboutRx

theorem RxSame.record (nic : GmVirtio) {event : GmVirtioEvent}
    (apart : ¬ event.AboutRx) : RxSame nic (nic.record event) := by
  refine ⟨rfl, rfl, rfl, id, [event], rfl, ?_⟩
  intro other member
  rwa [List.mem_singleton.mp member]

/-- A property of the receive queue alone, which device turns keep. -/
structure RxRule (device : GmDevice) (Holds : GmVirtio → Prop) : Prop where
  turn : ∀ nic, Holds nic → Holds (nic.turn device)
  same : ∀ before after, RxSame before after → Holds before → Holds after

namespace RxRule

variable {device : GmDevice} {Holds : GmVirtio → Prop}

section

variable (rule : RxRule device Holds)

include rule

theorem step {before after : GmVirtio} (holds : Holds before)
    (same : RxSame before after) : Holds after :=
  rule.same before after same holds

theorem fail (holds : Holds nic) : Holds (gmVirtioFail device nic) := by
  refine rule.step (rule.turn nic holds) ?_
  refine ⟨by simp [gmVirtioFail, GmVirtio.record], rfl, rfl, ?_,
    [.statusWritten _], rfl, ?_⟩
  · simp [gmVirtioFail, GmVirtio.record]
  · intro event member
    rw [List.mem_singleton.mp member]
    exact id

theorem release (slot : GmDesc) (holds : Holds nic) :
    Holds (gmTxRelease slot nic) := by
  refine rule.step holds ⟨rfl, rfl, rfl, id, [.txReaped slot], rfl, ?_⟩
  intro event member
  rw [List.mem_singleton.mp member]
  exact id

theorem publish (slot : GmDesc) (frame : List UInt8) (holds : Holds nic) :
    Holds (gmTxPublish slot frame nic) := by
  refine rule.step holds ⟨rfl, rfl, rfl, id,
    [.txPublished slot, .notified .tx], ?_, ?_⟩
  · simp [gmTxPublish, GmVirtio.record]
  · intro event member
    rcases List.mem_cons.mp member with rfl | member
    · exact id
    · rw [List.mem_singleton.mp member]
      exact id

theorem reapLoop {used : UInt16} {result : Bool} (holds : Holds nic)
    (ran : gmReapLoop device rounds used nic = .ok (result, after)) :
    Holds after := by
  induction rounds generalizing used nic with
  | zero =>
    unfold gmReapLoop at ran
    split at ran
    · cases ran
      exact holds
    · cases ran
  | succ rounds induction =>
    unfold gmReapLoop at ran
    have looked : Holds ((nic.turn device).record
        (.txUsed (gmTxUsedId (nic.turn device)))) :=
      rule.step (rule.turn nic holds) (RxSame.record _ id)
    split at ran
    · cases ran
      exact holds
    · simp only at ran
      split at ran
      · split at ran
        · cases ran
          exact rule.fail looked
        · exact induction (rule.turn _ (rule.release _ looked)) ran
      · cases ran
        exact rule.fail looked

theorem reapTx {result : Bool} (holds : Holds nic)
    (ran : gmVirtioReapTx device nic = .ok (result, after)) : Holds after := by
  unfold gmVirtioReapTx at ran
  rcases gmVirtioAlive_cases device nic with ⟨alive, _⟩ | ⟨alive, _⟩ | alive
  · rw [alive] at ran
    cases ran
    exact holds
  · rw [alive] at ran
    exact rule.reapLoop (rule.turn _ (rule.turn _ holds)) ran
  · rw [alive] at ran
    cases ran
    exact rule.step (rule.turn _ holds)
      ⟨by simp, rfl, rfl, by simp, [], by simp, by simp⟩

theorem send {frame : Option (List UInt8)} {result : Bool} (holds : Holds nic)
    (ran : gmVirtioNetSend device frame nic = .ok (result, after)) :
    Holds after := by
  unfold gmVirtioNetSend at ran
  split at ran
  · cases ran
    exact holds
  · split at ran
    · cases ran
      exact holds
    · split at ran
      · cases ran
      · rename_i reaped
        cases ran
        exact rule.reapTx holds reaped
      · rename_i reaped
        split at ran
        · cases ran
          exact rule.reapTx holds reaped
        · cases ran
          exact rule.publish _ _ (rule.reapTx holds reaped)

/-- A property of the receive queue that every poll round keeps is kept by
every call, up to the note of what a poll returned. -/
theorem call
    (kept : ∀ cap nic outcome middle, Holds nic →
      PollRound device cap nic outcome middle → Holds middle)
    (noted : ∀ result nic, Holds nic → Holds (nic.record (.polled result)))
    {call : GmVirtioCall} (holds : Holds nic)
    (ran : gmVirtioCall device call nic = .ok after) : Holds after := by
  rcases gmVirtioCall_cases ran with ⟨frame, result, sent⟩ |
    ⟨result, reaped⟩ | ⟨given, cap, rounds, result, unnoted, polled, rfl⟩
  · exact rule.send holds sent
  · exact rule.reapTx holds reaped
  · apply noted
    rcases gmVirtioNetPoll_cases polled with ⟨_, rfl⟩ | ⟨_, reaped⟩ |
      ⟨middle, reaped, looped⟩
    · exact holds
    · exact rule.reapTx holds reaped
    · exact gmPollLoop_keeps (kept cap) (rule.reapTx holds reaped) looped

end

end RxRule

end Gmker.Virtio
