import Mathlib.Data.Fintype.Card
import Mathlib.Data.Finset.Card
import Gmker.Virtio.Turns

/-!
# Ownership of the transmit descriptors

Between two driver accesses the device may write anything to the TX used ring,
its index and the status register.  The descriptors in flight are then still
exactly those published and not yet reaped, and an entry that names anything
else takes the driver offline.
-/

namespace Gmker.Virtio

open Foundation Function

variable {txFree : GmDesc → Bool} {slot : GmDesc} {nic after : GmVirtio}
  {device : GmDevice} {rounds : Nat} {result : Bool}

/-- Publishing lends a TX descriptor to the device, reaping takes it back. -/
def txLoans : Loans GmVirtioEvent GmDesc where
  lends
    | .txPublished slot => some slot
    | _ => none
  returns
    | .txReaped slot => some slot
    | _ => none

theorem txLoans_ignores {event : GmVirtioEvent} (apart : ¬ event.AboutTx) :
    txLoans.Ignores event := by
  cases event <;> first
    | exact ⟨rfl, rfl⟩
    | exact absurd trivial apart

/-- The descriptors that are not free. -/
def txBusy (txFree : GmDesc → Bool) : Finset GmDesc :=
  Finset.univ.filter fun slot => txFree slot = false

theorem mem_txBusy : slot ∈ txBusy txFree ↔ txFree slot = false := by
  simp [txBusy]

theorem txBusy_card_le (txFree : GmDesc → Bool) :
    (txBusy txFree).card ≤ gmVirtioQueueSize := by
  have bound := Finset.card_le_univ (txBusy txFree)
  simpa using bound

theorem txBusy_release (busy : txFree slot = false) :
    (txBusy txFree).card =
      (txBusy (update txFree slot true)).card + 1 := by
  have erased : txBusy (update txFree slot true) =
      (txBusy txFree).erase slot := by
    ext other
    rw [Finset.mem_erase, mem_txBusy, mem_txBusy]
    by_cases same : other = slot
    · simp [same]
    · simp [same]
  rw [erased, Finset.card_erase_add_one (mem_txBusy.mpr busy)]

theorem txBusy_publish (free : txFree slot = true) :
    (txBusy (update txFree slot false)).card =
      (txBusy txFree).card + 1 := by
  have inserted : txBusy (update txFree slot false) =
      insert slot (txBusy txFree) := by
    ext other
    rw [Finset.mem_insert, mem_txBusy, mem_txBusy]
    by_cases same : other = slot
    · simp [same]
    · simp [same]
  have absent : slot ∉ txBusy txFree := by
    rw [mem_txBusy, free]
    simp
  rw [inserted, Finset.card_insert_of_notMem absent]

/-- A used entry that names no descriptor in flight. -/
def Misnamed (past : List GmVirtioEvent) (id : UInt32) : Prop :=
  ∀ slot : GmDesc, id.toNat = slot.val → txLoans.Home past slot

/-- The answer to a misnamed entry: FAILED is written to the status register
and the driver is offline. -/
def Heeded (ready : Bool) (past : List GmVirtioEvent) (event : GmVirtioEvent)
    (future : List GmVirtioEvent) : Prop :=
  ∀ id, event = .txUsed id → Misnamed past id →
    ready = false ∧
      ∃ value, .statusWritten value ∈ future ∧
        value &&& gmVirtioStatusFailed ≠ 0

/-- The transmit side in any reachable state. -/
structure TxOwned (nic : GmVirtio) : Prop where
  loans : txLoans.Tracks (fun slot => nic.driver.txFree slot = false)
    nic.history
  gap : nic.driver.tx.avail.idx - nic.driver.tx.lastUsed =
    UInt16.ofNat (txBusy nic.driver.txFree).card
  heeded : EachTime (Heeded nic.driver.ready) nic.history

theorem Heeded.prolong {ready later : Bool}
    {past future events : List GmVirtioEvent} {event : GmVirtioEvent}
    (stays : later = true → ready = true)
    (heeded : Heeded ready past event future) :
    Heeded later past event (future ++ events) := by
  intro id isUsed misnamed
  obtain ⟨offline, value, written, failed⟩ := heeded id isUsed misnamed
  refine ⟨?_, value, List.mem_append_left _ written, failed⟩
  cases later with
  | false => rfl
  | true => rw [stays rfl] at offline; cases offline

/-- Events that are not used entries need no answer. -/
theorem heeded_append {ready later : Bool} {history events : List GmVirtioEvent}
    (old : EachTime (Heeded ready) history)
    (stays : later = true → ready = true)
    (other : ∀ event ∈ events, ∀ id, event ≠ .txUsed id) :
    EachTime (Heeded later) (history ++ events) := by
  have sameReady : EachTime (Heeded later) history := by
    intro past event future split
    have prolonged : Heeded later past event (future ++ []) :=
      (old past event future split).prolong stays
    simpa using prolonged
  apply sameReady.append
  · intro past event future heeded
    exact heeded.prolong id
  · rintro past event future rfl id isUsed
    exact absurd isUsed (other event (by simp) id)

namespace TxOwned

/-- Everything that leaves the transmit side alone. -/
theorem carry {before after : GmVirtio} {events : List GmVirtioEvent}
    (owned : TxOwned before) (tx : after.driver.tx = before.driver.tx)
    (free : after.driver.txFree = before.driver.txFree)
    (ready : after.driver.ready = true → before.driver.ready = true)
    (history : after.history = before.history ++ events)
    (apart : ∀ event ∈ events, ¬ event.AboutTx) : TxOwned after := by
  refine ⟨?_, ?_, ?_⟩
  · rw [history, free]
    apply owned.loans.append_ignored
    intro event member
    exact txLoans_ignores (apart event member)
  · rw [tx, free]
    exact owned.gap
  · rw [history]
    apply heeded_append owned.heeded ready
    rintro event member id rfl
    exact apart _ member trivial

theorem turn (owned : TxOwned nic) (device : GmDevice) :
    TxOwned (nic.turn device) := by
  obtain ⟨events, extended, fromDevice⟩ := (turn_turned device nic).history
  refine owned.carry (by simp) (by simp) (by simp) extended ?_
  intro event member
  exact (fromDevice event member).not_aboutTx

theorem record (owned : TxOwned nic) (event : GmVirtioEvent)
    (apart : ¬ event.AboutTx) : TxOwned (nic.record event) := by
  refine owned.carry rfl rfl id rfl ?_
  intro other member
  rwa [List.mem_singleton.mp member]

theorem release (owned : TxOwned nic) {id : UInt32} (slot : GmDesc)
    (names : id.toNat = slot.val) (busy : nic.driver.txFree slot = false) :
    TxOwned (gmTxRelease slot (nic.record (.txUsed id))) := by
  have out := (owned.loans slot).1 busy
  have looked : txLoans.Tracks (fun slot => nic.driver.txFree slot = false)
      (nic.history ++ [.txUsed id]) := by
    apply owned.loans.append_ignored
    intro event member
    rw [List.mem_singleton.mp member]
    exact ⟨rfl, rfl⟩
  refine ⟨?_, ?_, ?_⟩
  · refine looked.giveBack rfl rfl busy (by simp [gmTxRelease, GmVirtio.record])
      ?_
    intro other different
    simp [gmTxRelease, GmVirtio.record, different]
  · have gap := owned.gap
    rw [txBusy_release busy, UInt16.ofNat_add] at gap
    simp only [gmTxRelease, GmVirtio.record]
    have one : UInt16.ofNat 1 = 1 := rfl
    rw [one] at gap
    grind
  · have history : (gmTxRelease slot (nic.record (.txUsed id))).history =
        nic.history ++ [.txUsed id, .txReaped slot] := by
      simp [gmTxRelease, GmVirtio.record]
    rw [history]
    apply owned.heeded.append
    · intro past event future heeded
      exact Heeded.prolong (fun stays => stays) heeded
    · intro past event future split other isUsed misnamed
      cases past with
      | nil =>
        obtain ⟨rfl, _⟩ := List.cons.inj split
        cases isUsed
        rw [List.append_nil] at misnamed
        exact absurd (misnamed slot names) out.not_home
      | cons first rest =>
        have later := (List.cons.inj split).2
        cases rest with
        | nil =>
          obtain ⟨rfl, _⟩ := List.cons.inj later
          cases isUsed
        | cons second rest =>
          have impossible := (List.cons.inj later).2
          simp at impossible

/-- Any entry may be answered by going offline. -/
theorem fail (owned : TxOwned nic) (device : GmDevice) (id : UInt32) :
    TxOwned (gmVirtioFail device (nic.record (.txUsed id))) := by
  obtain ⟨driver, events, value, extended, fromDevice, failed, _⟩ :=
    gmVirtioFail_offline device (nic.record (.txUsed id))
  generalize gmVirtioFail device (nic.record (.txUsed id)) = after at *
  have history : after.history =
      nic.history ++ .txUsed id :: (events ++ [.statusWritten value]) := by
    rw [extended]
    simp [GmVirtio.record]
  have quiet : ∀ event ∈ events ++ [.statusWritten value], ¬ event.AboutTx := by
    intro event member
    rcases List.mem_append.mp member with inside | last
    · exact (fromDevice event inside).not_aboutTx
    · rw [List.mem_singleton.mp last]
      simp [GmVirtioEvent.AboutTx]
  refine ⟨?_, ?_, ?_⟩
  · rw [history, driver]
    apply owned.loans.append_ignored
    intro event member
    rcases List.mem_cons.mp member with rfl | member
    · exact ⟨rfl, rfl⟩
    · exact txLoans_ignores (quiet event member)
  · rw [driver]
    exact owned.gap
  · have offline : after.driver.ready = false := by rw [driver]
    rw [history, offline]
    have old : EachTime (Heeded false) nic.history := by
      have widened : EachTime (Heeded false) (nic.history ++ []) :=
        heeded_append owned.heeded (by simp) (by simp)
      simpa using widened
    apply old.append
    · intro past event future heeded
      exact heeded.prolong (fun stays => stays)
    · intro past event future split other isUsed _
      cases past with
      | nil =>
        obtain ⟨_, rfl⟩ := List.cons.inj split
        exact ⟨rfl, value, by simp, failed⟩
      | cons first rest =>
        have later := (List.cons.inj split).2
        have member : event ∈ events ++ [.statusWritten value] := by
          rw [later]
          simp
        rw [isUsed] at member
        exact absurd trivial (quiet _ member)

end TxOwned

/-! ## Reaping -/

/-- What a reap leaves alone, and what it may free. -/
structure ReapEffect (before after : GmVirtio) : Prop where
  owned : TxOwned after
  buf : after.driver.txBuf = before.driver.txBuf
  desc : after.driver.tx.desc = before.driver.tx.desc

theorem ReapEffect.trans {first second third : GmVirtio}
    (left : ReapEffect first second) (right : ReapEffect second third) :
    ReapEffect first third :=
  ⟨right.owned, right.buf.trans left.buf, right.desc.trans left.desc⟩

theorem TxOwned.looked (owned : TxOwned nic) (device : GmDevice) :
    ReapEffect nic (nic.turn device) :=
  ⟨owned.turn device, by simp, by simp⟩

theorem TxOwned.failed (owned : TxOwned nic) (device : GmDevice) (id : UInt32) :
    ReapEffect nic (gmVirtioFail device (nic.record (.txUsed id))) := by
  have offline := gmVirtioFail_offline device (nic.record (.txUsed id))
  exact ⟨owned.fail device id, by rw [offline.driver]; rfl,
    by rw [offline.driver]; rfl⟩

theorem gmReapLoop_effect {used : UInt16} (owned : TxOwned nic)
    (ran : gmReapLoop device rounds used nic = .ok (result, after)) :
    ReapEffect nic after := by
  induction rounds generalizing used nic with
  | zero =>
    unfold gmReapLoop at ran
    split at ran
    · cases ran
      exact ⟨owned, rfl, rfl⟩
    · cases ran
  | succ rounds induction =>
    unfold gmReapLoop at ran
    split at ran
    · cases ran
      exact ⟨owned, rfl, rfl⟩
    · have looked := owned.looked device
      simp only at ran
      split at ran
      · rename_i within
        split at ran
        · cases ran
          exact looked.trans (looked.owned.failed device _)
        · rename_i busy
          have released := looked.owned.release ⟨_, within⟩ rfl
            (Bool.eq_false_iff.mpr busy)
          have again := induction (released.turn device) ran
          refine ⟨again.owned, ?_, ?_⟩
          · rw [again.buf]
            simp [gmTxRelease, GmVirtio.record]
          · rw [again.desc]
            simp [gmTxRelease, GmVirtio.record]
      · cases ran
        exact looked.trans (looked.owned.failed device _)

/-- Every iteration but the last frees a busy descriptor, so the loop ends
before the rounds do, whatever index it reads. -/
theorem gmReapLoop_ends (device : GmDevice) (rounds : Nat) (used : UInt16)
    (nic : GmVirtio)
    (enough : (txBusy nic.driver.txFree).card < rounds) :
    ∃ outcome, gmReapLoop device rounds used nic = .ok outcome := by
  induction rounds generalizing used nic with
  | zero => omega
  | succ rounds induction =>
    unfold gmReapLoop
    split
    · exact ⟨_, rfl⟩
    · simp only
      split
      · split
        · exact ⟨_, rfl⟩
        · rename_i busy
          apply induction
          have fewer := txBusy_release (Bool.eq_false_iff.mpr busy)
          simp only [gmTxRelease, GmVirtio.record, turn_driver] at fewer ⊢
          omega
      · exact ⟨_, rfl⟩

theorem gmVirtioReapTx_ends (device : GmDevice) (nic : GmVirtio) :
    ∃ outcome, gmVirtioReapTx device nic = .ok outcome := by
  unfold gmVirtioReapTx
  split
  · exact ⟨_, rfl⟩
  · apply gmReapLoop_ends
    have bound := txBusy_card_le
    exact Nat.lt_succ_of_le (bound _)

theorem gmVirtioReapTx_effect (owned : TxOwned nic)
    (ran : gmVirtioReapTx device nic = .ok (result, after)) :
    ReapEffect nic after := by
  unfold gmVirtioReapTx at ran
  rcases gmVirtioAlive_cases device nic with ⟨alive, _⟩ | ⟨alive, _⟩ | alive
  · rw [alive] at ran
    cases ran
    exact ⟨owned, rfl, rfl⟩
  · rw [alive] at ran
    have looked := owned.looked device
    have again := looked.trans (looked.owned.looked device)
    exact again.trans (gmReapLoop_effect again.owned ran)
  · rw [alive] at ran
    cases ran
    have looked := owned.turn device
    refine ⟨looked.carry (by simp) (by simp) (by simp)
      (List.append_nil _).symm (by simp), rfl, rfl⟩

/-! ## Sending -/

theorem gmTxFind_free {start slot : GmDesc}
    (found : gmTxFind txFree rounds start = some slot) :
    txFree slot = true := by
  induction rounds generalizing start with
  | zero => cases found
  | succ rounds induction =>
    unfold gmTxFind at found
    split at found
    · rename_i free
      cases found
      exact free
    · exact induction found

theorem TxOwned.publish (owned : TxOwned nic)
    (free : nic.driver.txFree slot = true) (frame : List UInt8) :
    TxOwned (gmTxPublish slot frame nic) := by
  have published : TxOwned ({ nic with
      driver := (gmTxPublish slot frame nic).driver }.record
        (.txPublished slot)) := by
    refine ⟨?_, ?_, ?_⟩
    · refine owned.loans.lend rfl rfl (by simp [free])
        (by simp [gmTxPublish, GmVirtio.record]) ?_
      intro other different
      simp [gmTxPublish, GmVirtio.record, different]
    · have gap := owned.gap
      simp only [gmTxPublish, GmVirtio.record]
      rw [txBusy_publish free, UInt16.ofNat_add, ← gap]
      have one : UInt16.ofNat 1 = 1 := rfl
      rw [one]
      grind
    · apply heeded_append owned.heeded (fun stays => stays)
      rintro event member id rfl
      cases List.mem_singleton.mp member
  exact published.record _ (by simp [GmVirtioEvent.AboutTx])

/-- What a send may write: only the slot it found free after its own reap. -/
def SendSpares (device : GmDevice) (before after : GmVirtio) : Prop :=
  ∀ slot,
    (after.driver.txBuf slot = before.driver.txBuf slot ∧
      after.driver.tx.desc slot = before.driver.tx.desc slot) ∨
    ∃ reaped, gmVirtioReapTx device before = .ok (true, reaped) ∧
      reaped.driver.txFree slot = true

theorem gmVirtioNetSend_effect {frame : Option (List UInt8)}
    (owned : TxOwned nic)
    (ran : gmVirtioNetSend device frame nic = .ok (result, after)) :
    TxOwned after ∧ SendSpares device nic after := by
  have spared : ∀ {reaped : GmVirtio}, ReapEffect nic reaped →
      SendSpares device nic reaped := by
    intro reaped effect slot
    left
    rw [effect.buf, effect.desc]
    exact ⟨rfl, rfl⟩
  have untouched : TxOwned nic ∧ SendSpares device nic nic :=
    ⟨owned, spared ⟨owned, rfl, rfl⟩⟩
  unfold gmVirtioNetSend at ran
  split at ran
  · cases ran
    exact untouched
  · split at ran
    · cases ran
      exact untouched
    · split at ran
      · cases ran
      · rename_i reaped
        cases ran
        have effect := gmVirtioReapTx_effect owned reaped
        exact ⟨effect.owned, spared effect⟩
      · rename_i middle reaped
        have effect := gmVirtioReapTx_effect owned reaped
        split at ran
        · cases ran
          exact ⟨effect.owned, spared effect⟩
        · rename_i chosen found
          have free := gmTxFind_free found
          cases ran
          refine ⟨effect.owned.publish free _, ?_⟩
          intro slot
          by_cases same : slot = chosen
          · right
            exact ⟨middle, reaped, by rw [same]; exact free⟩
          · left
            simp [gmTxPublish, GmVirtio.record, same, effect.buf, effect.desc]

/-! ## The receive side leaves the transmit side alone -/

theorem TxOwned.failRx (owned : TxOwned nic) (device : GmDevice) :
    TxOwned (gmVirtioFail device nic) := by
  obtain ⟨driver, events, value, extended, fromDevice, _, _⟩ :=
    gmVirtioFail_offline device nic
  rw [List.append_assoc] at extended
  refine owned.carry (by rw [driver]) (by rw [driver]) (by rw [driver]; simp)
    extended ?_
  intro event member
  rcases List.mem_append.mp member with inside | last
  · exact (fromDevice event inside).not_aboutTx
  · rw [List.mem_singleton.mp last]
    simp [GmVirtioEvent.AboutTx]

theorem TxOwned.advanceRx (owned : TxOwned nic) (id bytes : UInt32) :
    TxOwned (gmRxAdvance id bytes nic) := by
  refine owned.carry rfl rfl (fun stays => stays) rfl ?_
  intro event member
  rw [List.mem_singleton.mp member]
  simp [GmVirtioEvent.AboutTx]

theorem TxOwned.postRx (owned : TxOwned nic) (slot : GmDesc) :
    TxOwned (gmRxPost slot nic) := by
  have posted : TxOwned ({ nic with
      driver := (gmRxPost slot nic).driver }.record (.rxPosted slot)) := by
    refine owned.carry rfl rfl (fun stays => stays) rfl ?_
    intro event member
    rw [List.mem_singleton.mp member]
    simp [GmVirtioEvent.AboutTx]
  exact posted.record _ (by simp [GmVirtioEvent.AboutTx])

theorem PollRound.txOwned {cap : UInt16} {outcome : Option GmPollResult}
    (round : PollRound device cap nic outcome after) (owned : TxOwned nic) :
    TxOwned after := by
  have read := ((owned.turn device).turn device).turn device
  cases round with
  | empty => exact owned.turn device
  | outside first second id bytes _ firstRead secondRead =>
    subst firstRead secondRead
    exact (read.advanceRx id bytes).failRx device
  | posted first second copying id bytes slot frame _ firstRead secondRead _ _ _
      beforeCopy =>
    subst firstRead secondRead beforeCopy
    have copying := (read.advanceRx id bytes).turn device
    exact (copying.record _ (by simp [GmVirtioEvent.AboutTx])).postRx slot

theorem gmVirtioNetPoll_txOwned {given : Bool} {cap : UInt16}
    {result : GmPollResult} (owned : TxOwned nic)
    (ran : gmVirtioNetPoll device given cap rounds nic = .ok (result, after)) :
    TxOwned after := by
  rcases gmVirtioNetPoll_cases ran with ⟨_, rfl⟩ | ⟨_, reaped⟩ |
    ⟨middle, reaped, looped⟩
  · exact owned
  · exact (gmVirtioReapTx_effect owned reaped).owned
  · exact gmPollLoop_keeps (fun _ _ _ holds round => round.txOwned holds)
      (gmVirtioReapTx_effect owned reaped).owned looped

/-! ## Runs -/

theorem gmVirtioNetInit_txOwned (status : UInt8) (rxPage txPage : Nat → UInt64) :
    TxOwned (gmVirtioNetInit status rxPage txPage) := by
  have apart : ∀ event ∈ (gmVirtioNetInit status rxPage txPage).history,
      ¬ event.AboutTx := by
    intro event member
    rcases List.mem_append.mp member with posted | notified
    · obtain ⟨slot, _, rfl⟩ := List.mem_map.mp posted
      simp [GmVirtioEvent.AboutTx]
    · rw [List.mem_singleton.mp notified]
      simp [GmVirtioEvent.AboutTx]
  have blank : TxOwned { gmVirtioNetInit status rxPage txPage with
      history := [] } := by
    refine ⟨?_, ?_, EachTime.nil⟩
    · intro slot
      simp [gmVirtioNetInit, Loans.Home, Loans.lent, Loans.taken]
    · have idle : txBusy (fun _ => true) = ∅ := by
        ext slot
        simp [mem_txBusy]
      simp [gmVirtioNetInit, idle]
  exact blank.carry rfl rfl (fun stays => stays) (List.nil_append _).symm apart

theorem gmVirtioCall_txOwned {call : GmVirtioCall} (owned : TxOwned nic)
    (ran : gmVirtioCall device call nic = .ok after) : TxOwned after := by
  rcases gmVirtioCall_cases ran with ⟨frame, result, sent⟩ |
    ⟨result, reaped⟩ | ⟨given, cap, rounds, result, unnoted, polled, rfl⟩
  · exact (gmVirtioNetSend_effect owned sent).1
  · exact (gmVirtioReapTx_effect owned reaped).owned
  · exact (gmVirtioNetPoll_txOwned owned polled).record _
      (by simp [GmVirtioEvent.AboutTx])

theorem gmVirtioRun_txOwned {calls : List GmVirtioCall} (owned : TxOwned nic)
    (ran : gmVirtioRun device calls nic = .ok after) : TxOwned after :=
  runSteps_keeps
    (fun _ _ _ holds stepped => gmVirtioCall_txOwned holds stepped) owned ran

/-- The transmit contract of one state: the bookkeeping agrees with what was
published and reaped, the indices agree with the bookkeeping, and every
misnamed used entry was answered. -/
structure TxContract (nic : GmVirtio) : Prop where
  inFlight : ∀ slot, nic.driver.txFree slot = false ↔
    txLoans.Out nic.history slot
  home : ∀ slot, nic.driver.txFree slot = true ↔
    txLoans.Home nic.history slot
  gap : (nic.driver.tx.avail.idx - nic.driver.tx.lastUsed).toNat =
    (txBusy nic.driver.txFree).card
  bounded : (txBusy nic.driver.txFree).card ≤ gmVirtioQueueSize
  heeded : EachTime (Heeded nic.driver.ready) nic.history

theorem TxOwned.contract (owned : TxOwned nic) : TxContract nic := by
  have bounded := txBusy_card_le nic.driver.txFree
  refine ⟨owned.loans.out_iff, ?_, ?_, bounded, owned.heeded⟩
  · intro slot
    rw [← owned.loans.home_iff slot]
    simp
  · rw [owned.gap, UInt16.toNat_ofNat']
    apply Nat.mod_eq_of_lt
    have size : gmVirtioQueueSize = 8 := rfl
    omega

/-- In every state reached by any calls against any device the transmit
contract holds, the next send spares every slot that is not free, and a reap
ends within its nine rounds. -/
theorem gmVirtioRun_tx_ownership (device : GmDevice) (status : UInt8)
    (rxPage txPage : Nat → UInt64) (calls : List GmVirtioCall)
    (nic : GmVirtio)
    (ran : gmVirtioRun device calls (gmVirtioNetInit status rxPage txPage) =
      .ok nic) :
    TxContract nic ∧
      (∀ frame result after,
        gmVirtioNetSend device frame nic = .ok (result, after) →
          SendSpares device nic after) ∧
      ∃ outcome, gmVirtioReapTx device nic = .ok outcome := by
  have owned : TxOwned nic :=
    gmVirtioRun_txOwned (gmVirtioNetInit_txOwned status rxPage txPage) ran
  refine ⟨owned.contract, ?_, gmVirtioReapTx_ends device nic⟩
  intro frame result after sent
  exact (gmVirtioNetSend_effect owned sent).2

/-- A device that completes the first frame and then names it again. -/
def repeatingDevice : GmDevice := fun clock =>
  if clock = 2 then
    [.usedElem .tx 0 { id := 0, len := 0 }, .usedIdx .tx 1]
  else if clock = 5 then
    [.usedElem .tx 1 { id := 0, len := 0 }, .usedIdx .tx 2]
  else []

def repeatingRun : Except GmLoop GmVirtio :=
  gmVirtioRun repeatingDevice [.send (some [1, 2, 3]), .reapTx]
    (gmVirtioNetInit 15 (fun _ => 0x200000) (fun _ => 0x201000))

/-- One frame sent, its descriptor reaped once and then named again: the
contract holds and the driver is offline. -/
theorem gmVirtioRun_tx_ownership_repeated :
    ∃ nic, repeatingRun = .ok nic ∧ nic.driver.ready = false ∧
      nic.driver.txFree 0 = true ∧ TxContract nic :=
  ⟨_, rfl, rfl, rfl,
    (gmVirtioRun_tx_ownership repeatingDevice 15 (fun _ => 0x200000)
      (fun _ => 0x201000) [.send (some [1, 2, 3]), .reapTx] _ rfl).1⟩

end Gmker.Virtio
