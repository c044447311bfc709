import Gmker.Net.Numbering

/-!
# The stream of the sender

Runs of the TCP calls on one host, with the network and the link free to do
anything.  Every payload on the wire is a part of one stream, the payloads
whose first transmission succeeded; a payload stays inside its own
`gm_tcp_send`, which transmits it six times at most.
-/

namespace Gmker.Net

variable {host : GmHost} {data : List UInt8}

/-! ## Runs of TCP calls -/

/-- The calls that the rest of the kernel makes, and time passing between
them. -/
inductive GmTcpCall where
  | connect (dst : List UInt8) (port : UInt16) (timeout : Nat)
  | send (data : List UInt8) (timeout : Nat)
  | input (packet : GmPacket)
  | poll
  | close
  | read (max : Nat)
  | drop
  | idle (ticks : Nat)

def gmTcpCall : GmTcpCall → GmHost → GmHost
  | .connect dst port timeout, host => (gmTcpConnect dst port timeout host).2
  | .send data timeout, host => (gmTcpSend data timeout host).2
  | .input packet, host => gmTcpInput packet host
  | .poll, host => gmTcpPoll host
  | .close, host => gmTcpClose host
  | .read max, host => (gmTcpRead max host).2
  | .drop, host => gmTcpDrop host
  | .idle ticks, host => { host with ticks := host.ticks + ticks }

def gmTcpRun (calls : List GmTcpCall) (host : GmHost) : GmHost :=
  calls.foldl (fun host call => gmTcpCall call host) host

/-- `gm_tcp_send` returns before it looks at the network. -/
def gmTcpRefuses (data : List UInt8) (host : GmHost) : Prop :=
  host.tcp.state ≠ .established ∨ data = [] ∨ gmTcpTxMax < data.length

instance (data : List UInt8) (host : GmHost) :
    Decidable (gmTcpRefuses data host) :=
  inferInstanceAs (Decidable (_ ∨ _))

/-- The hosts of `gm_tcp_send`. -/
def gmTcpSendTrace (data : List UInt8) (timeout : Nat) (host : GmHost) :
    List GmMoment :=
  if gmTcpRefuses data host then [{ host := host }]
  else
    let settled := gmTcpSettle host.ticks timeout timeout host
    gmTcpSettleTrace host.ticks timeout timeout host ++
    if settled.tcp.unacked ≠ [] then [{ host := gmTcpAbandon settled }]
    else
      match gmTcpHand data settled with
      | (false, host) => [{ host := host }]
      | (true, host) =>
        gmTcpSettleTrace host.ticks timeout timeout host ++
          [{ host := (gmTcpConfirm timeout host).2 }]

/-- The hosts of `gm_tcp_close`. -/
def gmTcpCloseTrace (host : GmHost) : List GmMoment :=
  if host.tcp.state ≠ .established then [{ host := host }]
  else
    gmTcpSettleTrace host.ticks 100 100 host ++
      [{ host := gmTcpClose host }]

def gmTcpCallTrace : GmTcpCall → GmHost → List GmMoment
  | .connect dst port timeout, host => gmTcpConnectTrace dst port timeout host
  | .send data timeout, host => gmTcpSendTrace data timeout host
  | .close, host => gmTcpCloseTrace host
  | call, host => [{ host := gmTcpCall call host }]

/-- Every point of time of a run. -/
def gmTcpRunTrace : List GmTcpCall → GmHost → List GmMoment
  | [], host => [{ host := host }]
  | call :: calls, host =>
    { host := host } ::
      (gmTcpCallTrace call host ++
        gmTcpRunTrace calls (gmTcpCall call host))

theorem gmTcpSend_eq (data : List UInt8) (timeout : Nat) (host : GmHost) :
    gmTcpSend data timeout host =
      if gmTcpRefuses data host then (false, host)
      else
        if (gmTcpSettle host.ticks timeout timeout host).tcp.unacked ≠ [] then
          (false, gmTcpAbandon (gmTcpSettle host.ticks timeout timeout host))
        else
          match gmTcpHand data
              (gmTcpSettle host.ticks timeout timeout host) with
          | (false, host) => (false, host)
          | (true, host) => gmTcpConfirm timeout host :=
  rfl

theorem gmTcpSendTrace_ends (data : List UInt8) (timeout : Nat)
    (host : GmHost) :
    EndsAt (gmTcpSendTrace data timeout host)
      (gmTcpSend data timeout host).2 := by
  rw [gmTcpSend_eq, gmTcpSendTrace]
  by_cases refuses : gmTcpRefuses data host
  · rw [if_pos refuses, if_pos refuses]
    exact .single host
  rw [if_neg refuses, if_neg refuses]
  apply EndsAt.append
  by_cases waits :
      (gmTcpSettle host.ticks timeout timeout host).tcp.unacked ≠ []
  · rw [if_pos waits, if_pos waits]
    exact .single _
  rw [if_neg waits, if_neg waits]
  rcases gmTcpHand data (gmTcpSettle host.ticks timeout timeout host) with
    ⟨ok, after⟩
  cases ok with
  | false => exact .single after
  | true => exact (EndsAt.single _).append

/-- The trace of a call ends with what the call leaves behind. -/
theorem gmTcpCallTrace_ends (call : GmTcpCall) (host : GmHost) :
    EndsAt (gmTcpCallTrace call host) (gmTcpCall call host) := by
  cases call with
  | connect dst port timeout => exact gmTcpConnectTrace_ends _ _ _ _
  | send data timeout => exact gmTcpSendTrace_ends data timeout host
  | close =>
    rw [gmTcpCallTrace, gmTcpCloseTrace]
    split
    · rename_i down
      rw [gmTcpCall, gmTcpClose, if_pos down]
      exact .single host
    · exact (EndsAt.single _).append
  | input packet => exact .single _
  | poll => exact .single _
  | read max => exact .single _
  | drop => exact .single _
  | idle ticks => exact .single _

/-! ## The stream -/

/-- The first transmission of a payload succeeds. -/
def gmTcpSends (data : List UInt8) (timeout : Nat) (host : GmHost) : Bool :=
  let settled := gmTcpSettle host.ticks timeout timeout host
  ¬ gmTcpRefuses data host ∧ settled.tcp.unacked = [] ∧
    (gmTcpHand data settled).1 = true

/-- The stream of the current connection after one more call. -/
def gmTcpStreamAfter : GmTcpCall → GmHost → List UInt8 → List UInt8
  | .connect _ _ timeout, host, stream =>
    if (gmNetPrepare timeout host).1 then [] else stream
  | .send data timeout, host, stream =>
    if gmTcpSends data timeout host then stream ++ data else stream
  | _, _, stream => stream

/-- The payloads of the current connection whose first transmission
succeeded, one after the other. -/
def gmTcpStream : List GmTcpCall → GmHost → List UInt8 → List UInt8
  | [], _, stream => stream
  | call :: calls, host, stream =>
    gmTcpStream calls (gmTcpCall call host)
      (gmTcpStreamAfter call host stream)

/-! ## The contract -/

/-- The payload-carrying segments that some events tried to transmit. -/
def transmissions (events : List GmNetEvent) : List GmSegment :=
  events.filterMap fun event =>
    match event with
    | .sent segment _ => if segment.payload = [] then none else some segment
    | _ => none

/-- A call transmits payload only for its own data, six times at most. -/
def Transmits (call : GmTcpCall) (host : GmHost) : Prop :=
  ∃ events, (gmTcpCall call host).log = host.log ++ events ∧
    (transmissions events).length ≤ 6 ∧
    ∀ segment ∈ transmissions events, ∃ timeout,
      call = .send segment.payload timeout ∧ segment.seq = host.tcp.seq

/-- `gm_tcp_send` returns zero for want of an acknowledgement, of an older
payload or of its own. -/
def Unconfirmed (data : List UInt8) (timeout : Nat) (host : GmHost) : Prop :=
  (gmTcpSend data timeout host).1 = false ∧
    (gmTcpSends data timeout host = true ∨
      (¬ gmTcpRefuses data host ∧
        (gmTcpSettle host.ticks timeout timeout host).tcp.unacked ≠ []))

/-- The outstanding payload is the end of what was sent. -/
def Outstanding (host : GmHost) : Prop :=
  host.tcp.unacked ≠ [] →
    host.tcp.unackedSeq + UInt32.ofNat host.tcp.unacked.length =
        host.tcp.seq ∧
      ∃ earlier,
        (conversation host.log).stream = earlier ++ host.tcp.unacked

structure SenderContract (stream : List UInt8) (host : GmHost) : Prop where
  agrees : ∀ segment ∈ wire host.log, segment.payload ≠ [] →
    ∃ position,
      segment.seq = agreedIsn host.log + 1 + UInt32.ofNat position ∧
      segment.payload <+: stream.drop position
  transmits : ∀ call, Transmits call host
  unconfirmed : ∀ data timeout, Unconfirmed data timeout host →
    (gmTcpSend data timeout host).2.tcp.state ≠ .established

/-! ## A missing acknowledgement -/

theorem gmTcpConfirm_false {timeout : Nat}
    (missing : (gmTcpConfirm timeout host).1 = false) :
    (gmTcpConfirm timeout host).2.tcp.state ≠ .established := by
  unfold gmTcpConfirm at missing ⊢
  dsimp only at missing ⊢
  split at missing
  · rename_i outstanding
    rw [if_pos outstanding]
    simp [gmTcpAbandon, GmHost.setState]
  · rename_i settled
    rw [if_neg settled]
    simpa using missing

theorem gmTcpSend_unconfirmed {timeout : Nat}
    (unconfirmed : Unconfirmed data timeout host) :
    (gmTcpSend data timeout host).2.tcp.state ≠ .established := by
  obtain ⟨failed, reason⟩ := unconfirmed
  rw [gmTcpSend_eq] at failed ⊢
  rcases reason with handed | ⟨accepts, outstanding⟩
  · simp only [gmTcpSends, decide_eq_true_eq] at handed
    obtain ⟨accepts, settled, sent⟩ := handed
    rw [if_neg accepts, if_neg (not_not_intro settled)] at failed ⊢
    cases result : gmTcpHand data
        (gmTcpSettle host.ticks timeout timeout host) with
    | mk ok after =>
      rw [result] at sent failed
      cases sent
      exact gmTcpConfirm_false failed
  · rw [if_neg accepts, if_pos outstanding]
    simp [gmTcpAbandon, GmHost.setState]

/-! ## What input does to the outstanding payload -/

/-- The outstanding payload is gone, or as it was. -/
def Rests (before after : GmHost) : Prop :=
  after.tcp.unacked = [] ∨
    (after.tcp.unacked = before.tcp.unacked ∧
      after.tcp.unackedSeq = before.tcp.unackedSeq ∧
      after.tcp.unackedRetry = before.tcp.unackedRetry)

namespace Rests

theorem refl (host : GmHost) : Rests host host :=
  .inr ⟨rfl, rfl, rfl⟩

theorem trans {before middle after : GmHost} (first : Rests before middle)
    (second : Rests middle after) : Rests before after := by
  rcases second with gone | ⟨unacked, seq, retry⟩
  · exact .inl gone
  rcases first with gone | ⟨oldUnacked, oldSeq, oldRetry⟩
  · exact .inl (unacked.trans gone)
  · exact .inr ⟨unacked.trans oldUnacked, seq.trans oldSeq,
      retry.trans oldRetry⟩

end Rests

theorem gmTcpInput_rests (packet : GmPacket) (host : GmHost) :
    Rests host (gmTcpInput packet host) := by
  refine gmTcpInput_keeps (Rests host) packet (.refl host)
    fun move kept => kept.trans ?_
  cases move <;> first | exact .inr ⟨rfl, rfl, rfl⟩ | exact .inl rfl

/-! ## Calls that transmit no payload -/

theorem transmissions_append (first second : List GmNetEvent) :
    transmissions (first ++ second) =
      transmissions first ++ transmissions second :=
  List.filterMap_append

/-- No payload among the transmissions. -/
def Bare (before after : GmHost) : Prop :=
  Emits (fun segment => segment.payload = []) before after

theorem transmissions_of_bare {events : List GmNetEvent}
    (bare : ∀ segment ok, .sent segment ok ∈ events →
      segment.payload = []) : transmissions events = [] := by
  unfold transmissions
  rw [List.filterMap_eq_nil_iff]
  intro event member
  split
  · rename_i segment ok
    exact if_pos (bare segment ok member)
  · rfl

/-- A host with nothing outstanding that has sent no payload since. -/
def Quiet (before host : GmHost) : Prop :=
  host.tcp.unacked = [] ∧ Bare before host

theorem gmTcpInput_bare (packet : GmPacket) (host : GmHost) :
    Bare host (gmTcpInput packet host) :=
  (gmTcpInput_emits packet host).mono (fun _ isAck => isAck.2)

theorem Quiet.input {before host : GmHost} (quiet : Quiet before host)
    (packet : GmPacket) : Quiet before (gmTcpInput packet host) := by
  refine ⟨?_, quiet.2.trans (gmTcpInput_bare packet host)⟩
  rcases gmTcpInput_rests packet host with gone | ⟨same, _⟩
  · exact gone
  · exact same.trans quiet.1

theorem gmTcpPoll_settled (settled : host.tcp.unacked = []) :
    gmTcpPoll host = host := by
  rw [gmTcpPoll_eq, if_pos (.inr settled)]

theorem quiet_carried (before : GmHost) :
    CarriedConnect (Quiet before) := by
  refine ⟨⟨?_, ?_, ?_⟩, ?_, ?_⟩
  · intro old new quiet tcp log
    exact ⟨tcp ▸ quiet.1, quiet.2.trans (.of_log log)⟩
  · intro host packet _ quiet
    exact quiet.input packet
  · intro host quiet
    rw [gmTcpPoll_settled quiet.1]
    exact quiet
  · intro host quiet
    have bare : Bare host (gmTcpSegment host.tcp.synSegment host).2 :=
      gmTcpSegment_emits host.tcp.synSegment
        (show host.tcp.synSegment.payload = [] from rfl) host
    exact ⟨(gmTcpSegment_same _ host).unacked.trans quiet.1,
      quiet.2.trans bare⟩
  · intro host quiet _
    exact ⟨quiet.1, quiet.2.trans (.silent rfl (by simp))⟩

theorem Transmits.of_bare {call : GmTcpCall}
    (bare : Bare host (gmTcpCall call host)) : Transmits call host := by
  obtain ⟨events, log, empty⟩ := bare
  have none : transmissions events = [] := transmissions_of_bare empty
  refine ⟨events, log, ?_, ?_⟩
  · rw [none]
    exact Nat.zero_le 6
  · rw [none]
    intro segment member
    cases member

/-! ## The transmissions of a send -/

/-- What one payload has gone through since its send started. -/
def Attempts (data : List UInt8) (start host : GmHost) : Prop :=
  ∃ events, host.log = start.log ++ events ∧
    (transmissions events).length ≤ 6 ∧
    (∀ segment ∈ transmissions events,
      segment.payload = data ∧ segment.seq = start.tcp.seq) ∧
    (host.tcp.unacked ≠ [] → host.tcp.unacked = data ∧
      host.tcp.unackedSeq = start.tcp.seq ∧
      (transmissions events).length = host.tcp.unackedRetry + 1)

namespace Attempts

variable {data : List UInt8} {start host after : GmHost}

section

variable (attempts : Attempts data start host)

include attempts

/-- Nothing that carries payload was sent, and the outstanding payload is
gone or as it was. -/
theorem rest (bare : Bare host after) (rests : Rests host after) :
    Attempts data start after := by
  obtain ⟨events, log, bound, carried, outstanding⟩ := attempts
  obtain ⟨more, moreLog, empty⟩ := bare
  have none : transmissions (events ++ more) = transmissions events := by
    rw [transmissions_append, transmissions_of_bare empty, List.append_nil]
  refine ⟨events ++ more, ?_, ?_, ?_, ?_⟩
  · rw [moreLog, log, List.append_assoc]
  · rw [none]
    exact bound
  · rw [none]
    exact carried
  · intro nonempty
    rw [none]
    rcases rests with gone | ⟨unacked, seq, retry⟩
    · exact absurd gone nonempty
    · rw [unacked] at nonempty ⊢
      rw [seq, retry]
      exact outstanding nonempty

theorem retry (nonempty : host.tcp.unacked ≠ [])
    (few : host.tcp.unackedRetry < 5) :
    Attempts data start
      (gmTcpSegment host.retry.tcp.unackedSegment host.retry).2 := by
  obtain ⟨events, log, bound, carried, outstanding⟩ := attempts
  obtain ⟨unacked, seq, count⟩ := outstanding nonempty
  obtain ⟨ok, tally, sends, result⟩ :=
    gmTcpSegment_effect host.retry.tcp.unackedSegment host.retry
  rw [result]
  have once : transmissions [.sent host.retry.tcp.unackedSegment ok] =
      [host.retry.tcp.unackedSegment] := by
    simp [transmissions, GmHost.retry, GmTcp.unackedSegment, nonempty]
  refine ⟨events ++ [.sent host.retry.tcp.unackedSegment ok], ?_, ?_, ?_, ?_⟩
  · show host.log ++ [.sent host.retry.tcp.unackedSegment ok] = _
    rw [log, List.append_assoc]
  · rw [transmissions_append, once, List.length_append, List.length_singleton,
      count]
    omega
  · intro segment member
    rw [transmissions_append, once] at member
    rcases List.mem_append.1 member with old | new
    · exact carried segment old
    · rw [List.mem_singleton.1 new]
      exact ⟨unacked, seq⟩
  · intro _
    rw [transmissions_append, once, List.length_append, List.length_singleton,
      count]
    exact ⟨unacked, seq, rfl⟩

theorem poll : Attempts data start (gmTcpPoll host) := by
  rw [gmTcpPoll_eq]
  split
  · exact attempts
  rename_i live
  split
  · exact attempts
  split
  · exact attempts.rest (gmTcpAbandon_emits host) (.inl rfl)
  · rename_i few
    exact attempts.retry (fun empty => live (.inr empty)) (by omega)

theorem abandon : Attempts data start (gmTcpAbandon host) :=
  attempts.rest (gmTcpAbandon_emits host) (.inl rfl)

end

end Attempts

theorem attempts_carried (data : List UInt8) (start : GmHost) :
    Carried (fun _ => True) (Attempts data start) := by
  constructor
  · intro old new attempts tcp log
    exact attempts.rest (.of_log log) (.inr (by rw [tcp]; exact ⟨rfl, rfl, rfl⟩))
  · intro host packet _ attempts
    exact attempts.rest (gmTcpInput_bare packet host)
      (gmTcpInput_rests packet host)
  · intro host attempts
    exact attempts.poll

theorem gmTcpHand_attempts (host : GmHost) (nonempty : data ≠ []) :
    Attempts data host (gmTcpHand data host).2 := by
  obtain ⟨ok, count, sends, result⟩ := gmTcpSegment_effect
    (host.arm data).tcp.unackedSegment (host.arm data)
  have once : transmissions [.sent (host.arm data).tcp.unackedSegment ok] =
      [(host.arm data).tcp.unackedSegment] := by
    simp [transmissions, GmHost.arm, GmTcp.unackedSegment, nonempty]
  have only : ∀ segment ∈ transmissions
      [.sent (host.arm data).tcp.unackedSegment ok],
      segment.payload = data ∧ segment.seq = host.tcp.seq := by
    intro segment member
    rw [once] at member
    rw [List.mem_singleton.1 member]
    exact ⟨rfl, rfl⟩
  rw [gmTcpHand_eq, result]
  cases ok with
  | false =>
    refine ⟨[.sent (host.arm data).tcp.unackedSegment false], rfl, ?_, only,
      ?_⟩
    · rw [once]
      simp
    · intro impossible
      exact absurd rfl impossible
  | true =>
    refine ⟨[.sent (host.arm data).tcp.unackedSegment true], rfl, ?_, only,
      ?_⟩
    · rw [once]
      simp
    · intro _
      rw [once]
      exact ⟨rfl, rfl, rfl⟩

theorem gmTcpConfirm_attempts {start host : GmHost}
    (attempts : Attempts data start host) (timeout : Nat) :
    Attempts data start (gmTcpConfirm timeout host).2 := by
  have settled := ((attempts_carried data start).settle host.ticks timeout
    timeout attempts).last (gmTcpSettleTrace_ends _ _ _ _)
  unfold gmTcpConfirm
  dsimp only
  split
  · exact settled.abandon
  · exact settled

/-! ## Between calls -/

/-- The host between two calls: nothing is outstanding. -/
structure AtRest (host : GmHost) : Prop where
  sending : Sending host
  settled : host.tcp.unacked = []

theorem AtRest.resting (atRest : AtRest host) : Resting host :=
  ⟨atRest.sending.valid, atRest.sending.consistent, atRest.settled⟩

theorem gmTcpSettle_settled (settled : host.tcp.unacked = [])
    (start timeout fuel : Nat) :
    gmTcpSettle start timeout fuel host = host ∧
      gmTcpSettleTrace start timeout fuel host = [{ host := host }] := by
  cases fuel with
  | zero => exact ⟨rfl, rfl⟩
  | succ fuel =>
    have ready : ¬ (host.tcp.unacked ≠ [] ∧
        host.ticks - start < timeout) := fun waits => waits.1 settled
    unfold gmTcpSettle gmTcpSettleTrace
    exact ⟨if_neg ready, if_neg ready⟩

/-- How a send from a host at rest goes. -/
inductive SendCase (data : List UInt8) (timeout : Nat) (host : GmHost) :
    Prop where
  | refused (result : gmTcpSend data timeout host = (false, host))
      (sends : gmTcpSends data timeout host = false)
      (trace : gmTcpSendTrace data timeout host = [{ host := host }])
  | failed (after : GmHost) (up : host.tcp.state = .established)
      (calm : Calm host after) (attempts : Attempts data host after)
      (result : gmTcpSend data timeout host = (false, after))
      (sends : gmTcpSends data timeout host = false)
      (trace : gmTcpSendTrace data timeout host =
        [{ host := host }, { host := after }])
  | handed (after : GmHost) (handed : Handed data host after)
      (attempts : Attempts data host after)
      (result : gmTcpSend data timeout host = gmTcpConfirm timeout after)
      (sends : gmTcpSends data timeout host = true)
      (trace : gmTcpSendTrace data timeout host =
        { host := host } ::
          (gmTcpSettleTrace after.ticks timeout timeout after ++
            [{ host := (gmTcpConfirm timeout after).2 }]))

theorem gmTcpSend_case (resting : Resting host) (data : List UInt8)
    (timeout : Nat) : SendCase data timeout host := by
  obtain ⟨same, single⟩ :=
    gmTcpSettle_settled resting.settled host.ticks timeout timeout
  by_cases refuses : gmTcpRefuses data host
  · refine .refused ?_ ?_ ?_
    · rw [gmTcpSend_eq, if_pos refuses]
    · simp [gmTcpSends, refuses]
    · rw [gmTcpSendTrace, if_pos refuses]
  have ready : ¬ host.tcp.unacked ≠ [] := not_not_intro resting.settled
  obtain ⟨up, nonempty, short⟩ : host.tcp.state = .established ∧
      data ≠ [] ∧ data.length ≤ gmTcpTxMax := by
    simpa [gmTcpRefuses, not_or] using refuses
  have attempts := gmTcpHand_attempts host nonempty
  rcases gmTcpHand_effect resting up nonempty short with
    ⟨after, hand, calm⟩ | ⟨after, hand, handed⟩ <;> rw [hand] at attempts
  · refine .failed after up calm attempts ?_ ?_ ?_
    · rw [gmTcpSend_eq, if_neg refuses, same, if_neg ready, hand]
    · simp [gmTcpSends, same, hand]
    · rw [gmTcpSendTrace, if_neg refuses, same, single]
      dsimp only
      rw [if_neg ready, hand]
      rfl
  · refine .handed after handed attempts ?_ ?_ ?_
    · rw [gmTcpSend_eq, if_neg refuses, same, if_neg ready, hand]
    · simp [gmTcpSends, same, hand, refuses, resting.settled]
    · rw [gmTcpSendTrace, if_neg refuses, same, single]
      dsimp only
      rw [if_neg ready, hand]
      rfl

theorem gmTcpSend_transmits (atRest : AtRest host) (data : List UInt8)
    (timeout : Nat) : Transmits (.send data timeout) host := by
  have from_attempts : Attempts data host (gmTcpSend data timeout host).2 →
      Transmits (.send data timeout) host := by
    rintro ⟨events, log, bound, carried, _⟩
    refine ⟨events, log, bound, ?_⟩
    intro segment member
    obtain ⟨payload, seq⟩ := carried segment member
    exact ⟨timeout, by rw [payload], seq⟩
  cases gmTcpSend_case atRest.resting data timeout with
  | refused result sends trace =>
    apply Transmits.of_bare
    rw [gmTcpCall, result]
    exact .refl host
  | failed after up calm attempts result sends trace =>
    apply from_attempts
    rw [result]
    exact attempts
  | handed after handed attempts result sends trace =>
    apply from_attempts
    rw [result]
    exact gmTcpConfirm_attempts attempts timeout

/-! ## One call -/

/-- What a call does from a host at rest. -/
structure CallEffect (call : GmTcpCall) (host : GmHost) : Prop where
  settled : (gmTcpCall call host).tcp.unacked = []
  trace : Throughout Sending (gmTcpCallTrace call host)
  stream : (conversation (gmTcpCall call host).log).stream =
    gmTcpStreamAfter call host (conversation host.log).stream
  transmits : Transmits call host

theorem CallEffect.rest {call : GmTcpCall} (effect : CallEffect call host) :
    AtRest (gmTcpCall call host) :=
  ⟨effect.trace.last (gmTcpCallTrace_ends call host), effect.settled⟩

theorem Listens.stream {before after : GmHost} (listens : Listens before after)
    (consistent : Consistent (conversation before.log) before.tcp.view) :
    (conversation after.log).stream = (conversation before.log).stream := by
  unfold Conversation.stream
  rw [listens.requests consistent]

theorem gmTcpSend_call (atRest : AtRest host) (data : List UInt8)
    (timeout : Nat) : CallEffect (.send data timeout) host := by
  have resting := atRest.resting
  have transmits := gmTcpSend_transmits atRest data timeout
  cases gmTcpSend_case resting data timeout with
  | refused result sends trace =>
    refine ⟨?_, ?_, ?_, transmits⟩
    · rw [gmTcpCall, result]
      exact atRest.settled
    · rw [gmTcpCallTrace, trace]
      exact .single atRest.sending
    · rw [gmTcpCall, result, gmTcpStreamAfter, sends]
      rfl
  | failed after up calm attempts result sends trace =>
    have moved :=
      (atRest.sending.talks calm.listens.talks (by simp [up])).1
    refine ⟨?_, ?_, ?_, transmits⟩
    · rw [gmTcpCall, result]
      exact calm.listens.settled atRest.settled
    · rw [gmTcpCallTrace, trace]
      exact .cons atRest.sending (.single moved)
    · rw [gmTcpCall, result, gmTcpStreamAfter, sends]
      exact calm.listens.stream resting.consistent
  | handed after handed attempts result sends trace =>
    obtain ⟨armed, armedNotSyn⟩ :=
      atRest.sending.talks handed.talks (by simp [handed.up])
    have waited := gmTcpConfirm_calm handed.valid timeout
    have final := (armed.talks waited.listens.talks armedNotSyn).1
    have settling :=
      sending_carried.settle after.ticks timeout timeout armed
    refine ⟨?_, ?_, ?_, transmits⟩
    · rw [gmTcpCall, result]
      exact gmTcpConfirm_settled timeout after
    · rw [gmTcpCallTrace, trace]
      exact .cons atRest.sending (settling.append (.single final))
    · rw [gmTcpCall, result, gmTcpStreamAfter, sends,
        waited.listens.stream armed.consistent]
      obtain ⟨segment, rfl, seq, log⟩ := handed.sent
      rw [log, conversation_snoc,
        resting.consistent.step_handed handed.up handed.nonempty seq]
      simp [Conversation.stream]

theorem sending_connect : CarriedConnect Sending :=
  ⟨sending_carried, fun sending => sending.syn_sent,
    fun sending down => sending.close down⟩

/-- A new connection starts a new stream. -/
theorem gmTcpConnect_stream (sending : Sending host) (dst : List UInt8)
    (port : UInt16) (timeout : Nat) :
    (conversation (gmTcpConnect dst port timeout host).2.log).stream =
      if (gmNetPrepare timeout host).1 then []
      else (conversation host.log).stream := by
  have prepared := gmNetPrepare_calm sending.valid timeout
  have ready := sending_carried.prepared timeout sending
  unfold gmTcpConnect
  cases result : gmNetPrepare timeout host with
  | mk online next =>
    rw [result] at prepared ready
    cases online with
    | false => exact prepared.listens.stream sending.consistent
    | true =>
      have opened := ready.opened dst port
      have waited := (gmTcpConnectLoop_effect opened.valid
        (by simp [gmTcpOpen, GmHost.record])
        next.ticks timeout timeout ((next.ticks : Int) - timeout) 0).calm
      have empty : (conversation (gmTcpOpen dst port next).log).stream =
          [] := by
        show (conversation
          (next.log ++ [.opened next.tcp.nextSeq])).stream = []
        rw [conversation_snoc]
        rfl
      exact (waited.listens.stream opened.consistent).trans empty

theorem gmTcpConnect_call (atRest : AtRest host) (dst : List UInt8)
    (port : UInt16) (timeout : Nat) :
    CallEffect (.connect dst port timeout) host := by
  have trace := sending_connect.connect dst port timeout atRest.sending
    (fun sending => sending.opened dst port)
  have quiet := (quiet_carried host).connect dst port timeout
    ⟨atRest.settled, .refl host⟩
    (fun quiet => ⟨rfl, quiet.2.trans (.silent rfl (by simp))⟩)
  obtain ⟨settled, bare⟩ := quiet.last (gmTcpConnectTrace_ends _ _ _ _)
  exact ⟨settled, trace,
    gmTcpConnect_stream atRest.sending dst port timeout, .of_bare bare⟩

theorem gmTcpInput_call (atRest : AtRest host) (packet : GmPacket) :
    CallEffect (.input packet) host := by
  have quiet : Quiet host (gmTcpInput packet host) :=
    Quiet.input ⟨atRest.settled, .refl host⟩ packet
  have sending := atRest.sending.input packet
  exact ⟨quiet.1, .single sending,
    (gmTcpInput_calm atRest.sending.valid packet).listens.stream
      atRest.sending.consistent, .of_bare quiet.2⟩

theorem gmTcpPoll_call (atRest : AtRest host) : CallEffect .poll host := by
  have idle : gmTcpCall .poll host = host := gmTcpPoll_settled atRest.settled
  refine ⟨?_, ?_, ?_, .of_bare ?_⟩
  · rw [idle]
    exact atRest.settled
  · rw [gmTcpCallTrace, idle]
    · exact .single atRest.sending
    all_goals simp
  · rw [idle]
    rfl
  · rw [idle]
    exact .refl host

theorem gmTcpClose_bare (settled : host.tcp.unacked = []) :
    Bare host (gmTcpClose host) := by
  unfold gmTcpClose
  dsimp only
  rw [(gmTcpSettle_settled settled host.ticks 100 100).1]
  split
  · exact .refl host
  rw [if_neg (not_not_intro settled)]
  obtain ⟨ok, count, sends, result⟩ := gmTcpSegment_effect
    { seq := host.tcp.seq
      ack := host.tcp.ack
      flags := gmTcpFlagFin ||| gmTcpFlagAck
      payload := [] } host
  rw [result]
  cases ok with
  | false => exact ⟨[_], rfl, by simp⟩
  | true => exact ⟨[_, .state .fin], List.append_assoc _ _ _, by simp⟩

theorem gmTcpClose_call (atRest : AtRest host) : CallEffect .close host := by
  have calm := gmTcpClose_calm atRest.sending.valid
  have settled := calm.listens.settled atRest.settled
  have final : Sending (gmTcpClose host) := by
    by_cases up : host.tcp.state = .established
    · exact (atRest.sending.talks calm.listens.talks (by simp [up])).1
    · rw [gmTcpClose, if_pos up]
      exact atRest.sending
  refine ⟨settled, ?_,
    calm.listens.stream atRest.sending.consistent,
    .of_bare (gmTcpClose_bare atRest.settled)⟩
  rw [gmTcpCallTrace, gmTcpCloseTrace]
  split
  · exact .single atRest.sending
  · rw [(gmTcpSettle_settled atRest.settled host.ticks 100 100).2]
    exact .cons atRest.sending (.single final)

/-- Taking bytes out of the ring moves no number. -/
theorem Sending.taken {host after : GmHost} {event : GmNetEvent}
    (sending : Sending host) (evolves : Evolves host after)
    (log : after.log = host.log ++ [event])
    (state : after.tcp.state = host.tcp.state)
    (seq : after.tcp.seq = host.tcp.seq)
    (taken : ∃ bytes, event = .read bytes ∨ event = .dropped bytes) :
    Sending after := by
  refine sending.moved evolves ?_
  rw [log]
  obtain ⟨bytes, rfl | rfl⟩ := taken <;>
    exact sending.numbered.keep (agreedIsn_snoc rfl rfl) rfl .inr
      (fun syn => ⟨state.symm.trans syn, seq⟩)
      (fun up => state.symm.trans up)

theorem gmTcpRead_call (atRest : AtRest host) (max : Nat) :
    CallEffect (.read max) host := by
  have listens := gmTcpRead_listens atRest.sending.valid max
  have settled := listens.settled atRest.settled
  have stream := listens.stream atRest.sending.consistent
  by_cases positive : max = 0
  · subst positive
    exact ⟨settled, .single atRest.sending, rfl, .of_bare (.refl host)⟩
  · obtain ⟨_, effect⟩ := gmTcpRead_effect atRest.sending.valid positive
    obtain ⟨head, len, tcp⟩ := effect.tcp
    have sending : Sending (gmTcpRead max host).2 :=
      atRest.sending.taken listens.talks.evolves effect.log (by rw [tcp])
        (by rw [tcp]) ⟨_, .inl rfl⟩
    exact ⟨settled, .single sending, stream,
      .of_bare (.silent effect.log (by simp))⟩

theorem gmTcpDrop_call (atRest : AtRest host) : CallEffect .drop host := by
  have sending : Sending (gmTcpDrop host) :=
    atRest.sending.taken (gmTcpDrop_talks host).evolves rfl rfl rfl
      ⟨_, .inr rfl⟩
  refine ⟨atRest.settled, .single sending, ?_,
    .of_bare (.silent rfl (by simp))⟩
  show (conversation (host.log ++ [.dropped host.tcp.buffered])).stream = _
  rw [conversation_snoc]
  rfl

theorem gmTcpIdle_call (atRest : AtRest host) (ticks : Nat) :
    CallEffect (.idle ticks) host := by
  have sending : Sending { host with ticks := host.ticks + ticks } :=
    atRest.sending.frame rfl rfl
  exact ⟨atRest.settled, .single sending, rfl,
    .of_bare (.of_log rfl)⟩

theorem gmTcpCall_effect (atRest : AtRest host) (call : GmTcpCall) :
    CallEffect call host := by
  cases call with
  | connect dst port timeout =>
    exact gmTcpConnect_call atRest dst port timeout
  | send data timeout => exact gmTcpSend_call atRest data timeout
  | input packet => exact gmTcpInput_call atRest packet
  | poll => exact gmTcpPoll_call atRest
  | close => exact gmTcpClose_call atRest
  | read max => exact gmTcpRead_call atRest max
  | drop => exact gmTcpDrop_call atRest
  | idle ticks => exact gmTcpIdle_call atRest ticks

/-! ## Whole runs -/

theorem Sending.outstanding (sending : Sending host) : Outstanding host := by
  intro nonempty
  obtain ⟨_, _, ends, earlier, requests⟩ :=
    sending.consistent.outstanding nonempty
  refine ⟨ends, earlier.flatten, ?_⟩
  unfold Conversation.stream
  rw [requests]
  simp [GmTcp.view]

theorem AtRest.contract (atRest : AtRest host) :
    SenderContract (conversation host.log).stream host := by
  refine ⟨?_, fun call => (gmTcpCall_effect atRest call).transmits,
    fun data timeout => gmTcpSend_unconfirmed⟩
  intro segment member nonempty
  obtain ⟨position, seq, part⟩ := atRest.sending.wired segment member nonempty
  refine ⟨position, ?_, part⟩
  have began : (conversation host.log).requests ≠ [] := by
    intro empty
    have silent : (conversation host.log).stream = [] := by
      unfold Conversation.stream
      rw [empty]
      rfl
    exact nonempty (atRest.sending.wired.silent silent member)
  rw [seq, atRest.sending.numbered.up (.inr began)]

theorem gmTcpRun_rest (atRest : AtRest host) (calls : List GmTcpCall) :
    AtRest (gmTcpRun calls host) ∧
      Throughout Sending (gmTcpRunTrace calls host) ∧
      (conversation (gmTcpRun calls host).log).stream =
        gmTcpStream calls host (conversation host.log).stream := by
  induction calls generalizing host with
  | nil => exact ⟨atRest, .single atRest.sending, rfl⟩
  | cons call calls inductionHypothesis =>
    have effect := gmTcpCall_effect atRest call
    obtain ⟨rest, trace, stream⟩ := inductionHypothesis effect.rest
    refine ⟨rest, .cons atRest.sending (effect.trace.append trace), ?_⟩
    rw [gmTcpStream, ← effect.stream]
    exact stream

/-- Every run of TCP calls, whatever the network does and wherever the link
fails: the payloads on the wire agree with one stream, each payload leaves six
times at most, the outstanding payload ends where the sequence number stands,
and a send without its acknowledgement leaves the connection. -/
theorem gmTcpRun_sender_stream (config : GmNetConfig) (env : GmNetEnv)
    (iss : UInt32) (calls : List GmTcpCall) :
    SenderContract (gmTcpStream calls (closedAt config env iss) [])
        (gmTcpRun calls (closedAt config env iss)) ∧
      Throughout Outstanding
        (gmTcpRunTrace calls (closedAt config env iss)) := by
  have atRest : AtRest (closedAt config env iss) :=
    ⟨closedAt_sending config env iss, rfl⟩
  obtain ⟨rest, trace, stream⟩ := gmTcpRun_rest atRest calls
  have empty : (conversation (closedAt config env iss).log).stream = [] := rfl
  rw [empty] at stream
  refine ⟨stream ▸ rest.contract, ?_⟩
  exact fun moment member => (trace moment member).outstanding

end Gmker.Net
