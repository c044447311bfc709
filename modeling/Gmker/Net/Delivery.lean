import Gmker.Net.Session
import Mathlib.Data.List.Infix

/-!
# Sending and delivery

A correct peer takes copies of transmitted segments in stream order and
acknowledges only what it has.  The client compares acknowledgement numbers as
plain 32-bit numbers, so its conclusion that a payload arrived is sound as long
as the sequence numbers of a connection do not wrap.
-/

namespace Gmker.Net

variable {log : List GmNetEvent} {conn after : Connection} {segment : GmSegment}
  {event : GmNetEvent}

/-- The segments that left on the current connection. -/
def wire (log : List GmNetEvent) : List GmSegment :=
  log.foldl
    (fun segments event =>
      match event with
      | .opened _ => []
      | .sent segment true => segments ++ [segment]
      | _ => segments)
    []

/-- The bytes a peer has after a copy of a segment at a stream position. -/
def takeCopy (got : List UInt8) (position : Nat) (payload : List UInt8) :
    List UInt8 :=
  got ++ payload.drop (got.length - position)

/-- What an event asks of the network and does to the peer: a new connection
starts from nothing, and an acknowledgement that arrives covers only bytes the
peer has. -/
def PeerEvent (conv : Conversation) (got : List UInt8) : GmNetEvent → Prop
  | .arrived segment =>
    conv.state = .established → segment.has gmTcpFlagAck = true →
      (segment.ack - conv.base).toNat ≤ got.length
  | _ => True

/-- The peer's bytes after an event. -/
def peerAfter (got : List UInt8) : GmNetEvent → List UInt8
  | .opened _ => []
  | _ => got

/-- A correct peer alongside a log.  Copies of transmitted segments reach it at
any time, any number of times and in any order, or never. -/
inductive Peer : List GmNetEvent → List UInt8 → Prop where
  | start : Peer [] []
  | copy {log : List GmNetEvent} {got : List UInt8} (peer : Peer log got)
      (segment : GmSegment) (position : Nat) (transmitted : segment ∈ wire log)
      (seq : segment.seq = (conversation log).base + UInt32.ofNat position)
      (inOrder : position ≤ got.length) :
      Peer log (takeCopy got position segment.payload)
  | event {log : List GmNetEvent} {got : List UInt8} (peer : Peer log got)
      (event : GmNetEvent) (legal : PeerEvent (conversation log) got event) :
      Peer (log ++ [event]) (peerAfter got event)

/-- No sequence number of a connection wraps. -/
def NoWrap (log : List GmNetEvent) : Prop :=
  ∀ early, early <+: log →
    (conversation early).base.toNat + (conversation early).stream.length <
      2 ^ 32

/-- An acknowledgement reaches the end of a payload in modular order. -/
def Covers (ack seq : UInt32) (len : Nat) : Prop :=
  (ack - (seq + UInt32.ofNat len)).toNat < 2 ^ 31

/-! ## Copies -/

/-- A copy from inside the stream extends what the peer has along it. -/
theorem takeCopy_of_stream {stream got payload : List UInt8} {position : Nat}
    (held : got <+: stream) (inOrder : position ≤ got.length)
    (part : payload <+: stream.drop position) :
    takeCopy got position payload <+: stream := by
  obtain ⟨rest, rfl⟩ := held
  rw [List.drop_append_of_le_length inOrder] at part
  obtain ⟨tail, split⟩ := part
  have late : payload.drop (got.length - position) ++
      tail.drop (got.length - position - payload.length) = rest := by
    have dropped := congrArg (List.drop (got.length - position)) split
    rw [List.drop_append, List.drop_append] at dropped
    simpa [List.drop_drop, Nat.add_sub_cancel' inOrder] using dropped
  refine ⟨tail.drop (got.length - position - payload.length), ?_⟩
  rw [takeCopy, List.append_assoc, late]

theorem takeCopy_nil (got : List UInt8) (position : Nat) :
    takeCopy got position [] = got := by
  simp [takeCopy]

theorem offset_eq {base : UInt32} {left right bound : Nat}
    (noWrap : base.toNat + bound < 2 ^ 32) (leftBound : left ≤ bound)
    (rightBound : right ≤ bound)
    (same : base + UInt32.ofNat left = base + UInt32.ofNat right) :
    left = right := by
  have offsets := (UInt32.add_right_inj base).mp same
  have values := congrArg UInt32.toNat offsets
  simp only [UInt32.toNat_ofNat'] at values
  omega

/-! ## The peer along a run -/

/-- Every payload on the wire is a part of the client's stream. -/
def Wired (log : List GmNetEvent) : Prop :=
  ∀ segment ∈ wire log, segment.payload ≠ [] →
    ∃ position,
      segment.seq = (conversation log).base + UInt32.ofNat position ∧
      segment.payload <+: (conversation log).stream.drop position

/-- What a correct peer has, in terms of the connection. -/
structure Delivered (log : List GmNetEvent) (conn : Connection)
    (got : List UInt8) : Prop where
  held : got <+: (conversation log).stream
  heard : conn.state = .established → ∀ segment,
    (conversation log).heard = some segment →
    segment.has gmTcpFlagAck = true →
    (segment.ack - (conversation log).base).toNat ≤ got.length
  done : conn.state = .established → conn.unacked = [] →
    got = (conversation log).stream
  covered : ∀ ack seq len, .acked ack seq len ∈ log → Covers ack seq len

/-- Copies do not change what is known about the peer. -/
theorem Delivered.copy {got : List UInt8} (delivered : Delivered log conn got)
    (wired : Wired log)
    (noWrap : (conversation log).base.toNat +
      (conversation log).stream.length < 2 ^ 32) {position : Nat}
    (transmitted : segment ∈ wire log)
    (seq : segment.seq = (conversation log).base + UInt32.ofNat position)
    (inOrder : position ≤ got.length) :
    Delivered log conn (takeCopy got position segment.payload) := by
  by_cases empty : segment.payload = []
  · rw [empty, takeCopy_nil]
    exact delivered
  obtain ⟨place, placed, part⟩ := wired segment transmitted empty
  have inside : place ≤ (conversation log).stream.length := by
    by_contra outside
    rw [List.drop_eq_nil_of_le (by omega)] at part
    exact empty (List.prefix_nil.mp part)
  have here : position = place := by
    apply offset_eq noWrap (inOrder.trans delivered.held.length_le) inside
    rw [← seq, placed]
  rw [← here] at part
  have longer := takeCopy_of_stream delivered.held inOrder part
  refine ⟨longer, ?_, ?_, delivered.covered⟩
  · intro up other heard flag
    have bound := delivered.heard up other heard flag
    simp only [takeCopy, List.length_append]
    omega
  · intro up settled
    have all := delivered.done up settled
    apply longer.eq_of_length_le
    rw [← all]
    simp only [takeCopy, List.length_append]
    omega

/-- A peer after an event: what the event left it, and then copies. -/
theorem Peer.after_event {got : List UInt8} {Holds : List UInt8 → Prop}
    (peer : Peer (log ++ [event]) got)
    (first : ∀ old, Peer log old → PeerEvent (conversation log) old event →
      Holds (peerAfter old event))
    (copies : ∀ old (segment : GmSegment) position, Holds old →
      segment ∈ wire (log ++ [event]) →
      segment.seq =
        (conversation (log ++ [event])).base + UInt32.ofNat position →
      position ≤ old.length → Holds (takeCopy old position segment.payload)) :
    Holds got := by
  generalize whole : log ++ [event] = longer at peer
  induction peer with
  | start => simp at whole
  | copy peer segment position transmitted seq inOrder induction =>
    subst whole
    exact copies _ segment position (induction rfl) transmitted seq inOrder
  | event peer last legal _ =>
    obtain ⟨rfl, same⟩ := List.append_inj' whole rfl
    cases same
    exact first _ peer legal

/-! ## One step -/

/-- The segments on the wire after one more event. -/
def wireAfter (segments : List GmSegment) : GmNetEvent → List GmSegment
  | .opened _ => []
  | .sent segment true => segments ++ [segment]
  | _ => segments

theorem wire_append (log : List GmNetEvent) (event : GmNetEvent) :
    wire (log ++ [event]) = wireAfter (wire log) event := by
  rw [wire, List.foldl_append]
  rfl

theorem conversation_snoc (log : List GmNetEvent) (event : GmNetEvent) :
    conversation (log ++ [event]) = (conversation log).step event :=
  conversation_append log [event]

namespace Wired

variable {log : List GmNetEvent} {event : GmNetEvent}

/-- Events that neither transmit nor move the stream. -/
theorem keep (wired : Wired log) (same : wireAfter (wire log) event = wire log)
    (base : ((conversation log).step event).base = (conversation log).base)
    (stream : ((conversation log).step event).stream =
      (conversation log).stream) : Wired (log ++ [event]) := by
  intro segment member
  rw [wire_append, same] at member
  rw [conversation_snoc, base, stream]
  exact wired segment member

/-- A transmission that is already a part of the stream. -/
theorem transmit (wired : Wired log) {ok : Bool}
    (same : (conversation log).step (.sent segment ok) = conversation log)
    (part : segment.payload ≠ [] → ∃ position,
      segment.seq = (conversation log).base + UInt32.ofNat position ∧
      segment.payload <+: (conversation log).stream.drop position) :
    Wired (log ++ [.sent segment ok]) := by
  intro other member
  rw [conversation_snoc, same]
  rw [wire_append] at member
  cases ok with
  | false => exact wired other member
  | true =>
    rcases List.mem_append.mp member with old | new
    · exact wired other old
    · rw [List.mem_singleton.mp new]
      exact part

theorem silent (wired : Wired log) (empty : (conversation log).stream = [])
    (member : segment ∈ wire log) : segment.payload = [] := by
  by_contra nonempty
  obtain ⟨position, _, part⟩ := wired segment member nonempty
  rw [empty, List.drop_nil] at part
  exact nonempty (List.prefix_nil.mp part)

end Wired

/-- Where the outstanding payload lies in the stream. -/
theorem Consistent.outstanding_part {conv : Conversation}
    (consistent : Consistent conv conn) (outstanding : conn.unacked ≠ []) :
    ∃ position, conn.unackedSeq = conv.base + UInt32.ofNat position ∧
      conn.unacked <+: conv.stream.drop position := by
  obtain ⟨up, _, ends, earlier, requests⟩ :=
    consistent.outstanding outstanding
  have stream : conv.stream = earlier.flatten ++ conn.unacked := by
    simp [Conversation.stream, requests]
  refine ⟨earlier.flatten.length, ?_, ?_⟩
  · have next := consistent.next up
    rw [← ends, Conversation.next, stream, List.length_append,
      UInt32.ofNat_add, ← UInt32.add_assoc] at next
    exact (UInt32.add_left_inj _).mp next
  · rw [stream, List.drop_left]

theorem Wired.calm (wired : Wired log)
    (consistent : Consistent (conversation log) conn)
    (step : CalmStep (conversation log) conn event after) :
    Wired (log ++ [event]) := by
  cases step with
  | arrived segment => exact wired.keep rfl rfl rfl
  | synAck segment syn answer => exact wired.keep rfl rfl rfl
  | established segment syn heard answer =>
    have empty : (conversation log).stream = [] := by
      simp [Conversation.stream, consistent.fresh syn]
    intro other member nonempty
    rw [wire_append] at member
    exact absurd (wired.silent empty member) nonempty
  | reset => exact wired.keep rfl rfl rfl
  | closed down => exact wired.keep rfl rfl rfl
  | finished => exact wired.keep rfl rfl rfl
  | fin settled => exact wired.keep rfl rfl rfl
  | control segment ok empty =>
    apply wired.transmit (Consistent.step_control _ ok empty)
    intro nonempty
    exact absurd empty nonempty
  | again segment ok outstanding payload seq =>
    apply wired.transmit (consistent.step_again ok outstanding seq)
    intro _
    rw [payload, seq]
    exact consistent.outstanding_part outstanding
  | failed segment settled =>
    intro other member
    rw [conversation_snoc, Consistent.step_failed]
    rw [wire_append] at member
    exact wired other member
  | acked segment heard flag outstanding covers =>
    exact wired.keep rfl rfl rfl
  | accepted bytes => exact wired.keep rfl rfl rfl

theorem Wired.step (wired : Wired log)
    (consistent : Consistent (conversation log) conn)
    (step : ConnStep (conversation log) conn event after) :
    Wired (log ++ [event]) := by
  cases step with
  | opened =>
    intro segment member
    rw [wire_append] at member
    cases member
  | connecting => exact wired.keep rfl rfl rfl
  | connected ok => exact wired.keep rfl rfl rfl
  | talk step =>
    cases step with
    | dropped => exact wired.keep rfl rfl rfl
    | listen step =>
      cases step with
      | calm step => exact wired.calm consistent step
      | read bytes rest split => exact wired.keep rfl rfl rfl
    | handed segment up settled nonempty short seq =>
      have moved := consistent.step_handed up nonempty seq
      have stream : ((conversation log).step (.sent segment true)).stream =
          (conversation log).stream ++ segment.payload := by
        simp [moved, Conversation.stream]
      intro other member otherNonempty
      rw [wire_append] at member
      rw [conversation_snoc, stream, moved]
      rcases List.mem_append.mp member with old | new
      · obtain ⟨position, placed, part⟩ := wired other old otherNonempty
        refine ⟨position, placed, part.trans ?_⟩
        rw [List.drop_append]
        exact List.prefix_append _ _
      · rw [List.mem_singleton.mp new]
        refine ⟨(conversation log).stream.length, ?_, ?_⟩
        · exact seq.trans (consistent.next up)
        · rw [List.drop_left]

namespace Delivered

variable {log : List GmNetEvent} {conn after : Connection} {got : List UInt8}
  {event : GmNetEvent}

theorem covered_append
    (covered : ∀ ack seq len, .acked ack seq len ∈ log → Covers ack seq len)
    (other : ∀ ack seq len, .acked ack seq len ≠ event) :
    ∀ ack seq len, .acked ack seq len ∈ log ++ [event] →
      Covers ack seq len := by
  intro ack seq len member
  rcases List.mem_append.mp member with old | new
  · exact covered ack seq len old
  · exact absurd (List.mem_singleton.mp new) (other ack seq len)

section

variable (delivered : Delivered log conn got)

include delivered

/-- Steps after which the connection is not established. -/
theorem down
    (stream : ((conversation log).step event).stream =
      (conversation log).stream)
    (other : ∀ ack seq len, .acked ack seq len ≠ event)
    (notUp : after.state ≠ .established) :
    Delivered (log ++ [event]) after got := by
  refine ⟨?_, ?_, ?_, covered_append delivered.covered other⟩
  · rw [conversation_snoc, stream]
    exact delivered.held
  · intro up
    exact absurd up notUp
  · intro up
    exact absurd up notUp

/-- Steps that change nothing a peer can tell. -/
theorem keep
    (base : ((conversation log).step event).base = (conversation log).base)
    (stream : ((conversation log).step event).stream =
      (conversation log).stream)
    (heard : ((conversation log).step event).heard = (conversation log).heard)
    (other : ∀ ack seq len, .acked ack seq len ≠ event)
    (state : after.state = conn.state) (unacked : after.unacked = conn.unacked) :
    Delivered (log ++ [event]) after got := by
  refine ⟨?_, ?_, ?_, covered_append delivered.covered other⟩
  · rw [conversation_snoc, stream]
    exact delivered.held
  · rw [conversation_snoc, base, heard, state]
    exact delivered.heard
  · rw [conversation_snoc, stream, state, unacked]
    exact delivered.done

/-- Transmissions that leave the conversation alone. -/
theorem transmit {ok : Bool}
    (same : (conversation log).step (.sent segment ok) = conversation log)
    (state : after.state = conn.state) (unacked : after.unacked = conn.unacked) :
    Delivered (log ++ [.sent segment ok]) after got := by
  apply delivered.keep _ _ _ (by simp) state unacked
  · rw [same]
  · rw [same]
  · rw [same]

variable (consistent : Consistent (conversation log) conn)
  (noWrap : (conversation log).base.toNat + (conversation log).stream.length <
    2 ^ 32)

include consistent noWrap

/-- An acknowledgement that passes the test of `gm_tcp_input` covers the whole
stream, because no sequence number wraps. -/
theorem acked (heard : (conversation log).heard = some segment)
    (flag : segment.has gmTcpFlagAck = true) (outstanding : conn.unacked ≠ [])
    (covers : conn.unackedSeq + UInt32.ofNat conn.unacked.length ≤
      segment.ack) :
    Delivered (log ++ [.acked segment.ack conn.unackedSeq conn.unacked.length])
      { conn with unacked := [] } got := by
  obtain ⟨up, _, ends, _⟩ := consistent.outstanding outstanding
  have next := consistent.next up
  have count := delivered.heard up segment heard flag
  have limit := delivered.held.length_le
  have reached : (conversation log).stream.length ≤
      (segment.ack - (conversation log).base).toNat := by
    rw [ends, next, Conversation.next, UInt32.le_iff_toNat_le,
      UInt32.toNat_add, UInt32.toNat_ofNat'] at covers
    rw [UInt32.toNat_sub]
    have small := (conversation log).base.toNat_lt
    have ackSmall := segment.ack.toNat_lt
    omega
  have all : got = (conversation log).stream :=
    delivered.held.eq_of_length_le (reached.trans count)
  have offset : segment.ack - (conversation log).base =
      UInt32.ofNat (conversation log).stream.length := by
    apply UInt32.toNat_inj.mp
    rw [UInt32.toNat_ofNat']
    omega
  have exactly : segment.ack =
      conn.unackedSeq + UInt32.ofNat conn.unacked.length := by
    calc
      segment.ack = segment.ack - (conversation log).base +
          (conversation log).base := (UInt32.sub_add_cancel _ _).symm
      _ = (conversation log).next := by
          rw [offset, UInt32.add_comm]
          rfl
      _ = conn.unackedSeq + UInt32.ofNat conn.unacked.length := by
          rw [ends, next]
  have same : conversation (log ++
      [.acked segment.ack conn.unackedSeq conn.unacked.length]) =
      conversation log := conversation_snoc _ _
  refine ⟨?_, ?_, ?_, ?_⟩
  · rw [same]
    exact delivered.held
  · rw [same]
    exact delivered.heard
  · rw [same]
    intro _ _
    exact all
  · intro ack seq len member
    rcases List.mem_append.mp member with old | new
    · exact delivered.covered ack seq len old
    · obtain ⟨rfl, rfl, rfl⟩ := by simpa using new
      rw [Covers, exactly, UInt32.sub_self]
      decide

theorem calm (legal : PeerEvent (conversation log) got event)
    (step : CalmStep (conversation log) conn event after) :
    Delivered (log ++ [event]) after got := by
  cases step with
  | arrived segment =>
    refine ⟨?_, ?_, ?_, covered_append delivered.covered (by simp)⟩
    · rw [conversation_snoc]
      exact delivered.held
    · rw [conversation_snoc]
      intro up other heard flag
      obtain rfl := Option.some.inj heard
      exact legal (consistent.state.trans up) flag
    · rw [conversation_snoc]
      exact delivered.done
  | synAck segment syn answer =>
    exact delivered.down rfl (by simp) (by simp [syn])
  | established segment syn heard answer =>
    have empty : (conversation log).stream = [] := by
      simp [Conversation.stream, consistent.fresh syn]
    have nothing : got = [] := by
      have held := delivered.held
      rw [empty] at held
      exact List.prefix_nil.mp held
    refine ⟨?_, ?_, ?_, covered_append delivered.covered (by simp)⟩
    · rw [nothing]
      exact List.nil_prefix
    · rw [conversation_snoc]
      intro _ other same _
      have isHeard : segment = other :=
        Option.some.inj (heard.symm.trans same)
      simp [Conversation.step, heard, isHeard]
    · rw [conversation_snoc, nothing]
      intro _ _
      exact empty.symm
  | reset => exact delivered.down rfl (by simp) (by simp)
  | closed notUp => exact delivered.down rfl (by simp) (by simp)
  | finished => exact delivered.down rfl (by simp) (by simp)
  | fin settled => exact delivered.down rfl (by simp) (by simp)
  | control segment ok empty =>
    exact delivered.transmit (Consistent.step_control _ ok empty) rfl rfl
  | again segment ok outstanding payload seq =>
    exact delivered.transmit (consistent.step_again ok outstanding seq)
      rfl rfl
  | failed segment settled =>
    exact delivered.transmit (Consistent.step_failed _ segment) rfl rfl
  | acked segment heard flag outstanding covers =>
    exact delivered.acked consistent noWrap heard flag outstanding covers
  | accepted bytes => exact delivered.keep rfl rfl rfl (by simp) rfl rfl

theorem step (legal : PeerEvent (conversation log) got event)
    (step : ConnStep (conversation log) conn event after) :
    Delivered (log ++ [event]) after (peerAfter got event) := by
  cases step with
  | opened =>
    refine ⟨List.nil_prefix, ?_, ?_,
      covered_append delivered.covered (by simp)⟩
    · intro impossible
      cases impossible
    · intro impossible
      cases impossible
  | connecting => exact delivered.keep rfl rfl rfl (by simp) rfl rfl
  | connected ok => exact delivered.keep rfl rfl rfl (by simp) rfl rfl
  | talk step =>
    cases step with
    | dropped => exact delivered.keep rfl rfl rfl (by simp) rfl rfl
    | listen step =>
      cases step with
      | read bytes rest split =>
        exact delivered.keep rfl rfl rfl (by simp) rfl rfl
      | calm step =>
        have kept : peerAfter got event = got := by
          cases step <;> rfl
        rw [kept]
        exact delivered.calm consistent noWrap legal step
    | handed segment up settled nonempty short seq =>
      have moved := consistent.step_handed up nonempty seq
      refine ⟨?_, ?_, ?_, covered_append delivered.covered (by simp)⟩
      · rw [conversation_snoc, moved]
        apply delivered.held.trans
        simp [Conversation.stream]
      · rw [conversation_snoc, moved]
        exact delivered.heard
      · intro _ impossible
        exact absurd impossible nonempty

end

end Delivered

/-! ## Whole sessions -/

theorem NoWrap.early (noWrap : NoWrap (log ++ [event])) : NoWrap log := by
  intro early isEarly
  exact noWrap early (isEarly.trans (List.prefix_append _ _))

/-- Agreement, wire and peers together, as kept by every step. -/
structure Tracked (log : List GmNetEvent) (conn : Connection) : Prop where
  consistent : Consistent (conversation log) conn
  wired : Wired log
  delivered : NoWrap log → ∀ got, Peer log got → Delivered log conn got

theorem Tracked.step (step : ConnStep (conversation log) conn event after)
    (tracked : Tracked log conn) : Tracked (log ++ [event]) after := by
  have wired := tracked.wired.step tracked.consistent step
  refine ⟨?_, wired, ?_⟩
  · rw [conversation_snoc]
    exact tracked.consistent.step step
  intro noWrap got peer
  apply peer.after_event
  · intro old oldPeer legal
    have delivered := tracked.delivered noWrap.early old oldPeer
    exact delivered.step tracked.consistent
      (noWrap.early log List.prefix_rfl) legal step
  · intro old segment position delivered transmitted seq inOrder
    exact delivered.copy wired (noWrap _ List.prefix_rfl) transmitted seq
      inOrder

theorem closedAt_tracked (config : GmNetConfig) (env : GmNetEnv)
    (iss : UInt32) :
    Tracked (closedAt config env iss).log (closedAt config env iss).tcp.view := by
  refine ⟨(closedAt_resting config env iss).consistent, by simp [Wired, wire,
    closedAt], ?_⟩
  intro _ got peer
  have start : got = [] := by
    generalize empty : (closedAt config env iss).log = log at peer
    induction peer with
    | start => rfl
    | copy peer segment position transmitted seq inOrder induction =>
      subst empty
      cases transmitted
    | event peer event legal => simp [closedAt] at empty
  subst start
  refine ⟨List.nil_prefix, ?_, ?_, by simp [closedAt]⟩
  · intro impossible
    cases impossible
  · intro impossible
    cases impossible

theorem Evolves.tracked {before after : GmHost}
    (evolves : Evolves before after)
    (tracked : Tracked before.log before.tcp.view) :
    Tracked after.log after.tcp.view :=
  evolves.log_invariant Tracked
    (fun _ _ _ _ step tracked => tracked.step step) tracked

/-- In every session whose sequence numbers do not wrap, and against every
correct peer: outstanding payload is cleared only by an acknowledgement that
covers it, and a send that succeeds has delivered its payload. -/
theorem gmTcpSend_delivers (config : GmNetConfig) (env : GmNetEnv)
    (iss : UInt32) (calls : List GmCall) :
    (∀ got,
      Peer (reached (gmSession calls (closedAt config env iss))).log got →
      NoWrap (reached (gmSession calls (closedAt config env iss))).log →
      ∀ ack seq len,
        .acked ack seq len ∈
          (reached (gmSession calls (closedAt config env iss))).log →
        Covers ack seq len) ∧
    ∀ host data timeout after got,
      gmSession calls (closedAt config env iss) = .ok host →
      gmTcpSend data timeout host = (true, after) →
      Peer after.log got → NoWrap after.log →
      got = (conversation after.log).stream ∧
        ∃ earlier, got = earlier ++ data := by
  have resting := closedAt_resting config env iss
  obtain ⟨evolves, rested⟩ := gmSession_evolves resting calls
  have tracked := Evolves.tracked evolves (closedAt_tracked config env iss)
  constructor
  · intro got peer noWrap
    exact (tracked.delivered noWrap got peer).covered
  · intro host data timeout after got run sent peer noWrap
    have here : reached (gmSession calls (closedAt config env iss)) = host := by
      rw [run]
      rfl
    rw [here] at rested tracked
    have effect := gmTcpSend_effect rested data timeout
    rw [sent] at effect
    have requests := effect.requests rested
    obtain ⟨talks, _⟩ := effect.resting rested
    have final := (Talks.evolves talks).tracked tracked
    have delivered := final.delivered noWrap got peer
    cases effect with
    | sent handed waited settled up =>
      have all := delivered.done (up rfl) settled
      refine ⟨all, (conversation host.log).stream, ?_⟩
      rw [all]
      simp only [Conversation.stream, requests, List.flatten_append,
        List.flatten_singleton]

/-! ## Peers that can be run -/

instance (conv : Conversation) (got : List UInt8) (event : GmNetEvent) :
    Decidable (PeerEvent conv got event) :=
  match event with
  | .arrived segment =>
    inferInstanceAs (Decidable (conv.state = .established →
      segment.has gmTcpFlagAck = true →
      (segment.ack - conv.base).toNat ≤ got.length))
  | .opened _ | .state _ | .sent _ _ | .acked _ _ _ | .accepted _ | .read _
  | .dropped _ | .connecting | .connected _ => .isTrue trivial

/-- What happens next to client and peer. -/
inductive PeerMove where
  | event (event : GmNetEvent)
  | copy (segment : GmSegment) (position : Nat)

def playMove (state : List GmNetEvent × List UInt8) :
    PeerMove → Option (List GmNetEvent × List UInt8)
  | .event event =>
    if PeerEvent (conversation state.1) state.2 event then
      some (state.1 ++ [event], peerAfter state.2 event)
    else none
  | .copy segment position =>
    if segment ∈ wire state.1 ∧
        segment.seq =
          (conversation state.1).base + UInt32.ofNat position ∧
        position ≤ state.2.length then
      some (state.1, takeCopy state.2 position segment.payload)
    else none

def playMoves (moves : List PeerMove)
    (state : List GmNetEvent × List UInt8) :
    Option (List GmNetEvent × List UInt8) :=
  moves.foldlM playMove state

theorem Peer.playMove {state next : List GmNetEvent × List UInt8}
    {move : PeerMove} (peer : Peer state.1 state.2)
    (played : Net.playMove state move = some next) : Peer next.1 next.2 := by
  cases move with
  | event event =>
    simp only [Net.playMove] at played
    split at played
    · rename_i legal
      obtain rfl := Option.some.inj played
      exact .event peer event legal
    · cases played
  | copy segment position =>
    simp only [Net.playMove] at played
    split at played
    · rename_i legal
      obtain rfl := Option.some.inj played
      exact .copy peer segment position legal.1 legal.2.1 legal.2.2
    · cases played

theorem Peer.playMoves {moves : List PeerMove}
    {state final : List GmNetEvent × List UInt8} (peer : Peer state.1 state.2)
    (played : Net.playMoves moves state = some final) :
    Peer final.1 final.2 := by
  induction moves generalizing state with
  | nil =>
    obtain rfl := Option.some.inj played
    exact peer
  | cons move moves induction =>
    obtain ⟨next, first, rest⟩ := Option.bind_eq_some_iff.mp played
    exact induction (peer.playMove first) rest

/-- A peer that takes the first payloads as soon as they are sent. -/
def promptMoves : Nat → Nat → List GmNetEvent → List PeerMove
  | _, _, [] => []
  | count + 1, position, .sent segment true :: events =>
    if segment.payload = [] then
      .event (.sent segment true) :: promptMoves (count + 1) position events
    else
      .event (.sent segment true) :: .copy segment position ::
        promptMoves count (position + segment.payload.length) events
  | count, position, event :: events =>
    .event event :: promptMoves count position events

/-- A session and one more send, against a prompt peer: the log of the client,
and the log and bytes of the peer. -/
def sendAgainst (env : GmNetEnv) (iss : UInt32) (calls : List GmCall)
    (data : List UInt8) (count : Nat) :
    Option (List GmNetEvent × List GmNetEvent × List UInt8) :=
  match gmSession calls (closedAt {} env iss) with
  | .error _ => none
  | .ok host =>
    match gmTcpSend data 200 host with
    | (false, _) => none
    | (true, after) =>
      (playMoves (promptMoves count 0 after.log) ([], [])).map fun final =>
        (after.log, final)

theorem sendAgainst_some {env : GmNetEnv} {iss : UInt32} {calls : List GmCall}
    {data got : List UInt8} {count : Nat} {log peerLog : List GmNetEvent}
    (played : sendAgainst env iss calls data count = some (log, peerLog, got)) :
    ∃ host after, gmSession calls (closedAt {} env iss) = .ok host ∧
      gmTcpSend data 200 host = (true, after) ∧ after.log = log ∧
      Peer peerLog got := by
  unfold sendAgainst at played
  split at played
  · cases played
  rename_i host run
  split at played
  · cases played
  rename_i after sent
  obtain ⟨final, moves, same⟩ := Option.map_eq_some_iff.mp played
  cases same
  exact ⟨host, after, run, sent, rfl, Peer.start.playMoves moves⟩

instance : Decidable (NoWrap log) :=
  decidable_of_iff (∀ early ∈ log.inits, (conversation early).base.toNat +
    (conversation early).stream.length < 2 ^ 32) <| by
    simp only [NoWrap, List.mem_inits]

theorem gmTcpSend_delivers_ping :
    ∃ host after got,
      gmSession [.connect] (closedAt {} promptEnv 0x474d0001) = .ok host ∧
      gmTcpSend (ascii "PING\n") 200 host = (true, after) ∧
      Peer after.log got ∧ NoWrap after.log ∧
      got = (conversation after.log).stream ∧
      ∃ earlier, got = earlier ++ ascii "PING\n" := by
  have outcome : (sendAgainst promptEnv 0x474d0001 [.connect]
      (ascii "PING\n") 1).any (fun (log, peerLog, _) => peerLog = log ∧
        NoWrap log) = true := by
    decide +kernel
  obtain ⟨⟨log, peerLog, got⟩, played, facts⟩ :=
    (Option.any_eq_true _ _).mp outcome
  obtain ⟨same, noWrap⟩ := of_decide_eq_true facts
  obtain ⟨host, after, run, sent, rfl, peer⟩ := sendAgainst_some played
  rw [same] at peer
  exact ⟨host, after, got, run, sent, peer, noWrap,
    (gmTcpSend_delivers {} promptEnv 0x474d0001 [.connect]).2 host _ 200 after
      got run sent peer noWrap⟩

/-- A server that acknowledges three full payloads and then repeats its last
acknowledgement. -/
def wrappingEnv : GmNetEnv :=
  { pumps := fun turn => List.getD
      [{ packets := [serverPacket 0x1000 0xfffff002 0x12 []] },
        { packets := [serverPacket 0x1001 0xfffff002 0x18
            (ascii "GMSTORE 2.0\n")] },
        { packets := [serverPacket 0x100d 0xfffff502 0x10 []] },
        { packets := [serverPacket 0x100d 0xfffffa02 0x10 []] },
        { packets := [serverPacket 0x100d 0xffffff02 0x10 []] }]
      turn
      { packets := [serverPacket 0x100d 0xffffff02 0x10 []] } }

def wrappingCalls : List GmCall :=
  [.connect, .send (List.replicate 1280 65) 200,
    .send (List.replicate 1280 65) 200, .send (List.replicate 1280 65) 200]

/-- After `0xb8b2f` connections the initial sequence number is `0xfffff001`.
Three full payloads and 300 more bytes then wrap, and a repeated
acknowledgement of the first three passes for one of the last. -/
theorem gmTcpSend_undelivered :
    ∃ host after got ack seq,
      gmSession wrappingCalls
        (closedAt {} wrappingEnv (0x474d0001 + 0xb8b2f * 0x1000)) = .ok host ∧
      gmTcpSend (List.replicate 300 66) 200 host = (true, after) ∧
      Peer after.log got ∧
      got.length + 300 = (conversation after.log).stream.length ∧
      .acked ack seq 300 ∈ after.log ∧ ¬ Covers ack seq 300 := by
  have outcome : (sendAgainst wrappingEnv (0x474d0001 + 0xb8b2f * 0x1000)
      wrappingCalls (List.replicate 300 66) 3).any (fun (log, peerLog, got) =>
        peerLog = log ∧
        got.length + 300 = (conversation log).stream.length ∧
        .acked 0xffffff02 0xffffff02 300 ∈ log) = true := by
    decide +kernel
  obtain ⟨⟨log, peerLog, got⟩, played, facts⟩ :=
    (Option.any_eq_true _ _).mp outcome
  obtain ⟨same, missing, cleared⟩ := of_decide_eq_true facts
  obtain ⟨host, after, run, sent, rfl, peer⟩ := sendAgainst_some played
  rw [same] at peer
  refine ⟨host, after, got, _, _, run, sent, peer, missing, cleared, ?_⟩
  unfold Covers
  decide

end Gmker.Net
