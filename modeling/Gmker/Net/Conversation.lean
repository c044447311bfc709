import Gmker.Net.RxRing

/-!
# Conversations

The abstract picture of the connection.  A `Conversation` is what a log says
about the current connection, a `Connection` is the part of the client's state
that matters to it, and `ConnStep` says once what each logged event may do.
Everything the client does is a run of such steps.
-/

namespace Gmker.Net

variable {event : GmNetEvent}

/-- What a log says about the current connection. -/
structure Conversation where
  iss : UInt32 := 0
  /-- The sequence number of the first byte of the client's stream. -/
  base : UInt32 := 0
  state : GmTcpState := .closed
  heard : Option GmSegment := none
  accepted : List UInt8 := []
  consumed : List UInt8 := []
  requests : List (List UInt8) := []
  /-- Control is inside `gm_store_connect`. -/
  inside : Bool := false
  /-- The last `gm_store_connect` returned zero. -/
  refused : Bool := false

namespace Conversation

/-- The bytes the client has transmitted so far. -/
def stream (conv : Conversation) : List UInt8 := conv.requests.flatten

/-- The sequence number that extends the client's stream. -/
def next (conv : Conversation) : UInt32 :=
  conv.base + UInt32.ofNat conv.stream.length

def step (conv : Conversation) : GmNetEvent → Conversation
  | .opened iss =>
    { conv with
      iss := iss
      state := .syn
      heard := none
      accepted := []
      consumed := []
      requests := [] }
  | .state state =>
    { conv with
      state := state
      base := if state = .established then
          (conv.heard.map GmSegment.ack).getD conv.base
        else conv.base }
  | .sent segment ok =>
    if ok = true ∧ segment.payload ≠ [] ∧ segment.seq = conv.next then
      { conv with requests := conv.requests ++ [segment.payload] }
    else conv
  | .arrived segment => { conv with heard := some segment }
  | .acked .. => conv
  | .accepted bytes => { conv with accepted := conv.accepted ++ bytes }
  | .read bytes => { conv with consumed := conv.consumed ++ bytes }
  | .dropped bytes => { conv with consumed := conv.consumed ++ bytes }
  | .connecting => { conv with inside := true }
  | .connected ok => { conv with inside := false, refused := !ok }

end Conversation

def conversation (log : List GmNetEvent) : Conversation :=
  log.foldl Conversation.step {}

theorem conversation_append (first second : List GmNetEvent) :
    conversation (first ++ second) =
      second.foldl Conversation.step (conversation first) :=
  List.foldl_append

/-- The part of the connection state that matters to a conversation. -/
structure Connection where
  state : GmTcpState
  seq : UInt32
  unacked : List UInt8
  unackedSeq : UInt32
  nextSeq : UInt32
  buffer : List UInt8

def GmTcp.view (tcp : GmTcp) : Connection :=
  { state := tcp.state
    seq := tcp.seq
    unacked := tcp.unacked
    unackedSeq := tcp.unackedSeq
    nextSeq := tcp.nextSeq
    buffer := tcp.buffered }

/-- The steps that only react to the network. -/
inductive CalmStep (conv : Conversation) (conn : Connection) :
    GmNetEvent → Connection → Prop where
  | arrived (segment : GmSegment) : CalmStep conv conn (.arrived segment) conn
  | synAck (segment : GmSegment) (syn : conn.state = .syn)
      (answer : segment.ack = conn.seq + 1) :
      CalmStep conv conn (.arrived segment) { conn with seq := conn.seq + 1 }
  | established (segment : GmSegment) (syn : conn.state = .syn)
      (heard : conv.heard = some segment) (answer : segment.ack = conn.seq) :
      CalmStep conv conn (.state .established)
        { conn with state := .established }
  | reset : CalmStep conv conn (.state .reset)
      { conn with state := .reset, unacked := [] }
  | closed (down : conn.state ≠ .established) :
      CalmStep conv conn (.state .closed) { conn with state := .closed }
  | finished : CalmStep conv conn (.state .closed)
      { conn with state := .closed, unacked := [] }
  | fin (settled : conn.unacked = []) :
      CalmStep conv conn (.state .fin)
        { conn with state := .fin, seq := conn.seq + 1 }
  | control (segment : GmSegment) (ok : Bool)
      (empty : segment.payload = []) :
      CalmStep conv conn (.sent segment ok) conn
  | again (segment : GmSegment) (ok : Bool)
      (outstanding : conn.unacked ≠ [])
      (payload : segment.payload = conn.unacked)
      (seq : segment.seq = conn.unackedSeq) :
      CalmStep conv conn (.sent segment ok) conn
  | failed (segment : GmSegment) (settled : conn.unacked = []) :
      CalmStep conv conn (.sent segment false)
        { conn with unackedSeq := conn.seq }
  | acked (segment : GmSegment) (heard : conv.heard = some segment)
      (flag : segment.has gmTcpFlagAck = true)
      (outstanding : conn.unacked ≠ [])
      (covers : conn.unackedSeq + UInt32.ofNat conn.unacked.length ≤
        segment.ack) :
      CalmStep conv conn
        (.acked segment.ack conn.unackedSeq conn.unacked.length)
        { conn with unacked := [] }
  | accepted (bytes : List UInt8) :
      CalmStep conv conn (.accepted bytes)
        { conn with buffer := conn.buffer ++ bytes }

/-- The steps of a call that waits for a reply. -/
inductive ListenStep (conv : Conversation) (conn : Connection) :
    GmNetEvent → Connection → Prop where
  | calm {event : GmNetEvent} {after : Connection}
      (step : CalmStep conv conn event after) :
      ListenStep conv conn event after
  | read (bytes rest : List UInt8) (split : conn.buffer = bytes ++ rest) :
      ListenStep conv conn (.read bytes) { conn with buffer := rest }

/-- The steps of a call on the current connection. -/
inductive TalkStep (conv : Conversation) (conn : Connection) :
    GmNetEvent → Connection → Prop where
  | listen {event : GmNetEvent} {after : Connection}
      (step : ListenStep conv conn event after) :
      TalkStep conv conn event after
  | dropped : TalkStep conv conn (.dropped conn.buffer)
      { conn with buffer := [] }
  | handed (segment : GmSegment) (up : conn.state = .established)
      (settled : conn.unacked = []) (nonempty : segment.payload ≠ [])
      (short : segment.payload.length ≤ gmTcpTxMax)
      (seq : segment.seq = conn.seq) :
      TalkStep conv conn (.sent segment true)
        { conn with
          unacked := segment.payload
          unackedSeq := conn.seq
          seq := conn.seq + UInt32.ofNat segment.payload.length }

/-- All steps: those on a connection, a new connection, and the borders of
`gm_store_connect`. -/
inductive ConnStep (conv : Conversation) (conn : Connection) :
    GmNetEvent → Connection → Prop where
  | talk {event : GmNetEvent} {after : Connection}
      (step : TalkStep conv conn event after) :
      ConnStep conv conn event after
  | opened : ConnStep conv conn (.opened conn.nextSeq)
      { conn with
        state := .syn
        seq := conn.nextSeq
        nextSeq := conn.nextSeq + 0x1000
        unacked := []
        buffer := [] }
  | connecting : ConnStep conv conn .connecting conn
  | connected (ok : Bool) : ConnStep conv conn (.connected ok) conn

/-- A run of labelled steps, with the conversation that goes along. -/
inductive LogRun
    (Step : Conversation → Connection → GmNetEvent → Connection → Prop) :
    Conversation → Connection → List GmNetEvent → Connection → Prop where
  | nil (conv : Conversation) (conn : Connection) : LogRun Step conv conn [] conn
  | cons {conv : Conversation} {first second third : Connection}
      {event : GmNetEvent} {events : List GmNetEvent}
      (step : Step conv first event second)
      (rest : LogRun Step (conv.step event) second events third) :
      LogRun Step conv first (event :: events) third

namespace LogRun

variable {conv : Conversation}

variable {Step : Conversation → Connection → GmNetEvent → Connection → Prop}

theorem append {first second third : Connection} {early late : List GmNetEvent}
    (left : LogRun Step conv first early second)
    (right : LogRun Step (early.foldl Conversation.step conv) second late third) :
    LogRun Step conv first (early ++ late) third := by
  induction left with
  | nil conv conn => exact right
  | cons step rest induction => exact .cons step (induction right)

theorem single {first second : Connection} (step : Step conv first event second) :
    LogRun Step conv first [event] second :=
  .cons step (.nil _ _)

theorem mono
    {Other : Conversation → Connection → GmNetEvent → Connection → Prop}
    {first last : Connection} {events : List GmNetEvent}
    (weaken : ∀ conv conn event after, Step conv conn event after →
      Other conv conn event after) (run : LogRun Step conv first events last) :
    LogRun Other conv first events last := by
  induction run with
  | nil conv conn => exact .nil conv conn
  | cons step rest induction => exact .cons (weaken _ _ _ _ step) induction

/-- A property of log and connection that every step keeps. -/
theorem invariant {Holds : List GmNetEvent → Connection → Prop}
    {log events : List GmNetEvent} {first last : Connection}
    (preserved : ∀ log conn event after, Step (conversation log) conn event
      after → Holds log conn → Holds (log ++ [event]) after)
    (run : LogRun Step (conversation log) first events last)
    (initial : Holds log first) : Holds (log ++ events) last := by
  generalize here : conversation log = conv at run
  induction run generalizing log with
  | nil conv conn =>
    rw [List.append_nil]
    exact initial
  | cons step rest induction =>
    subst here
    have next := induction (preserved _ _ _ _ step initial)
      (conversation_append _ _)
    rw [List.append_assoc] at next
    exact next

end LogRun

/-- The agreement of a connection with its conversation. -/
structure Consistent (conv : Conversation) (conn : Connection) : Prop where
  state : conv.state = conn.state
  bytes : conv.accepted = conv.consumed ++ conn.buffer
  fresh : conn.state = .syn → conv.requests = []
  next : conn.state = .established → conn.seq = conv.next
  outstanding : conn.unacked ≠ [] → conn.state = .established ∧
    conn.unacked.length ≤ gmTcpTxMax ∧
    conn.unackedSeq + UInt32.ofNat conn.unacked.length = conn.seq ∧
    ∃ earlier, conv.requests = earlier ++ [conn.unacked]

namespace Consistent

variable {segment : GmSegment} {after : Connection}

variable {conv : Conversation} {conn : Connection}

/-- A connection that is not established has nothing outstanding. -/
theorem settled (consistent : Consistent conv conn)
    (down : conn.state ≠ .established) : conn.unacked = [] := by
  by_contra outstanding
  exact down (consistent.outstanding outstanding).1

/-- The outstanding payload does not start where the stream ends. -/
theorem unackedSeq_ne_next (consistent : Consistent conv conn)
    (outstanding : conn.unacked ≠ []) : conn.unackedSeq ≠ conv.next := by
  obtain ⟨up, short, ends, _⟩ := consistent.outstanding outstanding
  rw [← consistent.next up, ← ends]
  intro same
  have empty : UInt32.ofNat conn.unacked.length = 0 := by
    apply UInt32.add_right_inj conn.unackedSeq |>.mp
    rw [← same, UInt32.add_zero]
  have length : conn.unacked.length % 2 ^ 32 = 0 := by
    have value := congrArg UInt32.toNat empty
    simpa using value
  have positive := List.length_pos_iff.mpr outstanding
  have below : conn.unacked.length ≤ 1280 := short
  omega

/-- Steps that only touch what the agreement does not mention. -/
private theorem unchanged (consistent : Consistent conv conn)
    {conv' : Conversation} (state : conv'.state = conv.state)
    (accepted : conv'.accepted = conv.accepted)
    (consumed : conv'.consumed = conv.consumed)
    (requests : conv'.requests = conv.requests)
    (base : conv'.base = conv.base) : Consistent conv' conn := by
  have next : conv'.next = conv.next := by
    simp only [Conversation.next, Conversation.stream, base, requests]
  constructor
  · rw [state]
    exact consistent.state
  · rw [accepted, consumed]
    exact consistent.bytes
  · rw [requests]
    exact consistent.fresh
  · rw [next]
    exact consistent.next
  · rw [requests]
    exact consistent.outstanding

/-- A segment without payload leaves the conversation alone. -/
theorem step_control (conv : Conversation) (ok : Bool)
    (empty : segment.payload = []) : conv.step (.sent segment ok) = conv := by
  apply if_neg
  rintro ⟨_, nonempty, _⟩
  exact nonempty empty

theorem step_failed (conv : Conversation) (segment : GmSegment) :
    conv.step (.sent segment false) = conv := by
  simp [Conversation.step]

section

variable (consistent : Consistent conv conn)

include consistent

theorem step_again (ok : Bool) (outstanding : conn.unacked ≠ [])
    (seq : segment.seq = conn.unackedSeq) :
    conv.step (.sent segment ok) = conv := by
  apply if_neg
  rintro ⟨_, _, extends'⟩
  rw [seq] at extends'
  exact consistent.unackedSeq_ne_next outstanding extends'

/-- Steps that leave the established state with nothing outstanding. -/
private theorem leave {state : GmTcpState}
    (notEstablished : state ≠ .established) (notSyn : state ≠ .syn)
    (moved : after.state = state) (buffer : after.buffer = conn.buffer)
    (settled : after.unacked = []) :
    Consistent (conv.step (.state state)) after := by
  constructor
  · exact moved.symm
  · rw [buffer]
    exact consistent.bytes
  · intro syn
    exact absurd (moved.symm.trans syn) notSyn
  · intro up
    exact absurd (moved.symm.trans up) notEstablished
  · intro outstanding
    exact absurd settled outstanding

theorem calm (step : CalmStep conv conn event after) :
    Consistent (conv.step event) after := by
  cases step with
  | arrived segment => exact consistent.unchanged rfl rfl rfl rfl rfl
  | synAck segment syn answer =>
    have kept : Consistent (conv.step (.arrived segment)) conn :=
      consistent.unchanged rfl rfl rfl rfl rfl
    have down : conn.state ≠ .established := by simp [syn]
    refine ⟨kept.state, kept.bytes, kept.fresh, ?_, ?_⟩
    · intro up
      exact absurd up down
    · intro outstanding
      exact absurd (consistent.settled down) outstanding
  | established segment syn heard answer =>
    have down : conn.state ≠ .established := by simp [syn]
    refine ⟨rfl, consistent.bytes, ?_, ?_, ?_⟩
    · intro impossible
      cases impossible
    · intro _
      simp [Conversation.next, Conversation.stream, Conversation.step, heard,
        consistent.fresh syn, answer]
    · intro outstanding
      exact absurd (consistent.settled down) outstanding
  | reset => exact consistent.leave (by simp) (by simp) rfl rfl rfl
  | closed down =>
    exact consistent.leave (by simp) (by simp) rfl rfl
      (consistent.settled down)
  | finished => exact consistent.leave (by simp) (by simp) rfl rfl rfl
  | fin settled => exact consistent.leave (by simp) (by simp) rfl rfl settled
  | control segment ok empty =>
    rw [step_control conv ok empty]
    exact consistent
  | again segment ok outstanding payload seq =>
    rw [consistent.step_again ok outstanding seq]
    exact consistent
  | failed segment settled =>
    rw [step_failed]
    refine ⟨consistent.state, consistent.bytes, consistent.fresh,
      consistent.next, ?_⟩
    intro outstanding
    exact absurd settled outstanding
  | acked segment heard flag outstanding covers =>
    refine ⟨consistent.state, consistent.bytes, consistent.fresh,
      consistent.next, ?_⟩
    intro impossible
    exact absurd rfl impossible
  | accepted bytes =>
    refine ⟨consistent.state, ?_, consistent.fresh, consistent.next,
      consistent.outstanding⟩
    simp only [Conversation.step, consistent.bytes, List.append_assoc]

theorem listen (step : ListenStep conv conn event after) :
    Consistent (conv.step event) after := by
  cases step with
  | calm step => exact consistent.calm step
  | read bytes rest split =>
    refine ⟨consistent.state, ?_, consistent.fresh, consistent.next,
      consistent.outstanding⟩
    simp only [Conversation.step, consistent.bytes, split, List.append_assoc]

theorem step_handed (up : conn.state = .established)
    (nonempty : segment.payload ≠ []) (seq : segment.seq = conn.seq) :
    conv.step (.sent segment true) =
      { conv with requests := conv.requests ++ [segment.payload] } :=
  if_pos ⟨rfl, nonempty, seq.trans (consistent.next up)⟩

theorem talk (step : TalkStep conv conn event after) :
    Consistent (conv.step event) after := by
  cases step with
  | listen step => exact consistent.listen step
  | dropped =>
    refine ⟨consistent.state, ?_, consistent.fresh, consistent.next,
      consistent.outstanding⟩
    simp only [Conversation.step, consistent.bytes, List.append_nil]
  | handed segment up settled nonempty short seq =>
    rw [consistent.step_handed up nonempty seq]
    refine ⟨consistent.state, consistent.bytes, ?_, ?_, ?_⟩
    · intro syn
      exact absurd (syn.symm.trans up) (by simp)
    · intro _
      simp only [Conversation.next, Conversation.stream,
        List.flatten_append, List.flatten_singleton, List.length_append,
        UInt32.ofNat_add, ← UInt32.add_assoc]
      congr 1
      exact consistent.next up
    · intro _
      exact ⟨up, short, rfl, conv.requests, rfl⟩

theorem step (step : ConnStep conv conn event after) :
    Consistent (conv.step event) after := by
  cases step with
  | talk step => exact consistent.talk step
  | opened =>
    refine ⟨rfl, rfl, fun _ => rfl, ?_, ?_⟩
    · intro impossible
      cases impossible
    · intro impossible
      exact absurd rfl impossible
  | connecting => exact consistent.unchanged rfl rfl rfl rfl rfl
  | connected ok => exact consistent.unchanged rfl rfl rfl rfl rfl

end

end Consistent

end Gmker.Net
