import Gmker.Net.Answers
import Mathlib.Logic.Relation

/-!
# Inside a call

The blocking calls pump the network while they wait.  A trace lists the hosts
such a call passes through, so that a statement can speak about every point of
time and not only about what the call leaves behind.
-/

namespace Gmker.Net

variable {host : GmHost} {Kind : GmSegment → Prop}

/-- A host inside a call, with the packet that it takes next. -/
structure GmMoment where
  host : GmHost
  packet : Option GmPacket := none

def gmNetPollTrace : List GmPacket → GmHost → List GmMoment
  | [], host => [{ host := host }]
  | packet :: packets, host =>
    { host := host, packet := some packet } ::
      gmNetPollTrace packets (gmTcpInput packet host)

def gmPumpTrace (host : GmHost) : List GmMoment :=
  gmNetPollTrace (host.env.pumps host.pumped).packets
      { host with pumped := host.pumped + 1 } ++
    [{ host := gmPump host }]

def gmTcpSettleTrace (start timeout : Nat) : Nat → GmHost → List GmMoment
  | 0, host => [{ host := host }]
  | fuel + 1, host =>
    if host.tcp.unacked ≠ [] ∧ host.ticks - start < timeout then
      gmPumpTrace host ++ gmTcpSettleTrace start timeout fuel (gmPump host)
    else [{ host := host }]

def gmNetPrepareLoopTrace (start timeout : Nat) :
    Nat → GmHost → List GmMoment
  | 0, host => [{ host := host }]
  | fuel + 1, host =>
    if host.ticks - start < timeout then
      gmPumpTrace host ++
        match gmArpLookup (gmPump host) with
        | (true, host) => [{ host := host }]
        | (false, host) => gmNetPrepareLoopTrace start timeout fuel host
    else [{ host := host }]

def gmNetPrepareTrace (timeout : Nat) (host : GmHost) : List GmMoment :=
  let online := host.env.online host.prepared
  let host := { host with prepared := host.prepared + 1 }
  if online = false then [{ host := host }]
  else
    match gmArpLookup host with
    | (true, host) => [{ host := host }]
    | (false, host) => gmNetPrepareLoopTrace host.ticks timeout timeout host

/-! ## The end of a trace -/

/-- The last host of a trace. -/
def EndsAt (trace : List GmMoment) (host : GmHost) : Prop :=
  ∃ early, trace = early ++ [{ host := host }]

namespace EndsAt

theorem single (host : GmHost) : EndsAt [{ host := host }] host :=
  ⟨[], rfl⟩

theorem append {early late : List GmMoment} (ends : EndsAt late host) :
    EndsAt (early ++ late) host := by
  obtain ⟨middle, rfl⟩ := ends
  exact ⟨early ++ middle, (List.append_assoc _ _ _).symm⟩

theorem cons {moment : GmMoment} {late : List GmMoment}
    (ends : EndsAt late host) : EndsAt (moment :: late) host := by
  obtain ⟨middle, rfl⟩ := ends
  exact ⟨moment :: middle, rfl⟩

end EndsAt

theorem gmTcpSettleTrace_ends (start timeout fuel : Nat) (host : GmHost) :
    EndsAt (gmTcpSettleTrace start timeout fuel host)
      (gmTcpSettle start timeout fuel host) := by
  induction fuel generalizing host with
  | zero => exact .single host
  | succ fuel inductionHypothesis =>
    unfold gmTcpSettleTrace gmTcpSettle
    split
    · exact (inductionHypothesis _).append
    · exact .single host

theorem gmNetPrepareLoopTrace_ends (start timeout fuel : Nat)
    (host : GmHost) :
    EndsAt (gmNetPrepareLoopTrace start timeout fuel host)
      (gmNetPrepareLoop start timeout fuel host).2 := by
  induction fuel generalizing host with
  | zero => exact .single host
  | succ fuel inductionHypothesis =>
    unfold gmNetPrepareLoopTrace gmNetPrepareLoop
    split
    · apply EndsAt.append
      rcases gmArpLookup (gmPump host) with ⟨known, after⟩
      cases known with
      | true => exact .single after
      | false => exact inductionHypothesis after
    · exact .single host

theorem gmNetPrepareTrace_ends (timeout : Nat) (host : GmHost) :
    EndsAt (gmNetPrepareTrace timeout host) (gmNetPrepare timeout host).2 := by
  unfold gmNetPrepareTrace gmNetPrepare
  dsimp only
  split
  · exact .single _
  rcases gmArpLookup { host with prepared := host.prepared + 1 } with
    ⟨known, after⟩
  cases known with
  | true => exact .single after
  | false => exact gmNetPrepareLoopTrace_ends _ _ _ after

/-! ## Invariants of a waiting call -/

/-- A property that the pieces of `gm_pump` keep, as long as the moments of
the trace are allowed. -/
structure Carried (allowed : GmMoment → Prop) (Holds : GmHost → Prop) :
    Prop where
  frame : ∀ {before after : GmHost}, Holds before →
    after.tcp = before.tcp → after.log = before.log → Holds after
  input : ∀ {host : GmHost} {packet : GmPacket},
    allowed { host := host, packet := some packet } → Holds host →
    Holds (gmTcpInput packet host)
  poll : ∀ {host : GmHost}, Holds host → Holds (gmTcpPoll host)

/-- A property at every moment of a trace. -/
def Throughout (Holds : GmHost → Prop) (trace : List GmMoment) : Prop :=
  ∀ moment ∈ trace, Holds moment.host

namespace Throughout

variable {Holds : GmHost → Prop}

theorem single (holds : Holds host) : Throughout Holds [{ host := host }] := by
  intro moment member
  rw [List.mem_singleton.1 member]
  exact holds

theorem cons {moment : GmMoment} {late : List GmMoment}
    (first : Holds moment.host) (rest : Throughout Holds late) :
    Throughout Holds (moment :: late) := by
  intro other member
  rcases List.mem_cons.1 member with rfl | later
  · exact first
  · exact rest other later

theorem append {first second : List GmMoment}
    (left : Throughout Holds first) (right : Throughout Holds second) :
    Throughout Holds (first ++ second) := by
  intro moment member
  rcases List.mem_append.1 member with early | late
  · exact left moment early
  · exact right moment late

theorem last {trace : List GmMoment} (holds : Throughout Holds trace)
    (ends : EndsAt trace host) : Holds host := by
  obtain ⟨early, rfl⟩ := ends
  exact holds _ (List.mem_append_right early List.mem_cons_self)

end Throughout

namespace Carried

variable {allowed : GmMoment → Prop} {Holds : GmHost → Prop}

theorem netPoll (carried : Carried allowed Holds) {packets : List GmPacket}
    (holds : Holds host)
    (quiet : ∀ moment ∈ gmNetPollTrace packets host, allowed moment) :
    Throughout Holds (gmNetPollTrace packets host) ∧
      Holds (gmNetPoll packets host) := by
  induction packets generalizing host with
  | nil => exact ⟨.single holds, holds⟩
  | cons packet packets inductionHypothesis =>
    have next := carried.input (quiet _ List.mem_cons_self) holds
    obtain ⟨rest, final⟩ := inductionHypothesis next
      (fun moment member => quiet moment (List.mem_cons_of_mem _ member))
    exact ⟨.cons holds rest, final⟩

theorem pump (carried : Carried allowed Holds) (holds : Holds host)
    (quiet : ∀ moment ∈ gmPumpTrace host, allowed moment) :
    Throughout Holds (gmPumpTrace host) ∧ Holds (gmPump host) := by
  have counted : Holds { host with pumped := host.pumped + 1 } :=
    carried.frame holds rfl rfl
  obtain ⟨polled, reached⟩ := carried.netPoll counted
    (fun moment member => quiet moment (List.mem_append_left _ member))
  have final : Holds (gmPump host) :=
    carried.frame (carried.poll reached) rfl rfl
  exact ⟨polled.append (.single final), final⟩

variable (carried : Carried (fun _ => True) Holds)

include carried

theorem settle (start timeout fuel : Nat) (holds : Holds host) :
    Throughout Holds (gmTcpSettleTrace start timeout fuel host) := by
  induction fuel generalizing host with
  | zero => exact .single holds
  | succ fuel inductionHypothesis =>
    unfold gmTcpSettleTrace
    split
    · obtain ⟨pumped, next⟩ := carried.pump holds (fun _ _ => trivial)
      exact pumped.append (inductionHypothesis next)
    · exact .single holds

theorem prepareLoop (start timeout fuel : Nat) (holds : Holds host) :
    Throughout Holds (gmNetPrepareLoopTrace start timeout fuel host) := by
  induction fuel generalizing host with
  | zero => exact .single holds
  | succ fuel inductionHypothesis =>
    unfold gmNetPrepareLoopTrace
    split
    · obtain ⟨pumped, next⟩ := carried.pump holds (fun _ _ => trivial)
      have asked : Holds (gmArpLookup (gmPump host)).2 :=
        carried.frame next rfl rfl
      refine pumped.append ?_
      generalize gmArpLookup (gmPump host) = lookup at asked ⊢
      obtain ⟨_ | _, after⟩ := lookup
      · exact inductionHypothesis asked
      · exact .single asked
    · exact .single holds

theorem prepare (timeout : Nat) (holds : Holds host) :
    Throughout Holds (gmNetPrepareTrace timeout host) := by
  unfold gmNetPrepareTrace
  have counted : Holds { host with prepared := host.prepared + 1 } :=
    carried.frame holds rfl rfl
  dsimp only
  split
  · exact .single counted
  have asked : Holds
      (gmArpLookup { host with prepared := host.prepared + 1 }).2 :=
    carried.frame counted rfl rfl
  generalize gmArpLookup { host with prepared := host.prepared + 1 } =
    lookup at asked ⊢
  obtain ⟨_ | _, after⟩ := lookup
  · exact carried.prepareLoop after.ticks timeout timeout asked
  · exact .single asked

theorem prepared (timeout : Nat) (holds : Holds host) :
    Holds (gmNetPrepare timeout host).2 :=
  (carried.prepare timeout holds).last (gmNetPrepareTrace_ends timeout host)

end Carried

/-! ## What a step transmits -/

/-- Everything transmitted between the two hosts is of one kind. -/
def Emits (Kind : GmSegment → Prop) (before after : GmHost) : Prop :=
  ∃ events, after.log = before.log ++ events ∧
    ∀ segment ok, .sent segment ok ∈ events → Kind segment

namespace Emits

variable {Kind : GmSegment → Prop} {before middle after : GmHost}

theorem of_log (same : after.log = before.log) : Emits Kind before after :=
  ⟨[], by rw [same, List.append_nil], by simp⟩

theorem refl (host : GmHost) : Emits Kind host host :=
  .of_log rfl

theorem trans (first : Emits Kind before middle)
    (second : Emits Kind middle after) : Emits Kind before after := by
  obtain ⟨early, earlyLog, earlyKind⟩ := first
  obtain ⟨late, lateLog, lateKind⟩ := second
  refine ⟨early ++ late, ?_, ?_⟩
  · rw [lateLog, earlyLog, List.append_assoc]
  · intro segment ok member
    rcases List.mem_append.1 member with isEarly | isLate
    · exact earlyKind segment ok isEarly
    · exact lateKind segment ok isLate

theorem mono {Wider : GmSegment → Prop} (emits : Emits Kind before after)
    (wider : ∀ segment, Kind segment → Wider segment) :
    Emits Wider before after := by
  obtain ⟨events, log, kinds⟩ := emits
  exact ⟨events, log, fun segment ok member =>
    wider segment (kinds segment ok member)⟩

theorem silent {event : GmNetEvent} (log : after.log = before.log ++ [event])
    (quiet : ∀ segment ok, event ≠ .sent segment ok) :
    Emits Kind before after := by
  refine ⟨[event], log, ?_⟩
  intro segment ok member
  exact absurd (List.mem_singleton.1 member).symm (quiet segment ok)

end Emits

theorem gmTcpSegment_emits (segment : GmSegment) (kind : Kind segment)
    (host : GmHost) : Emits Kind host (gmTcpSegment segment host).2 := by
  obtain ⟨ok, count, sends, result⟩ := gmTcpSegment_effect segment host
  rw [result]
  refine ⟨[.sent segment ok], rfl, ?_⟩
  intro other otherOk member
  cases List.mem_singleton.1 member
  exact kind

/-- An acknowledgement without payload. -/
def GmSegment.isAck (segment : GmSegment) : Prop :=
  segment.flags = gmTcpFlagAck ∧ segment.payload = []

theorem gmTcpAbandon_emits (host : GmHost) :
    Emits Kind host (gmTcpAbandon host) :=
  .silent rfl (by simp)

/-! ## What input can do -/

/-- One change that `gm_tcp_input` makes. -/
inductive InputMove (host : GmHost) : GmHost → Prop where
  | heard (segment : GmSegment) : InputMove host (host.hear segment)
  | abandoned : InputMove host (gmTcpAbandon host)
  | covered (ack : UInt32) :
      InputMove host (GmHost.record
        { host with
          tcp := { host.tcp with unacked := [], unackedRetry := 0 } }
        (.acked ack host.tcp.unackedSeq host.tcp.unacked.length))
  | refused (count : Nat) :
      InputMove host { host with tcp := { host.tcp with dropCount := count } }
  | stored (rx : Nat → UInt8) (len : Nat) (ack : UInt32)
      (bytes : List UInt8) :
      InputMove host (GmHost.record
        { host with tcp := { host.tcp with rx := rx, rxLen := len, ack := ack } }
        (.accepted bytes))
  | numbered (seq ack : UInt32) :
      InputMove host
        { host with tcp := { host.tcp with seq := seq, ack := ack } }
  | answered (ok : Bool) (count sends : Nat) :
      InputMove host
        { host with
          tcp := { host.tcp with txCount := count }
          sends := sends
          log := host.log ++ [.sent host.tcp.ackSegment ok] }
  | established : InputMove host (host.setState .established)
  | finished :
      InputMove host
        { host.setState .closed with
          tcp := { (host.setState .closed).tcp with unacked := [] } }

/-- Any number of such changes. -/
abbrev InputMoves := Relation.ReflTransGen InputMove

theorem ackSegment_moves (host : GmHost) :
    InputMoves host (gmTcpSegment host.tcp.ackSegment host).2 := by
  obtain ⟨ok, count, sends, result⟩ :=
    gmTcpSegment_effect host.tcp.ackSegment host
  rw [result]
  exact .single (.answered ok count sends)

theorem gmTcpAcknowledge_moves (segment : GmSegment) (host : GmHost) :
    InputMoves host (gmTcpAcknowledge segment host) := by
  unfold gmTcpAcknowledge
  dsimp only
  split
  · exact .single (.covered segment.ack)
  · exact .refl

theorem gmTcpReceive_moves (segment : GmSegment) (host : GmHost) :
    InputMoves host (gmTcpReceive segment host) := by
  have accepted : InputMoves host (gmTcpAccept segment host) := by
    unfold gmTcpAccept gmTcpAppend
    split
    · split
      · rename_i stored
        split at stored <;> cases stored
        exact .single (.refused _)
      · rename_i stored
        split at stored <;> cases stored
        exact .single (.stored _ _ _ _)
    · exact .refl
  unfold gmTcpReceive
  split
  · exact .refl
  · exact accepted.trans (ackSegment_moves _)

theorem gmTcpFinish_moves (segment : GmSegment) (host : GmHost) :
    InputMoves host (gmTcpFinish segment host) := by
  unfold gmTcpFinish
  split
  · dsimp only
    generalize counted : (if segment.seq +
        UInt32.ofNat segment.payload.length = host.tcp.ack then
      { host with tcp := { host.tcp with ack := host.tcp.ack + 1 } }
      else host) = next
    have first : InputMoves host next := by
      rw [← counted]
      split
      · exact .single (.numbered host.tcp.seq _)
      · exact .refl
    exact (first.trans (ackSegment_moves next)).tail .finished
  · exact .refl

theorem gmTcpHandshake_moves (segment : GmSegment) (host : GmHost) :
    InputMoves host (gmTcpHandshake segment host) := by
  rw [gmTcpHandshake_eq]
  split
  · exact .refl
  have answered : InputMoves host _ :=
    (ackSegment_moves (host.synchronize segment)).head (.numbered _ _)
  generalize gmTcpSegment _ (host.synchronize segment) = outcome at answered ⊢
  obtain ⟨_ | _, after⟩ := outcome
  · exact answered
  · exact answered.tail .established

theorem gmTcpInput_moves (packet : GmPacket) (host : GmHost) :
    InputMoves host (gmTcpInput packet host) := by
  unfold gmTcpInput
  split
  · exact .refl
  rename_i segment _
  have heard : InputMoves host (host.hear segment) := .single (.heard segment)
  rw [gmTcpHandle_eq]
  split
  · exact heard.tail .abandoned
  split
  · exact heard.trans (gmTcpHandshake_moves segment _)
  split
  · exact heard
  · exact heard.trans ((gmTcpAcknowledge_moves segment _).trans
      ((gmTcpReceive_moves segment _).trans (gmTcpFinish_moves segment _)))

/-- What every change keeps is kept by `gm_tcp_input`. -/
theorem gmTcpInput_keeps (Kept : GmHost → Prop) (packet : GmPacket)
    (kept : Kept host)
    (moved : ∀ {before after}, InputMove before after → Kept before →
      Kept after) :
    Kept (gmTcpInput packet host) := by
  have moves := gmTcpInput_moves packet host
  generalize gmTcpInput packet host = final at moves ⊢
  induction moves with
  | refl => exact kept
  | tail _ move induction => exact moved move induction

/-- Whatever arrives, the answer is an acknowledgement. -/
theorem gmTcpInput_emits (packet : GmPacket) (host : GmHost) :
    Emits GmSegment.isAck host (gmTcpInput packet host) := by
  refine gmTcpInput_keeps (Emits _ host) packet (.refl host)
    fun {before after} move kept => kept.trans ?_
  cases move with
  | refused count => exact .of_log rfl
  | numbered seq ack => exact .of_log rfl
  | answered ok count sends =>
    refine ⟨[.sent before.tcp.ackSegment ok], rfl, ?_⟩
    intro segment isOk member
    cases List.mem_singleton.1 member
    exact ⟨rfl, rfl⟩
  | _ => exact .silent rfl (by simp)

/-- The outstanding payload, once more. -/
def GmSegment.isPush (segment : GmSegment) : Prop :=
  segment.flags = gmTcpFlagAck ||| gmTcpFlagPsh

/-- The connection with one more attempt at its outstanding payload. -/
def GmHost.retry (host : GmHost) : GmHost :=
  { host with
    tcp := { host.tcp with
      unackedRetry := host.tcp.unackedRetry + 1
      unackedTick := host.ticks } }

theorem gmTcpPoll_eq (host : GmHost) :
    gmTcpPoll host =
      if host.tcp.state ≠ .established ∨ host.tcp.unacked = [] then host
      else if host.ticks - host.tcp.unackedTick < 50 then host
      else if 5 ≤ host.tcp.unackedRetry then gmTcpAbandon host
      else (gmTcpSegment host.retry.tcp.unackedSegment host.retry).2 :=
  rfl

/-- A poll repeats the outstanding payload at most. -/
theorem gmTcpPoll_emits (host : GmHost) :
    Emits GmSegment.isPush host (gmTcpPoll host) := by
  rw [gmTcpPoll_eq]
  split
  · exact .refl host
  split
  · exact .refl host
  split
  · exact gmTcpAbandon_emits host
  · have armed : Emits GmSegment.isPush host host.retry := .of_log rfl
    have push : host.retry.tcp.unackedSegment.isPush := rfl
    exact armed.trans (gmTcpSegment_emits _ push host.retry)

end Gmker.Net
