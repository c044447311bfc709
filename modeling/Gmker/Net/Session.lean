import Gmker.Foundation.Runs
import Gmker.Net.Operations

/-!
# Sessions

A session is any sequence of `gm_store_*` calls, bare sends and polls of the
kernel loop.  Connecting is the only call that replaces the connection.
-/

namespace Gmker.Net

variable {host : GmHost} {ok : Bool}

/-- The polls of a turn of the kernel loop.  The clock moves on by as many
ticks as the turn takes. -/
def gmKernelPoll (input : GmPumpInput) (host : GmHost) : GmHost :=
  let host := gmTcpPoll (gmNetPoll input.packets host)
  { host with ticks := host.ticks + input.idleTicks }

inductive GmCall where
  | connect
  | op (op : StoreOp)
  | send (data : List UInt8) (timeout : Nat)
  | poll (input : GmPumpInput)

/-- One call.  The error is the host inside a call that does not return. -/
def gmCall : GmCall → GmHost → Except GmHost GmHost
  | .connect, host => .ok (gmStoreConnect host).2
  | .op op, host =>
    match gmStoreOp op host with
    | (some _, host) => .ok host
    | (none, host) => .error host
  | .send data timeout, host => .ok (gmTcpSend data timeout host).2
  | .poll input, host => .ok (gmKernelPoll input host)

/-- A whole session. -/
def gmSession (calls : List GmCall) (host : GmHost) : Except GmHost GmHost :=
  Foundation.runSteps gmCall calls host

/-- A closed connection whose next initial sequence number is `iss`. -/
def closedAt (config : GmNetConfig) (env : GmNetEnv) (iss : UInt32) : GmHost :=
  { config := config, env := env, tcp := { nextSeq := iss } }

/-- The connection as `gm_tcp_init` leaves it. -/
def gmTcpInit (config : GmNetConfig) (env : GmNetEnv) : GmHost :=
  closedAt config env 0x474d0001

/-! ## Connecting -/

/-- A transmission with this flag failed between the two hosts. -/
def FailedSend (flag : UInt8) (before after : GmHost) : Prop :=
  ∃ segment events, segment.has flag = true ∧
    after.log = before.log ++ events ∧ .sent segment false ∈ events

theorem FailedSend.extend {flag : UInt8} {first before after last : GmHost}
    (failed : FailedSend flag before after)
    (early : ∃ events, before.log = first.log ++ events)
    (late : ∃ events, last.log = after.log ++ events) :
    FailedSend flag first last := by
  obtain ⟨segment, events, carries, log, member⟩ := failed
  obtain ⟨front, frontLog⟩ := early
  obtain ⟨back, backLog⟩ := late
  refine ⟨segment, front ++ events ++ back, carries, ?_, ?_⟩
  · simp only [backLog, log, frontLog, List.append_assoc]
  · exact List.mem_append_left back (List.mem_append_right front member)

theorem Moves.grows {Step : Conversation → Connection → GmNetEvent →
      Connection → Prop} {before after : GmHost}
    (moves : Moves Step before after) :
    ∃ events, after.log = before.log ++ events := by
  obtain ⟨events, log, _⟩ := moves.run
  exact ⟨events, log⟩

/-- What the waiting loop of `gm_tcp_connect` does.  Only a failed SYN ends it
in an undecided state. -/
structure WaitEffect (before after : GmHost) (ok : Bool) : Prop where
  calm : Calm before after
  up : ok = true → after.tcp.state = .established
  down : ok = false →
    after.tcp.state = .closed ∨ FailedSend gmTcpFlagSyn before after

theorem WaitEffect.give_up (valid : RxValid host.tcp)
    (down : host.tcp.state ≠ .established) :
    WaitEffect host (host.setState .closed) false := by
  refine ⟨.single ⟨valid.head, valid.len⟩ rfl (.closed down), by simp, ?_⟩
  intro _
  exact .inl rfl

theorem WaitEffect.after_calm {before middle after : GmHost}
    (first : Calm before middle) (rest : WaitEffect middle after ok) :
    WaitEffect before after ok := by
  refine ⟨first.trans rest.calm, rest.up, ?_⟩
  intro isFalse
  rcases rest.down isFalse with closed | failed
  · exact .inl closed
  · exact .inr (failed.extend first.grows ⟨[], by simp⟩)

/-- A SYN of the loop is sent, or its failure is on record. -/
theorem gmTcpSegment_syn (valid : RxValid host.tcp) :
    ∃ ok after,
      gmTcpSegment
        { seq := host.tcp.seq, ack := 0, flags := gmTcpFlagSyn, payload := [] }
        host = (ok, after) ∧ Calm host after ∧
      (ok = false → FailedSend gmTcpFlagSyn host after) := by
  have calm := gmTcpSegment_control valid
    { seq := host.tcp.seq, ack := 0, flags := gmTcpFlagSyn, payload := [] } rfl
  obtain ⟨ok, count, sends, result⟩ := gmTcpSegment_effect
    { seq := host.tcp.seq, ack := 0, flags := gmTcpFlagSyn, payload := [] }
    host
  rw [result] at calm
  refine ⟨ok, _, result, calm, ?_⟩
  rintro rfl
  refine ⟨_, [_], ?_, rfl, List.mem_singleton_self _⟩
  simp only [GmSegment.has]
  decide

theorem gmTcpConnectLoop_effect (valid : RxValid host.tcp)
    (down : host.tcp.state ≠ .established) (start timeout fuel : Nat)
    (last : Int) (retry : Nat) :
    WaitEffect host (gmTcpConnectLoop start timeout fuel last retry host).2
      (gmTcpConnectLoop start timeout fuel last retry host).1 := by
  induction fuel generalizing host last retry with
  | zero => exact .give_up valid down
  | succ fuel induction =>
    unfold gmTcpConnectLoop
    split
    case isFalse => exact .give_up valid down
    simp only
    split
    · exact .give_up valid down
    generalize attempted : (if 50 ≤ (host.ticks : Int) - last then
      gmTcpSegment
        { seq := host.tcp.seq, ack := 0, flags := gmTcpFlagSyn,
          payload := [] } host
      else (true, host)) = attempt
    have asked : Calm host attempt.2 ∧
        (attempt.1 = false → FailedSend gmTcpFlagSyn host attempt.2) := by
      rw [← attempted]
      split
      · obtain ⟨ok, after, result, calm, failed⟩ := gmTcpSegment_syn valid
        rw [result]
        exact ⟨calm, failed⟩
      · exact ⟨.refl valid, by simp⟩
    obtain ⟨_ | _, sent⟩ := attempt
    · exact ⟨asked.1, by simp, fun _ => .inr (asked.2 rfl)⟩
    have pumped : Calm host (gmPump sent) :=
      asked.1.trans (gmPump_calm asked.1.valid)
    simp only
    split
    · rename_i up
      exact ⟨pumped, fun _ => up, by simp⟩
    rename_i pending
    split
    · exact .after_calm pumped (.give_up pumped.valid pending)
    · exact .after_calm pumped (induction pumped.valid pending _ _)

theorem gmTcpOpen_evolves (dst : List UInt8) (port : UInt16) (host : GmHost) :
    Evolves host (gmTcpOpen dst port host) :=
  .single ⟨by simp [gmTcpOpen, GmHost.record],
    by simp [gmTcpOpen, GmHost.record]⟩ rfl .opened

/-- `gm_tcp_connect` finds no way to the server, or tries. -/
inductive OpenEffect (timeout : Nat) (before after : GmHost) : Bool → Prop where
  | offline (unprepared : gmNetPrepare timeout before = (false, after))
      (calm : Calm before after) : OpenEffect timeout before after false
  | attempted {dst : List UInt8} {port : UInt16} {prepared : GmHost} {ok : Bool}
      (calm : Calm before prepared)
      (waited : WaitEffect (gmTcpOpen dst port prepared) after ok) :
      OpenEffect timeout before after ok

theorem gmTcpConnect_effect (valid : RxValid host.tcp) (dst : List UInt8)
    (port : UInt16) (timeout : Nat) :
    OpenEffect timeout host (gmTcpConnect dst port timeout host).2
      (gmTcpConnect dst port timeout host).1 := by
  have prepared := gmNetPrepare_calm valid timeout
  unfold gmTcpConnect
  generalize asked : gmNetPrepare timeout host = outcome at prepared ⊢
  obtain ⟨_ | _, middle⟩ := outcome
  · exact .offline asked prepared
  · have opened := gmTcpOpen_evolves dst port middle
    exact .attempted prepared
      (gmTcpConnectLoop_effect opened.valid (by simp [gmTcpOpen, GmHost.record])
        _ _ _ _ _)

/-- Closing a connection with nothing outstanding leaves it, unless the FIN
cannot be sent. -/
theorem gmTcpClose_effect (settled : host.tcp.unacked = []) :
    (gmTcpClose host).tcp.state ≠ .established ∨
      FailedSend gmTcpFlagFin host (gmTcpClose host) := by
  have noWait : gmTcpSettle host.ticks 100 100 host = host := by
    apply if_neg
    rintro ⟨outstanding, _⟩
    exact outstanding settled
  unfold gmTcpClose
  split
  · rename_i down
    exact .inl down
  simp only [noWait]
  rw [if_neg (not_not.mpr settled)]
  obtain ⟨ok, count, sends, result⟩ := gmTcpSegment_effect
    { seq := host.tcp.seq
      ack := host.tcp.ack
      flags := gmTcpFlagFin ||| gmTcpFlagAck
      payload := [] } host
  rw [result]
  cases ok with
  | false =>
    refine .inr ⟨_, [_], ?_, rfl, List.mem_singleton_self _⟩
    simp only [GmSegment.has]
    decide
  | true =>
    left
    simp [GmHost.setState]

theorem startConnect_evolves (host : GmHost) :
    Evolves host host.startConnect := by
  refine ⟨gmTcpDrop_valid _, [.connecting, .dropped host.tcp.buffered],
    List.append_assoc _ _ _, ?_⟩
  exact .cons .connecting (.single (.talk .dropped))

/-- The ways through `gm_store_connect`. -/
inductive ConnectEffect (before : GmHost) : GmHost → Bool → Prop where
  | offline {after : GmHost}
      (unprepared : gmNetPrepare 300 before.startConnect = (false, after))
      (calm : Calm before.startConnect after) :
      ConnectEffect before (after.record (.connected false)) false
  | refused {dst : List UInt8} {port : UInt16} {prepared after : GmHost}
      (calm : Calm before.startConnect prepared)
      (waited : WaitEffect (gmTcpOpen dst port prepared) after false) :
      ConnectEffect before (after.record (.connected false)) false
  | greeted {dst : List UInt8} {port : UInt16} {prepared up after : GmHost}
      {line : List UInt8}
      (calm : Calm before.startConnect prepared)
      (waited : WaitEffect (gmTcpOpen dst port prepared) up true)
      (found : LineEffect [] up after (some line))
      (greeting : gmStreq line gmGreeting = true) :
      ConnectEffect before (after.record (.connected true)) true
  | rejected {dst : List UInt8} {port : UInt16} {prepared up heard : GmHost}
      (calm : Calm before.startConnect prepared)
      (waited : WaitEffect (gmTcpOpen dst port prepared) up true)
      (listens : Listens up heard) :
      ConnectEffect before ((gmTcpClose heard).record (.connected false)) false

theorem gmStoreConnect_effect (host : GmHost) :
    ConnectEffect host (gmStoreConnect host).2 (gmStoreConnect host).1 := by
  have effect := gmTcpConnect_effect (startConnect_evolves host).valid
    host.config.storeIp host.config.storePort 300
  unfold gmStoreConnect
  generalize gmTcpConnect host.config.storeIp host.config.storePort 300
    host.startConnect = outcome at effect ⊢
  obtain ⟨_ | _, middle⟩ := outcome
  · cases effect with
    | offline unprepared calm => exact .offline unprepared calm
    | attempted calm waited => exact .refused calm waited
  · cases effect with
    | attempted calm waited =>
      have found := gmStoreWaitLine_effect waited.calm.valid 256 200
      simp only
      generalize gmStoreWaitLine 256 200 middle = outcome at found ⊢
      obtain ⟨_ | line, heard⟩ := outcome
      · obtain ⟨bytes, reads⟩ := found
        exact .rejected calm waited reads.listens
      · simp only [Option.map_some, Option.getD_some]
        split
        · rename_i greeting
          rw [greeting]
          exact .greeted calm waited found greeting
        · rename_i greeting
          obtain ⟨bytes, _, _, reads⟩ := found
          rw [Bool.not_eq_true] at greeting
          rw [greeting]
          exact .rejected calm waited reads.listens

theorem record_connected_evolves (valid : RxValid host.tcp) (ok : Bool) :
    Evolves host (host.record (.connected ok)) :=
  .single ⟨valid.head, valid.len⟩ rfl (.connected ok)

/-- Both halves of an attempt: up to the new connection, and after it. -/
theorem WaitEffect.evolves {before prepared after : GmHost} {dst : List UInt8}
    {port : UInt16} (calm : Calm before.startConnect prepared)
    (waited : WaitEffect (gmTcpOpen dst port prepared) after ok) :
    Evolves before after ∧ after.tcp.unacked = [] := by
  have started := (startConnect_evolves before).trans
    (Talks.evolves (Listens.talks (Calm.listens calm)))
  have opened := started.trans (gmTcpOpen_evolves dst port prepared)
  have listens : Listens (gmTcpOpen dst port prepared) after :=
    Calm.listens waited.calm
  exact ⟨opened.trans (Talks.evolves (Listens.talks listens)),
    listens.settled rfl⟩

theorem ConnectEffect.evolves {before after : GmHost}
    (effect : ConnectEffect before after ok) (resting : Resting before) :
    Evolves before after ∧ Resting after := by
  suffices both : Evolves before after ∧ after.tcp.unacked = [] from
    ⟨both.1, both.1.valid, both.1.consistent resting.consistent, both.2⟩
  cases effect with
  | offline unprepared calm =>
    have listens : Listens before.startConnect _ := Calm.listens calm
    have evolves := (startConnect_evolves before).trans
      (Talks.evolves (Listens.talks listens))
    exact ⟨evolves.trans (record_connected_evolves evolves.valid false),
      listens.settled resting.settled⟩
  | refused calm waited =>
    obtain ⟨evolves, settled⟩ := waited.evolves calm
    exact ⟨evolves.trans (record_connected_evolves evolves.valid false),
      settled⟩
  | greeted calm waited found greeting =>
    obtain ⟨evolves, settled⟩ := waited.evolves calm
    obtain ⟨bytes, _, _, reads⟩ := found
    have all := evolves.trans (Talks.evolves reads.listens.talks)
    exact ⟨all.trans (record_connected_evolves all.valid true),
      reads.listens.settled settled⟩
  | rejected calm waited listens =>
    obtain ⟨evolves, settled⟩ := waited.evolves calm
    have closing : Listens _ (gmTcpClose _) :=
      Calm.listens (gmTcpClose_calm listens.valid)
    have waits := Moves.trans listens closing
    have all := evolves.trans (Talks.evolves (Listens.talks waits))
    have quiet := Listens.settled waits settled
    exact ⟨all.trans (record_connected_evolves all.valid false), quiet⟩

/-! ## Whole sessions -/

theorem closedAt_resting (config : GmNetConfig) (env : GmNetEnv)
    (iss : UInt32) : Resting (closedAt config env iss) := by
  have valid : RxValid ({} : GmTcp) := ⟨by decide, by decide⟩
  refine ⟨⟨valid.head, valid.len⟩, ⟨rfl, rfl, fun _ => rfl, ?_, ?_⟩, rfl⟩
  · intro impossible
    cases impossible
  · intro impossible
    exact absurd rfl impossible

theorem gmKernelPoll_calm (valid : RxValid host.tcp) (input : GmPumpInput) :
    Calm host (gmKernelPoll input host) := by
  have polled := gmNetPoll_calm valid input.packets
  have moved := polled.trans (gmTcpPoll_calm polled.valid)
  exact moved.trans (.of_view moved.valid rfl rfl)

/-- The host a call or a session has reached, returned or not. -/
def reached : Except GmHost GmHost → GmHost
  | .ok host => host
  | .error host => host

theorem gmCall_evolves (resting : Resting host) (call : GmCall) :
    Evolves host (reached (gmCall call host)) ∧
      Resting (reached (gmCall call host)) := by
  cases call with
  | connect => exact (gmStoreConnect_effect host).evolves resting
  | op op =>
    have effect := gmStoreOp_effect resting op
    simp only [gmCall]
    generalize gmStoreOp op host = outcome at effect ⊢
    obtain ⟨_ | ok, after⟩ := outcome
    · exact ⟨effect.talks.evolves, effect.resting⟩
    · exact ⟨effect.talks.evolves, effect.resting⟩
  | send data timeout =>
    obtain ⟨talks, rested⟩ :=
      (gmTcpSend_effect resting data timeout).resting resting
    exact ⟨talks.evolves, rested⟩
  | poll input =>
    have calm : Calm host (gmKernelPoll input host) :=
      gmKernelPoll_calm resting.valid input
    exact ⟨calm.listens.talks.evolves, resting.listens calm.listens⟩

theorem gmSession_evolves (resting : Resting host) (calls : List GmCall) :
    Evolves host (reached (gmSession calls host)) ∧
      Resting (reached (gmSession calls host)) := by
  induction calls generalizing host with
  | nil => exact ⟨.refl resting.valid, resting⟩
  | cons call calls induction =>
    obtain ⟨evolves, rested⟩ := gmCall_evolves resting call
    simp only [gmSession, Foundation.runSteps]
    generalize gmCall call host = outcome at evolves rested ⊢
    cases outcome with
    | error inside => exact ⟨evolves, rested⟩
    | ok next =>
      obtain ⟨rest, final⟩ := induction rested
      exact ⟨evolves.trans rest, final⟩

theorem gmSession_resting {start host : GmHost} (resting : Resting start)
    {calls : List GmCall} (run : gmSession calls start = .ok host) :
    Resting host := by
  have final := (gmSession_evolves resting calls).2
  rw [run] at final
  exact final

/-- A server that greets and acknowledges five bytes. -/
def promptEnv : GmNetEnv :=
  { pumps := fun turn => List.getD
      [{ packets := [serverPacket 0x1000 0x474d0002 0x12 []] },
        { packets := [serverPacket 0x1001 0x474d0002 0x18
            (ascii "GMSTORE 2.0\n")] },
        { packets := [serverPacket 0x100d 0x474d0007 0x10 []] }]
      turn {} }

end Gmker.Net
