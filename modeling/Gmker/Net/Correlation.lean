import Gmker.Net.Session
import Mathlib.Data.List.Infix

/-!
# Requests and replies

The server answers each request once and in order, after any delay.  Requests
carry no identifier, so a call takes whatever arrives next for its reply.  That
is its own reply exactly when nothing is owed from before.
-/

namespace Gmker.Net

variable {before after : GmHost}

/-- The number of connections opened so far. -/
def opens (log : List GmNetEvent) : Nat :=
  log.countP fun event =>
    match event with
    | .opened _ => true
    | _ => false

/-- What the server sends to answer the first `count` requests. -/
def served (greeting : List UInt8) (reply : Nat → List UInt8) (count : Nat) :
    List UInt8 :=
  greeting ++ (List.range count).flatMap reply

/-- At every moment of the current connection, the client has received a
beginning of the greeting and the replies to what it has requested. -/
def ServedBy (greeting : List UInt8) (reply : Nat → List UInt8)
    (log : List GmNetEvent) : Prop :=
  ∀ early, early <+: log → opens early = opens log →
    (conversation early).accepted <+:
      served greeting reply (conversation early).requests.length

/-- Every request so far has been answered completely. -/
def NothingOwed (greeting : List UInt8) (reply : Nat → List UInt8)
    (log : List GmNetEvent) : Prop :=
  (conversation log).accepted =
    served greeting reply (conversation log).requests.length

/-- The bytes taken by reads. -/
def readBytes (events : List GmNetEvent) : List UInt8 :=
  events.flatMap fun event =>
    match event with
    | .read bytes => bytes
    | _ => []

/-! ## What a call reads -/

theorem ListenStep.consumed {conv : Conversation} {conn after : Connection}
    {event : GmNetEvent} (step : ListenStep conv conn event after) :
    (conv.step event).consumed = conv.consumed ++ readBytes [event] := by
  cases step with
  | read bytes rest split => simp [Conversation.step, readBytes]
  | calm step =>
    have quiet : readBytes [event] = [] := by
      cases step <;> rfl
    rw [quiet, List.append_nil]
    exact step.consumed

theorem Listens.consumed (listens : Listens before after) :
    ∃ events, after.log = before.log ++ events ∧
      (conversation after.log).consumed =
        (conversation before.log).consumed ++ readBytes events := by
  apply listens.log_invariant (fun log _ => ∃ events,
    log = before.log ++ events ∧ (conversation log).consumed =
      (conversation before.log).consumed ++ readBytes events)
  · rintro log conn event after step ⟨events, rfl, consumed⟩
    refine ⟨events ++ [event], by rw [List.append_assoc], ?_⟩
    rw [conversation_append]
    simp only [List.foldl_cons, List.foldl_nil, step.consumed, consumed]
    simp [readBytes]
  · exact ⟨[], by simp, by simp [readBytes]⟩

theorem Reads.events {bytes : List UInt8} (reads : Reads bytes before after) :
    ∃ events, after.log = before.log ++ events ∧ readBytes events = bytes := by
  obtain ⟨events, log, consumed⟩ := Listens.consumed reads.listens
  refine ⟨events, log, ?_⟩
  rw [reads.consumed] at consumed
  exact (List.append_cancel_left consumed).symm

theorem SendEffect.reads_nothing {data : List UInt8}
    (effect : SendEffect data before after true) :
    (conversation after.log).consumed = (conversation before.log).consumed ∧
      ∃ events, after.log = before.log ++ events ∧ readBytes events = [] := by
  cases effect with
  | sent handed waited settled up =>
    obtain ⟨segment, _, _, log⟩ := handed.sent
    have quiet := Calm.reads waited
    obtain ⟨events, later, nothing⟩ := quiet.events
    constructor
    · rw [quiet.consumed, log, conversation_append, List.append_nil]
      simp only [List.foldl_cons, List.foldl_nil, Conversation.step]
      split <;> rfl
    · refine ⟨.sent segment true :: events, ?_, ?_⟩
      · rw [later, log, List.append_assoc]
        rfl
      · simpa [readBytes] using nothing

theorem gmTcpDrop_conversation (host : GmHost) :
    conversation (gmTcpDrop host).log =
      { conversation host.log with
        consumed := (conversation host.log).consumed ++ host.tcp.buffered } := by
  simp only [gmTcpDrop, GmHost.record, conversation_append]
  rfl

/-- A successful operation adds its request, and reads on from everything that
was received before it. -/
theorem Exchange.account {request : List UInt8}
    (exchange : Exchange request before after) (resting : Resting before) :
    ∃ events, after.log = before.log ++ events ∧
      (conversation after.log).requests =
        (conversation before.log).requests ++ [request] ∧
      (conversation after.log).consumed =
        (conversation before.log).accepted ++ readBytes events ∧
      10 ∈ readBytes events := by
  obtain ⟨middle, bytes, send, reads, newline⟩ := exchange
  have dropped := gmTcpDrop_resting resting
  obtain ⟨_, rested⟩ := send.resting dropped
  obtain ⟨consumed, early, earlyLog, earlyReads⟩ := send.reads_nothing
  obtain ⟨late, lateLog, lateReads⟩ := reads.events
  have forgotten := gmTcpDrop_conversation before
  have taken : readBytes (.dropped before.tcp.buffered :: (early ++ late)) =
      bytes := by
    simp only [readBytes, List.flatMap_cons, List.flatMap_append,
      List.nil_append] at earlyReads lateReads ⊢
    rw [earlyReads, lateReads, List.nil_append]
  refine ⟨.dropped before.tcp.buffered :: (early ++ late), ?_, ?_, ?_, ?_⟩
  · rw [lateLog, earlyLog]
    simp [gmTcpDrop, GmHost.record]
  · rw [Listens.requests reads.listens rested.consistent,
      send.requests dropped, forgotten]
  · rw [taken, reads.consumed, consumed, forgotten]
    congr 1
    exact resting.consistent.bytes.symm
  · rw [taken]
    exact newline

/-! ## The reply of a call -/

theorem served_succ (greeting : List UInt8) (reply : Nat → List UInt8)
    (count : Nat) :
    served greeting reply (count + 1) =
      served greeting reply count ++ reply count := by
  simp [served, List.range_succ]

/-- In every session, a successful operation that starts with nothing owed has
sent its request, and what it read is a beginning of the reply to that very
request, first line included. -/
theorem gmStoreOp_reads_own_reply (config : GmNetConfig) (env : GmNetEnv)
    (calls : List GmCall) (host after : GmHost) (op : StoreOp)
    (greeting : List UInt8) (reply : Nat → List UInt8)
    (run : gmSession calls (gmTcpInit config env) = .ok host)
    (success : gmStoreOp op host = (some true, after))
    (server : ServedBy greeting reply after.log)
    (settled : NothingOwed greeting reply host.log) :
    ∃ events, after.log = host.log ++ events ∧
      (conversation after.log).requests =
        (conversation host.log).requests ++ [op.request] ∧
      readBytes events <+: reply (conversation host.log).requests.length ∧
      10 ∈ readBytes events := by
  have rested := gmSession_resting (closedAt_resting config env _) run
  have effect := gmStoreOp_effect rested op
  rw [success] at effect
  obtain ⟨events, log, requests, consumed, newline⟩ :=
    (effect.exchange rfl).account rested
  refine ⟨events, log, requests, ?_, newline⟩
  have answered := server after.log List.prefix_rfl rfl
  rw [requests, List.length_append, List.length_singleton, served_succ,
    ← settled, effect.resting.consistent.bytes, consumed,
    List.append_assoc] at answered
  have rest := (List.prefix_append_right_inj _).mp answered
  exact (List.prefix_append _ _).trans rest

instance (greeting : List UInt8) (reply : Nat → List UInt8)
    (log : List GmNetEvent) : Decidable (ServedBy greeting reply log) :=
  decidable_of_iff (∀ early ∈ log.inits, opens early = opens log →
    (conversation early).accepted <+:
      served greeting reply (conversation early).requests.length) <| by
    simp only [ServedBy, List.mem_inits]

instance (greeting : List UInt8) (reply : Nat → List UInt8)
    (log : List GmNetEvent) : Decidable (NothingOwed greeting reply log) :=
  inferInstanceAs (Decidable (_ = _))

/-- A session and one more operation that succeeds: the logs before and after
it. -/
def exchangeAgainst (env : GmNetEnv) (calls : List GmCall) (op : StoreOp) :
    Option (List GmNetEvent × List GmNetEvent) :=
  match gmSession calls (gmTcpInit {} env) with
  | .error _ => none
  | .ok host =>
    match gmStoreOp op host with
    | (some true, after) => some (host.log, after.log)
    | _ => none

theorem exchangeAgainst_some {env : GmNetEnv} {calls : List GmCall}
    {op : StoreOp} {before after : List GmNetEvent}
    (played : exchangeAgainst env calls op = some (before, after)) :
    ∃ host final, gmSession calls (gmTcpInit {} env) = .ok host ∧
      gmStoreOp op host = (some true, final) ∧ host.log = before ∧
      final.log = after := by
  unfold exchangeAgainst at played
  split at played
  · cases played
  rename_i host run
  split at played
  · rename_i final success
    cases played
    exact ⟨host, final, run, success, rfl, rfl⟩
  · cases played

/-- A server whose answer to the first request comes after the client has
stopped waiting for it.  The sizes of the two files are one and two. -/
def lateReplyEnv : GmNetEnv :=
  { pumps := fun turn => List.getD
      [{ packets := [serverPacket 0x1000 0x474d0002 0x12 []] },
        { packets := [serverPacket 0x1001 0x474d0002 0x18
            (ascii "GMSTORE 2.0\n")] },
        { packets := [serverPacket 0x100d 0x474d000a 0x10 []] },
        { idleTicks := 200 },
        { packets := [serverPacket 0x100d 0x474d0012 0x10 []] },
        { packets := [serverPacket 0x100d 0x474d0012 0x18 (ascii "OK 1\n")] }]
      turn {} }

/-- A server that answers both size requests at once. -/
def promptSizeEnv : GmNetEnv :=
  { pumps := fun turn =>
      if turn = 3 then
        { packets := [serverPacket 0x100d 0x474d000a 0x18 (ascii "OK 1\n")] }
      else if turn = 5 then
        { packets := [serverPacket 0x1012 0x474d0012 0x18 (ascii "OK 2\n")] }
      else lateReplyEnv.pumps turn }

def sizeReply : Nat → List UInt8
  | 0 => ascii "OK 1\n"
  | _ => ascii "OK 2\n"

/-- With a prompt server the second size is the reply to the second request. -/
theorem gmStoreOp_reads_own_reply_size :
    ∃ host after,
      gmSession [.connect, .op (.size (ascii "/a"))]
        (gmTcpInit {} promptSizeEnv) = .ok host ∧
      gmStoreOp (.size (ascii "/b")) host = (some true, after) ∧
      (conversation host.log).requests = [ascii "STAT /a\n"] ∧
      ∃ events, after.log = host.log ++ events ∧
        (conversation after.log).requests =
          (conversation host.log).requests ++ [ascii "STAT /b\n"] ∧
        readBytes events <+:
          sizeReply (conversation host.log).requests.length ∧
        10 ∈ readBytes events := by
  have outcome : (exchangeAgainst promptSizeEnv
      [.connect, .op (.size (ascii "/a"))] (.size (ascii "/b"))).any
      (fun (before, after) =>
        (conversation before).requests = [ascii "STAT /a\n"] ∧
        ServedBy (ascii "GMSTORE 2.0\n") sizeReply after ∧
        NothingOwed (ascii "GMSTORE 2.0\n") sizeReply before) = true := by
    decide +kernel
  obtain ⟨⟨before, after⟩, played, facts⟩ :=
    (Option.any_eq_true _ _).mp outcome
  obtain ⟨requests, server, settled⟩ := of_decide_eq_true facts
  obtain ⟨host, final, run, success, rfl, rfl⟩ := exchangeAgainst_some played
  exact ⟨host, final, run, success, requests,
    gmStoreOp_reads_own_reply {} promptSizeEnv _ host final _ _ sizeReply run
      success server settled⟩

/-- A size request that times out leaves its reply to be taken by the next
one: the client reads the size of the first file as that of the second. -/
theorem gmStoreOp_reads_late_reply :
    ∃ host after events,
      gmSession [.connect, .op (.size (ascii "/a"))]
        (gmTcpInit {} lateReplyEnv) = .ok host ∧
      gmStoreOp (.size (ascii "/b")) host = (some true, after) ∧
      ServedBy (ascii "GMSTORE 2.0\n") sizeReply after.log ∧
      (conversation after.log).requests =
        [ascii "STAT /a\n", ascii "STAT /b\n"] ∧
      after.log = host.log ++ events ∧ readBytes events = sizeReply 0 ∧
      ¬ readBytes events <+: sizeReply 1 := by
  have outcome : (exchangeAgainst lateReplyEnv
      [.connect, .op (.size (ascii "/a"))] (.size (ascii "/b"))).any
      (fun (before, after) =>
        ServedBy (ascii "GMSTORE 2.0\n") sizeReply after ∧
        (conversation after).requests =
          [ascii "STAT /a\n", ascii "STAT /b\n"] ∧
        after = before ++ after.drop before.length ∧
        readBytes (after.drop before.length) = sizeReply 0) = true := by
    decide +kernel
  obtain ⟨⟨before, after⟩, played, facts⟩ :=
    (Option.any_eq_true _ _).mp outcome
  obtain ⟨server, requests, log, taken⟩ := of_decide_eq_true facts
  obtain ⟨host, final, run, success, rfl, rfl⟩ := exchangeAgainst_some played
  refine ⟨host, final, _, run, success, server, requests, log, taken, ?_⟩
  rw [taken]
  decide

end Gmker.Net
