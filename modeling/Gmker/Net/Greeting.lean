import Gmker.Net.Session
import Mathlib.Data.List.Infix

/-!
# The greeting contract

Loader and services skip `gm_store_connect` whenever `gm_tcp_connected` holds,
so every established connection seen outside `gm_store_connect` must have
greeted.  The contract holds in every session whose connection attempts are
clean; a SYN that cannot be sent is enough to break it.
-/

namespace Gmker.Net

variable {before after host : GmHost}

/-- The first line is the greeting, up to a carriage return. -/
def GreetingLine (bytes : List UInt8) : Prop :=
  ∃ line rest, bytes = line ++ 10 :: rest ∧
    (line = gmGreeting ∨ line = gmGreeting ++ [13])

theorem GreetingLine.append {bytes : List UInt8} (line : GreetingLine bytes)
    (more : List UInt8) : GreetingLine (bytes ++ more) := by
  obtain ⟨first, rest, rfl, greeting⟩ := line
  exact ⟨first, rest ++ more, by simp, greeting⟩

/-- Outside `gm_store_connect`, an established connection has greeted and the
last attempt was not refused. -/
def SessionValid (conv : Conversation) : Prop :=
  conv.inside = false → conv.state = .established →
    GreetingLine conv.accepted ∧ conv.refused = false

/-- The contract together with what keeps it: no handshake is pending outside
`gm_store_connect`. -/
structure Guarded (conv : Conversation) : Prop where
  decided : conv.inside = false → conv.state ≠ .syn
  valid : SessionValid conv

namespace Guarded

variable {conv next : Conversation} {conn after : Connection}
  {event : GmNetEvent}

theorem of_inside (inside : conv.inside = true) : Guarded conv := by
  constructor
  · intro outside
    rw [inside] at outside
    cases outside
  · intro outside
    rw [inside] at outside
    cases outside

theorem frame (guarded : Guarded conv) (inside : next.inside = conv.inside)
    (state : next.state = conv.state)
    (accepted : ∃ more, next.accepted = conv.accepted ++ more)
    (refused : next.refused = conv.refused) : Guarded next := by
  obtain ⟨more, longer⟩ := accepted
  constructor
  · rw [inside, state]
    exact guarded.decided
  · intro outside up
    rw [inside] at outside
    rw [state] at up
    obtain ⟨line, notRefused⟩ := guarded.valid outside up
    rw [longer, refused]
    exact ⟨line.append more, notRefused⟩

theorem leave (state : GmTcpState) (notSyn : state ≠ .syn)
    (notUp : state ≠ .established) :
    Guarded (conv.step (.state state)) := by
  constructor
  · intro _
    exact notSyn
  · intro _ up
    exact absurd up notUp

theorem sent (guarded : Guarded conv) (segment : GmSegment) (ok : Bool) :
    Guarded (conv.step (.sent segment ok)) := by
  simp only [Conversation.step]
  split
  · exact guarded.frame rfl rfl ⟨[], by simp⟩ rfl
  · exact guarded

/-- Outside `gm_store_connect` no step on the connection establishes it. -/
theorem talk (guarded : Guarded conv) (consistent : Consistent conv conn)
    (step : TalkStep conv conn event after) : Guarded (conv.step event) := by
  cases step with
  | dropped => exact guarded.frame rfl rfl ⟨[], by simp [Conversation.step]⟩ rfl
  | handed segment up settled nonempty short seq => exact guarded.sent _ _
  | listen step =>
    cases step with
    | read bytes rest split =>
      exact guarded.frame rfl rfl ⟨[], by simp [Conversation.step]⟩ rfl
    | calm step =>
      cases step with
      | arrived segment =>
        exact guarded.frame rfl rfl ⟨[], by simp [Conversation.step]⟩ rfl
      | synAck segment syn answer =>
        exact guarded.frame rfl rfl ⟨[], by simp [Conversation.step]⟩ rfl
      | established segment syn heard answer =>
        apply of_inside
        by_contra outside
        exact guarded.decided (Bool.not_eq_true _ ▸ outside)
          (consistent.state.trans syn)
      | reset => exact leave .reset (by simp) (by simp)
      | closed down => exact leave .closed (by simp) (by simp)
      | finished => exact leave .closed (by simp) (by simp)
      | fin settled => exact leave .fin (by simp) (by simp)
      | control segment ok empty => exact guarded.sent _ _
      | again segment ok outstanding payload seq => exact guarded.sent _ _
      | failed segment settled => exact guarded.sent _ _
      | acked segment heard flag outstanding covers => exact guarded
      | accepted bytes => exact guarded.frame rfl rfl ⟨bytes, rfl⟩ rfl

end Guarded

/-- The contract at every moment of a log. -/
def Always (log : List GmNetEvent) : Prop :=
  ∀ early, early <+: log → Guarded (conversation early)

theorem Always.now {log : List GmNetEvent} (always : Always log) :
    Guarded (conversation log) :=
  always log List.prefix_rfl

theorem Always.snoc {log : List GmNetEvent} {event : GmNetEvent}
    (always : Always log) (next : Guarded ((conversation log).step event)) :
    Always (log ++ [event]) := by
  intro early isEarly
  rcases List.prefix_concat_iff.mp isEarly with rfl | older
  · rw [conversation_append]
    exact next
  · exact always early older

/-- The contract holds so far, and the connection agrees with its log. -/
structure Kept (log : List GmNetEvent) (conn : Connection) : Prop where
  consistent : Consistent (conversation log) conn
  always : Always log

theorem Talks.kept (talks : Talks before after)
    (kept : Kept before.log before.tcp.view) :
    Kept after.log after.tcp.view := by
  apply talks.log_invariant Kept _ kept
  intro log conn event after step kept
  refine ⟨?_, kept.always.snoc (kept.always.now.talk kept.consistent step)⟩
  rw [conversation_append]
  exact kept.consistent.talk step

/-! ## One attempt -/

/-- The contract inside `gm_store_connect`. -/
structure Attempting (log : List GmNetEvent) (conn : Connection) : Prop where
  kept : Kept log conn
  inside : (conversation log).inside = true

theorem TalkStep.inside {conv : Conversation} {conn after : Connection}
    {event : GmNetEvent} (step : TalkStep conv conn event after) :
    (conv.step event).inside = conv.inside := by
  have sent : ∀ segment ok,
      (conv.step (.sent segment ok)).inside = conv.inside := by
    intro segment ok
    simp only [Conversation.step]
    split <;> rfl
  cases step with
  | dropped => rfl
  | handed segment up settled nonempty short seq => exact sent _ _
  | listen step =>
    cases step with
    | read bytes rest split => rfl
    | calm step => cases step <;> first | exact sent _ _ | rfl

theorem Talks.attempting (talks : Talks before after)
    (attempting : Attempting before.log before.tcp.view) :
    Attempting after.log after.tcp.view := by
  refine ⟨talks.kept attempting.kept, ?_⟩
  exact talks.invariant (fun conv _ => conv.inside = true)
    (fun _ _ _ _ step inside => step.inside.trans inside) attempting.inside

theorem startConnect_attempting (kept : Kept host.log host.tcp.view) :
    Attempting host.startConnect.log host.startConnect.tcp.view := by
  have connecting : Attempting (host.record .connecting).log
      (host.record .connecting).tcp.view := by
    have inside : (conversation (host.log ++ [.connecting])).inside = true := by
      rw [conversation_append]
      rfl
    refine ⟨⟨?_, ?_⟩, inside⟩
    · simp only [GmHost.record, conversation_append]
      exact kept.consistent.step .connecting
    · exact kept.always.snoc (.of_inside rfl)
  exact (gmTcpDrop_talks _).attempting connecting

theorem gmTcpOpen_attempting (dst : List UInt8) (port : UInt16)
    (attempting : Attempting host.log host.tcp.view) :
    Attempting (gmTcpOpen dst port host).log
      (gmTcpOpen dst port host).tcp.view := by
  have inside : (conversation (gmTcpOpen dst port host).log).inside = true := by
    simp only [gmTcpOpen, GmHost.record, conversation_append]
    exact attempting.inside
  refine ⟨⟨?_, ?_⟩, inside⟩
  · exact (gmTcpOpen_evolves dst port host).consistent
      attempting.kept.consistent
  · apply attempting.kept.always.snoc
    exact .of_inside attempting.inside

/-- The end of an attempt: nothing is pending, and a connection that is up has
greeted and was accepted. -/
theorem Attempting.finish (attempting : Attempting host.log host.tcp.view)
    (ok : Bool) (decided : host.tcp.state ≠ .syn)
    (greeted : host.tcp.state = .established →
      GreetingLine (conversation host.log).accepted ∧ ok = true) :
    Kept (host.record (.connected ok)).log
      (host.record (.connected ok)).tcp.view := by
  have consistent := attempting.kept.consistent
  refine ⟨?_, ?_⟩
  · simp only [GmHost.record, conversation_append]
    exact consistent.step (.connected ok)
  · apply attempting.kept.always.snoc
    constructor
    · intro _
      change (conversation host.log).state ≠ .syn
      rw [consistent.state]
      exact decided
    · intro _ up
      change (conversation host.log).state = .established at up
      rw [consistent.state] at up
      obtain ⟨line, rfl⟩ := greeted up
      exact ⟨line, rfl⟩

theorem Listens.decided (listens : Listens before after)
    (decided : before.tcp.state ≠ .syn) : after.tcp.state ≠ .syn := by
  apply listens.invariant (fun _ conn => conn.state ≠ .syn) _ decided
  intro conv conn event after step decided
  cases step with
  | read bytes rest split => exact decided
  | calm step => cases step <;> first | exact decided | simp

/-- Only a pending handshake brings a connection up. -/
theorem Listens.down (listens : Listens before after)
    (decided : before.tcp.state ≠ .syn)
    (down : before.tcp.state ≠ .established) :
    after.tcp.state ≠ .established := by
  refine (listens.invariant (fun _ conn => conn.state ≠ .syn ∧
    conn.state ≠ .established) ?_ ⟨decided, down⟩).2
  intro conv conn event after step idle
  cases step with
  | read bytes rest split => exact idle
  | calm step =>
    cases step with
    | established segment syn heard answer => exact absurd syn idle.1
    | _ => first | exact idle | simp

/-- A line that ends up as the greeting was the greeting, up to a carriage
return. -/
theorem stripCr_eq {line greeting : List UInt8}
    (same : stripCr line = greeting) :
    line = greeting ∨ line = greeting ++ [13] := by
  unfold stripCr at same
  split at same
  · rename_i last
    right
    rw [← same]
    exact (List.dropLast_append_getLast? 13 last).symm
  · exact .inl same

theorem stripCr_isPrefix (line : List UInt8) : stripCr line <+: line := by
  unfold stripCr
  split
  · exact List.dropLast_prefix line
  · exact List.prefix_rfl

/-- The events of an attempt. -/
def connectEvents (host : GmHost) : List GmNetEvent :=
  (gmStoreConnect host).2.log.drop host.log.length

/-- The event is not a failed SYN or FIN. -/
def GmNetEvent.transmits : GmNetEvent → Bool
  | .sent segment false =>
    !segment.has gmTcpFlagSyn && !segment.has gmTcpFlagFin
  | _ => true

/-- An attempt in which every SYN and FIN leaves the machine, the first line of
the peer does not go on with a NUL behind the greeting, and the way to the
server is known if a connection is up. -/
structure CleanConnect (host : GmHost) : Prop where
  transmits : ∀ event ∈ connectEvents host, event.transmits = true
  whole : ¬ gmGreeting ++ [0] <+:
    (conversation (gmStoreConnect host).2.log).accepted
  online : host.tcp.state = .established →
    (gmNetPrepare 300 host.startConnect).1 = true

theorem CleanConnect.no_failure (clean : CleanConnect host) {flag : UInt8}
    (flags : flag = gmTcpFlagSyn ∨ flag = gmTcpFlagFin) :
    ¬ FailedSend flag host (gmStoreConnect host).2 := by
  rintro ⟨segment, events, carries, log, member⟩
  have inside : .sent segment false ∈ connectEvents host := by
    rw [connectEvents, log, List.drop_left]
    exact member
  have sent := clean.transmits _ inside
  simp only [GmNetEvent.transmits, Bool.and_eq_true, Bool.not_eq_true'] at sent
  rcases flags with rfl | rfl
  · rw [carries] at sent
    cases sent.1
  · rw [carries] at sent
    cases sent.2

/-- The contract between two calls. -/
structure Outside (host : GmHost) : Prop where
  resting : Resting host
  always : Always host.log
  inside : (conversation host.log).inside = false

theorem Outside.kept (outside : Outside host) : Kept host.log host.tcp.view :=
  ⟨outside.resting.consistent, outside.always⟩

theorem Outside.decided (outside : Outside host) : host.tcp.state ≠ .syn := by
  have decided := outside.always.now.decided outside.inside
  rw [outside.resting.consistent.state] at decided
  exact decided

/-- The attempt has reached a new connection. -/
theorem attempting_open {host prepared : GmHost} (outside : Outside host)
    (calm : Calm host.startConnect prepared) (dst : List UInt8)
    (port : UInt16) :
    Attempting (gmTcpOpen dst port prepared).log
        (gmTcpOpen dst port prepared).tcp.view ∧
      ∃ events, (gmTcpOpen dst port prepared).log = host.log ++ events := by
  have talks : Talks host.startConnect prepared :=
    Listens.talks (Calm.listens calm)
  have started := startConnect_attempting outside.kept
  refine ⟨gmTcpOpen_attempting dst port (talks.attempting started), ?_⟩
  have evolves := (startConnect_evolves host).trans
    (talks.evolves.trans (gmTcpOpen_evolves dst port prepared))
  exact evolves.grows

/-- What was read since the connection was opened is all that was consumed. -/
theorem consumed_since_open {dst : List UInt8} {port : UInt16}
    {prepared up after : GmHost} {bytes : List UInt8}
    (calm : Calm (gmTcpOpen dst port prepared) up)
    (reads : Reads bytes up after) :
    (conversation after.log).consumed = bytes := by
  have nothing : (conversation (gmTcpOpen dst port prepared).log).consumed =
      [] := by
    simp only [gmTcpOpen, GmHost.record, conversation_append]
    rfl
  rw [reads.consumed, (Calm.reads calm).consumed, nothing]
  rfl

theorem gmStoreConnect_always (outside : Outside host)
    (clean : CleanConnect host) : Always (gmStoreConnect host).2.log := by
  have effect := gmStoreConnect_effect host
  have noSyn := clean.no_failure (.inl rfl)
  have noFin := clean.no_failure (.inr rfl)
  have whole := clean.whole
  generalize gmStoreConnect host = outcome at effect noSyn noFin whole ⊢
  obtain ⟨ok, final⟩ := outcome
  cases effect with
  | offline unprepared calm =>
    have listens : Listens host.startConnect _ := Calm.listens calm
    have attempting := (Listens.talks listens).attempting
      (startConnect_attempting outside.kept)
    refine (attempting.finish false ?_ ?_).always
    · exact listens.decided outside.decided
    · intro up
      refine absurd up (listens.down outside.decided ?_)
      intro before
      have online := clean.online before
      rw [unprepared] at online
      cases online
  | @refused dst port prepared after calm waited =>
    obtain ⟨opened, early⟩ := attempting_open outside calm dst port
    have closed : after.tcp.state = .closed := by
      rcases waited.down rfl with closed | failed
      · exact closed
      · exact absurd (failed.extend early ⟨[_], rfl⟩) noSyn
    have attempting := (Listens.talks (Calm.listens waited.calm)).attempting
      opened
    refine (attempting.finish false ?_ ?_).always
    · simp [closed]
    · simp [closed]
  | @greeted dst port prepared up after line calm waited found greeting =>
    obtain ⟨opened, _⟩ := attempting_open outside calm dst port
    obtain ⟨bytes, stripped, _, reads⟩ := found
    have attempting := (Listens.talks reads.listens).attempting
      ((Listens.talks (Calm.listens waited.calm)).attempting opened)
    have consumed := consumed_since_open waited.calm reads
    have accepted : (conversation after.log).accepted =
        bytes ++ 10 :: after.tcp.buffered := by
      rw [attempting.kept.consistent.bytes, consumed]
      simp [GmTcp.view]
    have greets : line = gmGreeting := by
      refine (gmStreq_cases (by decide) greeting).resolve_right fun longer => ?_
      apply whole
      change _ <+: (conversation (after.log ++ [.connected true])).accepted
      rw [conversation_append]
      change _ <+: (conversation after.log).accepted
      rw [accepted]
      rw [stripped] at longer
      exact longer.trans ((stripCr_isPrefix _).trans (List.prefix_append _ _))
    refine (attempting.finish true ?_ ?_).always
    · apply reads.listens.decided
      simp [waited.up rfl]
    · intro _
      exact ⟨⟨bytes, after.tcp.buffered, accepted,
        stripCr_eq (stripped.symm.trans greets)⟩, rfl⟩
  | @rejected dst port prepared up heard calm waited listens =>
    obtain ⟨opened, early⟩ := attempting_open outside calm dst port
    have wait := Listens.talks (Calm.listens waited.calm)
    have attempting := (Listens.talks listens).attempting
      (wait.attempting opened)
    have settled : heard.tcp.unacked = [] := by
      have opening : (gmTcpOpen dst port prepared).tcp.unacked = [] := rfl
      exact listens.settled (Listens.settled (Calm.listens waited.calm) opening)
    have closing : Listens heard (gmTcpClose heard) :=
      Calm.listens (gmTcpClose_calm listens.valid)
    have down : (gmTcpClose heard).tcp.state ≠ .established := by
      rcases gmTcpClose_effect settled with down | failed
      · exact down
      · obtain ⟨front, frontLog⟩ := early
        obtain ⟨middle, middleLog⟩ := wait.grows
        obtain ⟨back, backLog⟩ := listens.grows
        refine absurd (failed.extend ⟨front ++ (middle ++ back), ?_⟩
          ⟨[_], rfl⟩) noFin
        simp only [backLog, middleLog, frontLog, List.append_assoc]
    refine ((Listens.talks closing).attempting attempting |>.finish false ?_
      ?_).always
    · apply closing.decided
      apply listens.decided
      simp [waited.up rfl]
    · intro upAgain
      exact absurd upAgain down

/-! ## Whole sessions -/

/-- Every attempt of a session is clean. -/
def CleanSession : List GmCall → GmHost → Prop
  | [], _ => True
  | call :: calls, host =>
    (call = .connect → CleanConnect host) ∧
      ∀ next, gmCall call host = .ok next → CleanSession calls next

theorem ConnectEffect.outside {ok : Bool}
    (effect : ConnectEffect before after ok) :
    (conversation after.log).inside = false := by
  cases effect <;> simp only [GmHost.record, conversation_append] <;> rfl

theorem Talks.outside (talks : Talks before after) (rested : Resting after)
    (outside : Outside before) : Outside after := by
  refine ⟨rested, (talks.kept outside.kept).always, ?_⟩
  exact talks.invariant (fun conv _ => conv.inside = false)
    (fun _ _ _ _ step inside => step.inside.trans inside) outside.inside

theorem gmCall_outside (outside : Outside host) (call : GmCall)
    (clean : call = .connect → CleanConnect host) :
    Outside (reached (gmCall call host)) := by
  have rested := (gmCall_evolves outside.resting call).2
  cases call with
  | connect =>
    exact ⟨rested, gmStoreConnect_always outside (clean rfl),
      (gmStoreConnect_effect host).outside⟩
  | op op =>
    have effect := gmStoreOp_effect outside.resting op
    simp only [gmCall] at rested ⊢
    generalize gmStoreOp op host = outcome at effect rested ⊢
    obtain ⟨_ | ok, after⟩ := outcome
    · exact effect.talks.outside rested outside
    · exact effect.talks.outside rested outside
  | send data timeout =>
    have talks :=
      ((gmTcpSend_effect outside.resting data timeout).resting
        outside.resting).1
    exact talks.outside rested outside
  | poll input =>
    have calm : Calm host (gmKernelPoll input host) :=
      gmKernelPoll_calm outside.resting.valid input
    exact calm.listens.talks.outside rested outside

theorem gmSession_outside (outside : Outside host) (calls : List GmCall)
    (clean : CleanSession calls host) :
    Outside (reached (gmSession calls host)) := by
  induction calls generalizing host with
  | nil => exact outside
  | cons call calls induction =>
    have next := gmCall_outside outside call clean.1
    have rest := clean.2
    simp only [gmSession, Foundation.runSteps]
    generalize gmCall call host = outcome at next rest ⊢
    cases outcome with
    | error inside => exact next
    | ok after => exact induction next (rest after rfl)

theorem gmTcpInit_outside (config : GmNetConfig) (env : GmNetEnv) :
    Outside (gmTcpInit config env) := by
  refine ⟨closedAt_resting config env _, ?_, rfl⟩
  intro early isEarly
  obtain rfl := List.prefix_nil.mp isEarly
  constructor
  · intro _ impossible
    cases impossible
  · intro _ impossible
    cases impossible

/-- In every session whose attempts are clean, at every moment of it: a
connection that is up outside `gm_store_connect` has greeted, and is not up
after a refused attempt. -/
theorem gmSession_valid (config : GmNetConfig) (env : GmNetEnv)
    (calls : List GmCall)
    (clean : CleanSession calls (gmTcpInit config env)) :
    (∀ early,
      early <+: (reached (gmSession calls (gmTcpInit config env))).log →
      SessionValid (conversation early)) ∧
    gmTcpConnected (reached (gmSession calls (gmTcpInit config env))) =
      decide ((conversation
        (reached (gmSession calls (gmTcpInit config env))).log).state =
          .established) := by
  have outside := gmSession_outside (gmTcpInit_outside config env) calls clean
  constructor
  · intro early isEarly
    exact (outside.always early isEarly).valid
  · rw [outside.resting.consistent.state]
    rfl

theorem gmSession_valid_greeted :
    gmTcpConnected
        (reached (gmSession [.connect] (gmTcpInit {} promptEnv))) = true ∧
      ∀ early,
        early <+: (reached (gmSession [.connect] (gmTcpInit {} promptEnv))).log →
        SessionValid (conversation early) := by
  have clean : CleanSession [.connect] (gmTcpInit {} promptEnv) :=
    ⟨fun _ => ⟨by decide +kernel, by decide +kernel, by decide +kernel⟩,
      fun _ _ => trivial⟩
  exact ⟨by decide +kernel, (gmSession_valid {} promptEnv [.connect] clean).1⟩

/-- The first transmission fails, later ones succeed. -/
def failedSynEnv : GmNetEnv := { sendOk := fun count => count != 0 }

/-- A SYN that is not sent leaves the handshake pending, so a SYN-ACK that
arrives after `gm_store_connect` returned zero establishes a connection that
never greeted. -/
theorem gmSession_never_greeted :
    ∃ host,
      gmSession
        [.connect,
          .poll { packets := [serverPacket 0x1000 0x474d0002 0x12 []] }]
        (gmTcpInit {} failedSynEnv) = .ok host ∧
      gmTcpConnected host = true ∧
      ¬ SessionValid (conversation host.log) := by
  refine ⟨_, rfl, by decide +kernel, ?_⟩
  intro valid
  have accepted := (valid (by decide +kernel) (by decide +kernel)).2
  revert accepted
  decide +kernel

end Gmker.Net
