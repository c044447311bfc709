import Gmker.Net.Traces

/-!
# The handshake

`gm_tcp_connect` chooses an initial sequence number and repeats its SYN until
the answer arrives.  `gm_tcp_seq` moves on before the handshake ACK is known
to have left, and a SYN that cannot be sent ends the call in the middle, so
the promise of the handshake holds as long as the link takes what is sent in
state SYN and no FIN follows the SYN-ACK in the same poll.
-/

namespace Gmker.Net

variable {host before : GmHost} {packet : GmPacket} {segment : GmSegment}
  {isn : UInt32}

/-! ## The trace of `gm_tcp_connect` -/

/-- The SYN of the waiting loop. -/
def GmTcp.synSegment (tcp : GmTcp) : GmSegment :=
  { seq := tcp.seq, ack := 0, flags := gmTcpFlagSyn, payload := [] }

/-- The hosts of the waiting loop of `gm_tcp_connect`. -/
def gmTcpConnectLoopTrace (start timeout : Nat) :
    Nat → Int → Nat → GmHost → List GmMoment
  | 0, _, _, host => [{ host := host }, { host := host.setState .closed }]
  | fuel + 1, last, retry, host =>
    { host := host } ::
    if host.ticks - start < timeout then
      let resend := 50 ≤ (host.ticks : Int) - last
      if resend ∧ 5 ≤ retry then [{ host := host.setState .closed }]
      else
        let attempt : Bool × GmHost :=
          if resend then gmTcpSegment host.tcp.synSegment host
          else (true, host)
        match attempt with
        | (false, host) => [{ host := host }]
        | (true, sent) =>
          let last := if resend then (sent.ticks : Int) else last
          let retry := if resend then retry + 1 else retry
          let host := gmPump sent
          gmPumpTrace sent ++
          if host.tcp.state = .established then [{ host := host }]
          else if host.tcp.state = .reset then
            [{ host := host.setState .closed }]
          else gmTcpConnectLoopTrace start timeout fuel last retry host
    else [{ host := host.setState .closed }]

/-- The hosts of `gm_tcp_connect` from the choice of the initial sequence
number on. -/
def gmTcpConnectWaitTrace (dst : List UInt8) (port : UInt16) (timeout : Nat)
    (host : GmHost) : List GmMoment :=
  match gmNetPrepare timeout host with
  | (false, _) => []
  | (true, host) =>
    let host := gmTcpOpen dst port host
    gmTcpConnectLoopTrace host.ticks timeout timeout
      ((host.ticks : Int) - timeout) 0 host

/-- The hosts of `gm_tcp_connect`. -/
def gmTcpConnectTrace (dst : List UInt8) (port : UInt16) (timeout : Nat)
    (host : GmHost) : List GmMoment :=
  { host := host } :: gmNetPrepareTrace timeout host ++
    gmTcpConnectWaitTrace dst port timeout host

/-- The trace of the waiting loop ends with what the loop returns. -/
theorem gmTcpConnectLoopTrace_ends (start timeout fuel : Nat) (last : Int)
    (retry : Nat) (host : GmHost) :
    EndsAt (gmTcpConnectLoopTrace start timeout fuel last retry host)
      (gmTcpConnectLoop start timeout fuel last retry host).2 := by
  induction fuel generalizing host last retry with
  | zero => exact ⟨[{ host := host }], rfl⟩
  | succ fuel inductionHypothesis =>
    unfold gmTcpConnectLoopTrace gmTcpConnectLoop
    apply EndsAt.cons
    split
    case isFalse => exact .single _
    dsimp only
    split
    · exact .single _
    rw [GmTcp.synSegment]
    generalize (if 50 ≤ (host.ticks : Int) - last then
      gmTcpSegment
        { seq := host.tcp.seq, ack := 0, flags := gmTcpFlagSyn,
          payload := [] } host
      else (true, host)) = attempt
    rcases attempt with ⟨ok, sent⟩
    cases ok with
    | false => exact .single sent
    | true =>
      apply EndsAt.append
      dsimp only
      by_cases up : (gmPump sent).tcp.state = .established
      · rw [if_pos up, if_pos up]
        exact .single _
      rw [if_neg up, if_neg up]
      by_cases down : (gmPump sent).tcp.state = .reset
      · rw [if_pos down, if_pos down]
        exact .single _
      · rw [if_neg down, if_neg down]
        exact inductionHypothesis _ _ _

theorem gmTcpConnectTrace_ends (dst : List UInt8) (port : UInt16)
    (timeout : Nat) (host : GmHost) :
    EndsAt (gmTcpConnectTrace dst port timeout host)
      (gmTcpConnect dst port timeout host).2 := by
  unfold gmTcpConnectTrace gmTcpConnectWaitTrace gmTcpConnect
  have prepared := gmNetPrepareTrace_ends timeout host
  cases result : gmNetPrepare timeout host with
  | mk ready next =>
    rw [result] at prepared
    cases ready with
    | false =>
      rw [List.append_nil]
      exact prepared.cons
    | true => exact (gmTcpConnectLoopTrace_ends _ _ _ _ _ _).append

/-- A property that the pieces of `gm_tcp_connect` keep. -/
structure CarriedConnect (Holds : GmHost → Prop) : Prop where
  carried : Carried (fun _ => True) Holds
  syn : ∀ {host : GmHost}, Holds host →
    Holds (gmTcpSegment host.tcp.synSegment host).2
  close : ∀ {host : GmHost}, Holds host → host.tcp.state ≠ .established →
    Holds (host.setState .closed)

namespace CarriedConnect

variable {Holds : GmHost → Prop}

/-- The SYN of one turn, if it is due. -/
theorem attempt (rule : CarriedConnect Holds) (holds : Holds host)
    (resend : Prop) [Decidable resend] :
    Holds (if resend then gmTcpSegment host.tcp.synSegment host
      else (true, host)).2 := by
  split
  · exact rule.syn holds
  · exact holds

theorem loop (rule : CarriedConnect Holds) (start timeout fuel : Nat)
    (last : Int) (retry : Nat) (holds : Holds host)
    (down : host.tcp.state ≠ .established) :
    Throughout Holds
      (gmTcpConnectLoopTrace start timeout fuel last retry host) := by
  induction fuel generalizing host last retry with
  | zero => exact .cons holds (.single (rule.close holds down))
  | succ fuel inductionHypothesis =>
    have closed := rule.close holds down
    unfold gmTcpConnectLoopTrace
    refine .cons holds ?_
    split
    case isFalse => exact .single closed
    dsimp only
    split
    · exact .single closed
    have attempted := rule.attempt holds (50 ≤ (host.ticks : Int) - last)
    generalize (if 50 ≤ (host.ticks : Int) - last then
      gmTcpSegment host.tcp.synSegment host
      else (true, host)) = attempt at attempted ⊢
    rcases attempt with ⟨ok, sent⟩
    cases ok with
    | false => exact .single attempted
    | true =>
      obtain ⟨pumped, next⟩ :=
        rule.carried.pump attempted (fun _ _ => trivial)
      refine pumped.append ?_
      split
      · exact .single next
      rename_i up
      split
      · exact .single (rule.close next up)
      · exact inductionHypothesis _ _ next up

theorem connect (rule : CarriedConnect Holds) (dst : List UInt8) (port : UInt16)
    (timeout : Nat) (holds : Holds host)
    (opened : ∀ {host : GmHost}, Holds host → Holds (gmTcpOpen dst port host)) :
    Throughout Holds (gmTcpConnectTrace dst port timeout host) := by
  have ready := rule.carried.prepared timeout holds
  unfold gmTcpConnectTrace gmTcpConnectWaitTrace
  refine .append (.cons holds (rule.carried.prepare timeout holds)) ?_
  generalize gmNetPrepare timeout host = result at ready
  obtain ⟨_ | _, next⟩ := result
  · exact fun _ member => absurd member List.not_mem_nil
  · exact rule.loop next.ticks timeout timeout
      ((next.ticks : Int) - timeout) 0 (opened ready)
      (by simp [gmTcpOpen, GmHost.record])

end CarriedConnect

/-! ## The promise -/

/-- In state SYN the sequence number is the initial one. -/
def SynSeq (isn : UInt32) (host : GmHost) : Prop :=
  host.tcp.state = .syn → host.tcp.seq = isn

/-- A SYN carries the initial sequence number. -/
def SynCarries (isn : UInt32) (segment : GmSegment) : Prop :=
  segment.has gmTcpFlagSyn = true → segment.seq = isn

/-- What a run of `gm_tcp_connect` owes to the initial sequence number. -/
structure HandshakeKept (isn : UInt32) (before : GmHost)
    (trace : List GmMoment) (result : Bool × GmHost) : Prop where
  seq : Throughout (SynSeq isn) trace
  syns : Emits (SynCarries isn) before result.2
  completes : Throughout (fun host => host.tcp.state = .syn →
    ∀ packet segment, host.decodes packet segment →
      segment.has gmTcpFlagRst = false → segment.isSynAck →
      segment.ack = isn + 1 →
      (gmTcpInput packet host).tcp.state = .established) trace
  refused : result.1 = false → result.2.tcp.state ≠ .syn

/-- The packet taken next is a valid segment with FIN. -/
def GmMoment.bringsFin (moment : GmMoment) : Bool :=
  match moment.packet with
  | none => false
  | some packet =>
    match gmTcpDecode moment.host.tcp.dst moment.host.config.ip
        moment.host.tcp.dstPort moment.host.tcp.srcPort packet.src
        packet.data with
    | none => false
    | some segment => segment.has gmTcpFlagFin

/-- The link takes the next packet of a host in state SYN, and no FIN meets
the connection while `gm_tcp_connect` still polls. -/
def Granted (moment : GmMoment) : Prop :=
  (moment.host.tcp.state = .syn →
      moment.host.env.sendOk moment.host.sends = true) ∧
    (moment.host.tcp.state = .established → moment.bringsFin = false)

instance (moment : GmMoment) : Decidable (Granted moment) :=
  inferInstanceAs (Decidable (_ ∧ _))

theorem Granted.noFin
    (granted : Granted { host := host, packet := some packet })
    (up : host.tcp.state = .established) (decoded : host.decodes packet segment) :
    segment.has gmTcpFlagFin = false := by
  have quiet := granted.2 up
  unfold GmMoment.bringsFin at quiet
  dsimp only at quiet
  rw [decoded] at quiet
  exact quiet

/-! ## One segment in the handshake -/

theorem gmTcpSegment_accepted (empty : segment.payload = [])
    (accepted : host.env.sendOk host.sends = true) :
    (gmTcpSegment segment host).1 = true := by
  have short : (gmTcpPacket host.config.ip host.tcp.dst host.tcp.srcPort
      host.tcp.dstPort segment).length ≤ 20 := by
    simp [gmTcpPacket, gmTcpBytes, store16, store32, empty]
  have fits : ¬ gmNetMtu < gmTcpHeaderSize + segment.payload.length := by
    rw [empty]
    decide
  have room : ¬ gmNetMtu < (gmTcpPacket host.config.ip host.tcp.dst
      host.tcp.srcPort host.tcp.dstPort segment).length +
        gmIpv4HeaderSize := by
    simp only [gmNetMtu, gmIpv4HeaderSize]
    omega
  unfold gmTcpSegment gmIpv4Send
  rw [if_neg fits, if_neg room, accepted]

/-- The states a granted wait passes through. -/
def Shaking (isn : UInt32) (host : GmHost) : Prop :=
  (host.tcp.state = .syn ∧ host.tcp.seq = isn) ∨
    host.tcp.state = .established ∨ host.tcp.state = .reset

/-- The right SYN-ACK completes the handshake if its answer can be sent. -/
theorem gmTcpHandshake_completes (accepted : host.env.sendOk host.sends = true)
    (answer : segment.ack = host.tcp.seq + 1) :
    (gmTcpHandshake segment host).tcp.state = .established := by
  have sent : (gmTcpSegment (host.synchronize segment).tcp.ackSegment
      (host.synchronize segment)).1 = true :=
    gmTcpSegment_accepted rfl accepted
  rw [gmTcpHandshake_eq, if_neg (not_not_intro answer)]
  cases result : gmTcpSegment (host.synchronize segment).tcp.ackSegment
      (host.synchronize segment) with
  | mk ok after =>
    rw [result] at sent
    cases sent
    rfl

theorem gmTcpHandle_syn (syn : host.tcp.state = .syn)
    (noReset : segment.has gmTcpFlagRst = false) (synAck : segment.isSynAck) :
    gmTcpHandle segment host =
      gmTcpHandshake segment (host.hear segment) := by
  rw [gmTcpHandle_eq, if_neg (by simp [noReset]), if_pos ⟨syn, synAck⟩]

theorem Granted.completes {moment : GmMoment} (granted : Granted moment)
    (syn : moment.host.tcp.state = .syn) (seq : moment.host.tcp.seq = isn)
    (decoded : moment.host.decodes packet segment)
    (noReset : segment.has gmTcpFlagRst = false) (synAck : segment.isSynAck)
    (answer : segment.ack = isn + 1) :
    (gmTcpInput packet moment.host).tcp.state = .established := by
  rw [gmTcpInput_decoded decoded, gmTcpHandle_syn syn noReset synAck]
  refine gmTcpHandshake_completes (granted.1 syn) ?_
  rw [answer, ← seq]
  rfl

theorem Shaking.handle_syn (syn : host.tcp.state = .syn)
    (seq : host.tcp.seq = isn) (accepted : host.env.sendOk host.sends = true) :
    Shaking isn (gmTcpHandle segment host) := by
  rw [gmTcpHandle_eq]
  split
  · exact .inr (.inr rfl)
  split
  · by_cases answer : segment.ack = (host.hear segment).tcp.seq + 1
    · exact .inr (.inl (gmTcpHandshake_completes accepted answer))
    · rw [gmTcpHandshake_eq, if_pos answer]
      exact .inl ⟨syn, seq⟩
  split
  · exact .inl ⟨syn, seq⟩
  · rename_i live
    simp [syn] at live

theorem Shaking.handle_established (up : host.tcp.state = .established)
    (noFin : segment.has gmTcpFlagFin = false) :
    Shaking isn (gmTcpHandle segment host) := by
  by_cases reset : segment.has gmTcpFlagRst = true
  · rw [gmTcpHandle_eq, if_pos reset]
    exact .inr (.inr rfl)
  · rw [gmTcpHandle_live (by simpa using reset) (.inl up), gmTcpFinish,
      if_neg (by simp [noFin])]
    refine .inr (.inl ?_)
    have same := (hear_same host segment).trans
      (gmTcpAcknowledge_same segment (host.hear segment))
    rw [(gmTcpReceive_effect _ _).2.1, same.state]
    exact up

theorem Shaking.handle_reset (down : host.tcp.state = .reset) :
    Shaking isn (gmTcpHandle segment host) := by
  refine .inr (.inr ?_)
  rw [gmTcpHandle_eq]
  split
  · rfl
  rw [if_neg (by simp [down]), if_pos (by simp [down])]
  exact down

theorem Shaking.input
    (granted : Granted { host := host, packet := some packet })
    (shaking : Shaking isn host) : Shaking isn (gmTcpInput packet host) := by
  cases decoded : gmTcpDecode host.tcp.dst host.config.ip host.tcp.dstPort
      host.tcp.srcPort packet.src packet.data with
  | none =>
    unfold gmTcpInput
    rw [decoded]
    exact shaking
  | some segment =>
    rw [gmTcpInput_decoded decoded]
    rcases shaking with ⟨syn, seq⟩ | up | down
    · exact .handle_syn syn seq (granted.1 syn)
    · exact .handle_established up (granted.noFin up decoded)
    · exact .handle_reset down

theorem Shaking.poll (shaking : Shaking isn host) :
    Shaking isn (gmTcpPoll host) := by
  rw [gmTcpPoll_eq]
  split
  · exact shaking
  split
  · exact shaking
  split
  · exact .inr (.inr rfl)
  · rename_i live _ _
    have up : host.tcp.state = .established := by
      by_contra down
      exact live (.inl down)
    exact .inr (.inl ((gmTcpSegment_same _ host.retry).state.trans up))

/-! ## The waiting loop -/

theorem SynCarries.of_ack (isn : UInt32) (segment : GmSegment)
    (isAck : segment.isAck) : SynCarries isn segment := by
  intro carries
  rw [GmSegment.has, isAck.1] at carries
  exact absurd carries (by decide)

theorem SynCarries.of_push (isn : UInt32) (segment : GmSegment)
    (isPush : segment.isPush) : SynCarries isn segment := by
  intro carries
  rw [GmSegment.has, isPush] at carries
  exact absurd carries (by decide)

theorem gmTcpInput_synCarries (isn : UInt32) (packet : GmPacket)
    (host : GmHost) :
    Emits (SynCarries isn) host (gmTcpInput packet host) :=
  (gmTcpInput_emits packet host).mono (SynCarries.of_ack isn)

theorem gmTcpPoll_synCarries (isn : UInt32) (host : GmHost) :
    Emits (SynCarries isn) host (gmTcpPoll host) :=
  (gmTcpPoll_emits host).mono (SynCarries.of_push isn)

/-- What a granted wait keeps while it pumps. -/
theorem shaking_carried (isn : UInt32) (before : GmHost) :
    Carried Granted
      (fun host => Shaking isn host ∧ Emits (SynCarries isn) before host) := by
  constructor
  · intro old new holds sameTcp sameLog
    refine ⟨?_, holds.2.trans (.of_log sameLog)⟩
    unfold Shaking
    rw [sameTcp]
    exact holds.1
  · intro host packet granted holds
    exact ⟨holds.1.input granted,
      holds.2.trans (gmTcpInput_synCarries isn packet host)⟩
  · intro host holds
    exact ⟨holds.1.poll, holds.2.trans (gmTcpPoll_synCarries isn host)⟩

theorem Shaking.synSeq (shaking : Shaking isn host) : SynSeq isn host := by
  intro syn
  rcases shaking with ⟨_, seq⟩ | up | down
  · exact seq
  · rw [up] at syn
    cases syn
  · rw [down] at syn
    cases syn

/-- What a granted wait achieves. -/
structure WaitKept (isn : UInt32) (before : GmHost) (trace : List GmMoment)
    (result : Bool × GmHost) : Prop where
  seq : Throughout (SynSeq isn) trace
  syns : Emits (SynCarries isn) before result.2
  refused : result.1 = false → result.2.tcp.state ≠ .syn

theorem WaitKept.give_up (syns : Emits (SynCarries isn) before host) :
    WaitKept isn before [{ host := host.setState .closed }]
      (false, host.setState .closed) := by
  refine ⟨.single ?_, syns.trans (.silent rfl (by simp)), ?_⟩
  · intro syn
    cases syn
  · intro _ syn
    cases syn

theorem WaitKept.cons {late : List GmMoment} {result : Bool × GmHost}
    (first : SynSeq isn host) (rest : WaitKept isn before late result) :
    WaitKept isn before ({ host := host } :: late) result :=
  ⟨.cons first rest.seq, rest.syns, rest.refused⟩

theorem WaitKept.after {early late : List GmMoment} {result : Bool × GmHost}
    (first : Throughout (SynSeq isn) early)
    (rest : WaitKept isn before late result) :
    WaitKept isn before (early ++ late) result :=
  ⟨first.append rest.seq, rest.syns, rest.refused⟩

/-- A granted SYN leaves, with the initial sequence number. -/
theorem gmTcpSegment_granted_syn (syn : host.tcp.state = .syn)
    (seq : host.tcp.seq = isn) (syns : Emits (SynCarries isn) before host)
    (granted : Granted { host := host }) (resend : Prop) [Decidable resend] :
    ∃ sent,
      (if resend then gmTcpSegment host.tcp.synSegment host
        else (true, host)) = (true, sent) ∧
      Shaking isn sent ∧ Emits (SynCarries isn) before sent := by
  by_cases again : resend
  · have left := gmTcpSegment_accepted
      (show host.tcp.synSegment.payload = [] from rfl) (granted.1 syn)
    have same := gmTcpSegment_same host.tcp.synSegment host
    refine ⟨(gmTcpSegment host.tcp.synSegment host).2, ?_, ?_, ?_⟩
    · rw [if_pos again]
      exact Prod.ext left rfl
    · exact .inl ⟨same.state.trans syn, same.seq.trans seq⟩
    · exact syns.trans (gmTcpSegment_emits _ (fun _ => seq) host)
  · exact ⟨host, if_neg again, .inl ⟨syn, seq⟩, syns⟩

theorem gmTcpConnectLoop_kept (start timeout fuel : Nat) (last : Int)
    (retry : Nat) (syn : host.tcp.state = .syn) (seq : host.tcp.seq = isn)
    (syns : Emits (SynCarries isn) before host)
    (granted : ∀ moment ∈
      gmTcpConnectLoopTrace start timeout fuel last retry host,
      Granted moment) :
    WaitKept isn before
      (gmTcpConnectLoopTrace start timeout fuel last retry host)
      (gmTcpConnectLoop start timeout fuel last retry host) := by
  induction fuel generalizing host last retry with
  | zero => exact .cons (fun _ => seq) (.give_up syns)
  | succ fuel inductionHypothesis =>
    unfold gmTcpConnectLoopTrace at granted
    have atHead := granted _ List.mem_cons_self
    replace granted := fun moment member =>
      granted moment (List.mem_cons_of_mem _ member)
    unfold gmTcpConnectLoopTrace gmTcpConnectLoop
    refine .cons (fun _ => seq) ?_
    by_cases waits : host.ticks - start < timeout
    case neg =>
      rw [if_neg waits, if_neg waits]
      exact .give_up syns
    rw [if_pos waits] at granted
    rw [if_pos waits, if_pos waits]
    dsimp only at granted ⊢
    by_cases spent : 50 ≤ (host.ticks : Int) - last ∧ 5 ≤ retry
    · rw [if_pos spent, if_pos spent]
      exact .give_up syns
    rw [if_neg spent] at granted
    rw [if_neg spent, if_neg spent]
    obtain ⟨sent, attempt, shaking, sentSyns⟩ :=
      gmTcpSegment_granted_syn syn seq syns atHead
        (50 ≤ (host.ticks : Int) - last)
    rw [attempt] at granted
    rw [GmTcp.synSegment] at attempt
    rw [GmTcp.synSegment, attempt]
    dsimp only at granted ⊢
    -- the head of the next turn is what the pump leaves behind
    obtain ⟨pumped, after, afterSyns⟩ :=
      (shaking_carried isn before).pump ⟨shaking, sentSyns⟩
        (fun moment member => granted moment (List.mem_append_left _ member))
    replace granted := fun moment member =>
      granted moment (List.mem_append_right _ member)
    refine .after (fun moment member => (pumped moment member).1.synSeq) ?_
    rcases after with ⟨stillSyn, stillSeq⟩ | up | down
    · have notUp : (gmPump sent).tcp.state ≠ .established := by
        simp [stillSyn]
      have notReset : (gmPump sent).tcp.state ≠ .reset := by
        simp [stillSyn]
      rw [if_neg notUp, if_neg notReset] at granted
      rw [if_neg notUp, if_neg notReset, if_neg notUp, if_neg notReset]
      exact inductionHypothesis _ _ stillSyn stillSeq afterSyns granted
    · rw [if_pos up, if_pos up]
      refine ⟨.single ?_, afterSyns, fun refused => by cases refused⟩
      intro syn
      rw [up] at syn
      cases syn
    · have notUp : (gmPump sent).tcp.state ≠ .established := by
        simp [down]
      rw [if_neg notUp, if_pos down, if_neg notUp, if_pos down]
      exact .give_up afterSyns

/-! ## The whole call -/

/-- The next initial sequence number is the business of `gm_tcp_connect`
alone. -/
theorem gmTcpInput_nextSeq (packet : GmPacket) (host : GmHost) :
    (gmTcpInput packet host).tcp.nextSeq = host.tcp.nextSeq := by
  refine gmTcpInput_keeps (fun after => after.tcp.nextSeq = _) packet rfl
    fun move kept => ?_
  cases move <;> exact kept

theorem gmTcpPoll_nextSeq (host : GmHost) :
    (gmTcpPoll host).tcp.nextSeq = host.tcp.nextSeq := by
  rw [gmTcpPoll_eq]
  split
  · rfl
  split
  · rfl
  split
  · rfl
  · exact (gmTcpSegment_same _ host.retry).nextSeq

theorem gmTcpInput_notSyn (packet : GmPacket) (notSyn : host.tcp.state ≠ .syn) :
    (gmTcpInput packet host).tcp.state ≠ .syn := by
  refine gmTcpInput_keeps (fun after => after.tcp.state ≠ .syn) packet notSyn
    fun move kept => ?_
  cases move <;> first | exact kept | exact nofun

theorem gmTcpPoll_notSyn (notSyn : host.tcp.state ≠ .syn) :
    (gmTcpPoll host).tcp.state ≠ .syn := by
  rw [gmTcpPoll_eq]
  split
  · exact notSyn
  split
  · exact notSyn
  split
  · simp [gmTcpAbandon, GmHost.setState]
  · rw [(gmTcpSegment_same _ host.retry).state]
    exact notSyn

/-- What the wait for the next hop keeps. -/
structure Unopened (isn : UInt32) (before host : GmHost) : Prop where
  notSyn : host.tcp.state ≠ .syn
  nextSeq : host.tcp.nextSeq = isn
  syns : Emits (SynCarries isn) before host

theorem unopened_carried (isn : UInt32) (before : GmHost) :
    Carried (fun _ => True) (Unopened isn before) := by
  constructor
  · intro old new holds sameTcp sameLog
    exact ⟨sameTcp ▸ holds.notSyn, sameTcp ▸ holds.nextSeq,
      holds.syns.trans (.of_log sameLog)⟩
  · intro host packet _ holds
    exact ⟨gmTcpInput_notSyn packet holds.notSyn,
      (gmTcpInput_nextSeq packet host).trans holds.nextSeq,
      holds.syns.trans (gmTcpInput_synCarries isn packet host)⟩
  · intro host holds
    exact ⟨gmTcpPoll_notSyn holds.notSyn,
      (gmTcpPoll_nextSeq host).trans holds.nextSeq,
      holds.syns.trans (gmTcpPoll_synCarries isn host)⟩

/-- From the choice of the number on. -/
theorem gmTcpConnect_wait_kept {dst : List UInt8} {port : UInt16}
    {timeout : Nat} (fresh : host.tcp.state ≠ .syn)
    (granted : ∀ moment ∈ gmTcpConnectWaitTrace dst port timeout host,
      Granted moment) :
    WaitKept host.tcp.nextSeq host
      (gmTcpConnectWaitTrace dst port timeout host)
      (gmTcpConnect dst port timeout host) := by
  have prepared := (unopened_carried host.tcp.nextSeq host).prepared timeout
    ⟨fresh, rfl, .refl host⟩
  unfold gmTcpConnectWaitTrace at granted
  unfold gmTcpConnectWaitTrace gmTcpConnect
  cases result : gmNetPrepare timeout host with
  | mk ready next =>
    rw [result] at prepared granted
    cases ready with
    | false =>
      exact ⟨fun _ member => absurd member List.not_mem_nil,
        prepared.syns, fun _ => prepared.notSyn⟩
    | true =>
      exact gmTcpConnectLoop_kept _ _ _ _ _ rfl prepared.nextSeq
        (prepared.syns.trans (.silent rfl (by simp))) granted

/-- In a run of `gm_tcp_connect` whose SYNs and handshake ACKs are taken by the
link, and whose polls see no FIN after the SYN-ACK, the initial sequence number
governs the whole handshake. -/
theorem gmTcpConnect_handshake_kept (dst : List UInt8) (port : UInt16)
    (timeout : Nat) (host : GmHost) (fresh : host.tcp.state ≠ .syn)
    (granted : ∀ moment ∈ gmTcpConnectWaitTrace dst port timeout host,
      Granted moment) :
    HandshakeKept host.tcp.nextSeq host
      (gmTcpConnectTrace dst port timeout host)
      (gmTcpConnect dst port timeout host) := by
  have wait := gmTcpConnect_wait_kept fresh granted
  have prepared := (unopened_carried host.tcp.nextSeq host).prepare timeout
    ⟨fresh, rfl, .refl host⟩
  have early : Throughout (fun host => host.tcp.state ≠ .syn)
      ({ host := host } :: gmNetPrepareTrace timeout host) :=
    .cons fresh (fun moment member => (prepared moment member).notSyn)
  refine ⟨?_, wait.syns, ?_, wait.refused⟩
  · intro moment member syn
    rcases List.mem_append.1 member with isEarly | isLate
    · exact absurd syn (early moment isEarly)
    · exact wait.seq moment isLate syn
  · intro moment member syn packet segment decoded noReset synAck answer
    rcases List.mem_append.1 member with isEarly | isLate
    · exact absurd syn (early moment isEarly)
    · exact (granted moment isLate).completes syn
        (wait.seq moment isLate syn) decoded noReset synAck answer

/-! ## Where the promise fails -/

/-- A client before its first connect, with a given network. -/
def clientWith (env : GmNetEnv) : GmHost :=
  { env := env }

/-- The server repeats its SYN-ACK with every poll. -/
def answeringEnv : GmNetEnv :=
  { pumps := fun _ => { packets := [synAckPacket] } }

/-- The link refuses one packet. -/
def GmNetEnv.refusing (env : GmNetEnv) (packet : Nat) : GmNetEnv :=
  { env with sendOk := fun count => count != packet }

/-- The server closes right behind its SYN-ACK. -/
def hastyEnv : GmNetEnv :=
  { pumps := fun turn =>
      if turn = 0 then
        { packets := [synAckPacket, serverPacket 0x1001 0x474d0002 0x11 []] }
      else {} }

/-- The outcome of `gm_tcp_connect` with a timeout of sixty ticks. -/
def connectThrough (env : GmNetEnv) : Bool × GmHost :=
  gmTcpConnect [10, 0, 2, 2] 7070 60 (clientWith env)

def connectTraceThrough (env : GmNetEnv) : List GmMoment :=
  gmTcpConnectTrace [10, 0, 2, 2] 7070 60 (clientWith env)

theorem gmTcpConnect_handshake_kept_answered :
    (connectThrough answeringEnv).1 = true ∧
      HandshakeKept 0x474d0001 (clientWith answeringEnv)
        (connectTraceThrough answeringEnv) (connectThrough answeringEnv) :=
  ⟨by decide +kernel,
    gmTcpConnect_handshake_kept [10, 0, 2, 2] 7070 60
      (clientWith answeringEnv) (by decide) (by decide +kernel)⟩

/-- A refused handshake ACK moves `gm_tcp_seq` on in state SYN, a refused SYN
ends the call in state SYN, and after a FIN in the poll of the SYN-ACK the next
SYN carries another number. -/
theorem gmTcpConnect_handshake_broken :
    ¬ HandshakeKept 0x474d0001 (clientWith (answeringEnv.refusing 1))
        (connectTraceThrough (answeringEnv.refusing 1))
        (connectThrough (answeringEnv.refusing 1)) ∧
      ¬ HandshakeKept 0x474d0001 (clientWith (answeringEnv.refusing 0))
        (connectTraceThrough (answeringEnv.refusing 0))
        (connectThrough (answeringEnv.refusing 0)) ∧
      ¬ HandshakeKept 0x474d0001 (clientWith hastyEnv)
        (connectTraceThrough hastyEnv) (connectThrough hastyEnv) := by
  refine ⟨?_, ?_, ?_⟩
  · intro kept
    have moved : ¬ ∀ moment ∈ connectTraceThrough (answeringEnv.refusing 1),
        moment.host.tcp.state = .syn →
          moment.host.tcp.seq = 0x474d0001 := by
      decide +kernel
    exact moved kept.seq
  · intro kept
    exact absurd (by decide +kernel) (kept.refused (by decide +kernel))
  · rintro ⟨_, ⟨events, log, kinds⟩, _, _⟩
    have sent : .sent ⟨0x474d0002, 0, gmTcpFlagSyn, []⟩ true ∈ events := by
      have whole : events = (connectThrough hastyEnv).2.log := log.symm
      rw [whole]
      decide +kernel
    exact absurd (kinds _ _ sent (by decide)) (by decide)

end Gmker.Net
