import Mathlib.Data.List.Induction
import Gmker.Foundation.SlotTable
import Gmker.Link.Arrivals

/-!
# The ARP table as a map

`gm_arp_put` writes a table of eight slots that `gm_arp_lookup` reads.  Over
every history of puts the table has each address once, with the hardware address
that was put last; an address is only lost when a ninth one needs its slot.
-/

namespace Gmker.Link

open Foundation Net

variable {net before after : GmNet} {ip : GmIp}

/-- The addresses in the table are distinct. -/
abbrev ArpDistinct (net : GmNet) : Prop := KeysDistinct GmArpEntry.ip net.arp

theorem GmNet.resolves_iff {slot : Fin gmArpMax} :
    net.resolves ip slot = true ↔
      ∃ entry, net.arp slot = some entry ∧ entry.ip = ip := by
  unfold GmNet.resolves
  cases net.arp slot with
  | none => simp
  | some entry => simp

theorem gmArpLookup_eq_none :
    gmArpLookup ip net = none ↔ Absent GmArpEntry.ip net.arp ip := by
  unfold gmArpLookup
  cases scan : (List.finRange gmArpMax).find? (net.resolves ip) with
  | none =>
    rw [List.find?_eq_none] at scan
    refine iff_of_true rfl ?_
    rintro entry ⟨slot, here⟩ same
    exact scan slot (List.mem_finRange slot)
      (GmNet.resolves_iff.mpr ⟨entry, here, same⟩)
  | some slot =>
    obtain ⟨entry, here, same⟩ :=
      GmNet.resolves_iff.mp (List.find?_some scan)
    refine iff_of_false ?_ fun absent => absent entry ⟨slot, here⟩ same
    simp [here]

theorem gmArpLookup_eq_some {mac : GmMac} (distinct : ArpDistinct net) :
    gmArpLookup ip net = some mac ↔ Held net.arp ⟨ip, mac⟩ := by
  have found : ∀ value, gmArpLookup ip net = some value →
      Held net.arp ⟨ip, value⟩ := by
    intro value
    unfold gmArpLookup
    cases scan : (List.finRange gmArpMax).find? (net.resolves ip) with
    | none => simp
    | some slot =>
      obtain ⟨entry, here, rfl⟩ :=
        GmNet.resolves_iff.mp (List.find?_some scan)
      intro same
      simp only [Option.bind_some, here, Option.map_some,
        Option.some.injEq] at same
      exact ⟨slot, by rw [here, ← same]⟩
  constructor
  · exact found mac
  · intro held
    cases looked : gmArpLookup ip net with
    | none => exact absurd rfl (gmArpLookup_eq_none.mp looked _ held)
    | some value =>
      have same := distinct.eq_of_held (found value looked) held rfl
      rw [GmArpEntry.mk.injEq] at same
      rw [same.2]

/-- `gm_arp_put` writes one slot of the table. -/
theorem gmArpPut_chosen (ip : GmIp) (mac : GmMac) (net : GmNet) :
    ∃ slot, Chosen GmArpEntry.ip net.arp ip slot ∧
      gmArpPut ip mac net =
        { net with arp := Function.update net.arp slot (some ⟨ip, mac⟩) } := by
  unfold gmArpPut
  cases scan : (List.finRange gmArpMax).find? (net.resolves ip) with
  | some slot =>
    obtain ⟨entry, here, same⟩ :=
      GmNet.resolves_iff.mp (List.find?_some scan)
    exact ⟨slot, .same entry here same, rfl⟩
  | none =>
    have absent : Absent GmArpEntry.ip net.arp ip := by
      rintro entry ⟨slot, here⟩ same
      rw [List.find?_eq_none] at scan
      exact scan slot (List.mem_finRange slot)
        (GmNet.resolves_iff.mpr ⟨entry, here, same⟩)
    cases spare : (List.finRange gmArpMax).find? fun slot =>
        (net.arp slot).isNone with
    | some slot =>
      have empty : (net.arp slot).isNone = true :=
        List.find?_some (p := fun slot => (net.arp slot).isNone) spare
      exact ⟨slot, .free absent (Option.isNone_iff_eq_none.mp empty), rfl⟩
    | none =>
      refine ⟨gmArpFirst, .evicts absent fun other empty => ?_, rfl⟩
      rw [List.find?_eq_none] at spare
      exact spare other (List.mem_finRange other)
        (Option.isNone_iff_eq_none.mpr empty)

/-! ## One put -/

/-- What `gm_arp_put` does to the lookups: its address is found, at most one
other address is lost, and none while there is room. -/
structure ArpPutEffect (put : GmArpEntry) (before after : GmNet) : Prop where
  own : gmArpLookup put.ip after = some put.mac
  others : ∃ lost, ∀ ip, ip ≠ put.ip → ip ≠ lost →
    gmArpLookup ip after = gmArpLookup ip before
  room : (∃ slot, before.arp slot = none) ∨ gmArpLookup put.ip before ≠ none →
    ∀ ip, ip ≠ put.ip → gmArpLookup ip after = gmArpLookup ip before

theorem gmArpPut_distinct (put : GmArpEntry) (distinct : ArpDistinct net) :
    ArpDistinct (gmArpPut put.ip put.mac net) := by
  obtain ⟨slot, chosen, written⟩ := gmArpPut_chosen put.ip put.mac net
  rw [written]
  exact chosen.distinct distinct

/-- Lookups are the same when the entries of an address are. -/
theorem gmArpLookup_congr (distinct : ArpDistinct before)
    (distinct' : ArpDistinct after)
    (same : ∀ mac, Held after.arp ⟨ip, mac⟩ ↔ Held before.arp ⟨ip, mac⟩) :
    gmArpLookup ip after = gmArpLookup ip before := by
  apply Option.ext
  intro mac
  rw [gmArpLookup_eq_some distinct', gmArpLookup_eq_some distinct]
  exact same mac

theorem gmArpPut_effect (put : GmArpEntry) (distinct : ArpDistinct net) :
    ArpPutEffect put net (gmArpPut put.ip put.mac net) := by
  have after := gmArpPut_distinct put distinct
  obtain ⟨slot, chosen, written⟩ := gmArpPut_chosen put.ip put.mac net
  rw [written] at after ⊢
  have before : ∀ ip mac, ip ≠ put.ip →
      Held (Function.update net.arp slot (some put)) ⟨ip, mac⟩ →
        Held net.arp ⟨ip, mac⟩ := by
    intro ip mac other held
    exact Chosen.held_before (show GmArpEntry.ip ⟨ip, mac⟩ ≠ put.ip from other)
      held
  refine ⟨?_, ?_, ?_⟩
  · rw [gmArpLookup_eq_some after]
    exact held_update.mpr (.inl rfl)
  · refine ⟨((net.arp slot).map GmArpEntry.ip).getD put.ip, ?_⟩
    intro ip other kept
    apply gmArpLookup_congr distinct after
    intro mac
    refine ⟨before ip mac other, fun held => held.survives ?_⟩
    intro here
    rw [here] at kept
    exact kept rfl
  · intro room ip other
    apply gmArpLookup_congr distinct after
    intro mac
    refine ⟨before ip mac other, fun held => chosen.spares ?_ held other⟩
    rw [← gmArpLookup_eq_none]
    exact room

/-! ## Histories of puts -/

/-- A sequence of calls of `gm_arp_put`. -/
def gmArpPuts (puts : List GmArpEntry) (net : GmNet) : GmNet :=
  puts.foldl (fun net put => gmArpPut put.ip put.mac net) net

/-- The hardware address of the most recent put for an address. -/
def lastPut (ip : GmIp) (puts : List GmArpEntry) : Option GmMac :=
  (puts.reverse.find? fun put => put.ip = ip).map GmArpEntry.mac

theorem gmArpPuts_append (puts : List GmArpEntry) (put : GmArpEntry)
    (net : GmNet) :
    gmArpPuts (puts ++ [put]) net =
      gmArpPut put.ip put.mac (gmArpPuts puts net) :=
  List.foldl_append

theorem lastPut_append_self (puts : List GmArpEntry) (put : GmArpEntry) :
    lastPut put.ip (puts ++ [put]) = some put.mac := by
  simp [lastPut]

theorem lastPut_append_of_ne (puts : List GmArpEntry) {put : GmArpEntry}
    (other : put.ip ≠ ip) : lastPut ip (puts ++ [put]) = lastPut ip puts := by
  simp [lastPut, other]

section History

variable {net : GmNet} (empty : ∀ slot, net.arp slot = none)
include empty

theorem gmArpPuts_distinct (puts : List GmArpEntry) :
    ArpDistinct (gmArpPuts puts net) := by
  induction puts using List.reverseRecOn with
  | nil =>
    intro left right first second here
    rw [show gmArpPuts [] net = net from rfl, empty left] at here
    cases here
  | append_singleton puts put induction =>
    rw [gmArpPuts_append]
    exact gmArpPut_distinct put induction

/-- Every entry is the most recent put of its address. -/
theorem gmArpPuts_held (puts : List GmArpEntry) {entry : GmArpEntry}
    (held : Held (gmArpPuts puts net).arp entry) :
    lastPut entry.ip puts = some entry.mac := by
  induction puts using List.reverseRecOn with
  | nil =>
    obtain ⟨slot, here⟩ := held
    rw [show gmArpPuts [] net = net from rfl, empty slot] at here
    cases here
  | append_singleton puts put induction =>
    rw [gmArpPuts_append] at held
    obtain ⟨slot, chosen, written⟩ :=
      gmArpPut_chosen put.ip put.mac (gmArpPuts puts net)
    rw [written] at held
    by_cases same : put.ip = entry.ip
    · have distinct : KeysDistinct GmArpEntry.ip (Function.update
          (gmArpPuts puts net).arp slot (some put)) :=
        chosen.distinct (gmArpPuts_distinct empty puts)
      obtain rfl := distinct.eq_of_held held (held_update.mpr (.inl rfl))
        same.symm
      exact lastPut_append_self puts entry
    · rw [lastPut_append_of_ne puts same]
      exact induction (Chosen.held_before (fun eq => same eq.symm) held)

theorem gmArpPuts_known (puts : List GmArpEntry) {entry : GmArpEntry}
    (held : Held (gmArpPuts puts net).arp entry) :
    entry.ip ∈ (puts.map GmArpEntry.ip).toFinset := by
  have last := gmArpPuts_held empty puts held
  unfold lastPut at last
  obtain ⟨put, found, -⟩ := Option.map_eq_some_iff.mp last
  have member := List.mem_reverse.mp (List.mem_of_find?_eq_some found)
  have same : put.ip = entry.ip := by
    simpa using List.find?_some found
  rw [List.mem_toFinset, ← same]
  exact List.mem_map_of_mem member

/-- With at most eight addresses none is lost. -/
theorem gmArpPuts_remembers (puts : List GmArpEntry)
    (few : (puts.map GmArpEntry.ip).toFinset.card ≤ gmArpMax)
    (put : ip ∈ puts.map GmArpEntry.ip) :
    gmArpLookup ip (gmArpPuts puts net) ≠ none := by
  induction puts using List.reverseRecOn generalizing ip with
  | nil => cases put
  | append_singleton puts last induction =>
    have distinct := gmArpPuts_distinct empty puts
    have effect := gmArpPut_effect last distinct
    rw [gmArpPuts_append]
    rw [List.map_append, List.toFinset_append] at few
    by_cases own : ip = last.ip
    · rw [own, effect.own]
      exact Option.some_ne_none _
    · have earlier : ip ∈ puts.map GmArpEntry.ip := by
        rw [List.map_append, List.mem_append] at put
        rcases put with earlier | here
        · exact earlier
        · exact absurd (List.mem_singleton.mp here) own
      have remembered : ∀ known ∈ puts.map GmArpEntry.ip,
          gmArpLookup known (gmArpPuts puts net) ≠ none := by
        intro known member
        apply induction _ member
        exact (Finset.card_le_card Finset.subset_union_left).trans few
      by_cases room : (∃ slot, (gmArpPuts puts net).arp slot = none) ∨
          gmArpLookup last.ip (gmArpPuts puts net) ≠ none
      · rw [effect.room room ip own]
        exact remembered ip earlier
      · -- a full table has eight of the addresses, and this would be a ninth
        rw [not_or, not_exists, not_not] at room
        have full := distinct.card_le room.1 _ fun entry held =>
          gmArpPuts_known empty puts held
        have ninth : last.ip ∉ (puts.map GmArpEntry.ip).toFinset := by
          intro member
          exact remembered last.ip (List.mem_toFinset.mp member) room.2
        have count : ((puts.map GmArpEntry.ip).toFinset ∪
            ([last].map GmArpEntry.ip).toFinset).card =
              (puts.map GmArpEntry.ip).toFinset.card + 1 := by
          rw [Finset.union_comm]
          exact Finset.card_insert_of_notMem ninth
        rw [Fintype.card_fin] at full
        omega

end History

/-- The ARP table after any history of puts that starts with an empty table:
each address is there once, lookups give the most recent put, one more put has
the stated effect, and up to eight addresses are all remembered. -/
theorem gmArpPuts_last_writer (puts : List GmArpEntry) (net : GmNet)
    (empty : ∀ slot, net.arp slot = none) :
    (∀ left right first second,
      (gmArpPuts puts net).arp left = some first →
      (gmArpPuts puts net).arp right = some second →
      first.ip = second.ip → left = right) ∧
    (∀ ip mac, gmArpLookup ip (gmArpPuts puts net) = some mac →
      lastPut ip puts = some mac) ∧
    (∀ put, ArpPutEffect put (gmArpPuts puts net)
      (gmArpPuts (puts ++ [put]) net)) ∧
    ((puts.map GmArpEntry.ip).toFinset.card ≤ gmArpMax →
      ∀ put ∈ puts, gmArpLookup put.ip (gmArpPuts puts net) ≠ none) := by
  have distinct := gmArpPuts_distinct empty puts
  refine ⟨distinct, ?_, ?_, ?_⟩
  · intro ip mac found
    exact gmArpPuts_held empty puts ((gmArpLookup_eq_some distinct).mp found)
  · intro put
    rw [gmArpPuts_append]
    exact gmArpPut_effect put distinct
  · intro few put member
    exact gmArpPuts_remembers empty puts few (List.mem_map_of_mem member)

/-- A neighbour and the last byte of its hardware address. -/
def neighbour (number mac : UInt8) : GmArpEntry :=
  ⟨loadIp [10, 0, 2, number] 0, loadMac [2, 0, 0, 0, 0, mac] 0⟩

/-- Eight neighbours fill the table, and one of them moves. -/
def neighbours : List GmArpEntry :=
  [neighbour 2 2, neighbour 3 3, neighbour 4 4, neighbour 5 5, neighbour 6 6,
    neighbour 7 7, neighbour 8 8, neighbour 9 9, neighbour 3 33]

/-- The one that moved is found where it is now, and a ninth neighbour takes the
place of the first. -/
theorem gmArpPuts_last_writer_init :
    let net := gmNetInit ⟨loadIp [10, 0, 2, 15] 0, loadIp [255, 255, 255, 0] 0,
      loadIp [10, 0, 2, 2] 0⟩ none fun _ => true
    let evicted := gmArpPuts (neighbours ++ [neighbour 10 10]) net
    (∀ put ∈ neighbours,
      gmArpLookup put.ip (gmArpPuts neighbours net) ≠ none) ∧
    lastPut (neighbour 3 3).ip neighbours = some (neighbour 3 33).mac ∧
    ArpPutEffect (neighbour 10 10) (gmArpPuts neighbours net) evicted ∧
    gmArpLookup (neighbour 2 2).ip evicted = none := by
  intro net evicted
  obtain ⟨_, held, effect, remembered⟩ :=
    gmArpPuts_last_writer neighbours net fun _ => rfl
  refine ⟨remembered (by decide +kernel), held _ _ ?_, effect _, ?_⟩
  · decide +kernel
  · decide +kernel

/-! ## Histories of frames -/

/-- The frame has a well-formed ARP packet with this sender. -/
def Announces (frame : List UInt8) (entry : GmArpEntry) : Prop :=
  ∃ packet, frameArp frame = some packet ∧ gmArpPacketSize ≤ packet.length ∧
    gmSwap16 (load16 packet 0) = 1 ∧ gmSwap16 (load16 packet 2) = gmEthIpv4 ∧
    packet.getD 4 0 = 6 ∧ packet.getD 5 0 = 4 ∧
    entry = ⟨loadIp packet 14, loadMac packet 8⟩

theorem gmArpPut_slot (ip : GmIp) (mac : GmMac) (net : GmNet)
    (slot : Fin gmArpMax) :
    (gmArpPut ip mac net).arp slot = net.arp slot ∨
      (gmArpPut ip mac net).arp slot = some ⟨ip, mac⟩ := by
  obtain ⟨chosen, -, written⟩ := gmArpPut_chosen ip mac net
  rw [written]
  by_cases here : slot = chosen
  · subst here
    exact .inr (Function.update_self ..)
  · exact .inl (Function.update_of_ne here ..)

/-- An ARP packet leaves a slot alone or writes its sender there. -/
theorem gmArpInput_slot {frame packet : List UInt8}
    (found : frameArp frame = some packet) (net : GmNet)
    (slot : Fin gmArpMax) :
    (gmArpInput packet net).arp slot = net.arp slot ∨
      ∃ entry ∈ (gmArpInput packet net).arp slot,
        Announces frame entry := by
  unfold gmArpInput
  split
  · exact .inl rfl
  · rename_i long
    split
    · exact .inl rfl
    · rename_i valid
      simp only [not_or, not_not] at valid
      refine Or.imp_right (fun new => ⟨_, new, packet, found,
        Nat.le_of_not_lt long, valid.1, valid.2.1, valid.2.2.1,
        valid.2.2.2, rfl⟩) ?_
      simp only
      split
      · rw [gmArpReply, (gmEthSend_only _ _ _ _).arp]
        exact gmArpPut_slot _ _ net slot
      · exact gmArpPut_slot _ _ net slot

/-- A slot of the table is set by frames that announce its entry. -/
def arpTracked (slot : Fin gmArpMax) : Tracked (Option GmArpEntry) where
  value net := net.arp slot
  Sets frame value := ∃ entry ∈ value, Announces frame entry
  Waiting _ := True
  step := by
    rintro frame before after - hears
    cases hears with
    | sends only => exact .inl (congrFun only.arp slot)
    | arp packet found => exact gmArpInput_slot found before slot
    | icmp datagram found kind =>
      exact .inl (congrFun (gmIcmpInput_kept _ _ before).2.2.2.2 slot)
    | udp datagram found kind =>
      exact .inl (congrFun (gmUdpInput_kept _ _ before).2.2.2 slot)
  kept _ _ := trivial
  sends only := congrFun only.arp slot
  offline _ := rfl

/-- However long the network runs, a slot of the table is empty or has what a
received ARP packet announced. -/
theorem gmPumps_announced (config : GmIpConfig) (device : Option GmMac)
    (linkOk : Nat → Bool) (station : GmStation) (count : Nat)
    (slot : Fin gmArpMax) :
    let start := station.withNet (gmNetInit config device linkOk)
    (gmPumps count start).net.arp slot = none ∨
      ∃ frame ∈ received count start,
        ∃ entry ∈ (gmPumps count start).net.arp slot, Announces frame entry :=
  (arpTracked slot).attributed count trivial

end Gmker.Link
