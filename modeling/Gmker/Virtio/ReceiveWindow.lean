import Mathlib.Data.List.Nodup
import Mathlib.Data.List.Range
import Gmker.Virtio.Turns

/-!
# The outstanding entries of the RX available ring

`gm_virtio_net_poll` puts the identifier it reads from a used entry back into
the available ring, in the very cell of the entry that has just been used up.
The eight cells therefore stay distinct as long as every used entry names the
descriptor of that cell, and the range check alone does not make sure of that.
-/

namespace Gmker.Virtio

open Foundation

variable {nic : GmVirtio}

/-- The entries at the positions `last_used` to `avail.idx - 1`, modulo
`2 ^ 16`. -/
def gmRxOutstanding (nic : GmVirtio) : List UInt16 :=
  ringContents gmVirtioQueueSize nic.driver.rx.avail.ring
    nic.driver.rx.lastUsed.toNat
    (nic.driver.rx.avail.idx - nic.driver.rx.lastUsed).toNat

/-- Eight outstanding entries name eight distinct descriptors. -/
structure RxIntact (nic : GmVirtio) : Prop where
  eight : (gmRxOutstanding nic).length = gmVirtioQueueSize
  distinct : (gmRxOutstanding nic).Nodup
  descriptors : ∀ entry ∈ gmRxOutstanding nic,
    entry.toNat < gmVirtioQueueSize

/-- A used entry is out of range, or it names the descriptor that stands at
position `last_used` of the available ring when the entry is taken. -/
def namesOldest : GmVirtioEvent → Bool
  | .rxUsed id _ oldest =>
    decide (gmVirtioQueueSize ≤ id.toNat) || id.toNat == oldest.toNat
  | _ => true

/-- Every used entry the driver took was out of range or named the oldest
outstanding descriptor. -/
def UsedInOrder (history : List GmVirtioEvent) : Prop :=
  history.all namesOldest = true

theorem UsedInOrder.of_append {history events : List GmVirtioEvent}
    (inOrder : UsedInOrder (history ++ events)) : UsedInOrder history := by
  unfold UsedInOrder at inOrder ⊢
  rw [List.all_append, Bool.and_eq_true] at inOrder
  exact inOrder.1

theorem UsedInOrder.last {history : List GmVirtioEvent} {id bytes : UInt32}
    {oldest : UInt16}
    (inOrder : UsedInOrder (history ++ [.rxUsed id bytes oldest]))
    (within : id.toNat < gmVirtioQueueSize) : id.toNat = oldest.toNat := by
  unfold UsedInOrder at inOrder
  rw [List.all_append, Bool.and_eq_true] at inOrder
  have named := inOrder.2
  have inside : ¬ gmVirtioQueueSize ≤ id.toNat := Nat.not_le.mpr within
  simpa [namesOldest, inside] using named

/-- The available ring as the initialisation leaves it, and eight entries
ahead of the used ones. -/
structure RxFull (nic : GmVirtio) : Prop where
  gap : nic.driver.rx.avail.idx - nic.driver.rx.lastUsed = 8
  ring : ∀ position, position < gmVirtioQueueSize →
    nic.driver.rx.avail.ring position = UInt16.ofNat position

theorem RxFull.intact (full : RxFull nic) : RxIntact nic := by
  have eight : gmRxOutstanding nic =
      ringContents gmVirtioQueueSize UInt16.ofNat
        nic.driver.rx.lastUsed.toNat gmVirtioQueueSize := by
    rw [gmRxOutstanding, full.gap]
    apply ringContents_congr
    intro offset _
    exact full.ring _ (Nat.mod_lt _ (by decide))
  have small : ∀ offset,
      (UInt16.ofNat ((nic.driver.rx.lastUsed.toNat + offset) %
        gmVirtioQueueSize)).toNat =
      (nic.driver.rx.lastUsed.toNat + offset) % gmVirtioQueueSize := by
    intro offset
    rw [UInt16.toNat_ofNat']
    apply Nat.mod_eq_of_lt
    have below := Nat.mod_lt (nic.driver.rx.lastUsed.toNat + offset)
      (show 0 < gmVirtioQueueSize by decide)
    have size : gmVirtioQueueSize = 8 := rfl
    omega
  refine ⟨?_, ?_, ?_⟩
  · rw [eight, ringContents_length]
  · rw [eight, ringContents]
    refine List.Nodup.map_on ?_ List.nodup_range
    intro near nearIn far farIn same
    have nearBelow := List.mem_range.mp nearIn
    have farBelow := List.mem_range.mp farIn
    have cells := congrArg UInt16.toNat same
    rw [small, small] at cells
    by_contra different
    rcases Nat.lt_or_gt_of_ne different with before | after
    · exact ringIndex_ne before (by omega) cells
    · exact ringIndex_ne after (by omega) cells.symm
  · rw [eight]
    intro entry member
    obtain ⟨offset, _, rfl⟩ := List.mem_map.mp member
    rw [small]
    exact Nat.mod_lt _ (by decide)

/-- While the driver is online and every used entry named the oldest
descriptor, the ring is full. -/
def RxKept (nic : GmVirtio) : Prop :=
  UsedInOrder nic.history → nic.driver.ready = true → RxFull nic

theorem RxKept.carry {before after : GmVirtio} {events : List GmVirtioEvent}
    (kept : RxKept before) (rx : after.driver.rx = before.driver.rx)
    (ready : after.driver.ready = true → before.driver.ready = true)
    (history : after.history = before.history ++ events) : RxKept after := by
  intro inOrder online
  rw [history] at inOrder
  have full := kept inOrder.of_append (ready online)
  exact ⟨by rw [rx]; exact full.gap, by rw [rx]; exact full.ring⟩

theorem rxKept_rule (device : GmDevice) : RxRule device RxKept where
  turn nic kept := by
    obtain ⟨events, extended, _⟩ := (turn_turned device nic).history
    exact kept.carry (by simp) (by simp) extended
  same before after same kept := by
    obtain ⟨events, extended, _⟩ := same.history
    exact kept.carry same.rx same.ready extended

theorem rxKept_record (kept : RxKept nic) (event : GmVirtioEvent) :
    RxKept (nic.record event) :=
  kept.carry rfl (fun stays => stays) rfl

/-- Between taking a used entry and posting its descriptor again. -/
def RxTaken (slot : GmDesc) (nic : GmVirtio) : Prop :=
  UsedInOrder nic.history → nic.driver.ready = true →
    nic.driver.rx.avail.idx - nic.driver.rx.lastUsed = 7 ∧
    (∀ position, position < gmVirtioQueueSize →
      nic.driver.rx.avail.ring position = UInt16.ofNat position) ∧
    nic.driver.rx.avail.idx.toNat % gmVirtioQueueSize = slot.val

theorem RxTaken.carry {slot : GmDesc} {before after : GmVirtio}
    {events : List GmVirtioEvent} (taken : RxTaken slot before)
    (driver : after.driver = before.driver)
    (history : after.history = before.history ++ events) :
    RxTaken slot after := by
  intro inOrder online
  rw [history] at inOrder
  rw [driver] at online ⊢
  exact taken inOrder.of_append online

/-- The cell at `avail.idx` is the cell of the entry just used up. -/
theorem RxKept.advance (kept : RxKept nic) {id : UInt32} (bytes : UInt32)
    (within : id.toNat < gmVirtioQueueSize) :
    RxTaken ⟨id.toNat, within⟩ (gmRxAdvance id bytes nic) := by
  intro inOrder online
  have full := kept inOrder.of_append online
  have named := inOrder.last within
  have gap := full.gap
  have cell : nic.driver.rx.avail.idx.toNat % gmVirtioQueueSize =
      gmRxPosition nic := by
    have size : gmVirtioQueueSize = 8 := rfl
    have ahead : nic.driver.rx.avail.idx = nic.driver.rx.lastUsed + 8 := by
      grind
    rw [ahead, gmRxPosition, UInt16.toNat_add, size]
    have eight : (8 : UInt16).toNat = 8 := rfl
    rw [eight]
    omega
  refine ⟨?_, full.ring, ?_⟩
  · simp only [gmRxAdvance, GmVirtio.record]
    grind
  · have position : gmRxPosition nic < gmVirtioQueueSize :=
      Nat.mod_lt _ (by decide)
    rw [full.ring _ position, UInt16.toNat_ofNat'] at named
    simp only [gmRxAdvance, GmVirtio.record]
    rw [cell, named]
    have size : gmVirtioQueueSize = 8 := rfl
    exact (Nat.mod_eq_of_lt (by omega)).symm

theorem RxTaken.post {slot : GmDesc} (taken : RxTaken slot nic) :
    RxKept (gmRxPost slot nic) := by
  have posted : RxKept ({ nic with
      driver := (gmRxPost slot nic).driver }.record (.rxPosted slot)) := by
    intro inOrder online
    obtain ⟨gap, ring, cell⟩ := taken inOrder.of_append online
    refine ⟨?_, ?_⟩
    · simp only [gmRxPost, GmVirtio.record]
      grind
    · intro position below
      simp only [gmRxPost, GmVirtio.record, cell]
      by_cases same : position = slot.val
      · rw [same, Function.update_self]
      · rw [Function.update_of_ne same]
        exact ring position below
  exact rxKept_record posted (.notified .rx)

theorem PollRound.rxKept {device : GmDevice} {cap : UInt16}
    {nic after : GmVirtio} {outcome : Option GmPollResult}
    (round : PollRound device cap nic outcome after) (kept : RxKept nic) :
    RxKept after := by
  have rule := rxKept_rule device
  have read := rule.turn _ (rule.turn _ (rule.turn nic kept))
  cases round with
  | empty => exact rule.turn nic kept
  | outside first second id bytes =>
    intro _ online
    rw [(gmVirtioFail_offline device _).driver] at online
    cases online
  | posted first second copying id bytes slot frame _ firstRead secondRead _ _
      named beforeCopy =>
    subst firstRead secondRead
    have within : id.toNat < gmVirtioQueueSize := by
      rw [named]
      exact slot.isLt
    have same : (⟨id.toNat, within⟩ : GmDesc) = slot := Fin.ext named
    have taken := read.advance bytes within
    rw [same] at taken
    obtain ⟨events, extended, _⟩ := (turn_turned device (gmRxAdvance id bytes
      (((nic.turn device).turn device).turn device))).history
    rw [← beforeCopy] at extended
    have turned : RxTaken slot copying :=
      taken.carry (by rw [beforeCopy, turn_driver]) extended
    exact RxTaken.post (turned.carry rfl rfl)

theorem gmVirtioRun_rxKept {device : GmDevice} {calls : List GmVirtioCall}
    {nic after : GmVirtio} (kept : RxKept nic)
    (ran : gmVirtioRun device calls nic = .ok after) : RxKept after := by
  refine runSteps_keeps ?_ kept ran
  intro call nic next holds stepped
  exact (rxKept_rule device).call
    (fun _ _ _ _ kept round => round.rxKept kept)
    (fun _ _ kept => rxKept_record kept _) holds stepped

theorem gmVirtioNetInit_rxKept (status : UInt8)
    (rxPage txPage : Nat → UInt64) :
    RxKept (gmVirtioNetInit status rxPage txPage) := by
  intro _ _
  refine ⟨?_, fun _ _ => rfl⟩
  simp only [gmVirtioNetInit]
  decide

/-- After any calls against any device whose used entries are out of range or
name the oldest outstanding descriptor, the driver is offline or the available
ring is intact. -/
theorem gmVirtioRun_rx_intact (device : GmDevice) (status : UInt8)
    (rxPage txPage : Nat → UInt64) (calls : List GmVirtioCall)
    (nic : GmVirtio)
    (ran : gmVirtioRun device calls (gmVirtioNetInit status rxPage txPage) =
      .ok nic)
    (inOrder : UsedInOrder nic.history) :
    nic.driver.ready = false ∨ RxIntact nic := by
  have kept := gmVirtioRun_rxKept
    (gmVirtioNetInit_rxKept status rxPage txPage) ran
  cases online : nic.driver.ready with
  | false => exact .inl rfl
  | true => exact .inr (kept inOrder online).intact

/-- A device that returns two frames of 60 bytes, the first in buffer 0, the
second in the buffer `second`. -/
def twoFrames (second : UInt32) : GmDevice := fun clock =>
  if clock = 0 then
    [.usedElem .rx 0 { id := 0, len := 60 },
      .usedElem .rx 1 { id := second, len := 60 }, .usedIdx .rx 2]
  else []

def pollTwice (second : UInt32) : Except GmLoop GmVirtio :=
  gmVirtioRun (twoFrames second) [.poll true 1518 4, .poll true 1518 4]
    (gmVirtioNetInit 15 (fun _ => 0x200000) (fun _ => 0x201000))

/-- Two buffers completed in order keep the ring intact. -/
theorem gmVirtioRun_rx_intact_two :
    ∃ nic, pollTwice 1 = .ok nic ∧ nic.driver.ready = true ∧
      gmRxOutstanding nic = [2, 3, 4, 5, 6, 7, 0, 1] ∧
      (nic.driver.ready = false ∨ RxIntact nic) :=
  ⟨_, rfl, rfl, by decide,
    gmVirtioRun_rx_intact (twoFrames 1) 15 (fun _ => 0x200000)
      (fun _ => 0x201000) [.poll true 1518 4, .poll true 1518 4] _ rfl rfl⟩

/-- A device that names buffer 0 twice: buffer 0 is posted twice, buffer 1 is
lost, and the driver stays online. -/
theorem gmVirtioRun_rx_posted_twice :
    ∃ nic, pollTwice 0 = .ok nic ∧ nic.driver.ready = true ∧
      gmRxOutstanding nic = [2, 3, 4, 5, 6, 7, 0, 0] ∧
      ¬ (gmRxOutstanding nic).Nodup ∧ (1 : UInt16) ∉ gmRxOutstanding nic :=
  ⟨_, rfl, rfl, by decide, by decide, by decide⟩

end Gmker.Virtio
