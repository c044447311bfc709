import Mathlib.Data.Fintype.Card
import Mathlib.Data.List.Forall2
import Mathlib.Data.List.Nodup
import Gmker.Virtio.Turns

/-!
# Receiving from a compliant device

The used ring and the eight recycled buffers as a queue of returned frames.  A
compliant device returns only descriptors it holds and writes only buffers it
holds.  Then the driver copies the returned frames in used-ring order, each
once, and posts a buffer again only after it was copied.
-/

namespace Gmker.Virtio

open Foundation

variable {events : List GmVirtioEvent}

/-- A descriptor as the device returned it: how many bytes it reported and what
the buffer held. -/
structure GmReturn where
  slot : GmDesc
  bytes : UInt32
  content : Nat → UInt8

/-- A used entry as the driver handled it. -/
structure GmCopy where
  slot : GmDesc
  bytes : UInt32
  cap : UInt16
  frame : Option (List UInt8)

/-- The returned descriptors, in used-ring order. -/
def returned (history : List GmVirtioEvent) : List GmReturn :=
  history.filterMap fun
    | .rxReturned slot bytes content => some ⟨slot, bytes, content⟩
    | _ => none

/-- The handled entries, in the order the driver handled them. -/
def copied (history : List GmVirtioEvent) : List GmCopy :=
  history.filterMap fun
    | .rxCopied slot bytes cap frame => some ⟨slot, bytes, cap, frame⟩
    | _ => none

/-- The frames that successful polls returned. -/
def delivered (history : List GmVirtioEvent) : List (List UInt8) :=
  history.filterMap fun
    | .polled (.frame data) => some data
    | _ => none

/-- Posting lends a buffer to the device, which gives it back by returning. -/
def heldByDevice : Loans GmVirtioEvent GmDesc where
  lends
    | .rxPosted slot => some slot
    | _ => none
  returns
    | .rxReturned slot _ _ => some slot
    | _ => none

/-- A posted buffer comes home to the driver when it has been copied out. -/
def postedByDriver : Loans GmVirtioEvent GmDesc where
  lends
    | .rxPosted slot => some slot
    | _ => none
  returns
    | .rxCopied slot _ _ _ => some slot
    | _ => none

/-! ## The compliant device -/

/-- The device moves the RX used ring only by returning descriptors. -/
def GmDeviceWrite.Protocol : GmDeviceWrite → Prop
  | .usedIdx .rx _ => False
  | .usedElem .rx _ _ => False
  | _ => True

/-- A device event concerns a buffer the device holds. -/
def HeldThen (past : List GmVirtioEvent) : GmVirtioEvent → Prop
  | .rxFilled slot => heldByDevice.Out past slot
  | .rxReturned slot _ _ => heldByDevice.Out past slot
  | _ => True

instance (past : List GmVirtioEvent) (event : GmVirtioEvent) :
    Decidable (HeldThen past event) := by
  cases event <;> unfold HeldThen <;> infer_instance

/-- Every buffer the device wrote or returned was in its hands. -/
def HeldAlways (history : List GmVirtioEvent) : Prop :=
  EachTime (fun past event _ => HeldThen past event) history

instance (history : List GmVirtioEvent) : Decidable (HeldAlways history) :=
  inferInstanceAs (Decidable (EachTime _ history))

/-- A device that returns each posted descriptor once per posting, in any
order, after writing its buffer. -/
structure Compliant (device : GmDevice) (history : List GmVirtioEvent) :
    Prop where
  protocol : ∀ clock, ∀ write ∈ device clock, write.Protocol
  held : HeldAlways history

/-! ## The queue -/

/-- The used element of a returned descriptor. -/
def GmReturn.elem (entry : GmReturn) : GmVirtqUsedElem :=
  { id := UInt32.ofNat entry.slot.val, len := entry.bytes }

/-- A handled entry is the returned one: its frame is the payload the device
wrote, unless the length is invalid. -/
def Faithful (entry : GmReturn) (copy : GmCopy) : Prop :=
  copy.slot = entry.slot ∧ copy.bytes = entry.bytes ∧
    copy.frame =
      if gmRxLengthValid entry.bytes copy.cap then
        some (gmRxPayload entry.content entry.bytes)
      else none

/-- A buffer is posted only when it is not already posted. -/
def PostedHome (past : List GmVirtioEvent) : GmVirtioEvent → Prop
  | .rxPosted slot => postedByDriver.Home past slot
  | _ => True

instance (past : List GmVirtioEvent) (event : GmVirtioEvent) :
    Decidable (PostedHome past event) := by
  cases event <;> unfold PostedHome <;> infer_instance

/-- The returned descriptors that were not copied out yet. -/
def uncopied (history : List GmVirtioEvent) : List GmReturn :=
  (returned history).drop (copied history).length

/-- The receive queue when `ahead` of the uncopied entries are already taken
from the used ring. -/
structure RxQueue (ahead : Nat) (nic : GmVirtio) : Prop where
  taken : ahead ≤ (uncopied nic.history).length
  gap : nic.shared.rxUsed.idx - nic.driver.rx.lastUsed =
    UInt16.ofNat ((uncopied nic.history).length - ahead)
  ring : ringContents gmVirtioQueueSize nic.shared.rxUsed.ring
      nic.driver.rx.lastUsed.toNat ((uncopied nic.history).length - ahead) =
    ((uncopied nic.history).drop ahead).map GmReturn.elem
  content : ∀ entry ∈ uncopied nic.history,
    nic.shared.rxBuf entry.slot = entry.content
  distinct : ((uncopied nic.history).map GmReturn.slot).Nodup
  held : heldByDevice.Tracks
    (fun slot => slot ∉ (uncopied nic.history).map GmReturn.slot) nic.history
  posted : postedByDriver.Tracks (fun _ => True) nic.history
  copies : (copied nic.history).length ≤ (returned nic.history).length
  faithful : List.Forall₂ Faithful
    ((returned nic.history).take (copied nic.history).length)
    (copied nic.history)
  home : EachTime (fun past event _ => PostedHome past event) nic.history

/-! ### Events and the lists read from the history -/

theorem returned_append (history events : List GmVirtioEvent) :
    returned (history ++ events) = returned history ++ returned events :=
  List.filterMap_append

theorem copied_append (history events : List GmVirtioEvent) :
    copied (history ++ events) = copied history ++ copied events :=
  List.filterMap_append

theorem delivered_append (history events : List GmVirtioEvent) :
    delivered (history ++ events) = delivered history ++ delivered events :=
  List.filterMap_append

/-- An event none of the receive accounts looks at. -/
def Silent (event : GmVirtioEvent) : Prop :=
  returned [event] = [] ∧ copied [event] = [] ∧ heldByDevice.Ignores event ∧
    postedByDriver.Ignores event ∧ ∀ slot, event ≠ .rxPosted slot

theorem silent_of_not_aboutRx {event : GmVirtioEvent}
    (apart : ¬ event.AboutRx) : Silent event := by
  cases event <;> first
    | exact absurd trivial apart
    | exact ⟨rfl, rfl, ⟨rfl, rfl⟩, ⟨rfl, rfl⟩, by simp⟩

theorem silent_filled (slot : GmDesc) : Silent (.rxFilled slot) :=
  ⟨rfl, rfl, ⟨rfl, rfl⟩, ⟨rfl, rfl⟩, by simp⟩

theorem silent_used (id bytes : UInt32) (oldest : UInt16) :
    Silent (.rxUsed id bytes oldest) :=
  ⟨rfl, rfl, ⟨rfl, rfl⟩, ⟨rfl, rfl⟩, by simp⟩

theorem silent_polled (result : GmPollResult) : Silent (.polled result) :=
  ⟨rfl, rfl, ⟨rfl, rfl⟩, ⟨rfl, rfl⟩, by simp⟩

theorem returned_of_silent (silent : ∀ event ∈ events, Silent event) :
    returned events = [] := by
  apply List.filterMap_eq_nil_iff.mpr
  intro event member
  have alone := (silent event member).1
  simpa [returned] using alone

theorem copied_of_silent (silent : ∀ event ∈ events, Silent event) :
    copied events = [] := by
  apply List.filterMap_eq_nil_iff.mpr
  intro event member
  have alone := (silent event member).2.1
  simpa [copied] using alone

theorem uncopied_append_silent {history events : List GmVirtioEvent}
    (silent : ∀ event ∈ events, Silent event) :
    uncopied (history ++ events) = uncopied history := by
  rw [uncopied, returned_append, copied_append, returned_of_silent silent,
    copied_of_silent silent, List.append_nil, List.append_nil, uncopied]

theorem postedHome_append {history events : List GmVirtioEvent}
    (home : EachTime (fun past event _ => PostedHome past event) history)
    (other : ∀ event ∈ events, ∀ slot, event ≠ .rxPosted slot) :
    EachTime (fun past event _ => PostedHome past event)
      (history ++ events) := by
  apply home.append (fun _ _ _ holds => holds)
  rintro past event future rfl
  have apart := other event (by simp)
  cases event <;> first
    | trivial
    | exact absurd rfl (apart _)

namespace RxQueue

variable {ahead : Nat} {nic : GmVirtio}

theorem carry {before after : GmVirtio} (queue : RxQueue ahead before)
    (lastUsed : after.driver.rx.lastUsed = before.driver.rx.lastUsed)
    (used : after.shared.rxUsed = before.shared.rxUsed)
    (buf : ∀ entry ∈ uncopied before.history,
      after.shared.rxBuf entry.slot = before.shared.rxBuf entry.slot)
    (history : after.history = before.history ++ events)
    (silent : ∀ event ∈ events, Silent event) : RxQueue ahead after := by
  have same : uncopied after.history = uncopied before.history := by
    rw [history, uncopied_append_silent silent]
  have copies : copied after.history = copied before.history := by
    rw [history, copied_append, copied_of_silent silent, List.append_nil]
  have returns : returned after.history = returned before.history := by
    rw [history, returned_append, returned_of_silent silent, List.append_nil]
  constructor
  · rw [same]
    exact queue.taken
  · rw [same, used, lastUsed]
    exact queue.gap
  · rw [same, used, lastUsed]
    exact queue.ring
  · intro entry member
    rw [same] at member
    rw [buf entry member]
    exact queue.content entry member
  · rw [same]
    exact queue.distinct
  · rw [same, history]
    apply queue.held.append_ignored
    intro event member
    exact (silent event member).2.2.1
  · rw [history]
    apply queue.posted.append_ignored
    intro event member
    exact (silent event member).2.2.2.1
  · rw [copies, returns]
    exact queue.copies
  · rw [copies, returns]
    exact queue.faithful
  · rw [history]
    apply postedHome_append queue.home
    intro event member
    exact (silent event member).2.2.2.2

section

variable (queue : RxQueue ahead nic)

include queue

/-- There is room for one more return as long as a descriptor is held. -/
theorem room {slot : GmDesc}
    (absent : slot ∉ (uncopied nic.history).map GmReturn.slot) :
    (uncopied nic.history).length < gmVirtioQueueSize := by
  have longer : (slot :: (uncopied nic.history).map GmReturn.slot).Nodup :=
    List.nodup_cons.mpr ⟨absent, queue.distinct⟩
  have bound := longer.length_le_card
  rw [List.length_cons, List.length_map, Fintype.card_fin] at bound
  exact bound

theorem short : (uncopied nic.history).length ≤ gmVirtioQueueSize := by
  have bound := queue.distinct.length_le_card
  rwa [List.length_map, Fintype.card_fin] at bound

/-- The used index in terms of the driver's own index. -/
theorem used_eq :
    nic.shared.rxUsed.idx.toNat % gmVirtioQueueSize =
      (nic.driver.rx.lastUsed.toNat +
        ((uncopied nic.history).length - ahead)) % gmVirtioQueueSize := by
  have short := queue.short
  have size : gmVirtioQueueSize = 8 := rfl
  have sum : nic.shared.rxUsed.idx = nic.driver.rx.lastUsed +
      UInt16.ofNat ((uncopied nic.history).length - ahead) := by
    rw [← queue.gap]
    grind
  rw [sum, UInt16.toNat_add, UInt16.toNat_ofNat', size]
  omega

/-- A return by the device joins the queue. -/
theorem giveBack {slot : GmDesc} (bytes : UInt32)
    (isHeld : heldByDevice.Out nic.history slot) :
    RxQueue ahead ((GmDeviceWrite.giveBack slot bytes).apply nic) := by
  let entry : GmReturn := ⟨slot, bytes, nic.shared.rxBuf slot⟩
  have absent : slot ∉ (uncopied nic.history).map GmReturn.slot :=
    (queue.held.out_iff slot).mpr isHeld
  have room := queue.room absent
  have history : ((GmDeviceWrite.giveBack slot bytes).apply nic).history =
      nic.history ++ [.rxReturned slot bytes (nic.shared.rxBuf slot)] := rfl
  have returns : returned ((GmDeviceWrite.giveBack slot bytes).apply
      nic).history = returned nic.history ++ [entry] := by
    rw [history, returned_append]
    rfl
  have copies : copied ((GmDeviceWrite.giveBack slot bytes).apply
      nic).history = copied nic.history := by
    rw [history, copied_append]
    exact List.append_nil _
  have grown : uncopied ((GmDeviceWrite.giveBack slot bytes).apply
      nic).history = uncopied nic.history ++ [entry] := by
    rw [uncopied, returns, copies, List.drop_append_of_le_length queue.copies,
      uncopied]
  have taken := queue.taken
  have one : UInt16.ofNat 1 = 1 := rfl
  have counted : (uncopied nic.history ++ [entry]).length - ahead =
      (uncopied nic.history).length - ahead + 1 := by
    rw [List.length_append, List.length_singleton]
    omega
  constructor
  · rw [grown, List.length_append]
    omega
  · rw [grown, counted, UInt16.ofNat_add, ← queue.gap, one]
    simp only [GmDeviceWrite.apply, GmDeviceWrite.store, GmShared.onUsed,
      GmVirtqUsed.put]
    grind
  · rw [grown, counted]
    simp only [GmDeviceWrite.apply, GmDeviceWrite.store, GmShared.onUsed,
      GmVirtqUsed.put]
    rw [queue.used_eq, ringContents_push _ _ _ _ _ (by omega), queue.ring,
      List.drop_append_of_le_length taken, List.map_append]
    rfl
  · intro other member
    rw [grown] at member
    rcases List.mem_append.mp member with old | new
    · exact queue.content other old
    · rw [List.mem_singleton.mp new]
      rfl
  · rw [grown, List.map_append, List.nodup_append]
    refine ⟨queue.distinct, List.nodup_singleton _, ?_⟩
    rintro old inOld new inNew rfl
    rw [List.map_singleton, List.mem_singleton] at inNew
    rw [inNew] at inOld
    exact absent inOld
  · rw [grown, history]
    refine queue.held.giveBack rfl rfl absent ?_ ?_
    · simp [entry]
    · intro other different
      simp [entry, different]
  · rw [history]
    apply queue.posted.append_ignored
    intro event member
    rw [List.mem_singleton.mp member]
    exact ⟨rfl, rfl⟩
  · have fewer := queue.copies
    rw [copies, returns, List.length_append]
    omega
  · rw [copies, returns, List.take_append_of_le_length queue.copies]
    exact queue.faithful
  · rw [history]
    apply postedHome_append queue.home
    intro event member
    rw [List.mem_singleton.mp member]
    simp

end

/-- Taking the oldest entry from the used ring. -/
theorem advance (queue : RxQueue 0 nic) (nonempty : uncopied nic.history ≠ [])
    (id bytes : UInt32) : RxQueue 1 (gmRxAdvance id bytes nic) := by
  have history : (gmRxAdvance id bytes nic).history = nic.history ++
      [.rxUsed id bytes (nic.driver.rx.avail.ring (gmRxPosition nic))] := rfl
  have silent : ∀ event ∈
      [GmVirtioEvent.rxUsed id bytes
        (nic.driver.rx.avail.ring (gmRxPosition nic))], Silent event := by
    intro event member
    rw [List.mem_singleton.mp member]
    exact silent_used _ _ _
  have kept : RxQueue 0 { gmRxAdvance id bytes nic with
      driver := nic.driver } :=
    queue.carry rfl rfl (fun _ _ => rfl) history silent
  have same : uncopied (gmRxAdvance id bytes nic).history =
      uncopied nic.history := by
    rw [history, uncopied_append_silent silent]
  obtain ⟨first, rest, split⟩ := List.exists_cons_of_ne_nil nonempty
  have one : UInt16.ofNat 1 = 1 := rfl
  refine ⟨?_, ?_, ?_, kept.content, kept.distinct, kept.held, kept.posted,
    kept.copies, kept.faithful, kept.home⟩
  · rw [same, split, List.length_cons]
    omega
  · have gap := queue.gap
    rw [split, List.length_cons, Nat.sub_zero, UInt16.ofNat_add, one] at gap
    rw [same, split, List.length_cons, Nat.add_sub_cancel]
    simp only [gmRxAdvance, GmVirtio.record]
    grind
  · have ring := queue.ring
    rw [split, List.length_cons, Nat.sub_zero, ringContents_succ,
      List.drop_zero, List.map_cons] at ring
    rw [same, split, List.length_cons, Nat.add_sub_cancel, List.drop_one,
      List.tail_cons]
    simp only [gmRxAdvance, GmVirtio.record]
    rw [← (List.cons.inj ring).2]
    apply ringContents_head
    have size : gmVirtioQueueSize = 8 := rfl
    have oneNat : (1 : UInt16).toNat = 1 := rfl
    rw [UInt16.toNat_add, oneNat, size]
    omega

theorem front (queue : RxQueue 0 nic) {entry : GmReturn} {rest : List GmReturn}
    (split : uncopied nic.history = entry :: rest) :
    nic.shared.rxUsed.ring (gmRxPosition nic) = entry.elem := by
  have ring := queue.ring
  rw [split, List.length_cons, Nat.sub_zero, ringContents_succ,
    List.drop_zero, List.map_cons] at ring
  exact (List.cons.inj ring).1

theorem caughtUp_iff (queue : RxQueue 0 nic) :
    nic.driver.rx.lastUsed = nic.shared.rxUsed.idx ↔
      uncopied nic.history = [] := by
  have gap := queue.gap
  have short := queue.short
  have size : gmVirtioQueueSize = 8 := rfl
  rw [Nat.sub_zero] at gap
  constructor
  · intro same
    rw [same] at gap
    have zero : UInt16.ofNat (uncopied nic.history).length = 0 := by grind
    have count := congrArg UInt16.toNat zero
    rw [UInt16.toNat_ofNat', UInt16.toNat_zero] at count
    apply List.eq_nil_of_length_eq_zero
    omega
  · intro empty
    rw [empty, List.length_nil] at gap
    have zero : UInt16.ofNat 0 = 0 := rfl
    rw [zero] at gap
    grind

/-- Copying the taken entry out and posting its buffer again. -/
theorem post (queue : RxQueue 1 nic) {entry : GmReturn} {rest : List GmReturn}
    (split : uncopied nic.history = entry :: rest) (cap : UInt16) :
    RxQueue 0 (gmRxPost entry.slot (nic.record
      (.rxCopied entry.slot entry.bytes cap
        (gmRxCopy entry.slot entry.bytes cap nic)))) := by
  let copy : GmCopy := ⟨entry.slot, entry.bytes, cap,
    gmRxCopy entry.slot entry.bytes cap nic⟩
  let copying : GmVirtioEvent := .rxCopied entry.slot entry.bytes cap
    (gmRxCopy entry.slot entry.bytes cap nic)
  generalize atEnd : gmRxPost entry.slot (nic.record copying) = after
  have history : after.history =
      nic.history ++ [copying] ++ [.rxPosted entry.slot] ++ [.notified .rx] := by
    rw [← atEnd]
    rfl
  have returns : returned after.history = returned nic.history := by
    rw [history, returned_append, returned_append, returned_append]
    simp [returned, copying]
  have copies : copied after.history = copied nic.history ++ [copy] := by
    rw [history, copied_append, copied_append, copied_append]
    simp [copied, copying, copy]
  have inside : (copied nic.history).length < (returned nic.history).length := by
    have nonempty : uncopied nic.history ≠ [] := by simp [split]
    exact List.drop_eq_nil_iff.not.mp nonempty |> Nat.not_le.mp
  have shrunk : uncopied after.history = rest := by
    rw [uncopied, returns, copies, List.length_append, List.length_singleton,
      ← List.drop_drop, ← uncopied, split]
    rfl
  have entryAt : (returned nic.history)[(copied nic.history).length] =
      entry := by
    have first : (uncopied nic.history)[0]? = some entry := by rw [split]; rfl
    rw [uncopied, List.getElem?_drop, Nat.add_zero,
      List.getElem?_eq_getElem inside] at first
    exact Option.some.inj first
  have distinct := queue.distinct
  rw [split, List.map_cons, List.nodup_cons] at distinct
  have shared : after.shared = nic.shared := by rw [← atEnd]; rfl
  have lastUsed : after.driver.rx.lastUsed = nic.driver.rx.lastUsed := by
    rw [← atEnd]
    rfl
  have taken : postedByDriver.Tracks (fun slot => slot ≠ entry.slot)
      (nic.history ++ [copying]) := by
    refine queue.posted.giveBack rfl rfl trivial (fun differs => differs rfl) ?_
    intro other different
    simp [different]
  constructor
  · omega
  · have gap := queue.gap
    rw [split, List.length_cons, Nat.add_sub_cancel] at gap
    rw [shrunk, shared, lastUsed, Nat.sub_zero]
    exact gap
  · have ring := queue.ring
    rw [split, List.length_cons, Nat.add_sub_cancel, List.drop_one,
      List.tail_cons] at ring
    rw [shrunk, shared, lastUsed, Nat.sub_zero, List.drop_zero]
    exact ring
  · intro other member
    rw [shrunk] at member
    rw [shared]
    apply queue.content
    rw [split]
    exact List.mem_cons_of_mem _ member
  · rw [shrunk]
    exact distinct.2
  · have before := queue.held
    rw [split] at before
    have ignored : heldByDevice.Tracks
        (fun slot => slot ∉ (entry :: rest).map GmReturn.slot)
        (nic.history ++ [copying]) := by
      apply before.append_ignored
      intro event member
      rw [List.mem_singleton.mp member]
      exact ⟨rfl, rfl⟩
    have lent : heldByDevice.Tracks
        (fun slot => slot ∉ rest.map GmReturn.slot)
        (nic.history ++ [copying] ++ [.rxPosted entry.slot]) := by
      refine ignored.lend rfl rfl (by simp) distinct.1 ?_
      intro other different
      simp [different]
    rw [shrunk, history]
    apply lent.append_ignored
    intro event member
    rw [List.mem_singleton.mp member]
    exact ⟨rfl, rfl⟩
  · have lent : postedByDriver.Tracks (fun _ => True)
        (nic.history ++ [copying] ++ [.rxPosted entry.slot]) := by
      refine taken.lend rfl rfl (fun differs => differs rfl) trivial ?_
      intro other different
      simp [different]
    rw [history]
    apply lent.append_ignored
    intro event member
    rw [List.mem_singleton.mp member]
    exact ⟨rfl, rfl⟩
  · rw [copies, returns, List.length_append, List.length_singleton]
    omega
  · rw [copies, returns, List.length_append, List.length_singleton,
      List.take_succ_eq_append_getElem inside, entryAt]
    refine List.rel_append queue.faithful (.cons ⟨rfl, rfl, ?_⟩ .nil)
    have content := queue.content entry (by rw [split]; exact List.mem_cons_self)
    simp only [copy, gmRxCopy, content]
  · rw [history]
    have copiedHome : EachTime (fun past event _ => PostedHome past event)
        (nic.history ++ [copying]) := by
      apply postedHome_append queue.home
      intro event member
      rw [List.mem_singleton.mp member]
      simp [copying]
    have atHome : PostedHome (nic.history ++ [copying])
        (.rxPosted entry.slot) :=
      (taken entry.slot).2 (fun differs => differs rfl)
    apply postedHome_append (copiedHome.snoc atHome)
    intro event member
    rw [List.mem_singleton.mp member]
    simp

end RxQueue

end Gmker.Virtio
