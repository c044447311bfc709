import Gmker.Abi
import Gmker.Foundation.Ring
import Gmker.Foundation.Runs

/-!
# The VirtIO network queues

`gm_virtio_alive`, `gm_virtio_reap_tx`, `gm_virtio_net_send` and
`gm_virtio_net_poll` of `virtio.c`, with the ring setup of
`gm_virtio_net_init`.

The state has two halves.  `GmDriver` is the memory only the driver writes:
descriptors, available rings, its own indices and the TX bookkeeping.
`GmShared` is the memory the device writes: the status register, the used
rings and the RX buffers.  The device is a schedule of writes, and it gets a
turn before every driver access to its half, so any interleaving of device
writes with driver accesses is some schedule.

The history records what happens and is never read by the code.
-/

namespace Gmker.Virtio

open Function

abbrev gmVirtioQueueSize : Nat := 8
abbrev gmVirtioNetHdr : Nat := 12
abbrev gmVirtioBufSize : Nat := 2048
abbrev gmVirtioStatusNeedsReset : UInt8 := 64
abbrev gmVirtioStatusFailed : UInt8 := 128
abbrev gmVirtqDescFWrite : UInt16 := 2
abbrev gmVirtqAvailFNoInterrupt : UInt16 := 1

instance gmVirtioQueueSize_neZero : NeZero gmVirtioQueueSize := ⟨by decide⟩

/-- A descriptor number. -/
abbrev GmDesc := Fin gmVirtioQueueSize

inductive GmQueue where
  | rx
  | tx
  deriving DecidableEq, Repr

/-- `struct gm_virtq_desc`. -/
structure GmVirtqDesc where
  addr : UInt64 := 0
  len : UInt32 := 0
  flags : UInt16 := 0
  next : UInt16 := 0
  deriving DecidableEq, Repr

/-- `struct gm_virtq_avail`. -/
structure GmVirtqAvail where
  flags : UInt16 := 0
  idx : UInt16 := 0
  ring : Nat → UInt16 := fun _ => 0

/-- `struct gm_virtq_used_elem`. -/
structure GmVirtqUsedElem where
  id : UInt32 := 0
  len : UInt32 := 0
  deriving DecidableEq, Repr

/-- `struct gm_virtq_used`. -/
structure GmVirtqUsed where
  idx : UInt16 := 0
  ring : Nat → GmVirtqUsedElem := fun _ => {}

/-- The parts of `struct gm_virtq` that only the driver writes. -/
structure GmVirtq where
  desc : GmDesc → GmVirtqDesc := fun _ => {}
  avail : GmVirtqAvail := {}
  lastUsed : UInt16 := 0

/-- The static variables of `virtio.c` and the driver's side of the queues. -/
structure GmDriver where
  ready : Bool := false
  rx : GmVirtq := {}
  tx : GmVirtq := {}
  txBuf : GmDesc → Nat → UInt8 := fun _ _ => 0
  txFree : GmDesc → Bool := fun _ => false
  txNext : GmDesc := 0

/-- What the device writes. -/
structure GmShared where
  status : UInt8 := 0
  rxUsed : GmVirtqUsed := {}
  txUsed : GmVirtqUsed := {}
  rxBuf : GmDesc → Nat → UInt8 := fun _ _ => 0

/-- The values `-1`, `0` and `1` of `gm_virtio_net_poll`, the last with the
bytes copied to the caller. -/
inductive GmPollResult where
  | failed
  | empty
  | frame (data : List UInt8)
  deriving DecidableEq, Repr

/-- What an observer sees of the driver and the device. -/
inductive GmVirtioEvent where
  | txPublished (slot : GmDesc)
  | txUsed (id : UInt32)
  | txReaped (slot : GmDesc)
  | statusWritten (value : UInt8)
  | notified (queue : GmQueue)
  | rxPosted (slot : GmDesc)
  | rxUsed (id bytes : UInt32) (oldest : UInt16)
  | rxCopied (slot : GmDesc) (bytes : UInt32) (cap : UInt16)
      (frame : Option (List UInt8))
  | polled (result : GmPollResult)
  | rxFilled (slot : GmDesc)
  | rxReturned (slot : GmDesc) (bytes : UInt32) (content : Nat → UInt8)

structure GmVirtio where
  driver : GmDriver := {}
  shared : GmShared := {}
  clock : Nat := 0
  history : List GmVirtioEvent := []

namespace GmVirtio

def record (nic : GmVirtio) (event : GmVirtioEvent) : GmVirtio :=
  { nic with history := nic.history ++ [event] }

end GmVirtio

/-! ## The device -/

/-- One write of the device.  `giveBack` is the protocol's way of returning an
RX descriptor: the used element first, then the index. -/
inductive GmDeviceWrite where
  | status (value : UInt8)
  | usedIdx (queue : GmQueue) (idx : UInt16)
  | usedElem (queue : GmQueue) (position : GmDesc) (elem : GmVirtqUsedElem)
  | rxBuf (slot : GmDesc) (offset : Nat) (data : List UInt8)
  | giveBack (slot : GmDesc) (bytes : UInt32)

def GmVirtqUsed.put (used : GmVirtqUsed) (position : Nat)
    (elem : GmVirtqUsedElem) : GmVirtqUsed :=
  { used with ring := update used.ring position elem }

/-- The used structure of a queue after a change. -/
def GmShared.onUsed (shared : GmShared) (queue : GmQueue)
    (change : GmVirtqUsed → GmVirtqUsed) : GmShared :=
  match queue with
  | .rx => { shared with rxUsed := change shared.rxUsed }
  | .tx => { shared with txUsed := change shared.txUsed }

/-- What a device write does to its half of the state. -/
def GmDeviceWrite.store : GmDeviceWrite → GmShared → GmShared
  | .status value, shared => { shared with status := value }
  | .usedIdx queue idx, shared =>
    shared.onUsed queue fun used => { used with idx := idx }
  | .usedElem queue position elem, shared =>
    shared.onUsed queue fun used => used.put position elem
  | .rxBuf slot offset data, shared =>
    { shared with
      rxBuf := update shared.rxBuf slot
        (Foundation.writeBlock (shared.rxBuf slot) offset data) }
  | .giveBack slot bytes, shared =>
    shared.onUsed .rx fun used =>
      { used.put (used.idx.toNat % gmVirtioQueueSize)
          { id := UInt32.ofNat slot.val, len := bytes } with
        idx := used.idx + 1 }

/-- What an observer notes of a device write. -/
def GmDeviceWrite.noted : GmDeviceWrite → GmShared → List GmVirtioEvent
  | .rxBuf slot _ _, _ => [.rxFilled slot]
  | .giveBack slot bytes, shared =>
    [.rxReturned slot bytes (shared.rxBuf slot)]
  | _, _ => []

def GmDeviceWrite.apply (write : GmDeviceWrite) (nic : GmVirtio) : GmVirtio :=
  { nic with
    shared := write.store nic.shared
    history := nic.history ++ write.noted nic.shared }

/-- The device: what it writes in each of its turns. -/
abbrev GmDevice := Nat → List GmDeviceWrite

/-- The device's turn before a driver access to shared memory. -/
def GmVirtio.turn (device : GmDevice) (nic : GmVirtio) : GmVirtio :=
  (device nic.clock).foldl (fun nic write => write.apply nic)
    { nic with clock := nic.clock + 1 }

/-! ## The driver -/

/-- The loops of the driver that may still be running. -/
inductive GmLoop where
  | reapTx
  | poll
  deriving DecidableEq, Repr

/-- `gm_virtio_alive`. -/
def gmVirtioAlive (device : GmDevice) (nic : GmVirtio) : Bool × GmVirtio :=
  if nic.driver.ready = false then (false, nic)
  else
    let nic := nic.turn device
    if nic.shared.status &&&
        (gmVirtioStatusNeedsReset ||| gmVirtioStatusFailed) ≠ 0 then
      (false, { nic with driver := { nic.driver with ready := false } })
    else (true, nic)

/-- The offline path: set FAILED in the status register and stop using the
device. -/
def gmVirtioFail (device : GmDevice) (nic : GmVirtio) : GmVirtio :=
  let nic := nic.turn device
  let status := nic.shared.status ||| gmVirtioStatusFailed
  { nic with
    driver := { nic.driver with ready := false }
    shared := { nic.shared with status := status } }.record
      (.statusWritten status)

/-- `gm_tx_free[id]=1` and `gm_vtx.last_used++`. -/
def gmTxRelease (slot : GmDesc) (nic : GmVirtio) : GmVirtio :=
  { nic with
    driver := { nic.driver with
      txFree := update nic.driver.txFree slot true
      tx := { nic.driver.tx with lastUsed := nic.driver.tx.lastUsed + 1 } } }.record
        (.txReaped slot)

/-- The identifier of the next TX used element, as read now. -/
def gmTxUsedId (nic : GmVirtio) : UInt32 :=
  (nic.shared.txUsed.ring
    (nic.driver.tx.lastUsed.toNat % gmVirtioQueueSize)).id

/-- The loop of `gm_virtio_reap_tx`, cut off after `rounds` iterations. -/
def gmReapLoop (device : GmDevice) :
    Nat → UInt16 → GmVirtio → Except GmLoop (Bool × GmVirtio)
  | rounds, used, nic =>
    if nic.driver.tx.lastUsed = used then .ok (true, nic)
    else
      match rounds with
      | 0 => .error .reapTx
      | rounds + 1 =>
        let nic := nic.turn device
        let id := gmTxUsedId nic
        let nic := nic.record (.txUsed id)
        if within : id.toNat < gmVirtioQueueSize then
          if nic.driver.txFree ⟨id.toNat, within⟩ then
            .ok (false, gmVirtioFail device nic)
          else
            let nic := (gmTxRelease ⟨id.toNat, within⟩ nic).turn device
            gmReapLoop device rounds nic.shared.txUsed.idx nic
        else .ok (false, gmVirtioFail device nic)

/-- The number of iterations `gm_virtio_reap_tx` is given.  A further one would
show as the error `GmLoop.reapTx`. -/
abbrev gmReapRounds : Nat := gmVirtioQueueSize + 1

/-- `gm_virtio_reap_tx`. -/
def gmVirtioReapTx (device : GmDevice) (nic : GmVirtio) :
    Except GmLoop (Bool × GmVirtio) :=
  match gmVirtioAlive device nic with
  | (false, nic) => .ok (false, nic)
  | (true, nic) =>
    let nic := nic.turn device
    gmReapLoop device gmReapRounds nic.shared.txUsed.idx nic

/-- The slot search of `gm_virtio_net_send`, `rounds` slots from `slot` on. -/
def gmTxFind (txFree : GmDesc → Bool) : Nat → GmDesc → Option GmDesc
  | 0, _ => none
  | rounds + 1, slot =>
    if txFree slot then some slot else gmTxFind txFree rounds (slot + 1)

/-- The second half of `gm_virtio_net_send`: fill the slot and publish it. -/
def gmTxPublish (slot : GmDesc) (frame : List UInt8) (nic : GmVirtio) :
    GmVirtio :=
  let tx := nic.driver.tx
  let avail := tx.avail.idx
  ({ nic with
    driver := { nic.driver with
      txFree := update nic.driver.txFree slot false
      txBuf := update nic.driver.txBuf slot
        (Foundation.writeBlock (nic.driver.txBuf slot) 0
          (List.replicate gmVirtioNetHdr 0 ++ frame))
      tx := { tx with
        desc := update tx.desc slot
          { tx.desc slot with
            len := UInt32.ofNat (frame.length + gmVirtioNetHdr), flags := 0 }
        avail := { tx.avail with
          ring := update tx.avail.ring
            (avail.toNat % gmVirtioQueueSize) (UInt16.ofNat slot.val)
          idx := avail + 1 } }
      txNext := slot + 1 } }.record (.txPublished slot)).record (.notified .tx)

/-- `gm_virtio_net_send`.  A null frame pointer is `none`. -/
def gmVirtioNetSend (device : GmDevice) (frame : Option (List UInt8))
    (nic : GmVirtio) : Except GmLoop (Bool × GmVirtio) :=
  match frame with
  | none => .ok (false, nic)
  | some frame =>
    if frame.length = 0 ∨ 1518 < frame.length then .ok (false, nic)
    else
      match gmVirtioReapTx device nic with
      | .error loop => .error loop
      | .ok (false, nic) => .ok (false, nic)
      | .ok (true, nic) =>
        match gmTxFind nic.driver.txFree gmVirtioQueueSize
            nic.driver.txNext with
        | none => .ok (false, nic)
        | some slot => .ok (true, gmTxPublish slot frame nic)

/-- The test `valid` of `gm_virtio_net_poll`. -/
def gmRxLengthValid (bytes : UInt32) (cap : UInt16) : Bool :=
  gmVirtioNetHdr ≤ bytes.toNat && bytes.toNat ≤ gmVirtioBufSize &&
    bytes.toNat - gmVirtioNetHdr ≤ cap.toNat

/-- The bytes behind the header of a used buffer. -/
def gmRxPayload (content : Nat → UInt8) (bytes : UInt32) : List UInt8 :=
  (List.range (bytes.toNat - gmVirtioNetHdr)).map fun offset =>
    content (gmVirtioNetHdr + offset)

/-- Copy a frame out, if its length is valid. -/
def gmRxCopy (slot : GmDesc) (bytes : UInt32) (cap : UInt16)
    (nic : GmVirtio) : Option (List UInt8) :=
  if gmRxLengthValid bytes cap then
    some (gmRxPayload (nic.shared.rxBuf slot) bytes)
  else none

/-- Return a buffer to the device: the ring entry, then the index. -/
def gmRxPost (slot : GmDesc) (nic : GmVirtio) : GmVirtio :=
  let rx := nic.driver.rx
  let avail := rx.avail.idx
  ({ nic with
    driver := { nic.driver with
      rx := { rx with
        avail := { rx.avail with
          ring := update rx.avail.ring
            (avail.toNat % gmVirtioQueueSize) (UInt16.ofNat slot.val)
          idx := avail + 1 } } } }.record (.rxPosted slot)).record (.notified .rx)

/-- The cell of a ring that the next used element stands for. -/
def gmRxPosition (nic : GmVirtio) : Nat :=
  nic.driver.rx.lastUsed.toNat % gmVirtioQueueSize

/-- `gm_vrx.last_used++`, with the element read for it. -/
def gmRxAdvance (id bytes : UInt32) (nic : GmVirtio) : GmVirtio :=
  { nic with
    driver := { nic.driver with
      rx := { nic.driver.rx with
        lastUsed := nic.driver.rx.lastUsed + 1 } } }.record
          (.rxUsed id bytes (nic.driver.rx.avail.ring (gmRxPosition nic)))

/-- The loop of `gm_virtio_net_poll`, cut off after `rounds` iterations. -/
def gmPollLoop (device : GmDevice) (cap : UInt16) :
    Nat → GmVirtio → Except GmLoop (GmPollResult × GmVirtio)
  | 0, _ => .error .poll
  | rounds + 1, nic =>
    let nic := nic.turn device
    if nic.driver.rx.lastUsed = nic.shared.rxUsed.idx then .ok (.empty, nic)
    else
      -- identifier and length are two reads, and the device may write
      -- between them
      let nic := nic.turn device
      let id := (nic.shared.rxUsed.ring (gmRxPosition nic)).id
      let nic := nic.turn device
      let bytes := (nic.shared.rxUsed.ring (gmRxPosition nic)).len
      let nic := gmRxAdvance id bytes nic
      if within : id.toNat < gmVirtioQueueSize then
        let slot : GmDesc := ⟨id.toNat, within⟩
        let nic := nic.turn device
        let frame := gmRxCopy slot bytes cap nic
        let nic := gmRxPost slot (nic.record (.rxCopied slot bytes cap frame))
        match frame with
        | none => gmPollLoop device cap rounds nic
        | some data => .ok (.frame data, nic)
      else .ok (.failed, gmVirtioFail device nic)

/-- `gm_virtio_net_poll`.  `given` says that neither pointer is null; `rounds`
bounds the iterations the call is observed for. -/
def gmVirtioNetPoll (device : GmDevice) (given : Bool) (cap : UInt16)
    (rounds : Nat) (nic : GmVirtio) : Except GmLoop (GmPollResult × GmVirtio) :=
  if given = false then .ok (.failed, nic)
  else
    match gmVirtioReapTx device nic with
    | .error loop => .error loop
    | .ok (false, nic) => .ok (.failed, nic)
    | .ok (true, nic) => gmPollLoop device cap rounds nic

/-! ## Runs -/

/-- The state after a successful `gm_virtio_net_init`: eight buffers posted for
receiving, all transmit descriptors free.  Two buffers share a page. -/
def gmVirtioNetInit (status : UInt8) (rxPage txPage : Nat → UInt64) :
    GmVirtio :=
  let addr (page : Nat → UInt64) (slot : GmDesc) : UInt64 :=
    page (slot.val / 2) + UInt64.ofNat (slot.val % 2 * gmVirtioBufSize)
  { driver :=
      { ready := true
        rx :=
          { desc := fun slot =>
              { addr := addr rxPage slot
                len := UInt32.ofNat gmVirtioBufSize
                flags := gmVirtqDescFWrite }
            avail :=
              { flags := gmVirtqAvailFNoInterrupt
                idx := UInt16.ofNat gmVirtioQueueSize
                ring := fun position => UInt16.ofNat position } }
        tx :=
          { desc := fun slot => { addr := addr txPage slot }
            avail := { flags := gmVirtqAvailFNoInterrupt } }
        txFree := fun _ => true }
    shared := { status := status }
    history := (List.finRange gmVirtioQueueSize).map .rxPosted ++
      [.notified .rx] }

/-- The calls of the rest of the kernel into the driver. -/
inductive GmVirtioCall where
  | send (frame : Option (List UInt8))
  | reapTx
  | poll (given : Bool) (cap : UInt16) (rounds : Nat)

/-- One call.  What a poll returned is noted. -/
def gmVirtioCall (device : GmDevice) :
    GmVirtioCall → GmVirtio → Except GmLoop GmVirtio
  | .send frame, nic => (gmVirtioNetSend device frame nic).map Prod.snd
  | .reapTx, nic => (gmVirtioReapTx device nic).map Prod.snd
  | .poll given cap rounds, nic =>
    (gmVirtioNetPoll device given cap rounds nic).map fun outcome =>
      outcome.2.record (.polled outcome.1)

/-- Any sequence of calls, all of which return. -/
def gmVirtioRun (device : GmDevice) (calls : List GmVirtioCall)
    (nic : GmVirtio) : Except GmLoop GmVirtio :=
  Foundation.runSteps (gmVirtioCall device) calls nic

end Gmker.Virtio
