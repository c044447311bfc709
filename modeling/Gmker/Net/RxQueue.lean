import Gmker.Foundation.Runs
import Gmker.Net.RxRing

/-!
# The receive ring is a bounded queue

`gm_tcp_append`, `gm_tcp_read` and `gm_tcp_drop` in any order, against a queue
of bytes.  The positions that their copies touch lie inside the array.
-/

namespace Gmker.Net

open Foundation (transcript transcript_refines)

variable {host : GmHost}

/-- A call that works on the receive ring. -/
inductive GmRingCall where
  | append (data : List UInt8)
  | read (max : Nat)
  | drop

/-- What such a call returns. -/
inductive GmRingAnswer where
  | stored (ok : Bool)
  | bytes (bytes : List UInt8)
  | done
  deriving DecidableEq

def gmRingCall : GmRingCall → GmHost → GmRingAnswer × GmHost
  | .append data, host =>
    (.stored (gmTcpAppend data host.tcp).1,
      { host with tcp := (gmTcpAppend data host.tcp).2 })
  | .read max, host => (.bytes (gmTcpRead max host).1, (gmTcpRead max host).2)
  | .drop, host => (.done, gmTcpDrop host)

/-- The positions of `gm_tcp_rx` that the copies of a call touch. -/
def gmRingPlaces : GmRingCall → GmTcp → List Nat
  | .append data, tcp =>
    if gmTcpRxSize - tcp.rxLen < data.length then []
    else
      let tail := (tcp.rxHead + tcp.rxLen) % gmTcpRxSize
      let first := min data.length (gmTcpRxSize - tail)
      List.range' tail first ++ List.range' 0 (data.length - first)
  | .read max, tcp =>
    let take := min tcp.rxLen max
    let first := min take (gmTcpRxSize - tcp.rxHead)
    List.range' tcp.rxHead first ++ List.range' 0 (take - first)
  | .drop, _ => []

/-- The same calls on a queue of bytes with a capacity. -/
def queueCall (capacity : Nat) :
    GmRingCall → List UInt8 → GmRingAnswer × List UInt8
  | .append data, queue =>
    if queue.length + data.length ≤ capacity then
      (.stored true, queue ++ data)
    else (.stored false, queue)
  | .read max, queue => (.bytes (queue.take max), queue.drop max)
  | .drop, _ => (.done, [])

theorem gmTcpAppend_queue (valid : RxValid host.tcp) (data : List UInt8) :
    RxValid (gmTcpAppend data host.tcp).2 ∧
      queueCall gmTcpRxSize (.append data) host.tcp.buffered =
        (.stored (gmTcpAppend data host.tcp).1,
          (gmTcpAppend data host.tcp).2.buffered) := by
  rw [queueCall, buffered_length]
  by_cases fits : host.tcp.rxLen + data.length ≤ gmTcpRxSize
  · obtain ⟨rx, appended, contents⟩ := gmTcpAppend_fits fits
    rw [if_pos fits, appended, contents]
    exact ⟨⟨valid.head, fits⟩, rfl⟩
  · rw [if_neg fits, gmTcpAppend_full (Nat.lt_of_not_le fits) valid]
    exact ⟨⟨valid.head, valid.len⟩, rfl⟩

theorem gmTcpRead_queue (valid : RxValid host.tcp) (max : Nat) :
    RxValid (gmTcpRead max host).2.tcp ∧
      queueCall gmTcpRxSize (.read max) host.tcp.buffered =
        (.bytes (gmTcpRead max host).1,
          (gmTcpRead max host).2.tcp.buffered) := by
  rw [queueCall]
  by_cases none : max = 0
  · subst none
    exact ⟨valid, rfl⟩
  · obtain ⟨taken, effect⟩ := gmTcpRead_effect valid none
    rw [taken, effect.buffered]
    exact ⟨effect.valid, rfl⟩

theorem gmRingCall_queue (call : GmRingCall) (host : GmHost)
    (valid : RxValid host.tcp) :
    RxValid (gmRingCall call host).2.tcp ∧
      queueCall gmTcpRxSize call host.tcp.buffered =
        ((gmRingCall call host).1, (gmRingCall call host).2.tcp.buffered) := by
  cases call with
  | append data => exact gmTcpAppend_queue valid data
  | read max => exact gmTcpRead_queue valid max
  | drop => exact ⟨gmTcpDrop_valid host, rfl⟩

/-- Two blocks around the seam of an array stay inside it. -/
theorem pieces_inside {capacity start count : Nat} (begins : start < capacity)
    (fits : count ≤ capacity) (place : Nat)
    (member : place ∈ List.range' start (min count (capacity - start)) ++
      List.range' 0 (count - min count (capacity - start))) :
    place < capacity := by
  rw [List.mem_append, List.mem_range'_1, List.mem_range'_1] at member
  omega

theorem gmRingPlaces_inside (valid : RxValid host.tcp) (call : GmRingCall) :
    ∀ place ∈ gmRingPlaces call host.tcp, place < gmTcpRxSize := by
  have positive : 0 < gmTcpRxSize := by decide
  cases call with
  | append data =>
    rw [gmRingPlaces]
    split
    · exact nofun
    · exact pieces_inside (Nat.mod_lt _ positive) (by omega)
  | read max =>
    exact pieces_inside valid.head
      (Nat.le_trans (Nat.min_le_left _ _) valid.len)
  | drop => exact nofun

/-- The host with an empty ring. -/
def GmHost.emptyRing (host : GmHost) : GmHost :=
  { host with tcp := { host.tcp with rxHead := 0, rxLen := 0 } }

/-- From the empty ring, any calls are answered as by a queue of 4096 bytes,
and the call that follows them touches no position outside the ring. -/
theorem gmRing_answers_as_queue (start : GmHost) (calls : List GmRingCall)
    (next : GmRingCall) :
    RxValid (transcript gmRingCall calls start.emptyRing).2.tcp ∧
      transcript (queueCall 4096) calls [] =
        ((transcript gmRingCall calls start.emptyRing).1,
          (transcript gmRingCall calls start.emptyRing).2.tcp.buffered) ∧
      ∀ place ∈ gmRingPlaces next
          (transcript gmRingCall calls start.emptyRing).2.tcp,
        place < 4096 := by
  have empty : RxValid start.emptyRing.tcp :=
    ⟨(by decide : 0 < gmTcpRxSize), Nat.zero_le _⟩
  obtain ⟨valid, same⟩ := transcript_refines gmRingCall_queue calls
    start.emptyRing empty
  exact ⟨valid, same, gmRingPlaces_inside valid next⟩

end Gmker.Net
