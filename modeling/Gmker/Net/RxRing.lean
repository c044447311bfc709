import Gmker.Net.Tcp

/-!
# The receive ring as a byte queue

`gm_tcp_append`, `gm_tcp_read` and `gm_tcp_drop` in terms of the buffered
bytes.  Nothing after this module looks at ring positions again.
-/

namespace Gmker.Net

open Foundation

variable {tcp : GmTcp}

/-- The ring indices stay inside the array. -/
structure RxValid (tcp : GmTcp) : Prop where
  head : tcp.rxHead < gmTcpRxSize
  len : tcp.rxLen ≤ gmTcpRxSize

@[simp] theorem buffered_length (tcp : GmTcp) :
    tcp.buffered.length = tcp.rxLen := by
  simp [GmTcp.buffered]

theorem buffered_congr {before after : GmTcp} (rx : after.rx = before.rx)
    (head : after.rxHead = before.rxHead) (len : after.rxLen = before.rxLen) :
    after.buffered = before.buffered := by
  rw [GmTcp.buffered, GmTcp.buffered, rx, head, len]

theorem gmTcpAppend_fits {data : List UInt8}
    (fits : tcp.rxLen + data.length ≤ gmTcpRxSize) :
    ∃ rx, gmTcpAppend data tcp =
        (true, { tcp with rx := rx, rxLen := tcp.rxLen + data.length }) ∧
      GmTcp.buffered { tcp with rx := rx, rxLen := tcp.rxLen + data.length } =
        tcp.buffered ++ data := by
  have room : ¬ gmTcpRxSize - tcp.rxLen < data.length := by omega
  refine ⟨_, if_neg room, ?_⟩
  exact ringContents_wrapBlock tcp.rx tcp.rxHead tcp.rxLen data (by decide) fits

/-- Bytes that do not fit are counted and dropped as a whole. -/
theorem gmTcpAppend_full {data : List UInt8}
    (full : gmTcpRxSize < tcp.rxLen + data.length) (valid : RxValid tcp) :
    gmTcpAppend data tcp =
      (false, { tcp with dropCount := tcp.dropCount + data.length }) := by
  have bound := valid.len
  exact if_pos (by omega)

/-- What a read does to the connection. -/
structure ReadEffect (max : Nat) (before after : GmHost) : Prop where
  tcp : ∃ head len,
    after.tcp = { before.tcp with rxHead := head, rxLen := len }
  valid : RxValid after.tcp
  buffered : after.tcp.buffered = before.tcp.buffered.drop max
  log : after.log = before.log ++ [.read (before.tcp.buffered.take max)]
  host : after = { before with tcp := after.tcp, log := after.log }

theorem gmTcpRead_effect {host : GmHost} (valid : RxValid host.tcp) {max : Nat}
    (positive : max ≠ 0) :
    (gmTcpRead max host).1 = host.tcp.buffered.take max ∧
      ReadEffect max host (gmTcpRead max host).2 := by
  have head := valid.head
  have len := valid.len
  have split : host.tcp.buffered =
      ringContents gmTcpRxSize host.tcp.rx host.tcp.rxHead
          (min host.tcp.rxLen max) ++
        ringContents gmTcpRxSize host.tcp.rx
          ((host.tcp.rxHead + min host.tcp.rxLen max) % gmTcpRxSize)
          (host.tcp.rxLen - min host.tcp.rxLen max) := by
    rw [← ringContents_add, GmTcp.buffered]
    congr 1
    omega
  have taken : host.tcp.buffered.take max =
      ringContents gmTcpRxSize host.tcp.rx host.tcp.rxHead
        (min host.tcp.rxLen max) := by
    rw [split, List.take_append, List.take_of_length_le]
    · rw [ringContents_length]
      by_cases short : host.tcp.rxLen ≤ max
      · have none : host.tcp.rxLen - min host.tcp.rxLen max = 0 := by omega
        rw [none, ringContents_zero, List.take_nil, List.append_nil]
      · have none : max - min host.tcp.rxLen max = 0 := by omega
        rw [none, List.take_zero, List.append_nil]
    · rw [ringContents_length]
      omega
  have bytes := ringContents_pieces host.tcp.rx head
    (Nat.le_trans (Nat.min_le_left host.tcp.rxLen max) len)
  unfold gmTcpRead
  rw [if_neg positive]
  simp only [bytes]
  refine ⟨taken.symm, ⟨_, _, rfl⟩, ?_, ?_, ?_, rfl⟩
  · constructor
    · simp only [GmHost.record]
      split
      · decide
      · exact Nat.mod_lt _ (by decide)
    · simp only [GmHost.record]
      omega
  · simp only [GmHost.record, GmTcp.buffered]
    rw [← GmTcp.buffered, split, List.drop_append,
      List.drop_eq_nil_of_le (by rw [ringContents_length]; omega),
      List.nil_append, ringContents_length]
    by_cases empty : host.tcp.rxLen - min host.tcp.rxLen max = 0
    · rw [if_pos empty, empty, ringContents_zero, ringContents_zero,
        List.drop_nil]
    · have all : max - min host.tcp.rxLen max = 0 := by omega
      rw [if_neg empty, all, List.drop_zero]
  · simp only [GmHost.record, taken]

theorem gmTcpDrop_buffered (host : GmHost) :
    (gmTcpDrop host).tcp.buffered = [] := rfl

theorem gmTcpDrop_valid (host : GmHost) : RxValid (gmTcpDrop host).tcp :=
  ⟨by simp [gmTcpDrop, GmHost.record], by simp [gmTcpDrop, GmHost.record]⟩

end Gmker.Net
