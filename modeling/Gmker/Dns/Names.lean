import Gmker.Foundation.DomainNames
import Gmker.Foundation.Loops
import Gmker.Foundation.Windows
import Gmker.Net.Checksum

/-!
# Names in DNS responses

`dns_name` of the program `dns` follows the labels and pointers of a name and
writes its dotted text.  All its reads and writes are checked ones here.  It
ends on every packet, since it takes at most 32 pointers and moves ahead
between them, and it succeeds exactly on the names of RFC 1035 whose text has
room.
-/

namespace Gmker.Dns

open Foundation

/-! ## The decoder -/

def dnsJumpsMax : UInt16 := 32

/-- The local variables of `dns_name` with the buffer it writes. -/
structure DnsNameVars where
  pos : UInt16
  out : UInt16
  after : UInt16
  jumps : UInt16
  jumped : Bool
  name : Window

/-- What `dns_name` returns and leaves in `name` and `*next`. -/
structure DnsNameResult where
  returned : Bool
  name : Window
  next : Option UInt16

/-- Return 0 in the middle of the loop. -/
def DnsNameVars.fails (vars : DnsNameVars) (next : Option UInt16) :
    DnsNameResult :=
  ⟨false, vars.name, next⟩

section Loop

variable (packet : Window) (packetLen nameCap : UInt16)
  (next : Option UInt16)

/-- A label with both high bits set. -/
def dnsNamePointer (label : UInt8) (vars : DnsNameVars) :
    Except Fault (DnsNameVars ⊕ DnsNameResult) :=
  if packetLen.toNat ≤ vars.pos.toNat + 1 ∨ dnsJumpsMax ≤ vars.jumps then
    .ok (.inr (vars.fails next))
  else do
    let low ← packet.read (vars.pos.toNat + 1)
    let target := ((label &&& 0x3f).toUInt16 <<< 8) ||| low.toUInt16
    if packetLen ≤ target then return .inr (vars.fails next)
    else
      return .inl
        { vars with
          after := if vars.jumped then vars.after else vars.pos + 2
          pos := target
          jumps := vars.jumps + 1
          jumped := true }

/-- The root label; `pos` is behind it. -/
def dnsNameRoot (vars : DnsNameVars) :
    Except Fault (DnsNameVars ⊕ DnsNameResult) :=
  let after := if vars.jumped then vars.after else vars.pos
  if vars.out = 0 then
    if nameCap < 2 then .ok (.inr (vars.fails next))
    else do
      let name ← vars.name.write vars.out.toNat 46
      let name ← name.write (vars.out + 1).toNat 0
      return .inr ⟨true, name, next.map fun _ => after⟩
  else do
    let name ← vars.name.write vars.out.toNat 0
    return .inr ⟨true, name, next.map fun _ => after⟩

/-- `for (i=0;i<label;i++) name[out++]=(char)packet[pos+i];` -/
def dnsNameCopy (pos : UInt16) : Nat → UInt8 → UInt16 → Window →
    Except Fault (UInt16 × Window)
  | 0, _, out, name => .ok (out, name)
  | count + 1, i, out, name => do
      let byte ← packet.read (pos.toNat + i.toNat)
      let name ← name.write out.toNat byte
      dnsNameCopy pos count (i + 1) (out + 1) name

/-- The dot before a label that is not the first one. -/
def dnsNameDot (vars : DnsNameVars) : Except Fault (Option DnsNameVars) :=
  if vars.out = 0 then .ok (some vars)
  else if nameCap.toNat ≤ vars.out.toNat + 1 then .ok none
  else do
    let name ← vars.name.write vars.out.toNat 46
    return some { vars with name := name, out := vars.out + 1 }

/-- A label of characters; `pos` is behind its length. -/
def dnsNameLabel (label : UInt8) (vars : DnsNameVars) :
    Except Fault (DnsNameVars ⊕ DnsNameResult) :=
  if 63 < label ∨ packetLen.toNat < vars.pos.toNat + label.toNat then
    .ok (.inr (vars.fails next))
  else do
    match ← dnsNameDot nameCap vars with
    | none => return .inr (vars.fails next)
    | some vars =>
      if nameCap.toNat ≤ vars.out.toNat + label.toNat then
        return .inr (vars.fails next)
      else
        let (out, name) ←
          dnsNameCopy packet vars.pos label.toNat 0 vars.out vars.name
        return .inl
          { vars with
            pos := vars.pos + label.toUInt16, out := out, name := name }

/-- A turn of the loop. -/
def dnsNameTurn (vars : DnsNameVars) :
    Except Fault (DnsNameVars ⊕ DnsNameResult) :=
  if packetLen ≤ vars.pos then .ok (.inr (vars.fails next))
  else do
    let label ← packet.read vars.pos.toNat
    if label &&& 0xc0 = 0xc0 then
      dnsNamePointer packet packetLen next label vars
    else if label &&& 0xc0 ≠ 0 then return .inr (vars.fails next)
    else if label = 0 then
      dnsNameRoot nameCap next { vars with pos := vars.pos + 1 }
    else
      dnsNameLabel packet packetLen nameCap next label
        { vars with pos := vars.pos + 1 }

end Loop

/-- `dns_name`, with `next` as the variable behind that argument if there is
one.  The loop runs on fuel. -/
def dnsName (packet : Window) (packetLen offset : UInt16) (name : Window)
    (nameCap : UInt16) (next : Option UInt16) (fuel : Nat) :
    Option (Except Fault DnsNameResult) :=
  if packetLen ≤ offset ∨ nameCap < 2 then some (.ok ⟨false, name, next⟩)
  else
    runLoop (fun vars => leaveOnError
      (dnsNameTurn packet packetLen nameCap next vars)) fuel
      { pos := offset, out := 0, after := 0, jumps := 0, jumped := false
        name := name }

/-! ## Bytes -/

theorem and_marked {label : UInt8} :
    label &&& 0xc0 = 0xc0 ↔ 192 ≤ label.toNat := by
  have all : ∀ value < 256, value &&& 192 = 192 ↔ 192 ≤ value := by
    decide +kernel
  rw [← UInt8.toNat_inj, UInt8.toNat_and]
  exact all label.toNat label.toNat_lt

theorem and_plain {label : UInt8} :
    label &&& 0xc0 = 0 ↔ label.toNat < 64 := by
  have all : ∀ value < 256, value &&& 192 = 0 ↔ value < 64 := by
    decide +kernel
  rw [← UInt8.toNat_inj, UInt8.toNat_and]
  exact all label.toNat label.toNat_lt

theorem target_toNat {label : UInt8} (marked : 192 ≤ label.toNat)
    (low : UInt8) :
    (((label &&& 0x3f).toUInt16 <<< 8) ||| low.toUInt16).toNat =
      256 * (label.toNat - 192) + low.toNat := by
  have all : ∀ value < 256, 192 ≤ value → value &&& 63 = value - 192 := by
    decide +kernel
  have bits : label.toNat &&& 63 = label.toNat - 192 :=
    all label.toNat label.toNat_lt marked
  have bottom := low.toNat_lt
  have top := label.toNat_lt
  have shifted : (label.toNat - 192) * 256 % 65536 =
      256 * (label.toNat - 192) := by
    omega
  rw [Nat.add_comm, ← Net.or_byte bottom, ← shifted, ← bits, Nat.or_comm]
  simp [UInt16.toNat_or, UInt16.toNat_shiftLeft, Nat.shiftLeft_eq]

theorem succ_toNat {value bound : UInt16}
    (below : value.toNat < bound.toNat) :
    (value + 1).toNat = value.toNat + 1 := by
  have small := bound.toNat_lt
  rw [UInt16.toNat_add]
  change (_ + 1) % 65536 = _
  omega

/-! ## What is left to decode -/

/-- The text so far. -/
def DnsNameVars.text (vars : DnsNameVars) : List UInt8 :=
  vars.name.bytes.take vars.out.toNat

/-- The text with the rest of the labels. -/
def DnsNameVars.textWith (vars : DnsNameVars) (labels : List (List UInt8)) :
    List UInt8 :=
  closeText (labels.foldl addLabel vars.text)

/-- What `*next` is to be when the name at `pos` ends there. -/
def DnsNameVars.ending (vars : DnsNameVars) (after : Nat) : Nat :=
  if vars.jumped then vars.after.toNat else after

/-- The loop is to succeed with the name at `pos`. -/
structure Accepted (packet : List UInt8) (nameCap : UInt16)
    (vars : DnsNameVars) (pointers : Nat) (labels : List (List UInt8))
    (after : Nat) : Prop where
  name : EncodedName packet vars.pos.toNat pointers labels after
  jumps : vars.jumps.toNat + pointers ≤ 32
  fits : (vars.textWith labels).length < nameCap.toNat

/-- What the loop makes of its variables. -/
structure Outcome (packet : List UInt8) (nameCap : UInt16)
    (next : Option UInt16) (vars : DnsNameVars) (result : DnsNameResult) :
    Prop where
  accepts : result.returned = true ↔ ∃ pointers labels after,
    Accepted packet nameCap vars pointers labels after
  text : ∀ {pointers labels after},
    Accepted packet nameCap vars pointers labels after →
    result.name.bytes.take ((vars.textWith labels).length + 1) =
      vars.textWith labels ++ [0]
  position : ∀ {pointers labels after},
    Accepted packet nameCap vars pointers labels after →
    result.next.map UInt16.toNat = next.map fun _ => vars.ending after
  refused : result.returned = false → result.next = next
  outside : result.name.bytes.drop nameCap.toNat =
    vars.name.bytes.drop nameCap.toNat

section Outcome

variable {packet : List UInt8} {nameCap : UInt16} {next : Option UInt16}
  {vars : DnsNameVars}

theorem Outcome.refuse
    (none : ∀ {pointers labels after},
      ¬Accepted packet nameCap vars pointers labels after)
    {name : Window}
    (outside : name.bytes.drop nameCap.toNat =
      vars.name.bytes.drop nameCap.toNat) :
    Outcome packet nameCap next vars ⟨false, name, next⟩ where
  accepts := ⟨fun returned => (nomatch returned),
    fun ⟨_, _, _, accepted⟩ => absurd accepted none⟩
  text accepted := absurd accepted none
  position accepted := absurd accepted none
  refused _ := rfl
  outside := outside

/-- A turn back: the rest of the name stands for the whole of it. -/
theorem Outcome.back {later : DnsNameVars} {result : DnsNameResult}
    (outcome : Outcome packet nameCap next later result)
    (forth : ∀ {pointers labels after},
      Accepted packet nameCap vars pointers labels after →
      ∃ fewer rest behind, Accepted packet nameCap later fewer rest behind ∧
        vars.textWith labels = later.textWith rest ∧
        vars.ending after = later.ending behind)
    (back : ∀ {fewer rest behind},
      Accepted packet nameCap later fewer rest behind →
      ∃ pointers labels after,
        Accepted packet nameCap vars pointers labels after)
    (outside : later.name.bytes.drop nameCap.toNat =
      vars.name.bytes.drop nameCap.toNat) :
    Outcome packet nameCap next vars result where
  accepts := by
    rw [outcome.accepts]
    constructor
    · rintro ⟨_, _, _, accepted⟩
      exact back accepted
    · rintro ⟨_, _, _, accepted⟩
      obtain ⟨fewer, rest, behind, accepted, _⟩ := forth accepted
      exact ⟨fewer, rest, behind, accepted⟩
  text accepted := by
    obtain ⟨_, _, _, accepted, same, _⟩ := forth accepted
    rw [same]
    exact outcome.text accepted
  position accepted := by
    obtain ⟨_, _, _, accepted, _, same⟩ := forth accepted
    rw [same]
    exact outcome.position accepted
  refused := outcome.refused
  outside := outcome.outside.trans outside

end Outcome

/-! ## The turns -/

/-- What holds at the head of the loop. -/
structure Decoding (nameCap : UInt16) (vars : DnsNameVars) : Prop where
  limit : vars.name.limit = nameCap.toNat
  room : vars.out.toNat < nameCap.toNat
  jumps : vars.jumps.toNat ≤ 32

/-- The pointers that may follow, and the bytes up to the end between them. -/
def DnsNameVars.measure (vars : DnsNameVars) : Nat :=
  (32 - vars.jumps.toNat) * 65536 + (65535 - vars.pos.toNat)

/-- What a turn does: go on with less to do, or leave. -/
def Turns (packet : List UInt8) (nameCap : UInt16) (next : Option UInt16)
    (vars : DnsNameVars)
    (turn : Except Fault (DnsNameVars ⊕ DnsNameResult)) : Prop :=
  (∃ later, turn = .ok (.inl later) ∧ Decoding nameCap later ∧
    later.measure < vars.measure ∧
    ∀ result, Outcome packet nameCap next later result →
      Outcome packet nameCap next vars result) ∨
  ∃ result, turn = .ok (.inr result) ∧
    Outcome packet nameCap next vars result

section Turns

variable {packet : List UInt8} {packetLen nameCap : UInt16}
  {next : Option UInt16} {vars : DnsNameVars}

theorem Turns.refuse {name : Window}
    (outside : name.bytes.drop nameCap.toNat =
      vars.name.bytes.drop nameCap.toNat)
    (none : ∀ {pointers labels after},
      ¬Accepted packet nameCap vars pointers labels after) :
    Turns packet nameCap next vars (.ok (.inr ⟨false, name, next⟩)) :=
  .inr ⟨_, rfl, .refuse none outside⟩

theorem Decoding.text_length (decoding : Decoding nameCap vars) :
    vars.text.length = vars.out.toNat := by
  have inside := vars.name.inside
  have room := decoding.room
  rw [decoding.limit] at inside
  rw [DnsNameVars.text, List.length_take]
  omega

theorem Decoding.text_nil (decoding : Decoding nameCap vars) :
    vars.text = [] ↔ vars.out = 0 := by
  rw [← List.length_eq_zero_iff, decoding.text_length, ← UInt16.toNat_inj]
  rfl

/-- A name with a label has room for the text up to it. -/
theorem Accepted.label_fits {pointers after : Nat} {label : List UInt8}
    {labels : List (List UInt8)}
    (accepted : Accepted packet nameCap vars pointers (label :: labels) after) :
    (addLabel vars.text label).length < nameCap.toNat := by
  refine Nat.lt_of_le_of_lt ?_ accepted.fits
  refine Nat.le_trans ?_ (length_le_closeText _)
  exact length_le_foldl_addLabel _ _

theorem dnsNamePointer_turns (len : packetLen.toNat = packet.length)
    (decoding : Decoding nameCap vars) {label : UInt8}
    (here : packet[vars.pos.toNat]? = some label)
    (marked : 192 ≤ label.toNat) :
    Turns packet nameCap next vars
      (dnsNamePointer (Window.whole packet) packetLen next label vars) := by
  have jumpsMax : dnsJumpsMax.toNat = 32 := rfl
  unfold dnsNamePointer
  split
  · rename_i stop
    rw [UInt16.le_iff_toNat_le, jumpsMax, len] at stop
    refine .refuse rfl ?_
    intro pointers labels after accepted
    obtain ⟨low, fewer, behind, second, rfl, _, _⟩ :=
      (EncodedName.at_pointer here marked).mp accepted.name
    have below := (List.getElem?_eq_some_iff.mp second).1
    have jumps := accepted.jumps
    omega
  · rename_i go
    rw [UInt16.le_iff_toNat_le, jumpsMax, len] at go
    have below : vars.pos.toNat + 1 < packet.length := by omega
    have second : packet[vars.pos.toNat + 1]? =
        some packet[vars.pos.toNat + 1] :=
      List.getElem?_eq_getElem below
    generalize packet[vars.pos.toNat + 1] = low at second
    simp only [Window.read_whole second, bind, Except.bind, pure, Except.pure]
    have target := target_toNat marked low
    generalize ((label &&& 0x3f).toUInt16 <<< 8) ||| low.toUInt16 = pos
      at target ⊢
    split
    · rename_i far
      rw [UInt16.le_iff_toNat_le, len, target] at far
      refine .refuse rfl ?_
      intro pointers labels after accepted
      obtain ⟨low', fewer, behind, second', _, _, rest⟩ :=
        (EncodedName.at_pointer here marked).mp accepted.name
      cases Option.some.inj (second.symm.trans second')
      exact absurd rest.inside (Nat.not_lt.mpr far)
    · have jumps : (vars.jumps + 1).toNat = vars.jumps.toNat + 1 :=
        succ_toNat (show _ < dnsJumpsMax.toNat by omega)
      have two : (vars.pos + 2).toNat = vars.pos.toNat + 2 := by
        have bound := packetLen.toNat_lt
        rw [UInt16.toNat_add]
        change (_ + 2) % 65536 = _
        omega
      refine .inl ⟨_, rfl, ⟨decoding.limit, decoding.room, ?_⟩, ?_, ?_⟩
      · rw [jumps]
        omega
      · unfold DnsNameVars.measure
        rw [jumps]
        omega
      · intro result outcome
        refine outcome.back ?_ ?_ rfl
        · intro pointers labels after accepted
          obtain ⟨low', fewer, behind, second', rfl, rfl, rest⟩ :=
            (EncodedName.at_pointer here marked).mp accepted.name
          cases Option.some.inj (second.symm.trans second')
          rw [← target] at rest
          refine ⟨fewer, labels, behind, ⟨rest, ?_, accepted.fits⟩, rfl, ?_⟩
          · have total := accepted.jumps
            rw [jumps]
            omega
          · unfold DnsNameVars.ending
            cases vars.jumped with
            | true => rfl
            | false => exact two.symm
        · intro fewer rest behind accepted
          have name := accepted.name
          rw [target] at name
          refine ⟨fewer + 1, rest, vars.pos.toNat + 2,
            .pointer here marked second name, ?_, accepted.fits⟩
          have total := accepted.jumps
          rw [jumps] at total
          omega

theorem Outcome.finish (decoding : Decoding nameCap vars)
    (here : packet[vars.pos.toNat]? = some 0) {name : Window} {after : UInt16}
    (written : name.bytes.take ((closeText vars.text).length + 1) =
      closeText vars.text ++ [0])
    (fits : (closeText vars.text).length < nameCap.toNat)
    (position : after.toNat = vars.ending (vars.pos.toNat + 1))
    (outside : name.bytes.drop nameCap.toNat =
      vars.name.bytes.drop nameCap.toNat) :
    Outcome packet nameCap next vars ⟨true, name, next.map fun _ => after⟩ where
  accepts := ⟨fun _ => ⟨0, [], _, .root here, decoding.jumps, fits⟩,
    fun _ => rfl⟩
  text accepted := by
    obtain ⟨rfl, rfl, rfl⟩ := (EncodedName.at_root here).mp accepted.name
    exact written
  position accepted := by
    obtain ⟨rfl, rfl, rfl⟩ := (EncodedName.at_root here).mp accepted.name
    rw [← position, Option.map_map]
    rfl
  refused returned := nomatch returned
  outside := outside

theorem ahead (len : packetLen.toNat = packet.length) {byte : UInt8}
    (here : packet[vars.pos.toNat]? = some byte) :
    (vars.pos + 1).toNat = vars.pos.toNat + 1 := by
  have below := (List.getElem?_eq_some_iff.mp here).1
  rw [← len] at below
  exact succ_toNat below

theorem dnsNameRoot_turns (len : packetLen.toNat = packet.length)
    (cap : 2 ≤ nameCap.toNat) (decoding : Decoding nameCap vars)
    (here : packet[vars.pos.toNat]? = some 0) :
    Turns packet nameCap next vars
      (dnsNameRoot nameCap next { vars with pos := vars.pos + 1 }) := by
  have position : (if vars.jumped then vars.after else vars.pos + 1).toNat =
      vars.ending (vars.pos.toNat + 1) := by
    unfold DnsNameVars.ending
    cases vars.jumped with
    | true => rfl
    | false => exact ahead len here
  have limit := decoding.limit
  have room := decoding.room
  unfold dnsNameRoot
  dsimp only
  split
  · rename_i empty
    have text := decoding.text_nil.mpr empty
    have close : closeText vars.text = [46] := by
      rw [text]
      rfl
    have zero : vars.out.toNat = 0 := by
      rw [empty]
      rfl
    have one : (vars.out + 1).toNat = 1 := by
      rw [empty]
      rfl
    rw [if_neg (by
      rw [UInt16.lt_iff_toNat_lt]
      exact Nat.not_lt.mpr cap)]
    obtain ⟨dot, wrote, dotLimit, dotText, dotOutside⟩ :=
      Window.write_ok (show 0 < vars.name.limit by omega) 46
    obtain ⟨nul, ended, nulLimit, nulText, nulOutside⟩ :=
      Window.write_ok (show 1 < dot.limit by omega) 0
    rw [dotLimit, limit] at nulOutside
    rw [limit] at dotOutside
    simp only [zero, one, wrote, ended, bind, Except.bind, pure, Except.pure]
    refine .inr ⟨_, rfl, .finish decoding here ?_ ?_ position
      (nulOutside.trans dotOutside)⟩
    · rw [close]
      exact nulText.trans (congrArg (· ++ [0]) dotText)
    · rw [close]
      exact cap
  · rename_i some'
    have close : closeText vars.text = vars.text := by
      rw [closeText, if_neg (mt decoding.text_nil.mp some')]
    obtain ⟨nul, ended, nulLimit, nulText, nulOutside⟩ :=
      Window.write_ok (show vars.out.toNat < vars.name.limit by omega) 0
    rw [limit] at nulOutside
    simp only [ended, bind, Except.bind, pure, Except.pure]
    refine .inr ⟨_, rfl, .finish decoding here ?_ ?_ position nulOutside⟩
    · rw [close, decoding.text_length]
      exact nulText
    · rw [close, decoding.text_length]
      exact room

theorem dnsNameCopy_ok {pos out : UInt16} {i : UInt8} {count : Nat}
    {name : Window} (source : pos.toNat + i.toNat + count ≤ packet.length)
    (small : i.toNat + count < 256) (limit : name.limit = nameCap.toNat)
    (room : out.toNat + count < nameCap.toNat) :
    ∃ later copied,
      dnsNameCopy (Window.whole packet) pos count i out name =
        .ok (later, copied) ∧
      later.toNat = out.toNat + count ∧ copied.limit = name.limit ∧
      copied.bytes.take (out.toNat + count) = name.bytes.take out.toNat ++
        (packet.drop (pos.toNat + i.toNat)).take count ∧
      copied.bytes.drop name.limit = name.bytes.drop name.limit := by
  induction count generalizing i out name with
  | zero =>
    refine ⟨out, name, rfl, rfl, rfl, ?_, rfl⟩
    rw [List.take_zero, List.append_nil, Nat.add_zero]
  | succ count induction =>
    have below : pos.toNat + i.toNat < packet.length := by omega
    have first : packet[pos.toNat + i.toNat]? =
        some packet[pos.toNat + i.toNat] :=
      List.getElem?_eq_getElem below
    obtain ⟨wrote, written, wroteLimit, wroteText, wroteOutside⟩ :=
      Window.write_ok (show out.toNat < name.limit by omega)
        packet[pos.toNat + i.toNat]
    have nextOut : (out + 1).toNat = out.toNat + 1 :=
      succ_toNat (show _ < nameCap.toNat by omega)
    have nextI : (i + 1).toNat = i.toNat + 1 := by
      rw [UInt8.toNat_add]
      change (_ + 1) % 256 = _
      omega
    obtain ⟨later, copied, rest, laterOut, copiedLimit, copiedText,
        copiedOutside⟩ :=
      @induction (out + 1) (i + 1) wrote (by omega) (by omega)
        (wroteLimit.trans limit) (by omega)
    refine ⟨later, copied, ?_, by omega, copiedLimit.trans wroteLimit, ?_, ?_⟩
    · simp only [dnsNameCopy, Window.read_whole first, written, bind,
        Except.bind, rest]
    · rw [nextOut, nextI, wroteText, List.append_assoc] at copiedText
      rw [List.drop_eq_getElem_cons below, List.take_succ_cons,
        ← Nat.add_assoc, Nat.add_right_comm]
      exact copiedText
    · rw [wroteLimit] at copiedOutside
      exact copiedOutside.trans wroteOutside

/-- The dot goes behind the text, unless there is none yet or no room. -/
theorem dnsNameDot_ok (decoding : Decoding nameCap vars) :
    (dnsNameDot nameCap vars = .ok none ∧ vars.text ≠ [] ∧
      nameCap.toNat ≤ vars.out.toNat + 1) ∨
    ∃ later, dnsNameDot nameCap vars = .ok (some later) ∧
      Decoding nameCap later ∧ later.pos = vars.pos ∧
      later.after = vars.after ∧ later.jumps = vars.jumps ∧
      later.jumped = vars.jumped ∧
      later.name.bytes.drop nameCap.toNat =
        vars.name.bytes.drop nameCap.toNat ∧
      ∀ label, addLabel vars.text label = later.text ++ label := by
  unfold dnsNameDot
  split
  · rename_i empty
    refine .inr ⟨vars, rfl, decoding, rfl, rfl, rfl, rfl, rfl, fun label => ?_⟩
    rw [decoding.text_nil.mpr empty]
    rfl
  rename_i some'
  have text := mt decoding.text_nil.mp some'
  split
  · rename_i full
    exact .inl ⟨rfl, text, full⟩
  · rename_i free
    have limit := decoding.limit
    have room := decoding.room
    have one : (vars.out + 1).toNat = vars.out.toNat + 1 :=
      succ_toNat decoding.room
    obtain ⟨dot, wrote, dotLimit, dotText, dotOutside⟩ :=
      Window.write_ok (show vars.out.toNat < vars.name.limit by omega) 46
    rw [limit] at dotOutside
    simp only [wrote, bind, Except.bind, pure, Except.pure]
    refine .inr ⟨_, rfl, ⟨dotLimit.trans limit, ?_, decoding.jumps⟩, rfl, rfl,
      rfl, rfl, dotOutside, fun label => ?_⟩
    · rw [one]
      omega
    · rw [addLabel, if_neg text, DnsNameVars.text, DnsNameVars.text, one,
        dotText, List.append_assoc]
      rfl

theorem dnsNameLabel_turns (len : packetLen.toNat = packet.length)
    (decoding : Decoding nameCap vars) {label : UInt8}
    (here : packet[vars.pos.toNat]? = some label)
    (positive : 0 < label.toNat) (short : label.toNat < 64) :
    Turns packet nameCap next vars
      (dnsNameLabel (Window.whole packet) packetLen nameCap next label
        { vars with pos := vars.pos + 1 }) := by
  have bound := packetLen.toNat_lt
  have ahead := ahead len here
  have rule : ∀ {pointers labels after},
      EncodedName packet vars.pos.toNat pointers labels after ↔ _ :=
    EncodedName.at_label here positive short
  unfold dnsNameLabel
  split
  · rename_i long
    rw [UInt8.lt_iff_toNat_lt, len] at long
    change 63 < _ ∨ _ < (vars.pos + 1).toNat + _ at long
    refine .refuse rfl ?_
    intro pointers labels after accepted
    have fits := (rule.mp accepted.name).1
    omega
  rename_i fits
  rw [UInt8.lt_iff_toNat_lt, len] at fits
  change ¬(63 < _ ∨ _ < (vars.pos + 1).toNat + _) at fits
  have inside : vars.pos.toNat + 1 + label.toNat ≤ packet.length := by omega
  -- the bytes of the label, as the first of the labels that are left
  generalize slice : (packet.drop (vars.pos.toNat + 1)).take label.toNat =
    bytes at rule
  have size : bytes.length = label.toNat := by
    rw [← slice, List.length_take, List.length_drop]
    omega
  have start : Decoding nameCap { vars with pos := vars.pos + 1 } :=
    ⟨decoding.limit, decoding.room, decoding.jumps⟩
  rcases dnsNameDot_ok start with
    ⟨stop, text, full⟩ |
      ⟨later, dot, kept, pos, after, jumps, jumped, outside, text⟩
  · simp only [stop, bind, Except.bind, pure, Except.pure]
    refine .refuse rfl ?_
    intro pointers labels after accepted
    obtain ⟨_, rest, rfl, _⟩ := rule.mp accepted.name
    have room := accepted.label_fits
    have length := decoding.text_length
    change vars.text ≠ [] at text
    change nameCap.toNat ≤ vars.out.toNat + 1 at full
    rw [addLabel, if_neg text, List.length_append, List.length_cons] at room
    omega
  · change ∀ label, addLabel vars.text label = later.text ++ label at text
    simp only [dot, bind, Except.bind, pure, Except.pure]
    split
    · rename_i full
      refine .refuse outside ?_
      intro pointers labels after accepted
      obtain ⟨_, rest, rfl, _⟩ := rule.mp accepted.name
      have room := accepted.label_fits
      rw [text, List.length_append, kept.text_length] at room
      omega
    · rename_i free
      obtain ⟨out, name, copied, outEq, limit, written, same⟩ :=
        @dnsNameCopy_ok packet nameCap later.pos later.out 0 label.toNat
          later.name (by
            rw [pos]
            change (vars.pos + 1).toNat + 0 + _ ≤ _
            omega)
          (by
            change 0 + _ < 256
            omega)
          kept.limit (by omega)
      have source : (packet.drop (later.pos.toNat + (0 : UInt8).toNat)).take
          label.toNat = bytes := by
        rw [← slice, pos]
        change (packet.drop ((vars.pos + 1).toNat + 0)).take _ = _
        rw [ahead, Nat.add_zero]
      have moved : (later.pos + label.toUInt16).toNat =
          vars.pos.toNat + 1 + label.toNat := by
        rw [pos, UInt16.toNat_add, UInt8.toNat_toUInt16]
        change ((vars.pos + 1).toNat + _) % 65536 = _
        omega
      rw [kept.limit] at same
      rw [source] at written
      simp only [copied]
      refine .inl ⟨_, rfl, ⟨limit.trans kept.limit, ?_, kept.jumps⟩, ?_, ?_⟩
      · rw [outEq]
        omega
      · unfold DnsNameVars.measure
        rw [moved, jumps]
        dsimp only
        omega
      · intro result outcome
        have textEq : addLabel vars.text bytes = name.bytes.take out.toNat := by
          rw [text, outEq, written]
          rfl
        refine outcome.back ?_ ?_ (same.trans outside)
        · intro pointers labels behind accepted
          obtain ⟨_, rest, rfl, encoded⟩ := rule.mp accepted.name
          have whole := accepted.fits
          rw [← moved] at encoded
          rw [DnsNameVars.textWith, List.foldl_cons, textEq] at whole
          have total := accepted.jumps
          rw [← jumps] at total
          refine ⟨pointers, rest, behind, ⟨encoded, total, whole⟩, ?_, ?_⟩
          · rw [DnsNameVars.textWith, List.foldl_cons, textEq]
            rfl
          · unfold DnsNameVars.ending
            rw [jumped, after]
        · intro fewer rest behind accepted
          have encoded := accepted.name
          have whole := accepted.fits
          have total := accepted.jumps
          rw [moved] at encoded
          rw [jumps] at total
          refine ⟨fewer, bytes :: rest, behind,
            rule.mpr ⟨inside, rest, rfl, encoded⟩, total, ?_⟩
          rw [DnsNameVars.textWith, List.foldl_cons, textEq]
          exact whole

theorem dnsNameTurn_turns (len : packetLen.toNat = packet.length)
    (cap : 2 ≤ nameCap.toNat) (decoding : Decoding nameCap vars) :
    Turns packet nameCap next vars
      (dnsNameTurn (Window.whole packet) packetLen nameCap next vars) := by
  unfold dnsNameTurn
  split
  · rename_i far
    rw [UInt16.le_iff_toNat_le, len] at far
    refine .refuse rfl ?_
    intro pointers labels after accepted
    exact absurd accepted.name.inside (Nat.not_lt.mpr far)
  rename_i near
  rw [UInt16.le_iff_toNat_le, len, Nat.not_le] at near
  have here : packet[vars.pos.toNat]? = some packet[vars.pos.toNat] :=
    List.getElem?_eq_getElem near
  generalize packet[vars.pos.toNat] = label at here
  simp only [Window.read_whole here, bind, Except.bind, pure, Except.pure]
  split
  · rename_i marked
    exact dnsNamePointer_turns len decoding here (and_marked.mp marked)
  rename_i unmarked
  rw [and_marked, Nat.not_le] at unmarked
  split
  · rename_i reserved
    rw [ne_eq, and_plain, Nat.not_lt] at reserved
    refine .refuse rfl ?_
    intro pointers labels after accepted
    exact EncodedName.not_reserved here reserved unmarked accepted.name
  rename_i plain
  rw [ne_eq, Classical.not_not, and_plain] at plain
  split
  · rename_i zero
    rw [zero] at here
    exact dnsNameRoot_turns len cap decoding here
  · rename_i some'
    rw [← UInt8.toNat_inj] at some'
    exact dnsNameLabel_turns len decoding here (Nat.pos_of_ne_zero some') plain

end Turns

/-! ## All packets -/

theorem dnsName_more {packet name : Window} {packetLen offset nameCap : UInt16}
    {next : Option UInt16} {fuel : Nat}
    {ended : Except Fault DnsNameResult}
    (ends : dnsName packet packetLen offset name nameCap next fuel = some ended)
    (more : Nat) :
    dnsName packet packetLen offset name nameCap next (fuel + more) =
      some ended := by
  by_cases wrong : packetLen ≤ offset ∨ nameCap < 2
  · rw [dnsName, if_pos wrong] at ends ⊢
    exact ends
  · rw [dnsName, if_neg wrong] at ends ⊢
    exact runLoop_more ends more

theorem dnsName_outcome {packet : List UInt8} {packetLen nameCap : UInt16}
    (len : packetLen.toNat = packet.length) (cap : 2 ≤ nameCap.toNat)
    {offset : UInt16} {name : Window} (limit : name.limit = nameCap.toNat)
    (next : Option UInt16) {fuel : Nat} (enough : 33 * 65536 ≤ fuel) :
    ∃ result, dnsName (Window.whole packet) packetLen offset name nameCap next
        fuel = some (.ok result) ∧
      Outcome packet nameCap next ⟨offset, 0, 0, 0, false, name⟩ result := by
  have large : ¬nameCap < 2 := by
    rw [UInt16.lt_iff_toNat_lt]
    exact Nat.not_lt.mpr cap
  unfold dnsName
  split
  · rename_i outside
    rw [or_iff_left large, UInt16.le_iff_toNat_le, len] at outside
    refine ⟨_, rfl, .refuse (fun accepted => ?_) rfl⟩
    exact absurd accepted.name.inside (Nat.not_lt.mpr outside)
  have start : Decoding nameCap ⟨offset, 0, 0, 0, false, name⟩ :=
    ⟨limit, Nat.lt_of_lt_of_le Nat.two_pos cap, Nat.zero_le _⟩
  have turns : ∀ vars, Decoding nameCap vars → Turns packet nameCap next vars
      (dnsNameTurn (Window.whole packet) packetLen nameCap next vars) :=
    fun vars decoding => dnsNameTurn_turns len cap decoding
  refine runLoop_leaveOnError turns start (Nat.lt_of_lt_of_le ?_ enough)
  unfold DnsNameVars.measure
  change (32 - 0) * 65536 + (65535 - offset.toNat) < _
  omega

/-- At the start the text of some labels is their dotted text. -/
theorem textWith_start {packet : List UInt8} {offset : UInt16} {name : Window}
    {pointers after : Nat} {labels : List (List UInt8)}
    (encoded : EncodedName packet offset.toNat pointers labels after) :
    DnsNameVars.textWith ⟨offset, 0, 0, 0, false, name⟩ labels =
      dotted labels :=
  closeText_foldl encoded.labels_ne_nil

theorem accepted_start {packet : List UInt8} {offset nameCap : UInt16}
    (name : Window) {pointers after : Nat} {labels : List (List UInt8)} :
    Accepted packet nameCap ⟨offset, 0, 0, 0, false, name⟩ pointers labels
        after ↔
      EncodedName packet offset.toNat pointers labels after ∧
        pointers ≤ 32 ∧ (dotted labels).length + 1 ≤ nameCap.toNat := by
  constructor
  · rintro ⟨encoded, jumps, fits⟩
    rw [textWith_start encoded] at fits
    change 0 + pointers ≤ 32 at jumps
    exact ⟨encoded, by omega, fits⟩
  · rintro ⟨encoded, jumps, fits⟩
    refine ⟨encoded, ?_, ?_⟩
    · change 0 + pointers ≤ 32
      omega
    · rw [textWith_start encoded]
      exact fits

theorem Outcome.decoded {packet : List UInt8} {offset nameCap : UInt16}
    {name : Window} {next : Option UInt16} {result : DnsNameResult}
    (outcome :
      Outcome packet nameCap next ⟨offset, 0, 0, 0, false, name⟩ result)
    {pointers after : Nat} {labels : List (List UInt8)}
    (encoded : EncodedName packet offset.toNat pointers labels after)
    (jumps : pointers ≤ 32) (fits : (dotted labels).length + 1 ≤ nameCap.toNat) :
    result.name.bytes.take ((dotted labels).length + 1) =
        dotted labels ++ [0] ∧
      result.next.map UInt16.toNat = next.map fun _ => after := by
  have accepted := (accepted_start name).mpr ⟨encoded, jumps, fits⟩
  refine ⟨?_, outcome.position accepted⟩
  rw [← textWith_start encoded]
  exact outcome.text accepted

/-- For every packet, offset and room `dns_name` ends without an access
outside its buffers.  It succeeds exactly if the offset stands for a name that
is reached through at most 32 pointers and whose text has room with the final
zero, and then it gives this text and the position behind the name. -/
theorem dnsName_decodes (packet : List UInt8) (packetLen : UInt16)
    (len : packetLen.toNat = packet.length) (offset : UInt16) (name : Window)
    (nameCap : UInt16) (limit : name.limit = nameCap.toNat)
    (cap : 2 ≤ nameCap.toNat) (next : Option UInt16) :
    ∃ result,
      (∀ fuel, 33 * 65536 ≤ fuel →
        dnsName (Window.whole packet) packetLen offset name nameCap next fuel =
          some (.ok result)) ∧
      (result.returned = true ↔ ∃ pointers labels after,
        EncodedName packet offset.toNat pointers labels after ∧
        pointers ≤ 32 ∧ (dotted labels).length + 1 ≤ nameCap.toNat) ∧
      (∀ pointers labels after,
        EncodedName packet offset.toNat pointers labels after →
        pointers ≤ 32 → (dotted labels).length + 1 ≤ nameCap.toNat →
        result.name.bytes.take ((dotted labels).length + 1) =
          dotted labels ++ [0] ∧
        result.next.map UInt16.toNat = next.map fun _ => after) ∧
      (result.returned = false → result.next = next) ∧
      result.name.bytes.drop nameCap.toNat = name.bytes.drop nameCap.toNat := by
  obtain ⟨result, ends, outcome⟩ :=
    @dnsName_outcome packet packetLen nameCap len cap offset name limit next _
      (Nat.le_refl _)
  refine ⟨result, ?_, ?_, ?_, outcome.refused, outcome.outside⟩
  · intro fuel enough
    obtain ⟨more, rfl⟩ := Nat.exists_eq_add_of_le enough
    exact dnsName_more ends more
  · simp only [outcome.accepts, accepted_start]
  · intro pointers labels after
    exact outcome.decoded

theorem dnsName_decodes_pointer :
    ∃ result,
      (∀ fuel, 33 * 65536 ≤ fuel →
        dnsName (.whole [1, 97, 192, 4, 1, 98, 0]) 7 0
          (.whole (List.replicate 8 0)) 8 (some 0) fuel = some (.ok result)) ∧
      result.name.bytes.take 4 = [97, 46, 98, 0] ∧
      result.next.map UInt16.toNat = some 4 := by
  obtain ⟨result, ends, _, decoded, _⟩ :=
    dnsName_decodes [1, 97, 192, 4, 1, 98, 0] 7 rfl 0
      (.whole (List.replicate 8 0)) 8 rfl (by decide) (some 0)
  have second : EncodedName [1, 97, 192, 4, 1, 98, 0] 4 0 [[98]] 7 :=
    .label (show _ = some 1 from rfl) (by decide) (by decide) (by decide)
      (.root rfl)
  have pointer : EncodedName [1, 97, 192, 4, 1, 98, 0] 2 1 [[98]] 4 :=
    .pointer (show _ = some 192 from rfl) (by decide)
      (show _ = some 4 from rfl) second
  have encoded : EncodedName [1, 97, 192, 4, 1, 98, 0] 0 1 [[97], [98]] 4 :=
    .label (show _ = some 1 from rfl) (by decide) (by decide) (by decide)
      pointer
  exact ⟨result, ends, decoded 1 [[97], [98]] 4 encoded (by decide) (by decide)⟩

end Gmker.Dns
