import Gmker.Programs.Services

/-!
# User memory touched by the service gate

A service hands register values to the rest of the kernel as pointers.  Each
call is given the addresses it may touch, loop turn by loop turn as in the
routine it names, and every one of them lies in a part of the arena that the
running program can access itself.
-/

namespace Gmker.Programs

variable {addr len data : UInt64}

/-- The addresses below the guard page and those of the user stack. -/
def UserByte (address : Nat) : Prop :=
  gmProgramBase ≤ address ∧ address < gmProgramGuard ∨
    gmProgramStack ≤ address ∧ address < gmProgramEnd

/-- The limits of the arena as numbers. -/
private theorem user_layout :
    gmProgramBase = 1073741824 ∧ gmProgramGuard = 1073811456 ∧
      gmProgramStack = 1073815552 ∧ gmProgramEnd = 1073831936 := by
  decide

/-! ## The bytes each routine touches -/

/-- The addresses of `len` bytes from a pointer on. -/
def byteBlock (address : UInt64) (len : Nat) : List UInt64 :=
  (List.range len).map fun offset => address + UInt64.ofNat offset

/-- The reads of `gm_user_string` from byte `position` on. -/
def gmUserStringReadLoop (memory : UInt64 → UInt8) (addr : UInt64) :
    Nat → Nat → List UInt64
  | 0, _ => []
  | budget + 1, position =>
    let cursor := addr + UInt64.ofNat position
    if gmUserRange cursor 1 = false then []
    else if memory cursor = 0 then [cursor]
    else cursor :: gmUserStringReadLoop memory addr budget (position + 1)

/-- The reads of `gm_user_string`. -/
def gmUserStringReads (memory : UInt64 → UInt8) (addr : UInt64) (max : Nat) :
    List UInt64 :=
  if gmUserRange addr 1 = false then []
  else gmUserStringReadLoop memory addr max 0

/-- The reads of the first turns of a loop over the characters of a string. -/
def stringReads (memory : UInt64 → UInt8) (text : UInt64) :
    Nat → Nat → List UInt64
  | 0, _ => []
  | turns + 1, position =>
    let cursor := text + UInt64.ofNat position
    if memory cursor = 0 then [cursor]
    else cursor :: stringReads memory text turns (position + 1)

/-- The reads of `gm_write`. -/
def gmWriteReads (memory : UInt64 → UInt8) (text : UInt64) (turns : Nat) :
    List UInt64 :=
  if text = 0 then [] else stringReads memory text turns 0

/-- The reads of the loop of `gm_store_path`.  A dot makes it look one byte
ahead. -/
def gmStorePathReadLoop (memory : UInt64 → UInt8) (path : UInt64) :
    Nat → Nat → List UInt64
  | 0, _ => []
  | turns + 1, position =>
    let cursor := path + UInt64.ofNat position
    let following := path + UInt64.ofNat (position + 1)
    if memory cursor = 0 then [cursor]
    else if memory cursor ∈ ascii " \n\r\t" then [cursor]
    else if memory cursor = 46 then
      if memory following = 46 then [cursor, following]
      else
        cursor :: following ::
          gmStorePathReadLoop memory path turns (position + 1)
    else cursor :: gmStorePathReadLoop memory path turns (position + 1)

/-- The reads of `gm_store_path`. -/
def gmStorePathReads (memory : UInt64 → UInt8) (path : UInt64) (turns : Nat) :
    List UInt64 :=
  if path = 0 then []
  else if memory path ≠ 47 then [path]
  else if memory (path + 1) = 0 then [path, path + 1]
  else path :: (path + 1) :: gmStorePathReadLoop memory path turns 1

/-- The reads of a path by a store operation: `gm_store_path` checks it, then
the request line copies it. -/
def gmStorePathUses (memory : UInt64 → UInt8) (path : UInt64) (turns : Nat) :
    List UInt64 :=
  gmStorePathReads memory path turns ++ stringReads memory path turns 0

/-- The writes of `gm_udp_exchange` for a reply of a given length. -/
def gmUdpReplyWrites (rx : UInt64) (rxMax replyLen : UInt16) : List UInt64 :=
  if replyLen = 0 ∨ rxMax < replyLen then []
  else byteBlock rx replyLen.toNat

/-- The writes of the loop of `gm_store_read`: in every turn `gm_tcp_read`
delivers what is available, up to the rest of the block. -/
def gmStoreReadWriteLoop (data : UInt64) (count : Nat) :
    List Nat → Nat → List UInt64
  | [], _ => []
  | available :: later, received =>
    if received < count then
      let take := min available (count - received)
      byteBlock (data + UInt64.ofNat received) take ++
        gmStoreReadWriteLoop data count later (received + take)
    else []

/-- The writes of `gm_store_read` once the server has announced `count`. -/
def gmStoreReadWrites (data : UInt64) (len : UInt16) (count : UInt64)
    (arrivals : List Nat) : List UInt64 :=
  if len.toUInt64 < count then []
  else gmStoreReadWriteLoop data count.toNat arrivals 0

/-- What the routines meet inside: how many turns their string loops take, the
length of a datagram that came back, the count a server announced and the
bytes that were available turn by turn. -/
structure GmInner where
  turns : Nat
  replyLen : UInt16
  count : UInt64
  arrivals : List Nat

/-- The user addresses a call may read or write. -/
def GmCall.touches (memory : UInt64 → UInt8) (inner : GmInner) :
    GmCall → List UInt64
  | .write text => gmWriteReads memory text inner.turns
  | .printU64 _ => []
  | .copyOut address len => byteBlock address len
  | .ping address _ => byteBlock address 4
  | .udpExchange address _ tx txLen rx rxLen =>
    byteBlock address 4 ++ byteBlock tx txLen.toUInt16.toNat ++
      gmUdpReplyWrites rx rxLen.toUInt16 inner.replyLen
  | .storeConnect => []
  | .storeSize path => gmStorePathUses memory path inner.turns
  | .storeRead path _ data len =>
    gmStorePathUses memory path inner.turns ++
      gmStoreReadWrites data len.toUInt16 inner.count inner.arrivals
  | .storeWrite path data len _ =>
    gmStorePathUses memory path inner.turns ++
      byteBlock data len.toUInt16.toNat

/-! ## Ranges -/

/-- A non-wrapping run of bytes in one part of the arena. -/
def UserRun (address len : Nat) : Prop :=
  gmProgramBase ≤ address ∧ address < gmProgramGuard ∧
      address + len ≤ gmProgramGuard ∨
    gmProgramStack ≤ address ∧ address < gmProgramEnd ∧
      address + len ≤ gmProgramEnd

theorem gmUserRange_eq_true :
    gmUserRange addr len = true ↔ UserRun addr.toNat len.toNat := by
  obtain ⟨base, guard, stack, finish⟩ := user_layout
  have small := addr.toNat_lt
  have short := len.toNat_lt
  have sum := UInt64.toNat_add addr len
  unfold gmUserRange UserRun
  simp only [UInt64.lt_iff_toNat_lt, UInt64.le_iff_toNat_le, base, guard,
    stack, finish, UInt64.toNat_ofNat', sum]
  split
  · simp only [Bool.false_eq_true, false_iff]
    omega
  split
  · simp only [Bool.false_eq_true, false_iff]
    omega
  split
  · simp only [Bool.false_eq_true, false_iff]
    omega
  split
  · simp only [true_iff]
    omega
  split
  · simp only [true_iff]
    omega
  · simp only [Bool.false_eq_true, false_iff]
    omega

theorem gmUserRange_one : gmUserRange addr 1 = true ↔ UserByte addr.toNat := by
  have one : (1 : UInt64).toNat = 1 := rfl
  rw [gmUserRange_eq_true, one]
  unfold UserRun UserByte
  omega

theorem gmUserRange_one_eq_false :
    gmUserRange addr 1 = false ↔ ¬ UserByte addr.toNat := by
  rw [← gmUserRange_one]
  exact Bool.eq_false_iff

theorem UserByte.small {address : Nat} (valid : UserByte address) :
    address < 2 ^ 64 := by
  obtain ⟨base, guard, stack, finish⟩ := user_layout
  unfold UserByte at valid
  omega

theorem UserRun.byte {address len offset : Nat} (run : UserRun address len)
    (inside : offset < len) : UserByte (address + offset) := by
  unfold UserRun at run
  unfold UserByte
  omega

/-- A run of bytes is checked byte by byte or by its ends. -/
theorem UserRun.bytes {address len : Nat} (positive : 0 < len) :
    UserRun address len ↔
      (∀ offset < len, gmProgramBase ≤ address + offset ∧
        address + offset < gmProgramGuard) ∨
      (∀ offset < len, gmProgramStack ≤ address + offset ∧
        address + offset < gmProgramEnd) := by
  unfold UserRun
  constructor
  · rintro (⟨low, -, high⟩ | ⟨low, -, high⟩)
    · left
      intro offset inside
      omega
    · right
      intro offset inside
      omega
  · rintro (valid | valid)
    · have first := valid 0 positive
      have last := valid (len - 1) (by omega)
      left
      omega
    · have first := valid 0 positive
      have last := valid (len - 1) (by omega)
      right
      omega

/-- Bytes of the arena are reached without wrapping around. -/
theorem toNat_add_offset {offset : Nat} (valid : UserByte (addr.toNat + offset)) :
    (addr + UInt64.ofNat offset).toNat = addr.toNat + offset := by
  have small := valid.small
  rw [UInt64.toNat_add, UInt64.toNat_ofNat',
    Nat.mod_eq_of_lt (show offset < 2 ^ 64 by omega), Nat.mod_eq_of_lt small]

/-- All addresses of a list are user bytes. -/
def UserBytes (addresses : List UInt64) : Prop :=
  ∀ byte ∈ addresses, UserByte byte.toNat

theorem UserBytes.nil : UserBytes [] := nofun

theorem UserBytes.cons {rest : List UInt64} (first : UserByte addr.toNat)
    (later : UserBytes rest) : UserBytes (addr :: rest) :=
  List.forall_mem_cons.mpr ⟨first, later⟩

theorem UserBytes.append {left right : List UInt64} (early : UserBytes left)
    (late : UserBytes right) : UserBytes (left ++ right) :=
  List.forall_mem_append.mpr ⟨early, late⟩

/-- A part of a checked range stays in it. -/
theorem UserRun.block {len short : Nat} (run : UserRun addr.toNat len)
    (within : short ≤ len) : UserBytes (byteBlock addr short) := by
  intro byte member
  obtain ⟨offset, inside, rfl⟩ := List.mem_map.mp member
  have valid := run.byte (Nat.lt_of_lt_of_le (List.mem_range.mp inside) within)
  rw [toNat_add_offset valid]
  exact valid

/-! ## Strings -/

section

variable {max : Nat}

variable {memory : UInt64 → UInt8} {addr : UInt64} {len position : Nat}

/-- A string of the arena, with its terminator. -/
structure UserString (memory : UInt64 → UInt8) (addr : UInt64) (len : Nat) :
    Prop where
  bytes : ∀ position ≤ len, UserByte (addr.toNat + position)
  ends : memory (addr + UInt64.ofNat len) = 0

section

variable (string : UserString memory addr len)

include string

theorem UserString.reaches (inside : position ≤ len) :
    UserByte (addr + UInt64.ofNat position).toNat := by
  rw [toNat_add_offset (string.bytes position inside)]
  exact string.bytes position inside

/-- A loop that stopped before the terminator has a byte left to look at. -/
theorem UserString.continues (inside : position ≤ len)
    (symbol : memory (addr + UInt64.ofNat position) ≠ 0) :
    position + 1 ≤ len := by
  rcases Nat.lt_or_eq_of_le inside with before | rfl
  · exact before
  · exact absurd string.ends symbol

theorem UserString.stringReads (turns : Nat) (inside : position ≤ len) :
    UserBytes (stringReads memory addr turns position) := by
  induction turns generalizing position with
  | zero => exact .nil
  | succ turns induction =>
    rw [Programs.stringReads]
    split
    · exact .cons (string.reaches inside) .nil
    · rename_i symbol
      exact .cons (string.reaches inside)
        (induction (string.continues inside symbol))

theorem UserString.pathReadLoop (turns : Nat) (inside : position ≤ len) :
    UserBytes (gmStorePathReadLoop memory addr turns position) := by
  induction turns generalizing position with
  | zero => exact .nil
  | succ turns induction =>
    have here := string.reaches inside
    rw [gmStorePathReadLoop]
    split
    · exact .cons here .nil
    rename_i symbol
    have more := string.continues inside symbol
    have ahead := string.reaches more
    split
    · exact .cons here .nil
    split
    · split
      · exact .cons here (.cons ahead .nil)
      · exact .cons here (.cons ahead (induction more))
    · exact .cons here (induction more)

theorem UserString.pathReads (turns : Nat) :
    UserBytes (gmStorePathReads memory addr turns) := by
  have first : UserByte addr.toNat := string.bytes 0 (Nat.zero_le len)
  have start : addr + UInt64.ofNat 0 = addr := UInt64.add_zero addr
  unfold gmStorePathReads
  split
  · exact .nil
  split
  · exact .cons first .nil
  rename_i slash
  have symbol : memory (addr + UInt64.ofNat 0) ≠ 0 := by
    rw [start, Decidable.not_not.mp slash]
    decide
  have more : 1 ≤ len := string.continues (Nat.zero_le len) symbol
  have second : UserByte (addr + 1).toNat := string.reaches more
  split
  · exact .cons first (.cons second .nil)
  · exact .cons first (.cons second (string.pathReadLoop turns more))

theorem UserString.pathUses (turns : Nat) :
    UserBytes (gmStorePathUses memory addr turns) :=
  (string.pathReads turns).append (string.stringReads turns (Nat.zero_le len))

end

/-- The scan finds the first NUL from its position on, and has tested every
byte up to it. -/
theorem gmUserStringLoop_eq_some :
    ∀ budget position,
      gmUserStringLoop memory addr budget position = some len ↔
      position ≤ len ∧ len < position + budget ∧
        memory (addr + UInt64.ofNat len) = 0 ∧
        (∀ index, position ≤ index → index < len →
          memory (addr + UInt64.ofNat index) ≠ 0) ∧
        ∀ index, position ≤ index → index ≤ len →
          UserByte (addr + UInt64.ofNat index).toNat := by
  intro budget
  induction budget with
  | zero =>
    intro position
    rw [gmUserStringLoop]
    constructor
    · intro found
      cases found
    · rintro ⟨low, high, -⟩
      omega
  | succ budget induction =>
    intro position
    rw [gmUserStringLoop]
    split
    · rename_i outside
      have invalid := gmUserRange_one_eq_false.mp outside
      constructor
      · intro found
        cases found
      · rintro ⟨low, -, -, -, valid⟩
        exact absurd (valid position (Nat.le_refl _) low) invalid
    rename_i inside
    have here : UserByte (addr + UInt64.ofNat position).toNat := by
      by_contra invalid
      exact inside (gmUserRange_one_eq_false.mpr invalid)
    split
    · rename_i zero
      constructor
      · intro found
        obtain rfl := Option.some.inj found
        refine ⟨Nat.le_refl _, by omega, zero, ?_, ?_⟩
        · intro index low high
          omega
        · intro index low high
          rw [Nat.le_antisymm high low]
          exact here
      · rintro ⟨low, high, ends, symbols, valid⟩
        rcases Nat.lt_or_eq_of_le low with before | rfl
        · exact absurd zero (symbols position (Nat.le_refl _) before)
        · rfl
    · rename_i symbol
      rw [induction (position + 1)]
      constructor
      · rintro ⟨low, high, ends, symbols, valid⟩
        refine ⟨by omega, by omega, ends, ?_, ?_⟩
        · intro index above below
          rcases Nat.lt_or_eq_of_le above with later | rfl
          · exact symbols index later below
          · exact symbol
        · intro index above below
          rcases Nat.lt_or_eq_of_le above with later | rfl
          · exact valid index later below
          · exact here
      · rintro ⟨low, high, ends, symbols, valid⟩
        have further : position ≠ len := by
          rintro rfl
          exact symbol ends
        refine ⟨by omega, by omega, ends, ?_, ?_⟩
        · intro index above below
          exact symbols index (by omega) below
        · intro index above below
          exact valid index (by omega) below

/-- Consecutive valid bytes do not wrap around. -/
theorem userBytes_consecutive :
    (∀ index ≤ len, UserByte (addr + UInt64.ofNat index).toNat) ↔
      ∀ index ≤ len, UserByte (addr.toNat + index) := by
  constructor
  · intro valid index
    induction index with
    | zero =>
      intro inside
      have first := valid 0 inside
      have start : addr + UInt64.ofNat 0 = addr := UInt64.add_zero addr
      rwa [start] at first
    | succ index induction =>
      intro inside
      have before := induction (by omega)
      have here := valid (index + 1) inside
      obtain ⟨base, guard, stack, finish⟩ := user_layout
      have low : addr.toNat + (index + 1) < 2 ^ 64 := by
        unfold UserByte at before
        omega
      rwa [UInt64.toNat_add, UInt64.toNat_ofNat',
        Nat.mod_eq_of_lt (show index + 1 < 2 ^ 64 by omega),
        Nat.mod_eq_of_lt low] at here
  · intro valid index inside
    rw [toNat_add_offset (valid index inside)]
    exact valid index inside

theorem gmUserString_eq_some :
    gmUserString memory addr max = some len ↔
      len < max ∧ memory (addr + UInt64.ofNat len) = 0 ∧
        (∀ index < len, memory (addr + UInt64.ofNat index) ≠ 0) ∧
        ∀ index ≤ len, UserByte (addr.toNat + index) := by
  unfold gmUserString
  split
  · rename_i outside
    constructor
    · intro found
      cases found
    · rintro ⟨-, -, -, valid⟩
      exact absurd (valid 0 (Nat.zero_le _))
        (gmUserRange_one_eq_false.mp outside)
  · rw [gmUserStringLoop_eq_some, ← userBytes_consecutive, Nat.zero_add]
    simp only [Nat.zero_le, true_and, forall_true_left]

theorem UserString.of_checked
    (checked : gmUserString memory addr max = some len) :
    UserString memory addr len := by
  obtain ⟨-, ends, -, valid⟩ := gmUserString_eq_some.mp checked
  exact ⟨valid, ends⟩

theorem UserString.of_accepted (accepted : gmUserString memory addr max ≠ none) :
    ∃ len, UserString memory addr len := by
  obtain ⟨len, checked⟩ := Option.ne_none_iff_exists'.mp accepted
  exact ⟨len, .of_checked checked⟩

/-- The check itself looks at no byte before having tested its address. -/
theorem gmUserStringReadLoop_valid (memory : UInt64 → UInt8) (addr : UInt64)
    (budget position : Nat) :
    UserBytes (gmUserStringReadLoop memory addr budget position) := by
  induction budget generalizing position with
  | zero => exact .nil
  | succ budget induction =>
    rw [gmUserStringReadLoop]
    split
    · exact .nil
    rename_i inside
    have here : UserByte (addr + UInt64.ofNat position).toNat := by
      by_contra invalid
      exact inside (gmUserRange_one_eq_false.mpr invalid)
    split
    · exact .cons here .nil
    · exact .cons here (induction (position + 1))

theorem gmUserStringReads_valid (memory : UInt64 → UInt8) (addr : UInt64)
    (max : Nat) : UserBytes (gmUserStringReads memory addr max) := by
  unfold gmUserStringReads
  split
  · exact .nil
  · exact gmUserStringReadLoop_valid memory addr max 0

end

/-! ## Replies and blocks -/

theorem gmUdpReplyWrites_valid {rx : UInt64} {rxMax replyLen : UInt16}
    (checked : rxMax ≠ 0 → UserRun rx.toNat rxMax.toNat) :
    UserBytes (gmUdpReplyWrites rx rxMax replyLen) := by
  unfold gmUdpReplyWrites
  split
  · exact .nil
  rename_i fits
  have some : replyLen ≠ 0 := fun none => fits (.inl none)
  have within : replyLen.toNat ≤ rxMax.toNat :=
    Nat.le_of_not_lt fun long => fits (.inr (UInt16.lt_iff_toNat_lt.mpr long))
  have room : rxMax ≠ 0 := by
    rintro rfl
    exact some (UInt16.toNat_inj.mp (Nat.le_zero.mp within))
  exact (checked room).block within

theorem gmStoreReadWriteLoop_valid {len count : Nat}
    (run : UserRun data.toNat len) (within : count ≤ len)
    (arrivals : List Nat) (received : Nat) :
    UserBytes (gmStoreReadWriteLoop data count arrivals received) := by
  induction arrivals generalizing received with
  | nil => exact .nil
  | cons available later induction =>
    rw [gmStoreReadWriteLoop]
    split
    · refine .append ?_ (induction _)
      intro byte written
      obtain ⟨offset, taken, rfl⟩ := List.mem_map.mp written
      have below := List.mem_range.mp taken
      have valid := run.byte (show received + offset < len by omega)
      have place : data + UInt64.ofNat received + UInt64.ofNat offset =
          data + UInt64.ofNat (received + offset) := by
        rw [UInt64.ofNat_add, UInt64.add_assoc]
      rw [place, toNat_add_offset valid]
      exact valid
    · exact .nil

theorem gmStoreReadWrites_valid {len : UInt16} {count : UInt64}
    (run : UserRun data.toNat len.toNat) (arrivals : List Nat) :
    UserBytes (gmStoreReadWrites data len count arrivals) := by
  unfold gmStoreReadWrites
  split
  · exact .nil
  · rename_i short
    have within : count.toNat ≤ len.toNat := by
      have bound := UInt64.le_iff_toNat_le.mp (UInt64.not_lt.mp short)
      rwa [UInt16.toNat_toUInt64] at bound
    exact gmStoreReadWriteLoop_valid run within arrivals 0

/-! ## The services -/

/-- Every byte a call may touch belongs to the caller. -/
def GmCall.Confined (memory : UInt64 → UInt8) (call : GmCall) : Prop :=
  ∀ inner, ∀ byte ∈ call.touches memory inner, UserByte byte.toNat

/-- All calls of a list are confined. -/
def ConfinedCalls (memory : UInt64 → UInt8) (calls : List GmCall) : Prop :=
  ∀ call ∈ calls, call.Confined memory

section

variable {kernel : GmKernel} {env : GmServiceEnv} {frame : GmServiceFrame}

theorem ConfinedCalls.nil {memory : UInt64 → UInt8} :
    ConfinedCalls memory [] := nofun

theorem ConfinedCalls.snoc {memory : UInt64 → UInt8} {calls : List GmCall}
    {call : GmCall} (before : ConfinedCalls memory calls)
    (last : call.Confined memory) : ConfinedCalls memory (calls ++ [call]) :=
  List.forall_mem_append.mpr ⟨before, List.forall_mem_singleton.mpr last⟩

theorem GmCall.Confined.alone {memory : UInt64 → UInt8} {call : GmCall}
    (confined : call.Confined memory) : ConfinedCalls memory [call] :=
  List.forall_mem_singleton.mpr confined

/-- A length that passed its limit survives the cast to `uint16_t`. -/
private theorem toUInt16_toNat {limit : Nat}
    (short : ¬ UInt64.ofNat limit < len) (small : limit < 2 ^ 16) :
    len.toUInt16.toNat = len.toNat := by
  have bound := UInt64.le_iff_toNat_le.mp (UInt64.not_lt.mp short)
  rw [UInt64.toNat_ofNat',
    Nat.mod_eq_of_lt (show limit < 2 ^ 64 by omega)] at bound
  rw [UInt64.toNat_toUInt16, Nat.mod_eq_of_lt (by omega)]

theorem gmStoreSession_confined {ready : Bool} {calls : List GmCall}
    (session : gmStoreSession env = (ready, calls)) :
    ConfinedCalls env.memory calls := by
  unfold gmStoreSession at session
  split at session
  · obtain ⟨rfl, rfl⟩ := Prod.mk.inj session
    exact .nil
  · obtain ⟨rfl, rfl⟩ := Prod.mk.inj session
    apply GmCall.Confined.alone
    nofun

theorem gmServiceStoreStat_confined :
    ConfinedCalls env.memory (gmServiceStoreStat env frame).2 := by
  unfold gmServiceStoreStat
  split
  · exact .nil
  rename_i checked
  obtain ⟨len, string⟩ := UserString.of_accepted fun none => checked (.inl none)
  have out : UserRun frame.rsi.toNat 8 := by
    have range : gmUserRange frame.rsi 8 = true :=
      Bool.of_not_eq_false fun invalid => checked (.inr invalid)
    exact gmUserRange_eq_true.mp range
  have size : (GmCall.storeSize frame.rdi).Confined env.memory := by
    intro inner
    exact string.pathUses inner.turns
  have copy : (GmCall.copyOut frame.rsi 8).Confined env.memory := by
    intro inner
    exact out.block (Nat.le_refl 8)
  rcases session : gmStoreSession env with ⟨ready, calls⟩
  have before := gmStoreSession_confined session
  cases ready with
  | false => exact before
  | true =>
    cases env.storeSize with
    | none => exact before.snoc size
    | some answer =>
      have both := (before.snoc size).snoc copy
      rwa [List.append_assoc] at both

/-- A store operation behind its session: the path and the block were checked
before it is called. -/
private theorem block_call_confined {ready : Bool} {calls : List GmCall}
    {rax : UInt64} {operation : GmCall}
    (session : gmStoreSession env = (ready, calls))
    (confined : ∀ stringLen, UserString env.memory frame.rdi stringLen →
      UserRun data.toNat len.toUInt16.toNat → operation.Confined env.memory) :
    ConfinedCalls env.memory
      (if gmUserString env.memory frame.rdi 191 = none ∨
          UInt64.ofNat gmStoreBlock < len ∨ gmUserRange data len = false then
        (0, calls)
      else (rax, calls ++ [operation])).2 := by
  have before := gmStoreSession_confined session
  split
  · exact before
  rename_i checked
  obtain ⟨stringLen, string⟩ :=
    UserString.of_accepted fun none => checked (.inl none)
  have short : ¬ UInt64.ofNat gmStoreBlock < len :=
    fun long => checked (.inr (.inl long))
  have run : UserRun data.toNat len.toUInt16.toNat := by
    rw [toUInt16_toNat short (by decide)]
    exact gmUserRange_eq_true.mp
      (Bool.of_not_eq_false fun invalid => checked (.inr (.inr invalid)))
  exact before.snoc (confined stringLen string run)

theorem gmServiceStoreRead_confined :
    ConfinedCalls env.memory (gmServiceStoreRead env frame).2 := by
  unfold gmServiceStoreRead
  rcases session : gmStoreSession env with ⟨ready, calls⟩
  cases ready with
  | false => exact gmStoreSession_confined session
  | true =>
    apply block_call_confined session
    intro stringLen string run inner
    exact (string.pathUses inner.turns).append
      (gmStoreReadWrites_valid run inner.arrivals)

theorem gmServiceStoreWrite_confined :
    ConfinedCalls env.memory (gmServiceStoreWrite env frame).2 := by
  unfold gmServiceStoreWrite
  rcases session : gmStoreSession env with ⟨ready, calls⟩
  cases ready with
  | false => exact gmStoreSession_confined session
  | true =>
    apply block_call_confined session
    intro stringLen string run inner
    exact (string.pathUses inner.turns).append (run.block (Nat.le_refl _))

theorem gmServiceUdpExchange_confined :
    ConfinedCalls env.memory (gmServiceUdpExchange env frame).2 := by
  unfold gmServiceUdpExchange
  split
  · exact .nil
  rename_i checked
  simp only [not_or, not_and, Bool.not_eq_false] at checked
  obtain ⟨-, -, txShort, rxShort, address, tx, rx⟩ := checked
  have txLen := toUInt16_toNat txShort (by decide)
  have rxLen := toUInt16_toNat rxShort (by decide)
  apply GmCall.Confined.alone
  intro inner
  have peer := (gmUserRange_eq_true.mp address).block (Nat.le_refl 4)
  refine (peer.append ?_).append (gmUdpReplyWrites_valid ?_)
  · -- An empty datagram reads nothing, whatever its pointer is.
    by_cases empty : frame.rcx = 0
    · rw [empty]
      exact .nil
    · exact (gmUserRange_eq_true.mp (tx empty)).block (Nat.le_of_eq txLen)
  · intro room
    rw [rxLen]
    refine gmUserRange_eq_true.mp (rx ?_)
    intro empty
    rw [empty] at room
    exact room rfl

theorem gmServiceOwned_confined {resource : Nat}
    {body answer : UInt64 × List GmCall}
    (inside : ConfinedCalls env.memory body.2)
    (answered : gmServiceOwned resource kernel body = .ok answer) :
    ConfinedCalls env.memory answer.2 := by
  unfold gmServiceOwned at answered
  split at answered
  · cases answered
  · obtain rfl := Except.ok.inj answered
    exact .nil
  · obtain rfl := Except.ok.inj answered
    exact inside

private theorem range_call_confined {addr len rax : UInt64}
    {operation : GmCall} {answer : UInt64 × List GmCall}
    (confined : UserRun addr.toNat len.toNat → operation.Confined env.memory)
    (answered : (if gmUserRange addr len = false then
        (.ok (0, []) : Except GmPanic (UInt64 × List GmCall))
      else .ok (rax, [operation])) = .ok answer) :
    ConfinedCalls env.memory answer.2 := by
  split at answered
  · obtain rfl := Except.ok.inj answered
    exact .nil
  · rename_i inside
    obtain rfl := Except.ok.inj answered
    exact (confined
      (gmUserRange_eq_true.mp (Bool.of_not_eq_false inside))).alone

theorem gmServiceAnswer_confined {answer : UInt64 × List GmCall}
    (answered : gmServiceAnswer env frame kernel = .ok answer) :
    ConfinedCalls env.memory answer.2 := by
  unfold gmServiceAnswer at answered
  split at answered
  · split at answered
    · cases answered
      exact .nil
    · rename_i len checked
      cases answered
      apply GmCall.Confined.alone
      intro inner
      change UserBytes (gmWriteReads env.memory frame.rdi inner.turns)
      unfold gmWriteReads
      split
      · exact .nil
      · exact (UserString.of_checked checked).stringReads inner.turns
          (Nat.zero_le len)
  split at answered
  · cases answered
    apply GmCall.Confined.alone
    nofun
  split at answered
  · cases answered
    exact .nil
  split at answered
  · refine range_call_confined ?_ answered
    intro run inner
    exact run.block (Nat.le_refl 4)
  split at answered
  · refine range_call_confined ?_ answered
    intro run inner
    exact run.block (Nat.le_refl 4)
  split at answered
  · exact gmServiceOwned_confined gmServiceUdpExchange_confined answered
  split at answered
  · exact gmServiceOwned_confined gmServiceStoreStat_confined answered
  split at answered
  · exact gmServiceOwned_confined gmServiceStoreRead_confined answered
  split at answered
  · exact gmServiceOwned_confined gmServiceStoreWrite_confined answered
  · cases answered
    exact .nil

/-- Every call of the service gate stays in the caller's part of the
arena. -/
theorem gmProgramService_confined {outcome : GmServiceOutcome}
    (served : gmProgramService env frame kernel = .ok outcome) :
    ConfinedCalls env.memory outcome.calls := by
  revert served
  fun_cases gmProgramService env frame kernel <;> rintro ⟨⟩
  case case12 answered => exact gmServiceAnswer_confined answered
  all_goals exact .nil

end

/-- No service makes the kernel read or write a user address that it has not
checked, and both checks accept exactly what they should. -/
theorem gmProgramService_checks_pointers :
    (∀ (env : GmServiceEnv) (inner : GmInner) (frame : GmServiceFrame)
        (kernel : GmKernel) (outcome : GmServiceOutcome),
      gmProgramService env frame kernel = .ok outcome →
        ∀ call ∈ outcome.calls, ∀ byte ∈ call.touches env.memory inner,
          UserByte byte.toNat) ∧
    (∀ (memory : UInt64 → UInt8) (addr : UInt64) (max : Nat),
      ∀ byte ∈ gmUserStringReads memory addr max, UserByte byte.toNat) ∧
    (∀ addr len : UInt64, 0 < len →
      (gmUserRange addr len = true ↔
        (∀ offset < len.toNat, gmProgramBase ≤ addr.toNat + offset ∧
          addr.toNat + offset < gmProgramGuard) ∨
        (∀ offset < len.toNat, gmProgramStack ≤ addr.toNat + offset ∧
          addr.toNat + offset < gmProgramEnd))) ∧
    (∀ (memory : UInt64 → UInt8) (addr : UInt64) (max len : Nat),
      gmUserString memory addr max = some len ↔
        len < max ∧ memory (addr + UInt64.ofNat len) = 0 ∧
          (∀ index < len, memory (addr + UInt64.ofNat index) ≠ 0) ∧
          ∀ index ≤ len, UserByte (addr.toNat + index)) := by
  refine ⟨?_, gmUserStringReads_valid, ?_, ?_⟩
  · intro env inner frame kernel outcome served call member
    exact gmProgramService_confined served call member inner
  · intro addr len positive
    rw [gmUserRange_eq_true]
    exact UserRun.bytes (UInt64.lt_iff_toNat_lt.mp positive)
  · intro memory addr max len
    exact gmUserString_eq_some

/-- A caller with the text "hi" at the start of its arena. -/
def textServices : GmServiceEnv :=
  { idleServices with
    memory := fun address =>
      if address = 0x40000000 then 104
      else if address = 0x40000001 then 105
      else 0 }

/-- The text is written for the one running application. -/
theorem gmProgramService_checks_pointers_write :
    (GmCall.write 0x40000000).touches textServices.memory ⟨3, 0, 0, []⟩ =
      [0x40000000, 0x40000001, 0x40000002] ∧
    ∀ call ∈ [GmCall.write 0x40000000],
      ∀ byte ∈ call.touches textServices.memory ⟨3, 0, 0, []⟩,
        UserByte byte.toNat :=
  ⟨by decide, gmProgramService_checks_pointers.1 textServices ⟨3, 0, 0, []⟩
    { rax := gmSvcWrite, rdi := 0x40000000, cs := 3 }
    (GmKernel.setApp {} 0 { state := .running }) _ rfl⟩

end Gmker.Programs
