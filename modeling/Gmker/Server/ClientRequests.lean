import Gmker.Decimals
import Gmker.Net.Store
import Gmker.Server.Framing
import Gmker.Server.Storing
import Gmker.Server.StoreMap
import Gmker.Server.Stream

/-!
# Requests of the kernel's store client

The kernel builds its requests in `tcpstore.c`, the server takes them apart in
`gmstored.c`.  Both sides agree on every request about a name: the operation,
the path, the numbers and the payload arrive as they were meant.
-/

namespace Gmker.Server

open Foundation Net

variable {value : UInt64} {text : List UInt8} {len : Nat}

/-! ## Decimal numbers -/

theorem PlainDecimal.printable {value : Nat} (plain : PlainDecimal text value) :
    ∀ symbol ∈ text, 33 ≤ symbol ∧ symbol ≤ 126 := by
  intro symbol member
  have digit := plain.digits symbol member
  simp only [isDigit, Bool.and_eq_true, decide_eq_true_eq] at digit
  exact ⟨UInt8.le_trans (by decide) digit.1,
    UInt8.le_trans digit.2 (by decide)⟩

theorem PlainDecimal.number {value : Nat} (plain : PlainDecimal text value)
    (small : value ≤ ulongMax) : gmNumber text = some value := by
  rw [← plain.value] at small ⊢
  exact gmNumber_digits plain.nonempty plain.digits small

/-! ## Words and lines -/

/-- Words with one blank between them. -/
def joinWords : List (List UInt8) → List UInt8
  | [] => []
  | [word] => word
  | word :: next :: words => word ++ 32 :: joinWords (next :: words)

/-- A word of visible characters. -/
structure Word (text : List UInt8) : Prop where
  nonempty : text ≠ []
  visible : ∀ symbol ∈ text, 33 ≤ symbol ∧ symbol ≤ 126

theorem Word.of_all (nonempty : text ≠ [])
    (all : text.all (fun symbol => 33 ≤ symbol && symbol ≤ 126) = true) :
    Word text := by
  refine ⟨nonempty, ?_⟩
  intro symbol member
  simpa using List.all_eq_true.1 all symbol member

theorem Word.no_blank (word : Word text) {symbol : UInt8}
    (member : symbol ∈ text) : ¬ (symbol = 32 ∨ symbol = 9) := by
  have low := (word.visible symbol member).1
  rintro (rfl | rfl)
  · exact absurd low (by decide)
  · exact absurd low (by decide)

/-- A word goes to the token that is being read. -/
theorem gmTokens_word (solid : ∀ symbol ∈ text, ¬ (symbol = 32 ∨ symbol = 9))
    (part rest : List UInt8) :
    gmTokens part (text ++ rest) = gmTokens (part ++ text) rest := by
  induction text generalizing part with
  | nil => rw [List.nil_append, List.append_nil]
  | cons symbol text inductionHypothesis =>
    have here := solid symbol List.mem_cons_self
    have later := fun other member =>
      solid other (List.mem_cons_of_mem _ member)
    rw [List.cons_append, gmTokens, if_neg here,
      inductionHypothesis later, List.append_assoc]
    rfl

/-- The tokenizer of the server undoes the joining of words. -/
theorem gmTokens_joinWords {words : List (List UInt8)}
    (each : ∀ word ∈ words, Word word) :
    gmTokens [] (joinWords words) = words := by
  induction words with
  | nil => rfl
  | cons word words inductionHypothesis =>
    have here := each word List.mem_cons_self
    have later := fun other member =>
      each other (List.mem_cons_of_mem _ member)
    cases words with
    | nil =>
      have read := gmTokens_word (fun _ => here.no_blank) [] []
      rw [List.append_nil, List.nil_append, gmTokens,
        if_neg here.nonempty] at read
      exact read
    | cons next words =>
      rw [joinWords, gmTokens_word (fun _ => here.no_blank),
        List.nil_append, gmTokens, if_pos (.inl rfl),
        if_neg here.nonempty, inductionHypothesis later]

theorem joinWords_printable {words : List (List UInt8)}
    (each : ∀ word ∈ words, Word word) :
    ∀ symbol ∈ joinWords words, 32 ≤ symbol ∧ symbol ≤ 126 := by
  induction words with
  | nil =>
    intro symbol member
    cases member
  | cons word words inductionHypothesis =>
    have here := each word List.mem_cons_self
    have later := fun other member =>
      each other (List.mem_cons_of_mem _ member)
    have inside : ∀ symbol ∈ word, 32 ≤ symbol ∧ symbol ≤ 126 := by
      intro symbol member
      have visible := here.visible symbol member
      exact ⟨UInt8.le_trans (by decide) visible.1, visible.2⟩
    cases words with
    | nil => exact inside
    | cons next words =>
      intro symbol member
      rcases List.mem_append.1 member with first | behind
      · exact inside symbol first
      rcases List.mem_cons.1 behind with rfl | rest
      · decide
      · exact inductionHypothesis later symbol rest

/-! ## Names -/

theorem gmNameScan_visible {part rest : List UInt8}
    (valid : gmNameScan part rest = true) :
    ∀ symbol ∈ rest, 33 ≤ symbol ∧ symbol ≤ 126 := by
  induction rest generalizing part with
  | nil =>
    intro symbol member
    cases member
  | cons first rest inductionHypothesis =>
    unfold gmNameScan at valid
    intro symbol member
    by_cases slash : first = 47
    · rw [if_pos slash, Bool.and_eq_true] at valid
      rcases List.mem_cons.1 member with rfl | later
      · rw [slash]
        decide
      · exact inductionHypothesis valid.2 symbol later
    · rw [if_neg slash] at valid
      split at valid
      · cases valid
      rename_i inside
      rcases List.mem_cons.1 member with rfl | later
      · rw [not_or, UInt8.not_lt, UInt8.not_lt] at inside
        exact inside
      · exact inductionHypothesis valid symbol later

theorem gmNameValid_word {path : List UInt8}
    (valid : gmNameValid path = true) : Word (cString path) := by
  unfold gmNameValid at valid
  split at valid
  · rename_i next rest name
    rw [name]
    refine ⟨by simp, ?_⟩
    intro symbol member
    rcases List.mem_cons.1 member with rfl | later
    · decide
    · exact gmNameScan_visible valid symbol later
  · cases valid

theorem cString_cString (bytes : List UInt8) :
    cString (cString bytes) = cString bytes :=
  List.takeWhile_idem

theorem gmNameValid_cString (path : List UInt8) :
    gmNameValid (cString path) = gmNameValid path := by
  unfold gmNameValid
  rw [cString_cString]

theorem gmStorePath_length {path : List UInt8}
    (accepted : gmStorePath path = true) : (cString path).length < 192 := by
  unfold gmStorePath at accepted
  split at accepted
  · rename_i next rest name
    rw [Bool.and_eq_true, decide_eq_true_eq] at accepted
    rw [name]
    simpa using accepted.2
  · cases accepted

/-! ## The operations on a name -/

/-- `gm_store_size`, `gm_store_read`, `gm_store_write` and `gm_store_delete`
with their arguments. -/
inductive GmNamedOp where
  | stat (path : List UInt8)
  | read (path : List UInt8) (offset : UInt64) (len : Nat)
  | write (path data : List UInt8) (append : Bool)
  | delete (path : List UInt8)

variable {op : GmNamedOp}

namespace GmNamedOp

def path : GmNamedOp → List UInt8
  | .stat path => path
  | .read path _ _ => path
  | .write path _ _ => path
  | .delete path => path

/-- The bytes that the client sends. -/
def request : GmNamedOp → List UInt8
  | .stat path => gmStoreLine (ascii "STAT") (some path) none
  | .read path offset len => gmStoreReadRequest path offset len
  | .write path data append => gmStoreWriteRequest path data append
  | .delete path => gmStoreLine (ascii "DEL") (some path) none

/-- The size of the buffer `req`. -/
def buffer : GmNamedOp → Nat
  | .write .. => 256 + gmStoreBlock
  | _ => 256

/-- Both sides accept the path, and the numbers are in range. -/
def Accepted (op : GmNamedOp) : Prop :=
  gmStorePath op.path = true ∧ gmNameValid op.path = true ∧
    match op with
    | .read _ offset len => offset.toNat < 2 ^ 63 ∧ len ≤ gmStoreBlock
    | .write _ data _ => data.length ≤ gmStoreBlock
    | _ => True

/-- The words of the request line. -/
def words : GmNamedOp → List (List UInt8)
  | .stat path => [ascii "STAT", cString path]
  | .read path offset len =>
    [ascii "READ", cString path, gmStoreDec offset,
      gmStoreDec (UInt64.ofNat len)]
  | .write path data append =>
    [storeWord append, cString path,
      gmStoreDec (UInt64.ofNat data.length)]
  | .delete path => [ascii "DEL", cString path]

/-- The bytes behind the request line. -/
def payload : GmNamedOp → List UInt8
  | .write _ data _ => data
  | _ => []

/-- The request is a line of words and a payload. -/
theorem payload_bare (bare : ∀ path data append, op ≠ .write path data append) :
    op.payload = [] := by
  cases op with
  | write path data append => exact absurd rfl (bare path data append)
  | stat path => rfl
  | read path offset len => rfl
  | delete path => rfl

theorem request_eq (op : GmNamedOp) :
    op.request = joinWords op.words ++ 10 :: op.payload := by
  cases op with
  | stat path =>
    simp [request, words, payload, gmStoreLine, joinWords]
  | read path offset len =>
    have line : gmStoreLine (ascii "READ") (some path) (some offset) =
        (ascii "READ" ++ 32 :: cString path ++ 32 :: gmStoreDec offset) ++
          [10] := rfl
    rw [request, gmStoreReadRequest, line, List.dropLast_concat]
    simp [words, payload, joinWords]
  | write path data append =>
    cases append <;>
      simp [request, words, payload, gmStoreWriteRequest, joinWords,
        storeWord]
  | delete path =>
    simp [request, words, payload, gmStoreLine, joinWords]

/-- A length of at most a block survives the trip through `uint64_t`. -/
theorem length_toNat (small : len ≤ gmStoreBlock) :
    (UInt64.ofNat len).toNat = len := by
  have bound : len ≤ 1024 := small
  rw [UInt64.toNat_ofNat']
  omega

theorem decimal_length (small : len ≤ gmStoreBlock) :
    (gmStoreDec (UInt64.ofNat len)).length ≤ 4 := by
  apply gmStoreDec_length
  rw [length_toNat small]
  exact Nat.lt_of_le_of_lt small (by decide)

theorem count_value (small : len ≤ gmStoreBlock) :
    decimalValue (gmStoreDec (UInt64.ofNat len)) = len := by
  rw [(gmStoreDec_short _).value, length_toNat small]

variable (accepted : op.Accepted)

include accepted

theorem words_word : ∀ word ∈ op.words, Word word := by
  have name := gmNameValid_word accepted.2.1
  have decimal : ∀ value, Word (gmStoreDec value) := fun value =>
    ⟨(gmStoreDec_short value).nonempty, (gmStoreDec_short value).printable⟩
  cases op with
  | stat path =>
    simp only [words, List.forall_mem_cons]
    exact ⟨.of_all (by decide) (by decide), name, by simp⟩
  | read path offset len =>
    simp only [words, List.forall_mem_cons]
    exact ⟨.of_all (by decide) (by decide), name, decimal _, decimal _,
      by simp⟩
  | write path data append =>
    have command : Word (storeWord append) := by
      cases append with
      | false => exact .of_all (by decide) (by decide)
      | true => exact .of_all (by decide) (by decide)
    simp only [words, List.forall_mem_cons]
    exact ⟨command, name, decimal _, by simp⟩
  | delete path =>
    simp only [words, List.forall_mem_cons]
    exact ⟨.of_all (by decide) (by decide), name, by simp⟩

/-- The line of a request stays far below the buffers of both sides. -/
theorem line_length :
    (joinWords op.words).length ≤ 222 := by
  have name := gmStorePath_length accepted.1
  have commands : (ascii "STAT").length = 4 ∧ (ascii "READ").length = 4 ∧
      (ascii "DEL").length = 3 := by decide
  cases op <;> simp only [words, joinWords, List.length_append,
    List.length_cons, commands] <;> simp only [GmNamedOp.path] at name
  case stat | delete => omega
  case read path offset len =>
    obtain ⟨_, _, offsetSmall, lenSmall⟩ := accepted
    have first : (gmStoreDec offset).length ≤ 19 :=
      gmStoreDec_length (Nat.lt_trans offsetSmall (by decide))
    have second := decimal_length lenSmall
    omega
  case write path data append =>
    have word : (storeWord append).length ≤ 6 := by
      cases append <;> decide
    have count := decimal_length accepted.2.2
    omega

theorem payload_fits :
    op.payload.length ≤ 1024 ∧ 256 + op.payload.length ≤ op.buffer := by
  cases op with
  | write path data append =>
    exact ⟨accepted.2.2, Nat.add_le_add_left accepted.2.2 256⟩
  | stat path => exact ⟨Nat.zero_le _, Nat.le_refl _⟩
  | read path offset len => exact ⟨Nat.zero_le _, Nat.le_refl _⟩
  | delete path => exact ⟨Nat.zero_le _, Nat.le_refl _⟩

/-- The request fits its buffer and one reliable send. -/
theorem request_fits :
    op.request.length ≤ op.buffer ∧ op.request.length ≤ gmTcpTxMax := by
  have line := line_length accepted
  obtain ⟨small, room⟩ := payload_fits accepted
  have limit : gmTcpTxMax = 1280 := rfl
  rw [request_eq, List.length_append, List.length_cons]
  omega

theorem name_valid :
    gmNameValid (cString op.path) = true := by
  rw [gmNameValid_cString]
  exact accepted.2.1

theorem name_short :
    (cString op.path).length < gmstorePath :=
  Nat.lt_trans (gmStorePath_length accepted.1) (by decide)

/-- The name that the server sees. -/
def name (op : GmNamedOp) (accepted : op.Accepted) : GmName where
  text := cString op.path
  valid := name_valid accepted
  plain := cString_cString op.path
  short := name_short accepted

theorem line_short :
    (joinWords op.words).length < gmstoreLine :=
  Nat.lt_of_le_of_lt (line_length accepted) (by decide)

theorem tokens :
    gmTokens [] (joinWords op.words) = op.words :=
  gmTokens_joinWords (words_word accepted)

theorem form :
    GmForm (gmTokens [] (joinWords op.words)) op.payload := by
  rw [tokens accepted]
  cases op with
  | stat path => exact .plain _ _ (by decide) (by decide)
  | read path offset len => exact .plain _ _ (by decide) (by decide)
  | delete path => exact .plain _ _ (by decide) (by decide)
  | write path data append =>
    obtain ⟨_, _, small⟩ := accepted
    have plain := gmStoreDec_short (UInt64.ofNat data.length)
    have value := count_value small
    refine .store append _ _ _ plain.nonempty plain.digits ?_ value.symm
    rw [value]
    exact small

/-- The request as the server takes it up. -/
def toRequest (op : GmNamedOp) (accepted : op.Accepted) : GmRequest where
  line := joinWords op.words
  payload := op.payload
  short := line_short accepted
  printable := joinWords_printable (words_word accepted)
  form := form accepted

end GmNamedOp

/-! ## What the server does with them -/

/-- The operation itself, on exactly the path, the numbers and the data that it
was called with: the reply and the store it leaves. -/
def gmPerform (op : GmNamedOp) (store : GmStore) : List UInt8 × GmStore :=
  match op with
  | .stat path =>
    match gmOpenRegular (cString path) store.root store.fs with
    | (none, fs) => (ascii "ERR missing" ++ [10], store.withFs fs)
    | (some (_, size), fs) =>
      (ascii "OK " ++ decimalText (size % (ulongMax + 1)) ++ [10],
        store.withFs fs)
  | .read path offset len =>
    match gmReadBlock (cString path) offset.toNat len store.root
        store.fs with
    | (none, fs) => (ascii "ERR read" ++ [10], store.withFs fs)
    | (some data, fs) =>
      (ascii "OK " ++ decimalText data.length ++ [10] ++ data,
        store.withFs fs)
  | .write path data append =>
    match gmStorePayload append (cString path) data store.root store.fs with
    | (some error, fs) => (error.text ++ [10], store.withFs fs)
    | (none, fs) => (ascii "OK" ++ [10], store.withFs fs)
  | .delete path =>
    match gmDelete (cString path) store with
    | (deleted, store) => (deleted.text ++ [10], store)

theorem gmPerform_reply (op : GmNamedOp) (store : GmStore) :
    (gmPerform op store).1 ≠ [] := by
  cases op with
  | stat path =>
    rw [gmPerform]
    split <;> simp
  | read path offset len =>
    rw [gmPerform]
    split <;> simp
  | write path data append =>
    rw [gmPerform]
    split <;> simp
  | delete path => simp [gmPerform]

theorem GmClient.logReply_replied {client : GmClient}
    (replied : client.output ≠ []) :
    client.logReply =
      { client with
        trace :=
          { client.trace with
            replies := client.trace.replies ++ [client.output] } } :=
  if_neg replied

/-- The server has executed the operation and answers it. -/
structure Executed (op : GmNamedOp) (client : GmClient) (store : GmStore)
    (result : GmClient × GmStore) : Prop where
  live : result.1.live = true
  reply : result.1.output = (gmPerform op store).1
  start : result.1.outputPos = 0
  settled : result.1.pending = .none
  command : result.1.trace.commands =
    client.trace.commands ++ [joinWords op.words]
  replies : result.1.trace.replies =
    client.trace.replies ++ [(gmPerform op store).1]
  store : result.2 = (gmPerform op store).2

/-- The request has left the input, and nothing else. -/
structure ConsumesExactly (op : GmNamedOp) (client : GmClient)
    (more : List UInt8) (result : GmClient × GmStore) : Prop where
  input : result.1.input = more
  consumed : result.1.trace.consumed = client.trace.consumed ++ op.request

section Commands

variable {caller : GmClient} (idle : caller.Idle) (store : GmStore)
include idle

theorem gmCommandStat_performs (path : List UInt8) :
    gmCommandStat (cString path) caller store =
      (true, { caller with output := (gmPerform (.stat path) store).1 },
        (gmPerform (.stat path) store).2) := by
  rw [gmCommandStat, gmPerform]
  generalize gmOpenRegular (cString path) store.root store.fs = opened
  obtain ⟨found, fs⟩ := opened
  rcases found with _ | ⟨handle, size⟩
  · exact gmAnswer_idle idle _ (by decide)
  · exact gmAnswer_idle idle _ (sizeLine_short size)

theorem gmCommandRead_performs (path : List UInt8) (offset : UInt64)
    (near : offset.toNat ≤ longMax) (small : len ≤ gmStoreBlock) :
    gmCommandRead (cString path) (gmStoreDec offset)
        (gmStoreDec (UInt64.ofNat len)) caller store =
      (true, { caller with
          output := (gmPerform (.read path offset len) store).1 },
        (gmPerform (.read path offset len) store).2) := by
  have within : ¬ (gmstoreBlock < len ∨ longMax < offset.toNat) := by
    have block : gmstoreBlock = gmStoreBlock := rfl
    omega
  have fits : ∀ value : UInt64, value.toNat ≤ ulongMax := fun value =>
    Nat.le_of_lt_succ value.toNat_lt
  have isOffset := (gmStoreDec_short offset).number (fits _)
  have isCount := (gmStoreDec_short (UInt64.ofNat len)).number (fits _)
  rw [GmNamedOp.length_toNat small] at isCount
  rw [gmPerform]
  rcases block : gmReadBlock (cString path) offset.toNat len store.root
    store.fs with ⟨_ | data, fs⟩
  · rw [gmCommandRead, isOffset, isCount]
    simp only [if_neg within, block]
    exact gmAnswer_idle idle _ (by decide)
  · exact (gmCommandRead_block isOffset isCount within block).2 caller idle

theorem gmCommandDel_performs (path : List UInt8) :
    gmCommandDel (cString path) caller store =
      (true, { caller with output := (gmPerform (.delete path) store).1 },
        (gmPerform (.delete path) store).2) := by
  rw [gmCommandDel, gmPerform]
  generalize gmDelete (cString path) store = result
  obtain ⟨deleted, after⟩ := result
  apply gmAnswer_idle idle
  cases deleted <;> decide

/-- `gm_command` answers what carries no payload at once. -/
theorem gmCommandParts_performs (accepted : op.Accepted)
    (bare : ∀ path data append, op ≠ .write path data append) :
    gmCommandParts op.words caller store =
      (true, { caller with output := (gmPerform op store).1 },
        (gmPerform op store).2) := by
  have valid := GmNamedOp.name_valid accepted
  cases op with
  | write path data append => exact absurd rfl (bare path data append)
  | stat path =>
    rw [← gmCommandStat_performs idle store path]
    simp only [GmNamedOp.path] at valid
    simp [gmCommandParts, GmNamedOp.words, gmCommandNamed, valid]
  | delete path =>
    have words : ascii "DEL" ≠ ascii "STAT" := by decide
    rw [← gmCommandDel_performs idle store path]
    simp only [GmNamedOp.path] at valid
    simp [gmCommandParts, GmNamedOp.words, gmCommandNamed, valid, words]
  | read path offset len =>
    obtain ⟨_, _, near, small⟩ := accepted
    rw [← gmCommandRead_performs idle store path offset
      (Nat.le_of_lt_succ near) small]
    simp only [GmNamedOp.path] at valid
    simp [gmCommandParts, GmNamedOp.words, gmCommandNamed, valid]

end Commands

/-- `gm_command` waits for the payload of a request, and has it. -/
theorem gmCommandParts_writes {path data : List UInt8} {append : Bool}
    (accepted : (GmNamedOp.write path data append).Accepted)
    (caller : GmClient) (store : GmStore) :
    gmCommandParts (GmNamedOp.write path data append).words caller store =
      let result := gmPendingWrite
        { caller with
          pending := storePending append
          pendingCount := data.length
          pendingPath := cString path } store
      (result.1.live, result.1, result.2) := by
  have small : data.length ≤ gmStoreBlock := accepted.2.2
  have value := GmNamedOp.count_value small
  have plain := gmStoreDec_short (UInt64.ofNat data.length)
  have parts := @gmCommandParts_store append _ _ caller store plain.nonempty
    plain.digits (Nat.le_trans (Nat.le_of_eq value) small)
    (GmNamedOp.name_valid accepted) (GmNamedOp.name_short accepted)
  rw [value] at parts
  exact parts

section Served

variable {op : GmNamedOp} (accepted : op.Accepted) {client : GmClient}
  (idle : client.Idle) (ready : client.pending = .none) {more : List UInt8}
  (arrived : client.input = op.request ++ more)

/-- The client when the line of the request has been taken. -/
def GmClient.takenUp (client : GmClient) (op : GmNamedOp)
    (more : List UInt8) : GmClient :=
  { client with
    input := op.payload ++ more
    trace :=
      { client.trace with
        consumed := client.trace.consumed ++ (joinWords op.words ++ [10])
        commands := client.trace.commands ++ [joinWords op.words] } }

include accepted idle ready arrived

/-- `gm_process_input` hands the words of the request to `gm_command`. -/
theorem gmProcessInput_command (store : GmStore) :
    gmProcessInput client store =
      let result := gmFinish
        (gmCommandParts op.words (client.takenUp op more) store)
      (result.1.logReply, result.2) := by
  have line : client.input =
      (op.toRequest accepted).line ++ 10 :: (op.payload ++ more) := by
    rw [arrived, op.request_eq, List.append_assoc, List.cons_append]
    rfl
  have taken : client.takeLine (op.toRequest accepted) =
      client.takenUp op more := by
    have front : joinWords op.words ++ 10 :: (op.payload ++ more) =
        (joinWords op.words ++ [10]) ++ (op.payload ++ more) := by simp
    have size : (op.toRequest accepted).line.length + 1 =
        (joinWords op.words ++ [10]).length := by
      rw [List.length_append]
      rfl
    rw [GmClient.takeLine, gmInputConsume, line, size]
    change GmClient.logCommand { client with
      input := (joinWords op.words ++ 10 :: (op.payload ++ more)).drop _
      trace := { client.trace with
        consumed := client.trace.consumed ++
          (joinWords op.words ++ 10 :: (op.payload ++ more)).take _ } } _ = _
    rw [front, List.drop_left, List.take_left]
    rfl
  rw [gmProcessInput_idle idle, if_neg (not_not.mpr ready),
    gmProcessLine_request store line, taken, gmCommand,
    show gmTokens [] (op.toRequest accepted).line = op.words from
      GmNamedOp.tokens accepted]

theorem gmProcessInput_bare (store : GmStore)
    (bare : ∀ path data append, op ≠ .write path data append) :
    Executed op client store (gmProcessInput client store) ∧
      ConsumesExactly op client more (gmProcessInput client store) := by
  have caller : (client.takenUp op more).Idle :=
    ⟨idle.live, idle.empty, idle.start⟩
  have nothing : op.payload = [] := GmNamedOp.payload_bare bare
  have replies : (gmPerform op store).1 ≠ [] := gmPerform_reply op store
  rw [gmProcessInput_command accepted idle ready arrived store,
    gmCommandParts_performs caller store accepted bare]
  simp only [gmFinish]
  rw [GmClient.logReply_replied replies]
  refine ⟨⟨idle.live, rfl, idle.start, ready, rfl, rfl, rfl⟩, ?_, ?_⟩
  · simp [GmClient.takenUp, nothing]
  · simp [GmClient.takenUp, op.request_eq, nothing]

end Served

section Stored

variable {path data : List UInt8} {append : Bool}
  (accepted : (GmNamedOp.write path data append).Accepted)
  {client : GmClient} (idle : client.Idle) (ready : client.pending = .none)
  {more : List UInt8}
  (arrived : client.input =
    (GmNamedOp.write path data append).request ++ more)
  (store : GmStore)

/-- The client when it has its payload in front of the input. -/
def GmClient.loaded (client : GmClient) (path data : List UInt8)
    (append : Bool) (more : List UInt8) : GmClient :=
  { client.takenUp (.write path data append) more with
    pending := storePending append
    pendingCount := data.length
    pendingPath := cString path }

include accepted idle ready arrived

theorem gmProcessInput_loaded
    (live : (gmPendingWrite (client.loaded path data append more)
      store).1.live = true) :
    gmProcessInput client store =
      ((gmPendingWrite (client.loaded path data append more)
          store).1.logReply,
        (gmPendingWrite (client.loaded path data append more) store).2) := by
  have parts : gmCommandParts (GmNamedOp.write path data append).words
      (client.takenUp (.write path data append) more) store =
        let result := gmPendingWrite (client.loaded path data append more)
          store
        (result.1.live, result.1, result.2) :=
    gmCommandParts_writes accepted _ store
  rw [gmProcessInput_command accepted idle ready arrived store, parts]
  generalize gmPendingWrite (client.loaded path data append more) store =
    result at live
  simp only [live, gmFinish]

/-- A request with a payload is executed.  It leaves the input, unless the
payload was refused. -/
theorem gmProcessInput_write :
    Executed (.write path data append) client store
        (gmProcessInput client store) ∧
      (ConsumesExactly (.write path data append) client more
          (gmProcessInput client store) ↔
        data = [] ∨
          (gmStorePayload append (cString path) data store.root
            store.fs).1 = none) := by
  have waits : (client.loaded path data append more).pending ≠ .none := by
    cases append <;> exact GmPending.noConfusion
  have kind : decide ((client.loaded path data append more).pending =
      .append) = append := by
    cases append <;> rfl
  have enough : ¬ (client.loaded path data append more).input.length <
      (client.loaded path data append more).pendingCount := by
    change ¬ (data ++ more).length < data.length
    rw [List.length_append]
    omega
  have front : (client.loaded path data append more).input.take
      (client.loaded path data append more).pendingCount = data :=
    List.take_left
  have stored : (client.loaded path data append more).storePayload store =
      gmStorePayload append (cString path) data store.root store.fs := by
    rw [GmClient.storePayload, kind, front]
    rfl
  generalize outcome : gmStorePayload append (cString path) data store.root
    store.fs = result at stored
  obtain ⟨error, fs⟩ := result
  have performed : gmPerform (.write path data append) store =
      (((client.loaded path data append more).settled error).output,
        store.withFs fs) := by
    rw [gmPerform, outcome]
    cases error <;> rfl
  have whole := gmProcessInput_loaded accepted idle ready arrived store
  rw [gmPendingWrite_complete waits enough idle.empty, stored] at whole
  obtain ⟨live, start, pending, replied, _⟩ :=
    @GmClient.settled_answers (client.loaded path data append more) error
      idle.start
  rw [whole (live.trans idle.live), GmClient.logReply_replied replied]
  refine ⟨⟨live.trans idle.live, ?_, start, pending, ?_, ?_, ?_⟩, ?_⟩
  · rw [performed]
  · cases error <;> rfl
  · rw [performed]
    cases error <;> rfl
  · rw [performed]
  cases error with
  | none =>
    refine iff_of_true ⟨List.drop_left, ?_⟩ (.inr rfl)
    change client.trace.consumed ++ (_ ++ [10]) ++
      (data ++ more).take data.length = _
    rw [List.take_left, GmNamedOp.request_eq]
    simp [GmNamedOp.payload]
  | some error =>
    simp only [reduceCtorEq, or_false]
    constructor
    · rintro ⟨input, _⟩
      have same : data ++ more = more := input
      exact List.append_left_eq_self.mp same
    · rintro rfl
      exact ⟨rfl, by simp [GmNamedOp.request_eq, GmClient.settled,
        GmClient.loaded, GmClient.takenUp, GmNamedOp.payload]⟩

end Stored

/-- Every request fits its buffers and is executed as it was meant.  It is
consumed exactly, unless it carries a payload that cannot be stored. -/
theorem gmProcessInput_serves_request (op : GmNamedOp)
    (accepted : op.Accepted) (client : GmClient) (idle : client.Idle)
    (ready : client.pending = .none) (more : List UInt8)
    (arrived : client.input = op.request ++ more) (store : GmStore) :
    (op.request.length ≤ op.buffer ∧ op.request.length ≤ gmTcpTxMax) ∧
      Executed op client store (gmProcessInput client store) ∧
      (ConsumesExactly op client more (gmProcessInput client store) ↔
        op.payload = [] ∨
          Storable store (op.name accepted) op.payload.length) := by
  refine ⟨GmNamedOp.request_fits accepted, ?_⟩
  by_cases bare : ∀ path data append, op ≠ .write path data append
  · obtain ⟨executed, consumed⟩ :=
      gmProcessInput_bare accepted idle ready arrived store bare
    have nothing : op.payload = [] := GmNamedOp.payload_bare bare
    exact ⟨executed, iff_of_true consumed (.inl nothing)⟩
  · simp only [ne_eq, not_forall, not_not] at bare
    obtain ⟨path, data, append, rfl⟩ := bare
    obtain ⟨executed, consumed⟩ :=
      gmProcessInput_write accepted idle ready arrived store
    refine ⟨executed, consumed.trans ?_⟩
    exact or_congr Iff.rfl (gmStorePayload_stores append
      ((GmNamedOp.write path data append).name accepted) data store)

def shortOp : GmNamedOp := .write (ascii "/a") (ascii "x") false

theorem shortOp_accepted : shortOp.Accepted := by
  refine ⟨by decide, by decide, ?_⟩
  change (ascii "x").length ≤ gmStoreBlock
  decide

def shortClient : GmClient := { live := true, input := shortOp.request }

theorem gmProcessInput_serves_request_short :
    Executed shortOp shortClient emptyStore
        (gmProcessInput shortClient emptyStore) ∧
      ConsumesExactly shortOp shortClient []
        (gmProcessInput shortClient emptyStore) := by
  have served := gmProcessInput_serves_request shortOp shortOp_accepted
    shortClient ⟨rfl, rfl, rfl⟩ rfl [] (List.append_nil _).symm emptyStore
  exact ⟨served.2.1, served.2.2.mpr (.inr
    ⟨by decide, by decide, by decide⟩)⟩

def deepOp : GmNamedOp := .write (ascii "/a/b") (ascii "PING\n") false

def deepClient : GmClient := { live := true, input := deepOp.request }

/-- The payload stays in the input when its parent is a regular file. -/
theorem gmProcessInput_leaves_payload :
    let store := (gmPerform shortOp emptyStore).2
    deepOp.Accepted ∧ deepClient.Idle ∧ deepClient.pending = .none ∧
      deepClient.input = deepOp.request ++ [] ∧
      (gmProcessInput deepClient store).1.input = ascii "PING\n" ∧
      ¬ ConsumesExactly deepOp deepClient []
        (gmProcessInput deepClient store) := by
  intro store
  have left : (gmProcessInput deepClient store).1.input = ascii "PING\n" := by
    decide +kernel
  refine ⟨⟨by decide, by decide, ?_⟩, ⟨rfl, rfl, rfl⟩, rfl,
    (List.append_nil _).symm, left, ?_⟩
  · change (ascii "PING\n").length ≤ gmStoreBlock
    decide
  · intro consumes
    have empty := left.symm.trans consumes.input
    revert empty
    decide

end Gmker.Server
