import Mathlib.Data.List.TakeWhile
import Gmker.Server.Replies

/-!
# Requests of a client

A client sends requests one behind the other: lines, and `WRITE` or `APPEND`
headers with the payload they announce.  This module says how such a line is
taken up and how a payload ends.
-/

namespace Gmker.Server

open Foundation

variable {client : GmClient} {more : List UInt8} {store : GmStore}

/-- The word for storing. -/
def storeWord (append : Bool) : List UInt8 :=
  if append then ascii "APPEND" else ascii "WRITE"

def storePending (append : Bool) : GmPending :=
  if append then .append else .write

/-- The tokens of a request and its payload fit together. -/
inductive GmForm : List (List UInt8) → List UInt8 → Prop where
  | plain (command : List UInt8) (args : List (List UInt8))
      (notWrite : command ≠ ascii "WRITE")
      (notAppend : command ≠ ascii "APPEND") : GmForm (command :: args) []
  | store (append : Bool) (path count payload : List UInt8)
      (nonempty : count ≠ []) (digits : ∀ symbol ∈ count, isDigit symbol = true)
      (small : decimalValue count ≤ gmstoreBlock)
      (size : payload.length = decimalValue count) :
      GmForm [storeWord append, path, count] payload

/-- A request as a client may send it. -/
structure GmRequest where
  line : List UInt8
  payload : List UInt8
  short : line.length < gmstoreLine
  printable : ∀ symbol ∈ line, 32 ≤ symbol ∧ symbol ≤ 126
  form : GmForm (gmTokens [] line) payload

variable {requests : List GmRequest}

/-- The bytes of a request. -/
def GmRequest.bytes (request : GmRequest) : List UInt8 :=
  request.line ++ 10 :: request.payload

/-- A payload is sent only for a name that the server accepts. -/
def GmRequest.Named (request : GmRequest) : Prop :=
  request.payload ≠ [] →
    gmNameValid ((gmTokens [] request.line).getD 1 []) = true

/-- The bytes of requests that follow each other. -/
def stream (requests : List GmRequest) : List UInt8 :=
  requests.flatMap GmRequest.bytes

/-! Lines of requests. -/

theorem GmRequest.no_newline (request : GmRequest) : 10 ∉ request.line := by
  intro member
  exact absurd (request.printable 10 member).1 (by decide)

/-- Input that has a newline holds the whole first line. -/
theorem line_of_newline {input line rest : List UInt8}
    (within : input <+: line ++ 10 :: rest) (newline : 10 ∈ input)
    (noNewline : 10 ∉ line) :
    ∃ more, input = line ++ 10 :: more ∧ more <+: rest := by
  rcases Nat.le_total input.length line.length with short | long
  · have inside : input <+: line :=
      List.prefix_of_prefix_length_le within (List.prefix_append _ _) short
    exact absurd (inside.subset newline) noNewline
  · obtain ⟨tail, rfl⟩ : line <+: input :=
      List.prefix_of_prefix_length_le (List.prefix_append _ _) within long
    have tailWithin : tail <+: 10 :: rest :=
      (List.prefix_append_right_inj line).mp within
    cases tail with
    | nil =>
      rw [List.append_nil] at newline
      exact absurd newline noNewline
    | cons symbol more =>
      obtain ⟨rfl, moreWithin⟩ := List.cons_prefix_cons.mp tailWithin
      exact ⟨more, rfl, moreWithin⟩

theorem short_of_no_newline {input : List UInt8}
    (within : input <+: stream requests) (noNewline : 10 ∉ input) :
    input.length < gmstoreLine := by
  cases requests with
  | nil =>
    rw [List.prefix_nil.mp within]
    decide
  | cons next rest =>
    rcases Nat.lt_or_ge next.line.length input.length with long | short
    · have head : next.line ++ [10] <+: stream (next :: rest) :=
        ⟨next.payload ++ stream rest, by simp [stream, GmRequest.bytes]⟩
      have inside : next.line ++ [10] <+: input :=
        List.prefix_of_prefix_length_le head within (by simp; omega)
      exact absurd (inside.subset (by simp)) noNewline
    · exact Nat.lt_of_le_of_lt short next.short

theorem gmStripReturn_line (request : GmRequest) :
    gmStripReturn request.line = request.line := by
  rw [gmStripReturn, if_neg]
  intro last
  have member := List.mem_of_getLast? last
  exact absurd (request.printable 13 member).1 (by decide)

theorem takeWhile_line (request : GmRequest) (more : List UInt8) :
    (request.line ++ 10 :: more).takeWhile (· != 10) = request.line := by
  have inside : ∀ symbol ∈ request.line, (symbol != 10) = true := by
    intro symbol member
    rw [bne_iff_ne]
    rintro rfl
    exact request.no_newline member
  rw [List.takeWhile_append_of_pos inside]
  simp

/-- A client that has taken a line from its input. -/
def GmClient.takeLine (client : GmClient) (request : GmRequest) : GmClient :=
  (gmInputConsume (request.line.length + 1) client).logCommand request.line

/-- The line of a request passes the tests of `gm_process_input`. -/
theorem GmRequest.accepted (request : GmRequest) :
    ¬ (gmstoreLine < request.line.length + 1 ∨
      request.line.any (fun symbol => symbol < 32 || 126 < symbol)) := by
  have short := request.short
  rintro (long | strange)
  · omega
  · obtain ⟨symbol, member, outside⟩ := List.any_eq_true.mp strange
    have inside := request.printable symbol member
    simp only [Bool.or_eq_true, decide_eq_true_eq] at outside
    rcases outside with below | above
    · exact absurd below (UInt8.not_lt.mpr inside.1)
    · exact absurd above (UInt8.not_lt.mpr inside.2)

/-- The line of a request is handed to `gm_command` as it is. -/
theorem gmProcessLine_request (store : GmStore) {request : GmRequest}
    (input : client.input = request.line ++ 10 :: more) :
    gmProcessLine client store =
      gmFinish (gmCommand request.line (client.takeLine request) store) := by
  have longer : request.line.length ≠ client.input.length := by
    rw [input, List.length_append, List.length_cons]
    omega
  rw [gmProcessLine, input, takeWhile_line request more, ← input,
    if_neg longer]
  simp only [gmStripReturn_line request]
  rw [if_neg request.accepted]
  rfl

section PendingWrite

variable {client : GmClient} {store : GmStore}

theorem gmPendingWrite_short
    (short : client.input.length < client.pendingCount) :
    gmPendingWrite client store = (client, store) := by
  rw [gmPendingWrite, if_pos short, ite_self]

/-- Hand the payload that has arrived to the store. -/
def GmClient.storePayload (client : GmClient) (store : GmStore) :
    Option GmWriteError × FileSystem :=
  gmStorePayload (client.pending = .append) client.pendingPath
    (client.input.take client.pendingCount) store.root store.fs

/-- The client whose payload the store has taken or refused. -/
def GmClient.settled (client : GmClient) : Option GmWriteError → GmClient
  | some error =>
    { client with
      output := error.text ++ [10], outputPos := 0, pending := .none }
  | none =>
    { gmInputConsume client.pendingCount client with
      output := ascii "OK" ++ [10]
      pending := .none
      pendingCount := 0
      pendingPath := [] }

theorem gmPendingWrite_complete (pending : client.pending ≠ .none)
    (enough : ¬ client.input.length < client.pendingCount)
    (empty : client.output = []) :
    gmPendingWrite client store =
      (client.settled (client.storePayload store).1,
        store.withFs (client.storePayload store).2) := by
  rw [gmPendingWrite, if_neg pending, if_neg enough, GmClient.storePayload]
  split
  · rename_i error fs failed
    rw [failed, gmOutputError_eq client (by cases error <;> decide)]
    rfl
  · rename_i fs stored
    rw [stored, gmOutputLine_room]
    · simp [GmClient.settled, gmInputConsume, empty]
    · rw [gmInputConsume, empty]
      decide

/-- A client that is answered for its payload. -/
theorem GmClient.settled_answers (error : Option GmWriteError)
    (start : client.outputPos = 0) :
    (client.settled error).live = client.live ∧
      (client.settled error).outputPos = 0 ∧
      (client.settled error).pending = .none ∧
      (client.settled error).output ≠ [] ∧
      (client.settled error).output.length ≤ gmstoreOutput := by
  cases error with
  | none =>
    have text : ascii "OK" ++ [10] ≠ [] ∧
        (ascii "OK" ++ [10]).length ≤ gmstoreOutput := by decide
    exact ⟨rfl, start, rfl, text⟩
  | some error =>
    have text : error.text ++ [10] ≠ [] ∧
        (error.text ++ [10]).length ≤ gmstoreOutput := by
      cases error <;> decide
    exact ⟨rfl, rfl, rfl, text⟩

end PendingWrite

/-! Taking up a line. -/

theorem isDigit_apart {symbol : UInt8} (digit : isDigit symbol = true) :
    isSpace symbol = false ∧ symbol ≠ 45 ∧ symbol ≠ 43 := by
  simp only [isDigit, Bool.and_eq_true, decide_eq_true_eq] at digit
  obtain ⟨low, high⟩ := digit
  have small : ¬ symbol ≤ 13 := by
    intro below
    exact absurd (UInt8.le_trans low below) (by decide)
  refine ⟨?_, ?_, ?_⟩
  · have noBlank : symbol ≠ 32 := by
      rintro rfl
      exact absurd low (by decide)
    simp [isSpace, small, noBlank]
  · rintro rfl
    exact absurd low (by decide)
  · rintro rfl
    exact absurd low (by decide)

/-- `gm_number` reads a plain decimal as its value. -/
theorem gmNumber_digits {count : List UInt8} (nonempty : count ≠ [])
    (digits : ∀ symbol ∈ count, isDigit symbol = true)
    (small : decimalValue count ≤ ulongMax) :
    gmNumber count = some (decimalValue count) := by
  obtain ⟨first, others, rfl⟩ := List.exists_cons_of_ne_nil nonempty
  obtain ⟨noSpace, noMinus, noPlus⟩ :=
    isDigit_apart (digits first List.mem_cons_self)
  have bound : ¬ ulongMax < decimalValue (first :: others) :=
    Nat.not_lt.mpr small
  have allDigits : (first :: others).any (fun symbol => !isDigit symbol) =
      false := by
    rw [List.any_eq_false]
    intro symbol member
    simp [digits symbol member]
  have body : (first :: others).dropWhile isSpace = first :: others :=
    List.dropWhile_cons_of_neg (by simp [noSpace])
  simp only [gmNumber, body, List.head?_cons, Option.some.injEq, noMinus,
    noPlus, decide_false, Bool.false_eq_true, or_self, if_false, allDigits,
    nonempty, bound]

/-- A token is cut out of the line. -/
theorem gmTokens_sublist {part line token : List UInt8}
    (member : token ∈ gmTokens part line) : token.Sublist (part ++ line) := by
  induction line generalizing part with
  | nil =>
    rw [gmTokens] at member
    split at member
    · cases member
    · rw [List.mem_singleton.mp member, List.append_nil]
  | cons symbol line induction =>
    have later : token ∈ gmTokens [] line →
        token.Sublist (part ++ symbol :: line) := fun member =>
      (induction member).trans
        ((List.sublist_cons_self symbol line).trans
          (List.sublist_append_right part _))
    rw [gmTokens] at member
    split at member
    · split at member
      · exact later member
      · rcases List.mem_cons.mp member with rfl | behind
        · exact List.sublist_append_left token _
        · exact later behind
    · have inside := induction member
      rwa [List.append_assoc] at inside

theorem storeWords : ascii "WRITE" ≠ ascii "STAT" ∧
    ascii "WRITE" ≠ ascii "READ" ∧ ascii "APPEND" ≠ ascii "STAT" ∧
    ascii "APPEND" ≠ ascii "READ" ∧ ascii "APPEND" ≠ ascii "WRITE" := by
  decide

/-- The header of a `WRITE` or `APPEND` with an accepted name starts to wait for
its payload. -/
theorem gmCommandParts_store {append : Bool} {path count : List UInt8}
    (client : GmClient) (store : GmStore) (nonempty : count ≠ [])
    (digits : ∀ symbol ∈ count, isDigit symbol = true)
    (small : decimalValue count ≤ gmstoreBlock)
    (valid : gmNameValid path = true) (short : path.length < gmstorePath) :
    gmCommandParts [storeWord append, path, count] client store =
      let result := gmPendingWrite
        { client with
          pending := storePending append
          pendingCount := decimalValue count
          pendingPath := path } store
      (result.1.live, result.1, result.2) := by
  have number := gmNumber_digits nonempty digits
    (Nat.le_trans small (by decide))
  have fits : ¬ gmstorePath < path.length + 1 := by omega
  have few : ¬ gmstoreBlock < decimalValue count := by omega
  have writes : gmCommandNamed (storeWord append) path [count] client store =
      gmCommandWrite (storePending append) path count client store := by
    cases append <;>
      simp [gmCommandNamed, storeWord, storePending, storeWords]
  rw [gmCommandParts]
  simp only [List.length_cons, List.length_nil, Nat.reduceAdd, Nat.reduceLT,
    if_false, List.cons_ne_nil, List.cons.injEq, and_false, valid, if_true,
    writes, gmCommandWrite, number, few, fits]

/-- Without an accepted name the header is refused. -/
theorem gmCommandParts_refused {command path : List UInt8}
    {count : List UInt8} (client : GmClient) (store : GmStore)
    (invalid : gmNameValid path = false) :
    gmCommandParts [command, path, count] client store =
      gmAnswer (ascii "ERR path") client store := by
  rw [gmCommandParts]
  simp [invalid]

end Gmker.Server
