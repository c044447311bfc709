import Mathlib.Data.List.Infix
import Mathlib.Data.Nat.Digits.Defs
import Gmker.Server.Loop

/-!
# What commands do to a client

Apart from `WRITE` and `APPEND`, a command touches nothing of its client but
the output, and it always leaves an answer there.
-/

namespace Gmker.Server

open Foundation

variable {client : GmClient} {text : List UInt8}

/-- Nothing but the waiting output differs. -/
def GmClient.OnlyOutput (before after : GmClient) : Prop :=
  ∃ output, after = { before with output := output }

namespace GmClient.OnlyOutput

theorem refl (client : GmClient) : client.OnlyOutput client :=
  ⟨client.output, rfl⟩

end GmClient.OnlyOutput

theorem gmOutputAdd_only (data : List UInt8) (client : GmClient) :
    client.OnlyOutput (gmOutputAdd data client).2 := by
  rw [gmOutputAdd]
  split
  · exact .refl client
  · exact ⟨_, rfl⟩

theorem gmOutputAdd_room {data : List UInt8}
    (room : client.output.length + data.length ≤ gmstoreOutput) :
    gmOutputAdd data client =
      (true, { client with output := client.output ++ data }) := by
  rw [gmOutputAdd, if_neg (Nat.not_lt.mpr room)]

theorem gmOutputLine_room
    (room : client.output.length + text.length < gmstoreOutput) :
    gmOutputLine text client =
      (true, { client with output := client.output ++ (text ++ [10]) }) := by
  rw [gmOutputLine, gmOutputAdd_room (Nat.le_of_lt room)]
  simp only
  rw [gmOutputAdd_room]
  · simp only [List.append_assoc]
  · rw [List.length_append, List.length_singleton]
    exact room

/-- A line that does not fit may leave its text behind. -/
theorem gmOutputLine_full
    (full : gmstoreOutput ≤ client.output.length + text.length) :
    ∃ output, gmOutputLine text client =
      (false, { client with output := output }) := by
  rw [gmOutputLine, gmOutputAdd]
  by_cases early : gmstoreOutput < client.output.length + text.length
  · rw [if_pos early]
    exact ⟨client.output, rfl⟩
  · have late : gmstoreOutput <
        (client.output ++ text).length + [(10 : UInt8)].length := by
      rw [List.length_append, List.length_singleton]
      omega
    rw [if_neg early]
    simp only [gmOutputAdd, if_pos late]
    exact ⟨client.output ++ text, rfl⟩

theorem gmOutputLine_only (text : List UInt8) (client : GmClient) :
    client.OnlyOutput (gmOutputLine text client).2 := by
  by_cases room : client.output.length + text.length < gmstoreOutput
  · rw [gmOutputLine_room room]
    exact ⟨_, rfl⟩
  · obtain ⟨output, full⟩ := gmOutputLine_full (Nat.le_of_not_lt room)
    rw [full]
    exact ⟨output, rfl⟩

/-- An error message is short enough for the emptied output. -/
theorem gmOutputError_eq (client : GmClient)
    (short : text.length < gmstoreOutput) :
    gmOutputError text client =
      { client with output := text ++ [10], outputPos := 0 } := by
  rw [gmOutputError, gmOutputLine_room (by simpa using short)]
  rfl

/-! ## Listings -/

/-- A change of a client beside its output. -/
structure BesideOutput (change : GmClient → GmClient) : Prop where
  output (client : GmClient) : (change client).output = client.output
  commutes (client : GmClient) (output : List UInt8) :
    change { client with output := output } =
      { change client with output := output }

section Beside

variable {change : GmClient → GmClient} (beside : BesideOutput change)
include beside

theorem gmOutputAdd_beside (data : List UInt8) (client : GmClient) :
    gmOutputAdd data (change client) =
      ((gmOutputAdd data client).1, change (gmOutputAdd data client).2) := by
  rw [gmOutputAdd, gmOutputAdd, beside.output]
  split
  · rfl
  · exact congrArg (Prod.mk true) (beside.commutes client _).symm

theorem gmOutputLine_beside (text : List UInt8) (client : GmClient) :
    gmOutputLine text (change client) =
      ((gmOutputLine text client).1, change (gmOutputLine text client).2) := by
  rw [gmOutputLine, gmOutputLine, gmOutputAdd_beside beside]
  generalize gmOutputAdd text client = first
  obtain ⟨added, middle⟩ := first
  cases added with
  | false => rfl
  | true => exact gmOutputAdd_beside beside [10] middle

theorem gmListEntries_beside
    {collect : TreePath → List UInt8 → GmClient → FileSystem →
      Bool × GmClient × FileSystem}
    (each : ∀ dir rel client fs,
      collect dir rel (change client) fs =
        ((collect dir rel client fs).1, change (collect dir rel client fs).2.1,
          (collect dir rel client fs).2.2))
    (dir : TreePath) (rel : List UInt8) (names : List Name)
    (client : GmClient) (fs : FileSystem) :
    gmListEntries collect dir rel names (change client) fs =
      ((gmListEntries collect dir rel names client fs).1,
        (gmListEntries collect dir rel names client fs).2.1,
        change (gmListEntries collect dir rel names client fs).2.2.1,
        (gmListEntries collect dir rel names client fs).2.2.2) := by
  induction names generalizing client fs with
  | nil => rfl
  | cons name names induction =>
    rw [gmListEntries, gmListEntries]
    generalize fs.fstatat false dir name = answer
    obtain ⟨node, after⟩ := answer
    cases node with
    | error errno => simp only [induction]
    | ok node =>
      simp only
      generalize ((gmText2 gmstorePath rel [47]).bind fun stem =>
        gmText2 gmstorePath stem name) = child
      cases child with
      | none => simp only [induction]
      | some child =>
        cases node with
        | link target => simp only [induction]
        | dir =>
          simp only
          generalize after.openat gmDirFlags dir name = opened
          obtain ⟨opened, entered⟩ := opened
          cases opened with
          | error errno => rfl
          | ok next =>
            simp only [each]
            generalize collect next.path child client entered =
              collected
            obtain ⟨done, listed, left⟩ := collected
            cases done with
            | false => rfl
            | true => simp only [induction]
        | file data =>
          simp only
          generalize gmText2 (gmstorePath + 8) (ascii "ITEM ") child =
            item
          cases item with
          | none => rfl
          | some item =>
            simp only [gmOutputLine_beside beside]
            generalize gmOutputLine item client = line
            obtain ⟨done, printed⟩ := line
            cases done with
            | false => rfl
            | true => simp only [induction]

theorem gmListCollect_beside (depth : Nat) (passed : Name → Bool)
    (dir : TreePath) (rel : List UInt8) (client : GmClient) (fs : FileSystem) :
    gmListCollect depth passed dir rel (change client) fs =
      ((gmListCollect depth passed dir rel client fs).1,
        (gmListCollect depth passed dir rel client fs).2.1,
        change (gmListCollect depth passed dir rel client fs).2.2.1,
        (gmListCollect depth passed dir rel client fs).2.2.2) := by
  induction depth generalizing passed dir rel client fs with
  | zero => rfl
  | succ depth induction =>
    rw [gmListCollect, gmListCollect]
    generalize fs.plainCall = dup
    obtain ⟨duplicated, middle⟩ := dup
    cases duplicated with
    | false => rfl
    | true =>
      simp only
      generalize middle.plainCall = opened
      obtain ⟨opened, entered⟩ := opened
      cases opened with
      | false => rfl
      | true =>
        simp only
        rw [gmListEntries_beside beside]
        intro next child client fs
        simp only [induction]

end Beside

/-- `LIST` prints what it collects for any client, or says that it does not
fit. -/
theorem gmCommandList_eq (client : GmClient) (store : GmStore) :
    gmCommandList client store =
      let listed := gmListCollect gmstorePath store.passed store.root [] {}
        store.fs
      let after : GmStore :=
        { store with fs := listed.2.2.2, passed := listed.2.1 }
      if listed.1 = true ∧
          listed.2.2.1.output.length + 6 < gmstoreOutput then
        (true, { client with
          output := listed.2.2.1.output ++ (ascii "OK END" ++ [10])
          outputPos := 0 }, after)
      else
        (client.live, { client with
          output := ascii "ERR list" ++ [10], outputPos := 0 }, after) := by
  have beside : BesideOutput fun other : GmClient =>
      { client with output := other.output, outputPos := 0 } :=
    ⟨fun _ => rfl, fun _ _ => rfl⟩
  have listing := gmListCollect_beside beside gmstorePath store.passed
    store.root [] {} store.fs
  rw [gmCommandList]
  change gmListCollect gmstorePath store.passed store.root []
    { client with output := [], outputPos := 0 } store.fs = _ at listing
  rw [listing]
  generalize gmListCollect gmstorePath store.passed store.root [] {}
    store.fs = listed
  obtain ⟨collected, read, listed, fs⟩ := listed
  have six : (ascii "OK END").length = 6 := rfl
  cases collected with
  | false =>
    simp only [Bool.false_eq_true, false_and, if_false]
    rw [gmOutputError_eq _ (by decide)]
  | true =>
    simp only [true_and, if_true]
    by_cases room : listed.output.length + 6 < gmstoreOutput
    · rw [if_pos room, gmOutputLine_room (by rw [six]; exact room)]
      rfl
    · have none' : gmstoreOutput ≤ ({ client with
          output := listed.output, outputPos := 0 } : GmClient).output.length +
          (ascii "OK END").length := by
        rw [six]
        exact Nat.le_of_not_lt room
      obtain ⟨output, full⟩ := gmOutputLine_full none'
      rw [if_neg room, full]
      simp only [Bool.false_eq_true, if_false]
      rw [gmOutputError_eq _ (by decide)]

/-- What a command does to the trace: at most it adds to the input that was
consumed. -/
structure GmTrace.Kept (before after : GmTrace) : Prop where
  commands : after.commands = before.commands
  received : after.received = before.received

namespace GmTrace.Kept

theorem of_eq {before after : GmTrace} (same : after = before) :
    before.Kept after := by
  rw [same]
  exact ⟨rfl, rfl⟩

end GmTrace.Kept

section Traces

variable (client : GmClient) (store : GmStore)

theorem GmClient.OnlyOutput.trace {before after : GmClient}
    (same : before.OnlyOutput after) : after.trace = before.trace := by
  obtain ⟨_, rfl⟩ := same
  rfl

theorem gmPendingWrite_kept :
    client.trace.Kept (gmPendingWrite client store).1.trace := by
  rw [gmPendingWrite]
  split
  · exact .of_eq rfl
  split
  · exact .of_eq rfl
  split
  · rename_i error _ _
    rw [gmOutputError_eq client (by cases error <;> decide)]
    exact .of_eq rfl
  · have line := (gmOutputLine_only (ascii "OK")
      { gmInputConsume client.pendingCount client with
        pending := .none, pendingCount := 0, pendingPath := [] }).trace
    have kept : client.trace.Kept (gmInputConsume client.pendingCount
        client).trace := ⟨rfl, rfl⟩
    split <;> rename_i printed <;> rw [printed] at line <;>
      exact line ▸ kept

theorem gmAnswer_trace (text : List UInt8) :
    (gmAnswer text client store).2.1.trace = client.trace :=
  (gmOutputLine_only text client).trace

theorem gmCommandList_trace :
    (gmCommandList client store).2.1.trace = client.trace := by
  rw [gmCommandList_eq]
  simp only
  split <;> rfl

end Traces

theorem okLine_length {value : Nat} (bound : value ≤ ulongMax) :
    (ascii "OK " ++ decimalText value).length ≤ 23 := by
  have digits := Nat.toDigits_length 10 value 20 (by decide)
    (Nat.lt_of_le_of_lt bound (by decide))
  rw [List.length_append, decimalText, List.length_map]
  exact Nat.add_le_add_left digits 3

theorem sizeLine_short (size : Nat) :
    (ascii "OK " ++ decimalText (size % (ulongMax + 1))).length <
      gmstoreOutput :=
  Nat.lt_of_le_of_lt
    (okLine_length (Nat.le_of_lt_succ (Nat.mod_lt _ (by decide)))) (by decide)

theorem gmReadBlock_length {name data : List UInt8} {offset count : Nat}
    {root : TreePath} {fs after : FileSystem}
    (block : gmReadBlock name offset count root fs = (some data, after)) :
    data.length ≤ count := by
  rw [gmReadBlock] at block
  split at block
  · cases block
  split at block
  · cases block
  split at block
  · cases block
  rename_i bytes _ got
  obtain ⟨rfl, _⟩ := Prod.mk.inj block |>.imp Option.some.inj id
  rw [FileSystem.readAt] at got
  split at got
  · cases got
  split at got
  · obtain ⟨rfl, _⟩ := Prod.mk.inj got |>.imp Except.ok.inj id
    exact List.length_take_le count _
  · cases got

/-- A command was answered: the client stays, and only its output changed. -/
def Answered (before : GmClient) (result : Bool × GmClient × GmStore) : Prop :=
  result.1 = true ∧
    ∃ output, output ≠ [] ∧ result.2.1 = { before with output := output }

/-- The client has no output, as it must when a command is taken up. -/
structure GmClient.Idle (client : GmClient) : Prop where
  live : client.live = true
  empty : client.output = []
  start : client.outputPos = 0

theorem GmClient.Idle.sent (idle : client.Idle) :
    ¬ client.output.length ≠ client.outputPos := by
  rw [idle.empty, idle.start]
  exact not_not_intro rfl

/-- A client without output is given the next thing to do. -/
theorem gmProcessInput_idle (idle : client.Idle) (store : GmStore) :
    gmProcessInput client store =
      let result := if client.pending ≠ .none then gmPendingWrite client store
        else gmProcessLine client store
      (result.1.logReply, result.2) :=
  if_neg idle.sent

theorem GmClient.logReply_live (client : GmClient) :
    client.logReply.live = client.live := by
  rw [GmClient.logReply]
  split <;> rfl

theorem gmFinish_trace (result : Bool × GmClient × GmStore) :
    (gmFinish result).1.trace = result.2.1.trace := by
  obtain ⟨stays, client, store⟩ := result
  cases stays <;> rfl

theorem gmFinish_store (result : Bool × GmClient × GmStore) :
    (gmFinish result).2 = result.2.2 := by
  obtain ⟨stays, client, store⟩ := result
  cases stays <;> rfl

theorem gmFinish_true {result : Bool × GmClient × GmStore}
    (stays : result.1 = true) : gmFinish result = result.2 := by
  obtain ⟨_, client, store⟩ := result
  obtain rfl := stays
  rfl

/-! ## Commands that are answered at once -/

/-- Every client without output is answered alike: nothing but its output
changes, and the reply depends on the store alone. -/
def Replies (command : GmClient → Bool × GmClient × GmStore) : Prop :=
  ∃ reply after, reply ≠ [] ∧ reply.length ≤ gmstoreOutput ∧
    ∀ client : GmClient, client.Idle →
      command client = (true, { client with output := reply }, after)

theorem Replies.answered {command : GmClient → Bool × GmClient × GmStore}
    (replies : Replies command) (idle : client.Idle) :
    Answered client (command client) := by
  obtain ⟨reply, after, nonempty, _, same⟩ := replies
  rw [same client idle]
  exact ⟨rfl, reply, nonempty, rfl⟩

theorem gmAnswer_idle (idle : client.Idle) (after : GmStore)
    (short : text.length < gmstoreOutput) :
    gmAnswer text client after =
      (true, { client with output := text ++ [10] }, after) := by
  have room : client.output.length + text.length < gmstoreOutput := by
    simpa [idle.empty] using short
  rw [gmAnswer, gmOutputLine_room room]
  simp [idle.empty]

theorem gmAnswer_replies (short : text.length < gmstoreOutput)
    (after : GmStore) : Replies fun client => gmAnswer text client after := by
  refine ⟨text ++ [10], after, by simp, ?_, ?_⟩
  · rw [List.length_append, List.length_singleton]
    exact short
  · intro client idle
    exact gmAnswer_idle idle after short

theorem gmCommandList_replies (store : GmStore) :
    Replies fun client => gmCommandList client store := by
  simp only [gmCommandList_eq]
  generalize gmListCollect gmstorePath store.passed store.root [] {}
    store.fs = listed
  generalize GmStore.mk listed.2.2.2 store.root listed.2.1 = after
  by_cases room : listed.1 = true ∧
      listed.2.2.1.output.length + 6 < gmstoreOutput
  · refine ⟨listed.2.2.1.output ++ (ascii "OK END" ++ [10]), after, by simp,
      ?_, ?_⟩
    · rw [List.length_append]
      exact room.2
    · intro client idle
      simp only [if_pos room, idle.start]
  · refine ⟨ascii "ERR list" ++ [10], after, by simp, by decide, ?_⟩
    intro client idle
    simp only [if_neg room, idle.start, idle.live]

theorem gmCommandStat_replies (name : List UInt8) (store : GmStore) :
    Replies fun client => gmCommandStat name client store := by
  unfold gmCommandStat
  generalize gmOpenRegular name store.root store.fs = opened
  obtain ⟨_ | ⟨handle, size⟩, fs⟩ := opened
  · exact gmAnswer_replies (by decide) (store.withFs fs)
  · exact gmAnswer_replies (sizeLine_short size) (store.withFs fs)

section Read

variable {name offset count data : List UInt8} {start size : Nat}
  {store : GmStore} {fs : FileSystem}

/-- Header and block together fit into the empty output. -/
theorem gmCommandRead_block (isOffset : gmNumber offset = some start)
    (isCount : gmNumber count = some size)
    (within : ¬ (gmstoreBlock < size ∨ longMax < start))
    (block : gmReadBlock name start size store.root store.fs =
      (some data, fs)) :
    (ascii "OK " ++ decimalText data.length ++ [10] ++ data).length ≤
        gmstoreOutput ∧
      ∀ client : GmClient, client.Idle →
        gmCommandRead name offset count client store =
          (true, { client with
            output := ascii "OK " ++ decimalText data.length ++ [10] ++ data },
            store.withFs fs) := by
  have short := gmReadBlock_length block
  have limits : gmstoreOutput = 16384 ∧ gmstoreBlock = 1024 ∧
      1024 ≤ ulongMax := ⟨rfl, rfl, by decide⟩
  have head := @okLine_length data.length (by omega)
  have fits : (ascii "OK " ++ decimalText data.length ++ [10] ++ data).length ≤
      gmstoreOutput := by
    rw [List.length_append, List.length_append, List.length_singleton]
    omega
  refine ⟨fits, ?_⟩
  intro client idle
  rw [gmCommandRead, isOffset, isCount]
  simp only [if_neg within, block]
  rw [gmOutputLine_room (by rw [idle.empty, List.length_nil]; omega)]
  simp only
  rw [gmOutputAdd_room]
  · simp [idle.empty]
  · rw [idle.empty, List.nil_append, ← List.length_append]
    exact fits

theorem gmCommandRead_replies (name offset count : List UInt8)
    (store : GmStore) :
    Replies fun client => gmCommandRead name offset count client store := by
  cases isOffset : gmNumber offset with
  | none =>
    simp only [gmCommandRead, isOffset]
    exact gmAnswer_replies (by decide) store
  | some start =>
    cases isCount : gmNumber count with
    | none =>
      simp only [gmCommandRead, isOffset, isCount]
      exact gmAnswer_replies (by decide) store
    | some size =>
      by_cases within : gmstoreBlock < size ∨ longMax < start
      · simp only [gmCommandRead, isOffset, isCount, if_pos within]
        exact gmAnswer_replies (by decide) store
      rcases block : gmReadBlock name start size store.root store.fs with
        ⟨_ | data, fs⟩
      · simp only [gmCommandRead, isOffset, isCount, if_neg within, block]
        exact gmAnswer_replies (by decide) (store.withFs fs)
      · obtain ⟨fits, same⟩ :=
          gmCommandRead_block isOffset isCount within block
        exact ⟨_, store.withFs fs, by simp, fits, same⟩

end Read

theorem gmCommandDel_replies (name : List UInt8) (store : GmStore) :
    Replies fun client => gmCommandDel name client store := by
  unfold gmCommandDel
  generalize gmDelete name store = result
  obtain ⟨deleted, after⟩ := result
  exact gmAnswer_replies (by cases deleted <;> decide) after

/-! ## The kinds of commands -/

/-- The client waits for a payload. -/
def GmClient.announced (client : GmClient) (kind : GmPending) (count : Nat)
    (name : List UInt8) : GmClient :=
  { client with
    pending := kind, pendingCount := count, pendingPath := name }

/-- A command that only announces a payload. -/
def Announces (command : GmClient → GmStore → Bool × GmClient × GmStore) :
    Prop :=
  ∃ kind count name, kind ≠ .none ∧ ∀ client store,
    command client store =
      ((gmPendingWrite (client.announced kind count name) store).1.live,
        gmPendingWrite (client.announced kind count name) store)

/-- A command is answered at once or, if it is one that stores something,
announces a payload. -/
def Settles (stores : Prop)
    (command : GmClient → GmStore → Bool × GmClient × GmStore) : Prop :=
  (∀ store, Replies fun client => command client store) ∨
    stores ∧ Announces command

theorem Settles.ite {condition stores : Prop} [Decidable condition]
    {left right : GmClient → GmStore → Bool × GmClient × GmStore}
    (leftKind : condition → Settles stores left)
    (rightKind : Settles stores right) :
    Settles stores fun client store =>
      if condition then left client store else right client store := by
  by_cases holds : condition
  · simp only [if_pos holds]
    exact leftKind holds
  · simp only [if_neg holds]
    exact rightKind

section Kinds

variable {stores : Prop}

theorem gmAnswer_settles (short : text.length < gmstoreOutput) :
    Settles stores (gmAnswer text) :=
  .inl (gmAnswer_replies short)

theorem gmCommandWrite_settles (holds : stores) {kind : GmPending}
    (waits : kind ≠ .none) (name count : List UInt8) :
    Settles stores (gmCommandWrite kind name count) := by
  unfold gmCommandWrite
  cases gmNumber count with
  | none => exact gmAnswer_settles (by decide)
  | some size =>
    refine .ite (fun _ => gmAnswer_settles (by decide)) ?_
    refine .ite (fun _ => gmAnswer_settles (by decide)) ?_
    exact .inr ⟨holds, kind, size, name, waits, fun _ _ => rfl⟩

end Kinds

theorem gmCommandNamed_settles (command name : List UInt8)
    (args : List (List UInt8)) :
    Settles (command = ascii "WRITE" ∨ command = ascii "APPEND")
      (gmCommandNamed command name args) := by
  unfold gmCommandNamed
  refine .ite (fun _ => .inl (gmCommandStat_replies name)) ?_
  refine .ite (fun _ => .inl (gmCommandRead_replies name _ _)) ?_
  refine .ite (fun asked =>
    gmCommandWrite_settles (.inl asked.1) (by decide) name _) ?_
  refine .ite (fun asked =>
    gmCommandWrite_settles (.inr asked.1) (by decide) name _) ?_
  exact .ite (fun _ => .inl (gmCommandDel_replies name))
    (gmAnswer_settles (by decide))

/-- Every command but `WRITE` and `APPEND` is answered at once. -/
theorem gmCommandParts_settles (command : List UInt8)
    (args : List (List UInt8)) :
    Settles (command = ascii "WRITE" ∨ command = ascii "APPEND")
      (gmCommandParts (command :: args)) := by
  unfold gmCommandParts
  refine .ite (fun _ => gmAnswer_settles (by decide)) ?_
  simp only [if_neg (List.cons_ne_nil command args)]
  refine .ite (fun _ => gmAnswer_settles (by decide)) ?_
  refine .ite (fun _ => .inl gmCommandList_replies) ?_
  cases args with
  | nil => exact gmAnswer_settles (by decide)
  | cons name rest =>
    exact .ite (fun _ => gmCommandNamed_settles command name rest)
      (gmAnswer_settles (by decide))

end Gmker.Server
