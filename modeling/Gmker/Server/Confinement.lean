import Gmker.Server.Replies
import Gmker.Server.Walk

/-!
# The store server stays below its root

Whatever a client sends and whatever the files look like, one pass of the poll
loop over a client touches the file system only for `LIST`, or along the way of
the name that the client asked for.
-/

namespace Gmker.Server

open Foundation

def GmNamed.word : GmNamed → List UInt8
  | .stat => ascii "STAT"
  | .read => ascii "READ"
  | .write => ascii "WRITE"
  | .append => ascii "APPEND"
  | .del => ascii "DEL"

/-- The command whose payload is awaited. -/
def GmPending.named : GmPending → Option GmNamed
  | .none => Option.none
  | .write => some .write
  | .append => some .append

/-- Tree and record of accesses are as before. -/
def FilesKept (store left : GmStore) : Prop :=
  left.fs.tree = store.fs.tree ∧ left.fs.accesses = store.fs.accesses

/-- The ways in which a command line may touch the files: not at all, for
`LIST`, or along the way of the name behind the command. -/
inductive CommandEffect (parts : List (List UInt8)) (store left : GmStore) :
    Prop where
  | nothing (kept : FilesKept store left)
  | list (isList : parts = [ascii "LIST"])
  | named (kind : GmNamed) (name : List UInt8) (args : List (List UInt8))
      (asked : parts = kind.word :: name :: args)
      (confined : Confined kind store.root (gmComponents name) store.fs left.fs)

/-- The ways in which the handling of a client may touch the files: not at all,
for the payload it was waiting for, or for a line that it takes up. -/
inductive ClientEffect (before after : GmClient) (store left : GmStore) :
    Prop where
  | nothing (kept : FilesKept store left)
  | payload (kind : GmNamed) (awaited : before.pending.named = some kind)
      (confined : Confined kind store.root (gmComponents before.pendingPath)
        store.fs left.fs)
  | line (line : List UInt8)
      (taken : after.trace.commands = before.trace.commands ++ [line])
      (effect : CommandEffect (gmTokens [] line) store left)

section Commands

variable (client : GmClient) (store : GmStore)

theorem gmPendingWrite_confined {kind : GmNamed}
    (awaited : client.pending.named = some kind) :
    FilesKept store (gmPendingWrite client store).2 ∨
      Confined kind store.root (gmComponents client.pendingPath) store.fs
        (gmPendingWrite client store).2.fs := by
  rw [gmPendingWrite]
  split
  · exact .inl ⟨rfl, rfl⟩
  split
  · exact .inl ⟨rfl, rfl⟩
  right
  have stored := gmStorePayload_confined client.pendingPath store.root store.fs
    (client.pending = .append) (client.input.take client.pendingCount)
  have same : (if decide (client.pending = .append) then GmNamed.append
      else .write) = kind := by
    cases pending : client.pending <;> simp_all [GmPending.named]
  rw [same] at stored
  split
  · rename_i failed
    rw [failed] at stored
    exact stored
  · rename_i done
    rw [done] at stored
    split <;> exact stored

/-- A command about a name leaves the trace alone and touches the files along
the way of that name at most. -/
def Touches (kind : GmNamed) (name : List UInt8)
    (result : Bool × GmClient × GmStore) : Prop :=
  client.trace.Kept result.2.1.trace ∧
    (FilesKept store result.2.2 ∨
      Confined kind store.root (gmComponents name) store.fs result.2.2.fs)

theorem gmAnswer_touches (kind : GmNamed) (name text : List UInt8) :
    Touches client store kind name (gmAnswer text client store) :=
  ⟨.of_eq (gmAnswer_trace client store text), .inl ⟨rfl, rfl⟩⟩

theorem gmCommandWrite_touches {pending : GmPending} (kind : GmNamed)
    (name count : List UInt8) (awaited : pending.named = some kind) :
    Touches client store kind name
      (gmCommandWrite pending name count client store) := by
  rw [gmCommandWrite]
  split
  · exact gmAnswer_touches client store kind name _
  split
  · exact gmAnswer_touches client store kind name _
  split
  · exact gmAnswer_touches client store kind name _
  · exact ⟨gmPendingWrite_kept
        { client with
          pending := pending, pendingCount := _, pendingPath := name } store,
      gmPendingWrite_confined _ store awaited⟩

theorem gmCommandRead_touches (name offset count : List UInt8) :
    Touches client store .read name
      (gmCommandRead name offset count client store) := by
  rw [gmCommandRead]
  split
  · rename_i offset count _ _
    split
    · exact gmAnswer_touches client store .read name _
    have block := gmReadBlock_confined name store.root store.fs offset count
    split
    · rename_i failed
      rw [failed] at block
      exact ⟨.of_eq (gmAnswer_trace client _ _), .inr block⟩
    · rename_i data fs done
      rw [done] at block
      have line := (gmOutputLine_only
        (ascii "OK " ++ decimalText data.length) client).trace
      split <;> rename_i printed <;> rw [printed] at line
      · exact ⟨.of_eq line, .inr block⟩
      · exact ⟨.of_eq ((gmOutputAdd_only data _).trace.trans line), .inr block⟩
  · exact gmAnswer_touches client store .read name _

/-- What a command line does to the trace and to the files. -/
def Handles (parts : List (List UInt8)) (result : Bool × GmClient × GmStore) :
    Prop :=
  client.trace.Kept result.2.1.trace ∧ CommandEffect parts store result.2.2

theorem gmAnswer_handles (parts : List (List UInt8)) (text : List UInt8) :
    Handles client store parts (gmAnswer text client store) :=
  ⟨.of_eq (gmAnswer_trace client store text), .nothing ⟨rfl, rfl⟩⟩

variable {client store}

/-- An effect along the way of a name belongs to the command before it. -/
theorem Touches.handles {kind : GmNamed} {command name : List UInt8}
    {args : List (List UInt8)} {result : Bool × GmClient × GmStore}
    (touches : Touches client store kind name result)
    (word : command = kind.word) :
    Handles client store (command :: name :: args) result := by
  obtain ⟨trace, kept | confined⟩ := touches
  · exact ⟨trace, .nothing kept⟩
  · exact ⟨trace, .named kind name args (by rw [word]) confined⟩

variable (client store)

theorem gmCommandNamed_handles (command name : List UInt8)
    (args : List (List UInt8)) :
    Handles client store (command :: name :: args)
      (gmCommandNamed command name args client store) := by
  rw [gmCommandNamed]
  split
  · rename_i asked
    have stat := gmStat_confined name store.root store.fs
    refine @Touches.handles client store .stat _ _ _ _ ?_ asked.1
    rw [gmCommandStat]
    split <;> rename_i opened <;> rw [opened] at stat <;>
      exact ⟨.of_eq (gmAnswer_trace client _ _), .inr stat⟩
  split
  · rename_i asked
    exact (gmCommandRead_touches client store name _ _).handles asked.1
  split
  · rename_i asked
    exact (gmCommandWrite_touches client store .write name _ rfl).handles
      asked.1
  split
  · rename_i asked
    exact (gmCommandWrite_touches client store .append name _ rfl).handles
      asked.1
  split
  · rename_i asked
    exact Touches.handles ⟨.of_eq (gmAnswer_trace client _ _),
      .inr (gmDelete_confined name store)⟩ asked.1
  · exact gmAnswer_handles client store _ _

theorem gmCommandParts_handles (parts : List (List UInt8)) :
    Handles client store parts (gmCommandParts parts client store) := by
  unfold gmCommandParts
  split
  · exact gmAnswer_handles client store _ _
  split
  · exact ⟨.of_eq rfl, .nothing ⟨rfl, rfl⟩⟩
  split
  · exact gmAnswer_handles client store _ _
  split
  · rename_i isList
    exact ⟨.of_eq (gmCommandList_trace client store), .list isList⟩
  split
  · split
    · exact gmCommandNamed_handles client store _ _ _
    · exact gmAnswer_handles client store _ _
  · exact gmAnswer_handles client store _ _

end Commands

/-! The handlers of socket events. -/

theorem ClientEffect.of_same {client before after : GmClient}
    {store left : GmStore} (effect : ClientEffect client after store left)
    (pending : client.pending = before.pending)
    (path : client.pendingPath = before.pendingPath)
    (commands : client.trace.commands = before.trace.commands) :
    ClientEffect before after store left := by
  cases effect with
  | nothing kept => exact .nothing kept
  | payload kind awaited confined =>
    exact .payload kind (pending ▸ awaited) (path ▸ confined)
  | line line taken effect =>
    exact .line line (commands ▸ taken) effect

theorem gmProcessLine_confined (client : GmClient) (store : GmStore) :
    ClientEffect client (gmProcessLine client store).1 store
      (gmProcessLine client store).2 := by
  rw [gmProcessLine]
  split
  · split <;> exact .nothing ⟨rfl, rfl⟩
  simp only
  split
  · exact .nothing ⟨rfl, rfl⟩
  generalize gmStripReturn (client.input.takeWhile (· != 10)) = line
  generalize called : GmClient.logCommand _ line = caller
  have before : caller.trace.commands = client.trace.commands ++ [line] := by
    rw [← called]
    rfl
  obtain ⟨kept, effect⟩ :=
    gmCommandParts_handles caller store (gmTokens [] line)
  refine .line line ?_ ?_
  · rw [gmFinish_trace, ← before]
    exact kept.commands
  · rw [gmFinish_store]
    exact effect

theorem gmProcessInput_confined (client : GmClient) (store : GmStore) :
    ClientEffect client (gmProcessInput client store).1 store
      (gmProcessInput client store).2 := by
  rw [gmProcessInput]
  split
  · exact .nothing ⟨rfl, rfl⟩
  have logged : ∀ after left, ClientEffect client after store left →
      ClientEffect client after.logReply store left := by
    intro after left effect
    rw [GmClient.logReply]
    split
    · exact effect
    · cases effect with
      | nothing kept => exact .nothing kept
      | payload kind awaited confined => exact .payload kind awaited confined
      | line line taken effect => exact .line line taken effect
  apply logged
  split
  · rename_i waiting
    cases awaited : client.pending.named with
    | none =>
      cases pending : client.pending <;> simp_all [GmPending.named]
    | some kind =>
      rcases gmPendingWrite_confined client store awaited with kept | confined
      · exact .nothing kept
      · exact .payload kind awaited confined
  · exact gmProcessLine_confined client store

theorem gmClientRead_confined (recv : GmRecv) (client : GmClient)
    (store : GmStore) :
    ClientEffect client (gmClientRead recv client store).1 store
      (gmClientRead recv client store).2 := by
  unfold gmClientRead
  split
  · exact gmProcessInput_confined client store
  split
  · exact .nothing ⟨rfl, rfl⟩
  · exact gmProcessInput_confined client store
  · simp only
    split
    · exact .nothing ⟨rfl, rfl⟩
    · exact (gmProcessInput_confined _ store).of_same rfl rfl rfl

theorem gmClientWrite_confined (sends : List GmSend) (client : GmClient)
    (store : GmStore) :
    ClientEffect client (gmClientWrite sends client store).1 store
      (gmClientWrite sends client store).2 := by
  induction sends generalizing client with
  | nil =>
    unfold gmClientWrite
    split
    · exact .nothing ⟨rfl, rfl⟩
    · exact (gmProcessInput_confined _ store).of_same rfl rfl rfl
  | cons send sends induction =>
    unfold gmClientWrite
    split
    · cases send with
      | again => exact .nothing ⟨rfl, rfl⟩
      | failed => exact .nothing ⟨rfl, rfl⟩
      | bytes more =>
        exact (induction (client.send (more + 1))).of_same rfl rfl rfl
    · exact (gmProcessInput_confined _ store).of_same rfl rfl rfl

/-- One pass of the poll loop over a client touches the files at most along the
way of the name the client asked for, unless it asked for a listing. -/
theorem gmClientPoll_confined (events : GmEvents) (client : GmClient)
    (store : GmStore) :
    ClientEffect client (gmClientPoll events client store).1 store
      (gmClientPoll events client store).2 := by
  rw [gmClientPoll]
  split
  · exact .nothing ⟨rfl, rfl⟩
  split
  · exact .nothing ⟨rfl, rfl⟩
  split
  · split
    · exact .nothing ⟨rfl, rfl⟩
    · exact gmClientWrite_confined _ client store
  · split
    · exact .nothing ⟨rfl, rfl⟩
    · exact gmClientRead_confined _ client store

/-- A store directory that holds nothing but a link. -/
def linkStore : GmStore where
  root := [ascii "srv"]
  fs :=
    { tree :=
        (FileTree.empty.create [] (ascii "srv") .dir 0 rfl rfl).create
          [ascii "srv"] (ascii "l") (.link (ascii "/etc")) 0 rfl rfl }

/-- `DEL` looks at a link before it refuses to remove it. -/
theorem gmCommand_del_stats_link :
    (gmCommand (ascii "DEL /l") { live := true } linkStore).2.2.fs.accesses =
      [{ kind := .stat
         path := [ascii "srv", ascii "l"]
         found := some (.link (ascii "/etc")) }] := by
  decide +kernel

end Gmker.Server
