import Gmker.Server.Contents
import Gmker.Server.Requests

/-!
# The store as a map

What the store is for: a map from names to byte strings.  Every command that the
server completes, from whichever client, is answered as this map answers it.
The directories of the host show up only in that storing a new object may be
refused.
-/

namespace Gmker.Server

open Foundation Function

variable {client : GmClient} {store : GmStore} {name : GmName}

/-! ## The abstract store -/

/-- The objects by name. -/
abbrev GmObjects := GmName → Option (List UInt8)

/-- Errors that do not depend on the store. -/
inductive GmRefusal where
  | malformed
  | path
  | size
  | read
  deriving DecidableEq, Repr

def GmRefusal.text : GmRefusal → List UInt8
  | .malformed => ascii "ERR syntax"
  | .path => ascii "ERR path"
  | .size => ascii "ERR size"
  | .read => ascii "ERR read"

/-- A complete command. -/
inductive GmCommand where
  | ping
  | list
  | stat (name : GmName)
  | read (name : GmName) (offset count : Nat)
  | store (append : Bool) (name : GmName) (payload : List UInt8)
  | del (name : GmName)
  | refused (refusal : GmRefusal)
  deriving DecidableEq

/-- How the map answers a command, and what it is afterwards. -/
inductive MapAnswers (objects : GmObjects) :
    GmCommand → List UInt8 → GmObjects → Prop where
  | ping : MapAnswers objects .ping (ascii "OK PONG" ++ [10]) objects
  | list (reply : List UInt8) : MapAnswers objects .list reply objects
  | refused (refusal : GmRefusal) :
      MapAnswers objects (.refused refusal) (refusal.text ++ [10]) objects
  -- The size is printed as an unsigned 64-bit number.
  | stat {name : GmName} {data : List UInt8}
      (present : objects name = some data) :
      MapAnswers objects (.stat name)
        (ascii "OK " ++ decimalText (data.length % (ulongMax + 1)) ++ [10])
        objects
  | statMissing {name : GmName} (absent : objects name = none) :
      MapAnswers objects (.stat name) (ascii "ERR missing" ++ [10]) objects
  | read {name : GmName} {data : List UInt8} (offset count : Nat)
      (present : objects name = some data) :
      MapAnswers objects (.read name offset count)
        (ascii "OK " ++ decimalText (min count (data.length - offset)) ++ [10] ++
          (data.drop offset).take count) objects
  | readMissing {name : GmName} (offset count : Nat)
      (absent : objects name = none) :
      MapAnswers objects (.read name offset count)
        (ascii "ERR read" ++ [10]) objects
  | write (name : GmName) (payload : List UInt8) :
      MapAnswers objects (.store false name payload) (ascii "OK" ++ [10])
        (update objects name (some payload))
  | append (name : GmName) (payload : List UInt8) :
      MapAnswers objects (.store true name payload) (ascii "OK" ++ [10])
        (update objects name
          (some ((objects name).getD [] ++ payload)))
  -- Only a new object can be refused.
  | unstored {name : GmName} (append : Bool) (payload : List UInt8)
      (error : GmWriteError) (absent : objects name = none) :
      MapAnswers objects (.store append name payload) (error.text ++ [10])
        objects
  | del {name : GmName} {data : List UInt8}
      (present : objects name = some data) :
      MapAnswers objects (.del name) (ascii "OK" ++ [10])
        (update objects name none)
  | delMissing {name : GmName} (absent : objects name = none) :
      MapAnswers objects (.del name) (ascii "ERR missing" ++ [10]) objects

/-- A command is answered, or nothing happens. -/
def MapSteps (command : Option GmCommand) (before : GmObjects)
    (reply : List UInt8) (after : GmObjects) : Prop :=
  match command with
  | none => after = before
  | some asked => MapAnswers before asked reply after

/-- Commands answered one after the other. -/
inductive MapRun {ι : Type} :
    GmObjects → List (ι × GmCommand × List UInt8) → GmObjects → Prop where
  | nil (objects : GmObjects) : MapRun objects [] objects
  | cons {before middle after : GmObjects} {client : ι} {command : GmCommand}
      {reply : List UInt8} {rest : List (ι × GmCommand × List UInt8)}
      (answer : MapAnswers before command reply middle)
      (run : MapRun middle rest after) :
      MapRun before ((client, command, reply) :: rest) after

theorem MapRun.append {ι : Type} {before middle after : GmObjects}
    {first second : List (ι × GmCommand × List UInt8)}
    (run : MapRun before first middle) (next : MapRun middle second after) :
    MapRun before (first ++ second) after := by
  induction run with
  | nil objects => exact next
  | cons answer _ induction => exact .cons answer (induction next)

/-! ## Which command a line is -/

/-- The name in a token, if it is one. -/
def gmNameOf (text : List UInt8) : Option GmName :=
  if accepted : gmNameValid text = true ∧ cString text = text ∧
      text.length < gmstorePath then
    some ⟨text, accepted.1, accepted.2.1, accepted.2.2⟩
  else none

/-- What a line asks for: nothing, a command, or a payload to come. -/
inductive GmLine where
  | blank
  | command (command : GmCommand)
  | header (append : Bool) (name : GmName) (count : Nat)
  deriving DecidableEq

/-- A line with a name in it. -/
def gmNamedLine (command : List UInt8) (name : GmName)
    (args : List (List UInt8)) : GmLine :=
  if command = ascii "STAT" ∧ args.length = 0 then .command (.stat name)
  else if command = ascii "READ" ∧ args.length = 2 then
    match gmNumber (args.getD 0 []), gmNumber (args.getD 1 []) with
    | some offset, some count =>
      if gmstoreBlock < count ∨ longMax < offset then
        .command (.refused .read)
      else .command (.read name offset count)
    | _, _ => .command (.refused .read)
  else if command = ascii "WRITE" ∧ args.length = 1 then
    gmHeaderLine false name (args.getD 0 [])
  else if command = ascii "APPEND" ∧ args.length = 1 then
    gmHeaderLine true name (args.getD 0 [])
  else if command = ascii "DEL" ∧ args.length = 0 then .command (.del name)
  else .command (.refused .malformed)
where
  gmHeaderLine (append : Bool) (name : GmName) (count : List UInt8) : GmLine :=
    match gmNumber count with
    | none => .command (.refused .size)
    | some count =>
      if gmstoreBlock < count then .command (.refused .size)
      else .header append name count

/-- The meaning of the tokens of a line. -/
def gmLineOf (parts : List (List UInt8)) : GmLine :=
  if 4 < parts.length then .command (.refused .malformed)
  else if parts = [] then .blank
  else if parts = [ascii "PING"] then .command .ping
  else if parts = [ascii "LIST"] then .command .list
  else
    match parts with
    | command :: text :: args =>
      match gmNameOf text with
      | some name => gmNamedLine command name args
      | none => .command (.refused .path)
    | _ => .command (.refused .path)

/-- The payload of a header, once it is complete. -/
def gmPayloadOf (append : Bool) (path : List UInt8) (count : Nat)
    (input : List UInt8) : Option GmCommand :=
  if input.length < count then none
  else
    match gmNameOf path with
    | some name => some (.store append name (input.take count))
    | none => some (.refused .path)

/-- The command of a line, given the input behind the line. -/
def GmLine.completes (line : GmLine) (rest : List UInt8) : Option GmCommand :=
  match line with
  | .blank => none
  | .command asked => some asked
  | .header append name count => gmPayloadOf append name.text count rest

/-- The command at the head of the input, if it is complete. -/
def gmCommandAhead (input : List UInt8) : Option GmCommand :=
  let raw := input.takeWhile (· != 10)
  if raw.length = input.length then
    if input.length = gmstoreInput then some (.refused .malformed) else none
  else
    let line := gmStripReturn raw
    if gmstoreLine < line.length + 1 ∨
        line.any (fun symbol => symbol < 32 || 126 < symbol) then
      some (.refused .malformed)
    else
      (gmLineOf (gmTokens [] line)).completes (input.drop (raw.length + 1))

/-- The command that `gm_process_input` completes for a client, if any. -/
def gmCompletes (client : GmClient) : Option GmCommand :=
  if client.output.length ≠ client.outputPos then none
  else if client.pending ≠ .none then
    gmPayloadOf (client.pending = .append) client.pendingPath
      client.pendingCount client.input
  else gmCommandAhead client.input

/-! ## The commands answer as the map does -/

/-- A command was answered as the map answers it. -/
structure AnsweredAs (command : GmCommand) (client : GmClient)
    (store : GmStore) (result : Bool × GmClient × GmStore) : Prop where
  stays : result.1 = true
  only : client.OnlyOutput result.2.1
  replied : result.2.1.output ≠ []
  fits : result.2.1.output.length ≤ gmstoreOutput
  sound : result.2.2.Sound
  answers : MapAnswers (gmObjects store) command result.2.1.output
    (gmObjects result.2.2)

section Branches

variable {client : GmClient} {store : GmStore} (idle : client.Idle)
  (sound : store.Sound)

include idle in
theorem gmAnswer_as {command : GmCommand} {text : List UInt8}
    {after : GmStore} (short : text.length < gmstoreOutput)
    (sound : after.Sound)
    (answers : MapAnswers (gmObjects store) command (text ++ [10])
      (gmObjects after)) :
    AnsweredAs command client store (gmAnswer text client after) := by
  rw [gmAnswer_idle idle after short]
  refine ⟨rfl, ⟨_, rfl⟩, by simp, ?_, sound, answers⟩
  rw [List.length_append, List.length_singleton]
  exact short

/-- A tree that looks the same holds the same objects. -/
theorem GmStore.Sound.same_tree {store after : GmStore} (sound : store.Sound)
    (host : store.fs.SameHost after.fs) (tree : after.fs.tree = store.fs.tree)
    (root : after.root = store.root) :
    after.Sound ∧ gmObjects after = gmObjects store := by
  refine ⟨⟨sound.reliable.later host, ?_⟩, ?_⟩
  · rw [tree, root]
    exact sound.rootDir
  · funext name
    rw [gmObjects, tree, root]
    rfl

include idle sound

theorem gmCommandStat_as (name : GmName) :
    AnsweredAs (.stat name) client store
      (gmCommandStat name.text client store) := by
  obtain ⟨found, after, opened, host, tree, outcome⟩ :=
    gmOpenRegular_object name sound.reliable sound.rootDir
  obtain ⟨afterSound, objects⟩ : (store.withFs after).Sound ∧
      gmObjects (store.withFs after) = gmObjects store :=
    sound.same_tree host tree rfl
  rw [gmCommandStat, opened]
  rcases outcome with ⟨rfl, absent⟩ | ⟨handle, data, rfl, _, there⟩
  · apply gmAnswer_as idle (by decide) afterSound
    rw [objects]
    exact .statMissing absent
  · apply gmAnswer_as idle (sizeLine_short data.length) afterSound
    rw [objects]
    exact .stat (FileTree.fileAt_eq_some.mpr there)

theorem gmCommandRead_as (name : GmName) {offset count : List UInt8}
    {start size : Nat} (isOffset : gmNumber offset = some start)
    (isCount : gmNumber count = some size)
    (within : ¬ (gmstoreBlock < size ∨ longMax < start)) :
    AnsweredAs (.read name start size) client store
      (gmCommandRead name.text offset count client store) := by
  obtain ⟨after, block, host, tree⟩ :=
    gmReadBlock_object name sound.reliable sound.rootDir start size
  obtain ⟨afterSound, objects⟩ : (store.withFs after).Sound ∧
      gmObjects (store.withFs after) = gmObjects store :=
    sound.same_tree host tree rfl
  cases found : store.fs.tree.fileAt (name.place store.root) with
  | none =>
    rw [found] at block
    rw [gmCommandRead, isOffset, isCount]
    simp only [if_neg within, block]
    apply gmAnswer_as idle (by decide) afterSound
    rw [objects]
    exact .readMissing start size found
  | some data =>
    rw [found] at block
    obtain ⟨fits, same⟩ := gmCommandRead_block isOffset isCount within block
    have bytes : ((data.drop start).take size).length =
        min size (data.length - start) := by
      rw [List.length_take, List.length_drop]
    rw [same client idle, bytes]
    rw [bytes] at fits
    refine ⟨rfl, ⟨_, rfl⟩, by simp, fits, afterSound, ?_⟩
    rw [objects]
    exact .read start size found

theorem gmCommandDel_as (name : GmName) :
    AnsweredAs (.del name) client store
      (gmCommandDel name.text client store) := by
  obtain ⟨deleted, after, ran, root, afterSound, outcome⟩ :=
    gmDelete_object sound name
  rw [gmCommandDel, ran]
  rcases outcome with ⟨rfl, absent, tree⟩ | ⟨rfl, present, files⟩
  · apply gmAnswer_as idle (by decide) afterSound
    have objects : gmObjects after = gmObjects store := by
      funext other
      rw [gmObjects, gmObjects, tree, root]
    rw [objects]
    exact .delMissing absent
  · apply gmAnswer_as idle (by decide) afterSound
    have objects : gmObjects after =
        update (gmObjects store) name none := by
      funext other
      rw [gmObjects, files, root]
      by_cases same : other = name
      · rw [same, update_self, update_self]
      · rw [update_of_ne same, update_of_ne]
        · rfl
        · exact fun places => same (GmName.place_injective _ places)
    rw [objects]
    obtain ⟨data, there⟩ := Option.ne_none_iff_exists'.mp present
    exact .del there

end Branches

/-! Listings and payloads. -/

theorem gmListEntries_observed
    {collect : TreePath → List UInt8 → GmClient → FileSystem →
      Bool × GmClient × FileSystem}
    (each : ∀ dir rel client fs,
      FileSystem.Observed fs (collect dir rel client fs).2.2)
    (dir : TreePath) (rel : List UInt8) (names : List Name)
    (client : GmClient) (fs : FileSystem) :
    fs.Observed (gmListEntries collect dir rel names client fs).2.2.2 := by
  induction names generalizing client fs with
  | nil => exact .refl fs
  | cons name names induction =>
    have stat := FileSystem.fstatat_observed false dir name fs
    rw [gmListEntries]
    generalize fs.fstatat false dir name = answer at stat
    obtain ⟨node, after⟩ := answer
    cases node with
    | error errno => exact stat.trans (induction client after)
    | ok node =>
      simp only
      split
      · exact stat.trans (induction client after)
      rename_i child _
      cases node with
      | link target => exact stat.trans (induction client after)
      | dir =>
        have opens : after.Observed
            (after.openat gmDirFlags dir name).2 :=
          FileSystem.openat_observed rfl rfl dir name
        simp only
        generalize after.openat gmDirFlags dir name = opened at opens
        obtain ⟨handle, inside⟩ := opened
        have entered := stat.trans opens
        cases handle with
        | error errno => exact entered
        | ok handle =>
          have inner := each handle.path child client inside
          simp only
          generalize collect handle.path child client inside = listed
            at inner
          obtain ⟨done, listing, outside⟩ := listed
          have left := entered.trans inner
          cases done with
          | false => exact left
          | true => exact left.trans (induction listing outside)
      | file data =>
        simp only
        split
        · exact stat
        · split
          · exact stat
          · exact stat.trans (induction _ after)

theorem gmListCollect_observed (depth : Nat) (passed : Name → Bool)
    (dir : TreePath) (rel : List UInt8) (client : GmClient) (fs : FileSystem) :
    fs.Observed (gmListCollect depth passed dir rel client fs).2.2.2 := by
  induction depth generalizing passed dir rel client fs with
  | zero => exact .refl fs
  | succ depth induction =>
    rw [gmListCollect]
    have first := FileSystem.plainCall_observed fs
    generalize fs.plainCall = dup at first
    obtain ⟨duplicated, middle⟩ := dup
    cases duplicated with
    | false => exact first
    | true =>
      have second := FileSystem.plainCall_observed middle
      simp only
      generalize middle.plainCall = stream at second
      obtain ⟨opened, after⟩ := stream
      have entered := first.trans second
      cases opened with
      | false => exact entered
      | true =>
        refine entered.trans (gmListEntries_observed ?_ _ _ _ _ _)
        intro next child client fs
        exact induction _ next child client fs

theorem gmCommandList_store (client : GmClient) (store : GmStore) :
    store.fs.Observed (gmCommandList client store).2.2.fs ∧
      (gmCommandList client store).2.2.root = store.root := by
  have listing := gmListCollect_observed gmstorePath store.passed store.root []
    {} store.fs
  rw [gmCommandList_eq]
  simp only
  split <;> exact ⟨listing, rfl⟩

theorem gmCommandList_as (idle : client.Idle) (sound : store.Sound) :
    AnsweredAs .list client store (gmCommandList client store) := by
  obtain ⟨observed, root⟩ := gmCommandList_store client store
  obtain ⟨afterSound, objects⟩ :=
    sound.same_tree observed.host observed.tree root
  obtain ⟨reply, after, nonempty, fits, same⟩ := gmCommandList_replies store
  beta_reduce at same
  rw [same client idle] at afterSound objects ⊢
  refine ⟨rfl, ⟨reply, rfl⟩, nonempty, fits, afterSound, ?_⟩
  rw [objects]
  exact .list _

theorem gmNameOf_text (name : GmName) : gmNameOf name.text = some name := by
  rw [gmNameOf, dif_pos ⟨name.valid, name.plain, name.short⟩]

/-- The object of a name after a payload was stored there. -/
theorem gmObjects_stored {fs : FileSystem} {data : List UInt8}
    (files : fs.tree.fileAt = update store.fs.tree.fileAt
      (name.place store.root) (some data)) :
    gmObjects (store.withFs fs) =
      update (gmObjects store) name (some data) := by
  funext other
  change fs.tree.fileAt (other.place store.root) = _
  rw [files]
  by_cases same : other = name
  · rw [same, update_self, update_self]
  · rw [update_of_ne same, update_of_ne]
    · rfl
    · exact fun places => same (GmName.place_injective _ places)

/-- A complete payload is answered as the map answers it. -/
theorem gmPendingWrite_as (idle : client.Idle) (sound : store.Sound)
    (waiting : client.pending ≠ .none) (path : client.pendingPath = name.text)
    (enough : ¬ client.input.length < client.pendingCount) :
    (gmPendingWrite client store).1.live = true ∧
      (gmPendingWrite client store).1.outputPos = 0 ∧
      (gmPendingWrite client store).1.pending = .none ∧
      (gmPendingWrite client store).2.Sound ∧
      MapAnswers (gmObjects store)
        (.store (client.pending = .append) name
          (client.input.take client.pendingCount))
        (gmPendingWrite client store).1.output
        (gmObjects (gmPendingWrite client store).2) := by
  obtain ⟨error, fs, stored, host, rootDir, outcome⟩ :=
    gmStorePayload_object name sound.reliable sound.rootDir
      (client.pending = .append) (client.input.take client.pendingCount)
  rw [← path] at stored
  change client.storePayload store = (error, fs) at stored
  rw [gmPendingWrite_complete waiting enough idle.empty, stored]
  obtain ⟨live, start, pending, _⟩ :=
    GmClient.settled_answers error idle.start
  refine ⟨live.trans idle.live, start, pending,
    ⟨sound.reliable.later host, rootDir⟩, ?_⟩
  rcases outcome with ⟨failed, absent, files, _⟩ | ⟨rfl, files⟩
  · obtain ⟨error, rfl⟩ := Option.ne_none_iff_exists'.mp failed
    have objects : gmObjects (store.withFs fs) = gmObjects store := by
      funext other
      change fs.tree.fileAt _ = _
      rw [files]
      rfl
    rw [objects]
    exact .unstored _ _ error absent
  · rw [gmObjects_stored files]
    by_cases appends : client.pending = .append
    · simp only [appends, decide_true, if_true]
      exact .append name _
    · simp only [appends, decide_false, Bool.false_eq_true, if_false,
        List.nil_append]
      exact .write name _

/-! ## Lines -/

/-- The tokens of an accepted line fit the buffers and have no NUL. -/
structure Tokens (parts : List (List UInt8)) : Prop where
  plain : ∀ token ∈ parts, cString token = token
  short : ∀ token ∈ parts, token.length < gmstorePath

theorem gmTokens_tokens {line : List UInt8}
    (accepted : ¬ (gmstoreLine < line.length + 1 ∨
      line.any (fun symbol => symbol < 32 || 126 < symbol))) :
    Tokens (gmTokens [] line) := by
  obtain ⟨fits, clean⟩ := not_or.mp accepted
  constructor
  · intro token member
    rw [cString, List.takeWhile_eq_self_iff]
    intro symbol inside
    rw [bne_iff_ne]
    rintro rfl
    have within : 0 ∈ line := (gmTokens_sublist member).subset inside
    exact clean (List.any_eq_true.mpr ⟨0, within, by decide⟩)
  · intro token member
    have bound : token.length ≤ line.length :=
      (gmTokens_sublist member).length_le
    have line : gmstoreLine = gmstorePath := rfl
    omega

/-- A token is a name exactly if `gm_name_valid` accepts it. -/
theorem Tokens.nameOf {parts : List (List UInt8)} (tokens : Tokens parts)
    {text : List UInt8} (member : text ∈ parts) :
    (gmNameValid text = true ∧ ∃ name, gmNameOf text = some name ∧
      name.text = text) ∨
      (gmNameValid text = false ∧ gmNameOf text = none) := by
  cases valid : gmNameValid text with
  | true =>
    exact .inl ⟨rfl, ⟨text, valid, tokens.plain text member,
      tokens.short text member⟩, gmNameOf_text ⟨text, _, _, _⟩, rfl⟩
  | false =>
    refine .inr ⟨rfl, ?_⟩
    rw [gmNameOf, dif_neg]
    rintro ⟨accepted, _⟩
    rw [valid] at accepted
    cases accepted

/-- A header has been taken up, and its payload is awaited. -/
def GmClient.awaits (client : GmClient) (append : Bool) (name : GmName)
    (count : Nat) : GmClient :=
  { client with
    pending := storePending append
    pendingCount := count
    pendingPath := name.text }

/-- What a line does. -/
def LineDone (line : GmLine) (client : GmClient) (store : GmStore)
    (result : Bool × GmClient × GmStore) : Prop :=
  match line with
  | .blank => result = (true, client, store)
  | .command command => AnsweredAs command client store result
  | .header append name count =>
    result =
      ((gmPendingWrite (client.awaits append name count) store).1.live,
        gmPendingWrite (client.awaits append name count) store)

section Lines

variable {client : GmClient} {store : GmStore} (idle : client.Idle)
  (sound : store.Sound)
include idle sound

theorem gmAnswer_refused (refusal : GmRefusal) :
    AnsweredAs (.refused refusal) client store
      (gmAnswer refusal.text client store) :=
  gmAnswer_as idle (by cases refusal <;> decide) sound (.refused refusal)

theorem gmCommandWrite_done (append : Bool) (name : GmName)
    (count : List UInt8) :
    LineDone (gmNamedLine.gmHeaderLine append name count) client store
      (gmCommandWrite (storePending append) name.text count client store) := by
  rw [gmNamedLine.gmHeaderLine, gmCommandWrite]
  cases gmNumber count with
  | none => exact gmAnswer_refused idle sound .size
  | some size =>
    simp only
    have fits : ¬ gmstorePath < name.text.length + 1 := by
      have short := name.short
      omega
    split
    · exact gmAnswer_refused idle sound .size
    · rfl

theorem gmCommandNamed_done (command : List UInt8) (name : GmName)
    (args : List (List UInt8)) :
    LineDone (gmNamedLine command name args) client store
      (gmCommandNamed command name.text args client store) := by
  rw [gmNamedLine, gmCommandNamed]
  split
  · exact gmCommandStat_as idle sound name
  split
  · split
    · rename_i offset count isOffset isCount
      split
      · rename_i beyond
        rw [gmCommandRead, isOffset, isCount]
        simp only [if_pos beyond]
        exact gmAnswer_refused idle sound .read
      · rename_i within
        exact gmCommandRead_as idle sound name isOffset isCount within
    · rename_i unreadable
      have refused : gmCommandRead name.text (args.getD 0 []) (args.getD 1 [])
          client store = gmAnswer (ascii "ERR read") client store := by
        rw [gmCommandRead]
        split
        · rename_i offset count isOffset isCount
          exact absurd isCount (unreadable offset count isOffset)
        · rfl
      rw [refused]
      exact gmAnswer_refused idle sound .read
  split
  · exact gmCommandWrite_done idle sound false name _
  split
  · exact gmCommandWrite_done idle sound true name _
  split
  · exact gmCommandDel_as idle sound name
  · exact gmAnswer_refused idle sound .malformed

theorem gmCommandParts_done {parts : List (List UInt8)}
    (tokens : Tokens parts) :
    LineDone (gmLineOf parts) client store
      (gmCommandParts parts client store) := by
  unfold gmLineOf gmCommandParts
  split
  · exact gmAnswer_refused idle sound .malformed
  split
  · rfl
  split
  · exact gmAnswer_as idle (by decide) sound .ping
  split
  · exact gmCommandList_as idle sound
  rcases parts with _ | ⟨command, _ | ⟨text, args⟩⟩
  · exact gmAnswer_refused idle sound .path
  · exact gmAnswer_refused idle sound .path
  · have member : text ∈ command :: text :: args := by simp
    rcases tokens.nameOf member with
      ⟨valid, name, isName, rfl⟩ | ⟨invalid, noName⟩
    · simp only [isName, valid, if_true]
      exact gmCommandNamed_done idle sound command name args
    · simp only [noName, invalid, Bool.false_eq_true, if_false]
      exact gmAnswer_refused idle sound .path

end Lines

/-! ## Processing input -/

/-- Between two events: output is waiting or gone, and an awaited payload has a
name to go to. -/
structure Proper (client : GmClient) : Prop where
  output : (client.output = [] ∧ client.outputPos = 0) ∨
    client.outputPos < client.output.length
  path : client.pending ≠ .none → ∃ name : GmName,
    client.pendingPath = name.text

/-- The step of the map that a call of `gm_process_input` makes. -/
structure Processed (before : GmClient) (store : GmStore) (after : GmClient)
    (left : GmStore) : Prop where
  proper : Proper after
  sound : left.Sound
  answers : MapSteps (gmCompletes before) (gmObjects store) after.output
    (gmObjects left)

theorem MapAnswers.store_reply {objects after : GmObjects} {append : Bool}
    {payload reply : List UInt8}
    (answers : MapAnswers objects (.store append name payload) reply after) :
    reply ≠ [] := by
  cases answers <;> simp

theorem GmClient.logReply_output (client : GmClient) :
    client.logReply.output = client.output := by
  rw [GmClient.logReply]
  split <;> rfl

theorem GmClient.logReply_proper (proper : Proper client) :
    Proper client.logReply := by
  rw [GmClient.logReply]
  split
  · exact proper
  · exact ⟨proper.output, proper.path⟩

section Process

variable {client : GmClient} {store : GmStore} (idle : client.Idle)
  (sound : store.Sound)
include idle sound

theorem gmPendingWrite_processed (waiting : client.pending ≠ .none)
    (path : client.pendingPath = name.text) :
    Proper (gmPendingWrite client store).1 ∧
      (gmPendingWrite client store).1.live = true ∧
      (gmPendingWrite client store).2.Sound ∧
      MapSteps (gmPayloadOf (client.pending = .append) name.text
          client.pendingCount client.input) (gmObjects store)
        (gmPendingWrite client store).1.output
        (gmObjects (gmPendingWrite client store).2) := by
  rw [gmPayloadOf, gmNameOf_text]
  by_cases short : client.input.length < client.pendingCount
  · rw [if_pos short, gmPendingWrite_short short]
    exact ⟨⟨.inl ⟨idle.empty, idle.start⟩, fun _ => ⟨name, path⟩⟩, idle.live,
      sound, rfl⟩
  · obtain ⟨live, start, pending, afterSound, answers⟩ :=
      gmPendingWrite_as idle sound waiting path short
    rw [if_neg short]
    refine ⟨⟨.inr ?_, fun still => absurd pending still⟩, live, afterSound,
      answers⟩
    rw [start]
    exact List.length_pos_iff.mpr answers.store_reply

theorem gmProcessLine_processed (quiet : client.pending = .none) :
    Proper (gmProcessLine client store).1 ∧
      (gmProcessLine client store).2.Sound ∧
      MapSteps (gmCommandAhead client.input) (gmObjects store)
        (gmProcessLine client store).1.output
        (gmObjects (gmProcessLine client store).2) := by
  have refused : ∀ caller : GmClient, caller.pending = .none →
      Proper (gmOutputError (ascii "ERR syntax") caller) ∧
        MapAnswers (gmObjects store) (.refused .malformed)
          (gmOutputError (ascii "ERR syntax") caller).output
          (gmObjects store) := by
    intro caller still
    rw [gmOutputError_eq caller (by decide)]
    exact ⟨⟨.inr (by simp), fun waits => absurd still waits⟩,
      .refused .malformed⟩
  rw [gmProcessLine, gmCommandAhead]
  generalize client.input.takeWhile (· != 10) = raw
  by_cases whole : raw.length = client.input.length
  · simp only [if_pos whole]
    by_cases full : client.input.length = gmstoreInput
    · simp only [if_pos full]
      obtain ⟨proper, answers⟩ :=
        refused (gmInputConsume client.input.length client) quiet
      exact ⟨proper, sound, answers⟩
    · simp only [if_neg full]
      exact ⟨⟨.inl ⟨idle.empty, idle.start⟩, fun still => absurd quiet still⟩,
        sound, rfl⟩
  simp only [if_neg whole]
  generalize gmStripReturn raw = line
  by_cases bad : gmstoreLine < line.length + 1 ∨
      line.any (fun symbol => symbol < 32 || 126 < symbol) = true
  · simp only [if_pos bad]
    obtain ⟨proper, answers⟩ := refused (gmInputConsume (raw.length + 1) client)
      quiet
    exact ⟨proper, sound, answers⟩
  simp only [if_neg bad]
  generalize called : (gmInputConsume (raw.length + 1) client).logCommand line =
    caller
  have callerIdle : caller.Idle := by
    rw [← called]
    exact ⟨idle.live, idle.empty, idle.start⟩
  have callerQuiet : caller.pending = .none := by
    rw [← called]
    exact quiet
  have rest : caller.input = client.input.drop (raw.length + 1) := by
    rw [← called]
    rfl
  have done := gmCommandParts_done callerIdle sound (gmTokens_tokens bad)
  rw [gmCommand]
  cases meaning : gmLineOf (gmTokens [] line) with
  | blank =>
    rw [meaning] at done
    rw [show gmCommandParts (gmTokens [] line) caller store =
      (true, caller, store) from done]
    exact ⟨⟨.inl ⟨callerIdle.empty, callerIdle.start⟩,
      fun still => absurd callerQuiet still⟩, sound, rfl⟩
  | command command =>
    rw [meaning] at done
    have answered : AnsweredAs command caller store
      (gmCommandParts (gmTokens [] line) caller store) := done
    generalize gmCommandParts (gmTokens [] line) caller store = result
      at answered
    rw [gmFinish_true answered.stays]
    refine ⟨⟨?_, ?_⟩, answered.sound, answered.answers⟩
    · obtain ⟨output, same⟩ := answered.only
      have start : result.2.1.outputPos = 0 := by
        rw [same]
        exact callerIdle.start
      rw [start]
      exact .inr (List.length_pos_iff.mpr answered.replied)
    · intro waits
      obtain ⟨output, same⟩ := answered.only
      rw [same] at waits
      exact absurd callerQuiet waits
  | header append name count =>
    rw [meaning] at done
    have taken : gmCommandParts (gmTokens [] line) caller store =
        ((gmPendingWrite (caller.awaits append name count) store).1.live,
          gmPendingWrite (caller.awaits append name count) store) := done
    have waiting : (caller.awaits append name count).pending ≠ .none := by
      cases append <;> simp [GmClient.awaits, storePending]
    obtain ⟨proper, live, afterSound, answers⟩ := gmPendingWrite_processed
      (show (caller.awaits append name count).Idle from
        ⟨callerIdle.live, callerIdle.empty, callerIdle.start⟩)
      sound waiting rfl
    have kind : decide ((caller.awaits append name count).pending =
        .append) = append := by
      cases append <;> rfl
    rw [kind] at answers
    rw [taken, gmFinish_true live]
    refine ⟨proper, afterSound, ?_⟩
    rw [GmLine.completes, ← rest]
    exact answers

end Process

end Gmker.Server
