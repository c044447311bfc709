import Gmker.Abi
import Gmker.Foundation.FileCalls

/-!
# Names and files of the store server

The parts of `gmstored.c` that turn a client's name into an object of the host
file system: the grammar of names, the walk to the parent directory, and the
ways to open an object.
-/

namespace Gmker.Server

open Foundation

abbrev gmstoreBlock : Nat := 1024
abbrev gmstoreLine : Nat := 512
abbrev gmstorePath : Nat := 512
abbrev gmstoreInput : Nat := 4096
abbrev gmstoreOutput : Nat := 16384
abbrev gmstoreClients : Nat := 16

/-- The file system of the host, the configured root, and the names in it that
lie behind the position of `rootfd`, which all its duplicates share.  A name that
is not there has its place, too: it is where the host will put it. -/
structure GmStore where
  fs : FileSystem
  root : TreePath
  passed : Name → Bool := fun _ => false

/-- An empty store directory. -/
def emptyStore : GmStore := { fs := { tree := .empty }, root := [] }

/-- Take over a changed file system. -/
def GmStore.withFs (store : GmStore) (fs : FileSystem) : GmStore :=
  { store with fs := fs }

/-- An entry left a directory.  If it is the root, the host finds a new place
for the name. -/
def GmStore.entryLeft (store : GmStore) (dir : TreePath) (name : Name)
    (fs : FileSystem) : GmStore :=
  { store with
    fs := fs
    passed :=
      if dir = store.root then
        Function.update store.passed name (fs.passes fs.calls name)
      else store.passed }

/-- The test of `gm_name_valid` at the end of a component. -/
def gmComponentValid (part : List UInt8) : Bool :=
  part ≠ [] && part ≠ [46] && part ≠ [46, 46]

/-- The loop of `gm_name_valid`, with the characters since `start`. -/
def gmNameScan : List UInt8 → List UInt8 → Bool
  | part, [] => gmComponentValid part
  | part, symbol :: rest =>
    if symbol = 47 then gmComponentValid part && gmNameScan [] rest
    else if symbol < 33 ∨ 126 < symbol then false
    else gmNameScan (part ++ [symbol]) rest

/-- `gm_name_valid`. -/
def gmNameValid (name : List UInt8) : Bool :=
  match cString name with
  | 47 :: next :: rest => gmNameScan [] (next :: rest)
  | _ => false

/-- The parts into which `strchr` cuts a name behind its first slash. -/
def gmComponents (name : List UInt8) : List Name :=
  splitPath ((cString name).drop 1)

/-- The flags with which directories are opened. -/
def gmDirFlags : FileSystem.OpenFlags := { directory := true, nofollow := true }

/-- The loop of `gm_open_parent`; the last part is the leaf. -/
def gmOpenParentLoop (create : Bool) :
    TreePath → List Name → FileSystem →
      Option (TreePath × Name) × FileSystem
  | _, [], fs => (none, fs)
  | current, [leaf], fs =>
    if leaf = [] ∨ gmstorePath < leaf.length + 1 then (none, fs)
    else (some (current, leaf), fs)
  | current, part :: next :: rest, fs =>
    let made : Except Errno Unit × FileSystem :=
      if create then fs.mkdirat current part else (.ok (), fs)
    if made.1 = .ok () ∨ made.1 = .error .exist then
      match made.2.openat gmDirFlags current part with
      | (.error _, fs) => (none, fs)
      | (.ok dir, fs) => gmOpenParentLoop create dir.path (next :: rest) fs
    else (none, made.2)

/-- `gm_open_parent`. -/
def gmOpenParent (create : Bool) (name : List UInt8) (root : TreePath)
    (fs : FileSystem) : Option (TreePath × Name) × FileSystem :=
  if gmNameValid name = false ∨ gmstorePath ≤ (cString name).length then
    (none, fs)
  else
    match fs.plainCall with
    | (false, fs) => (none, fs)
    | (true, fs) => gmOpenParentLoop create root (gmComponents name) fs

/-- `gm_open_regular`, with the size of the file. -/
def gmOpenRegular (name : List UInt8) (root : TreePath) (fs : FileSystem) :
    Option (FileSystem.Handle × Nat) × FileSystem :=
  match gmOpenParent false name root fs with
  | (none, fs) => (none, fs)
  | (some (dir, leaf), fs) =>
    match fs.openat { nofollow := true } dir leaf with
    | (.error _, fs) => (none, fs)
    | (.ok file, fs) =>
      match fs.fstat file with
      | (.ok (.file data), fs) => (some (file, data.length), fs)
      | (_, fs) => (none, fs)

/-- The writing loop of `gm_pending_write`: how much was written. -/
def gmWriteLoop (file : FileSystem.Handle) (bytes : List UInt8) :
    Nat → Nat → FileSystem → Nat × FileSystem
  | 0, done, fs => (done, fs)
  | fuel + 1, done, fs =>
    if done < bytes.length then
      match fs.writeAt file done (bytes.drop done) with
      | (.error _, fs) => (done, fs)
      | (.ok count, fs) => gmWriteLoop file bytes fuel (done + count) fs
    else (done, fs)

/-- The ways in which storing a payload can fail. -/
inductive GmWriteError where
  | path
  | write
  deriving DecidableEq, Repr

/-- The file system part of `gm_pending_write`. -/
def gmStorePayload (append : Bool) (name bytes : List UInt8) (root : TreePath)
    (fs : FileSystem) : Option GmWriteError × FileSystem :=
  match gmOpenParent true name root fs with
  | (none, fs) => (some .path, fs)
  | (some (dir, leaf), fs) =>
    match fs.openat
        { write := true
          create := true
          nofollow := true
          append := append
          truncate := !append } dir leaf with
    | (.error _, fs) => (some .write, fs)
    | (.ok file, fs) =>
      let (done, fs) := gmWriteLoop file bytes bytes.length 0 fs
      let (closed, fs) := fs.plainCall
      if closed = false ∨ done ≠ bytes.length then (some .write, fs)
      else (none, fs)

/-- How `DEL` ends. -/
inductive GmDeleted where
  | missing
  | delete
  | done
  deriving DecidableEq, Repr

/-- The file system part of `DEL`. -/
def gmDelete (name : List UInt8) (store : GmStore) : GmDeleted × GmStore :=
  match gmOpenParent false name store.root store.fs with
  | (none, fs) => (.missing, store.withFs fs)
  | (some (dir, leaf), fs) =>
    match fs.fstatat false dir leaf with
    | (.ok (.file _), fs) =>
      match fs.unlinkat dir leaf with
      | (.error _, fs) => (.delete, store.withFs fs)
      | (.ok _, fs) => (.done, store.entryLeft dir leaf fs)
    | (_, fs) => (.missing, store.withFs fs)

/-- The file system part of `READ`: `lseek` succeeds for every offset up to
`LONG_MAX`, unless it fails for other reasons. -/
def gmReadBlock (name : List UInt8) (offset count : Nat) (root : TreePath)
    (fs : FileSystem) : Option (List UInt8) × FileSystem :=
  match gmOpenRegular name root fs with
  | (none, fs) => (none, fs)
  | (some (file, _), fs) =>
    match fs.plainCall with
    | (false, fs) => (none, fs)
    | (true, fs) =>
      match fs.readAt file offset count with
      | (.error _, fs) => (none, fs)
      | (.ok data, fs) => (some data, fs)

end Gmker.Server
