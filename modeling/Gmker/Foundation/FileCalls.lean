import Gmker.Foundation.FileTree

/-!
# File system calls

Path resolution and the system calls of a POSIX host on a file tree.  A call may
also fail for reasons outside the tree, a write may transfer less than it was
asked to, and new entries of a directory go where the host likes; all of this
comes from outcome streams.  Every object a call looks at or changes is put on
record.  Interrupted calls are retried by their callers and are not told apart
from the call that finally returns.
-/

namespace Foundation

/-- Cut a path at its slashes. -/
def splitPath : List UInt8 → List Name
  | [] => [[]]
  | symbol :: rest =>
    if symbol = 47 then [] :: splitPath rest
    else
      match splitPath rest with
      | [] => [[symbol]]
      | first :: more => (symbol :: first) :: more

inductive Errno where
  | noent
  | notdir
  | exist
  | isdir
  | loop
  | failed
  deriving DecidableEq, Repr

/-- The number of names one resolution may visit; past it the links of the tree
are taken for a loop. -/
abbrev pathLimit : Nat := 100000

/-- Walk along names from a directory.  Links are followed on the way, and at
the end if `follow` says so; the last name need not exist. -/
def FileTree.resolve (tree : FileTree) (follow : Bool) :
    Nat → TreePath → List Name → Except Errno TreePath
  | 0, _, _ => .error .loop
  | _ + 1, here, [] => .ok here
  | fuel + 1, here, name :: rest =>
    if name = [] ∨ name = [46] then tree.resolve follow fuel here rest
    else if name = [46, 46] then
      tree.resolve follow fuel here.dropLast rest
    else
      match tree.lookup (here ++ [name]) with
      | some .dir => tree.resolve follow fuel (here ++ [name]) rest
      | some (.link target) =>
        if rest = [] ∧ follow = false then .ok (here ++ [name])
        else
          tree.resolve follow fuel
            (if target.head? = some 47 then [] else here)
            (splitPath target ++ rest)
      | some (.file _) =>
        if rest = [] then .ok (here ++ [name]) else .error .notdir
      | none => if rest = [] then .ok (here ++ [name]) else .error .noent

/-- Resolve a path as the `at` calls do. -/
def FileTree.locate (tree : FileTree) (follow : Bool) (dir : TreePath)
    (path : List UInt8) : Except Errno TreePath :=
  if path = [] then .error .noent
  else
    tree.resolve follow pathLimit (if path.head? = some 47 then [] else dir)
      (splitPath path)

inductive AccessKind where
  | openDir
  | openFile
  | makeDir
  | create
  | truncate
  | stat
  | read
  | write
  | unlink
  deriving DecidableEq, Repr

/-- What a call looked at or changed, and what it found there. -/
structure Access where
  kind : AccessKind
  path : TreePath
  found : Option Node
  deriving DecidableEq, Repr

/-- The tree, the outcomes of calls to come, and the record of accesses. -/
structure FileSystem where
  tree : FileTree
  faults : Nat → Bool := fun _ => false
  transfers : Nat → Nat := fun _ => 65535
  /-- Where a new entry goes in the listing of its directory. -/
  inserts : Nat → Nat := fun _ => 65535
  /-- The names, present or not, that lie behind a directory descriptor once it
  has been read. -/
  passes : Nat → Name → Bool := fun _ _ => true
  calls : Nat := 0
  accesses : List Access := []

namespace FileSystem

/-- The system after one more call. -/
def next (fs : FileSystem) : FileSystem := { fs with calls := fs.calls + 1 }

/-- Put an access on record and take over the tree it leaves. -/
def note (fs : FileSystem) (kind : AccessKind) (path : TreePath)
    (tree : FileTree) : FileSystem :=
  { fs with
    tree := tree
    accesses := fs.accesses ++
      [{ kind := kind, path := path, found := fs.tree.lookup path }] }

/-- A call that only succeeds or fails, such as `dup` or `close`. -/
def plainCall (fs : FileSystem) : Bool × FileSystem :=
  (!fs.faults fs.calls, fs.next)

/-- Hang a new node at a place whose directory exists. -/
def place (fs : FileSystem) (path : TreePath) (node : Node)
    (kind : AccessKind) : Except Errno Unit × FileSystem :=
  match path.getLast? with
  | none => (.error .exist, fs)
  | some name =>
    if absent : fs.tree.lookup (path.dropLast ++ [name]) = none then
      if isDir : fs.tree.IsDir path.dropLast then
        (.ok (), fs.note kind (path.dropLast ++ [name])
          (fs.tree.create path.dropLast name node (fs.inserts fs.calls) isDir
            absent))
      else (.error .noent, fs)
    else (.error .exist, fs)

/-- `mkdirat`. -/
def mkdirat (dir : TreePath) (path : List UInt8) (fs : FileSystem) :
    Except Errno Unit × FileSystem :=
  if fs.faults fs.calls then (.error .failed, fs.next)
  else
    match fs.tree.locate false dir path with
    | .error errno => (.error errno, fs.next)
    | .ok target => fs.next.place target .dir .makeDir

structure OpenFlags where
  directory : Bool := false
  write : Bool := false
  create : Bool := false
  append : Bool := false
  truncate : Bool := false
  nofollow : Bool := false

/-- An open file or directory. -/
structure Handle where
  path : TreePath
  append : Bool := false

/-- Open the node at a place, or create a file there. -/
def openPlace (flags : OpenFlags) (path : TreePath) (fs : FileSystem) :
    Except Errno Handle × FileSystem :=
  match found : fs.tree.lookup path with
  | none =>
    if flags.create then
      match fs.place path (.file []) .create with
      | (.error errno, fs) => (.error errno, fs)
      | (.ok _, fs) => (.ok { path := path, append := flags.append }, fs)
    else (.error .noent, fs)
  | some (.link _) => (.error .loop, fs)
  | some .dir =>
    if flags.write then (.error .isdir, fs)
    else (.ok { path := path }, fs.note .openDir path fs.tree)
  | some (.file old) =>
    if flags.directory then (.error .notdir, fs)
    else if flags.write ∧ flags.truncate then
      (.ok { path := path, append := flags.append },
        fs.note .truncate path (fs.tree.setFile path [] ⟨old, found⟩))
    else
      (.ok { path := path, append := flags.append },
        fs.note .openFile path fs.tree)

/-- `openat`. -/
def openat (flags : OpenFlags) (dir : TreePath) (path : List UInt8)
    (fs : FileSystem) : Except Errno Handle × FileSystem :=
  if fs.faults fs.calls then (.error .failed, fs.next)
  else
    match fs.tree.locate (!flags.nofollow) dir path with
    | .error errno => (.error errno, fs.next)
    | .ok target => fs.next.openPlace flags target

/-- `fstat`. -/
def fstat (handle : Handle) (fs : FileSystem) :
    Except Errno Node × FileSystem :=
  if fs.faults fs.calls then (.error .failed, fs.next)
  else
    match fs.tree.lookup handle.path with
    | none => (.error .noent, fs.next)
    | some node => (.ok node, fs.next.note .stat handle.path fs.tree)

/-- `fstatat`. -/
def fstatat (follow : Bool) (dir : TreePath) (path : List UInt8)
    (fs : FileSystem) : Except Errno Node × FileSystem :=
  if fs.faults fs.calls then (.error .failed, fs.next)
  else
    match fs.tree.locate follow dir path with
    | .error errno => (.error errno, fs.next)
    | .ok target =>
      match fs.tree.lookup target with
      | none => (.error .noent, fs.next)
      | some node => (.ok node, fs.next.note .stat target fs.tree)

/-- `read` of a regular file at an offset. -/
def readAt (handle : Handle) (offset count : Nat) (fs : FileSystem) :
    Except Errno (List UInt8) × FileSystem :=
  if fs.faults fs.calls then (.error .failed, fs.next)
  else
    match fs.tree.lookup handle.path with
    | some (.file data) =>
      (.ok ((data.drop offset).take count),
        fs.next.note .read handle.path fs.tree)
    | _ => (.error .failed, fs.next)

/-- `write`: at the end of the file if it is open for appending, and otherwise
at an offset.  A nonempty write transfers at least one byte. -/
def writeAt (handle : Handle) (offset : Nat) (bytes : List UInt8)
    (fs : FileSystem) : Except Errno Nat × FileSystem :=
  if fs.faults fs.calls then (.error .failed, fs.next)
  else
    match found : fs.tree.lookup handle.path with
    | some (.file data) =>
      let count := min bytes.length (fs.transfers fs.calls + 1)
      let start := if handle.append then data.length else offset
      (.ok count, fs.next.note .write handle.path
        (fs.tree.setFile handle.path
          (data.take start ++ bytes.take count ++
            data.drop (start + count)) ⟨data, found⟩))
    | _ => (.error .failed, fs.next)

/-- `unlinkat` of a file or link. -/
def unlinkat (dir : TreePath) (path : List UInt8) (fs : FileSystem) :
    Except Errno Unit × FileSystem :=
  if fs.faults fs.calls then (.error .failed, fs.next)
  else
    match fs.tree.locate false dir path with
    | .error errno => (.error errno, fs.next)
    | .ok target =>
      match target.getLast? with
      | none => (.error .isdir, fs.next)
      | some name =>
        if fs.tree.lookup (target.dropLast ++ [name]) = none then
          (.error .noent, fs.next)
        else if leaf : ¬ fs.tree.IsDir (target.dropLast ++ [name]) then
          (.ok (), fs.next.note .unlink (target.dropLast ++ [name])
            (fs.tree.remove target.dropLast name leaf))
        else (.error .isdir, fs.next)

end FileSystem

end Foundation
