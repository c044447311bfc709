import Gmker.Foundation.FileEffects

/-!
# Calls on a reliable host

On a host where calls fail only for reasons of the tree, the outcome of a call
on a plain name is decided by the node found there.  Most code is interested
in the contents of regular files only; directories that appear leave those
alone.
-/

namespace Foundation

open Function

namespace FileTree

variable {path : TreePath} {data : List UInt8} {before after : FileTree}

/-- The contents of the regular file at a place. -/
def fileAt (tree : FileTree) (path : TreePath) : Option (List UInt8) :=
  match tree.lookup path with
  | some (.file data) => some data
  | _ => none

theorem fileAt_eq_some {tree : FileTree} :
    tree.fileAt path = some data ↔ tree.lookup path = some (.file data) := by
  unfold fileAt
  split
  · rename_i found there
    simp [there]
  · rename_i other
    constructor
    · intro isSome
      cases isSome
    · intro there
      exact absurd there (other data)

theorem fileAt_set
    (nodes : after.lookup =
      update before.lookup path (some (.file data))) :
    after.fileAt = update before.fileAt path (some data) := by
  funext other
  unfold fileAt
  by_cases here : other = path
  · rw [nodes, here, update_self, update_self]
  · rw [nodes, update_of_ne here, update_of_ne here]

theorem fileAt_removed
    (nodes : after.lookup = update before.lookup path none) :
    after.fileAt = update before.fileAt path none := by
  funext other
  unfold fileAt
  by_cases here : other = path
  · rw [nodes, here, update_self, update_self]
  · rw [nodes, update_of_ne here, update_of_ne here]

/-- The tree has grown by directories only. -/
def Grown (before after : FileTree) : Prop :=
  ∀ path, after.lookup path = before.lookup path ∨
    before.lookup path = none ∧ after.lookup path = some .dir

theorem Grown.refl (tree : FileTree) : Grown tree tree := fun _ => .inl rfl

theorem Grown.of_eq (same : after = before) : Grown before after := by
  rw [same]
  exact .refl _

theorem Grown.trans {first second third : FileTree}
    (left : Grown first second) (right : Grown second third) :
    Grown first third := by
  intro path
  have early := left path
  have late := right path
  grind

theorem Grown.of_made {path : TreePath}
    (free : before.lookup path = none ∨ before.IsDir path)
    (nodes : after.lookup = update before.lookup path (some .dir)) :
    Grown before after := by
  intro other
  rw [nodes]
  by_cases here : other = path
  · rw [here, update_self]
    exact free.symm.imp Eq.symm fun absent => ⟨absent, rfl⟩
  · exact .inl (update_of_ne here _ _)

theorem Grown.stays (grown : Grown before after) {node : Node}
    (there : before.lookup path = some node) :
    after.lookup path = some node := by
  rcases grown path with same | ⟨absent, _⟩
  · rw [same, there]
  · rw [absent] at there
    cases there

theorem Grown.fileAt (grown : Grown before after) :
    after.fileAt = before.fileAt := by
  funext path
  unfold FileTree.fileAt
  rcases grown path with same | ⟨absent, isDir⟩
  · rw [same]
  · rw [absent, isDir]

end FileTree

namespace FileSystem

variable {fs : FileSystem}

/-- Calls fail only for reasons of the tree. -/
def Reliable (fs : FileSystem) : Prop := ∀ call, fs.faults call = false

/-- The same host, later. -/
def SameHost (before after : FileSystem) : Prop :=
  after.faults = before.faults

theorem SameHost.trans {first second third : FileSystem}
    (left : SameHost first second) (right : SameHost second third) :
    SameHost first third :=
  Eq.trans right left

theorem Reliable.later {before after : FileSystem}
    (reliable : before.Reliable) (host : SameHost before after) :
    after.Reliable := by
  intro call
  rw [host]
  exact reliable call

/-- A call that only looked: the same host with the same tree. -/
structure Observed (before after : FileSystem) : Prop where
  host : SameHost before after
  tree : after.tree = before.tree

theorem Observed.refl (fs : FileSystem) : Observed fs fs := ⟨rfl, rfl⟩

theorem Observed.trans {first second third : FileSystem}
    (left : Observed first second) (right : Observed second third) :
    Observed first third :=
  ⟨left.host.trans right.host, right.tree.trans left.tree⟩

theorem plainCall_observed (fs : FileSystem) : Observed fs fs.plainCall.2 :=
  ⟨rfl, rfl⟩

theorem fstatat_observed (follow : Bool) (dir : TreePath)
    (path : List UInt8) (fs : FileSystem) :
    Observed fs (fs.fstatat follow dir path).2 := by
  unfold fstatat
  split
  · exact ⟨rfl, rfl⟩
  · split
    · exact ⟨rfl, rfl⟩
    · split <;> exact ⟨rfl, rfl⟩

theorem place_host (fs : FileSystem) (path : TreePath) (node : Node)
    (kind : AccessKind) : SameHost fs (fs.place path node kind).2 := by
  unfold place
  split
  · rfl
  · split
    · split <;> rfl
    · rfl

theorem openPlace_host (flags : OpenFlags) (path : TreePath)
    (fs : FileSystem) : SameHost fs (fs.openPlace flags path).2 := by
  have placed := place_host fs path (.file []) .create
  rw [openPlace]
  split
  · split
    · split <;> rename_i made <;> rw [made] at placed <;> exact placed
    · rfl
  · rfl
  · split <;> rfl
  · split
    · rfl
    · split <;> rfl

section Calls

variable {fs : FileSystem} (reliable : fs.Reliable) (dir : TreePath)
  {name : Name} (plain : PlainName name)
include reliable

theorem plainCall_reliable : fs.plainCall = (true, fs.next) := by
  simp [plainCall, reliable fs.calls]

include plain

theorem openat_reliable {flags : OpenFlags}
    (nofollow : flags.nofollow = true) :
    fs.openat flags dir name = fs.next.openPlace flags (dir ++ [name]) := by
  rw [openat, reliable fs.calls, if_neg Bool.false_ne_true, nofollow,
    Bool.not_true, fs.tree.locate_plain dir plain]

theorem fstatat_reliable :
    (fs.fstatat false dir name).1 =
      (match fs.tree.lookup (dir ++ [name]) with
        | none => .error .noent
        | some node => .ok node) ∧
    (fs.fstatat false dir name).2.tree = fs.tree ∧
    SameHost fs (fs.fstatat false dir name).2 := by
  rw [fstatat, reliable fs.calls, if_neg Bool.false_ne_true,
    fs.tree.locate_plain dir plain]
  simp only
  cases fs.tree.lookup (dir ++ [name]) with
  | none => exact ⟨rfl, rfl, rfl⟩
  | some node => exact ⟨rfl, rfl, rfl⟩

theorem unlinkat_file
    (there : fs.tree.lookup (dir ++ [name]) = some (.file data)) :
    ∃ after, fs.unlinkat dir name = (.ok (), after) ∧ SameHost fs after ∧
      after.tree.lookup =
        update fs.tree.lookup (dir ++ [name]) none := by
  have leaf : ¬ fs.tree.IsDir (dir ++ [name]) := by
    simp [FileTree.IsDir, there]
  rw [unlinkat, reliable fs.calls, if_neg Bool.false_ne_true,
    fs.tree.locate_plain dir plain]
  simp only [List.getLast?_append, List.getLast?_singleton, Option.some_or,
    List.dropLast_concat]
  rw [if_neg (by rw [there]; simp), dif_pos leaf]
  exact ⟨_, rfl, rfl, rfl⟩

end Calls

section Open

variable {fs : FileSystem} {flags : OpenFlags} {path : TreePath}

theorem openPlace_dir (reads : flags.write = false)
    (isDir : fs.tree.lookup path = some .dir) :
    ∃ after, fs.openPlace flags path = (.ok { path := path }, after) ∧
      after.tree = fs.tree := by
  rw [openPlace]
  split
  · simp_all
  · simp_all
  · rw [if_neg (by simp [reads])]
    exact ⟨_, rfl, rfl⟩
  · simp_all

/-- Nothing but a directory opens as one. -/
theorem openPlace_no_dir (wantsDir : flags.directory = true)
    (old : flags.create = false) (noDir : fs.tree.lookup path ≠ some .dir) :
    ∃ errno, fs.openPlace flags path = (.error errno, fs) := by
  rw [openPlace]
  split
  · rw [if_neg (by simp [old])]
    exact ⟨_, rfl⟩
  · exact ⟨_, rfl⟩
  · rename_i isDir
    exact absurd isDir noDir
  · rw [if_pos wantsDir]
    exact ⟨_, rfl⟩

/-- Opening without leave to create or truncate changes no node. -/
theorem openPlace_reads (old : flags.create = false)
    (reads : flags.write = false) :
    (fs.openPlace flags path).2.tree = fs.tree := by
  rw [openPlace]
  split
  · rw [if_neg (by simp [old])]
  · rfl
  · split <;> rfl
  · split
    · rfl
    · rw [if_neg (by simp [reads])]
      rfl

theorem openat_observed (old : flags.create = false)
    (reads : flags.write = false) (dir : TreePath) (name : List UInt8) :
    Observed fs (fs.openat flags dir name).2 := by
  unfold openat
  split
  · exact ⟨rfl, rfl⟩
  · split
    · exact ⟨rfl, rfl⟩
    · rename_i target _
      exact ⟨openPlace_host flags target fs.next, openPlace_reads old reads⟩

theorem openPlace_file (reads : flags.write = false)
    (anyFile : flags.directory = false)
    (there : fs.tree.lookup path = some (.file data)) :
    ∃ handle after, fs.openPlace flags path = (.ok handle, after) := by
  rw [openPlace]
  split
  · simp_all
  · simp_all
  · simp_all
  · rw [if_neg (by simp [anyFile]), if_neg (by simp [reads])]
    exact ⟨_, _, rfl⟩

/-- The contents a file opened for storing starts from. -/
def OpenFlags.kept (flags : OpenFlags) (old : Option (List UInt8)) :
    List UInt8 :=
  if flags.truncate then [] else old.getD []

/-- Opening for storing: directories and links are refused and nothing
changes, and otherwise the place holds a regular file. -/
theorem openPlace_stores (flags : OpenFlags) (writes : flags.write = true)
    (creates : flags.create = true) (anyFile : flags.directory = false)
    {dir : TreePath} (isDir : fs.tree.IsDir dir) (name : Name) :
    (∃ errno node, fs.openPlace flags (dir ++ [name]) = (.error errno, fs) ∧
      fs.tree.lookup (dir ++ [name]) = some node ∧
      fs.tree.fileAt (dir ++ [name]) = none) ∨
    ∃ after, fs.openPlace flags (dir ++ [name]) =
        (.ok { path := dir ++ [name], append := flags.append }, after) ∧
      after.tree.lookup = update fs.tree.lookup (dir ++ [name])
        (some (.file (flags.kept (fs.tree.fileAt (dir ++ [name]))))) ∧
      (fs.tree.lookup (dir ++ [name]) = none ∨
        ∃ old, fs.tree.lookup (dir ++ [name]) = some (.file old)) := by
  rw [openPlace]
  split
  · rename_i absent
    right
    rw [if_pos creates]
    have noFile : fs.tree.fileAt (dir ++ [name]) = none := by
      simp [FileTree.fileAt, absent]
    simp only [place, List.getLast?_append, List.getLast?_singleton,
      Option.some_or, List.dropLast_concat]
    rw [dif_pos absent, dif_pos isDir]
    refine ⟨_, rfl, ?_, .inl absent⟩
    rw [noFile]
    simp [OpenFlags.kept, note, FileTree.create]
  · rename_i isLink
    exact .inl ⟨_, _, rfl, isLink, by simp [FileTree.fileAt, isLink]⟩
  · rename_i nodeDir
    rw [if_pos writes]
    exact .inl ⟨_, _, rfl, nodeDir, by simp [FileTree.fileAt, nodeDir]⟩
  · rename_i old there
    right
    have file : fs.tree.fileAt (dir ++ [name]) = some old :=
      FileTree.fileAt_eq_some.mpr there
    rw [if_neg (by simp [anyFile]), file]
    by_cases truncates : flags.truncate = true
    · rw [if_pos ⟨writes, truncates⟩]
      exact ⟨_, rfl, by simp [OpenFlags.kept, truncates, note,
        FileTree.setFile], .inr ⟨old, there⟩⟩
    · rw [if_neg (by simp [truncates])]
      refine ⟨_, rfl, ?_, .inr ⟨old, there⟩⟩
      simp [OpenFlags.kept, truncates, note, ← there]

end Open

theorem fstat_reliable (reliable : fs.Reliable) (handle : Handle) :
    (fs.fstat handle).1 =
      (match fs.tree.lookup handle.path with
        | none => .error .noent
        | some node => .ok node) ∧
    (fs.fstat handle).2.tree = fs.tree ∧
    SameHost fs (fs.fstat handle).2 := by
  rw [fstat, reliable fs.calls, if_neg Bool.false_ne_true]
  cases fs.tree.lookup handle.path with
  | none => exact ⟨rfl, rfl, rfl⟩
  | some node => exact ⟨rfl, rfl, rfl⟩

theorem readAt_file (reliable : fs.Reliable) (handle : Handle)
    (offset count : Nat)
    (there : fs.tree.lookup handle.path = some (.file data)) :
    ∃ after, fs.readAt handle offset count =
        (.ok ((data.drop offset).take count), after) ∧
      SameHost fs after ∧ after.tree = fs.tree := by
  rw [readAt, reliable fs.calls, if_neg Bool.false_ne_true, there]
  exact ⟨_, rfl, rfl, rfl⟩

end FileSystem

/-! ## Names and their parts -/

/-- Put slashes between the parts of a path. -/
def joinPath : List Name → List UInt8
  | [] => []
  | [last] => last
  | first :: next :: rest => first ++ 47 :: joinPath (next :: rest)

theorem joinPath_splitPath (path : List UInt8) :
    joinPath (splitPath path) = path := by
  induction path with
  | nil => rfl
  | cons symbol rest induction =>
    rw [splitPath]
    split
    · rename_i slash
      cases parts : splitPath rest with
      | nil => exact absurd parts (splitPath_ne_nil rest)
      | cons first more =>
        rw [parts] at induction
        rw [joinPath, induction, slash]
        rfl
    · cases parts : splitPath rest with
      | nil => exact absurd parts (splitPath_ne_nil rest)
      | cons first more =>
        rw [parts] at induction
        cases more with
        | nil => simpa [joinPath] using induction
        | cons second others => simpa [joinPath] using induction

theorem splitPath_injective : Function.Injective splitPath :=
  Function.LeftInverse.injective joinPath_splitPath

end Foundation
