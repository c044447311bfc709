import Gmker.Foundation.FileCalls

/-!
# What file system calls do to a tree

A call either leaves tree and record alone or makes one access, and the access
says everything about how the tree changes.  Whole sequences of calls are
described by which accesses they may make; what they do to one place of the
tree follows from the accesses made there.
-/

namespace Foundation

open Function

variable {path : TreePath} {after : FileSystem} {flags : OpenFlags}
  {handle : Handle} {name : Name}

/-- How an access changes the node it finds. -/
def AccessKind.Changes : AccessKind → Option Node → Option Node → Prop
  | .openDir, found, left => found = some .dir ∧ left = found
  | .openFile, found, left => (∃ data, found = some (.file data)) ∧ left = found
  | .makeDir, found, left => found = none ∧ left = some .dir
  | .create, found, left => found = none ∧ left = some (.file [])
  | .truncate, found, left =>
    (∃ data, found = some (.file data)) ∧ left = some (.file [])
  | .stat, found, left => found ≠ none ∧ left = found
  | .read, found, left => (∃ data, found = some (.file data)) ∧ left = found
  | .write, found, left =>
    (∃ data, found = some (.file data)) ∧ ∃ data, left = some (.file data)
  | .unlink, found, left => found ≠ none ∧ found ≠ some .dir ∧ left = none

/-- An access takes one tree to another. -/
structure Access.Acts (access : Access) (before after : FileTree) : Prop where
  found : access.found = before.lookup access.path
  changes : access.kind.Changes access.found (after.lookup access.path)
  frame : ∀ path, path ≠ access.path → after.lookup path = before.lookup path

/-- A sequence of accesses takes one tree to another. -/
inductive AccessRun : List Access → FileTree → FileTree → Prop where
  | nil (tree : FileTree) : AccessRun [] tree tree
  | cons {access : Access} {rest : List Access}
      {before middle after : FileTree} :
      access.Acts before middle → AccessRun rest middle after →
        AccessRun (access :: rest) before after

namespace AccessRun

variable {accesses : List Access}

theorem append {first second : List Access}
    {before middle after : FileTree} (run : AccessRun first before middle)
    (next : AccessRun second middle after) :
    AccessRun (first ++ second) before after := by
  induction run with
  | nil tree => exact next
  | cons acts _ induction => exact .cons acts (induction next)

/-- A preorder on nodes that holds across every access made at a place holds
across the whole run. -/
theorem relates (Related : Option Node → Option Node → Prop)
    (refl : ∀ node, Related node node)
    (trans : ∀ first second third,
      Related first second → Related second third → Related first third)
    {before after : FileTree} (path : TreePath)
    (run : AccessRun accesses before after)
    (each : ∀ access ∈ accesses, access.path = path →
      ∀ left, access.kind.Changes access.found left →
        Related access.found left) :
    Related (before.lookup path) (after.lookup path) := by
  induction run with
  | nil tree => exact refl _
  | @cons access rest before middle after acts _ induction =>
    have tail := induction fun other member =>
      each other (List.mem_cons_of_mem _ member)
    apply trans _ (middle.lookup path) _ _ tail
    by_cases here : path = access.path
    · have changed := each access List.mem_cons_self here.symm _ acts.changes
      rw [acts.found] at changed
      rw [here]
      exact changed
    · rw [acts.frame path here]
      exact refl _

theorem untouched {before after : FileTree} (path : TreePath)
    (run : AccessRun accesses before after)
    (elsewhere : ∀ access ∈ accesses, access.path ≠ path) :
    after.lookup path = before.lookup path := by
  apply run.relates (fun found left => left = found) (fun _ => rfl)
    (fun _ _ _ first second => second.trans first) path
  intro access member here
  exact absurd here (elsewhere access member)

theorem dirs_stay {before after : FileTree}
    (run : AccessRun accesses before after) (isDir : before.IsDir path) :
    after.IsDir path := by
  refine run.relates
    (fun found left => found = some .dir → left = some .dir) (fun _ => id)
    (fun _ _ _ first second => second ∘ first) path ?_ isDir
  intro access _ _ left changes found
  cases kind : access.kind <;>
    simp_all [AccessKind.Changes]

/-- Everything above an accessed place is a directory. -/
theorem above_isDir {before after : FileTree}
    (run : AccessRun accesses before after) {access : Access}
    (member : access ∈ accesses) {shorter : TreePath}
    (above : shorter <+: access.path) (proper : shorter ≠ access.path) :
    after.IsDir shorter := by
  induction run with
  | nil tree => cases member
  | @cons first rest before middle after acts run induction =>
    rcases List.mem_cons.mp member with rfl | later
    · apply run.dirs_stay
      -- The place is there before the access or after it.
      by_cases there : before.lookup access.path = none
      · apply middle.isDir_above above proper
        have changes := acts.changes
        rw [acts.found, there] at changes
        cases kind : access.kind <;>
          simp_all [AccessKind.Changes]
      · have isDir := before.isDir_above above proper there
        rw [FileTree.IsDir, acts.frame shorter proper]
        exact isDir
    · exact induction later

end AccessRun

namespace FileSystem

variable {fs : FileSystem} {kind : AccessKind} {May : Access → Prop}

/-- Between two states only accesses of a certain sort are made. -/
def Makes (May : Access → Prop) (before after : FileSystem) : Prop :=
  ∃ accesses, after.accesses = before.accesses ++ accesses ∧
    AccessRun accesses before.tree after.tree ∧
    ∀ access ∈ accesses, May access

namespace Makes

variable {May : Access → Prop} {before middle after : FileSystem}

theorem refl (fs : FileSystem) : Makes May fs fs :=
  ⟨[], by simp, .nil _, by simp⟩

theorem trans (first : Makes May before middle)
    (second : Makes May middle after) : Makes May before after := by
  obtain ⟨early, earlyLog, earlyRun, earlyMay⟩ := first
  obtain ⟨late, lateLog, lateRun, lateMay⟩ := second
  refine ⟨early ++ late, ?_, earlyRun.append lateRun, ?_⟩
  · rw [lateLog, earlyLog, List.append_assoc]
  · intro access member
    rcases List.mem_append.mp member with member | member
    · exact earlyMay access member
    · exact lateMay access member

theorem next (fs : FileSystem) : Makes May fs fs.next :=
  ⟨[], by simp [FileSystem.next], .nil _, by simp⟩

theorem plainCall (fs : FileSystem) : Makes May fs fs.plainCall.2 := next fs

theorem note {tree : FileTree}
    (changes : kind.Changes (fs.tree.lookup path) (tree.lookup path))
    (frame : ∀ other, other ≠ path → tree.lookup other = fs.tree.lookup other)
    (may : May ⟨kind, path, fs.tree.lookup path⟩) :
    Makes May fs (fs.note kind path tree) := by
  refine ⟨[⟨kind, path, fs.tree.lookup path⟩], rfl, ?_, ?_⟩
  · exact .cons ⟨rfl, changes, frame⟩ (.nil _)
  · simpa using may

theorem look
    (changes : kind.Changes (fs.tree.lookup path) (fs.tree.lookup path))
    (may : May ⟨kind, path, fs.tree.lookup path⟩) :
    Makes May fs (fs.note kind path fs.tree) :=
  note changes (fun _ _ => rfl) may

end Makes

theorem place_makes (fs : FileSystem) (path : TreePath) (node : Node)
    (kind : AccessKind) (changes : kind.Changes none (some node))
    (may : May ⟨kind, path, none⟩) :
    Makes May fs (fs.place path node kind).2 := by
  rw [place]
  split
  · exact .refl fs
  rename_i name last
  have whole : path.dropLast ++ [name] = path :=
    List.dropLast_append_getLast? name (by simp [last])
  split
  · rename_i absent
    split
    · apply Makes.note
      · rw [absent]
        simpa [FileTree.create] using changes
      · intro other elsewhere
        exact update_of_ne elsewhere _ _
      · rw [absent, whole]
        exact may
    · exact .refl fs
  · exact .refl fs

theorem place_node {node : Node} {done : Unit}
    (placed : fs.place path node kind = (.ok done, after)) :
    after.tree.lookup path = some node := by
  rw [place] at placed
  split at placed
  · cases placed
  rename_i name last
  have whole : path.dropLast ++ [name] = path :=
    List.dropLast_append_getLast? name (by simp [last])
  split at placed
  · split at placed
    · obtain ⟨_, rfl⟩ := Prod.mk.inj placed
      rw [whole]
      simp [note, FileTree.create, whole]
    · cases placed
  · cases placed

/-- The access that opening a place makes, depending on what is there. -/
def OpenFlags.OpensAs (flags : OpenFlags) (access : Access) : Prop :=
  match access.found with
  | none => flags.create ∧ access.kind = .create
  | some .dir => flags.write = false ∧ access.kind = .openDir
  | some (.file _) =>
    flags.directory = false ∧
      access.kind =
        if flags.write ∧ flags.truncate then .truncate else .openFile
  | some (.link _) => False

theorem openPlace_makes (flags : OpenFlags) (path : TreePath) (fs : FileSystem)
    (may : ∀ access, access.path = path → flags.OpensAs access → May access) :
    Makes May fs (openPlace flags path fs).2 := by
  rw [openPlace]
  split
  · rename_i absent
    split
    · rename_i creates
      have placed := place_makes fs path (.file []) .create ⟨rfl, rfl⟩
        (may ⟨.create, path, none⟩ rfl ⟨creates, rfl⟩)
      split <;> simp_all
    · exact .refl fs
  · exact .refl fs
  · rename_i isDir
    split
    · exact .refl fs
    · rename_i reads
      apply Makes.look
      · exact ⟨isDir, rfl⟩
      · exact may _ rfl (by simp [OpenFlags.OpensAs, isDir, reads])
  · rename_i old isFile
    split
    · exact .refl fs
    rename_i anyFile
    split
    · rename_i truncates
      refine Makes.note ⟨⟨old, isFile⟩, ?_⟩ ?_ ?_
      · exact update_self _ _ _
      · intro other elsewhere
        exact update_of_ne elsewhere _ _
      · exact may _ rfl
          (by simp [OpenFlags.OpensAs, isFile, anyFile, truncates])
    · rename_i keeps
      apply Makes.look
      · exact ⟨⟨old, isFile⟩, rfl⟩
      · exact may _ rfl (by simp [OpenFlags.OpensAs, isFile, anyFile, keeps])

/-- A place that was opened has the handle's path. -/
theorem openPlace_path (opened : openPlace flags path fs = (.ok handle, after)) :
    handle.path = path := by
  rw [openPlace] at opened
  grind

theorem openPlace_no_link
    (opened : openPlace flags path fs = (.ok handle, after))
    (target : List UInt8) : after.tree.lookup path ≠ some (.link target) := by
  rw [openPlace] at opened
  split at opened
  · split at opened
    · split at opened
      · cases opened
      · rename_i placed
        obtain ⟨_, rfl⟩ := Prod.mk.inj opened
        rw [place_node placed]
        simp
    · cases opened
  · cases opened
  · rename_i isDir
    split at opened
    · cases opened
    · obtain ⟨_, rfl⟩ := Prod.mk.inj opened
      simp [note, isDir]
  · rename_i old isFile
    split at opened
    · cases opened
    split at opened
    · obtain ⟨_, rfl⟩ := Prod.mk.inj opened
      simp [note, FileTree.setFile]
    · obtain ⟨_, rfl⟩ := Prod.mk.inj opened
      simp [note, isFile]

theorem fstat_makes (handle : Handle) (fs : FileSystem)
    (may : ∀ node, fs.tree.lookup handle.path = some node →
      May ⟨.stat, handle.path, some node⟩) :
    Makes May fs (fstat handle fs).2 := by
  rw [fstat]
  split
  · exact .next fs
  split
  · exact .next fs
  · rename_i node there
    apply (Makes.next fs).trans
    apply Makes.look
    · exact ⟨by simp [next, there], rfl⟩
    · simpa [next, there] using may node there

theorem readAt_makes (handle : Handle) (offset count : Nat) (fs : FileSystem)
    (may : ∀ data, May ⟨.read, handle.path, some (.file data)⟩) :
    Makes May fs (readAt handle offset count fs).2 := by
  rw [readAt]
  split
  · exact .next fs
  split
  · rename_i data there
    apply (Makes.next fs).trans
    apply Makes.look
    · exact ⟨⟨data, there⟩, rfl⟩
    · simpa [next, there] using may data
  · exact .next fs

theorem writeAt_makes (handle : Handle) (offset : Nat) (bytes : List UInt8)
    (fs : FileSystem)
    (may : ∀ data, May ⟨.write, handle.path, some (.file data)⟩) :
    Makes May fs (writeAt handle offset bytes fs).2 := by
  rw [writeAt]
  split
  · exact .next fs
  split
  · rename_i data there
    apply (Makes.next fs).trans
    apply Makes.note
    · exact ⟨⟨data, there⟩, _, update_self _ _ _⟩
    · intro other elsewhere
      exact update_of_ne elsewhere _ _
    · simpa [next, there] using may data
  · exact .next fs

end FileSystem

/-- A name that one step of a walk takes literally. -/
structure PlainName (name : Name) : Prop where
  nonempty : name ≠ []
  notHere : name ≠ [46]
  notUp : name ≠ [46, 46]
  noSlash : 47 ∉ name

theorem splitPath_of_no_slash (noSlash : 47 ∉ name) :
    splitPath name = [name] := by
  induction name with
  | nil => rfl
  | cons symbol rest induction =>
    have apart : symbol ≠ 47 := by
      rintro rfl
      exact noSlash List.mem_cons_self
    have tail := induction fun member =>
      noSlash (List.mem_cons_of_mem _ member)
    rw [splitPath, if_neg apart, tail]

/-- A slash ends the part before it. -/
theorem splitPath_cut (noSlash : 47 ∉ name) (rest : List UInt8) :
    splitPath (name ++ 47 :: rest) = name :: splitPath rest := by
  induction name with
  | nil => simp [splitPath]
  | cons symbol name induction =>
    have apart : symbol ≠ 47 := by
      rintro rfl
      exact noSlash List.mem_cons_self
    have tail := induction fun member =>
      noSlash (List.mem_cons_of_mem _ member)
    rw [List.cons_append, splitPath, if_neg apart, tail]

theorem splitPath_ne_nil (path : List UInt8) : splitPath path ≠ [] := by
  cases path with
  | nil => simp [splitPath]
  | cons symbol rest =>
    rw [splitPath]
    split
    · simp
    · split <;> simp

/-- Without following links, a plain name leads to its entry. -/
theorem FileTree.locate_plain (tree : FileTree) (dir : TreePath)
    (plain : PlainName name) :
    tree.locate false dir name = .ok (dir ++ [name]) := by
  have relative : name.head? ≠ some 47 := by
    intro slash
    exact plain.noSlash (List.mem_of_head? slash)
  rw [locate, if_neg plain.nonempty, if_neg relative,
    splitPath_of_no_slash plain.noSlash]
  have kept : ¬ (name = [] ∨ name = [46]) := by
    simp [plain.nonempty, plain.notHere]
  rw [resolve, if_neg kept, if_neg plain.notUp]
  split <;> simp [resolve]

namespace FileSystem

variable {May : Access → Prop} {name : Name} (fs : FileSystem)
  (dir : TreePath)

theorem mkdirat_makes (plain : PlainName name)
    (may : May ⟨.makeDir, dir ++ [name], none⟩) :
    Makes May fs (mkdirat dir name fs).2 := by
  rw [mkdirat, fs.tree.locate_plain dir plain]
  split
  · exact .next fs
  · apply (Makes.next fs).trans
    exact place_makes _ _ _ _ ⟨rfl, rfl⟩ may

theorem openat_makes (flags : OpenFlags) (plain : PlainName name)
    (nofollow : flags.nofollow = true)
    (may : ∀ access, access.path = dir ++ [name] → flags.OpensAs access →
      May access) :
    Makes May fs (openat flags dir name fs).2 := by
  rw [openat, nofollow, Bool.not_true, fs.tree.locate_plain dir plain]
  split
  · exact .next fs
  · apply (Makes.next fs).trans
    exact openPlace_makes flags _ _ may

section

variable (plain : PlainName name)

include plain

theorem openat_path {after : FileSystem} (nofollow : flags.nofollow = true)
    (opened : openat flags dir name fs = (.ok handle, after)) :
    handle.path = dir ++ [name] := by
  rw [openat, nofollow, Bool.not_true, fs.tree.locate_plain dir plain]
    at opened
  split at opened
  · cases opened
  · exact openPlace_path opened

theorem openat_no_link {after : FileSystem} (nofollow : flags.nofollow = true)
    (opened : openat flags dir name fs = (.ok handle, after))
    (target : List UInt8) :
    after.tree.lookup (dir ++ [name]) ≠ some (.link target) := by
  rw [openat, nofollow, Bool.not_true, fs.tree.locate_plain dir plain]
    at opened
  split at opened
  · cases opened
  · exact openPlace_no_link opened target

theorem fstatat_makes (may : ∀ node, May ⟨.stat, dir ++ [name], some node⟩) :
    Makes May fs (fstatat false dir name fs).2 := by
  rw [fstatat, fs.tree.locate_plain dir plain]
  split
  · exact .next fs
  simp only
  split
  · exact .next fs
  · rename_i node there
    apply (Makes.next fs).trans
    apply Makes.look
    · exact ⟨by simp [next, there], rfl⟩
    · simpa [next, there] using may node

/-- `fstatat` answers with the node, and leaves the tree alone. -/
theorem fstatat_node {after : FileSystem} {node : Node}
    (found : fstatat false dir name fs = (.ok node, after)) :
    after.tree.lookup (dir ++ [name]) = some node := by
  rw [fstatat, fs.tree.locate_plain dir plain] at found
  split at found
  · cases found
  simp only at found
  split at found
  · cases found
  · rename_i there
    cases found
    exact there

theorem unlinkat_makes
    (may : ∀ node, fs.tree.lookup (dir ++ [name]) = some node →
      May ⟨.unlink, dir ++ [name], some node⟩) :
    Makes May fs (unlinkat dir name fs).2 := by
  rw [unlinkat, fs.tree.locate_plain dir plain]
  split
  · exact .next fs
  simp only [List.getLast?_append, List.getLast?_singleton, Option.some_or,
    List.dropLast_concat]
  split
  · exact .next fs
  rename_i there
  obtain ⟨node, node_there⟩ := Option.ne_none_iff_exists'.mp there
  split
  · rename_i leaf
    apply (Makes.next fs).trans
    apply Makes.note
    · exact ⟨there, leaf, update_self _ _ _⟩
    · intro other elsewhere
      exact update_of_ne elsewhere _ _
    · simpa [next, node_there] using may node node_there
  · exact .next fs

end

end FileSystem

end Foundation
