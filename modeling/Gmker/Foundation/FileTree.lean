import Mathlib.Data.List.Infix
import Mathlib.Data.List.Nodup
import Mathlib.Logic.Function.Basic

/-!
# File trees

A tree of directories, regular files and symbolic links, addressed by the names
on the way from its root.  A tree carries the proofs that it is one: every node
hangs in a directory, and every directory lists exactly its children.
-/

namespace Foundation

open Function

abbrev Name := List UInt8
abbrev TreePath := List Name

inductive Node where
  | dir
  | file (data : List UInt8)
  | link (target : List UInt8)
  deriving DecidableEq, Repr

structure FileTree where
  lookup : TreePath → Option Node
  /-- The children of a directory in the order in which they are listed. -/
  order : TreePath → List Name
  root : lookup [] = some .dir
  parent : ∀ path name, lookup (path ++ [name]) ≠ none →
    lookup path = some .dir
  listed : ∀ path name, name ∈ order path ↔ lookup (path ++ [name]) ≠ none
  distinct : ∀ path, (order path).Nodup

namespace FileTree

variable (tree : FileTree)

/-- The node is a directory. -/
def IsDir (path : TreePath) : Prop := tree.lookup path = some .dir

instance (path : TreePath) : Decidable (tree.IsDir path) :=
  inferInstanceAs (Decidable (_ = _))

/-- Nothing hangs below a node that is no directory. -/
theorem no_child {path : TreePath} (leaf : ¬ tree.IsDir path) (name : Name) :
    tree.lookup (path ++ [name]) = none := by
  by_contra child
  exact leaf (tree.parent path name child)

/-- Every place above a node is a directory. -/
theorem isDir_above {path shorter : TreePath} (above : shorter <+: path)
    (proper : shorter ≠ path) (there : tree.lookup path ≠ none) :
    tree.IsDir shorter := by
  induction path using List.reverseRecOn with
  | nil => exact absurd (List.prefix_nil.mp above) proper
  | append_singleton path name induction =>
    have isDir := tree.parent path name there
    rcases List.prefix_concat_iff.mp above with whole | within
    · exact absurd whole proper
    · by_cases same : shorter = path
      · rw [same]
        exact isDir
      · exact induction within same (by simp [isDir])

/-- The root directory alone. -/
def empty : FileTree where
  lookup path := if path = [] then some .dir else none
  order _ := []
  root := if_pos rfl
  parent path name child := by simp at child
  listed path name := by simp
  distinct _ := List.nodup_nil

/-- Hang a new node into a directory, at some index of its listing. -/
def create (dir : TreePath) (name : Name) (node : Node) (index : Nat)
    (isDir : tree.IsDir dir) (absent : tree.lookup (dir ++ [name]) = none) :
    FileTree where
  lookup := update tree.lookup (dir ++ [name]) (some node)
  order := update tree.order dir
    ((tree.order dir).take index ++ name :: (tree.order dir).drop index)
  root := by
    rw [update_of_ne (by simp)]
    exact tree.root
  parent path child exists' := by
    have leaf : ¬ tree.IsDir (dir ++ [name]) := by
      simp [IsDir, absent]
    by_cases here : path ++ [child] = dir ++ [name]
    · obtain ⟨rfl, _⟩ := List.append_inj' here rfl
      rw [update_of_ne (by simp)]
      exact isDir
    · rw [update_of_ne here] at exists'
      have above := tree.parent path child exists'
      rw [update_of_ne]
      · exact above
      · rintro rfl
        exact leaf above
  listed path child := by
    by_cases here : path = dir
    · subst here
      rw [update_self, List.perm_middle.mem_iff, List.take_append_drop,
        List.mem_cons, tree.listed]
      by_cases same : child = name
      · subst same
        simp
      · simp [same, update_of_ne]
    · have elsewhere : path ++ [child] ≠ dir ++ [name] := by
        intro same
        exact here (List.append_inj' same rfl).1
      rw [update_of_ne here, update_of_ne elsewhere]
      exact tree.listed path child
  distinct path := by
    by_cases here : path = dir
    · subst here
      rw [update_self, List.nodup_middle, List.take_append_drop,
        List.nodup_cons, tree.listed]
      exact ⟨not_not_intro absent, tree.distinct path⟩
    · rw [update_of_ne here]
      exact tree.distinct path

/-- Replace the contents of a regular file. -/
def setFile (path : TreePath) (data : List UInt8)
    (isFile : ∃ old, tree.lookup path = some (.file old)) : FileTree where
  lookup := update tree.lookup path (some (.file data))
  order := tree.order
  root := by
    rw [update_of_ne]
    · exact tree.root
    · rintro rfl
      obtain ⟨old, file⟩ := isFile
      rw [tree.root] at file
      cases file
  parent here name child := by
    obtain ⟨old, file⟩ := isFile
    have old : tree.lookup (here ++ [name]) ≠ none := by
      by_cases same : here ++ [name] = path
      · rw [same, file]
        simp
      · rwa [update_of_ne same] at child
    have above := tree.parent here name old
    rw [update_of_ne]
    · exact above
    · rintro rfl
      rw [file] at above
      cases above
  listed here name := by
    rw [tree.listed]
    obtain ⟨old, file⟩ := isFile
    by_cases same : here ++ [name] = path
    · rw [same, file, update_self]
      simp
    · rw [update_of_ne same]
  distinct := tree.distinct

/-- Take a node that is no directory out of its directory. -/
def remove (dir : TreePath) (name : Name)
    (leaf : ¬ tree.IsDir (dir ++ [name])) : FileTree where
  lookup := update tree.lookup (dir ++ [name]) none
  order := update tree.order dir ((tree.order dir).erase name)
  root := by
    rw [update_of_ne (by simp)]
    exact tree.root
  parent path child exists' := by
    by_cases here : path ++ [child] = dir ++ [name]
    · rw [here, update_self] at exists'
      exact absurd rfl exists'
    · rw [update_of_ne here] at exists'
      have above := tree.parent path child exists'
      rw [update_of_ne]
      · exact above
      · rintro rfl
        exact leaf above
  listed path child := by
    by_cases here : path = dir
    · subst here
      rw [update_self, (tree.distinct path).mem_erase_iff,
        tree.listed]
      by_cases same : child = name
      · subst same
        simp
      · have elsewhere : path ++ [child] ≠ path ++ [name] := by
          simpa using same
        rw [update_of_ne elsewhere]
        simp [same]
    · have elsewhere : path ++ [child] ≠ dir ++ [name] := by
        intro same
        exact here (List.append_inj' same rfl).1
      rw [update_of_ne here, update_of_ne elsewhere]
      exact tree.listed path child
  distinct path := by
    by_cases here : path = dir
    · subst here
      rw [update_self]
      exact (tree.distinct path).erase name
    · rw [update_of_ne here]
      exact tree.distinct path

end FileTree

end Foundation
