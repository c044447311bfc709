import Gmker.Foundation.FileContents

/-!
# Listing the files of a tree

The names of all regular files below a directory, in the order in which a walk
through the tree meets them.  A walk that leaves out names from a certain
length on still meets every file whose name is short enough, and none twice.
-/

namespace Foundation

/-- The parts of a path with a slash before each of them. -/
def spelled (names : List Name) : List UInt8 :=
  names.flatMap fun name => 47 :: name

@[simp] theorem spelled_nil : spelled [] = [] := rfl

@[simp] theorem spelled_cons (name : Name) (names : List Name) :
    spelled (name :: names) = 47 :: name ++ spelled names := rfl

theorem splitPath_spelled {names : List Name}
    (noSlash : ∀ name ∈ names, 47 ∉ name) (first : Name)
    (plain : 47 ∉ first) :
    splitPath (first ++ spelled names) = first :: names := by
  induction names generalizing first with
  | nil => rw [spelled_nil, List.append_nil, splitPath_of_no_slash plain]
  | cons name names induction =>
    have later := induction (fun other member =>
      noSlash other (List.mem_cons_of_mem _ member)) name
      (noSlash name List.mem_cons_self)
    rw [spelled_cons, List.cons_append, splitPath_cut plain, later]

theorem spelled_injective {left right : List Name}
    (leftPlain : ∀ name ∈ left, 47 ∉ name)
    (rightPlain : ∀ name ∈ right, 47 ∉ name)
    (same : spelled left = spelled right) : left = right := by
  have parts := splitPath_spelled leftPlain [] List.not_mem_nil
  rw [same, splitPath_spelled rightPlain [] List.not_mem_nil] at parts
  exact (List.cons.inj parts).2.symm

namespace FileTree

variable {dir : TreePath}

/-- All names of a tree are taken literally by a walk. -/
def Plain (tree : FileTree) : Prop :=
  ∀ path name, tree.lookup (path ++ [name]) ≠ none → PlainName name

theorem empty_plain : empty.Plain := by
  intro path name there
  exact absurd (if_neg (by simp)) there

theorem Plain.create {tree : FileTree} (plain : tree.Plain) {name : Name}
    {node : Node} {index : Nat} {isDir : tree.IsDir dir}
    {absent : tree.lookup (dir ++ [name]) = none} (isPlain : PlainName name) :
    (tree.create dir name node index isDir absent).Plain := by
  intro path other there
  by_cases here : path ++ [other] = dir ++ [name]
  · rw [List.singleton_inj.mp (List.append_inj' here rfl).2]
    exact isPlain
  · change Function.update tree.lookup _ _ _ ≠ none at there
    rw [Function.update_of_ne here] at there
    exact plain path other there

/-- The files at or below one entry of a directory; `below` lists those of a
subdirectory. -/
def entryFiles (tree : FileTree) (limit : Nat)
    (below : TreePath → List UInt8 → List (List UInt8))
    (dir : TreePath) (stem : List UInt8) (name : Name) : List (List UInt8) :=
  if limit ≤ (stem ++ 47 :: name).length then []
  else
    match tree.lookup (dir ++ [name]) with
    | some .dir => below (dir ++ [name]) (stem ++ 47 :: name)
    | some (.file _) => [stem ++ 47 :: name]
    | some (.link _) => []
    | none => []

/-- The files below a directory whose name is shorter than the limit; the first
argument bounds the depth of the walk. -/
def filesBelow (tree : FileTree) (limit : Nat) :
    Nat → TreePath → List UInt8 → List (List UInt8)
  | 0, _, _ => []
  | depth + 1, dir, stem =>
    (tree.order dir).flatMap
      (tree.entryFiles limit (tree.filesBelow limit depth) dir stem)

variable {tree : FileTree} {limit : Nat}

section Entries

variable {below : TreePath → List UInt8 → List (List UInt8)}
    {dir : TreePath} {stem text : List UInt8} {name : Name}

theorem spelled_of_mem_entryFiles
    (each : ∀ dir stem text, text ∈ below dir stem →
      ∃ names data, text = stem ++ spelled names ∧
        tree.lookup (dir ++ names) = some (.file data))
    (member : text ∈ tree.entryFiles limit below dir stem name) :
    ∃ names data, text = stem ++ spelled (name :: names) ∧
      tree.lookup (dir ++ name :: names) = some (.file data) := by
  unfold entryFiles at member
  split at member
  · cases member
  split at member
  · obtain ⟨names, data, same, file⟩ := each _ _ _ member
    refine ⟨names, data, ?_, by simpa using file⟩
    rw [same, spelled_cons, List.append_assoc]
  · rename_i data there
    refine ⟨[], data, ?_, there⟩
    rw [List.mem_singleton.mp member, spelled_cons, spelled_nil,
      List.append_nil]
  · cases member
  · cases member

/-- The first node on the way to a deeper one is a directory. -/
theorem isDir_first {names : List Name} (deeper : names ≠ [])
    (there : tree.lookup (dir ++ name :: names) ≠ none) :
    tree.IsDir (dir ++ [name]) := by
  have above : dir ++ [name] <+: dir ++ name :: names := ⟨names, by simp⟩
  exact tree.isDir_above above (by simpa using Ne.symm deeper) there

theorem entry_there {names : List Name} {node : Node}
    (there : tree.lookup (dir ++ name :: names) = some node) :
    tree.lookup (dir ++ [name]) ≠ none := by
  by_cases last : names = []
  · subst last
    simp [there]
  · rw [isDir_first last (by simp [there])]
    exact Option.some_ne_none _

theorem mem_entryFiles {names : List Name} {data : List UInt8}
    (each : names ≠ [] →
      stem ++ 47 :: name ++ spelled names ∈
        below (dir ++ [name]) (stem ++ 47 :: name))
    (file : tree.lookup (dir ++ name :: names) = some (.file data))
    (short : (stem ++ spelled (name :: names)).length < limit) :
    stem ++ spelled (name :: names) ∈
      tree.entryFiles limit below dir stem name := by
  have whole : stem ++ spelled (name :: names) =
      stem ++ 47 :: name ++ spelled names := by simp
  rw [whole] at short ⊢
  have within : ¬ limit ≤ (stem ++ 47 :: name).length := by
    rw [List.length_append] at short
    omega
  rw [entryFiles, if_neg within]
  by_cases last : names = []
  · subst last
    rw [file, spelled_nil, List.append_nil]
    exact List.mem_singleton_self _
  · have isDir : tree.IsDir (dir ++ [name]) :=
      isDir_first last (by simp [file])
    rw [isDir]
    exact each last

end Entries

theorem spelled_of_mem_filesBelow {depth : Nat} {stem text : List UInt8}
    (member : text ∈ tree.filesBelow limit depth dir stem) :
    ∃ names data, text = stem ++ spelled names ∧
      tree.lookup (dir ++ names) = some (.file data) := by
  induction depth generalizing dir stem text with
  | zero => cases member
  | succ depth induction =>
    obtain ⟨name, _, entry⟩ := List.mem_flatMap.mp member
    obtain ⟨names, data, same, file⟩ :=
      spelled_of_mem_entryFiles (fun _ _ _ => induction) entry
    exact ⟨name :: names, data, same, file⟩

/-- Every file with a short name is met, if the depth allows it. -/
theorem mem_filesBelow {depth : Nat} {stem : List UInt8} {names : List Name}
    {data : List UInt8} (deep : limit ≤ depth + stem.length)
    (named : names ≠ []) (file : tree.lookup (dir ++ names) = some (.file data))
    (short : (stem ++ spelled names).length < limit) :
    stem ++ spelled names ∈ tree.filesBelow limit depth dir stem := by
  induction depth generalizing dir stem names with
  | zero =>
    rw [List.length_append] at short
    omega
  | succ depth induction =>
    obtain ⟨name, rest, rfl⟩ := List.exists_cons_of_ne_nil named
    refine List.mem_flatMap.mpr
      ⟨name, (tree.listed dir name).mpr (entry_there file), ?_⟩
    refine mem_entryFiles ?_ file short
    intro more
    apply induction _ more
    · simpa using file
    · simpa using short
    · rw [List.length_append, List.length_cons]
      omega

theorem Plain.names (plain : tree.Plain) {names : List Name} {node : Node}
    (there : tree.lookup (dir ++ names) = some node) :
    ∀ name ∈ names, 47 ∉ name := by
  induction names using List.reverseRecOn generalizing node with
  | nil =>
    intro name member
    cases member
  | append_singleton names last induction =>
    rw [← List.append_assoc] at there
    have exists' : tree.lookup (dir ++ names ++ [last]) ≠ none := by
      rw [there]
      exact Option.some_ne_none _
    intro name member
    rcases List.mem_append.mp member with earlier | here
    · exact induction (tree.parent _ _ exists') name earlier
    · rw [List.mem_singleton.mp here]
      exact (plain _ _ exists').noSlash

theorem nodup_filesBelow (plain : tree.Plain) (depth : Nat) (dir : TreePath)
    (stem : List UInt8) : (tree.filesBelow limit depth dir stem).Nodup := by
  induction depth generalizing dir stem with
  | zero => exact List.nodup_nil
  | succ depth induction =>
    refine List.nodup_flatMap.mpr ⟨?_, ?_⟩
    · intro name _
      unfold entryFiles
      split
      · exact List.nodup_nil
      split
      · exact induction _ _
      · exact List.nodup_singleton _
      · exact List.nodup_nil
      · exact List.nodup_nil
    · -- A common file would have the names of both entries first.
      refine (tree.distinct dir).imp ?_
      intro left right different text inLeft inRight
      have each : ∀ dir stem text,
          text ∈ tree.filesBelow limit depth dir stem →
          ∃ names data, text = stem ++ spelled names ∧
            tree.lookup (dir ++ names) = some (.file data) :=
        fun _ _ _ => spelled_of_mem_filesBelow
      obtain ⟨leftNames, _, leftText, leftFile⟩ :=
        spelled_of_mem_entryFiles each inLeft
      obtain ⟨rightNames, _, rightText, rightFile⟩ :=
        spelled_of_mem_entryFiles each inRight
      have same : spelled (left :: leftNames) =
          spelled (right :: rightNames) :=
        List.append_cancel_left (leftText.symm.trans rightText)
      have equal := spelled_injective (plain.names leftFile)
        (plain.names rightFile) same
      exact different (List.cons.inj equal).1

end FileTree

end Foundation
