import Mathlib.Logic.Function.Basic

/-!
# Forests of tables in one memory

A memory of tables maps a frame and an index to an entry.  A forest says which
frame each node of a family of trees occupies; a node is named by the indices
that lead to it from the root, deepest first.  `Tabulates` relates the two: the
tables of the forest contain the entries that lead to its nodes.

Nothing here depends on how deep the trees are, how entries are encoded, or how
frames are allocated.
-/

namespace Foundation

open Function

variable {Tree Index Frame Entry : Type*}

/-- The frames of the nodes of a family of trees. -/
abbrev Forest (Tree Index Frame : Type*) :=
  Tree → List Index → Option Frame

namespace Forest

/-- No two nodes share a frame, and every node below the root has a parent. -/
structure Grown (forest : Forest Tree Index Frame) : Prop where
  apart {tree tree' path path' frame} (here : forest tree path = some frame)
    (there : forest tree' path' = some frame) : tree = tree' ∧ path = path'
  rooted {tree index path frame}
    (here : forest tree (index :: path) = some frame) :
    ∃ parent, forest tree path = some parent

/-- No node lies in the frame. -/
def Unused (forest : Forest Tree Index Frame) (frame : Frame) : Prop :=
  ∀ tree path, forest tree path ≠ some frame

theorem grown_empty :
    Grown (fun _ _ => none : Forest Tree Index Frame) where
  apart here := by cases here
  rooted here := by cases here

theorem Grown.absent_below {forest : Forest Tree Index Frame}
    (grown : forest.Grown) {tree : Tree} {path : List Index}
    (absent : forest tree path = none) (index : Index) :
    forest tree (index :: path) = none := by
  cases below : forest tree (index :: path) with
  | none => rfl
  | some frame =>
    obtain ⟨parent, present⟩ := grown.rooted below
    rw [absent] at present
    cases present

variable [DecidableEq Tree] [DecidableEq Index]

/-- The forest with one more node. -/
def place (forest : Forest Tree Index Frame) (tree : Tree) (path : List Index)
    (frame : Frame) : Forest Tree Index Frame :=
  update forest tree (update (forest tree) path (some frame))

@[simp] theorem place_self (forest : Forest Tree Index Frame) (tree : Tree)
    (path : List Index) (frame : Frame) :
    forest.place tree path frame tree path = some frame := by
  simp [place]

theorem place_of_ne {forest : Forest Tree Index Frame} {tree other : Tree}
    {path otherPath : List Index} {frame : Frame}
    (differs : ¬ (other = tree ∧ otherPath = path)) :
    forest.place tree path frame other otherPath = forest other otherPath := by
  unfold place
  by_cases same : other = tree
  · subst same
    have elsewhere : otherPath ≠ path := fun equal => differs ⟨rfl, equal⟩
    rw [update_self, update_of_ne elsewhere]
  · rw [update_of_ne same]

/-- A node of the larger forest is the new one or an old one. -/
theorem place_cases {forest : Forest Tree Index Frame} {tree other : Tree}
    {path otherPath : List Index} {frame found : Frame}
    (here : forest.place tree path frame other otherPath = some found) :
    (other = tree ∧ otherPath = path ∧ found = frame) ∨
      forest other otherPath = some found := by
  by_cases same : other = tree ∧ otherPath = path
  · obtain ⟨rfl, rfl⟩ := same
    rw [place_self] at here
    cases here
    exact .inl ⟨rfl, rfl, rfl⟩
  · rw [place_of_ne same] at here
    exact .inr here

theorem place_keeps {forest : Forest Tree Index Frame} {tree other : Tree}
    {path otherPath : List Index} {frame found : Frame}
    (absent : forest tree path = none)
    (here : forest other otherPath = some found) :
    forest.place tree path frame other otherPath = some found := by
  rw [place_of_ne, here]
  rintro ⟨rfl, rfl⟩
  rw [absent] at here
  cases here

theorem Grown.place {forest : Forest Tree Index Frame} (grown : forest.Grown)
    {tree : Tree} {path : List Index} {frame : Frame}
    (absent : forest tree path = none) (unused : forest.Unused frame)
    (parent : ∀ index tail, path = index :: tail →
      ∃ table, forest tree tail = some table) :
    (forest.place tree path frame).Grown where
  apart here there := by
    rcases place_cases here with ⟨rfl, rfl, rfl⟩ | old
    · rcases place_cases there with ⟨rfl, rfl, -⟩ | old'
      · exact ⟨rfl, rfl⟩
      · exact absurd old' (unused _ _)
    · rcases place_cases there with ⟨rfl, rfl, rfl⟩ | old'
      · exact absurd old (unused _ _)
      · exact grown.apart old old'
  rooted here := by
    rcases place_cases here with ⟨rfl, rfl, rfl⟩ | old
    · obtain ⟨table, present⟩ := parent _ _ rfl
      exact ⟨table, place_keeps absent present⟩
    · obtain ⟨table, present⟩ := grown.rooted old
      exact ⟨table, place_keeps absent present⟩

end Forest

/-! ## Tables that hold a forest -/

section Tables

variable {depth : Nat} {own : List Index → Prop}
  {encode : Option Frame → Entry} {memory later : Frame → Index → Entry}
  {forest : Forest Tree Index Frame}

/-- Every table of the forest, that is every node above `depth`, contains the
entries of its children.  Entries of paths that the forest does not own may
contain anything. -/
def Tabulates (depth : Nat) (own : List Index → Prop)
    (encode : Option Frame → Entry) (memory : Frame → Index → Entry)
    (forest : Forest Tree Index Frame) : Prop :=
  ∀ tree path index frame, path.length < depth → own (index :: path) →
    forest tree path = some frame →
    memory frame index = encode (forest tree (index :: path))

/-- Only the frames of the tables matter. -/
theorem Tabulates.congr (tabulated : Tabulates depth own encode memory forest)
    (same : ∀ tree path index frame, path.length < depth →
      forest tree path = some frame →
      later frame index = memory frame index) :
    Tabulates depth own encode later forest := by
  intro tree path index frame short owned here
  rw [same tree path index frame short here]
  exact tabulated tree path index frame short owned here

variable [DecidableEq Tree] [DecidableEq Index]

theorem Tabulates.plant (tabulated : Tabulates depth own encode memory forest)
    (grown : forest.Grown) {tree : Tree} {root : Frame}
    (absent : forest tree [] = none)
    (blank : ∀ index, own [index] → memory root index = encode none) :
    Tabulates depth own encode memory (forest.place tree [] root) := by
  intro other path index frame short owned here
  have child : forest.place tree [] root other (index :: path) =
      forest other (index :: path) :=
    Forest.place_of_ne fun same => List.cons_ne_nil _ _ same.2
  rw [child]
  rcases Forest.place_cases here with ⟨rfl, rfl, rfl⟩ | old
  · rw [grown.absent_below absent]
    exact blank index owned
  · exact tabulated other path index frame short owned old

theorem Tabulates.link (tabulated : Tabulates depth own encode memory forest)
    (grown : forest.Grown) {tree : Tree} {path : List Index} {index : Index}
    {table frame : Frame} (parent : forest tree path = some table)
    (absent : forest tree (index :: path) = none)
    (blank : path.length + 1 < depth → ∀ below, own (below :: index :: path) →
      later frame below = encode none)
    (linked : later table index = encode (some frame))
    (others : ∀ other otherPath place found, otherPath.length < depth →
      forest other otherPath = some found →
      ¬ (found = table ∧ place = index) →
      later found place = memory found place) :
    Tabulates depth own encode later (forest.place tree (index :: path) frame) := by
  intro other otherPath place found short owned here
  rcases Forest.place_cases here with ⟨rfl, rfl, rfl⟩ | old
  · -- the new table is blank, and nothing lies below the new node
    have below : forest.place other (index :: path) found other
        (place :: index :: path) = none := by
      rw [Forest.place_of_ne fun same => List.cons_ne_self _ _ same.2]
      exact grown.absent_below absent place
    rw [below]
    exact blank short place owned
  · by_cases written : found = table ∧ place = index
    · -- the entry that was written: its table has only one node
      obtain ⟨rfl, rfl⟩ := written
      obtain ⟨rfl, rfl⟩ := grown.apart old parent
      rw [Forest.place_self]
      exact linked
    · have child : forest.place tree (index :: path) frame other
          (place :: otherPath) = forest other (place :: otherPath) := by
        refine Forest.place_of_ne ?_
        rintro ⟨rfl, same⟩
        obtain ⟨rfl, rfl⟩ := List.cons.inj same
        rw [parent] at old
        cases old
        exact written ⟨rfl, rfl⟩
      rw [child, others other otherPath place found short old written]
      exact tabulated other otherPath place found short owned old

end Tables

/-! ## Following entries from a root -/

section Follow

variable {child : Entry → Option Frame} {memory later : Frame → Index → Entry}

/-- The table reached from a root by the indices, deepest first. -/
def follow (child : Entry → Option Frame) (memory : Frame → Index → Entry)
    (root : Frame) : List Index → Option Frame
  | [] => some root
  | index :: path =>
    (follow child memory root path).bind fun table =>
      child (memory table index)

theorem follow_append (root : Frame) (path above : List Index) :
    follow child memory root (path ++ above) =
      (follow child memory root above).bind fun table =>
        follow child memory table path := by
  induction path with
  | nil => simp [follow]
  | cons index path induction =>
    rw [List.cons_append, follow, induction, Option.bind_assoc]
    rfl

/-- Only the tables on the way matter, and where their entries lead. -/
theorem follow_congr {root : Frame} {path : List Index}
    (same : ∀ above index tail table, path = tail ++ index :: above →
      follow child memory root above = some table →
      child (later table index) = child (memory table index)) :
    follow child later root path = follow child memory root path := by
  induction path with
  | nil => rfl
  | cons index path induction =>
    have above := induction fun tailAbove place tail table split =>
      same tailAbove place (index :: tail) table (by rw [split]; rfl)
    rw [follow, above, follow]
    cases reached : follow child memory root path with
    | none => rfl
    | some table =>
      rw [Option.bind_some, Option.bind_some,
        same path index [] table rfl reached]

theorem Tabulates.follow_eq {depth : Nat} {own : List Index → Prop}
    {encode : Option Frame → Entry} {forest : Forest Tree Index Frame}
    (tabulated : Tabulates depth own encode memory forest) (grown : forest.Grown)
    (ownAbove : ∀ index path, own (index :: path) → own path)
    {tree : Tree} {root : Frame} (planted : forest tree [] = some root)
    (decodes : ∀ path frame, path.length < depth →
      forest tree path = some frame → child (encode (some frame)) = some frame)
    (decodesNone : child (encode none) = none)
    {path : List Index} (short : path.length < depth) (owned : own path) :
    follow child memory root path = forest tree path := by
  induction path with
  | nil => rw [follow, planted]
  | cons index path induction =>
    have shorter : path.length < depth := by
      rw [List.length_cons] at short
      omega
    have above := induction shorter (ownAbove index path owned)
    rw [follow, above]
    cases reached : forest tree path with
    | none => rw [Option.bind_none, grown.absent_below reached]
    | some table =>
      rw [Option.bind_some,
        tabulated tree path index table shorter owned reached]
      cases entry : forest tree (index :: path) with
      | none => exact decodesNone
      | some frame => exact decodes _ _ short entry

end Follow

end Foundation
