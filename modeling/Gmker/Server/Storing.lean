import Gmker.Foundation.HostCalls
import Gmker.Server.Walk

/-!
# When a payload is stored

`gm_pending_write` on any host and any tree.  It succeeds exactly if the root is
a directory, nothing stands in the way of the name, and the host lets through
every call on the way.
-/

namespace Gmker.Server

open Foundation Function

variable {part : Name} {current : TreePath}

/-- A name of an object, as `gm_name_valid` and the buffers allow it. -/
@[ext]
structure GmName where
  text : List UInt8
  valid : gmNameValid text = true
  plain : cString text = text
  short : text.length < gmstorePath
  deriving DecidableEq

/-- The place of an object below the root. -/
def GmName.place (name : GmName) (root : TreePath) : TreePath :=
  root ++ gmComponents name.text

theorem GmName.text_eq (name : GmName) :
    ∃ rest, name.text = 47 :: rest ∧ gmComponents name.text = splitPath rest := by
  have valid := name.valid
  rw [gmNameValid, name.plain] at valid
  split at valid
  · rename_i next rest text
    refine ⟨next :: rest, text, ?_⟩
    rw [gmComponents, name.plain, text, List.drop_one, List.tail_cons]
  · cases valid

theorem GmName.place_injective (root : TreePath) {left right : GmName}
    (same : left.place root = right.place root) : left = right := by
  obtain ⟨leftRest, leftText, leftParts⟩ := left.text_eq
  obtain ⟨rightRest, rightText, rightParts⟩ := right.text_eq
  have parts := List.append_cancel_left same
  rw [leftParts, rightParts] at parts
  apply GmName.ext
  rw [leftText, rightText, splitPath_injective parts]

theorem splitPath_length {path : List UInt8} (member : part ∈ splitPath path) :
    part.length ≤ path.length := by
  induction path generalizing part with
  | nil =>
    rw [splitPath, List.mem_singleton] at member
    simp [member]
  | cons symbol rest induction =>
    rw [splitPath] at member
    split at member
    · rcases List.mem_cons.mp member with rfl | later
      · simp
      · exact Nat.le_succ_of_le (induction later)
    · cases parts : splitPath rest with
      | nil => exact absurd parts (splitPath_ne_nil rest)
      | cons first more =>
        rw [parts] at member induction
        rcases List.mem_cons.mp member with rfl | later
        · have bound := induction List.mem_cons_self
          simpa using bound
        · exact Nat.le_succ_of_le
            (induction (List.mem_cons_of_mem _ later))

theorem GmName.part_short (name : GmName)
    (member : part ∈ gmComponents name.text) : part.length < gmstorePath := by
  obtain ⟨rest, text, parts⟩ := name.text_eq
  rw [parts] at member
  have bound := splitPath_length member
  have short := name.short
  rw [text, List.length_cons] at short
  omega

theorem GmName.accepted (name : GmName) :
    ¬ (gmNameValid name.text = false ∨
      gmstorePath ≤ (cString name.text).length) := by
  have short := name.short
  rw [name.plain]
  simp [name.valid]
  omega

/-- Nothing stands in the way of directories down to a place: above it there
are directories or nothing. -/
def WayFree (tree : FileTree) (current : TreePath) (rest : List Name) : Prop :=
  ∀ part, part <+: rest → part ≠ rest →
    tree.lookup (current ++ part) = none ∨ tree.IsDir (current ++ part)

instance (tree : FileTree) (current : TreePath) (rest : List Name) :
    Decidable (WayFree tree current rest) :=
  decidable_of_iff (∀ part ∈ rest.inits, part ≠ rest →
      tree.lookup (current ++ part) = none ∨ tree.IsDir (current ++ part)) (by
    simp only [WayFree, List.mem_inits])

/-- Nothing stands in the way of an object: above its place there are
directories or nothing, and at its place a regular file or nothing. -/
def PathFree (tree : FileTree) (root : TreePath) (name : GmName) : Prop :=
  WayFree tree root (gmComponents name.text) ∧
    (tree.lookup (name.place root) = none ∨
      ∃ data, tree.lookup (name.place root) = some (.file data))

instance (tree : FileTree) (root : TreePath) (name : GmName) :
    Decidable (PathFree tree root name) :=
  decidable_of_iff (WayFree tree root (gmComponents name.text) ∧
      (tree.lookup (name.place root) = none ∨
        tree.fileAt (name.place root) ≠ none)) (by
    simp only [PathFree, Option.ne_none_iff_exists',
      FileTree.fileAt_eq_some])

theorem GmName.place_ne_root (name : GmName) (root : TreePath) :
    root ≠ name.place root := by
  intro same
  have parts := List.self_eq_append_right.mp same
  exact gmComponents_ne_nil _ parts

/-- The directories on the way are there or can be made. -/
structure Passable (tree : FileTree) (current : TreePath)
    (rest : List Name) : Prop where
  start : tree.IsDir current
  free : WayFree tree current rest

theorem Passable.last {tree : FileTree} {current : TreePath} {leaf : Name} :
    Passable tree current [leaf] ↔ tree.IsDir current := by
  refine ⟨Passable.start, fun isDir => ⟨isDir, ?_⟩⟩
  intro part within proper
  rcases List.prefix_cons_iff.mp within with rfl | ⟨more, rfl, inside⟩
  · rw [List.append_nil]
    exact .inr isDir
  · rw [List.prefix_nil.mp inside] at proper
    exact absurd rfl proper

section Step

variable {before after : FileTree} {current : TreePath} {part : Name}
  (nodes : after.lookup = update before.lookup (current ++ [part])
    (some .dir))
include nodes

theorem lookup_beyond {deeper : List Name} (nonempty : deeper ≠ []) :
    after.lookup (current ++ [part] ++ deeper) =
      before.lookup (current ++ part :: deeper) := by
  have apart : current ++ part :: deeper ≠ current ++ [part] := by
    simpa using nonempty
  rw [nodes, List.append_assoc, List.singleton_append,
    update_of_ne apart]

/-- One step of the way: it leads through a directory that is there or made. -/
theorem Passable.step {next : Name} {more : List Name} :
    Passable before current (part :: next :: more) ↔
      before.IsDir current ∧
        (before.lookup (current ++ [part]) = none ∨
          before.IsDir (current ++ [part])) ∧
        Passable after (current ++ [part]) (next :: more) := by
  have here : after.IsDir (current ++ [part]) := by
    rw [FileTree.IsDir, nodes, update_self]
  constructor
  · rintro ⟨start, free⟩
    have first := free [part] ⟨next :: more, rfl⟩ (by simp)
    refine ⟨start, first, here, ?_⟩
    intro deeper within proper
    by_cases none : deeper = []
    · rw [none, List.append_nil]
      exact .inr here
    · have far := free (part :: deeper)
        (List.cons_prefix_cons.mpr ⟨rfl, within⟩) (by simpa using proper)
      rwa [FileTree.IsDir, lookup_beyond nodes none]
  · rintro ⟨start, first, _, free⟩
    refine ⟨start, ?_⟩
    intro way within proper
    rcases List.prefix_cons_iff.mp within with rfl | ⟨deeper, rfl, inside⟩
    · rw [List.append_nil]
      exact .inr start
    · by_cases none : deeper = []
      · rw [none]
        exact first
      · have far := free deeper inside (by simpa using proper)
        rwa [FileTree.IsDir, lookup_beyond nodes none] at far

end Step

/-- One turn of the loop of `gm_open_parent` for storing, on any host. -/
theorem gmOpenParentLoop_turn {part next : Name} (more : List Name)
    (current : TreePath) (fs : FileSystem) (named : PlainName part) :
    (∃ opened : FileSystem, gmOpenParentLoop true current
          (part :: next :: more) fs =
        gmOpenParentLoop true (current ++ [part]) (next :: more) opened ∧
      fs.Passed 2 opened ∧ fs.tree.IsDir current ∧
      (fs.tree.lookup (current ++ [part]) = none ∨
        fs.tree.IsDir (current ++ [part])) ∧
      opened.tree.lookup = update fs.tree.lookup (current ++ [part])
        (some .dir)) ∨
    ∃ after, gmOpenParentLoop true current (part :: next :: more) fs =
        (none, after) ∧ fs.SameHost after ∧ fs.tree.Grown after.tree ∧
      ¬ (fs.Clear 2 ∧ fs.tree.IsDir current ∧
        (fs.tree.lookup (current ++ [part]) = none ∨
          fs.tree.IsDir (current ++ [part]))) := by
  rw [gmOpenParentLoop, if_pos rfl]
  rcases fs.mkdirat_cases current named with
    ⟨outcome, middle, made, fine, passed, isDir, nodes⟩ |
    ⟨outcome, middle, made, bad, looked, blocked⟩
  · rw [made]
    simp only
    rw [if_pos fine]
    have node : middle.tree.lookup (current ++ [part]) =
        some ((fs.tree.lookup (current ++ [part])).getD .dir) := by
      rw [nodes, update_self]
    rcases middle.openat_directory current named
        (show gmDirFlags.nofollow = true from rfl) rfl rfl rfl with
      ⟨opened, opens, entered, isNext, same⟩ |
      ⟨errno, refused, opens, blocked⟩
    · -- The directory was there, or it has just been made.
      rw [FileTree.IsDir, node, Option.some.injEq] at isNext
      have first : fs.tree.lookup (current ++ [part]) = none ∨
          fs.tree.IsDir (current ++ [part]) := by
        cases found : fs.tree.lookup (current ++ [part]) with
        | none => exact .inl rfl
        | some old =>
          rw [found] at isNext
          exact .inr (found.trans (congrArg some isNext))
      rw [opens]
      refine .inl ⟨opened, rfl, passed.trans entered, isDir, first, ?_⟩
      rw [same, nodes, isNext]
    · have grown : fs.tree.Grown middle.tree := by
        intro path
        rw [nodes]
        by_cases here : path = current ++ [part]
        · rw [here, update_self]
          cases fs.tree.lookup (current ++ [part]) with
          | none => exact .inr ⟨rfl, rfl⟩
          | some old => exact .inl rfl
        · exact .inl (update_of_ne here _ _)
      have looked : middle.Observed (middle.openat gmDirFlags current part).2 :=
        FileSystem.openat_observed rfl rfl current part
      rw [opens] at looked ⊢
      refine .inr ⟨refused, rfl, Eq.trans looked.host passed.faults, ?_, ?_⟩
      · exact grown.trans (.of_eq looked.tree)
      rintro ⟨clear, _, first⟩
      refine blocked ⟨(passed.clear_add 1).mp clear, ?_⟩
      rw [FileTree.IsDir, node]
      rcases first with absent | there
      · rw [absent]
        rfl
      · rw [there]
        rfl
  · rw [made]
    simp only
    rw [if_neg bad]
    refine .inr ⟨middle, rfl, looked.host, .of_eq looked.tree, ?_⟩
    rintro ⟨clear, isDir, _⟩
    exact blocked ⟨clear.mono (by decide), isDir⟩

/-- Where a walk that may make directories ends. -/
structure WalkedTo (current : TreePath) (rest : List Name)
    (fs : FileSystem) (dir : TreePath) (leaf : Name) (after : FileSystem) :
    Prop where
  passed : fs.Passed (2 * (rest.length - 1)) after
  place : dir ++ [leaf] = current ++ rest
  plain : PlainName leaf
  object : after.tree.lookup (dir ++ [leaf]) = fs.tree.lookup (current ++ rest)
  way : after.tree.IsDir dir ↔ Passable fs.tree current rest

/-- The walk of `gm_open_parent` for storing, on any host. -/
theorem gmOpenParentLoop_cases (rest : List Name) (current : TreePath)
    (fs : FileSystem) (nonempty : rest ≠ [])
    (plain : ∀ part ∈ rest, PlainName part)
    (short : ∀ part ∈ rest, part.length < gmstorePath) :
    (∃ dir leaf after, gmOpenParentLoop true current rest fs =
        (some (dir, leaf), after) ∧
      WalkedTo current rest fs dir leaf after ∧
      fs.tree.Grown after.tree) ∨
    ∃ after, gmOpenParentLoop true current rest fs = (none, after) ∧
      fs.SameHost after ∧ fs.tree.Grown after.tree ∧
      ¬ (fs.Clear (2 * (rest.length - 1)) ∧
        Passable fs.tree current rest) := by
  induction rest generalizing current fs with
  | nil => exact absurd rfl nonempty
  | cons part rest induction =>
    have named := plain part List.mem_cons_self
    cases rest with
    | nil =>
      have kept : ¬ (part = [] ∨ gmstorePath < part.length + 1) := by
        have bound := short part List.mem_cons_self
        rintro (empty | long)
        · exact named.nonempty empty
        · omega
      rw [gmOpenParentLoop, if_neg kept]
      exact .inl ⟨current, part, fs, rfl, ⟨.refl fs, rfl, named, rfl,
        Passable.last.symm⟩, .refl _⟩
    | cons next more =>
      have count : 2 * ((part :: next :: more).length - 1) =
          2 + 2 * ((next :: more).length - 1) := by
        simp only [List.length_cons]
        omega
      rcases gmOpenParentLoop_turn more current fs named with
        ⟨opened, turn, passed, isDir, first, nodes⟩ |
        ⟨after, failed, host, grown, blocked⟩
      · have made := FileTree.Grown.of_made first nodes
        have way : Passable opened.tree (current ++ [part])
            (next :: more) ↔
            Passable fs.tree current (part :: next :: more) := by
          rw [Passable.step nodes]
          exact ⟨fun rest => ⟨isDir, first, rest⟩, fun all => all.2.2⟩
        rw [turn, count]
        rcases induction (current ++ [part]) opened (by simp)
            (fun name member => plain name (List.mem_cons_of_mem _ member))
            (fun name member =>
              short name (List.mem_cons_of_mem _ member)) with
          ⟨dir, leaf, after, walked, arrives, grown⟩ |
          ⟨after, failed, host, grown, stuck⟩
        · refine .inl ⟨dir, leaf, after, walked, ⟨?_, ?_, arrives.plain, ?_,
            arrives.way.trans way⟩, made.trans grown⟩
          · rw [count]
            exact passed.trans arrives.passed
          · rw [arrives.place]
            simp
          · rw [arrives.object, lookup_beyond nodes (by simp)]
        · refine .inr ⟨after, failed, Eq.trans host passed.faults,
            made.trans grown, ?_⟩
          rintro ⟨clear, passable⟩
          rw [passed.clear_add] at clear
          exact stuck ⟨clear, way.mpr passable⟩
      · refine .inr ⟨after, failed, host, grown, ?_⟩
        rintro ⟨clear, start, free⟩
        rw [count] at clear
        exact blocked ⟨clear.mono (Nat.le_add_right _ _), start,
          free [part] ⟨next :: more, rfl⟩ (by simp)⟩

theorem gmOpenParent_store_cases (name : GmName) (root : TreePath)
    (fs : FileSystem) :
    (∃ dir leaf after, gmOpenParent true name.text root fs =
        (some (dir, leaf), after) ∧
      fs.Passed (2 * (gmComponents name.text).length - 1) after ∧
      fs.tree.Grown after.tree ∧
      dir ++ [leaf] = name.place root ∧ PlainName leaf ∧
      after.tree.lookup (dir ++ [leaf]) = fs.tree.lookup (name.place root) ∧
      (after.tree.IsDir dir ↔
        Passable fs.tree root (gmComponents name.text))) ∨
    ∃ after, gmOpenParent true name.text root fs = (none, after) ∧
      fs.SameHost after ∧ fs.tree.Grown after.tree ∧
      ¬ (fs.Clear (2 * (gmComponents name.text).length - 1) ∧
        Passable fs.tree root (gmComponents name.text)) := by
  have parts := gmComponents_ne_nil name.text
  have count : 2 * (gmComponents name.text).length - 1 =
      1 + 2 * ((gmComponents name.text).length - 1) := by
    have some' := List.length_pos_iff.mpr parts
    omega
  rw [gmOpenParent, if_neg name.accepted, count]
  rcases fs.plainCall_cases with ⟨called, passed⟩ | ⟨failed, blocked⟩
  · rw [called]
    rcases gmOpenParentLoop_cases (gmComponents name.text) root fs.next parts
        (gmNameValid_plain name.valid)
        (fun part member => name.part_short member) with
      ⟨dir, leaf, after, walked, arrives, grown⟩ |
      ⟨after, stopped, host, grown, stuck⟩
    · exact .inl ⟨dir, leaf, after, walked, passed.trans arrives.passed, grown,
        arrives.place, arrives.plain, arrives.object, arrives.way⟩
    · refine .inr ⟨after, stopped, host, grown, ?_⟩
      rintro ⟨clear, passable⟩
      exact stuck ⟨(passed.clear_add _).mp clear, passable⟩
  · rw [failed]
    refine .inr ⟨fs.next, rfl, rfl, .refl _, ?_⟩
    rintro ⟨clear, _⟩
    exact blocked (clear.mono (Nat.le_add_right _ _))

/-- The writing loop transfers everything exactly if the host lets its calls
through. -/
theorem gmWriteLoop_cases (file : FileSystem.Handle) (base bytes : List UInt8)
    (behind : file.append = true ∨ base = []) (fuel done : Nat)
    (fs : FileSystem) (within : done ≤ bytes.length)
    (enough : bytes.length - done ≤ fuel)
    (there : fs.tree.lookup file.path =
      some (.file (base ++ bytes.take done))) :
    let calls := FileSystem.writeCalls fs.transfers fuel fs.calls
      (bytes.length - done)
    (∃ after, gmWriteLoop file bytes fuel done fs = (bytes.length, after) ∧
      fs.Passed calls after ∧
      after.tree.lookup = update fs.tree.lookup file.path
        (some (.file (base ++ bytes)))) ∨
    ∃ short after, gmWriteLoop file bytes fuel done fs = (short, after) ∧
      short ≠ bytes.length ∧ ¬ fs.Clear calls := by
  have ended : done = bytes.length → fs.tree.lookup =
      update fs.tree.lookup file.path
        (some (.file (base ++ bytes))) := by
    rintro rfl
    rw [List.take_length] at there
    rw [← there, update_eq_self]
  induction fuel generalizing done fs with
  | zero =>
    have all : done = bytes.length := by omega
    exact .inl ⟨fs, by rw [gmWriteLoop, all], .refl fs, ended all⟩
  | succ fuel induction =>
    rw [gmWriteLoop, FileSystem.writeCalls]
    by_cases more : done < bytes.length
    · have left : bytes.length - done ≠ 0 := by omega
      simp only [if_pos more, if_neg left]
      rcases fs.writeAt_cases file done (bytes.drop done) there with
        ⟨middle, wrote, passed, nodes⟩ | ⟨errno, middle, failed, blocked⟩
      · rw [wrote]
        simp only [List.length_drop] at nodes ⊢
        generalize countEq : min (bytes.length - done)
          (fs.transfers fs.calls + 1) = count at *
        have progress : 0 < count ∧ count ≤ bytes.length - done := by omega
        -- The write goes behind everything that is there.
        have start : (if file.append then (base ++ bytes.take done).length
            else done) = (base ++ bytes.take done).length := by
          split
          · rfl
          · rename_i notAppend
            rw [behind.resolve_left notAppend, List.nil_append,
              List.length_take]
            omega
        rw [start, List.take_length,
          List.drop_eq_nil_of_le (Nat.le_add_right _ _), List.append_nil,
          List.append_assoc, ← List.take_add] at nodes
        have stays : middle.tree.lookup file.path =
            some (.file (base ++ bytes.take (done + count))) := by
          rw [nodes, update_self]
        have rest := induction (done + count) middle (by omega) (by omega)
          stays (by
            intro all
            rw [nodes, update_idem, all, List.take_length])
        simp only [passed.transfers, passed.calls,
          show bytes.length - (done + count) = bytes.length - done - count
            by omega] at rest
        rcases rest with ⟨after, ran, later, final⟩ |
          ⟨few, after, ran, less, stuck⟩
        · refine .inl ⟨after, ran, passed.trans later, ?_⟩
          rw [final, nodes, update_idem]
        · refine .inr ⟨few, after, ran, less, ?_⟩
          rwa [passed.clear_add]
      · rw [failed]
        refine .inr ⟨done, middle, rfl, by omega, ?_⟩
        intro clear
        exact blocked (clear.mono (Nat.le_add_right _ _))
    · have all : done = bytes.length := by omega
      simp only [if_neg more]
      refine .inl ⟨fs, by rw [all], ?_, ended all⟩
      rw [if_pos (by omega)]
      exact .refl fs

/-- The number of calls that store a payload on a host: one for the root, two
for each directory on the way, one to open the file, those that write, and one
to close. -/
def storeCalls (fs : FileSystem) (parts length : Nat) : Nat :=
  2 * parts + FileSystem.writeCalls fs.transfers length (fs.calls + 2 * parts)
    length + 1

/-- A payload for a name can be stored. -/
structure Storable (store : GmStore) (name : GmName) (length : Nat) :
    Prop where
  root : store.fs.tree.IsDir store.root
  free : PathFree store.fs.tree store.root name
  host : store.fs.Clear
    (storeCalls store.fs (gmComponents name.text).length length)

instance (store : GmStore) (name : GmName) (length : Nat) :
    Decidable (Storable store name length) :=
  decidable_of_iff (store.fs.tree.IsDir store.root ∧
      PathFree store.fs.tree store.root name ∧ store.fs.Clear
        (storeCalls store.fs (gmComponents name.text).length length))
    ⟨fun able => ⟨able.1, able.2.1, able.2.2⟩,
      fun able => ⟨able.root, able.free, able.host⟩⟩

theorem storeCalls_eq (fs : FileSystem) {parts : Nat} (some' : 0 < parts)
    (length : Nat) :
    storeCalls fs parts length = 2 * parts - 1 +
      (1 + (FileSystem.writeCalls fs.transfers length (fs.calls + 2 * parts)
        length + 1)) := by
  rw [storeCalls]
  omega

theorem PathFree.passable {tree : FileTree} {root : TreePath} {name : GmName}
    (free : PathFree tree root name) (isDir : tree.IsDir root) :
    Passable tree root (gmComponents name.text) :=
  ⟨isDir, free.1⟩

/-- How `gm_pending_write` ends, on any host: with the payload stored, or with an
error because it cannot be stored. -/
theorem gmStorePayload_cases (append : Bool) (name : GmName)
    (bytes : List UInt8) (store : GmStore) :
    (∃ after, gmStorePayload append name.text bytes store.root store.fs =
        (none, after) ∧ Storable store name bytes.length ∧
      store.fs.SameHost after ∧ after.tree.IsDir store.root ∧
      after.tree.fileAt = update store.fs.tree.fileAt
        (name.place store.root) (some ((if append then
          (store.fs.tree.fileAt (name.place store.root)).getD []
        else []) ++ bytes))) ∨
    ∃ error after, gmStorePayload append name.text bytes store.root store.fs =
        (some error, after) ∧ ¬ Storable store name bytes.length ∧
      (store.fs.Reliable → store.fs.SameHost after ∧
        store.fs.tree.Grown after.tree) := by
  have some' := List.length_pos_iff.mpr (gmComponents_ne_nil name.text)
  have count := storeCalls_eq store.fs some' bytes.length
  rw [gmStorePayload]
  rcases gmOpenParent_store_cases name store.root store.fs with
    ⟨dir, leaf, middle, walked, passed, grown, place, plain, object, way⟩ |
    ⟨after, failed, host, grown, stuck⟩
  · rw [walked]
    generalize flagsEq : FileSystem.OpenFlags.mk false true true append
      (!append) true = flags
    simp only
    rw [place] at object
    rcases middle.openat_store dir plain
        (show flags.nofollow = true by rw [← flagsEq]) (by rw [← flagsEq])
        (by rw [← flagsEq]) (by rw [← flagsEq]) with
      ⟨opened, opens, entered, isDir, room, nodes⟩ |
      ⟨errno, after, refused, looked, blocked⟩
    · rw [place, object] at room
      have passable := way.mp isDir
      have arrived := passed.trans entered
      rw [place, grown.fileAt] at nodes
      generalize keptEq : flags.kept
        (store.fs.tree.fileAt (name.place store.root)) = base at nodes
      have old : base = if append then
          (store.fs.tree.fileAt (name.place store.root)).getD [] else [] := by
        rw [← keptEq, ← flagsEq]
        cases append <;> rfl
      have behind : flags.append = true ∨ base = [] := by
        rw [old, ← flagsEq]
        cases append
        · exact .inr rfl
        · exact .inl rfl
      have there : opened.tree.lookup (name.place store.root) =
          some (.file (base ++ bytes.take 0)) := by
        rw [nodes, update_self, List.take_zero, List.append_nil]
      rw [opens, place]
      simp only
      have writes := gmWriteLoop_cases
        { path := name.place store.root, append := flags.append } base bytes
        behind bytes.length 0 opened (Nat.zero_le _) (Nat.le_refl _) there
      have calls : opened.calls =
          store.fs.calls + 2 * (gmComponents name.text).length := by
        rw [arrived.calls]
        omega
      simp only [arrived.transfers, calls, Nat.sub_zero] at writes
      rcases writes with ⟨written, wrote, wrotePassed, final⟩ |
        ⟨few, written, wrote, less, stuck⟩
      · rw [wrote]
        rcases written.plainCall_cases with ⟨closes, closed⟩ |
          ⟨failed, blocked⟩
        · rw [closes]
          simp only [if_neg (show ¬ (true = false ∨
            bytes.length ≠ bytes.length) by simp)]
          have all := passed.trans (entered.trans (wrotePassed.trans closed))
          have whole : written.tree.lookup = update
              middle.tree.lookup (name.place store.root)
              (some (.file (base ++ bytes))) := by
            rw [final, nodes, update_idem]
          refine .inl ⟨_, rfl, ⟨passable.start, ⟨passable.free, room⟩, ?_⟩,
            all.faults, ?_, ?_⟩
          · rw [count]
            exact all.clear
          · change written.tree.lookup store.root = some .dir
            rw [whole, update_of_ne (name.place_ne_root _)]
            exact grown.stays passable.start
          · rw [← old, ← grown.fileAt]
            exact FileTree.fileAt_set whole
        · rw [failed]
          simp only [true_or, if_true]
          have unclear : ¬ store.fs.Clear (storeCalls store.fs
              (gmComponents name.text).length bytes.length) := by
            rw [count, passed.clear_add, entered.clear_add,
              wrotePassed.clear_add]
            exact blocked
          exact .inr ⟨_, _, rfl, fun able => unclear able.host,
            fun reliable => absurd (reliable.clear _) unclear⟩
      · rw [wrote]
        simp only [if_pos (Or.inr less)]
        have unclear : ¬ store.fs.Clear (storeCalls store.fs
            (gmComponents name.text).length bytes.length) := by
          rw [count, passed.clear_add, entered.clear_add]
          intro clear
          exact stuck (clear.mono (Nat.le_add_right _ _))
        exact .inr ⟨_, _, rfl, fun able => unclear able.host,
          fun reliable => absurd (reliable.clear _) unclear⟩
    · rw [refused]
      refine .inr ⟨_, _, rfl, ?_, fun _ => ⟨?_, grown.trans (.of_eq looked.tree)⟩⟩
      · rintro ⟨root, free, clear⟩
        rw [count, passed.clear_add] at clear
        refine blocked ⟨clear.mono (Nat.le_add_right _ _),
          way.mpr (free.passable root), ?_⟩
        rw [place, object]
        exact free.2
      · exact Eq.trans looked.host passed.faults
  · rw [failed]
    refine .inr ⟨_, _, rfl, ?_, fun _ => ⟨host, grown⟩⟩
    rintro ⟨root, free, clear⟩
    rw [count] at clear
    exact stuck ⟨clear.mono (Nat.le_add_right _ _), free.passable root⟩

/-- `gm_pending_write` stores a payload exactly if that can be done. -/
theorem gmStorePayload_stores (append : Bool) (name : GmName)
    (bytes : List UInt8) (store : GmStore) :
    (gmStorePayload append name.text bytes store.root store.fs).1 = none ↔
      Storable store name bytes.length := by
  rcases gmStorePayload_cases append name bytes store with
    ⟨after, stored, able, _⟩ | ⟨error, after, failed, unable, _⟩
  · simp [stored, able]
  · simp [failed, unable]

end Gmker.Server
