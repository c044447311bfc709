import Gmker.Foundation.FileContents

/-!
# Calls that the host lets through

A host may refuse a call for reasons outside the tree.  This file says of the
calls that store a file exactly when they succeed: the host has to let them
through, and the tree has to have room for what they ask.
-/

namespace Foundation

open Function

namespace FileSystem

variable {fs before after : FileSystem} {count : Nat}

/-- The host will let the next calls through. -/
def Clear (fs : FileSystem) (count : Nat) : Prop :=
  ∀ call, call < count → fs.faults (fs.calls + call) = false

theorem Reliable.clear (reliable : fs.Reliable) (count : Nat) :
    fs.Clear count :=
  fun _ _ => reliable _

instance (fs : FileSystem) (count : Nat) : Decidable (fs.Clear count) :=
  Nat.decidableBallLT count fun call _ => fs.faults (fs.calls + call) = false

theorem Clear.mono {count fewer : Nat} (clear : fs.Clear count)
    (fits : fewer ≤ count) : fs.Clear fewer :=
  fun call small => clear call (Nat.lt_of_lt_of_le small fits)

/-- The host has let some calls through. -/
structure Passed (before : FileSystem) (count : Nat) (after : FileSystem) :
    Prop where
  clear : before.Clear count
  calls : after.calls = before.calls + count
  faults : after.faults = before.faults
  transfers : after.transfers = before.transfers

theorem Passed.refl (fs : FileSystem) : Passed fs 0 fs :=
  ⟨fun _ none => absurd none (Nat.not_lt_zero _), rfl, rfl, rfl⟩

/-- What a host lets through is let through in pieces. -/
theorem Passed.clear_add {before middle : FileSystem} {first : Nat}
    (passed : Passed before first middle) (second : Nat) :
    before.Clear (first + second) ↔ middle.Clear second := by
  have later : ∀ call, middle.faults (middle.calls + call) =
      before.faults (before.calls + (first + call)) := by
    intro call
    rw [passed.faults, passed.calls, Nat.add_assoc]
  constructor
  · intro clear call small
    rw [later call]
    exact clear (first + call) (by omega)
  · intro clear call small
    by_cases early : call < first
    · exact passed.clear call early
    · obtain ⟨more, rfl⟩ := Nat.exists_eq_add_of_le (Nat.le_of_not_lt early)
      rw [← later more]
      exact clear more (by omega)

theorem Passed.trans {before middle after : FileSystem} {first second : Nat}
    (left : Passed before first middle) (right : Passed middle second after) :
    Passed before (first + second) after where
  clear := (left.clear_add second).mpr right.clear
  calls := by rw [right.calls, left.calls, Nat.add_assoc]
  faults := right.faults.trans left.faults
  transfers := right.transfers.trans left.transfers

theorem clear_one (fs : FileSystem) :
    fs.Clear 1 ↔ fs.faults fs.calls = false := by
  constructor
  · intro clear
    exact clear 0 Nat.one_pos
  · intro clear call small
    obtain rfl : call = 0 := by omega
    exact clear

theorem not_clear_one (fault : fs.faults fs.calls = true) : ¬ fs.Clear 1 := by
  rw [clear_one, fault]
  exact Bool.noConfusion

theorem Passed.next (clear : fs.faults fs.calls = false) :
    Passed fs 1 fs.next :=
  ⟨fs.clear_one.mpr clear, rfl, rfl, rfl⟩

theorem Passed.note (passed : Passed before count after) (kind : AccessKind)
    (path : TreePath) (tree : FileTree) :
    Passed before count (after.note kind path tree) :=
  ⟨passed.clear, passed.calls, passed.faults, passed.transfers⟩

theorem Passed.place (passed : Passed before count after) (path : TreePath)
    (node : Node) (kind : AccessKind) :
    Passed before count (after.place path node kind).2 := by
  unfold FileSystem.place
  split
  · exact passed
  · split
    · split
      · exact passed.note _ _ _
      · exact passed
    · exact passed

theorem Passed.openPlace (passed : Passed before count after)
    (flags : OpenFlags) (path : TreePath) :
    Passed before count (after.openPlace flags path).2 := by
  have placed := passed.place path (.file []) .create
  unfold FileSystem.openPlace
  split
  · split
    · split <;> rename_i made <;> rw [made] at placed <;> exact placed
    · exact passed
  · exact passed
  · split
    · exact passed
    · exact passed.note _ _ _
  · split
    · exact passed
    · split <;> exact passed.note _ _ _

theorem plainCall_cases (fs : FileSystem) :
    fs.plainCall = (true, fs.next) ∧ Passed fs 1 fs.next ∨
      fs.plainCall = (false, fs.next) ∧ ¬ fs.Clear 1 := by
  unfold plainCall
  cases clear : fs.faults fs.calls with
  | false => exact .inl ⟨rfl, .next clear⟩
  | true => exact .inr ⟨rfl, not_clear_one clear⟩

section Names

variable (fs : FileSystem) (dir : TreePath) {name : Name}
  (plain : PlainName name)
include plain

theorem mkdirat_cases :
    (∃ outcome after, fs.mkdirat dir name = (outcome, after) ∧
      (outcome = .ok () ∨ outcome = .error .exist) ∧ Passed fs 1 after ∧
      fs.tree.IsDir dir ∧
      after.tree.lookup = update fs.tree.lookup (dir ++ [name])
        (some ((fs.tree.lookup (dir ++ [name])).getD .dir))) ∨
    ∃ outcome after, fs.mkdirat dir name = (outcome, after) ∧
      ¬ (outcome = .ok () ∨ outcome = .error .exist) ∧ Observed fs after ∧
      ¬ (fs.Clear 1 ∧ fs.tree.IsDir dir) := by
  rw [mkdirat, fs.tree.locate_plain dir plain]
  cases clear : fs.faults fs.calls with
  | true =>
    rw [if_pos rfl]
    exact .inr ⟨_, _, rfl, by simp, ⟨rfl, rfl⟩,
      fun both => not_clear_one clear both.1⟩
  | false =>
    rw [if_neg Bool.false_ne_true]
    simp only [place, List.getLast?_append, List.getLast?_singleton,
      Option.some_or, List.dropLast_concat]
    have passed : Passed fs 1 fs.next := .next clear
    by_cases absent : fs.next.tree.lookup (dir ++ [name]) = none
    · rw [dif_pos absent]
      by_cases isDir : fs.next.tree.IsDir dir
      · rw [dif_pos isDir]
        refine .inl ⟨_, _, rfl, .inl rfl, passed.note _ _ _, isDir, ?_⟩
        rw [show fs.tree.lookup (dir ++ [name]) = none from absent]
        rfl
      · rw [dif_neg isDir]
        exact .inr ⟨_, _, rfl, by simp, ⟨rfl, rfl⟩, fun both => isDir both.2⟩
    · rw [dif_neg absent]
      refine .inl ⟨_, _, rfl, .inr rfl, passed,
        fs.tree.parent dir name absent, ?_⟩
      obtain ⟨node, there⟩ := Option.ne_none_iff_exists'.mp absent
      have found : fs.tree.lookup (dir ++ [name]) = some node := there
      rw [found, Option.getD_some, ← found, update_eq_self]
      rfl

theorem openat_directory {flags : OpenFlags} (nofollow : flags.nofollow = true)
    (wantsDir : flags.directory = true) (old : flags.create = false)
    (reads : flags.write = false) :
    (∃ after, fs.openat flags dir name =
        (.ok { path := dir ++ [name] }, after) ∧ Passed fs 1 after ∧
      fs.tree.IsDir (dir ++ [name]) ∧ after.tree = fs.tree) ∨
    ∃ errno after, fs.openat flags dir name = (.error errno, after) ∧
      ¬ (fs.Clear 1 ∧ fs.tree.IsDir (dir ++ [name])) := by
  rw [openat, nofollow, Bool.not_true, fs.tree.locate_plain dir plain]
  cases clear : fs.faults fs.calls with
  | true =>
    rw [if_pos rfl]
    exact .inr ⟨_, _, rfl, fun both => not_clear_one clear both.1⟩
  | false =>
    rw [if_neg Bool.false_ne_true]
    by_cases isDir : fs.next.tree.lookup (dir ++ [name]) = some .dir
    · obtain ⟨after, opened, same⟩ := openPlace_dir reads isDir
      have passed := (Passed.next clear).openPlace flags (dir ++ [name])
      rw [opened] at passed
      exact .inl ⟨after, opened, passed, isDir, same⟩
    · obtain ⟨errno, refused⟩ := openPlace_no_dir wantsDir old isDir
      exact .inr ⟨errno, _, refused, fun both => isDir both.2⟩

/-- A file is opened for storing where there is one, or nothing yet in a
directory. -/
theorem openat_store {flags : OpenFlags} (nofollow : flags.nofollow = true)
    (writes : flags.write = true) (creates : flags.create = true)
    (anyFile : flags.directory = false) :
    (∃ after, fs.openat flags dir name =
        (.ok { path := dir ++ [name], append := flags.append }, after) ∧
      Passed fs 1 after ∧ fs.tree.IsDir dir ∧
      (fs.tree.lookup (dir ++ [name]) = none ∨
        ∃ old, fs.tree.lookup (dir ++ [name]) = some (.file old)) ∧
      after.tree.lookup = update fs.tree.lookup (dir ++ [name])
        (some (.file (flags.kept (fs.tree.fileAt (dir ++ [name])))))) ∨
    ∃ errno after, fs.openat flags dir name = (.error errno, after) ∧
      Observed fs after ∧ ¬ (fs.Clear 1 ∧ fs.tree.IsDir dir ∧
        (fs.tree.lookup (dir ++ [name]) = none ∨
          ∃ old, fs.tree.lookup (dir ++ [name]) = some (.file old))) := by
  rw [openat, nofollow, Bool.not_true, fs.tree.locate_plain dir plain]
  cases clear : fs.faults fs.calls with
  | true =>
    rw [if_pos rfl]
    exact .inr ⟨_, _, rfl, ⟨rfl, rfl⟩, fun both => not_clear_one clear both.1⟩
  | false =>
    rw [if_neg Bool.false_ne_true]
    by_cases isDir : fs.next.tree.IsDir dir
    · rcases openPlace_stores flags writes creates anyFile isDir name with
        ⟨errno, node, refused, there, noFile⟩ | ⟨after, opened, nodes, room⟩
      · refine .inr ⟨errno, _, refused, ⟨rfl, rfl⟩, ?_⟩
        rintro ⟨_, _, absent | ⟨old, file⟩⟩
        · cases absent.symm.trans there
        · cases (FileTree.fileAt_eq_some.mpr file).symm.trans noFile
      · have passed := (Passed.next clear).openPlace flags (dir ++ [name])
        rw [opened] at passed
        exact .inl ⟨after, opened, passed, isDir, room, nodes⟩
    · have absent := fs.next.tree.no_child isDir name
      have refused : fs.next.place (dir ++ [name]) (.file []) .create =
          (.error .noent, fs.next) := by
        simp only [place, List.getLast?_append, List.getLast?_singleton,
          Option.some_or, List.dropLast_concat]
        rw [dif_pos absent, dif_neg isDir]
      refine .inr ⟨.noent, fs.next, ?_, ⟨rfl, rfl⟩,
        fun both => isDir both.2.1⟩
      simp only
      unfold openPlace
      split
      · rw [if_pos creates, refused]
      · simp_all
      · simp_all
      · simp_all

end Names

/-- A write to a regular file transfers what the host takes. -/
theorem writeAt_cases (fs : FileSystem) (handle : Handle) (offset : Nat)
    (bytes : List UInt8) {data : List UInt8}
    (there : fs.tree.lookup handle.path = some (.file data)) :
    let count := min bytes.length (fs.transfers fs.calls + 1)
    let start := if handle.append then data.length else offset
    (∃ after, fs.writeAt handle offset bytes = (.ok count, after) ∧
      Passed fs 1 after ∧
      after.tree.lookup = update fs.tree.lookup handle.path
        (some (.file (data.take start ++ bytes.take count ++
          data.drop (start + count))))) ∨
    ∃ errno after, fs.writeAt handle offset bytes = (.error errno, after) ∧
      ¬ fs.Clear 1 := by
  intro count start
  unfold writeAt
  cases clear : fs.faults fs.calls with
  | true =>
    rw [if_pos rfl]
    exact .inr ⟨_, _, rfl, not_clear_one clear⟩
  | false =>
    rw [if_neg Bool.false_ne_true]
    split
    · rename_i found isFile
      rw [there] at isFile
      cases isFile
      exact .inl ⟨_, rfl, (Passed.next clear).note _ _ _, rfl⟩
    · rename_i other
      exact absurd there (other data)

/-- The number of calls that write some bytes on a host, each transferring one
byte more than the stream says. -/
def writeCalls (transfers : Nat → Nat) : Nat → Nat → Nat → Nat
  | 0, _, _ => 0
  | fuel + 1, call, left =>
    if left = 0 then 0
    else
      1 + writeCalls transfers fuel (call + 1)
        (left - min left (transfers call + 1))

end FileSystem

end Foundation
