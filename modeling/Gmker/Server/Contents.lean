import Gmker.Server.Storing

/-!
# Objects of the store

What the file system parts of the commands do on a reliable host, in terms of
the regular files below the root.  The directories on the way to an object come
and go unseen: making them changes the contents of no file.
-/

namespace Gmker.Server

open Foundation

variable {part : Name} {current : TreePath} {fs : FileSystem}

/-! ## The walk to the parent -/

/-- What a walk to a place leaves behind. -/
structure Reaches (create : Bool) (place : TreePath)
    (before after : FileSystem) (result : Option (TreePath × Name)) :
    Prop where
  host : before.SameHost after
  grown : before.tree.Grown after.tree
  looks : create = false → after.tree = before.tree
  leaf : after.tree.lookup place = before.tree.lookup place
  parent : ∀ dir leaf, result = some (dir, leaf) → after.tree.IsDir dir

/-- A walk that makes nothing changes nothing, and it arrives if there is
something to arrive at. -/
theorem gmOpenParentLoop_reaches (rest : List Name) (current : TreePath)
    (fs : FileSystem) (reliable : fs.Reliable)
    (isDir : fs.tree.IsDir current)
    (plain : ∀ part ∈ rest, PlainName part)
    (short : ∀ part ∈ rest, part.length < gmstorePath) :
    Reaches false (current ++ rest) fs
        (gmOpenParentLoop false current rest fs).2
        (gmOpenParentLoop false current rest fs).1 ∧
      (rest ≠ [] → fs.tree.lookup (current ++ rest) ≠ none →
        (gmOpenParentLoop false current rest fs).1 ≠ none) := by
  induction rest generalizing current fs with
  | nil =>
    exact ⟨⟨rfl, .refl _, fun _ => rfl, rfl, by simp [gmOpenParentLoop]⟩,
      by simp⟩
  | cons part rest induction =>
    rw [List.forall_mem_cons] at plain short
    cases rest with
    | nil =>
      have kept : ¬ (part = [] ∨ gmstorePath < part.length + 1) := by
        have nonempty := plain.1.nonempty
        simp [nonempty]
        omega
      rw [gmOpenParentLoop, if_neg kept]
      refine ⟨⟨rfl, .refl _, fun _ => rfl, rfl, ?_⟩, by simp⟩
      rintro dir leaf ⟨⟩
      exact isDir
    | cons next more =>
      rw [gmOpenParentLoop]
      simp only [Bool.false_eq_true, if_false, true_or, if_true]
      have looked : fs.Observed (fs.openat gmDirFlags current part).2 :=
        FileSystem.openat_observed rfl rfl current part
      rcases fs.openat_directory current plain.1
          (show gmDirFlags.nofollow = true from rfl) rfl rfl rfl with
        ⟨opened, opens, _, isNext, same⟩ | ⟨errno, after, opens, blocked⟩
      · rw [opens] at looked ⊢
        have there : opened.tree.IsDir (current ++ [part]) := by
          rwa [FileTree.IsDir, same]
        obtain ⟨reaches, arrives⟩ := induction (current ++ [part]) opened
          (reliable.later looked.host) there plain.2 short.2
        rw [List.append_assoc, List.singleton_append] at reaches arrives
        refine ⟨⟨looked.host.trans reaches.host, ?_, ?_, ?_, reaches.parent⟩,
          ?_⟩
        · rw [← same]
          exact reaches.grown
        · rw [← same]
          exact reaches.looks
        · rw [← same]
          exact reaches.leaf
        · rw [← same]
          exact fun _ => arrives (by simp)
      · rw [opens] at looked ⊢
        refine ⟨⟨looked.host, .of_eq looked.tree, fun _ => looked.tree,
          congrArg (FileTree.lookup · _) looked.tree, by simp⟩, ?_⟩
        -- The next step of the way would have to be a directory.
        intro _ object
        refine absurd ⟨reliable.clear 1, ?_⟩ blocked
        apply fs.tree.isDir_above _ _ object
        · exact ⟨next :: more, by simp⟩
        · simp

/-- A walk that fails finds nothing at the object, and one that arrives stands
in the directory of the object. -/
theorem gmOpenParent_cases (name : GmName) {root : TreePath}
    (reliable : fs.Reliable) (rootDir : fs.tree.IsDir root) :
    ∃ result after, gmOpenParent false name.text root fs = (result, after) ∧
      Reaches false (name.place root) fs after result ∧
      ((result = none ∧ fs.tree.lookup (name.place root) = none) ∨
        ∃ dir leaf, result = some (dir, leaf) ∧
          dir ++ [leaf] = name.place root ∧ PlainName leaf) := by
  have arrived : Arrived root (gmComponents name.text)
      (gmOpenParent false name.text root fs).1 :=
    (gmOpenParent_walks .stat name.text root fs).2
  obtain ⟨reaches, arrives⟩ : Reaches false (name.place root) fs
      (gmOpenParent false name.text root fs).2
      (gmOpenParent false name.text root fs).1 ∧
        (fs.tree.lookup (name.place root) ≠ none →
          (gmOpenParent false name.text root fs).1 ≠ none) := by
    rw [gmOpenParent, if_neg name.accepted,
      FileSystem.plainCall_reliable reliable]
    have walk := gmOpenParentLoop_reaches (gmComponents name.text) root
      fs.next reliable rootDir (gmNameValid_plain name.valid)
      (fun part member => name.part_short member)
    exact ⟨⟨walk.1.host, walk.1.grown, walk.1.looks, walk.1.leaf,
      walk.1.parent⟩, walk.2 (gmComponents_ne_nil _)⟩
  generalize gmOpenParent false name.text root fs = walk at *
  obtain ⟨result, after⟩ := walk
  refine ⟨result, after, rfl, reaches, ?_⟩
  cases result with
  | none => exact .inl ⟨rfl, not_not.mp fun there => arrives there rfl⟩
  | some place => exact .inr ⟨_, _, rfl, arrived _ _ rfl⟩

/-! ## The commands -/

/-- A store on a reliable host, with a root to work below. -/
structure GmStore.Sound (store : GmStore) : Prop where
  reliable : store.fs.Reliable
  rootDir : store.fs.tree.IsDir store.root

/-- The objects of a store. -/
def gmObjects (store : GmStore) (name : GmName) : Option (List UInt8) :=
  store.fs.tree.fileAt (name.place store.root)

section Commands

variable (name : GmName) {root : TreePath} {fs : FileSystem}
  (reliable : fs.Reliable) (rootDir : fs.tree.IsDir root)
include reliable rootDir

/-- `gm_open_regular` finds exactly the objects, and changes nothing. -/
theorem gmOpenRegular_object :
    ∃ found after, gmOpenRegular name.text root fs = (found, after) ∧
      fs.SameHost after ∧ after.tree = fs.tree ∧
      ((found = none ∧ fs.tree.fileAt (name.place root) = none) ∨
        ∃ handle data, found = some (handle, data.length) ∧
          handle.path = name.place root ∧
          fs.tree.lookup (name.place root) = some (.file data)) := by
  obtain ⟨result, middle, walked, reaches, outcome⟩ :=
    gmOpenParent_cases name reliable rootDir
  rw [gmOpenRegular, walked]
  have same := reaches.looks rfl
  rcases outcome with ⟨rfl, absent⟩ | ⟨dir, leaf, rfl, whole, plain⟩
  · exact ⟨_, _, rfl, reaches.host, same, .inl ⟨rfl, by
      simp [FileTree.fileAt, absent]⟩⟩
  have steady := reliable.later reaches.host
  have opens : middle.openat { nofollow := true } dir leaf =
      middle.next.openPlace { nofollow := true } (dir ++ [leaf]) :=
    FileSystem.openat_reliable steady dir plain rfl
  have openHost := FileSystem.openPlace_host { nofollow := true }
    (dir ++ [leaf]) middle.next
  have openTree : (middle.next.openPlace { nofollow := true }
      (dir ++ [leaf])).2.tree = fs.tree :=
    (FileSystem.openPlace_reads rfl rfl).trans same
  have regular : ∀ data, fs.tree.lookup (dir ++ [leaf]) = some (.file data) →
      ∃ handle after, middle.next.openPlace { nofollow := true }
        (dir ++ [leaf]) = (.ok handle, after) := by
    intro data there
    exact FileSystem.openPlace_file rfl rfl
      (show middle.tree.lookup _ = _ by rw [same]; exact there)
  simp only [opens]
  rw [← whole]
  generalize opened : middle.next.openPlace { nofollow := true }
    (dir ++ [leaf]) = outcome at *
  obtain ⟨answer, after⟩ := outcome
  have host : fs.SameHost after := reaches.host.trans openHost
  cases answer with
  | error errno =>
    refine ⟨_, _, rfl, host, openTree, .inl ⟨rfl, ?_⟩⟩
    cases file : fs.tree.fileAt (dir ++ [leaf]) with
    | none => rfl
    | some data =>
      obtain ⟨handle, _, ok⟩ := regular data
        (FileTree.fileAt_eq_some.mp file)
      cases ok
  | ok handle =>
    have path : handle.path = dir ++ [leaf] :=
      FileSystem.openPlace_path opened
    obtain ⟨answer, statTree, statHost⟩ :=
      FileSystem.fstat_reliable (reliable.later host) handle
    rw [path, openTree] at answer
    simp only
    generalize after.fstat handle = stat at *
    obtain ⟨node, later⟩ := stat
    have laterHost := host.trans statHost
    have laterTree := statTree.trans openTree
    simp only at answer
    cases found : fs.tree.lookup (dir ++ [leaf]) with
    | none =>
      rw [found] at answer
      subst answer
      exact ⟨_, _, rfl, laterHost, laterTree, .inl ⟨rfl, by
        simp [FileTree.fileAt, found]⟩⟩
    | some there =>
      rw [found] at answer
      subst answer
      cases there with
      | file data =>
        exact ⟨_, _, rfl, laterHost, laterTree, .inr ⟨handle, data, rfl,
          path, rfl⟩⟩
      | dir | link =>
        exact ⟨_, _, rfl, laterHost, laterTree, .inl ⟨rfl, by
          simp [FileTree.fileAt, found]⟩⟩

theorem gmReadBlock_object (offset count : Nat) :
    ∃ after, gmReadBlock name.text offset count root fs =
        ((fs.tree.fileAt (name.place root)).map fun data =>
          (data.drop offset).take count, after) ∧
      fs.SameHost after ∧ after.tree = fs.tree := by
  obtain ⟨found, middle, opened, host, same, outcome⟩ :=
    gmOpenRegular_object name reliable rootDir
  rw [gmReadBlock, opened]
  rcases outcome with ⟨rfl, absent⟩ | ⟨handle, data, rfl, path, there⟩
  · rw [absent]
    exact ⟨_, rfl, host, same⟩
  · have steady := reliable.later host
    have file : middle.next.tree.lookup handle.path = some (.file data) := by
      rw [path, ← there, ← same]
      rfl
    obtain ⟨after, read, readHost, readTree⟩ :=
      FileSystem.readAt_file (show middle.next.Reliable from steady) handle
        offset count file
    rw [FileTree.fileAt_eq_some.mpr there]
    simp only [FileSystem.plainCall_reliable steady, read]
    exact ⟨_, rfl, host.trans readHost, readTree.trans same⟩

end Commands

section Stores

variable (name : GmName) {root : TreePath} {fs : FileSystem}
  (reliable : fs.Reliable) (rootDir : fs.tree.IsDir root)
include reliable rootDir

/-- What `gm_pending_write` leaves: an object with the payload, or the objects
as they were. -/
theorem gmStorePayload_object (append : Bool) (bytes : List UInt8) :
    ∃ error after,
      gmStorePayload append name.text bytes root fs = (error, after) ∧
      fs.SameHost after ∧ after.tree.IsDir root ∧
      ((error ≠ none ∧ fs.tree.fileAt (name.place root) = none ∧
          after.tree.fileAt = fs.tree.fileAt ∧ ¬ PathFree fs.tree root name) ∨
        (error = none ∧ after.tree.fileAt =
          Function.update fs.tree.fileAt (name.place root)
            (some ((if append then
                (fs.tree.fileAt (name.place root)).getD []
              else []) ++ bytes)))) := by
  rcases gmStorePayload_cases append name bytes { fs := fs, root := root } with
    ⟨after, stored, _, host, isDir, files⟩ |
    ⟨error, after, failed, unable, kept⟩
  · exact ⟨_, _, stored, host, isDir, .inr ⟨rfl, files⟩⟩
  obtain ⟨host, grown⟩ := kept reliable
  have blocked : ¬ PathFree fs.tree root name :=
    fun free => unable ⟨rootDir, free, reliable.clear _⟩
  refine ⟨_, _, failed, host, grown.stays rootDir, .inl ⟨by simp, ?_,
    grown.fileAt, blocked⟩⟩
  -- An object that is there has directories above it.
  cases file : fs.tree.fileAt (name.place root) with
  | none => rfl
  | some data =>
    have there := FileTree.fileAt_eq_some.mp file
    have object : fs.tree.lookup (name.place root) ≠ none := by simp [there]
    refine absurd ⟨?_, .inr ⟨data, there⟩⟩ blocked
    rintro part ⟨more, whole⟩ proper
    refine .inr (fs.tree.isDir_above ⟨more, ?_⟩ ?_ object)
    · rw [List.append_assoc, whole]
      rfl
    · exact fun same => proper (List.append_cancel_left same)

end Stores

theorem gmDelete_object {store : GmStore} (sound : store.Sound)
    (name : GmName) :
    ∃ deleted after, gmDelete name.text store = (deleted, after) ∧
      after.root = store.root ∧ after.Sound ∧
      ((deleted = .missing ∧ gmObjects store name = none ∧
          after.fs.tree = store.fs.tree) ∨
        (deleted = .done ∧ gmObjects store name ≠ none ∧
          after.fs.tree.fileAt = Function.update store.fs.tree.fileAt
            (name.place store.root) none)) := by
  obtain ⟨result, middle, walked, reaches, outcome⟩ :=
    gmOpenParent_cases name sound.reliable sound.rootDir
  rw [gmDelete, walked, gmObjects]
  have same := reaches.looks rfl
  have steady := sound.reliable.later reaches.host
  rcases outcome with ⟨rfl, absent⟩ | ⟨dir, leaf, rfl, whole, plain⟩
  · refine ⟨_, _, rfl, rfl, ⟨steady, ?_⟩, .inl ⟨rfl, ?_, same⟩⟩
    · change middle.tree.IsDir store.root
      rw [same]
      exact sound.rootDir
    · simp [FileTree.fileAt, absent]
  rw [← whole]
  obtain ⟨answer, statTree, statHost⟩ :=
    FileSystem.fstatat_reliable steady dir plain
  simp only
  generalize middle.fstatat false dir leaf = stat at *
  obtain ⟨node, after⟩ := stat
  have afterTree : after.tree = store.fs.tree := statTree.trans same
  have afterReliable : after.Reliable := steady.later statHost
  have afterSound : (store.withFs after).Sound := by
    refine ⟨afterReliable, ?_⟩
    change after.tree.IsDir store.root
    rw [afterTree]
    exact sound.rootDir
  rw [same] at answer
  simp only at answer
  cases file : store.fs.tree.fileAt (dir ++ [leaf]) with
  | none =>
    have missing : ∀ data, node ≠ .ok (.file data) := by
      rintro data rfl
      split at answer
      · cases answer
      · rename_i found there
        cases answer
        rw [FileTree.fileAt_eq_some.mpr there] at file
        cases file
    split
    · rename_i data _ isFile
      exact absurd (Prod.mk.inj isFile).1 (missing data)
    · rename_i later other
      cases other
      exact ⟨_, _, rfl, rfl, afterSound, .inl ⟨rfl, rfl, afterTree⟩⟩
  | some data =>
    have there := FileTree.fileAt_eq_some.mp file
    rw [there] at answer
    subst answer
    obtain ⟨removed, unlinked, unlinkHost, nodes⟩ :=
      FileSystem.unlinkat_file afterReliable dir plain
        (by rw [afterTree]; exact there)
    simp only [unlinked]
    rw [afterTree] at nodes
    refine ⟨_, _, rfl, rfl, ⟨afterReliable.later unlinkHost, ?_⟩,
      .inr ⟨rfl, by simp, FileTree.fileAt_removed nodes⟩⟩
    change removed.tree.lookup store.root = some .dir
    rw [nodes, whole, Function.update_of_ne (name.place_ne_root _)]
    exact sound.rootDir

end Gmker.Server
