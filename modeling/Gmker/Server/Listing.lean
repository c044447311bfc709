import Gmker.Foundation.TreeListing
import Gmker.Server.Interleavings

/-!
# The answer to `LIST`

`gm_list_collect` prints one line for every regular file it meets and gives up
as soon as a line does not fit.  It starts at the read position of the root
descriptor, which `dup` shares and nothing ever sets back.  So the answer is the
whole listing exactly when no file lies at or below an entry behind that
position, wherever earlier `LIST`s and the host have brought it.
-/

namespace Gmker.Server

open Foundation

variable {client : GmClient}

/-- The lines that announce files. -/
def gmItems (names : List (List UInt8)) : List UInt8 :=
  names.flatMap fun name => ascii "ITEM " ++ name ++ [10]

@[simp] theorem gmItems_nil : gmItems [] = [] := rfl

@[simp] theorem gmItems_append (left right : List (List UInt8)) :
    gmItems (left ++ right) = gmItems left ++ gmItems right :=
  List.flatMap_append

/-- A whole listing. -/
def gmListing (names : List (List UInt8)) : List UInt8 :=
  gmItems names ++ (ascii "OK END" ++ [10])

/-- The answer to `LIST` if exactly these files are found. -/
def gmListReply (names : List (List UInt8)) : List UInt8 :=
  if (gmListing names).length ≤ gmstoreOutput then gmListing names
  else ascii "ERR list" ++ [10]

/-! ## Collecting -/

/-- The lines of the files were added to the output, or they did not fit. -/
structure Prints (names : List (List UInt8)) (client : GmClient) (done : Bool)
    (after : GmClient) : Prop where
  fits : client.output.length + (gmItems names).length ≤ gmstoreOutput →
    done = true ∧ after = { client with output := client.output ++ gmItems names }
  full : gmstoreOutput < client.output.length + (gmItems names).length →
    done = false

namespace Prints

variable {client middle after : GmClient} {done : Bool}
    {left right : List (List UInt8)}

theorem nothing (room : client.output.length ≤ gmstoreOutput) :
    Prints [] client true client := by
  refine ⟨?_, ?_⟩
  · intro _
    rw [gmItems_nil, List.append_nil]
    exact ⟨rfl, rfl⟩
  · intro full
    rw [gmItems_nil, List.length_nil] at full
    omega

theorem printed (prints : Prints left client true after) :
    client.output.length + (gmItems left).length ≤ gmstoreOutput ∧
      after = { client with output := client.output ++ gmItems left } := by
  by_cases room :
      client.output.length + (gmItems left).length ≤ gmstoreOutput
  · exact ⟨room, (prints.fits room).2⟩
  · have failed := prints.full (by omega)
    cases failed

theorem room (prints : Prints left client true after) :
    after.output.length ≤ gmstoreOutput := by
  obtain ⟨room, rfl⟩ := prints.printed
  rw [List.length_append]
  exact room

theorem append (first : Prints left client true middle)
    (second : Prints right middle done after) :
    Prints (left ++ right) client done after := by
  obtain ⟨_, rfl⟩ := first.printed
  have size : (client.output ++ gmItems left).length + (gmItems right).length =
      client.output.length + (gmItems (left ++ right)).length := by
    rw [gmItems_append, List.length_append, List.length_append]
    omega
  refine ⟨?_, ?_⟩
  · intro room
    obtain ⟨isDone, same⟩ := second.fits (by rw [size]; exact room)
    rw [gmItems_append, ← List.append_assoc]
    exact ⟨isDone, same⟩
  · intro full
    exact second.full (by rw [size]; exact full)

theorem failed (first : Prints left client false middle) :
    Prints (left ++ right) client false after := by
  refine ⟨?_, fun _ => rfl⟩
  intro room
  rw [gmItems_append, List.length_append] at room
  obtain ⟨never, _⟩ := first.fits (by omega)
  cases never

end Prints

theorem gmOutputLine_prints (name : List UInt8) (client : GmClient) :
    Prints [name] client (gmOutputLine (ascii "ITEM " ++ name) client).1
      (gmOutputLine (ascii "ITEM " ++ name) client).2 := by
  have line : gmItems [name] = ascii "ITEM " ++ name ++ [10] :=
    List.append_nil _
  have size : (gmItems [name]).length = (ascii "ITEM " ++ name).length + 1 := by
    rw [line, List.length_append, List.length_singleton]
  refine ⟨?_, ?_⟩
  · intro room
    rw [gmOutputLine_room (by omega), line]
    exact ⟨rfl, rfl⟩
  · intro full
    obtain ⟨_, failed⟩ := gmOutputLine_full (show gmstoreOutput ≤
      client.output.length + (ascii "ITEM " ++ name).length by omega)
    rw [failed]

theorem gmText2_child (rel name : List UInt8) :
    ((gmText2 gmstorePath rel [47]).bind fun stem =>
        gmText2 gmstorePath stem name) =
      if gmstorePath ≤ (rel ++ 47 :: name).length then none
      else some (rel ++ 47 :: name) := by
  simp only [gmText2, List.length_append, List.length_cons, List.length_nil]
  by_cases long : gmstorePath < rel.length + (0 + 1) + 1
  · rw [if_pos long, if_pos (by omega)]
    rfl
  · rw [if_neg long]
    simp only [Option.bind_some, List.length_append, List.length_cons,
      List.length_nil, List.append_assoc, List.cons_append, List.nil_append]
    by_cases fits : gmstorePath ≤ rel.length + (name.length + 1)
    · rw [if_pos (by omega), if_pos fits]
    · rw [if_neg (by omega), if_neg fits]

section Collect

variable {fs : FileSystem}

variable {tree : FileTree}
    {collect : TreePath → List UInt8 → GmClient → FileSystem →
      Bool × GmClient × FileSystem}
    {below : TreePath → List UInt8 → List (List UInt8)}

theorem gmListEntries_prints {dir : TreePath} {rel : List UInt8}
    (looks : ∀ dir rel client fs,
      FileSystem.Observed fs (collect dir rel client fs).2.2)
    (each : ∀ dir child client fs, fs.Reliable → fs.tree = tree →
      client.output.length ≤ gmstoreOutput → rel.length < child.length →
      child.length < gmstorePath →
      Prints (below dir child) client (collect dir child client fs).1
        (collect dir child client fs).2.1) {names : List Name}
    (plain : ∀ name ∈ names, PlainName name) (reliable : fs.Reliable)
    (same : fs.tree = tree) (room : client.output.length ≤ gmstoreOutput) :
    Prints (names.flatMap (tree.entryFiles gmstorePath below dir rel)) client
      (gmListEntries collect dir rel names client fs).1
      (gmListEntries collect dir rel names client fs).2.2.1 := by
  induction names generalizing client fs with
  | nil => exact .nothing room
  | cons name names induction =>
    rw [List.flatMap_cons]
    have isPlain := plain name List.mem_cons_self
    have proceed : ∀ {first : List (List UInt8)} {middle : GmClient}
        {later : FileSystem}, Prints first client true middle →
        fs.Observed later →
        Prints (first ++
            names.flatMap (tree.entryFiles gmstorePath below dir rel)) client
          (gmListEntries collect dir rel names middle later).1
          (gmListEntries collect dir rel names middle later).2.2.1 := by
      intro first middle later printed observed
      refine printed.append (induction ?_ ?_ ?_ printed.room)
      · intro other member
        exact plain other (List.mem_cons_of_mem _ member)
      · exact reliable.later observed.host
      · rw [observed.tree, same]
    obtain ⟨found, unchanged, host⟩ :=
      FileSystem.fstatat_reliable reliable dir isPlain
    rw [gmListEntries]
    generalize fs.fstatat false dir name = answer at found unchanged host
    obtain ⟨answer, after⟩ := answer
    have observed : fs.Observed after := ⟨host, unchanged⟩
    rw [FileTree.entryFiles, ← same]
    rw [← same] at proceed
    simp only [gmText2_child]
    by_cases long : gmstorePath ≤ (rel ++ 47 :: name).length
    · -- The name is too long, whatever the entry is.
      rw [if_pos long, if_pos long]
      cases answer with
      | error errno => exact proceed (.nothing room) observed
      | ok node => exact proceed (.nothing room) observed
    rw [if_neg long, if_neg long]
    cases there : fs.tree.lookup (dir ++ [name]) with
    | none =>
      rw [there] at found
      cases found
      exact proceed (.nothing room) observed
    | some node =>
      rw [there] at found
      cases found
      cases node with
      | link target => exact proceed (.nothing room) observed
      | file data =>
        have item : gmText2 (gmstorePath + 8) (ascii "ITEM ")
            (rel ++ 47 :: name) =
            some (ascii "ITEM " ++ (rel ++ 47 :: name)) := by
          have five : (ascii "ITEM ").length = 5 := rfl
          rw [gmText2, if_neg (by omega)]
        have printed := gmOutputLine_prints (rel ++ 47 :: name) client
        simp only [item]
        generalize gmOutputLine (ascii "ITEM " ++ (rel ++ 47 :: name))
          client = line at printed
        obtain ⟨done, next⟩ := line
        cases done with
        | false => exact printed.failed
        | true => exact proceed printed observed
      | dir =>
        have isDir : after.next.tree.lookup (dir ++ [name]) =
            some .dir := by
          rw [← there, ← unchanged]
          rfl
        obtain ⟨opened, isOpen, _⟩ := FileSystem.openPlace_dir
          (show gmDirFlags.write = false from rfl) isDir
        have entered :
            after.Observed (after.openat gmDirFlags dir name).2 :=
          FileSystem.openat_observed rfl rfl dir name
        have isEntered : after.openat gmDirFlags dir name =
            (.ok { path := dir ++ [name] }, opened) := by
          rw [FileSystem.openat_reliable (reliable.later host) dir
            isPlain rfl, isOpen]
        rw [isEntered] at entered
        simp only [isEntered]
        have within := observed.trans entered
        have listed := each (dir ++ [name]) (rel ++ 47 :: name) client
          opened (reliable.later within.host)
          (by rw [within.tree, same]) room
          (by rw [List.length_append, List.length_cons]; omega)
          (Nat.lt_of_not_le long)
        have looked := looks (dir ++ [name]) (rel ++ 47 :: name) client
          opened
        generalize collect (dir ++ [name]) (rel ++ 47 :: name) client
          opened = collected at listed looked
        obtain ⟨done, next, left⟩ := collected
        cases done with
        | false => exact listed.failed
        | true => exact proceed listed (within.trans looked)

/-- The call for a subdirectory, which is read from its start. -/
def gmListInner (depth : Nat) (dir : TreePath) (child : List UInt8)
    (client : GmClient) (fs : FileSystem) : Bool × GmClient × FileSystem :=
  ((gmListCollect depth (fun _ => false) dir child client fs).1,
    (gmListCollect depth (fun _ => false) dir child client fs).2.2)

theorem gmListCollect_reliable (depth : Nat) (passed : Name → Bool)
    (dir : TreePath) (rel : List UInt8) (client : GmClient)
    (reliable : fs.Reliable) :
    let listed := gmListEntries (gmListInner depth) dir rel
      ((fs.tree.order dir).filter fun name => !passed name) client fs.next.next
    (gmListCollect (depth + 1) passed dir rel client fs).1 = listed.1 ∧
      (gmListCollect (depth + 1) passed dir rel client fs).2.2 =
        listed.2.2 := by
  have again : fs.next.Reliable := reliable
  rw [gmListCollect, FileSystem.plainCall_reliable reliable]
  simp only [FileSystem.plainCall_reliable again]
  exact ⟨rfl, rfl⟩

/-- `gm_list_collect` prints the files ahead of a descriptor. -/
theorem gmListCollect_prints (plain : tree.Plain) (depth : Nat)
    (passed : Name → Bool) (dir : TreePath) {rel : List UInt8}
    (reliable : fs.Reliable) (same : fs.tree = tree)
    (room : client.output.length ≤ gmstoreOutput)
    (deep : gmstorePath ≤ depth + 1 + rel.length) :
    Prints (((tree.order dir).filter fun name => !passed name).flatMap
        (tree.entryFiles gmstorePath (tree.filesBelow gmstorePath depth)
          dir rel)) client
      (gmListCollect (depth + 1) passed dir rel client fs).1
      (gmListCollect (depth + 1) passed dir rel client fs).2.2.1 := by
  have entries : ∀ dir (passed : Name → Bool),
      ∀ name ∈ (tree.order dir).filter fun name => !passed name,
        PlainName name := by
    intro dir passed name member
    exact plain dir name
      ((tree.listed dir name).mp (List.mem_of_mem_filter member))
  induction depth generalizing passed dir rel client fs with
  | zero =>
    obtain ⟨done, left⟩ :=
      gmListCollect_reliable 0 passed dir rel client reliable
    rw [done, left, same]
    refine gmListEntries_prints ?_ ?_ (entries dir passed) reliable same room
    · intro dir child client fs
      exact .refl fs
    · -- Names grow with the depth, so here every one is too long.
      intro dir child client fs _ _ _ longer short
      omega
  | succ depth induction =>
    obtain ⟨done, left⟩ :=
      gmListCollect_reliable (depth + 1) passed dir rel client reliable
    rw [done, left, same]
    refine gmListEntries_prints ?_ ?_ (entries dir passed) reliable same room
    · intro dir child client fs
      exact gmListCollect_observed (depth + 1) _ dir child client fs
    · -- A subdirectory is read from its start.
      intro dir child client fs reliable same room longer short
      have inner := induction (fun _ => false) dir reliable same room
        (by omega : gmstorePath ≤ depth + 1 + child.length)
      simp only [Bool.not_false, List.filter_true] at inner
      exact inner

end Collect

/-! ## The command -/

/-- The names of the regular files of a store: links are not crossed, since
they have nothing below them in the tree. -/
def gmFileNames (store : GmStore) : Set (List UInt8) :=
  { text | ∃ names data, text = spelled names ∧
      store.fs.tree.lookup (store.root ++ names) = some (.file data) }

/-- The answer lists every regular file once and nothing else, or says that
this does not fit. -/
def ListsAll (store : GmStore) (reply : List UInt8) : Prop :=
  ∃ names : List (List UInt8), names.Nodup ∧
    (∀ text, text ∈ names ↔ text ∈ gmFileNames store) ∧
    reply = gmListReply names

/-- The files at or below some entries of the root. -/
def gmFilesUnder (store : GmStore) (entries : List Name) : List (List UInt8) :=
  entries.flatMap (store.fs.tree.entryFiles gmstorePath
    (store.fs.tree.filesBelow gmstorePath (gmstorePath - 1)) store.root [])

/-- The files ahead of the root descriptor. -/
def gmFilesAhead (store : GmStore) : List (List UInt8) :=
  gmFilesUnder store
    ((store.fs.tree.order store.root).filter fun name => !store.passed name)

/-- Some regular file lies at or below an entry of the root that is behind the
root descriptor. -/
def gmFilesPassed (store : GmStore) : Prop :=
  ∃ name, store.passed name = true ∧ ∃ names data,
    store.fs.tree.lookup (store.root ++ name :: names) = some (.file data)

/-- `LIST` answers with the files ahead of the root descriptor. -/
theorem gmCommandList_reply {store : GmStore} (sound : store.Sound)
    (plain : store.fs.tree.Plain) (client : GmClient) :
    (gmCommandList client store).2.1.output =
      gmListReply (gmFilesAhead store) := by
  have printed : Prints (gmFilesAhead store) {} _ _ :=
    gmListCollect_prints plain (gmstorePath - 1) store.passed store.root
      sound.reliable rfl (Nat.zero_le _) (by decide)
  change Prints _ _ (gmListCollect gmstorePath _ _ _ _ _).1
    (gmListCollect gmstorePath _ _ _ _ _).2.2.1 at printed
  rw [gmCommandList_eq, gmListReply]
  generalize gmListCollect gmstorePath store.passed store.root [] {}
    store.fs = listed at printed
  obtain ⟨collected, read, after, fs⟩ := listed
  have size : (gmListing (gmFilesAhead store)).length =
      (gmItems (gmFilesAhead store)).length + 7 := by
    rw [gmListing, List.length_append]
    rfl
  by_cases fits : (gmListing (gmFilesAhead store)).length ≤ gmstoreOutput
  · obtain ⟨rfl, rfl⟩ := printed.fits (by
      change 0 + _ ≤ _
      omega)
    have room : (gmItems (gmFilesAhead store)).length + 6 < gmstoreOutput := by
      omega
    rw [if_pos fits]
    simp only [List.nil_append, true_and, if_pos room, gmListing]
  · have full : ¬ (collected = true ∧
        after.output.length + 6 < gmstoreOutput) := by
      rintro ⟨rfl, room⟩
      obtain ⟨_, rfl⟩ := printed.printed
      simp only [List.nil_append] at room
      omega
    simp only [if_neg full, if_neg fits]

/-- All files of a store are those passed and those ahead. -/
theorem gmFilesAhead_all (store : GmStore) :
    (gmFilesUnder store ((store.fs.tree.order store.root).filter store.passed) ++
      gmFilesAhead store).Perm
        (store.fs.tree.filesBelow gmstorePath gmstorePath store.root []) := by
  rw [gmFilesAhead, gmFilesUnder, gmFilesUnder, ← List.flatMap_append]
  exact (List.filter_append_perm store.passed _).flatMap_right _

section Complete

variable {store : GmStore} (plain : store.fs.tree.Plain)
  (rootDir : store.fs.tree.IsDir store.root)
  (short : ∀ text ∈ gmFileNames store, text.length < gmstorePath)

include rootDir short in
theorem mem_allFiles (text : List UInt8) :
    text ∈ store.fs.tree.filesBelow gmstorePath gmstorePath store.root [] ↔
      text ∈ gmFileNames store := by
  constructor
  · intro member
    obtain ⟨names, data, same, file⟩ :=
      FileTree.spelled_of_mem_filesBelow member
    exact ⟨names, data, by simpa using same, file⟩
  · intro member
    have fits := short text member
    obtain ⟨names, data, rfl, file⟩ := member
    have named : names ≠ [] := by
      rintro rfl
      rw [List.append_nil, rootDir] at file
      cases file
    exact FileTree.mem_filesBelow (Nat.le_refl gmstorePath) named file fits

include short in
/-- The entries passed have no files listed exactly if they have none. -/
theorem gmFilesPassed_iff :
    gmFilesPassed store ↔ gmFilesUnder store
      ((store.fs.tree.order store.root).filter store.passed) ≠ [] := by
  constructor
  · rintro ⟨name, passed, names, data, file⟩
    have entry : name ∈ (store.fs.tree.order store.root).filter store.passed :=
      List.mem_filter.mpr ⟨(store.fs.tree.listed _ _).mpr
        (FileTree.entry_there file), passed⟩
    have fits := short _ ⟨name :: names, data, rfl, file⟩
    have listed : [] ++ spelled (name :: names) ∈
        store.fs.tree.entryFiles gmstorePath
          (store.fs.tree.filesBelow gmstorePath (gmstorePath - 1))
          store.root [] name := by
      refine FileTree.mem_entryFiles ?_ file fits
      intro more
      apply FileTree.mem_filesBelow _ more
      · simpa using file
      · exact fits
      · rw [List.nil_append, List.length_cons]
        change 512 ≤ 511 + _
        omega
    exact List.ne_nil_of_mem (List.mem_flatMap.mpr ⟨name, entry, listed⟩)
  · intro some'
    obtain ⟨text, member⟩ := List.exists_mem_of_ne_nil _ some'
    obtain ⟨name, passed, listed⟩ := List.mem_flatMap.mp member
    obtain ⟨names, data, _, file⟩ := FileTree.spelled_of_mem_entryFiles
      (fun _ _ _ => FileTree.spelled_of_mem_filesBelow) listed
    exact ⟨name, (List.mem_filter.mp passed).2, names, data, file⟩

end Complete

theorem gmListing_ne_error (names : List (List UInt8)) :
    gmListing names ≠ ascii "ERR list" ++ [10] := by
  intro same
  have first := congrArg List.head? same
  cases names with
  | nil => cases first
  | cons name names => cases first

theorem gmListing_length_append (left right : List (List UInt8)) :
    (gmListing (left ++ right)).length =
      (gmItems left).length + (gmListing right).length := by
  rw [gmListing, gmItems_append, List.append_assoc, List.length_append]
  rfl

theorem gmItems_length_pos {names : List (List UInt8)} (some' : names ≠ []) :
    0 < (gmItems names).length := by
  obtain ⟨name, rest, rfl⟩ := List.exists_cons_of_ne_nil some'
  rw [List.length_pos_iff]
  intro none'
  cases none'

theorem gmListing_perm {left right : List (List UInt8)}
    (same : left.Perm right) :
    (gmListing left).length = (gmListing right).length := by
  exact ((same.flatMap_right _).append_right _).length_eq

/-- On a host whose calls succeed and in a store whose names are short enough,
`LIST` answers with the whole listing, or says that it does not fit, exactly if
the root descriptor is not past a file, or what is ahead of it does not fit
either. -/
theorem gmCommandList_lists_all {store : GmStore} (sound : store.Sound)
    (plain : store.fs.tree.Plain)
    (short : ∀ text ∈ gmFileNames store, text.length < gmstorePath)
    (client : GmClient) :
    ListsAll store (gmCommandList client store).2.1.output ↔
      ¬ gmFilesPassed store ∨
        gmstoreOutput < (gmListing (gmFilesAhead store)).length := by
  have members := mem_allFiles sound.rootDir short
  have distinct :
      (store.fs.tree.filesBelow gmstorePath gmstorePath store.root []).Nodup :=
    FileTree.nodup_filesBelow plain gmstorePath store.root []
  have passed := gmFilesPassed_iff short
  have parts := gmFilesAhead_all store
  rw [gmCommandList_reply sound plain]
  generalize store.fs.tree.filesBelow gmstorePath gmstorePath store.root [] =
    all at members distinct parts
  generalize gmFilesUnder store _ = before at passed parts
  have size := gmListing_perm parts
  rw [gmListing_length_append] at size
  constructor
  · rintro ⟨names, namesDistinct, namesMembers, same⟩
    by_contra neither
    rw [not_or, not_not, Nat.not_lt] at neither
    obtain ⟨hidden, fits⟩ := neither
    have equal : (gmListing names).length = (gmListing all).length := by
      apply gmListing_perm
      rw [List.perm_ext_iff_of_nodup namesDistinct distinct]
      intro text
      rw [namesMembers, members]
    have more := gmItems_length_pos (passed.mp hidden)
    rw [gmListReply, if_pos fits, gmListReply] at same
    split at same
    · have lengths := congrArg List.length same
      omega
    · exact gmListing_ne_error _ same
  · rintro (visible | full)
    · have nothing : before = [] := by
        by_contra some'
        exact visible (passed.mpr some')
      rw [nothing, List.nil_append] at parts
      exact ⟨_, parts.nodup_iff.mpr distinct,
        fun text => parts.mem_iff.trans (members text), rfl⟩
    · refine ⟨all, distinct, members, ?_⟩
      have allFull : ¬ (gmListing all).length ≤ gmstoreOutput := by omega
      rw [gmListReply, if_neg (Nat.not_le.mpr full), gmListReply,
        if_neg allFull]

theorem bareRoot_isDir : FileTree.empty.IsDir [] := rfl

theorem bareRoot_free (name : Name) :
    FileTree.empty.lookup ([] ++ [name]) = none := rfl

/-- A store with one directory. -/
def drawerTree : FileTree :=
  FileTree.empty.create [] (ascii "d") .dir 0 bareRoot_isDir
    (bareRoot_free (ascii "d"))

theorem drawerTree_isDir : drawerTree.IsDir [ascii "d"] := rfl

theorem drawerTree_free :
    drawerTree.lookup ([ascii "d"] ++ [ascii "a"]) = none := rfl

/-- A store that holds one object in its directory. -/
def shelfTree : FileTree :=
  drawerTree.create [ascii "d"] (ascii "a") (.file (ascii "abc")) 0
    drawerTree_isDir drawerTree_free

def shelfStore : GmStore := { fs := { tree := shelfTree }, root := [] }

theorem shelfTree_plain : shelfTree.Plain := by
  have plain : ∀ symbol : UInt8, symbol ≠ 46 → symbol ≠ 47 →
      PlainName [symbol] := by
    intro symbol noDot noSlash
    exact ⟨by simp, by simp [noDot], by simp, by simp [Ne.symm noSlash]⟩
  exact (FileTree.empty_plain.create (plain _ (by decide) (by decide))).create
    (plain _ (by decide) (by decide))

theorem shelfTree_file {path : TreePath} {data : List UInt8}
    (file : shelfTree.lookup path = some (.file data)) :
    path = [ascii "d", ascii "a"] := by
  have nodes : shelfTree.lookup path =
      if path = [ascii "d", ascii "a"] then some (.file (ascii "abc"))
      else if path = [ascii "d"] then some .dir
      else if path = [] then some .dir
      else none := by
    simp only [shelfTree, drawerTree, FileTree.create, Function.update_apply]
    rfl
  by_contra elsewhere
  rw [nodes, if_neg elsewhere] at file
  split_ifs at file <;> cases file

theorem gmCommandList_lists_all_shelf :
    ¬ gmFilesPassed shelfStore ∧
    (gmCommandList { live := true } shelfStore).2.1.output =
      gmListing [ascii "/d/a"] ∧
    ListsAll shelfStore
      (gmCommandList { live := true } shelfStore).2.1.output := by
  have none' : ¬ gmFilesPassed shelfStore := by
    rintro ⟨name, passed, _⟩
    cases passed
  refine ⟨none', by decide +kernel, ?_⟩
  have sound : shelfStore.Sound := ⟨fun _ => rfl, by decide +kernel⟩
  refine (gmCommandList_lists_all sound shelfTree_plain ?_
    { live := true }).mpr (.inl none')
  rintro text ⟨names, data, rfl, file⟩
  have only : names = [ascii "d", ascii "a"] := shelfTree_file file
  rw [only]
  decide

def listMessage : GmMessage where
  line := ascii "LIST"
  accepted := by decide
  asks := by decide
  size := by decide

/-- The second `LIST` starts where the first one ended. -/
theorem gmCommandList_second_misses :
    let actions : List GmAction :=
      [ .connect 0, .send 0 putMessage, .send 0 listMessage,
        .send 0 listMessage ]
    let server := gmServe (actions.flatMap GmAction.steps)
      { store := emptyStore }
    (gmServedRun (actions.flatMap GmAction.steps)
        { store := emptyStore }).map (fun served => served.2.2) =
      [ ascii "OK" ++ [10], gmListing [ascii "/d/a"], gmListing [] ] ∧
    ¬ ListsAll server.store (gmListing []) := by
  refine ⟨by decide +kernel, ?_⟩
  rintro ⟨names, _, members, same⟩
  have stored : ascii "/d/a" ∈ names :=
    (members _).mpr ⟨[ascii "d", ascii "a"], ascii "abc", by decide,
      by decide +kernel⟩
  have printed := gmItems_length_pos (List.ne_nil_of_mem stored)
  rw [gmListReply] at same
  split at same
  · have lengths := congrArg List.length same
    rw [← List.append_nil names, gmListing_length_append] at lengths
    omega
  · exact gmListing_ne_error _ same

end Gmker.Server
