import Gmker.Foundation.FileEffects
import Gmker.Server.NameGrammar

/-!
# Where the store server reaches

Which places of the host file system the commands on a name can touch, and what
they can do there.  Everything rests on the walk to the parent directory: a
name that passes `gm_name_valid` has only plain components, and the walk takes
them one by one without following links.
-/

namespace Gmker.Server

open Foundation

variable {access : Access}

/-- The commands that take a name. -/
inductive GmNamed where
  | stat
  | read
  | write
  | append
  | del
  deriving DecidableEq, Repr

variable {kind : GmNamed}

def GmNamed.stores : GmNamed → Bool
  | .write | .append => true
  | .stat | .read | .del => false

/-- What a command may do on the way to its object: open directories, and make
missing ones if it stores something. -/
def GmNamed.OnTheWay (kind : GmNamed) (access : Access) : Prop :=
  access.kind = .openDir ∧ access.found = some .dir ∨
    kind.stores ∧ access.kind = .makeDir ∧ access.found = none

/-- The node is no symbolic link. -/
def NoLink (found : Option Node) : Prop :=
  ∀ target, found ≠ some (.link target)

/-- What a command may do to its object. -/
def GmNamed.AtObject : GmNamed → Access → Prop
  | .stat, access =>
    NoLink access.found ∧ access.kind ∈ [.openDir, .openFile, .stat]
  | .read, access =>
    NoLink access.found ∧ access.kind ∈ [.openDir, .openFile, .stat, .read]
  | .write, access =>
    NoLink access.found ∧ access.kind ∈ [.create, .truncate, .write]
  | .append, access =>
    NoLink access.found ∧ access.kind ∈ [.create, .openFile, .write]
  | .del, access =>
    access.kind = .stat ∨
      access.kind = .unlink ∧ ∃ data, access.found = some (.file data)

/-- The accesses that a command may make for a name below a root. -/
def GmNamed.May (kind : GmNamed) (root : TreePath) (names : List Name)
    (access : Access) : Prop :=
  (∃ part, part ≠ [] ∧ part <+: names ∧ part ≠ names ∧
      access.path = root ++ part ∧ kind.OnTheWay access) ∨
    names ≠ [] ∧ access.path = root ++ names ∧ kind.AtObject access

/-- How the object may differ after a command. -/
def GmNamed.Leaves (kind : GmNamed) (before after : Option Node) : Prop :=
  after = before ∨
    kind.stores ∧ (before = none ∨ ∃ data, before = some (.file data)) ∧
      (∃ data, after = some (.file data)) ∨
    kind = .del ∧ (∃ data, before = some (.file data)) ∧ after = none

/-- The effect of a command is confined to the way of its name. -/
structure Confined (kind : GmNamed) (root : TreePath) (names : List Name)
    (before after : FileSystem) : Prop where
  accesses : ∃ accesses, after.accesses = before.accesses ++ accesses ∧
    ∀ access ∈ accesses, kind.May root names access ∧
      ∀ shorter, shorter <+: access.path → shorter ≠ access.path →
        after.tree.IsDir shorter
  parents : ∀ part, part ≠ [] → part <+: names → part ≠ names →
    after.tree.lookup (root ++ part) = before.tree.lookup (root ++ part) ∨
      kind.stores ∧ before.tree.lookup (root ++ part) = none ∧
        after.tree.lookup (root ++ part) = some .dir
  object : kind.Leaves (before.tree.lookup (root ++ names))
    (after.tree.lookup (root ++ names))
  frame : ∀ path,
    (∀ part, part ≠ [] → part <+: names → path ≠ root ++ part) →
      after.tree.lookup path = before.tree.lookup path

theorem GmNamed.leaves_trans {first second third : Option Node}
    (early : kind.Leaves first second) (late : kind.Leaves second third) :
    kind.Leaves first third := by
  have apart : ¬ (kind.stores ∧ kind = .del) := by
    rintro ⟨stores, rfl⟩
    cases stores
  unfold GmNamed.Leaves at *
  grind

theorem GmNamed.atObject_leaves (atObject : kind.AtObject access)
    {left : Option Node} (changes : access.kind.Changes access.found left) :
    kind.Leaves access.found left := by
  cases kind <;>
    simp only [GmNamed.AtObject, List.mem_cons, List.not_mem_nil,
      or_false] at atObject <;>
    cases which : access.kind <;>
    simp_all [AccessKind.Changes, GmNamed.Leaves, GmNamed.stores]

/-- Allowed accesses have confined effects. -/
theorem Confined.of_makes {root : TreePath} {names : List Name}
    {before after : FileSystem}
    (makes : before.Makes (kind.May root names) after) (named : names ≠ []) :
    Confined kind root names before after := by
  obtain ⟨accesses, log, run, may⟩ := makes
  refine ⟨⟨accesses, log, ?_⟩, ?_, ?_, ?_⟩
  · intro access member
    exact ⟨may access member, fun shorter above proper =>
      run.above_isDir member above proper⟩
  · intro part nonempty within proper
    apply run.relates
      (fun found left => left = found ∨
        kind.stores ∧ found = none ∧ left = some .dir)
      (fun _ => .inl rfl) (by grind) (root ++ part)
    intro access member here left changes
    rcases may access member with ⟨other, _, _, _, path, onTheWay⟩ | object
    · rcases onTheWay with ⟨which, _⟩ | ⟨stores, which, _⟩
      · rw [which] at changes
        exact .inl changes.2
      · rw [which] at changes
        exact .inr ⟨stores, changes⟩
    · rw [object.2.1] at here
      exact absurd (List.append_cancel_left here).symm proper
  · apply run.relates kind.Leaves (fun _ => .inl rfl)
      (fun _ _ _ => GmNamed.leaves_trans) (root ++ names)
    intro access member here left changes
    rcases may access member with ⟨part, _, _, proper, path, _⟩ | object
    · rw [path] at here
      exact absurd (List.append_cancel_left here) proper
    · exact GmNamed.atObject_leaves object.2.2 changes
  · intro path elsewhere
    apply run.untouched path
    intro access member here
    rcases may access member with ⟨part, nonempty, within, _, at', _⟩ | object
    · exact elsewhere part nonempty within (here ▸ at')
    · exact elsewhere names named (List.prefix_refl _) (here ▸ object.2.1)

theorem gmNameValid_plain {name : List UInt8}
    (valid : gmNameValid name = true) :
    ∀ part ∈ gmComponents name, PlainName part := by
  obtain ⟨components, spells⟩ := (gmNameValid_iff name).1 valid
  rw [spells.components]
  intro part member
  exact (spells.each part member).toPlainName

theorem gmComponents_ne_nil (name : List UInt8) : gmComponents name ≠ [] :=
  splitPath_ne_nil _

/-- How far a walk has come. -/
structure Walked (root current : TreePath) (names rest : List Name) : Prop where
  split : ∃ done, names = done ++ rest ∧ current = root ++ done
  plain : ∀ name ∈ rest, PlainName name

section Walk

variable {next : Name} {more : List Name}

variable (kind : GmNamed) {root current : TreePath} {names rest : List Name}
  {part : Name}

/-- The next place of the walk is one that the command may visit. -/
theorem Walked.may_pass
    (walked : Walked root current names (part :: next :: more))
    (here : access.path = current ++ [part]) (onTheWay : kind.OnTheWay access) :
    kind.May root names access := by
  obtain ⟨done, rfl, rfl⟩ := walked.split
  refine .inl ⟨done ++ [part], by simp, ?_, by simp, ?_, onTheWay⟩
  · exact ⟨next :: more, by simp⟩
  · rw [here, List.append_assoc]

theorem Walked.pass (walked : Walked root current names (part :: next :: more)) :
    Walked root (current ++ [part]) names (next :: more) := by
  obtain ⟨done, rfl, rfl⟩ := walked.split
  refine ⟨⟨done ++ [part], by simp, by simp⟩, ?_⟩
  intro name member
  exact walked.plain name (List.mem_cons_of_mem _ member)

/-- The walk ends at the leaf. -/
def Arrived (root : TreePath) (names : List Name)
    (result : Option (TreePath × Name)) : Prop :=
  ∀ dir leaf, result = some (dir, leaf) →
    dir ++ [leaf] = root ++ names ∧ PlainName leaf

theorem gmDirFlags_onTheWay (opens : gmDirFlags.OpensAs access) :
    kind.OnTheWay access := by
  obtain ⟨which, path, found⟩ := access
  rcases found with _ | _ | _ | _ <;>
    simp_all [gmDirFlags, FileSystem.OpenFlags.OpensAs, GmNamed.OnTheWay]

theorem made_makes (walked : Walked root current names (part :: next :: more))
    (fs : FileSystem) :
    fs.Makes (kind.May root names)
      (if kind.stores then fs.mkdirat current part else (.ok (), fs)).2 := by
  split
  · rename_i stores
    apply FileSystem.mkdirat_makes fs current (walked.plain part (by simp))
    exact walked.may_pass kind rfl (.inr ⟨stores, rfl, rfl⟩)
  · exact .refl fs

theorem gmOpenParentLoop_walks (rest : List Name) (current : TreePath)
    (fs : FileSystem) (walked : Walked root current names rest) :
    fs.Makes (kind.May root names)
        (gmOpenParentLoop kind.stores current rest fs).2 ∧
      Arrived root names
        (gmOpenParentLoop kind.stores current rest fs).1 := by
  induction rest generalizing current fs with
  | nil => exact ⟨.refl fs, by simp [Arrived, gmOpenParentLoop]⟩
  | cons part rest induction =>
    cases rest with
    | nil =>
      rw [gmOpenParentLoop]
      split
      · exact ⟨.refl fs, by simp [Arrived]⟩
      · refine ⟨.refl fs, ?_⟩
        rintro dir leaf ⟨⟩
        obtain ⟨done, rfl, rfl⟩ := walked.split
        exact ⟨by simp, walked.plain part (by simp)⟩
    | cons next more =>
      have plain := walked.plain part (by simp)
      have made := made_makes kind walked fs
      rw [gmOpenParentLoop]
      generalize (if kind.stores then fs.mkdirat current part
        else (.ok (), fs)) = result at made
      obtain ⟨outcome, middle⟩ := result
      simp only
      split
      · have opens := middle.openat_makes current gmDirFlags plain rfl
          fun access here opensAs => walked.may_pass kind here
            (gmDirFlags_onTheWay kind opensAs)
        split
        · rename_i failed
          rw [failed] at opens
          exact ⟨made.trans opens, by simp [Arrived]⟩
        · rename_i handle after opened
          have place := middle.openat_path current plain rfl opened
          rw [opened] at opens
          have walk := induction (current ++ [part]) after walked.pass
          rw [place]
          exact ⟨(made.trans opens).trans walk.1, walk.2⟩
      · exact ⟨made, by simp [Arrived]⟩

theorem gmOpenParent_walks (kind : GmNamed) (name : List UInt8)
    (root : TreePath) (fs : FileSystem) :
    fs.Makes (kind.May root (gmComponents name))
        (gmOpenParent kind.stores name root fs).2 ∧
      Arrived root (gmComponents name)
        (gmOpenParent kind.stores name root fs).1 := by
  rw [gmOpenParent]
  split
  · exact ⟨.refl fs, by simp [Arrived]⟩
  rename_i accepted
  have valid : gmNameValid name = true := by
    simpa using (not_or.mp accepted).1
  have dup : fs.Makes (kind.May root (gmComponents name)) fs.plainCall.2 :=
    .plainCall fs
  split
  · rename_i failed
    rw [failed] at dup
    exact ⟨dup, by simp [Arrived]⟩
  · rename_i after duplicated
    rw [duplicated] at dup
    have start : Walked root root (gmComponents name) (gmComponents name) :=
      ⟨⟨[], rfl, (List.append_nil root).symm⟩, gmNameValid_plain valid⟩
    have walk := gmOpenParentLoop_walks kind (gmComponents name) root after start
    exact ⟨dup.trans walk.1, walk.2⟩

end Walk

theorem GmNamed.may_object {root : TreePath} {name : List UInt8}
    (here : access.path = root ++ gmComponents name)
    (atObject : kind.AtObject access) :
    kind.May root (gmComponents name) access :=
  .inr ⟨gmComponents_ne_nil name, here, atObject⟩

section Commands

variable (name : List UInt8) (root : TreePath) (fs : FileSystem)

theorem lookFlags_atObject (looks : kind = .stat ∨ kind = .read)
    (opens : FileSystem.OpenFlags.OpensAs { nofollow := true } access) :
    kind.AtObject access := by
  obtain ⟨which, path, found⟩ := access
  rcases looks with rfl | rfl <;> rcases found with _ | _ | _ | _ <;>
    simp_all [FileSystem.OpenFlags.OpensAs, GmNamed.AtObject, NoLink]

theorem gmOpenRegular_makes (looks : kind = .stat ∨ kind = .read) :
    fs.Makes (kind.May root (gmComponents name))
        (gmOpenRegular name root fs).2 ∧
      ∀ file size, (gmOpenRegular name root fs).1 = some (file, size) →
        file.path = root ++ gmComponents name := by
  have looking : kind.stores = false := by
    rcases looks with rfl | rfl <;> rfl
  obtain ⟨walk, arrived⟩ := gmOpenParent_walks kind name root fs
  rw [looking] at walk arrived
  rw [gmOpenRegular]
  split
  · rename_i failed
    rw [failed] at walk
    exact ⟨walk, by simp⟩
  rename_i dir leaf middle walked
  rw [walked] at walk arrived
  obtain ⟨place, plain⟩ := arrived dir leaf rfl
  have opens : middle.Makes (kind.May root (gmComponents name))
      (middle.openat { nofollow := true } dir leaf).2 :=
    middle.openat_makes dir _ plain rfl fun access here opensAs =>
      GmNamed.may_object (here.trans place) (lookFlags_atObject looks opensAs)
  split
  · rename_i failed
    rw [failed] at opens
    exact ⟨walk.trans opens, by simp⟩
  rename_i file opened done
  rw [done] at opens
  have path : file.path = root ++ gmComponents name :=
    (middle.openat_path dir plain rfl done).trans place
  have noLink : NoLink (opened.tree.lookup file.path) := by
    rw [path, ← place]
    exact middle.openat_no_link dir plain rfl done
  have stats : opened.Makes (kind.May root (gmComponents name))
      (opened.fstat file).2 := by
    apply FileSystem.fstat_makes
    intro node there
    apply GmNamed.may_object path
    rw [there] at noLink
    rcases looks with rfl | rfl <;> exact ⟨noLink, by simp⟩
  have touched := (walk.trans opens).trans stats
  split
  · rename_i regular
    rw [regular] at touched
    refine ⟨touched, ?_⟩
    rintro _ _ ⟨⟩
    exact path
  · rename_i other
    rw [other] at touched
    exact ⟨touched, by simp⟩

theorem gmStat_confined :
    Confined .stat root (gmComponents name) fs (gmOpenRegular name root fs).2 :=
  .of_makes (gmOpenRegular_makes name root fs (.inl rfl)).1
    (gmComponents_ne_nil name)

theorem gmReadBlock_confined (offset count : Nat) :
    Confined .read root (gmComponents name) fs
      (gmReadBlock name offset count root fs).2 := by
  apply Confined.of_makes _ (gmComponents_ne_nil name)
  obtain ⟨looks, path⟩ := gmOpenRegular_makes name root fs (.inr rfl)
  rw [gmReadBlock]
  split
  · rename_i failed
    rw [failed] at looks
    exact looks
  rename_i file size middle opened
  rw [opened] at looks path
  have seeks : middle.Makes (GmNamed.read.May root (gmComponents name))
      middle.plainCall.2 := .plainCall middle
  split
  · rename_i failed
    rw [failed] at seeks
    exact looks.trans seeks
  rename_i after sought
  rw [sought] at seeks
  have reads : after.Makes (GmNamed.read.May root (gmComponents name))
      (after.readAt file offset count).2 := by
    apply FileSystem.readAt_makes
    intro data
    exact GmNamed.may_object (path file size rfl)
      ⟨by simp [NoLink], by simp⟩
  have touched := (looks.trans seeks).trans reads
  split <;> simp_all

theorem storeFlags_atObject (append : Bool)
    (opens : FileSystem.OpenFlags.OpensAs
      { write := true
        create := true
        nofollow := true
        append := append
        truncate := !append } access) :
    (if append then GmNamed.append else .write).AtObject access := by
  obtain ⟨which, path, found⟩ := access
  cases append <;> rcases found with _ | _ | _ | _ <;>
    simp_all [FileSystem.OpenFlags.OpensAs, GmNamed.AtObject, NoLink]

theorem gmWriteLoop_makes {May : Access → Prop}
    {file : FileSystem.Handle}
    (may : ∀ data, May ⟨.write, file.path, some (.file data)⟩)
    (bytes : List UInt8) (fuel done : Nat) (fs : FileSystem) :
    fs.Makes May (gmWriteLoop file bytes fuel done fs).2 := by
  induction fuel generalizing done fs with
  | zero => exact .refl fs
  | succ fuel induction =>
    rw [gmWriteLoop]
    split
    · have writes := FileSystem.writeAt_makes file done (bytes.drop done) fs
        may
      split
      · rename_i failed
        rw [failed] at writes
        exact writes
      · rename_i count after wrote
        rw [wrote] at writes
        exact writes.trans (induction (done + count) after)
    · exact .refl fs

theorem gmStorePayload_confined (append : Bool) (bytes : List UInt8) :
    Confined (if append then .append else .write) root (gmComponents name) fs
      (gmStorePayload append name bytes root fs).2 := by
  generalize which : (if append then GmNamed.append else .write) = kind
  have stores : kind.stores = true := by
    rw [← which]
    cases append <;> rfl
  have writing : ∀ path data,
      kind.AtObject ⟨.write, path, some (.file data)⟩ := by
    rw [← which]
    cases append <;> simp [GmNamed.AtObject, NoLink]
  apply Confined.of_makes _ (gmComponents_ne_nil name)
  obtain ⟨walk, arrived⟩ := gmOpenParent_walks kind name root fs
  rw [stores] at walk arrived
  rw [gmStorePayload]
  split
  · rename_i failed
    rw [failed] at walk
    exact walk
  rename_i dir leaf middle walked
  rw [walked] at walk arrived
  obtain ⟨place, plain⟩ := arrived dir leaf rfl
  have opens : middle.Makes (kind.May root (gmComponents name))
      (middle.openat
        { write := true
          create := true
          nofollow := true
          append := append
          truncate := !append } dir leaf).2 :=
    middle.openat_makes dir _ plain rfl fun access here opensAs =>
      GmNamed.may_object (here.trans place)
        (which ▸ storeFlags_atObject append opensAs)
  split
  · rename_i failed
    rw [failed] at opens
    exact walk.trans opens
  rename_i file opened done
  rw [done] at opens
  have path : file.path = root ++ gmComponents name :=
    (middle.openat_path dir plain rfl done).trans place
  have writes : opened.Makes (kind.May root (gmComponents name))
      (gmWriteLoop file bytes bytes.length 0 opened).2 :=
    gmWriteLoop_makes
      (fun data => GmNamed.may_object path (writing file.path data)) _ _ _ _
  generalize gmWriteLoop file bytes bytes.length 0 opened = written at writes
  obtain ⟨count, after⟩ := written
  have touched := ((walk.trans opens).trans writes).trans (.plainCall after)
  simp only
  split <;> exact touched

theorem gmDelete_confined (store : GmStore) :
    Confined .del store.root (gmComponents name) store.fs
      (gmDelete name store).2.fs := by
  apply Confined.of_makes _ (gmComponents_ne_nil name)
  obtain ⟨walk, arrived⟩ := gmOpenParent_walks .del name store.root store.fs
  rw [gmDelete]
  split
  · rename_i failed
    rw [GmNamed.stores, failed] at walk
    exact walk
  rename_i dir leaf middle walked
  rw [GmNamed.stores, walked] at walk arrived
  obtain ⟨place, plain⟩ := arrived dir leaf rfl
  have stats : middle.Makes (GmNamed.del.May store.root (gmComponents name))
      (middle.fstatat false dir leaf).2 :=
    middle.fstatat_makes dir plain fun node =>
      GmNamed.may_object place (.inl rfl)
  split
  · rename_i data after found
    rw [found] at stats
    have regular := middle.fstatat_node dir plain found
    have unlinks : after.Makes
        (GmNamed.del.May store.root (gmComponents name))
        (after.unlinkat dir leaf).2 := by
      apply after.unlinkat_makes dir plain
      intro node there
      apply GmNamed.may_object place
      rw [regular] at there
      exact .inr ⟨rfl, data, there.symm⟩
    have touched := (walk.trans stats).trans unlinks
    split
    · rename_i failed
      rw [failed] at touched
      exact touched
    · rename_i done
      rw [done] at touched
      exact touched
  · rename_i other
    rw [other] at stats
    exact walk.trans stats

end Commands

end Gmker.Server
