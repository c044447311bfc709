import Gmker.Foundation.TreeListing
import Gmker.Server.Files
import Mathlib.Data.List.TakeWhile

/-!
# The grammar of names

`gm_name_valid` decides by one scan, and `gm_open_parent` cuts the name at the
slashes it finds.  Both see the same components.
-/

namespace Gmker.Server

open Foundation

variable {part rest : List UInt8}

/-- A component of a name: visible characters, and not a step to here or up. -/
structure Component (name : Name) : Prop extends PlainName name where
  visible : ∀ symbol ∈ name, 33 ≤ symbol ∧ symbol ≤ 126

theorem gmComponentValid_iff (noSlash : 47 ∉ part)
    (visible : ∀ symbol ∈ part, 33 ≤ symbol ∧ symbol ≤ 126) :
    gmComponentValid part = true ↔ Component part := by
  constructor
  · intro valid
    simp only [gmComponentValid, Bool.and_eq_true, decide_eq_true_eq] at valid
    exact ⟨⟨valid.1.1, valid.1.2, valid.2, noSlash⟩, visible⟩
  · rintro ⟨⟨nonempty, notHere, notUp, _⟩, _⟩
    simp [gmComponentValid, nonempty, notHere, notUp]

/-- What stands before the first slash belongs to the first part. -/
theorem splitPath_front (noSlash : 47 ∉ part) (rest : List UInt8) :
    ∃ more others, splitPath (part ++ rest) = (part ++ more) :: others := by
  induction part with
  | nil =>
    obtain ⟨first, others, parts⟩ :=
      List.exists_cons_of_ne_nil (splitPath_ne_nil rest)
    exact ⟨first, others, parts⟩
  | cons symbol part induction =>
    rw [List.mem_cons, not_or] at noSlash
    obtain ⟨more, others, parts⟩ := induction noSlash.2
    refine ⟨more, others, ?_⟩
    rw [List.cons_append, splitPath, if_neg (Ne.symm noSlash.1), parts]
    rfl

/-- The scan accepts exactly the rows of components. -/
theorem gmNameScan_iff (noSlash : 47 ∉ part)
    (visible : ∀ symbol ∈ part, 33 ≤ symbol ∧ symbol ≤ 126) :
    gmNameScan part rest = true ↔
      ∀ name ∈ splitPath (part ++ rest), Component name := by
  induction rest generalizing part with
  | nil =>
    rw [gmNameScan, List.append_nil, splitPath_of_no_slash noSlash,
      gmComponentValid_iff noSlash visible]
    simp
  | cons symbol rest induction =>
    rw [gmNameScan]
    by_cases slash : symbol = 47
    · rw [if_pos slash, slash, splitPath_cut noSlash, Bool.and_eq_true,
        gmComponentValid_iff noSlash visible,
        induction List.not_mem_nil nofun]
      simp
    have longer : 47 ∉ part ++ [symbol] := by
      simp [noSlash, Ne.symm slash]
    rw [if_neg slash, show part ++ symbol :: rest = part ++ [symbol] ++ rest
      by simp]
    by_cases hidden : symbol < 33 ∨ 126 < symbol
    · obtain ⟨more, others, parts⟩ := splitPath_front longer rest
      rw [if_pos hidden, parts]
      refine ⟨nofun, fun all => ?_⟩
      have seen := (all _ List.mem_cons_self).visible symbol (by simp)
      rw [← UInt8.not_lt, ← UInt8.not_lt] at seen
      exact absurd hidden (not_or.2 seen)
    · rw [if_neg hidden, induction longer]
      rw [not_or, UInt8.not_lt, UInt8.not_lt] at hidden
      intro other member
      rcases List.mem_append.1 member with early | last
      · exact visible other early
      · rw [List.mem_singleton.1 last]
        exact hidden

theorem spelled_eq {names : List Name} (some' : names ≠ []) :
    spelled names = 47 :: joinPath names := by
  induction names with
  | nil => exact absurd rfl some'
  | cons name names induction =>
    cases names with
    | nil => simp [joinPath]
    | cons next more => rw [spelled_cons, induction (by simp), joinPath]; rfl

/-- A name in the sense of the grammar: a slash before each component. -/
structure Spells (name : List UInt8) (components : List Name) : Prop where
  some : components ≠ []
  each : ∀ component ∈ components, Component component
  text : cString name = spelled components

theorem Spells.components {name : List UInt8} {components : List Name}
    (spells : Spells name components) : gmComponents name = components := by
  have noSlash : ∀ component ∈ components, 47 ∉ component :=
    fun component member => (spells.each component member).noSlash
  rw [gmComponents, spells.text]
  cases components with
  | nil => exact absurd rfl spells.some
  | cons first others =>
    rw [List.forall_mem_cons] at noSlash
    exact splitPath_spelled noSlash.2 first noSlash.1

theorem gmNameValid_iff (name : List UInt8) :
    gmNameValid name = true ↔ ∃ components, Spells name components := by
  rw [gmNameValid]
  constructor
  · intro valid
    split at valid
    · rename_i next rest text
      rw [gmNameScan_iff List.not_mem_nil nofun] at valid
      refine ⟨_, splitPath_ne_nil _, valid, ?_⟩
      rw [spelled_eq (splitPath_ne_nil _), joinPath_splitPath, text]
      rfl
    · cases valid
  · rintro ⟨components, spells⟩
    have parts := spells.components
    obtain ⟨first, others, rfl⟩ := List.exists_cons_of_ne_nil spells.some
    obtain ⟨symbol, more, rfl⟩ := List.exists_cons_of_ne_nil
      (spells.each first List.mem_cons_self).nonempty
    rw [gmComponents, spells.text] at parts
    rw [spells.text]
    refine (gmNameScan_iff List.not_mem_nil nofun).2 ?_
    intro component member
    exact spells.each component (parts ▸ member)

/-! ## The walk -/

theorem dropWhile_shorter {path : List UInt8} {slash : UInt8}
    (cut : path.dropWhile (· != 47) = slash :: rest) :
    rest.length < path.length := by
  have shorter := (List.dropWhile_suffix (· != 47) (l := path)).length_le
  rw [cut, List.length_cons] at shorter
  omega

/-- One turn of the loop of `gm_open_parent`: the directory of a part. -/
def gmEnterPart (create : Bool) (current : TreePath) (part : Name)
    (fs : FileSystem) : Option TreePath × FileSystem :=
  let made : Except Errno Unit × FileSystem :=
    if create then fs.mkdirat current part else (.ok (), fs)
  if made.1 = .ok () ∨ made.1 = .error .exist then
    match made.2.openat gmDirFlags current part with
    | (.error _, fs) => (none, fs)
    | (.ok dir, fs) => (some dir.path, fs)
  else (none, made.2)

/-- The loop of `gm_open_parent` on the text itself, with the components it
uses in their order: directories up to a slash each, and then the leaf. -/
def gmOpenParentWalk (create : Bool) (current : TreePath)
    (path : List UInt8) (fs : FileSystem) :
    List Name × Option (TreePath × Name) × FileSystem :=
  let part := path.takeWhile (· != 47)
  match _cut : path.dropWhile (· != 47) with
  | [] =>
    if part = [] ∨ gmstorePath < part.length + 1 then ([part], none, fs)
    else ([part], some (current, part), fs)
  | _ :: rest =>
    match gmEnterPart create current part fs with
    | (none, fs) => ([part], none, fs)
    | (some dir, fs) =>
      let later := gmOpenParentWalk create dir rest fs
      (part :: later.1, later.2)
termination_by path.length
decreasing_by exact dropWhile_shorter _cut

/-- `gm_open_parent` with the components it uses. -/
def gmOpenParentUses (create : Bool) (name : List UInt8) (root : TreePath)
    (fs : FileSystem) : List Name × Option (TreePath × Name) × FileSystem :=
  if gmNameValid name = false ∨ gmstorePath ≤ (cString name).length then
    ([], none, fs)
  else
    match fs.plainCall with
    | (false, fs) => ([], none, fs)
    | (true, fs) => gmOpenParentWalk create root ((cString name).drop 1) fs

/-- A walk along some components: it uses them in order, and it arrives with
the last of them unless a call stops it before. -/
structure Follows (components : List Name)
    (walk : List Name × Option (TreePath × Name) × FileSystem) : Prop where
  uses : walk.1 <+: components
  leaf : walk.2.1.map Prod.snd =
    if walk.1 = components then components.getLast? else none

theorem takeWhile_noSlash (path : List UInt8) :
    47 ∉ path.takeWhile (· != 47) := by
  intro member
  simpa using List.mem_takeWhile_imp member

theorem splitPath_leaf {path : List UInt8}
    (cut : path.dropWhile (· != 47) = []) :
    splitPath path = [path.takeWhile (· != 47)] := by
  have whole := List.takeWhile_append_dropWhile (p := (· != 47)) (l := path)
  rw [cut, List.append_nil] at whole
  rw [← splitPath_of_no_slash (takeWhile_noSlash path), whole]

theorem splitPath_directory {path : List UInt8} {slash : UInt8}
    (cut : path.dropWhile (· != 47) = slash :: rest) :
    splitPath path = path.takeWhile (· != 47) :: splitPath rest := by
  have whole := List.takeWhile_append_dropWhile (p := (· != 47)) (l := path)
  have isSlash : slash = 47 := by
    have head := List.head?_dropWhile_not (· != 47) path
    rw [cut] at head
    simpa using head
  rw [cut, isSlash] at whole
  rw [← splitPath_cut (takeWhile_noSlash path), whole]

theorem gmOpenParentLoop_part (create : Bool) (current : TreePath)
    (part : Name) {parts : List Name} (more : parts ≠ []) (fs : FileSystem) :
    gmOpenParentLoop create current (part :: parts) fs =
      match gmEnterPart create current part fs with
      | (none, fs) => (none, fs)
      | (some dir, fs) => gmOpenParentLoop create dir parts fs := by
  obtain ⟨next, others, rfl⟩ := List.exists_cons_of_ne_nil more
  rw [gmOpenParentLoop, gmEnterPart]
  grind

theorem gmOpenParentWalk_follows (create : Bool) (current : TreePath)
    (path : List UInt8) (fs : FileSystem)
    (each : ∀ name ∈ splitPath path, name ≠ [])
    (short : path.length < gmstorePath) :
    (gmOpenParentWalk create current path fs).2 =
        gmOpenParentLoop create current (splitPath path) fs ∧
      Follows (splitPath path) (gmOpenParentWalk create current path fs) := by
  fun_induction gmOpenParentWalk create current path fs
  case case1 path _ part cut bad =>
    -- an accepted name has no empty or overlong component
    rw [splitPath_leaf cut, List.forall_mem_singleton] at each
    have bound : part.length ≤ path.length :=
      (List.takeWhile_prefix _).length_le
    rcases bad with empty | long
    · exact absurd empty each
    · omega
  case case2 path _ part cut fine =>
    rw [splitPath_leaf cut, gmOpenParentLoop, if_neg fine]
    exact ⟨rfl, List.prefix_refl _, by simp [part]⟩
  case case3 current path fs part slash rest cut after stopped =>
    have more := splitPath_ne_nil rest
    rw [splitPath_directory cut, gmOpenParentLoop_part _ _ _ more, stopped]
    exact ⟨rfl, ⟨_, rfl⟩, by simp [part, more]⟩
  case case4 current path fs part slash rest cut dir after entered _
      induction =>
    rw [splitPath_directory cut] at each ⊢
    rw [List.forall_mem_cons] at each
    have shorter := dropWhile_shorter cut
    obtain ⟨same, uses, leaf⟩ := induction each.2 (by omega)
    have more := splitPath_ne_nil rest
    rw [gmOpenParentLoop_part _ _ _ more, entered]
    refine ⟨same, List.cons_prefix_cons.2 ⟨rfl, uses⟩, ?_⟩
    obtain ⟨next, others, parts⟩ := List.exists_cons_of_ne_nil more
    rw [parts] at leaf ⊢
    simpa [part] using leaf

/-- The grammar of names, and the walk along the components of a name. -/
theorem gmName_grammar (name : List UInt8) :
    (gmNameValid name = true ↔ ∃ components, Spells name components) ∧
      ∀ components, Spells name components →
        (cString name).length < gmstorePath → ∀ create root fs,
          (gmOpenParentUses create name root fs).2 =
              gmOpenParent create name root fs ∧
            (fs.plainCall.1 = true →
              Follows components (gmOpenParentUses create name root fs)) := by
  refine ⟨gmNameValid_iff name, ?_⟩
  intro components spells short create root fs
  have valid := (gmNameValid_iff name).2 ⟨components, spells⟩
  have accepted : ¬ (gmNameValid name = false ∨
      gmstorePath ≤ (cString name).length) := by
    rw [valid, not_or]
    exact ⟨nofun, Nat.not_le.2 short⟩
  have parts := spells.components
  rw [gmComponents] at parts
  rw [gmOpenParentUses, gmOpenParent, if_neg accepted, if_neg accepted,
    gmComponents]
  cases fs.plainCall with
  | mk duplicated after =>
    cases duplicated with
    | false => exact ⟨rfl, nofun⟩
    | true =>
      have walk := gmOpenParentWalk_follows create root
        ((cString name).drop 1) after
        (fun part member => (spells.each part (parts ▸ member)).nonempty)
        (Nat.lt_of_le_of_lt (by simp) short)
      rw [parts] at walk ⊢
      exact ⟨walk.1, fun _ => walk.2⟩

theorem gmName_grammar_two :
    gmNameValid (ascii "/a/b") = true ∧
      Follows [ascii "a", ascii "b"] (gmOpenParentUses true (ascii "/a/b") []
        { tree := .empty }) := by
  have spells : Spells (ascii "/a/b") [ascii "a", ascii "b"] := by
    refine ⟨by simp, ?_, by decide⟩
    intro component member
    simp only [List.mem_cons, List.not_mem_nil, or_false] at member
    rcases member with rfl | rfl <;>
      exact ⟨⟨by decide, by decide, by decide, by decide⟩,
        List.forall_mem_singleton.2 (by decide)⟩
  obtain ⟨valid, walks⟩ := gmName_grammar (ascii "/a/b")
  exact ⟨valid.2 ⟨_, spells⟩, (walks _ spells (by decide) true [] _).2 rfl⟩

end Gmker.Server
