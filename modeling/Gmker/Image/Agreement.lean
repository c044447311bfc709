import Gmker.Image.Pack
import Gmker.Image.Load
import Gmker.Programs.Launch

/-!
# The packer and the loader agree

For every ELF file that `gmpack` accepts, `gm_program_load` accepts the packed
file and leaves the memory image of the ELF file in the slot.  The packer's part
is an invariant of its loop over the program headers; the loader's part is that
the blocks it reads add up to the file behind the header.
-/

namespace Gmker.Image

open Foundation

variable {file data : List UInt8} {ph : Elf64Phdr} {segments : List Elf64Phdr}

/-! ## The memory image of an ELF file -/

/-- The segment occupies the address. -/
def Elf64Phdr.Covers (ph : Elf64Phdr) (addr : Nat) : Prop :=
  ph.vaddr ≤ addr ∧ addr < ph.vaddr + ph.memsz

/-- The loadable segments among some entries of the program header table. -/
def elfLoads (file : List UInt8) (eh : Elf64Ehdr) (indices : List Nat) :
    List Elf64Phdr :=
  indices.filterMap fun index =>
    (gmPackHeader file eh index).filter fun ph => ph.type = ptLoad

/-- No two segments occupy the same address. -/
def Apart (segments : List Elf64Phdr) : Prop :=
  segments.Pairwise fun left right =>
    ∀ addr, ¬ (left.Covers addr ∧ right.Covers addr)

/-- The image holds the bytes of every segment in its place, zeros behind them
up to the size of the segment in memory, and zeros everywhere else.  A segment
occupies as many bytes as its size in memory says. -/
structure HoldsImage (file : List UInt8) (segments : List Elf64Phdr)
    (image : Area gmProgramImageMax) : Prop where
  inside : ∀ ph ∈ segments, ∀ index < ph.memsz,
    ∃ place : Fin gmProgramImageMax,
      gmProgramBase + place.val = ph.vaddr + index ∧
      (index < ph.filesz → file[ph.offset + index]? = some (image place)) ∧
      (ph.filesz ≤ index → image place = 0)
  elsewhere : ∀ place : Fin gmProgramImageMax,
    (∀ ph ∈ segments, ¬ ph.Covers (gmProgramBase + place.val)) →
    image place = 0

/-! ## The loop of the packer -/

theorem gmRead_some {len offset : Nat}
    (read : gmRead file len offset = some data) :
    data.length = len ∧ ∀ index < len, file[offset + index]? = data[index]? := by
  unfold gmRead at read
  split at read
  · cases read
  simp only at read
  split at read
  · rename_i whole
    cases read
    refine ⟨whole, ?_⟩
    intro index within
    rw [List.getElem?_take_of_lt within, List.getElem?_drop]
  · cases read

/-- A segment that passes the test lies in the arena. -/
structure Elf64Phdr.Fits (ph : Elf64Phdr) : Prop where
  low : gmProgramBase ≤ ph.vaddr
  high : ph.vaddr + ph.memsz ≤ gmProgramBase + gmProgramImageMax
  bytes : ph.filesz ≤ ph.memsz
  segEnd : (ph.vaddr + ph.memsz) % 2 ^ 64 = ph.vaddr + ph.memsz

theorem Elf64Phdr.fits_of_not_outside (inside : ph.outside = false) :
    ph.Fits := by
  simp only [Elf64Phdr.outside, Bool.or_eq_false_iff, decide_eq_false_iff_not,
    Nat.not_lt] at inside
  obtain ⟨⟨⟨⟨⟨low, most⟩, small⟩, wrap⟩, high⟩, bytes⟩ := inside
  have whole : (ph.vaddr + ph.memsz) % 2 ^ 64 = ph.vaddr + ph.memsz := by
    apply Nat.mod_eq_of_lt
    unfold gmProgramBase gmProgramImageMax at *
    omega
  rw [whole] at high
  exact ⟨low, high, bytes, whole⟩

theorem gmPackFill_stored {image after : Area gmProgramImageMax} {off : Nat}
    (stored : image.store off data = some after) :
    gmPackFill image off data = .ok after := by
  rw [gmPackFill, stored]

section Copy

variable {file : List UInt8} {ph : Elf64Phdr} (fits : ph.Fits)
  {image : Area gmProgramImageMax}
include fits

theorem Elf64Phdr.Fits.room :
    ph.vaddr - gmProgramBase + ph.filesz ≤ gmProgramImageMax := by
  have low := fits.low
  have high := fits.high
  have bytes := fits.bytes
  omega

/-- A segment is copied, or its bytes are not in the file. -/
theorem gmPackCopy_cases :
    gmPackCopy file ph image = .error (.refused .segmentRead) ∨
      ∃ (data : List UInt8) (after : Area gmProgramImageMax),
        gmPackCopy file ph image = .ok after ∧ data.length = ph.filesz ∧
        (∀ index < ph.filesz, file[ph.offset + index]? = data[index]?) ∧
        image.store (ph.vaddr - gmProgramBase) data = some after := by
  have room := fits.room
  by_cases none' : ph.filesz = 0
  · right
    refine ⟨[], image, ?_, none'.symm, ?_, Area.store_nil image (by omega)⟩
    · rw [gmPackCopy, if_pos none']
    · intro index within
      omega
  have within : ¬ gmProgramImageMax < ph.vaddr - gmProgramBase + ph.filesz :=
    Nat.not_lt.mpr room
  cases read : gmRead file ph.filesz ph.offset with
  | none =>
    left
    rw [gmPackCopy, if_neg none', if_neg within, read]
  | some data =>
    obtain ⟨length, bytes⟩ := gmRead_some read
    obtain ⟨after, stored⟩ := image.store_isSome
      (show ph.vaddr - gmProgramBase + data.length ≤ gmProgramImageMax by
        omega)
    right
    refine ⟨data, after, ?_, length, bytes, stored⟩
    rw [gmPackCopy, if_neg none', if_neg within, read]
    exact gmPackFill_stored stored

end Copy

/-- One more segment, outside of which the image is as before. -/
theorem HoldsImage.grow {image after : Area gmProgramImageMax}
    (holds : HoldsImage file segments image)
    (apart : ∀ other ∈ segments, ∀ addr, ¬ (other.Covers addr ∧ ph.Covers addr))
    (kept : ∀ place : Fin gmProgramImageMax,
      ¬ ph.Covers (gmProgramBase + place.val) → after place = image place)
    (own : ∀ index < ph.memsz, ∃ place : Fin gmProgramImageMax,
      gmProgramBase + place.val = ph.vaddr + index ∧
      (index < ph.filesz → file[ph.offset + index]? = some (after place)) ∧
      (ph.filesz ≤ index → after place = 0)) :
    HoldsImage file (segments ++ [ph]) after := by
  refine ⟨?_, ?_⟩
  · intro other member index within
    rcases List.mem_append.mp member with earlier | last
    · obtain ⟨place, same, filed, zeroed⟩ :=
        holds.inside other earlier index within
      have uncovered : ¬ ph.Covers (gmProgramBase + place.val) := by
        intro covers
        refine apart other earlier _ ⟨?_, covers⟩
        unfold Elf64Phdr.Covers
        omega
      rw [← kept place uncovered] at filed zeroed
      exact ⟨place, same, filed, zeroed⟩
    · obtain rfl := List.mem_singleton.mp last
      exact own index within
  · intro place uncovered
    rw [kept place (uncovered ph (by simp))]
    apply holds.elsewhere
    intro other member
    exact uncovered other (List.mem_append_left _ member)

theorem HoldsImage.add {image after : Area gmProgramImageMax}
    (holds : HoldsImage file segments image) (fits : ph.Fits)
    (apart : ∀ other ∈ segments, ∀ addr, ¬ (other.Covers addr ∧ ph.Covers addr))
    (copied : gmPackCopy file ph image = .ok after) :
    HoldsImage file (segments ++ [ph]) after := by
  have low := fits.low
  have high := fits.high
  have small := fits.bytes
  rcases gmPackCopy_cases fits with unread | found
  · have never := unread.symm.trans copied
    cases never
  obtain ⟨data, copy, same, length, bytes, stored⟩ := found
  rw [Except.ok.inj (same.symm.trans copied)] at stored
  refine holds.grow apart ?_ ?_
  · intro place uncovered
    apply Area.store_outside stored
    unfold Elf64Phdr.Covers at uncovered
    omega
  · intro index within
    refine ⟨⟨ph.vaddr - gmProgramBase + index, by omega⟩, ?_, ?_, ?_⟩
    · simp only
      omega
    · intro early
      have there : data[index]? = some data[index] :=
        List.getElem?_eq_getElem (by omega)
      rw [bytes index early, there, Area.store_inside stored index there rfl]
    · -- Behind the bytes of the file nothing was written yet.
      intro late
      rw [Area.store_outside stored (.inr (by simp only; omega))]
      apply holds.elsewhere
      intro earlier member covers
      refine apart earlier member _ ⟨covers, ?_⟩
      unfold Elf64Phdr.Covers
      simp only
      omega

/-- The invariant of the loop over the program headers. -/
structure Packing (file : List UInt8) (eh : Elf64Ehdr) (done : List Nat)
    (state : GmPackState) : Prop where
  low : gmProgramBase ≤ state.imageEnd
  high : state.imageEnd ≤ gmProgramBase + gmProgramImageMax
  ends : ∀ ph ∈ elfLoads file eh done, ∀ addr, ph.Covers addr →
    addr < state.imageEnd
  holds : Apart (elfLoads file eh done) →
    HoldsImage file (elfLoads file eh done) state.image
  entry : state.entryExec = true → ∃ ph ∈ elfLoads file eh done,
    ph.executable = true ∧ ph.Covers eh.entry

theorem packing_start (file : List UInt8) (eh : Elf64Ehdr) :
    Packing file eh [] {} where
  low := Nat.le_refl _
  high := Nat.le_add_right _ _
  ends := by
    intro ph member
    cases member
  holds := by
    intro _
    refine ⟨?_, fun _ _ => rfl⟩
    intro ph member
    cases member
  entry := by
    intro started
    cases started

section Round

variable {file : List UInt8} {eh : Elf64Ehdr} {done : List Nat} {index : Nat}

theorem elfLoads_other (other : (gmPackHeader file eh index).filter
      (fun ph => ph.type = ptLoad) = none) :
    elfLoads file eh (done ++ [index]) = elfLoads file eh done := by
  rw [elfLoads, List.filterMap_append, List.filterMap_cons, other,
    List.filterMap_nil, List.append_nil]
  rfl

theorem elfLoads_load (read : gmPackHeader file eh index = some ph)
    (load : ph.type = ptLoad) :
    elfLoads file eh (done ++ [index]) = elfLoads file eh done ++ [ph] := by
  have kept : (gmPackHeader file eh index).filter
      (fun ph => ph.type = ptLoad) = some ph := by
    rw [read, Option.filter_some, if_pos (by simpa using load)]
  rw [elfLoads, List.filterMap_append, List.filterMap_cons, kept,
    List.filterMap_nil]
  rfl

theorem Apart.init (apart : Apart (segments ++ [ph])) :
    Apart segments ∧ ∀ other ∈ segments, ∀ addr,
      ¬ (other.Covers addr ∧ ph.Covers addr) := by
  obtain ⟨first, _, cross⟩ := List.pairwise_append.mp apart
  exact ⟨first, fun other member =>
    cross other member ph (List.mem_singleton_self ph)⟩

/-- What a loadable segment adds. -/
structure Adds (file : List UInt8) (eh : Elf64Ehdr) (ph : Elf64Phdr)
    (state next : GmPackState) : Prop where
  grows : state.imageEnd ≤ next.imageEnd
  high : state.imageEnd ≤ gmProgramBase + gmProgramImageMax →
    next.imageEnd ≤ gmProgramBase + gmProgramImageMax
  ends : ∀ addr, ph.Covers addr → addr < next.imageEnd
  holds : ∀ segments, HoldsImage file segments state.image →
    (∀ other ∈ segments, ∀ addr, ¬ (other.Covers addr ∧ ph.Covers addr)) →
      HoldsImage file (segments ++ [ph]) next.image
  entry : next.entryExec = true → state.entryExec = true ∨
    (ph.executable = true ∧ ph.Covers eh.entry)

/-- A segment that occupies no memory changes nothing. -/
theorem adds_empty (none' : ph.memsz = 0) (state : GmPackState) :
    Adds file eh ph state state where
  grows := Nat.le_refl _
  high := id
  ends addr covers := by
    unfold Elf64Phdr.Covers at covers
    omega
  holds segments holds apart := by
    refine holds.grow apart (fun _ _ => rfl) ?_
    intro index within
    omega
  entry := .inl

theorem gmPackSegment_cases {state next : GmPackState}
    (stepped : gmPackSegment file eh index state = .ok next) :
    ∃ ph, gmPackHeader file eh index = some ph ∧
      ((ph.type ≠ ptLoad ∧ next = state) ∨
        (ph.type = ptLoad ∧ Adds file eh ph state next)) := by
  unfold gmPackSegment at stepped
  cases read : gmPackHeader file eh index with
  | none =>
    rw [read] at stepped
    cases stepped
  | some ph =>
    refine ⟨ph, rfl, ?_⟩
    simp only [read] at stepped
    by_cases load : ph.type = ptLoad
    swap
    · rw [if_pos (.inl load)] at stepped
      exact .inl ⟨load, (Except.ok.inj stepped).symm⟩
    by_cases none' : ph.memsz = 0
    · rw [if_pos (.inr none')] at stepped
      cases stepped
      exact .inr ⟨load, adds_empty none' state⟩
    rw [if_neg (by simp [load, none'])] at stepped
    cases outside : ph.outside with
    | true =>
      rw [if_pos outside] at stepped
      cases stepped
    | false =>
      have fits := Elf64Phdr.fits_of_not_outside outside
      rw [if_neg (by simp [outside]), fits.segEnd] at stepped
      split at stepped
      · cases stepped
      rename_i image copied
      cases stepped
      have high := fits.high
      refine .inr ⟨load, ?_, ?_, ?_, ?_, ?_⟩
      · simp only
        split <;> omega
      · simp only
        split <;> omega
      · intro addr covers
        have below := covers.2
        simp only
        split <;> omega
      · exact fun segments holds apart => holds.add fits apart copied
      · intro exec
        simp only [Bool.or_eq_true, Bool.and_eq_true, decide_eq_true_eq]
          at exec
        rcases exec with before | ⟨⟨executable, low⟩, high⟩
        · exact .inl before
        · exact .inr ⟨executable, low, high⟩

theorem Packing.step {state next : GmPackState}
    (packing : Packing file eh done state)
    (stepped : gmPackSegment file eh index state = .ok next) :
    Packing file eh (done ++ [index]) next := by
  obtain ⟨ph, read, ⟨noLoad, rfl⟩ | ⟨load, adds⟩⟩ :=
    gmPackSegment_cases stepped
  · have same : elfLoads file eh (done ++ [index]) = elfLoads file eh done := by
      apply elfLoads_other
      rw [read, Option.filter_some, if_neg (by simpa using noLoad)]
    refine ⟨packing.low, packing.high, ?_, ?_, ?_⟩
    · rw [same]
      exact packing.ends
    · rw [same]
      exact packing.holds
    · rw [same]
      exact packing.entry
  · have loads : elfLoads file eh (done ++ [index]) =
        elfLoads file eh done ++ [ph] := elfLoads_load read load
    refine ⟨Nat.le_trans packing.low adds.grows, adds.high packing.high,
      ?_, ?_, ?_⟩
    · rw [loads]
      intro other member addr covers
      rcases List.mem_append.mp member with earlier | last
      · exact Nat.lt_of_lt_of_le (packing.ends other earlier addr covers)
          adds.grows
      · rw [List.mem_singleton.mp last] at covers
        exact adds.ends addr covers
    · rw [loads]
      intro apart
      obtain ⟨before, cross⟩ := apart.init
      exact adds.holds _ (packing.holds before) cross
    · rw [loads]
      intro exec
      rcases adds.entry exec with before | ⟨executable, covers⟩
      · obtain ⟨other, member, executable, covers⟩ := packing.entry before
        exact ⟨other, List.mem_append_left _ member, executable, covers⟩
      · exact ⟨ph, by simp, executable, covers⟩

end Round

/-! ## The packed file -/

/-- What an accepted file was packed into. -/
structure PackedFrom (file : List UInt8) (eh : Elf64Ehdr) (packed : GmPacked)
    (image : Area gmProgramImageMax) : Prop where
  size : 0 < packed.imageSize.toNat ∧
    packed.imageSize.toNat ≤ gmProgramImageMax
  holds : Apart (elfLoads file eh (List.range eh.phnum)) →
    HoldsImage file (elfLoads file eh (List.range eh.phnum)) image
  behind : Apart (elfLoads file eh (List.range eh.phnum)) →
    ∀ place : Fin gmProgramImageMax, packed.imageSize.toNat ≤ place.val →
      image place = 0
  entry : gmProgramBase + packed.entry = eh.entry
  within : packed.entry < packed.imageSize.toNat
  executable : ∃ ph ∈ elfLoads file eh (List.range eh.phnum),
    ph.executable = true ∧ ph.Covers eh.entry
  bytes : ∃ arch archName, gmArch eh.machine = some (arch, archName) ∧
    packed.bytes = ascii "GM01" ++ gmPut32 gmApiVersion ++ gmPut32 arch ++
      gmPut32 packed.imageSize ++ gmPut32 (UInt32.ofNat packed.entry) ++
      gmPut32 (gmChecksum (image.first packed.imageSize.toNat)) ++
      image.first packed.imageSize.toNat

theorem gmpack_from {packed : GmPacked} (accepted : gmpack file = .ok packed) :
    ∃ eh image, elfHeader file = some eh ∧ PackedFrom file eh packed image := by
  unfold gmpack at accepted
  split at accepted
  · cases accepted
  rename_i eh header
  split at accepted
  · cases accepted
  rename_i arch archName known
  split at accepted
  · cases accepted
  split at accepted
  · cases accepted
  rename_i entryInside
  split at accepted
  · cases accepted
  rename_i state ran
  have packing : Packing file eh ([] ++ List.range eh.phnum) state :=
    runSteps_along (fun done index before after packing stepped =>
      packing.step stepped) (packing_start file eh) ran
  rw [List.nil_append] at packing
  have low := packing.low
  have high := packing.high
  unfold gmPackFinish at accepted
  split at accepted
  · cases accepted
  rename_i entered
  simp only [not_or, Bool.not_eq_false, Nat.not_le] at entered
  obtain ⟨_, exec, nonempty⟩ := entered
  simp only at accepted
  split at accepted
  · cases accepted
  rename_i within
  cases accepted
  have size : (UInt32.ofNat (state.imageEnd - gmProgramBase)).toNat =
      state.imageEnd - gmProgramBase :=
    UInt32.toNat_ofNat_of_lt' (by
      change _ < 4294967296
      unfold gmProgramBase gmProgramImageMax at *
      omega)
  rw [size] at within
  refine ⟨eh, state.image, header, ⟨?_, packing.holds, ?_, ?_, ?_,
    packing.entry exec, arch, archName, known, rfl⟩⟩
  · simp only [size]
    omega
  · intro apart place behind
    simp only [size] at behind
    apply (packing.holds apart).elsewhere
    intro ph member covers
    have before := packing.ends ph member _ covers
    omega
  · simp only
    omega
  · simp only [size]
    omega

theorem gmPackSegment_ne_overrun (file : List UInt8) (eh : Elf64Ehdr)
    (index : Nat) (state : GmPackState) :
    gmPackSegment file eh index state ≠ .error .overrun := by
  unfold gmPackSegment
  split
  · nofun
  rename_i ph _
  split
  · nofun
  cases outside : ph.outside with
  | true =>
    rw [if_pos rfl]
    nofun
  | false =>
    rw [if_neg Bool.false_ne_true]
    have fits := Elf64Phdr.fits_of_not_outside outside
    rcases gmPackCopy_cases fits with unread | ⟨data, after, copied, _⟩
    · rw [unread]
      nofun
    · rw [copied]
      nofun

theorem gmpack_never_overruns (file : List UInt8) :
    gmpack file ≠ .error .overrun := by
  unfold gmpack
  split
  · nofun
  split
  · nofun
  split
  · nofun
  split
  · nofun
  split
  · rename_i stop ran
    intro failed
    cases failed
    exact runSteps_ne_error (gmPackSegment_ne_overrun file _) _ _ ran
  · unfold gmPackFinish
    split
    · nofun
    simp only
    split
    · nofun
    · nofun

/-! ## Loading -/

/-- A store that serves a file faithfully, from every state it can get into. -/
structure Serves {σ : Type} (calls : GmStoreCalls σ) (path : List UInt8)
    (file : List UInt8) (Ready : σ → Prop) : Prop where
  connect : ∀ state, Ready state → calls.connected state = true ∨
    ((calls.connect state).1 = true ∧ Ready (calls.connect state).2)
  size : ∀ state, Ready state → ∃ after,
    calls.size path state = (some (UInt64.ofNat file.length), after) ∧
      Ready after
  read : ∀ state, Ready state → ∀ (offset : UInt64) (len : Nat),
    len ≤ gmStoreBlock → ∃ after, calls.read path offset len state =
      (some ((file.drop offset.toNat).take len), after) ∧ Ready after

/-- The bytes of a header. -/
def gmHeaderBytes (header : GmImageHeader) : List UInt8 :=
  gmPut32 header.magic ++ gmPut32 header.api ++ gmPut32 header.arch ++
    gmPut32 header.imageSize ++ gmPut32 header.entry ++ gmPut32 header.checksum

theorem gmHeaderOf_bytes (header : GmImageHeader) :
    gmHeaderOf (gmHeaderBytes header) = header := by
  obtain ⟨magic, api, arch, size, entry, checksum⟩ := header
  rw [gmHeaderOf, GmImageHeader.mk.injEq]
  refine ⟨gmU32_put32 magic (gmPut32 api ++ gmPut32 arch ++ gmPut32 size ++
      gmPut32 entry ++ gmPut32 checksum),
    gmU32_put32 api (gmPut32 arch ++ gmPut32 size ++ gmPut32 entry ++
      gmPut32 checksum),
    gmU32_put32 arch (gmPut32 size ++ gmPut32 entry ++ gmPut32 checksum),
    gmU32_put32 size (gmPut32 entry ++ gmPut32 checksum),
    gmU32_put32 entry (gmPut32 checksum), gmU32_put32 checksum []⟩

theorem gmHeaderBytes_length (header : GmImageHeader) :
    (gmHeaderBytes header).length = gmProgramHeaderSize := rfl

section Load

variable {σ : Type} {calls : GmStoreCalls σ} {path file : List UInt8}
  {Ready : σ → Prop} (serves : Serves calls path file Ready)
include serves

/-- The blocks add up to what stands behind the header. -/
theorem gmLoadBlocks_serves (behind : file.drop gmProgramHeaderSize = data)
    (fits : data.length ≤ gmProgramImageMax) (fuel offset remain : Nat)
    (arena : GmArena) {state : σ} (ready : Ready state)
    (total : offset + remain = data.length) (enough : remain ≤ fuel)
    (held : (Area.zero gmProgramImageMax).store 0 (data.take offset) =
      some arena.image) :
    ∃ image after, gmLoadBlocks calls path fuel offset remain arena state =
        (true, { arena with image := image }, after) ∧
      (Area.zero gmProgramImageMax).store 0 data = some image := by
  induction fuel generalizing offset remain arena state with
  | zero =>
    obtain rfl : remain = 0 := by omega
    rw [List.take_of_length_le (by omega)] at held
    exact ⟨arena.image, state, rfl, held⟩
  | succ fuel induction =>
    cases remain with
    | zero =>
      rw [List.take_of_length_le (by omega)] at held
      exact ⟨arena.image, state, rfl, held⟩
    | succ remain =>
      rw [gmLoadBlocks]
      have want : (if gmStoreBlock < remain + 1 then gmStoreBlock
          else remain + 1) = min gmStoreBlock (remain + 1) := by
        split <;> omega
      simp only [want]
      generalize isWant : min gmStoreBlock (remain + 1) = want
      obtain ⟨after, read, stillReady⟩ := serves.read state ready
        (UInt64.ofNat (gmProgramHeaderSize + offset)) want (by omega)
      have place : (UInt64.ofNat (gmProgramHeaderSize + offset)).toNat =
          gmProgramHeaderSize + offset :=
        UInt64.toNat_ofNat_of_lt' (by
          change _ < 18446744073709551616
          unfold gmProgramHeaderSize gmProgramImageMax at *
          omega)
      have block : (file.drop (UInt64.ofNat (gmProgramHeaderSize +
          offset)).toNat).take want = (data.drop offset).take want := by
        rw [place, ← behind, List.drop_drop]
      have length : ((data.drop offset).take want).length = want := by
        rw [List.length_take, List.length_drop]
        omega
      rw [block] at read
      have piece : ((data.drop offset).take want).take want =
          (data.drop offset).take want := by
        rw [List.take_take, Nat.min_self]
      obtain ⟨image, stored⟩ := arena.image.store_isSome
        (show offset + ((data.drop offset).take want).length ≤
          gmProgramImageMax by omega)
      simp only [read, piece, stored, length, ne_eq, not_true_eq_false,
        if_false]
      have positive : 0 < gmStoreBlock := by decide
      apply induction _ _ _ stillReady (by omega) (by omega)
      rw [List.take_add]
      have start : (data.take offset).length = offset := by
        rw [List.length_take]
        omega
      refine Area.store_append held ?_
      rw [start, Nat.zero_add]
      exact stored

/-- The loader accepts a file whose header fits it, and the slot then holds the
image and nothing else. -/
theorem gmProgramLoad_serves {image : Area gmProgramImageMax}
    {header : GmImageHeader} (arena : GmArena) {state : σ}
    (ready : Ready state)
    (bytes : file = gmHeaderBytes header ++
      image.first header.imageSize.toNat)
    (accepted : header.accepted file.length = true)
    (checksum : header.checksum =
      gmImageChecksum (image.first header.imageSize.toNat))
    (behind : ∀ place : Fin gmProgramImageMax,
      header.imageSize.toNat ≤ place.val → image place = 0) :
    ∃ after, gmProgramLoad calls path arena state =
      (some header, { gmProgramClear with image := image }, after) := by
  have facts := accepted
  simp only [GmImageHeader.accepted, Bool.and_eq_true, decide_eq_true_eq]
    at facts
  obtain ⟨⟨⟨_, fits⟩, total⟩, _⟩ := facts
  have small : file.length < 2 ^ 64 := by
    unfold gmProgramHeaderSize gmProgramImageMax at *
    omega
  have fileSize : (UInt64.ofNat file.length).toNat = file.length :=
    UInt64.toNat_ofNat_of_lt' small
  have top : (file.drop (0 : UInt64).toNat).take gmProgramHeaderSize =
      gmHeaderBytes header := by
    rw [UInt64.toNat_zero, List.drop_zero, bytes,
      List.take_left' (gmHeaderBytes_length header)]
  have rest : file.drop gmProgramHeaderSize =
      image.first header.imageSize.toNat := by
    rw [bytes, List.drop_left' (gmHeaderBytes_length header)]
  have length : (image.first header.imageSize.toNat).length =
      header.imageSize.toNat := by
    simp [Area.first]
  -- The connection, the size of the file, and its header.
  obtain ⟨online, connected, onlineReady⟩ : ∃ online,
      (if calls.connected state then (true, state) else calls.connect state) =
        (true, online) ∧ Ready online := by
    rcases serves.connect state ready with before | ⟨now, after⟩
    · exact ⟨state, if_pos before, ready⟩
    · by_cases before : calls.connected state = true
      · exact ⟨state, if_pos before, ready⟩
      · refine ⟨(calls.connect state).2, ?_, after⟩
        rw [if_neg before, ← now]
  obtain ⟨sized, size, sizedReady⟩ := serves.size online onlineReady
  obtain ⟨opened, head, openedReady⟩ :=
    serves.read sized sizedReady 0 gmProgramHeaderSize (by decide)
  rw [top] at head
  -- The blocks behind it.
  obtain ⟨loaded, after, blocks, stored⟩ := gmLoadBlocks_serves serves rest
    (show _ ≤ gmProgramImageMax by omega) header.imageSize.toNat 0
    header.imageSize.toNat gmProgramClear openedReady (by omega)
    (Nat.le_refl _) (Area.store_nil _ (Nat.zero_le _))
  rw [Area.store_first image fits behind, Option.some_inj] at stored
  subst stored
  refine ⟨after, ?_⟩
  have sizeFits : ¬ ((UInt64.ofNat file.length).toNat < gmProgramHeaderSize ∨
      gmProgramHeaderSize + gmProgramImageMax <
        (UInt64.ofNat file.length).toNat) := by
    rw [fileSize]
    omega
  unfold gmProgramLoad
  simp only [connected, Bool.true_eq_false, if_false, size, if_neg sizeFits,
    head]
  rw [if_neg (by simp [gmHeaderBytes_length]), gmHeaderOf_bytes, fileSize,
    accepted]
  simp only [Bool.true_eq_false, if_false, blocks]
  rw [if_neg (by simp [checksum])]

end Load

/-- No file makes `gmpack` write outside its image buffer.  If it accepts a file
for this machine whose loadable segments do not overlap, and a store serves the
packed file, then the loader accepts it, whatever the slot held before, and the
slot holds the memory image of the ELF file; the program starts at its entry,
which lies in an executable segment and inside the image. -/
theorem gmpack_loads :
    (∀ file, gmpack file ≠ .error .overrun) ∧
    ∀ (file : List UInt8) (eh : Elf64Ehdr) (packed : GmPacked),
      gmpack file = .ok packed → elfHeader file = some eh →
      eh.machine = emX8664 →
      Apart (elfLoads file eh (List.range eh.phnum)) →
      ∀ (σ : Type) (calls : GmStoreCalls σ) (path : List UInt8)
        (Ready : σ → Prop), Serves calls path packed.bytes Ready →
      ∀ (state : σ), Ready state → ∀ arena : GmArena,
      ∃ header loaded after,
        gmProgramLoad calls path arena state =
          (some header, loaded, after) ∧
        HoldsImage file (elfLoads file eh (List.range eh.phnum))
          loaded.image ∧
        (∀ argLen, (Programs.gmStartContext argLen header.entry.toNat).rip =
          UInt64.ofNat eh.entry) ∧
        (∃ ph ∈ elfLoads file eh (List.range eh.phnum),
          ph.executable = true ∧ ph.Covers eh.entry) ∧
        header.entry.toNat < header.imageSize.toNat ∧
        header.imageSize.toNat ≤ gmProgramImageMax := by
  refine ⟨gmpack_never_overruns, ?_⟩
  intro file eh packed accepted isHeader native apart σ calls path Ready serves
    state ready arena
  obtain ⟨other, image, sameHeader, packedFrom⟩ := gmpack_from accepted
  obtain rfl : eh = other :=
    Option.some_inj.mp (isHeader.symm.trans sameHeader)
  obtain ⟨arch, archName, known, bytes⟩ := packedFrom.bytes
  obtain ⟨positive, fits⟩ := packedFrom.size
  have within := packedFrom.within
  obtain rfl : arch = gmArchNative := by
    rw [native] at known
    exact (Prod.mk.inj (Option.some_inj.mp known)).1.symm
  have entry : (UInt32.ofNat packed.entry).toNat = packed.entry :=
    UInt32.toNat_ofNat_of_lt' (by
      change _ < 4294967296
      unfold gmProgramImageMax at fits
      omega)
  let header : GmImageHeader :=
    { magic := gmImageMagic
      api := gmApiVersion
      arch := gmArchNative
      imageSize := packed.imageSize
      entry := UInt32.ofNat packed.entry
      checksum := gmChecksum (image.first packed.imageSize.toNat) }
  have magic : gmPut32 gmImageMagic = ascii "GM01" := by decide
  have layout : packed.bytes = gmHeaderBytes header ++
      image.first header.imageSize.toNat := by
    rw [bytes, gmHeaderBytes, magic]
  have length : packed.bytes.length =
      gmProgramHeaderSize + packed.imageSize.toNat := by
    rw [layout, List.length_append, gmHeaderBytes_length]
    simp [Area.first, header]
  have passes : header.accepted packed.bytes.length = true := by
    have nonzero : packed.imageSize ≠ 0 := by
      rintro zero
      rw [zero] at positive
      exact absurd positive (by decide)
    have inside : UInt32.ofNat packed.entry < packed.imageSize := by
      rw [UInt32.lt_iff_toNat_lt, entry]
      exact within
    simp [GmImageHeader.accepted, header, length, nonzero, inside, fits]
  obtain ⟨after, loads⟩ := gmProgramLoad_serves serves arena ready layout passes
    rfl (packedFrom.behind apart)
  refine ⟨header, _, after, loads, packedFrom.holds apart, ?_,
    packedFrom.executable, ?_, fits⟩
  · intro argLen
    rw [Programs.gmStartContext, ← packedFrom.entry, entry]
  · rw [entry]
    exact within

/-- A number in eight bytes, the lowest first. -/
def le64 (value : Nat) : List UInt8 :=
  (List.range 8).map fun index => UInt8.ofNat (value / 256 ^ index)

def demoPhdr (flags : UInt8) (offset vaddr filesz memsz : Nat) : List UInt8 :=
  [1, 0, 0, 0, flags, 0, 0, 0] ++ le64 offset ++ le64 vaddr ++ le64 vaddr ++
    le64 filesz ++ le64 memsz ++ le64 1

/-- An executable with code and a data segment that grows in memory. -/
def demoElf : List UInt8 :=
  [127, 69, 76, 70, 2, 1, 1, 0] ++ le64 0 ++ [2, 0, 62, 0, 1, 0, 0, 0] ++
    le64 gmProgramBase ++ le64 64 ++ le64 0 ++
    [0, 0, 0, 0, 64, 0, 56, 0, 2, 0, 0, 0, 0, 0, 0, 0] ++
    demoPhdr 5 176 gmProgramBase 3 3 ++
    demoPhdr 6 179 (gmProgramBase + 4) 1 4 ++ [144, 144, 195, 42]

def demoHeader : Elf64Ehdr where
  ident := [127, 69, 76, 70, 2, 1, 1, 0, 0, 0, 0, 0, 0, 0, 0, 0]
  type := 2
  machine := emX8664
  version := 1
  entry := gmProgramBase
  phoff := 64
  phentsize := 56
  phnum := 2

def demoPacked : GmPacked where
  archName := ascii "x86_64"
  imageSize := 8
  entry := 0
  checksum := 2609169940
  bytes := ascii "GM01" ++ gmPut32 2 ++ gmPut32 1 ++ gmPut32 8 ++ gmPut32 0 ++
    gmPut32 2609169940 ++ [144, 144, 195, 0, 42, 0, 0, 0]

/-- A store in which every path is the given file. -/
def demoCalls (file : List UInt8) : GmStoreCalls Unit where
  connected _ := false
  connect state := (true, state)
  size _ state := (some (UInt64.ofNat file.length), state)
  read _ offset len state :=
    (some ((file.drop offset.toNat).take len), state)

theorem demoCalls_serves (path file : List UInt8) :
    Serves (demoCalls file) path file fun _ => True where
  connect _ _ := .inr ⟨rfl, trivial⟩
  size state _ := ⟨state, rfl, trivial⟩
  read state _ _ _ _ := ⟨state, rfl, trivial⟩

/-- A slot that another program has used. -/
def usedArena : GmArena :=
  ⟨fun _ => 255, fun _ => 255, fun _ => 255⟩

theorem gmpack_loads_demo :
    gmpack demoElf = .ok demoPacked ∧
    ∃ header loaded after,
      gmProgramLoad (demoCalls demoPacked.bytes)
          (ascii "/programs/x86_64/demo.gm") usedArena () =
        (some header, loaded, after) ∧
      HoldsImage demoElf (elfLoads demoElf demoHeader [0, 1]) loaded.image := by
  have packs : gmpack demoElf = .ok demoPacked := by decide +kernel
  have loads : elfLoads demoElf demoHeader (List.range demoHeader.phnum) =
      [⟨1, 5, 176, gmProgramBase, 3, 3⟩,
        ⟨1, 6, 179, gmProgramBase + 4, 1, 4⟩] := by
    decide +kernel
  have apart : Apart
      (elfLoads demoElf demoHeader (List.range demoHeader.phnum)) := by
    rw [loads]
    simp only [Apart, Elf64Phdr.Covers, List.pairwise_cons, List.mem_singleton]
    refine ⟨?_, by simp⟩
    rintro _ rfl addr
    simp only
    omega
  obtain ⟨header, loaded, after, loads, holds, _⟩ := gmpack_loads.2 demoElf
    demoHeader demoPacked packs (by decide +kernel) rfl apart Unit
    (demoCalls demoPacked.bytes) (ascii "/programs/x86_64/demo.gm")
    (fun _ => True) (demoCalls_serves _ _) () trivial usedArena
  exact ⟨packs, header, loaded, after, loads, holds⟩

end Gmker.Image
