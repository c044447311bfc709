import Gmker.Foundation.ByteAreas
import Gmker.Foundation.Runs
import Gmker.Image.Format

/-!
# The packer

`gmpack.c`: the loadable segments of an ELF64 executable are copied into a flat
image behind a GM01 header.  An input file is the list of its bytes.  A copy that
would leave the image buffer is an outcome of its own, so that it can be shown
never to happen.
-/

namespace Gmker.Image

open Foundation

/-! ## ELF64 -/

/-- A number stored with its lowest byte first. -/
def leNumber : List UInt8 → Nat
  | [] => 0
  | byte :: bytes => byte.toNat + 256 * leNumber bytes

def leField (raw : List UInt8) (offset width : Nat) : Nat :=
  leNumber ((raw.drop offset).take width)

/-- The fields of `Elf64_Ehdr` that are used. -/
structure Elf64Ehdr where
  ident : List UInt8
  type : Nat
  machine : Nat
  version : Nat
  entry : Nat
  phoff : Nat
  phentsize : Nat
  phnum : Nat
  deriving DecidableEq, Repr

abbrev elf64EhdrSize : Nat := 64

def elf64Ehdr (raw : List UInt8) : Elf64Ehdr where
  ident := raw.take 16
  type := leField raw 16 2
  machine := leField raw 18 2
  version := leField raw 20 4
  entry := leField raw 24 8
  phoff := leField raw 32 8
  phentsize := leField raw 54 2
  phnum := leField raw 56 2

/-- The fields of `Elf64_Phdr` that are used. -/
structure Elf64Phdr where
  type : Nat
  flags : Nat
  offset : Nat
  vaddr : Nat
  filesz : Nat
  memsz : Nat
  deriving DecidableEq, Repr

abbrev elf64PhdrSize : Nat := 56

def elf64Phdr (raw : List UInt8) : Elf64Phdr where
  type := leField raw 0 4
  flags := leField raw 4 4
  offset := leField raw 8 8
  vaddr := leField raw 16 8
  filesz := leField raw 32 8
  memsz := leField raw 40 8

abbrev ptLoad : Nat := 1

abbrev emX8664 : Nat := 62
abbrev emAarch64 : Nat := 183
abbrev emRiscv : Nat := 243

/-- `PF_X` is set. -/
def Elf64Phdr.executable (ph : Elf64Phdr) : Bool := ph.flags % 2 = 1

/-! ## Packing -/

/-- `gm_read`.  The offset is cast to `long`, and `fseek` refuses a negative
one. -/
def gmRead (file : List UInt8) (len offset : Nat) : Option (List UInt8) :=
  if 2 ^ 63 ≤ offset then none
  else
    let data := (file.drop offset).take len
    if data.length = len then some data else none

/-- `gm_arch`. -/
def gmArch (machine : Nat) : Option (UInt32 × List UInt8) :=
  if machine = emX8664 then some (gmArchX8664, ascii "x86_64")
  else if machine = emAarch64 then some (gmArchAarch64, ascii "aarch64")
  else if machine = emRiscv then some (gmArchRiscv64, ascii "riscv64")
  else none

inductive GmPackError where
  | invalidElf
  | entryOutside
  | headerRead
  | segmentOutside
  | segmentRead
  | noEntryImage
  | invalidEntry
  deriving DecidableEq, Repr

/-- How the packer ends without an image: with a message, or with a write
outside its buffer. -/
inductive GmPackStop where
  | refused (error : GmPackError)
  | overrun
  deriving DecidableEq, Repr

/-- The test of the ELF header in `main`. -/
def Elf64Ehdr.valid (eh : Elf64Ehdr) : Bool :=
  eh.ident.take 4 = [127, 69, 76, 70] && eh.ident.getD 4 0 = 2 &&
    eh.ident.getD 5 0 = 1 && eh.ident.getD 6 0 = 1 && eh.type = 2 &&
    eh.version = 1 && eh.phnum ≠ 0 && eh.phentsize = elf64PhdrSize

/-- What the loop of `main` works on. -/
structure GmPackState where
  image : Area gmProgramImageMax := .zero gmProgramImageMax
  imageEnd : Nat := gmProgramBase
  found : Bool := false
  entryExec : Bool := false

/-- The test of a segment. -/
def Elf64Phdr.outside (ph : Elf64Phdr) : Bool :=
  let segEnd := (ph.vaddr + ph.memsz) % 2 ^ 64
  ph.vaddr < gmProgramBase || gmProgramBase + gmProgramImageMax < ph.vaddr ||
    gmProgramImageMax < ph.memsz || segEnd < ph.vaddr ||
    gmProgramBase + gmProgramImageMax < segEnd || ph.memsz < ph.filesz

/-- The buffer takes bytes of a file. -/
def gmPackFill (image : Area gmProgramImageMax) (off : Nat)
    (data : List UInt8) : Except GmPackStop (Area gmProgramImageMax) :=
  match image.store off data with
  | none => .error .overrun
  | some image => .ok image

/-- The bytes of a segment are read into the image.  `fread` fills the buffer
while it reads, so the room counts before the outcome does. -/
def gmPackCopy (file : List UInt8) (ph : Elf64Phdr)
    (image : Area gmProgramImageMax) :
    Except GmPackStop (Area gmProgramImageMax) :=
  let off := ph.vaddr - gmProgramBase
  if ph.filesz = 0 then .ok image
  else if gmProgramImageMax < off + ph.filesz then .error .overrun
  else
    match gmRead file ph.filesz ph.offset with
    | none => .error (.refused .segmentRead)
    | some data => gmPackFill image off data

/-- An entry of the program header table. -/
def gmPackHeader (file : List UInt8) (eh : Elf64Ehdr) (index : Nat) :
    Option Elf64Phdr :=
  (gmRead file elf64PhdrSize ((eh.phoff + index * eh.phentsize) % 2 ^ 64)).map
    elf64Phdr

/-- One round of the loop of `main`. -/
def gmPackSegment (file : List UInt8) (eh : Elf64Ehdr) (index : Nat)
    (state : GmPackState) : Except GmPackStop GmPackState :=
  match gmPackHeader file eh index with
  | none => .error (.refused .headerRead)
  | some ph =>
    if ph.type ≠ ptLoad ∨ ph.memsz = 0 then .ok state
    else if ph.outside then .error (.refused .segmentOutside)
    else
      match gmPackCopy file ph state.image with
      | .error stop => .error stop
      | .ok image =>
        let segEnd := (ph.vaddr + ph.memsz) % 2 ^ 64
        .ok
          { image := image
            imageEnd :=
              if state.imageEnd < segEnd then segEnd else state.imageEnd
            found := true
            entryExec := state.entryExec ||
              (ph.executable && ph.vaddr ≤ eh.entry && eh.entry < segEnd) }

/-- The file that is written, and the figures that are printed. -/
structure GmPacked where
  archName : List UInt8
  imageSize : UInt32
  entry : Nat
  checksum : UInt32
  bytes : List UInt8
  deriving DecidableEq, Repr

/-- `main` behind its loop. -/
def gmPackFinish (eh : Elf64Ehdr) (arch : UInt32) (archName : List UInt8)
    (state : GmPackState) : Except GmPackStop GmPacked :=
  if state.found = false ∨ state.entryExec = false ∨
      state.imageEnd ≤ gmProgramBase then
    .error (.refused .noEntryImage)
  else
    let imageSize := UInt32.ofNat (state.imageEnd - gmProgramBase)
    let entry := eh.entry - gmProgramBase
    if imageSize.toNat ≤ entry then .error (.refused .invalidEntry)
    else
      let image := state.image.first imageSize.toNat
      let checksum := gmChecksum image
      .ok
        { archName := archName
          imageSize := imageSize
          entry := entry
          checksum := checksum
          bytes := ascii "GM01" ++ gmPut32 gmApiVersion ++ gmPut32 arch ++
            gmPut32 imageSize ++ gmPut32 (UInt32.ofNat entry) ++
            gmPut32 checksum ++ image }

/-- The ELF header of a file. -/
def elfHeader (file : List UInt8) : Option Elf64Ehdr :=
  (gmRead file elf64EhdrSize 0).map elf64Ehdr

/-- `main` of `gmpack.c`. -/
def gmpack (file : List UInt8) : Except GmPackStop GmPacked :=
  match elfHeader file with
  | none => .error (.refused .invalidElf)
  | some eh =>
    match gmArch eh.machine with
    | none => .error (.refused .invalidElf)
    | some (arch, archName) =>
      if eh.valid = false then .error (.refused .invalidElf)
      else if eh.entry < gmProgramBase ∨
          gmProgramBase + gmProgramImageMax ≤ eh.entry then
        .error (.refused .entryOutside)
      else
        match runSteps (gmPackSegment file eh) (List.range eh.phnum) {}
          with
        | .error stop => .error stop
        | .ok state => gmPackFinish eh arch archName state

end Gmker.Image
