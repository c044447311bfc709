import Gmker.Foundation.ByteAreas
import Gmker.Image.Format

/-!
# The loader

`gm_program_load` of `programs.c`.  It reaches the store through
`gm_tcp_connected`, `gm_store_connect`, `gm_store_size` and `gm_store_read`,
which are parameters here, with a state of their own.
-/

namespace Gmker.Image

open Foundation

/-- The calls of the store client. -/
structure GmStoreCalls (σ : Type) where
  connected : σ → Bool
  connect : σ → Bool × σ
  size : List UInt8 → σ → Option UInt64 × σ
  read : List UInt8 → UInt64 → Nat → σ → Option (List UInt8) × σ

/-- The memory of a slot. -/
structure GmArena where
  image : Area gmProgramImageMax
  arg : Area gmProgramArgSize
  stack : Area gmProgramStackSize

/-- `gm_program_clear`. -/
def gmProgramClear : GmArena where
  image := .zero gmProgramImageMax
  arg := .zero gmProgramArgSize
  stack := .zero gmProgramStackSize

section Load

variable {σ : Type} (calls : GmStoreCalls σ) (path : List UInt8)

/-- The transfer loop of `gm_program_load`; `fuel` bounds its rounds. -/
def gmLoadBlocks : Nat → Nat → Nat → GmArena → σ → Bool × GmArena × σ
  | _, _, 0, arena, state => (true, arena, state)
  | 0, _, _ + 1, arena, state => (false, arena, state)
  | fuel + 1, offset, remain + 1, arena, state =>
    let want := if gmStoreBlock < remain + 1 then gmStoreBlock else remain + 1
    match calls.read path (UInt64.ofNat (gmProgramHeaderSize + offset)) want
        state with
    | (none, state) => (false, arena, state)
    | (some data, state) =>
      -- `gm_store_read` never writes more than it was asked for.
      match arena.image.store offset (data.take want) with
      | none => (false, arena, state)
      | some image =>
        if data.length ≠ want then
          (false, { arena with image := image }, state)
        else
          gmLoadBlocks fuel (offset + want) (remain + 1 - want)
            { arena with image := image } state

/-- The tests of a header against the size of the file. -/
def GmImageHeader.accepted (header : GmImageHeader) (fileSize : Nat) : Bool :=
  header.magic = gmImageMagic && header.api = gmApiVersion &&
    header.arch = gmArchNative && header.imageSize ≠ 0 &&
    header.imageSize.toNat ≤ gmProgramImageMax &&
    fileSize = gmProgramHeaderSize + header.imageSize.toNat &&
    header.entry < header.imageSize

/-- `gm_program_load` for the current slot. -/
def gmProgramLoad (arena : GmArena) (state : σ) :
    Option GmImageHeader × GmArena × σ :=
  let (ready, state) :=
    if calls.connected state then (true, state) else calls.connect state
  if ready = false then (none, arena, state)
  else
    match calls.size path state with
    | (none, state) => (none, arena, state)
    | (some fileSize, state) =>
      if fileSize.toNat < gmProgramHeaderSize ∨
          gmProgramHeaderSize + gmProgramImageMax < fileSize.toNat then
        (none, arena, state)
      else
        match calls.read path 0 gmProgramHeaderSize state with
        | (none, state) => (none, arena, state)
        | (some raw, state) =>
          if raw.length ≠ gmProgramHeaderSize then (none, arena, state)
          else
            let header := gmHeaderOf raw
            if header.accepted fileSize.toNat = false then
              (none, arena, state)
            else
              let payload := header.imageSize.toNat
              match gmLoadBlocks calls path payload 0 payload gmProgramClear
                  state with
              | (false, arena, state) => (none, arena, state)
              | (true, arena, state) =>
                if gmImageChecksum (arena.image.first payload) ≠
                    header.checksum then (none, arena, state)
                else (some header, arena, state)

end Load

end Gmker.Image
