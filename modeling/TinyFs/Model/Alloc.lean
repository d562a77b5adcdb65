/-
The bitmap and the volume as a whole: `load_bitmap`, `alloc_block`,
`free_block`, `free_file_blocks`, `tfs_init`, `tfs_format`, `tfs_get_used`.
-/
import TinyFs.Model.Types

namespace TinyFs

open Bytes

def loadBitmap (e : Env) (pos : Nat) : M Unit := do
  driveReadBlock e pos .bitmapBlk
  Prog.modify fun s =>
    if s.tfsLastError ≠ .ok then { s with loadedBitmapBlk := bitmapBlkInval }
    else { s with loadedBitmapBlk := pos }

/-- The `for` loop over the masks, `maskOf j` for bit `j`: the first clear bit of a byte. -/
def clearMask (p : UInt8) : List Nat → Option Nat
  | [] => none
  | j :: js => if p &&& maskOf j = 0 then some j else clearMask p js

/-- The `for` loop over the bytes: the byte and the bit the search stops at. -/
def searchBitmap (b : Block) : List Nat → Option (Nat × Nat)
  | [] => none
  | i :: is =>
    if b.get i ≠ 0xff then
      match clearMask (b.get i) (List.range 8) with
      | some j => some (i, j)
      | none => searchBitmap b is
    else searchBitmap b is

/-- `next_bitmap:` the search goes on with the next bitmap block, from the end of
the disk to its start, and stops where it began. -/
def nextBitmap (e : Env) (start pos : Nat) (search : Nat → M Nat) : M Nat := do
  let s ← Prog.gets id
  let pos := if pos = s.lastBitmapBlk then firstBitmapBlk else (pos + bitmapBlkCount) % 2 ^ 32
  if pos = start then
    Prog.modify fun s => { s with loadedBitmapBlk := bitmapBlkInval }
    setErr .diskFull
    pure 0
  else
    loadBitmap e pos
    ifOk 0 (search pos)

/-- One iteration of the outer loop of `alloc_block`; `search` is the next one. -/
def allocStep (e : Env) (start pos : Nat) (search : Nat → M Nat) : M Nat := do
  let s ← Prog.gets id
  match searchBitmap s.bitmapBlk (List.range 512) with
  | none => nextBitmap e start pos search
  | some (i, j) =>
    let block := pos + 8 * i + j
    -- the rest of this bitmap block is past the end of the disk
    if block ≥ s.blkCount then nextBitmap e start pos search
    else
      Prog.modify fun s => { s with bitmapBlk := s.bitmapBlk.set i (s.bitmapBlk.get i ||| maskOf j) }
      driveWriteBlock e s.loadedBitmapBlk .bitmapBlk
      ifOk 0 (pure block)

def allocLoop (e : Env) (start : Nat) : Nat → Nat → M Nat
  | 0, _ => Prog.noFuel
  | n + 1, pos => allocStep e start pos (allocLoop e start n)

def allocBlock (e : Env) : M Nat := do
  let s ← Prog.gets id
  if s.loadedBitmapBlk = bitmapBlkInval then
    setErr .diskFull
    pure 0
  else allocLoop e s.loadedBitmapBlk e.fuel s.loadedBitmapBlk

def freeBlock (e : Env) (pos : Nat) : M Unit := do
  let s ← Prog.gets id
  let tmp := getBitmapBlk pos
  let release : M Unit := do
    let offset := pos % bitmapBlkCount
    Prog.modify fun s => { s with
      bitmapBlk := s.bitmapBlk.set (offset / 8) (s.bitmapBlk.get (offset / 8) &&& ~~~maskOf (offset % 8)) }
    let s ← Prog.gets id
    driveWriteBlock e s.loadedBitmapBlk .bitmapBlk
  if s.loadedBitmapBlk ≠ tmp then
    loadBitmap e tmp
    ifOk () release
  else release

/-- The loop of `free_file_blocks`. -/
def freeFileBlocksLoop (e : Env) : Nat → Nat → M Unit
  | 0, _ => Prog.noFuel
  | n + 1, pos =>
    if pos = 0 then pure () else do
      driveReadBlock e pos .blkBuf
      ifOk () do
        freeBlock e pos
        ifOk () do
          let b ← blkBuf
          freeFileBlocksLoop e n b.next

def freeFileBlocks (e : Env) (pos : Nat) : M Unit := freeFileBlocksLoop e e.fuel pos

def tfsInit (e : Env) : M Unit := do
  Prog.modify fun s => { s with handles := fun fd => if fd < e.maxFds then Handle.zero else s.handles fd }
  setErr .ok
  driveInit e
  ifOk () do
    driveSelect
    Prog.modify fun s =>
      let last := (s.blkCount + 2 ^ 32 - 1) % 2 ^ 32
      { s with lastBitmapLen := last % bitmapBlkCount + 1, lastBitmapBlk := getBitmapBlk last }
    out do
      loadBitmap e firstBitmapBlk
      ifOk () do
        Prog.modify fun s => { s with currentDirBlk := rootDirBlk, loadedDirBlk := 0 }

/-- The bits after the end of the disk set in the last bitmap block. The store of
`mask` at index 512, for a disk of a multiple of 4096 blocks, is outside the
array and changes nothing in it. -/
def markPastEnd (len : Nat) (b : Block) : Block :=
  let mask := UInt8.ofNat (255 * 2 ^ (len % 8))
  let offset := len / 8
  (b.set offset (b.get offset ||| mask)).fill (offset + 1) (fun _ => 0xff) (512 - (offset + 1))

/-- The `while` loop of `tfs_format`. -/
def formatLoop (e : Env) : Nat → Nat → M Unit
  | 0, _ => Prog.noFuel
  | n + 1, pos => do
    let s ← Prog.gets id
    let last := pos = s.lastBitmapBlk
    if last then Prog.modify fun s => { s with bitmapBlk := markPastEnd s.lastBitmapLen s.bitmapBlk }
    driveWriteBlock e pos .bitmapBlk
    ifOk () do
      if last then pure () else formatLoop e n ((pos + bitmapBlkCount) % 2 ^ 32)

def tfsFormat (e : Env) : M Unit := enter () <| out do
  Prog.modify fun s => { s with bitmapBlk := Buf.zero.set 0 1 }
  formatLoop e e.fuel firstBitmapBlk
  ifOk () do
    loadBitmap e firstBitmapBlk
    ifOk () do
      let pos ← allocBlock e
      ifOk () do
        modifyBuf fun _ => Buf.zero
        driveWriteBlock e pos .blkBuf
        ifOk () do
          Prog.modify fun s => { s with currentDirBlk := rootDirBlk, loadedDirBlk := 0 }

/-- The `for` loops of `tfs_get_used`: the set bits of a bitmap block. -/
def countUsed (b : Block) : Nat :=
  ((List.range 512).map fun i =>
    if b.get i > 0 then ((List.range 8).filter fun j => b.get i &&& maskOf j ≠ 0).length else 0).sum

/-- The `while` loop of `tfs_get_used`; `none` when a bitmap block could not be read. -/
def getUsedLoop (e : Env) : Nat → Nat → Nat → M (Option Nat)
  | 0, _, _ => Prog.noFuel
  | n + 1, pos, used => do
    loadBitmap e pos
    ifOk none do
      let s ← Prog.gets id
      let used := used + countUsed s.bitmapBlk
      if pos = s.lastBitmapBlk then
        loadBitmap e firstBitmapBlk
        -- blocks after the end of the disk are marked as used, so they are subtracted
        pure (some ((used + 2 ^ 32 - (bitmapBlkCount - s.lastBitmapLen)) % 2 ^ 32))
      else getUsedLoop e n ((pos + bitmapBlkCount) % 2 ^ 32) used

def tfsGetUsed (e : Env) : M Nat := enter 0 <| out do
  let used ← getUsedLoop e e.fuel firstBitmapBlk 0
  pure (used.getD 0)

end TinyFs
