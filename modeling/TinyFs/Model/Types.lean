/-
The data of `filesys.c`: its constants, the three readings of a 512-byte
block, the static variables, and the drive the file system calls.

The build is the Linux one (`linux/filesys_conf.h`): `TFS_EXTENDED_API` is
defined, `size_t` has 64 bits, fields are little endian. The basic API is the
same code with no handle ever opened and type 0 given to `tfs_delete`. A
`uint32_t` is a `Nat`, reduced modulo 2^32 wherever the code's arithmetic can
leave the range.
-/
import Mathlib.Logic.Function.Basic
import TinyFs.Lib.Buf
import TinyFs.Lib.Prog

namespace TinyFs

open Bytes

/-! ## Constants -/

def rootDirBlk : Nat := 1
def firstBitmapBlk : Nat := 0
/-- `TFS_DATA_LEN` -/
def dataLen : Nat := 504
/-- `TFS_DIR_BLK_ITEMS` -/
def dirBlkItems : Nat := 20
/-- `TFS_NAME_LEN` -/
def nameLen : Nat := 16
/-- `TFS_BITMAP_BLK_INVAL` -/
def bitmapBlkInval : Nat := 0xffffffff
/-- `TFS_BITMAP_BLK_COUNT` -/
def bitmapBlkCount : Nat := 4096

/-- `GET_BITMAP_BLK` -/
def getBitmapBlk (x : Nat) : Nat := x / 4096 * 4096

/-- The values of `tfs_last_error`. -/
inductive Err
  | ok | noDev | io | diskFull | fileExist | notExist | notEmpty | noName | nameInval | unexpEof
  | noFreeFd | invalFd | fileBusy
  deriving DecidableEq

/-! ## Names -/

/-- `strncmp(a, b, n) == 0`; a string is its bytes up to the terminating zero. -/
def strncmpEq : Nat → List UInt8 → List UInt8 → Bool
  | 0, _, _ => true
  | n + 1, a, b =>
    if a.headD 0 ≠ b.headD 0 then false
    else if a.headD 0 = 0 then true
    else strncmpEq n a.tail b.tail

/-- The default of `TFS_FILENAME_CMP`. -/
def strncmpName (ref cmp : List UInt8) : Bool := strncmpEq nameLen ref cmp

/-! ## Blocks -/

/-- The content of one block, `TFS_BLK_BUFFER` and `bitmap_blk`. -/
abbrev Block := Buf 512

/-- The characters of a string, up to its terminating zero. -/
def cstr (s : List UInt8) : List UInt8 := s.takeWhile (· ≠ 0)

/-- `TFS_DIR_ITEM_FREE`, `TFS_DIR_ITEM_DIR`, `TFS_DIR_ITEM_FILE` -/
def itemFree : UInt8 := 0
def itemDir : UInt8 := 1
def itemFile : UInt8 := 2

/-- `TFS_DIR_ITEM`; the name has 16 bytes. -/
@[ext] structure DirItem where
  blk : Nat
  size : Nat
  type : UInt8
  name : List UInt8
  deriving DecidableEq

namespace Block

/-! The first two fields are the same in a data and in a directory block. -/

def prev (b : Block) : Nat := b.u32 0
def next (b : Block) : Nat := b.u32 4
def parent (b : Block) : Nat := b.u32 8
def setPrev (b : Block) (v : Nat) : Block := b.setU32 0 v
def setNext (b : Block) (v : Nat) : Block := b.setU32 4 v
def setParent (b : Block) (v : Nat) : Block := b.setU32 8 v

/-- Where `items[i]` starts: a directory block has a header of 12 bytes, an item 25. -/
def itemOff (i : Nat) : Nat := 12 + 25 * i

def itemBlk (b : Block) (i : Nat) : Nat := b.u32 (itemOff i)
def itemSize (b : Block) (i : Nat) : Nat := b.u32 (itemOff i + 4)
def itemType (b : Block) (i : Nat) : UInt8 := b.get (itemOff i + 8)
def itemName (b : Block) (i : Nat) : List UInt8 := b.slice (itemOff i + 9) nameLen

def setItemBlk (b : Block) (i v : Nat) : Block := b.setU32 (itemOff i) v
def setItemSize (b : Block) (i v : Nat) : Block := b.setU32 (itemOff i + 4) v
def setItemType (b : Block) (i : Nat) (t : UInt8) : Block := b.set (itemOff i + 8) t

/-- `strncpy(item->name, name, TFS_NAME_LEN)`: up to the end of the string, then zeros. -/
def setItemName (b : Block) (i : Nat) (name : List UInt8) : Block :=
  b.fill (itemOff i + 9) (fun k => (name.takeWhile (· ≠ 0)).getD k 0) nameLen

/-- `items[i]` -/
def item (b : Block) (i : Nat) : DirItem :=
  { blk := b.itemBlk i, size := b.itemSize i, type := b.itemType i, name := b.itemName i }

/-- `memset(items, 0, sizeof(TFS_DIR_ITEM) * TFS_DIR_BLK_ITEMS)` -/
def clearItems (b : Block) : Block := b.fill 12 (fun _ => 0) 500

/-- Byte `k` of the data of a data block. -/
def data (b : Block) (k : Nat) : UInt8 := b.get (8 + k)

/-- `memcpy(data + os, src, len)` -/
def copyData (b : Block) (os : Nat) (src : List UInt8) (len : Nat) : Block :=
  b.fill (8 + os) (fun k => src.getD k 0) len

/-- `memset(data, 0, TFS_DATA_LEN)` -/
def clearData (b : Block) : Block := b.fill 8 (fun _ => 0) 504

end Block

/-! ## The drive -/

/-- A drive: the block count `drive_init` reports (`none`: no device), which of
its block transfers fail, counted from the start, and whether a successful
transfer sets `tfs_last_error` to `TFS_ERR_OK` (as the documentation asks) or
leaves it (as the drives of the repository do). -/
structure Drive where
  blkCount : Option Nat
  fails : Nat → Bool
  setsOk : Bool

/-- One call of the drive interface; a transfer with its block and whether it
succeeded. -/
inductive DriveCall
  | select | deselect
  | read (blkno : Nat) (ok : Bool)
  | write (blkno : Nat) (ok : Bool)
  deriving DecidableEq

/-- The drive calls made so far, the latest first, and how many of them were transfers. -/
structure DriveLog where
  transfers : Nat
  calls : List DriveCall

def DriveLog.call (l : DriveLog) (c : DriveCall) : DriveLog := { l with calls := c :: l.calls }

def DriveLog.transfer (l : DriveLog) (c : DriveCall) : DriveLog :=
  { transfers := l.transfers + 1, calls := c :: l.calls }

/-- What a build and its drive fix: the drive, the comparison `TFS_FILENAME_CMP`,
`TFS_MAX_FDS`, and the fuel each loop of the model starts with. A descriptor, and with
it the counter of the loops of `tfs_open`, is an `int8_t`: it would never reach 128. -/
structure Env where
  drive : Drive
  filenameCmp : List UInt8 → List UInt8 → Bool
  maxFds : Nat
  fuel : Nat
  maxFds_lt : maxFds < 2 ^ 7 := by decide

/-! ## The static variables -/

/-- `TFS_FILEHANDLE`; `dir_item` points to an item of `blk_buf`, or is `NULL`. -/
structure Handle where
  usageCount : Nat
  dirBlk : Nat
  dirItem : Option Nat
  size : Nat
  firstBlk : Nat
  currBlk : Nat
  currPos : Nat
  deriving DecidableEq

/-- A handle of zero bytes. -/
def Handle.zero : Handle :=
  { usageCount := 0, dirBlk := 0, dirItem := none, size := 0, firstBlk := 0, currBlk := 0, currPos := 0 }

/-- The variables of `filesys.c`, the medium `dev`, and the drive calls made so
far. `handles fd` for `fd ≥ TFS_MAX_FDS` is what lies behind the array. -/
structure State where
  tfsLastError : Err
  blkCount : Nat
  lastBitmapBlk : Nat
  lastBitmapLen : Nat
  loadedBitmapBlk : Nat
  bitmapBlk : Block
  currentDirBlk : Nat
  loadedDirBlk : Nat
  blkBuf : Block
  handles : Nat → Handle
  dev : Nat → Block
  log : DriveLog

/-- A function of the file system. -/
abbrev M := Prog State

/-- The variables before `tfs_init`, over a medium. -/
def State.boot (dev : Nat → Block) : State :=
  { tfsLastError := .ok, blkCount := 0, lastBitmapBlk := 0, lastBitmapLen := 0, loadedBitmapBlk := 0,
    bitmapBlk := Buf.zero, currentDirBlk := 0, loadedDirBlk := 0, blkBuf := Buf.zero,
    handles := fun _ => Handle.zero, dev := dev, log := { transfers := 0, calls := [] } }

/-- `tfs_last_error = err` -/
def setErr (err : Err) : M Unit := Prog.modify fun s => { s with tfsLastError := err }

/-- `if (tfs_last_error != TFS_ERR_OK) return r;` in front of `k`. -/
def ifOk {α : Type} (r : α) (k : M α) : M α := fun s =>
  if s.tfsLastError = .ok then k s else some (r, s)

/-- A store into `blk_buf`. -/
def modifyBuf (f : Block → Block) : M Unit := Prog.modify fun s => { s with blkBuf := f s.blkBuf }

/-- `blk_buf` -/
def blkBuf : M Block := Prog.gets (·.blkBuf)

/-! ## The drive interface -/

/-- The buffer a transfer uses. -/
inductive BufSel
  | blkBuf | bitmapBlk

def State.buf (s : State) : BufSel → Block
  | .blkBuf => s.blkBuf
  | .bitmapBlk => s.bitmapBlk

def State.setBuf (s : State) (b : Block) : BufSel → State
  | .blkBuf => { s with blkBuf := b }
  | .bitmapBlk => { s with bitmapBlk := b }

def driveInit (e : Env) : M Unit := Prog.modify fun s =>
  match e.drive.blkCount with
  | none => { s with tfsLastError := .noDev, blkCount := 0 }
  | some n => { s with tfsLastError := .ok, blkCount := n }

def State.call (s : State) (c : DriveCall) : State := { s with log := s.log.call c }

def driveSelect : M Unit := Prog.modify fun s => s.call .select

def driveDeselect : M Unit := Prog.modify fun s => s.call .deselect

/-- Does the next transfer, to block `blkno`, succeed? A block past the end never does. -/
def transferOk (e : Env) (s : State) (blkno : Nat) : Bool :=
  decide (blkno < s.blkCount) && !e.drive.fails s.log.transfers

/-- `tfs_last_error` after a successful transfer. -/
def errAfter (e : Env) (s : State) : Err := if e.drive.setsOk then .ok else s.tfsLastError

/-- `drive_read_block(blkno, buf)`; a failed read leaves the buffer as it is. -/
def driveReadBlock (e : Env) (blkno : Nat) (sel : BufSel) : M Unit := Prog.modify fun s =>
  let ok := transferOk e s blkno
  let t := { s with log := s.log.transfer (.read blkno ok) }
  if ok then { t.setBuf (s.dev blkno) sel with tfsLastError := errAfter e s }
  else { t with tfsLastError := .io }

/-- `drive_write_block(blkno, buf)`; a failed write leaves the block as it is. -/
def driveWriteBlock (e : Env) (blkno : Nat) (sel : BufSel) : M Unit := Prog.modify fun s =>
  let ok := transferOk e s blkno
  let t := { s with log := s.log.transfer (.write blkno ok) }
  if ok then { t with dev := Function.update s.dev blkno (s.buf sel), tfsLastError := errAfter e s }
  else { t with tfsLastError := .io }

/-- The guard, the reset and the bracket every public function starts with. -/
def enter {α : Type} (r : α) (body : M α) : M α := fun s =>
  if s.tfsLastError = .noDev then some (r, s) else
    (do
      setErr .ok
      driveSelect
      body) s

/-- A body that ends at the label `out`. -/
def out {α : Type} (body : M α) : M α := do
  let r ← body
  driveDeselect
  pure r

end TinyFs
