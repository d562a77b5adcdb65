/-
The extended API: handles, `seek`, and the functions from `tfs_stat` to
`tfs_read`. A handle pointer is its index in `handles`.
-/
import TinyFs.Model.Dir

namespace TinyFs

open Bytes

/-- `hnd->... = ...` for `hnd = &handles[fd]`. -/
def modifyHandle (fd : Nat) (f : Handle → Handle) : M Unit := Prog.modify fun s =>
  { s with handles := Function.update s.handles fd (f (s.handles fd)) }

/-- `handles[fd]` -/
def handle (fd : Nat) : M Handle := Prog.gets fun s => s.handles fd

/-- `init_pos(hnd)` -/
def initPos (fd : Nat) : M Unit := modifyHandle fd fun h => { h with currBlk := h.firstBlk, currPos := 0 }

def updateDirItem (e : Env) (fd : Nat) : M Unit := do
  let h ← handle fd
  driveReadBlock e h.dirBlk .blkBuf
  ifOk () do
    let i := h.dirItem.getD 0
    modifyBuf fun b => (b.setItemBlk i h.firstBlk).setItemSize i h.size
    driveWriteBlock e h.dirBlk .blkBuf

/-! ## Seeking -/

/-- The results of `seek`. -/
inductive Seek
  | error | ok | eof | append
  deriving DecidableEq

/-- The first `while` loop of `seek`, backward; `false` when it fails. -/
def seekBack (e : Env) (fd pos : Nat) : Nat → M Bool
  | 0 => Prog.noFuel
  | n + 1 => do
    let h ← handle fd
    if h.currBlk ≠ 0 ∧ h.currPos > pos then
      driveReadBlock e h.currBlk .blkBuf
      ifOk false do
        let b ← blkBuf
        if b.prev = 0 then
          setErr .unexpEof
          pure false
        else
          modifyHandle fd fun h =>
            { h with currBlk := b.prev, currPos := (h.currPos + 2 ^ 32 - dataLen) % 2 ^ 32 }
          seekBack e fd pos n
    else pure true

/-- The second `while` loop of `seek`, forward; the last valid block and its
position, or `none` when a read fails. -/
def seekForward (e : Env) (fd pos : Nat) : Nat → Nat × Nat → M (Option (Nat × Nat))
  | 0, _ => Prog.noFuel
  | n + 1, last => do
    let h ← handle fd
    if h.currBlk ≠ 0 ∧ h.currPos + dataLen ≤ pos then
      driveReadBlock e h.currBlk .blkBuf
      ifOk none do
        let b ← blkBuf
        modifyHandle fd fun h => { h with currBlk := b.next, currPos := (h.currPos + dataLen) % 2 ^ 32 }
        seekForward e fd pos n (h.currBlk, h.currPos)
    else pure (some last)

/-- The last `while` loop of `seek`: blocks appended up to the one with `pos`. -/
def seekAppend (e : Env) (fd pos : Nat) : Nat → M Seek
  | 0 => Prog.noFuel
  | n + 1 => do
    let h ← handle fd
    if h.currPos + dataLen ≤ pos then
      -- after an error the last data block is still written, the error is handled after that
      let new ← allocBlock e
      modifyBuf fun b => b.setNext new
      driveWriteBlock e h.currBlk .blkBuf
      ifOk .error do
        let b ← blkBuf
        modifyBuf fun b => (b.clearData.setPrev h.currBlk).setNext 0
        modifyHandle fd fun h => { h with currBlk := b.next, currPos := (h.currPos + dataLen) % 2 ^ 32 }
        seekAppend e fd pos n
    else pure .append

/-- `seek` after the forward walk: the block is read, or the file extended. -/
def seekEnd (e : Env) (fd pos : Nat) (append : Bool) (last : Nat × Nat) : M Seek := do
  let h ← handle fd
  if h.currBlk ≠ 0 then
    driveReadBlock e h.currBlk .blkBuf
    ifOk .error (pure .ok)
  else if !append then pure .eof
  else if h.firstBlk = 0 then
    let new ← allocBlock e
    modifyHandle fd fun h => { h with firstBlk := new }
    ifOk .error do
      modifyBuf fun _ => Buf.zero
      initPos fd
      seekAppend e fd pos e.fuel
  else
    modifyHandle fd fun h => { h with currBlk := last.1, currPos := last.2 }
    seekAppend e fd pos e.fuel

/-- The loops of `seek`, once the cursor is on the file. -/
def seekWalk (e : Env) (fd pos : Nat) (append : Bool) : M Seek := do
  if ← seekBack e fd pos e.fuel then
    match ← seekForward e fd pos e.fuel (0, 0) with
    | none => pure .error
    | some last => seekEnd e fd pos append last
  else pure .error

def seek (e : Env) (fd pos : Nat) (append : Bool) : M Seek := do
  let h ← handle fd
  if pos = 0 ∨ h.currBlk = 0 then initPos fd
  seekWalk e fd pos append

/-! ## Names and handles -/

def tfsStat (e : Env) (name : List UInt8) : M (Option Nat) := enter none <| out do
  findFile e name false

def tfsTouch (e : Env) (name : List UInt8) : M Unit := enter () <| out do
  let item ← findFile e name true
  ifOk () do
    let i := item.getD 0
    let b ← blkBuf
    if b.itemType i ≠ itemFree then pure ()
    else
      modifyBuf (fillItem i itemFile 0 0 name)
      let s ← Prog.gets id
      driveWriteBlock e s.loadedDirBlk .blkBuf

/-- The search of `tfs_open` for a handle in use on the item. -/
def sharedHandle (s : State) (item : Nat) : List Nat → Option Nat
  | [] => none
  | fd :: fds =>
    if (s.handles fd).dirBlk = s.loadedDirBlk ∧ (s.handles fd).dirItem = some item ∧
        (s.handles fd).usageCount > 0 then some fd
    else sharedHandle s item fds

/-- The search of `tfs_open` for a free handle. A slot is tested before the bound
is, so the search of a full table also reads the slot behind it. -/
def freeHandle (s : State) (maxFds : Nat) : Nat → Nat → Option Nat
  | 0, fd => if (s.handles fd).usageCount > 0 then none else some fd
  | n + 1, fd =>
    if (s.handles fd).usageCount > 0 then
      if fd = maxFds then none else freeHandle s maxFds n (fd + 1)
    else some fd

def tfsOpen (e : Env) (name : List UInt8) : M Int := enter (-1) <| out do
  let item ← findFile e name false
  ifOk (-1) do
    let b ← blkBuf
    match item with
    | none => do
      setErr .notExist
      pure (-1)
    | some i =>
      if b.itemType i ≠ itemFile then do
        setErr .notExist
        pure (-1)
      else do
        let s ← Prog.gets id
        match sharedHandle s i (List.range e.maxFds) with
        | some fd => do
          modifyHandle fd fun h => { h with usageCount := (h.usageCount + 1) % 256 }
          pure (fd : Int)
        | none =>
          match freeHandle s e.maxFds e.maxFds 0 with
          | none => do
            setErr .noFreeFd
            pure (-1)
          | some fd => do
            modifyHandle fd fun _ =>
              { usageCount := 1, dirBlk := s.loadedDirBlk, dirItem := some i, size := b.itemSize i,
                firstBlk := b.itemBlk i, currBlk := 0, currPos := 0 }
            initPos fd
            pure (fd : Int)

/-- `fd < 0 || fd >= TFS_MAX_FDS`, and then the handle's `usage_count <= 0`. -/
def invalidFd (e : Env) (s : State) (fd : Int) : Prop :=
  fd < 0 ∨ fd ≥ e.maxFds ∨ (s.handles fd.toNat).usageCount = 0

instance (e : Env) (s : State) (fd : Int) : Decidable (invalidFd e s fd) := by
  unfold invalidFd
  infer_instance

def tfsClose (e : Env) (fd : Int) : M Unit := fun s =>
  if s.tfsLastError = .noDev then some ((), s) else
    (do
      setErr .ok
      let s ← Prog.gets id
      if invalidFd e s fd then setErr .invalFd
      else modifyHandle fd.toNat fun h => { h with usageCount := h.usageCount - 1 }) s

def tfsTrunc (e : Env) (fd : Int) (size : Nat) : M Unit := enter () <| out do
  let s ← Prog.gets id
  if invalidFd e s fd then setErr .invalFd
  else
    let hnd := fd.toNat
    if size = 0 then
      let h ← handle hnd
      freeFileBlocks e h.firstBlk
      ifOk () do
        modifyHandle hnd fun h => { h with firstBlk := 0 }
        initPos hnd
        updateDirItem e hnd
    else
      let seekRes ← seek e hnd size true
      ifOk () do
        let b ← blkBuf
        let freeFrom := if seekRes = .ok then b.next else 0
        if seekRes = .ok then modifyBuf fun b => b.setNext 0
        let rest : M Unit := do
          freeFileBlocks e freeFrom
          ifOk () (updateDirItem e hnd)
        if seekRes = .append ∨ freeFrom ≠ 0 then
          let h ← handle hnd
          driveWriteBlock e h.currBlk .blkBuf
          ifOk () rest
        else rest

/-! ## Writing and reading through a handle -/

/-- How the loop of `tfs_write` or `tfs_read` is left: at its end, at the label
`out`, or by a `return` in the middle. -/
inductive Exit
  | done | out | ret
  deriving DecidableEq

/-- The local variables of the loop of `tfs_write`. -/
structure WriteVars where
  blkOs : Nat
  blkLen : Nat
  data : List UInt8
  len : Nat
  offset : Nat
  append : Bool
  updateItem : Bool
  ret : Nat

/-- The end of an iteration of `tfs_write`: the next block becomes the current one. -/
def writeNext (e : Env) (fd : Nat) (append : Bool) (k : M (Exit × WriteVars)) (w : WriteVars) :
    M (Exit × WriteVars) := do
  let b ← blkBuf
  if append then
    let h ← handle fd
    modifyBuf fun b => ((b.setPrev h.currBlk).setNext 0).clearData
    modifyHandle fd fun h => { h with currBlk := b.next, currPos := (h.currPos + dataLen) % 2 ^ 32 }
    k
  else
    modifyHandle fd fun h => { h with currBlk := b.next }
    driveReadBlock e b.next .blkBuf
    ifOk (.ret, w) do
      modifyHandle fd fun h => { h with currPos := (h.currPos + dataLen) % 2 ^ 32 }
      k

/-- The `while` loop of `tfs_write`. -/
def writeLoop (e : Env) (fd : Nat) : Nat → WriteVars → M (Exit × WriteVars)
  | 0, _ => Prog.noFuel
  | n + 1, w => do
    let blkLen := if w.blkLen > w.len then w.len else w.blkLen
    modifyBuf fun b => b.copyData w.blkOs w.data blkLen
    let len := w.len - blkLen
    let offset := (w.offset + blkLen) % 2 ^ 32
    let ret := (w.ret + blkLen) % 2 ^ 32
    let b ← blkBuf
    let prealloc := len > 0 ∧ b.next = 0
    -- after an error the last data block is still written, the error is handled after that
    if prealloc then
      let new ← allocBlock e
      modifyBuf fun b => b.setNext new
    let append := if prealloc then true else w.append
    let h ← handle fd
    driveWriteBlock e h.currBlk .blkBuf
    let w' : WriteVars := { w with data := w.data.drop blkLen, len, offset, append, ret }
    ifOk (.out, w') do
      let grows := offset > h.size
      if grows then modifyHandle fd fun h => { h with size := offset }
      let w' := { w' with updateItem := if grows then true else w.updateItem }
      if len = 0 then pure (.done, w')
      else writeNext e fd append (writeLoop e fd n { w' with blkOs := 0, blkLen := dataLen }) w'

/-- `tfs_write`: the value returned. -/
def tfsWrite (e : Env) (fd : Int) (data : List UInt8) (len offset : Nat) : M Nat := enter 0 do
  let s ← Prog.gets id
  if invalidFd e s fd then out do
    setErr .invalFd
    pure 0
  else do
    let hnd := fd.toNat
    let seekRes ← seek e hnd offset true
    let append : Bool := seekRes = .append
    let s ← Prog.gets id
    if s.tfsLastError ≠ .ok then out (pure 0)
    else if len = 0 then out do
      if append then updateDirItem e hnd
      pure 0
    else do
      let h ← handle hnd
      let blkOs := (offset + 2 ^ 32 - h.currPos) % 2 ^ 32
      let blkLen := (dataLen + 2 ^ 32 - blkOs) % 2 ^ 32
      let (exit, w) ← writeLoop e hnd e.fuel
        { blkOs, blkLen, data, len, offset, append, updateItem := append, ret := 0 }
      match exit with
      | .ret => pure 0
      | .out => out (pure w.ret)
      | .done => out do
        if w.updateItem then updateDirItem e hnd
        pure w.ret

/-- The `while` loop of `tfs_read`, with the bytes copied to `data` so far. -/
def readLoop (e : Env) (fd : Nat) : Nat → Nat → Nat → Nat → List UInt8 → M (Exit × List UInt8)
  | 0, _, _, _, _ => Prog.noFuel
  | n + 1, blkOs, blkLen, len, data => do
    let b ← blkBuf
    let blkLen := if blkLen > len then len else blkLen
    let data := data ++ (List.range blkLen).map fun k => b.data (blkOs + k)
    let len := len - blkLen
    if len = 0 then pure (.done, data)
    else do
      modifyHandle fd fun h => { h with currBlk := b.next, currPos := (h.currPos + dataLen) % 2 ^ 32 }
      if b.next = 0 then pure (.done, data)
      else do
        driveReadBlock e b.next .blkBuf
        ifOk (.ret, data) (readLoop e fd n 0 dataLen len data)

/-- `tfs_read`: the value returned and the bytes copied to `data`. -/
def tfsRead (e : Env) (fd : Int) (len offset : Nat) : M (Nat × List UInt8) := enter (0, []) do
  let s ← Prog.gets id
  if invalidFd e s fd then out do
    setErr .invalFd
    pure (0, [])
  else do
    let hnd := fd.toNat
    let h ← handle hnd
    if offset > h.size then out (pure (0, []))
    else do
      let len := if len > h.size - offset then h.size - offset else len
      let seekRes ← seek e hnd offset false
      let s ← Prog.gets id
      if seekRes = .eof ∨ s.tfsLastError ≠ .ok ∨ len = 0 then out (pure (0, []))
      else do
        let h ← handle hnd
        let blkOs := (offset + 2 ^ 32 - h.currPos) % 2 ^ 32
        let blkLen := (dataLen + 2 ^ 32 - blkOs) % 2 ^ 32
        let (exit, data) ← readLoop e hnd e.fuel blkOs blkLen len []
        match exit with
        | .ret => pure (0, data)
        | _ => out (pure (data.length % 2 ^ 32, data))

end TinyFs
