/-
Directories and whole files: `find_file`, `write_dir_cleanup`, and the basic
API from `tfs_read_dir` to `tfs_rename`. An item pointer into `blk_buf` is the
index of the item.
-/
import TinyFs.Model.Alloc

namespace TinyFs

open Bytes

/-! ## Looking up a name -/

/-- The `for` loop of `find_file` over the items of one block: the item with the
name, or the first free item seen so far, as its block and index. -/
def scanItems (e : Env) (name : List UInt8) (b : Block) (pos : Nat) :
    List Nat → Option (Nat × Nat) → Nat ⊕ Option (Nat × Nat)
  | [], free => .inr free
  | i :: is, free =>
    if b.itemType i = itemFree then scanItems e name b pos is (free <|> some (pos, i))
    else if e.filenameCmp name (b.itemName i) then .inl i
    else scanItems e name b pos is free

/-- How the walk over the directory chain ends. -/
inductive Walk
  | error
  | found (i : Nat)
  | missing (free : Option (Nat × Nat))

/-- The `while` loop of `find_file`. -/
def findWalk (e : Env) (name : List UInt8) : Nat → Nat → Option (Nat × Nat) → M Walk
  | 0, _, _ => Prog.noFuel
  | n + 1, pos, free => do
    driveReadBlock e pos .blkBuf
    ifOk .error do
      Prog.modify fun s => { s with loadedDirBlk := pos }
      let b ← blkBuf
      match scanItems e name b pos (List.range dirBlkItems) free with
      | .inl i => pure (.found i)
      | .inr free => if b.next = 0 then pure (.missing free) else findWalk e name n b.next free

/-- The end of `find_file`: a new block at the end of the directory. -/
def appendDirBlock (e : Env) : M (Option Nat) := do
  let freeBlk ← allocBlock e
  ifOk none do
    modifyBuf fun b => b.setNext freeBlk
    let s ← Prog.gets id
    driveWriteBlock e s.loadedDirBlk .blkBuf
    ifOk none do
      modifyBuf fun b => ((b.setPrev s.loadedDirBlk).setNext 0).clearItems
      Prog.modify fun s => { s with loadedDirBlk := freeBlk }
      driveWriteBlock e freeBlk .blkBuf
      ifOk none (pure (some 0))

def findFile (e : Env) (name : List UInt8) (wantFreeItem : Bool) : M (Option Nat) :=
  if name.headD 0 = 0 then do
    setErr .noName
    pure none
  else do
    let s ← Prog.gets id
    match ← findWalk e name e.fuel s.currentDirBlk none with
    | .error => pure none
    | .found i => pure (some i)
    | .missing free =>
      if !wantFreeItem then pure none else
        match free with
        | some (freeBlk, freeItem) => do
          let s ← Prog.gets id
          if s.loadedDirBlk ≠ freeBlk then
            driveReadBlock e freeBlk .blkBuf
            ifOk none do
              Prog.modify fun s => { s with loadedDirBlk := freeBlk }
              pure (some freeItem)
          else pure (some freeItem)
        | none => appendDirBlock e

/-! ## Writing a directory block back -/

/-- Is an item of the block in use? -/
def anyItem (b : Block) : Bool := (List.range dirBlkItems).any fun i => b.itemType i ≠ itemFree

/-- `write_dir_cleanup` after its pointers are settled: `blk_buf` goes to block
`prev`, the block after it gets its `prev`, and the unused block is released. -/
def relinkDir (e : Env) (prev next : Nat) : M Unit := do
  driveWriteBlock e prev .blkBuf
  ifOk () do
    let release : M Unit := do
      let s ← Prog.gets id
      freeBlock e s.loadedDirBlk
    if next ≠ 0 then
      driveReadBlock e next .blkBuf
      ifOk () do
        modifyBuf fun b => b.setPrev prev
        driveWriteBlock e next .blkBuf
        ifOk () release
    else release

def writeDirCleanup (e : Env) : M Unit := do
  let s ← Prog.gets id
  let b := s.blkBuf
  if b.prev = 0 ∧ b.next = 0 then driveWriteBlock e s.loadedDirBlk .blkBuf
  else if anyItem b then driveWriteBlock e s.loadedDirBlk .blkBuf
  else if b.prev = 0 then
    -- the head stays where it is, so the next block moves to this position
    driveReadBlock e b.next .blkBuf
    ifOk () do
      modifyBuf fun c => c.setPrev 0
      Prog.modify fun t => { t with loadedDirBlk := b.next }
      let c ← blkBuf
      relinkDir e s.loadedDirBlk c.next
  else
    driveReadBlock e b.prev .blkBuf
    ifOk () do
      modifyBuf fun c => c.setNext b.next
      relinkDir e b.prev b.next

/-! ## Listing and changing the directory -/

/-- The `for` loop of `tfs_read_dir`: the items passed to the handler so far, and
whether it asked for more. The handler may depend on all it has seen. -/
def passItems (handler : List DirItem → Bool) (b : Block) :
    List Nat → List DirItem → List DirItem × Bool
  | [], seen => (seen, true)
  | i :: is, seen =>
    let seen := seen ++ [b.item i]
    if handler seen then passItems handler b is seen else (seen, false)

/-- The `while` loop of `tfs_read_dir`. -/
def readDirLoop (e : Env) (handler : List DirItem → Bool) :
    Nat → Nat → List DirItem → M (Bool × List DirItem)
  | 0, _, _ => Prog.noFuel
  | n + 1, pos, seen => do
    driveReadBlock e pos .blkBuf
    ifOk (false, seen) do
      let b ← blkBuf
      match passItems handler b (List.range dirBlkItems) seen with
      | (seen, false) => pure (false, seen)
      | (seen, true) => if b.next = 0 then pure (true, seen) else readDirLoop e handler n b.next seen

/-- `tfs_read_dir`: the value returned and the items the handler was called with. -/
def tfsReadDir (e : Env) (handler : List DirItem → Bool) : M (Bool × List DirItem) :=
  enter (false, []) <| out do
    let s ← Prog.gets id
    readDirLoop e handler e.fuel s.currentDirBlk []

def tfsChangeDirRoot : M Unit := Prog.modify fun s => { s with currentDirBlk := rootDirBlk }

def tfsChangeDirParent (e : Env) : M Unit := enter () <| out do
  let s ← Prog.gets id
  driveReadBlock e s.currentDirBlk .blkBuf
  ifOk () do
    let b ← blkBuf
    if b.parent = 0 then setErr .notExist
    else Prog.modify fun s => { s with currentDirBlk := b.parent }

def tfsChangeDir (e : Env) (name : List UInt8) : M Unit := enter () <| out do
  let item ← findFile e name false
  ifOk () do
    let b ← blkBuf
    match item with
    | none => setErr .notExist
    | some i =>
      if b.itemType i ≠ itemDir then setErr .notExist
      else Prog.modify fun s => { s with currentDirBlk := b.itemBlk i }

/-! ## Creating -/

/-- The stores `item->type`, `item->blk`, `item->size` and the name. -/
def fillItem (i : Nat) (type : UInt8) (blk size : Nat) (name : List UInt8) (b : Block) : Block :=
  (((b.setItemType i type).setItemBlk i blk).setItemSize i size).setItemName i name

def tfsCreateDir (e : Env) (name : List UInt8) : M Unit := enter () <| out do
  let item ← findFile e name true
  ifOk () do
    let i := item.getD 0
    let b ← blkBuf
    if b.itemType i ≠ itemFree then setErr .fileExist
    else
      let new ← allocBlock e
      ifOk () do
        modifyBuf (fillItem i itemDir new 0 name)
        let s ← Prog.gets id
        driveWriteBlock e s.loadedDirBlk .blkBuf
        ifOk () do
          modifyBuf fun _ => Block.setParent Buf.zero s.currentDirBlk
          driveWriteBlock e new .blkBuf

def itemUsageCountLoop (s : State) (item : Nat) : List Nat → Nat
  | [] => 0
  | fd :: fds =>
    if (s.handles fd).dirBlk = s.loadedDirBlk ∧ (s.handles fd).dirItem = some item then
      (s.handles fd).usageCount
    else itemUsageCountLoop s item fds

/-- `item_usage_count(item)` -/
def itemUsageCount (e : Env) (item : Nat) : M Nat :=
  Prog.gets fun s => itemUsageCountLoop s item (List.range e.maxFds)

/-- The `while` loop of `tfs_write_file`. -/
def writeFileLoop (e : Env) : Nat → Nat → List UInt8 → Nat → M Unit
  | 0, _, _, _ => Prog.noFuel
  | n + 1, pos, data, len =>
    if pos = 0 then pure () else do
      let blkLen := if len > dataLen then dataLen else len
      let rem := if len > dataLen then len - dataLen else 0
      if len > dataLen then
        -- after an error the last data block is still written, the error is handled after that
        let next ← allocBlock e
        modifyBuf fun b => b.setNext next
      else modifyBuf fun b => b.setNext 0
      modifyBuf fun b => b.copyData 0 data blkLen
      driveWriteBlock e pos .blkBuf
      ifOk () do
        modifyBuf fun b => b.setPrev pos
        let b ← blkBuf
        writeFileLoop e n b.next (data.drop blkLen) rem

/-- `tfs_write_file` from the allocation of the first data block on. -/
def writeFileData (e : Env) (name : List UInt8) (data : List UInt8) (len i : Nat) : M Unit := do
  let pos ← if len = 0 then pure 0 else allocBlock e
  ifOk () do
    modifyBuf (fillItem i itemFile pos len name)
    let s ← Prog.gets id
    driveWriteBlock e s.loadedDirBlk .blkBuf
    ifOk () do
      modifyBuf fun b => b.setPrev 0
      writeFileLoop e e.fuel pos data len

def tfsWriteFile (e : Env) (name data : List UInt8) (len : Nat) (overwrite : Bool) : M Unit :=
  enter () <| out do
    let item ← findFile e name true
    ifOk () do
      let i := item.getD 0
      let b ← blkBuf
      if b.itemType i ≠ itemFree then
        if !overwrite ∨ b.itemType i ≠ itemFile then setErr .fileExist
        else if (← itemUsageCount e i) > 0 then setErr .fileBusy
        else
          freeFileBlocks e (b.itemBlk i)
          ifOk () do
            -- free_file_blocks used the buffer
            let s ← Prog.gets id
            driveReadBlock e s.loadedDirBlk .blkBuf
            ifOk () (writeFileData e name data len i)
      else writeFileData e name data len i

/-! ## Reading a whole file -/

/-- The `while` loop of `tfs_read_file`: the bytes copied to `data`. -/
def readFileLoop (e : Env) : Nat → Nat → Nat → List UInt8 → M (List UInt8)
  | 0, _, _, _ => Prog.noFuel
  | n + 1, pos, rem, data => do
    driveReadBlock e pos .blkBuf
    ifOk data do
      let b ← blkBuf
      let blkLen := if rem > dataLen then dataLen else rem
      let rem := if rem > dataLen then rem - dataLen else 0
      let data := data ++ (List.range blkLen).map b.data
      if b.next = 0 then do
        if rem > 0 then setErr .unexpEof
        pure data
      else readFileLoop e n b.next rem data

/-- `tfs_read_file`: the value returned and the bytes copied to `data`. -/
def tfsReadFile (e : Env) (name : List UInt8) (maxLen : Nat) : M (Nat × List UInt8) :=
  enter (0, []) <| out do
    let item ← findFile e name false
    ifOk (0, []) do
      let b ← blkBuf
      match item with
      | none => do
        setErr .notExist
        pure (0, [])
      | some i =>
        if b.itemType i ≠ itemFile then do
          setErr .notExist
          pure (0, [])
        else do
          let len := if b.itemSize i > maxLen then maxLen else b.itemSize i
          let data ← readFileLoop e e.fuel (b.itemBlk i) len []
          pure (len, data)

/-! ## Deleting and renaming -/

def deleteFile (e : Env) (i : Nat) : M Unit := do
  let b ← blkBuf
  modifyBuf fun b => b.setItemType i itemFree
  writeDirCleanup e
  ifOk () (freeFileBlocks e (b.itemBlk i))

def deleteDir (e : Env) (i : Nat) : M Unit := do
  let b ← blkBuf
  let pos := b.itemBlk i
  driveReadBlock e pos .blkBuf
  ifOk () do
    let sub ← blkBuf
    if sub.next ≠ 0 then setErr .notEmpty
    else if anyItem sub then setErr .notEmpty
    else
      let s ← Prog.gets id
      driveReadBlock e s.loadedDirBlk .blkBuf
      ifOk () do
        modifyBuf fun b => b.setItemType i itemFree
        writeDirCleanup e
        ifOk () (freeBlock e pos)

def tfsDelete (e : Env) (name : List UInt8) (type : UInt8) : M Unit := enter () <| out do
  let item ← findFile e name false
  ifOk () do
    let b ← blkBuf
    match item with
    | none => setErr .notExist
    | some i =>
      if type ≠ 0 ∧ b.itemType i ≠ type then setErr .notExist
      else if (← itemUsageCount e i) > 0 then setErr .fileBusy
      else if b.itemType i = itemFile then deleteFile e i
      else if b.itemType i = itemDir then deleteDir e i
      else setErr .notExist

def tfsRename (e : Env) (fromName toName : List UInt8) : M Unit := enter () <| out do
  let item ← findFile e toName false
  ifOk () do
    match item with
    | some _ => setErr .fileExist
    | none =>
      let item ← findFile e fromName false
      ifOk () do
        match item with
        | none => setErr .notExist
        | some i =>
          modifyBuf fun b => b.setItemName i toName
          let s ← Prog.gets id
          driveWriteBlock e s.loadedDirBlk .blkBuf

end TinyFs
