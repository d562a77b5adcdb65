/-
The programs for Linux. The FUSE driver, `linux/tfs_fuse.c` and
`linux/err_handler.c`: paths, the operations, and the code each returns. A path is the bytes of a C string. The
allocation of the path's copy in `travel_path` succeeds, and the owner of a
file, the same for every file, is left out.
-/
import TinyFs.Model.Handle

namespace TinyFs

open Bytes

namespace Fuse

/-! ## Error codes -/

/-- The values of `errno.h` on Linux. -/
def enoent : Int := 2
def eio : Int := 5
def ebadf : Int := 9
def eexist : Int := 17
def enodev : Int := 19
def einval : Int := 22
def emfile : Int := 24
def etxtbsy : Int := 26
def enospc : Int := 28
def espipe : Int := 29
def enametoolong : Int := 36
def enotempty : Int := 39

/-- The table `errors` of `err_handler.c`. -/
def errnoOf : Err → Int
  | .ok => 0
  | .noDev => enodev
  | .io => eio
  | .diskFull => enospc
  | .fileExist => eexist
  | .notExist => enoent
  | .notEmpty => enotempty
  | .noName => einval
  | .nameInval => einval
  | .unexpEof => espipe
  | .noFreeFd => emfile
  | .invalFd => ebadf
  | .fileBusy => etxtbsy

/-- `check_error`, without the message it prints. -/
def checkError : M Int := Prog.gets fun s => -errnoOf s.tfsLastError

/-! ## Conversions -/

/-- An argument given for a `uint32_t`. -/
def toUint32 (v : Int) : Nat := (v % 2 ^ 32).toNat

/-- A `uint32_t` stored in an `int`. -/
def toInt32 (n : Nat) : Int := if n % 2 ^ 32 < 2 ^ 31 then (n % 2 ^ 32 : Nat) else (n % 2 ^ 32 : Nat) - 2 ^ 32

/-- An `int8_t` stored in `fi->fh`, and back. -/
def toFh (fd : Int) : Nat := (fd % 2 ^ 64).toNat
def ofFh (fh : Nat) : Int := if fh % 256 < 128 then (fh % 256 : Nat) else (fh % 256 : Nat) - 256

/-! ## Paths -/

/-- The slash. -/
def slash : UInt8 := 47

/-- The loop of `travel_path`, with the name read so far: it ends with the last
name of the path, or with none when a directory on the way cannot be entered. -/
def travelLoop (e : Env) : List UInt8 → List UInt8 → M (Option (List UInt8))
  | tok, [] => pure (some tok)
  | tok, c :: cs =>
    if c = slash then
      if tok ≠ [] then
        if tok.length > nameLen then do
          setErr .notExist
          pure none
        else do
          tfsChangeDir e tok
          ifOk none (travelLoop e [] cs)
      else travelLoop e [] cs
    else travelLoop e (tok ++ [c]) cs

def travelPath (e : Env) (path : List UInt8) : M (Option (List UInt8)) :=
  if path.headD 0 = slash then do
    tfsChangeDirRoot
    ifOk none (travelLoop e [] (cstr path).tail)
  else travelLoop e [] (cstr path)

/-- The start of every operation on a path: `travel_path`, its error, and the
length of the last name. `fail` makes the reply of an error code. -/
def withPath {α : Type} (e : Env) (path : List UInt8) (fail : Int → α) (body : List UInt8 → M α) : M α := do
  match ← travelPath e path with
  | none => do
    let code ← checkError
    pure (fail code)
  | some name =>
    if name.length > nameLen then pure (fail (-enametoolong)) else body name

/-- The end of an operation: its code is that of `tfs_last_error`. -/
def finish (p : M Unit) : M Int := do
  p
  checkError

/-! ## Operations -/

/-- The fields of `struct stat` that differ between files. -/
structure Stat where
  mode : Nat
  size : Nat
  deriving DecidableEq

/-- The zeroed `struct stat`. -/
def Stat.zero : Stat := { mode := 0, size := 0 }

/-- `S_IFDIR | 0755`, `S_IFREG | 0755` -/
def modeDir : Nat := 0o040755
def modeReg : Nat := 0o100755

/-- `item_to_stat`; its value is 1 for an item that is neither. -/
def itemToStat (item : DirItem) (st : Stat) : Int × Stat :=
  if item.type = itemDir then (0, { st with mode := modeDir })
  else if item.type = itemFile then (0, { mode := modeReg, size := item.size })
  else (1, st)

def opGetattr (e : Env) (path : List UInt8) : M (Int × Stat) :=
  if cstr path = [slash] then pure (0, { Stat.zero with mode := modeDir })
  else withPath e path (fun code => (code, Stat.zero)) fun name => do
    let item ← tfsStat e name
    let err ← checkError
    if err < 0 then pure (err, Stat.zero) else
      let b ← blkBuf
      match item with
      | none => pure (-enoent, Stat.zero)
      | some i => pure (itemToStat (b.item i) Stat.zero)

/-- What `tfs_dir_handler` passes to the filler. -/
def fillerItem (item : DirItem) : Option (List UInt8 × Stat) :=
  match itemToStat item Stat.zero with
  | (0, st) => some (cstr item.name, st)
  | _ => none

/-- `op_readdir`: the code, and the names and attributes given to the filler
behind `.` and `..`, which are given first. -/
def opReaddir (e : Env) (path : List UInt8) : M (Int × List (List UInt8 × Stat)) :=
  withPath e path (fun code => (code, [])) fun name => do
    if name ≠ [] then tfsChangeDir e name
    let err ← if name ≠ [] then checkError else pure 0
    if err ≠ 0 then pure (err, []) else
      let (_, items) ← tfsReadDir e fun _ => true
      let err ← checkError
      pure (err, items.filterMap fillerItem)

def opMkdir (e : Env) (path : List UInt8) : M Int :=
  withPath e path id fun name => finish (tfsCreateDir e name)

def opUnlink (e : Env) (path : List UInt8) : M Int :=
  withPath e path id fun name => finish (tfsDelete e name itemFile)

def opRmdir (e : Env) (path : List UInt8) : M Int :=
  withPath e path id fun name => finish (tfsDelete e name itemDir)

def opRename (e : Env) (path newpath : List UInt8) : M Int :=
  withPath e path id fun old =>
    let start := (cstr path).length - old.length
    -- a rename stays in the same directory
    if !strncmpEq start path newpath then pure (-einval)
    else
      let new := (cstr newpath).drop start
      if slash ∈ new then pure (-einval)
      else if new.length > nameLen then pure (-enametoolong)
      else finish (tfsRename e old new)

/-- `TFS_BLOCKSIZE` -/
def blockSize : Nat := 1 <<< 9

/-- The fields of `struct statvfs` that are set. -/
structure Statvfs where
  bsize : Nat
  frsize : Nat
  blocks : Nat
  bfree : Nat
  bavail : Nat
  namemax : Nat

/-- The zeroed `struct statvfs`. -/
def Statvfs.zero : Statvfs := { bsize := 0, frsize := 0, blocks := 0, bfree := 0, bavail := 0, namemax := 0 }

/-- What `op_statfs` stores, from the size of the drive and the blocks in use. -/
def statvfs (blkCount used : Nat) : Statvfs :=
  let blkFree := (blkCount + (2 ^ 32 - used % 2 ^ 32)) % 2 ^ 32
  { bsize := blockSize, frsize := blockSize, blocks := blkCount, bfree := blkFree, bavail := blkFree, namemax := nameLen }

def opStatfs (e : Env) : M (Int × Statvfs) := do
  let used ← tfsGetUsed e
  let s ← Prog.gets id
  let err ← checkError
  if err ≠ 0 then pure (err, Statvfs.zero) else pure (0, statvfs s.blkCount used)

def opMknod (e : Env) (path : List UInt8) : M Int :=
  withPath e path id fun name => finish (tfsWriteFile e name [] 0 false)

/-- `op_open`: the code, and `fi->fh` where it is set. -/
def opOpen (e : Env) (path : List UInt8) : M (Int × Option Nat) :=
  withPath e path (fun code => (code, none)) fun name => do
    let fd ← tfsOpen e name
    let err ← checkError
    pure (err, some (toFh fd))

def opTruncate (e : Env) (path : List UInt8) (newsize : Int) : M Int :=
  withPath e path id fun name => do
    let fh ← tfsOpen e name
    let err ← checkError
    if err ≠ 0 then pure err else
      tfsTrunc e fh (toUint32 newsize)
      let err ← checkError
      tfsClose e fh
      pure err

def opFtruncate (e : Env) (fh : Nat) (newsize : Int) : M Int := finish (tfsTrunc e (ofFh fh) (toUint32 newsize))

/-- `op_read`: the value returned, and the bytes put into the buffer. -/
def opRead (e : Env) (fh size : Nat) (offset : Int) : M (Int × List UInt8) := do
  let (len, data) ← tfsRead e (ofFh fh) (toUint32 size) (toUint32 offset)
  let err ← checkError
  pure (if err ≠ 0 then err else toInt32 len, data)

def opWrite (e : Env) (fh : Nat) (buf : List UInt8) (size : Nat) (offset : Int) : M Int := do
  let len ← tfsWrite e (ofFh fh) buf (toUint32 size) (toUint32 offset)
  let err ← checkError
  pure (if err ≠ 0 then err else toInt32 len)

end Fuse

/-! ## Formatting -/

/-- `main` of `linux/mktfs.c` with the device open: the exit status. -/
def mktfs (e : Env) : M Int := do
  tfsInit e
  tfsFormat e
  let err ← Fuse.checkError
  pure (if err ≠ 0 then 1 else 0)

end TinyFs
