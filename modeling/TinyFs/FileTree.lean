/-
The file system its callers see. A `FileSys` is a tree of names, the path one is at,
and the error of the last call; `FileSys.step` says what each call of the basic API
makes of it. The one thing it does not decide is when the disk is full: a call that
needs space may end with that error instead, and `run_fileSys` says that no block is
free then.
-/
import TinyFs.VolumeTree

namespace TinyFs

open Bytes NameTree

structure FileSys where
  tree : Tree Name FileNode
  cwd : List Name
  err : Err

namespace FileSys

/-- A freshly formatted volume. -/
def fresh : FileSys := { tree := .emptyDir, cwd := [], err := .ok }

/-- The path of a name in the current directory. -/
def path (fs : FileSys) (name : List UInt8) : List Name := fs.cwd ++ [nameKey name]

/-- What a name in the current directory stands for. -/
def get (fs : FileSys) (name : List UInt8) : Option (Node FileNode) := fs.tree (fs.path name)

/-- A name in the current directory given another meaning. -/
def put (fs : FileSys) (name : List UInt8) (U : Tree Name FileNode) : FileSys :=
  { fs with tree := fs.tree.graft (fs.path name) U, err := .ok }

def fail (fs : FileSys) (err : Err) : FileSys := { fs with err := err }

/-- The directory of that name holds something. -/
def Inhabited (fs : FileSys) (name : List UInt8) : Prop := ∃ k, fs.tree (fs.path name ++ [k]) ≠ none

def createDir (fs : FileSys) (name : List UInt8) : FileSys :=
  if name.headD 0 = 0 then fs.fail .noName else
    match fs.get name with
    | some _ => fs.fail .fileExist
    | none => fs.put name .emptyDir

def touch (fs : FileSys) (name : List UInt8) : FileSys :=
  if name.headD 0 = 0 then fs.fail .noName else
    match fs.get name with
    | some _ => fs.fail .ok
    | none => fs.put name (.leaf ⟨itemFile, 0, []⟩)

def writeFile (fs : FileSys) (name data : List UInt8) (overwrite : Bool) : FileSys :=
  if name.headD 0 = 0 then fs.fail .noName else
    match fs.get name with
    | some .dir => fs.fail .fileExist
    | some (.leaf f) =>
      if overwrite = false ∨ f.type ≠ itemFile then fs.fail .fileExist
      else fs.put name (.leaf ⟨itemFile, data.length, data⟩)
    | none => fs.put name (.leaf ⟨itemFile, data.length, data⟩)

open Classical in
/-- Only files and empty directories go, and only those of the type asked for. -/
noncomputable def delete (fs : FileSys) (name : List UInt8) (type : UInt8) : FileSys :=
  if name.headD 0 = 0 then fs.fail .noName else
    match fs.get name with
    | none => fs.fail .notExist
    | some .dir =>
      if type ≠ 0 ∧ itemDir ≠ type then fs.fail .notExist
      else if fs.Inhabited name then fs.fail .notEmpty
      else fs.put name .none
    | some (.leaf f) =>
      if (type ≠ 0 ∧ f.type ≠ type) ∨ f.type ≠ itemFile then fs.fail .notExist else fs.put name .none

/-- The whole part of the tree below the old name goes to the new one. -/
def rename (fs : FileSys) (fromName toName : List UInt8) : FileSys :=
  if toName.headD 0 = 0 then fs.fail .noName else
    match fs.get toName with
    | some _ => fs.fail .fileExist
    | none =>
      if fromName.headD 0 = 0 then fs.fail .noName else
        match fs.get fromName with
        | none => fs.fail .notExist
        | some _ => (fs.put fromName .none).put toName (fs.tree.below (fs.path fromName))

def changeDir (fs : FileSys) (name : List UInt8) : FileSys :=
  if name.headD 0 = 0 then fs.fail .noName else
    match fs.get name with
    | some .dir => { fs with cwd := fs.path name, err := .ok }
    | _ => fs.fail .notExist

def changeDirParent (fs : FileSys) : FileSys :=
  if fs.cwd = [] then fs.fail .notExist else { fs with cwd := fs.cwd.dropLast, err := .ok }

/-- The volume mounted again. -/
def remount (fs : FileSys) : FileSys := { fs with cwd := [], err := .ok }

/-- Looking a name up. -/
def stat (fs : FileSys) (name : List UInt8) : FileSys := fs.fail (if name.headD 0 = 0 then .noName else .ok)

/-- What a call makes of the file system where there is space for it. -/
noncomputable def step (fs : FileSys) : Call → FileSys
  | .onDir (.createDir name) => fs.createDir name
  | .onDir (.writeFile name data _ overwrite) => fs.writeFile name data overwrite
  | .onDir (.touch name) => fs.touch name
  | .onDir (.delete name type) => fs.delete name type
  | .onDir (.rename fromName toName) => fs.rename fromName toName
  | .changeDir name => fs.changeDir name
  | .changeDirParent => fs.changeDirParent
  | .changeDirRoot => { fs with cwd := [] }
  | .readDir _ => fs.fail .ok
  | .getUsed => fs.fail .ok

end FileSys

/-- The calls of the basic API but for `tfs_read_file`. -/
inductive Request
  | call (c : Call)
  | stat (name : List UInt8)
  | init
  | format

def Request.exec (e : Env) : Request → M Unit
  | .call c => c.exec e
  | .stat name => drop (tfsStat e name)
  | .init => tfsInit e
  | .format => tfsFormat e

/-- `data` has as many bytes as the call writes, a number of 32 bits. -/
def Request.Sized : Request → Prop
  | .call (.onDir (.writeFile _ data len _)) => data.length = len ∧ len < 2 ^ 32
  | _ => True

namespace FileSys

noncomputable def serve (fs : FileSys) : Request → FileSys
  | .call c => fs.step c
  | .stat name => fs.stat name
  | .init => fs.remount
  | .format => fresh

/-- The name stands for nothing, or for a file without bytes. -/
def Bare (fs : FileSys) (name : List UInt8) : Prop :=
  fs.get name = none ∨ ∃ f, fs.get name = some (.leaf f) ∧ f.bytes = []

/-- The calls that may find no block at all for what they store. -/
def NeedsSpace (fs : FileSys) : DirCall → Prop
  | .createDir _ => True
  | .touch name => fs.get name = none
  | .writeFile name _ _ _ => fs.Bare name
  | .delete _ _ | .rename _ _ => False

/-- One call: it does what it says, or the disk is full. A file that is only stored
in part has its first blocks, one at least, and keeps its full size. -/
inductive Step (fs : FileSys) : Request → FileSys → Prop
  | done {r : Request} : Step fs r (fs.serve r)
  | full {c : DirCall} : (fs.step (.onDir c)).err = .ok → fs.NeedsSpace c → Step fs (.call (.onDir c)) (fs.fail .diskFull)
  | part {name data : List UInt8} {len k : Nat} {ov : Bool} : (fs.writeFile name data ov).err = .ok → 0 < k →
      dataLen * k < data.length → Step fs (.call (.onDir (.writeFile name data len ov)))
        ((fs.put name (.leaf ⟨itemFile, data.length, data.take (dataLen * k)⟩)).fail .diskFull)

theorem Step.call {fs : FileSys} {c : Call} : Step fs (.call c) (fs.step c) := .done

/-- A run of calls, with the error after each of them. -/
inductive Run : FileSys → List Request → List Err → FileSys → Prop
  | nil {fs : FileSys} : Run fs [] [] fs
  | cons {fs fs₁ fs' : FileSys} {r : Request} {rs : List Request} {errs : List Err} :
    Step fs r fs₁ → Run fs₁ rs errs fs' →
      Run fs (r :: rs) (fs₁.err :: errs) fs'

end FileSys

end TinyFs
