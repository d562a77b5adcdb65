/-
The public functions of `filesys.h`, with their arguments; a run of the file
system is a list of calls.
-/
import TinyFs.Model.Handle

namespace TinyFs

/-- A call of a public function. -/
inductive Op
  | init
  | format
  | getUsed
  | readDir (handler : List DirItem → Bool)
  | changeDirRoot
  | changeDirParent
  | changeDir (name : List UInt8)
  | createDir (name : List UInt8)
  | writeFile (name data : List UInt8) (len : Nat) (overwrite : Bool)
  | readFile (name : List UInt8) (maxLen : Nat)
  | delete (name : List UInt8) (type : UInt8)
  | rename (fromName toName : List UInt8)
  | stat (name : List UInt8)
  | touch (name : List UInt8)
  | openFile (name : List UInt8)
  | close (fd : Int)
  | trunc (fd : Int) (size : Nat)
  | write (fd : Int) (data : List UInt8) (len offset : Nat)
  | read (fd : Int) (len offset : Nat)

/-- What a call returns, with the data it hands over. -/
def Op.Result : Op → Type
  | .getUsed => Nat
  | .readDir _ => Bool × List DirItem
  | .readFile _ _ => Nat × List UInt8
  | .stat _ => Option Nat
  | .openFile _ => Int
  | .write _ _ _ _ => Nat
  | .read _ _ _ => Nat × List UInt8
  | _ => Unit

def Op.run (e : Env) : (op : Op) → M op.Result
  | .init => tfsInit e
  | .format => tfsFormat e
  | .getUsed => tfsGetUsed e
  | .readDir handler => tfsReadDir e handler
  | .changeDirRoot => tfsChangeDirRoot
  | .changeDirParent => tfsChangeDirParent e
  | .changeDir name => tfsChangeDir e name
  | .createDir name => tfsCreateDir e name
  | .writeFile name data len overwrite => tfsWriteFile e name data len overwrite
  | .readFile name maxLen => tfsReadFile e name maxLen
  | .delete name type => tfsDelete e name type
  | .rename fromName toName => tfsRename e fromName toName
  | .stat name => tfsStat e name
  | .touch name => tfsTouch e name
  | .openFile name => tfsOpen e name
  | .close fd => tfsClose e fd
  | .trunc fd size => tfsTrunc e fd size
  | .write fd data len offset => tfsWrite e fd data len offset
  | .read fd len offset => tfsRead e fd len offset

/-- A call whose result is dropped. -/
def drop {α : Type} (p : M α) : M Unit := do
  let _ ← p
  pure ()

def Op.exec (e : Env) (op : Op) : M Unit := drop (op.run e)

end TinyFs
