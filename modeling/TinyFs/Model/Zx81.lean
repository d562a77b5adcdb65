/-
The ZX81 front end, `zx81/main.c` and the character table of `zx81/term.c`: how
the file name of a `SAVE` becomes a call of the file system, and the comparison of
names this build uses (`TFS_FILENAME_CMP`).
-/
import TinyFs.Model.Dir

namespace TinyFs

namespace Zx81

def termBufferSize : Nat := 48

/-- The lower half of `zx2ascii[]`: digits, the letters in lower case, some signs.
The upper half is blank. -/
def zx2asciiTable : List UInt8 :=
  List.replicate 11 0x20 ++ [0x22, 0x40, 0x24, 0x3a, 0x3f] ++
    [0x28, 0x29, 0x3e, 0x3c, 0x3d, 0x2b, 0x2d, 0x2a, 0x2f, 0x3b, 0x2c, 0x2e] ++
    (List.range 10).map (fun i => 0x30 + UInt8.ofNat i) ++ (List.range 26).map (fun i => 0x61 + UInt8.ofNat i)

/-- `zx2ascii[c & 0x7f]` -/
def zx2ascii (c : UInt8) : UInt8 := zx2asciiTable.getD (c &&& 0x7f).toNat 0x20

/-- The loop of `term_zx2ascii`: the last character has its high bit set. -/
def termZx2asciiLoop : Nat → List UInt8 → List UInt8
  | 0, _ => []
  | n + 1, name => zx2ascii (name.headD 0) ::
    if name.headD 0 &&& 0x80 ≠ 0 then [] else termZx2asciiLoop n name.tail

/-- `term_zx2ascii`: the string left in `term_buf`. -/
def termZx2ascii (name : List UInt8) : List UInt8 := termZx2asciiLoop (termBufferSize - 1) name

/-- `c - 'A' + 'a'` for a capital letter. -/
def lowerCase (c : UInt8) : UInt8 := if 0x41 ≤ c ∧ c ≤ 0x5a then c - 0x41 + 0x61 else c

/-- The loop of `filename_cmp`, and the test behind it. -/
def filenameCmpLoop : Nat → List UInt8 → List UInt8 → Bool
  | 0, ref, _ => ref.headD 0 = 0
  | n + 1, ref, cmp =>
    let c := lowerCase (cmp.headD 0)
    if c ≠ ref.headD 0 then false
    else if c = 0 then true
    else filenameCmpLoop n ref.tail cmp.tail

def filenameCmp (ref cmp : List UInt8) : Bool := filenameCmpLoop nameLen ref cmp

/-- `save`, with the bytes from `VERSN` to `E_LINE` as the program. -/
def save (e : Env) (name program : List UInt8) : M Unit :=
  let buf := termZx2ascii name
  match buf.getD 1 0 with
  | 0x3e => tfsCreateDir e (buf.drop 2)
  | 0x3d =>
    match (buf.drop 2).dropWhile (· ≠ 0x3a) with
    | [] => setErr .noName
    | _ :: p => tfsRename e ((buf.drop 2).takeWhile (· ≠ 0x3a)) p
  | 0x2d => tfsDelete e (buf.drop 2) 0
  | 0x24 => tfsFormat e
  -- the prefixes of `LOAD`
  | 0x3f | 0x2a | 0x2f | 0x3c => setErr .nameInval
  | _ => tfsWriteFile e (buf.drop 1) program program.length true

end Zx81

end TinyFs
