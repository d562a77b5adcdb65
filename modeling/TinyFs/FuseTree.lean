/-
The file system behind the mount point. The FUSE driver keeps no directory from one
operation to the next, as every path starts at the root; but it keeps the error of the
last call, and `travel_path` does not clear it. So a `Mount` is a tree and an error,
and `Mount.Step` says what each operation on paths makes of it and replies.
-/
import TinyFs.TreeRuns

namespace TinyFs

open Bytes Chains KeyMap NameTree

namespace Fuse

/-! ## Operations and replies -/

/-- The operations that use no open file. -/
inductive MountOp
  | getattr (path : List UInt8)
  | readdir (path : List UInt8)
  | mkdir (path : List UInt8)
  | unlink (path : List UInt8)
  | rmdir (path : List UInt8)
  | rename (path newpath : List UInt8)
  | mknod (path : List UInt8)
  | statfs

/-- The value returned, with what is stored for the caller. -/
inductive Reply
  | code (code : Int)
  | attr (r : Int × Stat)
  | entries (r : Int × List (List UInt8 × Stat))
  | space (r : Int × Statvfs)

def MountOp.exec (e : Env) : MountOp → M Reply
  | .getattr path => do
    let r ← opGetattr e path
    pure (.attr r)
  | .readdir path => do
    let r ← opReaddir e path
    pure (.entries r)
  | .mkdir path => do
    let code ← opMkdir e path
    pure (.code code)
  | .unlink path => do
    let code ← opUnlink e path
    pure (.code code)
  | .rmdir path => do
    let code ← opRmdir e path
    pure (.code code)
  | .rename path newpath => do
    let code ← opRename e path newpath
    pure (.code code)
  | .mknod path => do
    let code ← opMknod e path
    pure (.code code)
  | .statfs => do
    let r ← opStatfs e
    pure (.space r)

def MountOp.path : MountOp → List UInt8
  | .getattr path | .readdir path | .mkdir path | .unlink path | .rmdir path | .rename path _ | .mknod path => path
  | .statfs => [slash]

/-- Paths start with a slash. -/
def MountOp.Absolute (op : MountOp) : Prop := op.path.headD 0 = slash

/-- The operation looks its path up. -/
def MountOp.travels : MountOp → Prop
  | .getattr path => cstr path ≠ [slash]
  | .statfs => False
  | _ => True

/-- The reply of an error code. -/
def MountOp.fail : MountOp → Int → Reply
  | .getattr _, code => .attr (code, Stat.zero)
  | .readdir _, code => .entries (code, [])
  | _, code => .code code

/-- The call that changes the directory of the last name. -/
def MountOp.call (name : List UInt8) : MountOp → Option DirCall
  | .mkdir _ => some (.createDir name)
  | .unlink _ => some (.delete name itemFile)
  | .rmdir _ => some (.delete name itemDir)
  | .mknod _ => some (.writeFile name [] 0 false)
  | _ => none

/-! ## Paths -/

/-- The part of a path up to its last slash. -/
def dirPart (path : List UInt8) : List UInt8 := (cstr path).take ((cstr path).length - (lastName (cstr path)).length)

/-- `new` is what `newpath` says behind the directory of `path`. -/
def Sibling (path newpath new : List UInt8) : Prop := cstr newpath = dirPart path ++ new ∧ slash ∉ new

theorem Sibling.unique {path newpath new new' : List UInt8} (h : Sibling path newpath new)
    (h' : Sibling path newpath new') : new = new' :=
  List.append_cancel_left (h.1.symm.trans h'.1)

/-! ## The mounted file system -/

structure Mount where
  tree : Tree Name FileNode
  err : Err

end Fuse

/-- A file system without the directory one is at. -/
def FileSys.mount (fs : FileSys) : Fuse.Mount := { tree := fs.tree, err := fs.err }

namespace Fuse

/-- The file system seen from a directory. -/
def Mount.inDir (m : Mount) (p : List Name) : FileSys := { tree := m.tree, cwd := p, err := .ok }

/-- The names lead to a directory, one inside the other. -/
def Mount.IsDir (m : Mount) (names : List (List UInt8)) : Prop :=
  (∀ name ∈ names, name.length ≤ nameLen) ∧ m.tree (names.map nameKey) = some .dir

open Classical in
/-- Where a path leads: the directory of its last name. An error that is still there
comes first. -/
noncomputable def Mount.locate (m : Mount) (path : List UInt8) : Except Err FileSys :=
  if m.err ≠ .ok then .error m.err
  else if m.IsDir (dirNames (cstr path)) then .ok (m.inDir ((dirNames (cstr path)).map nameKey))
  else .error .notExist

theorem Mount.locate_stale {m : Mount} {path : List UInt8} (h : m.err ≠ .ok) : m.locate path = .error m.err := if_pos h

theorem Mount.locate_dir {m : Mount} {path : List UInt8} (h : m.err = .ok) (hdir : m.IsDir (dirNames (cstr path))) :
    m.locate path = .ok (m.inDir ((dirNames (cstr path)).map nameKey)) := by
  rw [locate, if_neg (not_not.mpr h), if_pos hdir]

theorem Mount.locate_lost {m : Mount} {path : List UInt8} (h : m.err = .ok) (hdir : ¬ m.IsDir (dirNames (cstr path))) :
    m.locate path = .error .notExist := by
  rw [locate, if_neg (not_not.mpr h), if_neg hdir]

/-- A directory that is found is one of the same file system, and no error is left. -/
theorem Mount.locate_ok {m : Mount} {path : List UInt8} {fs : FileSys} (h : m.locate path = .ok fs) :
    fs.mount = m ∧ m.err = .ok := by
  by_cases herr : m.err = .ok
  · by_cases hdir : m.IsDir (dirNames (cstr path))
    · rw [locate_dir herr hdir, Except.ok.injEq] at h
      refine ⟨?_, herr⟩
      rw [← h, inDir, FileSys.mount, ← herr]
    · rw [locate_lost herr hdir] at h
      cases h
  · rw [locate_stale herr] at h
    cases h

/-- The attributes of a node; there are none for other types of items. -/
def nodeStat : Node FileNode → Option Stat
  | .dir => some { Stat.zero with mode := modeDir }
  | .leaf f => if f.type = itemFile then some { mode := modeReg, size := f.size } else none

def attrOf (fs : FileSys) (name : List UInt8) : Int × Stat :=
  if name.headD 0 = 0 then (-einval, Stat.zero) else
    match fs.get name with
    | none => (-enoent, Stat.zero)
    | some v => (nodeStat v).elim (1, Stat.zero) fun st => (0, st)

/-- The list holds the names of the current directory that have attributes, each of
them once and with these. -/
def Lists (fs : FileSys) (xs : List (List UInt8 × Stat)) : Prop :=
  (xs.map Prod.fst).Nodup ∧
    ∀ name st, (name, st) ∈ xs ↔ ∃ k, cstr k = name ∧ (fs.tree (fs.cwd ++ [k])).bind nodeStat = some st

/-- The directory a listing is of. -/
def listed (fs : FileSys) (name : List UInt8) : FileSys := if name = [] then fs else fs.changeDir name

/-- One operation. -/
inductive Mount.Step (m : Mount) : MountOp → Reply → Mount → Prop
  | root {path : List UInt8} :
    cstr path = [slash] → Step m (.getattr path) (.attr (0, { Stat.zero with mode := modeDir })) m
  | lost {op : MountOp} {err : Err} : op.travels → m.locate op.path = .error err →
      Step m op (op.fail (-errnoOf err)) { m with err := err }
  | long {op : MountOp} {fs : FileSys} : op.travels → m.locate op.path = .ok fs →
      nameLen < (lastName (cstr op.path)).length →
      Step m op (op.fail (-enametoolong)) m
  | edit {op : MountOp} {fs fs' : FileSys} {c : DirCall} :
      m.locate op.path = .ok fs → (lastName (cstr op.path)).length ≤ nameLen →
      op.call (lastName (cstr op.path)) = some c → fs.Step (.call (.onDir c)) fs' →
        Step m op (.code (-errnoOf fs'.err)) fs'.mount
  | renameFar {path newpath : List UInt8} {fs : FileSys} :
      m.locate path = .ok fs → (lastName (cstr path)).length ≤ nameLen →
      (∀ new, ¬ Sibling path newpath new) → Step m (.rename path newpath) (.code (-einval)) m
  | renameLong {path newpath new : List UInt8} {fs : FileSys} :
      m.locate path = .ok fs → (lastName (cstr path)).length ≤ nameLen →
      Sibling path newpath new → nameLen < new.length → Step m (.rename path newpath) (.code (-enametoolong)) m
  | rename {path newpath new : List UInt8} {fs fs' : FileSys} :
      m.locate path = .ok fs → (lastName (cstr path)).length ≤ nameLen →
      Sibling path newpath new → new.length ≤ nameLen →
        fs.Step (.call (.onDir (.rename (lastName (cstr path)) new))) fs' →
      Step m (.rename path newpath) (.code (-errnoOf fs'.err)) fs'.mount
  | getattr {path : List UInt8} {fs : FileSys} : cstr path ≠ [slash] → m.locate path = .ok fs →
      (lastName (cstr path)).length ≤ nameLen →
      Step m (.getattr path) (.attr (attrOf fs (lastName (cstr path)))) (fs.stat (lastName (cstr path))).mount
  | readdirLost {path : List UInt8} {fs : FileSys} : m.locate path = .ok fs → (lastName (cstr path)).length ≤ nameLen →
      (listed fs (lastName (cstr path))).err ≠ .ok →
      Step m (.readdir path) (.entries (-errnoOf (listed fs (lastName (cstr path))).err, []))
        (listed fs (lastName (cstr path))).mount
  | readdir {path : List UInt8} {fs : FileSys} {xs : List (List UInt8 × Stat)} : m.locate path = .ok fs →
      (lastName (cstr path)).length ≤ nameLen → (listed fs (lastName (cstr path))).err = .ok →
      Lists (listed fs (lastName (cstr path))) xs → Step m (.readdir path) (.entries (0, xs)) m
  | statfs {st : Statvfs} : Step m .statfs (.space (0, st)) { m with err := .ok }

/-- A run of operations, with their replies. -/
inductive Mount.Run : Mount → List MountOp → List Reply → Mount → Prop
  | nil {m : Mount} : Run m [] [] m
  | cons {m m₁ m' : Mount} {op : MountOp} {r : Reply} {ops : List MountOp} {rs : List Reply} :
    Step m op r m₁ → Run m₁ ops rs m' →
      Run m (op :: ops) (r :: rs) m'

/-! ## Comparing paths -/

theorem cstr_cons {x : UInt8} (hx : x ≠ 0) (a : List UInt8) : cstr (x :: a) = x :: cstr a :=
  List.takeWhile_cons_of_pos (by simpa using hx)

theorem cstr_zero (a : List UInt8) : cstr (0 :: a) = [] := rfl

/-- A name of 16 bytes read as a string, and its key. -/
theorem cstr_padTo (n : Nat) (name : List UInt8) : cstr (padTo n name) = (cstr name).take n := by
  induction n generalizing name with
  | zero => rfl
  | succ n ih =>
    by_cases h : name.headD 0 = 0
    · have hnil : cstr name = [] := by
        cases name with
        | nil => rfl
        | cons x name =>
          obtain rfl : x = 0 := h
          rfl
      rw [padTo_zero _ h, hnil]
      rfl
    · cases name with
      | nil => exact absurd rfl h
      | cons x name =>
        have hx : x ≠ 0 := h
        rw [padTo_succ n h, List.headD_cons, List.tail_cons, cstr_cons hx, cstr_cons hx, List.take_succ_cons, ih]

theorem nameKey_cstr (name : List UInt8) : nameKey (cstr name) = nameKey name := by
  show padTo nameLen _ = padTo nameLen _
  simp only [padTo, cstr, List.takeWhile_takeWhile, and_self, decide_eq_true_eq]

/-- `strncmp` over a part of a string without its end is about prefixes. -/
theorem strncmpEq_cstr : ∀ {n : Nat} {a b : List UInt8}, n ≤ (cstr a).length →
    (strncmpEq n a b = true ↔ (cstr a).take n <+: cstr b)
  | 0, _, _, _ => by simp [strncmpEq]
  | n + 1, [], _, h => by simp [cstr] at h
  | n + 1, x :: a, b, h => by
    have hx : x ≠ 0 := by
      rintro rfl
      rw [cstr_zero] at h
      cases h
    rw [cstr_cons hx, List.length_cons] at h
    rw [cstr_cons hx, List.take_succ_cons, strncmpEq]
    cases b with
    | nil => simp [cstr, hx]
    | cons y b =>
      by_cases hxy : x = y
      · subst hxy
        rw [cstr_cons hx, List.prefix_cons_inj, List.headD_cons, List.headD_cons, if_neg (by simp), if_neg hx,
          List.tail_cons,
          List.tail_cons]
        exact strncmpEq_cstr (by omega)
      · rw [List.headD_cons, List.headD_cons, if_pos hxy]
        refine iff_of_false Bool.false_ne_true fun hp => ?_
        by_cases hy : y = 0
        · rw [hy, cstr_zero] at hp
          cases List.prefix_nil.mp hp
        · rw [cstr_cons hy] at hp
          exact hxy (List.cons_prefix_cons.mp hp).1

/-- What `op_rename` takes for the new name. -/
theorem sibling_iff {path newpath new : List UInt8} : Sibling path newpath new ↔
    strncmpEq ((cstr path).length - (lastName (cstr path)).length) path newpath = true ∧
      new = (cstr newpath).drop ((cstr path).length - (lastName (cstr path)).length) ∧ slash ∉ new := by
  rw [strncmpEq_cstr (Nat.sub_le _ _), Sibling]
  change cstr newpath = dirPart path ++ new ∧ _ ↔ dirPart path <+: cstr newpath ∧ _
  have hlen : (dirPart path).length = (cstr path).length - (lastName (cstr path)).length := by
    rw [dirPart, List.length_take]
    omega
  rw [← hlen]
  constructor
  · rintro ⟨heq, hno⟩
    rw [heq]
    exact ⟨List.prefix_append _ _, (List.drop_left ..).symm, hno⟩
  · rintro ⟨hp, rfl, hno⟩
    obtain ⟨rest, hrest⟩ := hp
    rw [← hrest, List.drop_left] at hno ⊢
    exact ⟨rfl, hno⟩

end Fuse

end TinyFs
