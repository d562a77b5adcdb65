/-
An error left behind. Every function of the file system that can end with an
error resets `tfs_last_error` first; `tfs_change_dir_root` does not, and
`travel_path` tests the error right behind it. So after a call that failed the
next operation on any path fails with the same code, whatever it asks for.
-/
import TinyFs.Model.Fuse
import TinyFs.WellFormed

namespace TinyFs

namespace Fuse

open Bytes

variable {e : Env} {s : State} {e₁ e₂ : Err}

/-! ## Operations on paths -/

/-- An operation on a path. -/
inductive PathOp
  | getattr (path : List UInt8)
  | readdir (path : List UInt8)
  | mkdir (path : List UInt8)
  | unlink (path : List UInt8)
  | rmdir (path : List UInt8)
  | rename (path newpath : List UInt8)
  | mknod (path : List UInt8)
  | openFile (path : List UInt8)
  | truncate (path : List UInt8) (newsize : Int)

namespace PathOp

def path : PathOp → List UInt8
  | .getattr path | .readdir path | .mkdir path | .unlink path | .rmdir path | .rename path _ | .mknod path
  | .openFile path | .truncate path _ => path

/-- The code an operation returns. -/
def exec (e : Env) : PathOp → M Int
  | .getattr path => Prod.fst <$> opGetattr e path
  | .readdir path => Prod.fst <$> opReaddir e path
  | .mkdir path => opMkdir e path
  | .unlink path => opUnlink e path
  | .rmdir path => opRmdir e path
  | .rename path newpath => opRename e path newpath
  | .mknod path => opMknod e path
  | .openFile path => Prod.fst <$> opOpen e path
  | .truncate path newsize => opTruncate e path newsize

/-- The path starts at the root. -/
def Absolute (op : PathOp) : Prop := op.path.headD 0 = slash

/-- The one operation that never looks at a directory: the attributes of the root. -/
def RootStat : PathOp → Prop
  | .getattr path => cstr path = [slash]
  | _ => False

end PathOp

/-- The state with another error left behind. -/
def withErr (s : State) (err : Err) : State := { s with tfsLastError := err }

/-- Two runs ended with the same code, the same medium and the same handles. -/
def SameOutcome (r r' : Option (Int × State)) : Prop :=
  r.map (fun p => (p.1, p.2.dev, p.2.handles)) = r'.map fun p => (p.1, p.2.dev, p.2.handles)

/-! ## After an error -/

theorem map_apply {α β : Type} (f : α → β) (p : M α) (s : State) : (f <$> p) s = (p s).map fun x => (f x.1, x.2) := by
  show (p >>= fun a => pure (f a)) s = _
  rw [Prog.bind_apply]
  cases p s <;> rfl

theorem travelPath_stale {path : List UInt8} (hpath : path.headD 0 = slash) (hs : s.tfsLastError ≠ .ok) :
    travelPath e path s = some (none, { s with currentDirBlk := rootDirBlk }) := by
  rw [travelPath, if_pos hpath, tfsChangeDirRoot, Prog.modify_bind, ifOk_err (by exact hs)]

/-- The start of an operation gives the error that was left behind. -/
theorem withPath_stale {α : Type} {path : List UInt8} {fail : Int → α} {body : List UInt8 → M α}
    (hpath : path.headD 0 = slash) (hs : s.tfsLastError ≠ .ok) :
    withPath e path fail body s = some (fail (-errnoOf s.tfsLastError), { s with currentDirBlk := rootDirBlk }) := by
  rw [withPath, Prog.bind_some (travelPath_stale hpath hs)]
  rfl

/-- So does the operation, but for the attributes of the root. -/
theorem PathOp.exec_stale {op : PathOp} (habs : op.Absolute) (hroot : ¬ op.RootStat) (hs : s.tfsLastError ≠ .ok) :
    op.exec e s = some (-errnoOf s.tfsLastError, { s with currentDirBlk := rootDirBlk }) := by
  cases op with
  | getattr path =>
    have hpath : ¬ cstr path = [slash] := hroot
    rw [PathOp.exec, opGetattr, if_neg hpath, map_apply, withPath_stale (by exact habs) hs]
    rfl
  | readdir path =>
    rw [PathOp.exec, opReaddir, map_apply, withPath_stale (by exact habs) hs]
    rfl
  | openFile path =>
    rw [PathOp.exec, opOpen, map_apply, withPath_stale (by exact habs) hs]
    rfl
  | mkdir path | unlink path | rmdir path | rename path newpath | mknod path | truncate path newsize =>
    exact withPath_stale habs hs

theorem PathOp.exec_rootStat {op : PathOp} (hroot : op.RootStat) : op.exec e s = some (0, s) := by
  cases op with
  | getattr path =>
    have hpath : cstr path = [slash] := hroot
    rw [PathOp.exec, opGetattr, if_pos hpath]
    rfl
  | _ => exact hroot.elim

/-- Two errors left behind give the same outcome when they have the same code. -/
theorem PathOp.sameOutcome_iff {op : PathOp} (habs : op.Absolute) (hroot : ¬ op.RootStat) (h₁ : e₁ ≠ .ok)
    (h₂ : e₂ ≠ .ok) : SameOutcome (op.exec e (withErr s e₁)) (op.exec e (withErr s e₂)) ↔ errnoOf e₁ = errnoOf e₂ := by
  rw [PathOp.exec_stale (s := withErr s e₁) habs hroot h₁, PathOp.exec_stale (s := withErr s e₂) habs hroot h₂]
  simp only [SameOutcome, withErr, Option.map_some, Option.some.injEq, Prod.mk.injEq, and_true, neg_inj]

/-! ## Main results -/

/-- **The outcome of an operation on a path does not depend on the error left
behind exactly when** the operation asks for the attributes of the root. -/
theorem pathOp_independent (e : Env) (s : State) (op : PathOp) (habs : op.Absolute) :
    (∀ e₁ e₂, e₁ ≠ .noDev → e₂ ≠ .noDev → SameOutcome (op.exec e (withErr s e₁)) (op.exec e (withErr s e₂))) ↔
      op.RootStat := by
  constructor
  · intro h
    by_contra hroot
    have hcodes := (PathOp.sameOutcome_iff habs hroot Err.noConfusion Err.noConfusion).mp
      (h .io .notEmpty Err.noConfusion Err.noConfusion)
    exact absurd hcodes (by decide)
  · intro hroot e₁ e₂ _ _
    rw [PathOp.exec_rootStat hroot, PathOp.exec_rootStat hroot]
    rfl

/-- The codes of operations run one after the other. -/
def codes (e : Env) : List PathOp → M (List Int)
  | [] => pure []
  | op :: ops => do
    let code ← op.exec e
    let rest ← codes e ops
    pure (code :: rest)

/-- A formatted volume with the directory `/d` and the file `/d/f` in it. -/
def nested (e : Env) : M (List Int) := do
  formatted e
  codes e [.mkdir [47, 100], .mknod [47, 100, 47, 102]]

/-- Removing the directory that is not empty fails and leaves its error; then
making another directory fails with its code, where it would have succeeded. -/
theorem rmdir_fails_next : ∃ s s', nested (Env.linux 16) (State.boot fun _ => Buf.zero) = some ([0, 0], s) ∧
    (PathOp.rmdir [47, 100]).exec (Env.linux 16) s = some (-enotempty, s') ∧ s'.tfsLastError = .notEmpty ∧
    ¬ SameOutcome ((PathOp.mkdir [47, 101]).exec (Env.linux 16) (withErr s' .notEmpty))
      ((PathOp.mkdir [47, 101]).exec (Env.linux 16) (withErr s' .ok)) := by
  have hfinal : (nested (Env.linux 16) (State.boot fun _ => Buf.zero)).bind (fun p =>
      ((PathOp.rmdir [47, 100]).exec (Env.linux 16) p.2).map fun q =>
        (p.1, q.1, q.2.tfsLastError, ((PathOp.mkdir [47, 101]).exec (Env.linux 16) (withErr q.2 .ok)).map (·.1))) =
      some ([0, 0], -enotempty, .notEmpty, some 0) := by decide +kernel
  obtain ⟨⟨l, s⟩, hnested, hfinal⟩ := Option.bind_eq_some_iff.mp hfinal
  obtain ⟨⟨code, s'⟩, hrmdir, heq⟩ := Option.map_eq_some_iff.mp hfinal
  simp only [Prod.mk.injEq] at heq
  obtain ⟨rfl, rfl, herr, hclean⟩ := heq
  refine ⟨s, s', hnested, hrmdir, herr, fun hsame => ?_⟩
  have habs : (PathOp.mkdir [47, 101]).Absolute := rfl
  rw [PathOp.exec_stale (s := withErr s' .notEmpty) habs id Err.noConfusion] at hsame
  obtain ⟨⟨c, t⟩, hrun, hc⟩ := Option.map_eq_some_iff.mp hclean
  rw [hrun] at hsame
  simp only [SameOutcome, Option.map_some, Option.some.injEq, Prod.mk.injEq] at hsame
  have hcode : -errnoOf .notEmpty = c := hsame.1
  have hc : c = 0 := hc
  rw [← hcode] at hc
  exact absurd hc (by decide)

/-- With a file and a directory on the volume, the attributes of the root are those whatever is left behind, and those of
the file in the directory are not. -/
theorem pathOp_independent_smallTree : ∃ s, furnished (Env.linux 16) smallTree (State.boot fun _ => Buf.zero) =
    some ((), s) ∧
    (∀ e₁ e₂, e₁ ≠ .noDev → e₂ ≠ .noDev → SameOutcome ((PathOp.getattr [slash]).exec (Env.linux 16) (withErr s e₁))
      ((PathOp.getattr [slash]).exec (Env.linux 16) (withErr s e₂))) ∧
    ¬ ∀ e₁ e₂, e₁ ≠ .noDev → e₂ ≠ .noDev →
      SameOutcome ((PathOp.getattr [slash, 100, slash, 98]).exec (Env.linux 16) (withErr s e₁))
        ((PathOp.getattr [slash, 100, slash, 98]).exec (Env.linux 16) (withErr s e₂)) := by
  obtain ⟨s, _, hrun, -⟩ := furnished_ok (Env.linux_neverFails 16) rfl (by omega) (by omega) (by decide) smallTree
    (State.boot fun _ => Buf.zero)
  refine ⟨s, hrun, (pathOp_independent (Env.linux 16) s (.getattr [slash]) rfl).mpr rfl, fun hall => ?_⟩
  have hroot : cstr [slash, 100, slash, 98] = [slash] :=
    (pathOp_independent (Env.linux 16) s (.getattr [slash, 100, slash, 98]) rfl).mp hall
  exact absurd hroot (by decide)

end Fuse

end TinyFs
