/-
The drive that never fails: every call of the drive interface, run on a state
with no error pending, is one assignment to the variables. The later modules
run the code by rewriting with these equations.
-/
import TinyFs.Model.Alloc

namespace TinyFs

open Bytes

/-- No transfer of the drive fails (but one past its end). -/
def Env.NeverFails (e : Env) : Prop := ∀ k, e.drive.fails k = false

/-- The Linux build on a drive of `n` blocks that never fails. -/
def Env.linux (n : Nat) : Env :=
  { drive := { blkCount := some n, fails := fun _ => false, setsOk := false }, filenameCmp := strncmpName,
    maxFds := 32, fuel := n + 2 }

theorem Env.linux_neverFails (n : Nat) : (Env.linux n).NeverFails := fun _ => rfl

variable {α β : Type} {e : Env} {s : State}

theorem ifOk_ok {r : α} {k : M α} (h : s.tfsLastError = .ok) : ifOk r k s = k s := if_pos h

theorem ifOk_err {r : α} {k : M α} (h : s.tfsLastError ≠ .ok) : ifOk r k s = some (r, s) := if_neg h

@[simp] theorem setErr_apply (err : Err) : setErr err s = some ((), { s with tfsLastError := err }) := rfl

@[simp] theorem modifyBuf_apply (f : Block → Block) :
    modifyBuf f s = some ((), { s with blkBuf := f s.blkBuf }) := rfl

@[simp] theorem blkBuf_apply : blkBuf s = some (s.blkBuf, s) := rfl

@[simp] theorem setErr_bind (err : Err) (f : Unit → M β) :
    (setErr err >>= f) s = f () { s with tfsLastError := err } := rfl

@[simp] theorem modifyBuf_bind (g : Block → Block) (f : Unit → M β) :
    (modifyBuf g >>= f) s = f () { s with blkBuf := g s.blkBuf } := rfl

@[simp] theorem blkBuf_bind (f : Block → M β) : (blkBuf >>= f) s = f s.blkBuf s := rfl

theorem errAfter_ok (h : s.tfsLastError = .ok) : errAfter e s = .ok := by
  simp [errAfter, h]

theorem transferOk_of_lt (he : e.NeverFails) {b : Nat} (hb : b < s.blkCount) : transferOk e s b = true := by
  simp [transferOk, he s.log.transfers, hb]

/-- Any read that succeeds, whatever error is pending. -/
theorem driveReadBlock_any (he : e.NeverFails) {b : Nat} (hb : b < s.blkCount) :
    driveReadBlock e b .blkBuf s = some ((), { s with
      tfsLastError := errAfter e s, blkBuf := s.dev b, log := s.log.transfer (.read b true) }) := by
  simp [driveReadBlock, transferOk_of_lt he hb, State.setBuf]

/-- Any write that succeeds, whatever error is pending. -/
theorem driveWriteBlock_any (he : e.NeverFails) {b : Nat} (hb : b < s.blkCount) :
    driveWriteBlock e b .blkBuf s = some ((), { s with
      tfsLastError := errAfter e s, dev := Function.update s.dev b s.blkBuf,
      log := s.log.transfer (.write b true) }) := by
  simp [driveWriteBlock, transferOk_of_lt he hb, State.buf]

theorem driveReadBlock_ok (he : e.NeverFails) (h : s.tfsLastError = .ok) {b : Nat} (hb : b < s.blkCount) :
    driveReadBlock e b .blkBuf s =
      some ((), { s with blkBuf := s.dev b, log := s.log.transfer (.read b true) }) := by
  rw [driveReadBlock_any he hb, errAfter_ok h, ← h]

theorem driveWriteBlock_ok (he : e.NeverFails) (h : s.tfsLastError = .ok) {b : Nat} (hb : b < s.blkCount) :
    driveWriteBlock e b .blkBuf s =
      some ((), { s with dev := Function.update s.dev b s.blkBuf, log := s.log.transfer (.write b true) }) := by
  rw [driveWriteBlock_any he hb, errAfter_ok h, ← h]

theorem driveReadBitmap_ok (he : e.NeverFails) (h : s.tfsLastError = .ok) {b : Nat} (hb : b < s.blkCount) :
    driveReadBlock e b .bitmapBlk s =
      some ((), { s with bitmapBlk := s.dev b, log := s.log.transfer (.read b true) }) := by
  simp [driveReadBlock, transferOk_of_lt he hb, State.setBuf, errAfter_ok h, ← h]

theorem driveWriteBitmap_ok (he : e.NeverFails) (h : s.tfsLastError = .ok) {b : Nat} (hb : b < s.blkCount) :
    driveWriteBlock e b .bitmapBlk s =
      some ((), { s with dev := Function.update s.dev b s.bitmapBlk, log := s.log.transfer (.write b true) }) := by
  simp [driveWriteBlock, transferOk_of_lt he hb, State.buf, errAfter_ok h, ← h]

theorem loadBitmap_ok (he : e.NeverFails) (h : s.tfsLastError = .ok) {b : Nat} (hb : b < s.blkCount) :
    loadBitmap e b s = some ((), { s with
      bitmapBlk := s.dev b, loadedBitmapBlk := b, log := s.log.transfer (.read b true) }) := by
  rw [loadBitmap, Prog.bind_some (driveReadBitmap_ok he h hb)]
  simp [h]

/-- A public function starts with the error cleared and the drive selected. -/
theorem enter_run {r : α} {body : M α} (h : s.tfsLastError ≠ .noDev) :
    enter r body s = body { s with tfsLastError := .ok, log := s.log.call .select } := by
  simp only [enter, if_neg h]
  rfl

theorem enter_noDev {r : α} {body : M α} (h : s.tfsLastError = .noDev) : enter r body s = some (r, s) :=
  if_pos h

/-- A function ends with the drive deselected, whatever its body did. -/
theorem out_run (body : M α) (s : State) :
    out body s = (body s).map fun p => (p.1, p.2.call .deselect) := by
  rw [out, Prog.bind_apply]
  cases body s <;> rfl

end TinyFs
