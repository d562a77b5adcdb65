/-
Device bracketing: the drive calls a public function makes. All but `tfs_write`
and `tfs_read` leave through the one label in front of `drive_deselect`, on any
medium and any drive. Those two return in the middle of their loop when the
block that follows cannot be read, and leave the drive selected;
`Op.CutShort` says when that is.
-/
import TinyFs.Deeds
import TinyFs.Reliable

namespace TinyFs

open Bytes

/-! ## Traces -/

/-- Is the drive selected after some calls? `none`: a call is out of place. -/
def selectedAfter : Bool → List DriveCall → Option Bool
  | on, [] => some on
  | false, .select :: cs => selectedAfter true cs
  | true, .deselect :: cs => selectedAfter false cs
  | true, .read _ _ :: cs => selectedAfter true cs
  | true, .write _ _ :: cs => selectedAfter true cs
  | _, _ :: _ => none

/-- Every transfer is between a selection and its deselection, and these alternate. -/
def Bracketed (cs : List DriveCall) : Prop := selectedAfter false cs = some false

instance (cs : List DriveCall) : Decidable (Bracketed cs) := by
  unfold Bracketed
  infer_instance

def DriveCall.isTransfer : DriveCall → Bool
  | .read _ _ | .write _ _ => true
  | .select | .deselect => false

/-- The drive calls made between two states, in their order. -/
def CallsBetween (s s' : State) (cs : List DriveCall) : Prop := s'.log.calls = cs.reverse ++ s.log.calls

/-- Only transfers were made. -/
def Transfers (s s' : State) : Prop := ∃ cs, CallsBetween s s' cs ∧ ∀ c ∈ cs, c.isTransfer

variable {e : Env} {α β : Type} {s s' s₁ t : State} {cs ds : List DriveCall}

theorem selectedAfter_transfers (h : ∀ c ∈ cs, c.isTransfer) (ds : List DriveCall) :
    selectedAfter true (cs ++ ds) = selectedAfter true ds := by
  induction cs with
  | nil => rfl
  | cons c cs ih =>
    have hc := h c (by simp)
    have hcs := ih fun c hc => h c (by simp [hc])
    cases c with
    | read _ _ | write _ _ => exact hcs
    | select | deselect => cases hc

theorem bracketed_nil : Bracketed [] := rfl

theorem bracketed_transfers (h : ∀ c ∈ cs, c.isTransfer) : Bracketed (.select :: (cs ++ [.deselect])) :=
  selectedAfter_transfers h [.deselect]

/-- A function that does not deselect the drive. -/
theorem not_bracketed_open (h : ∀ c ∈ cs, c.isTransfer) : ¬ Bracketed (.select :: cs) := by
  have hopen := selectedAfter_transfers h []
  rw [List.append_nil] at hopen
  intro hb
  have hb : selectedAfter true cs = some false := hb
  rw [hopen] at hb
  cases hb

theorem CallsBetween.refl (h : s'.log = s.log) : CallsBetween s s' [] := by
  rw [CallsBetween, h]
  rfl

theorem CallsBetween.trans (h : CallsBetween s s₁ cs) (h' : CallsBetween s₁ s' ds) : CallsBetween s s' (cs ++ ds) := by
  rw [CallsBetween, h', h, List.reverse_append, List.append_assoc]

theorem CallsBetween.unique (h : CallsBetween s s' cs) (h' : CallsBetween s s' ds) : cs = ds := by
  have heq := List.append_cancel_right (h.symm.trans h')
  exact List.reverse_inj.mp heq

theorem Transfers.of_log (h : s'.log = s.log) : Transfers s s' := ⟨[], .refl h, by simp⟩

theorem Transfers.trans (h : Transfers s s₁) (h' : Transfers s₁ s') : Transfers s s' := by
  obtain ⟨cs, hcs, hc⟩ := h
  obtain ⟨ds, hds, hd⟩ := h'
  refine ⟨cs ++ ds, hcs.trans hds, fun c hmem => ?_⟩
  rcases List.mem_append.mp hmem with hmem | hmem
  · exact hc c hmem
  · exact hd c hmem

theorem driveReadBlock_transfers {b : Nat} {sel : BufSel} (h : driveReadBlock e b sel s = some ((), s')) :
    Transfers s s' := by
  refine ⟨[.read b (transferOk e s b)], ?_, by simp [DriveCall.isTransfer]⟩
  simp only [driveReadBlock, Prog.modify_apply, Option.some.injEq, Prod.mk.injEq, true_and] at h
  subst h
  cases sel <;> by_cases hok : transferOk e s b = true <;>
    simp [CallsBetween, hok, State.setBuf, DriveLog.transfer]

theorem driveWriteBlock_transfers {b : Nat} {sel : BufSel} (h : driveWriteBlock e b sel s = some ((), s')) :
    Transfers s s' := by
  refine ⟨[.write b (transferOk e s b)], ?_, by simp [DriveCall.isTransfer]⟩
  simp only [driveWriteBlock, Prog.modify_apply, Option.some.injEq, Prod.mk.injEq, true_and] at h
  subst h
  by_cases hok : transferOk e s b = true <;> simp [CallsBetween, hok, DriveLog.transfer]

theorem Act.transfers (h : Act e s s') : Transfers s s' := by
  cases h with
  | look h =>
    cases h with
    | read h => exact driveReadBlock_transfers h
    | buf | dirBlk | eof => exact .of_log rfl
  | readBitmap h => exact driveReadBlock_transfers h
  | write h => exact driveWriteBlock_transfers h
  | bitmap | full | handle => exact .of_log rfl

theorem Deed.transfers {mv : Bool} (h : Deed e mv s s') : Transfers s s' := by
  cases h with
  | act h => exact h.transfers
  | err | move => exact .of_log rfl

/-- A body that makes no drive call but transfers. -/
abbrev Transfering {α : Type} (p : M α) : Prop := Prog.Steps Transfers p

theorem acts_transfering {p : M α} (h : Acts e p) : Transfering p := h.mono fun _ _ => Act.transfers

theorem setErr_transfering (err : Err) : Transfering (setErr err) := Prog.Steps.modify fun _ => .of_log rfl

theorem transfers_of_run {p : M α} (hp : Transfering p) {a : α} (h : p s = some (a, s')) : Transfers s s' :=
  hp.lift (fun _ => .of_log rfl) (fun _ _ _ => .trans) h

/-! ## Functions with one way out -/

/-- The state in which the body of a public function starts. -/
def State.started (s : State) : State := { s with tfsLastError := .ok, log := s.log.call .select }

theorem enter_started {α : Type} {r : α} {p : M α} (h : s.tfsLastError ≠ .noDev) :
    enter r (out p) s = (p s.started).map fun q => (q.1, q.2.call .deselect) := by
  rw [enter_run h, out_run]
  rfl

theorem started_calls : CallsBetween s s.started [.select] := rfl

theorem call_calls (c : DriveCall) : CallsBetween s (s.call c) [c] := rfl

/-- A body that ends at the label `out`. -/
theorem out_calls {p : M α} (hp : Transfering p) {a : α} (h : out p s = some (a, s')) :
    ∃ cs, CallsBetween s s' (cs ++ [.deselect]) ∧ ∀ c ∈ cs, c.isTransfer := by
  rw [out_run, Option.map_eq_some_iff] at h
  obtain ⟨⟨a', t⟩, hrun, heq⟩ := h
  cases heq
  obtain ⟨cs, hcs, hc⟩ := transfers_of_run hp hrun
  exact ⟨cs, hcs.trans (call_calls _), hc⟩

theorem enter_out_bracketed {r a : α} {p : M α} (hp : Transfering p) (h : enter r (out p) s = some (a, s')) :
    ∃ cs, CallsBetween s s' cs ∧ Bracketed cs := by
  by_cases hd : s.tfsLastError = .noDev
  · rw [enter_noDev hd] at h
    cases h
    exact ⟨[], .refl rfl, bracketed_nil⟩
  · rw [enter_run hd] at h
    obtain ⟨cs, hcs, hc⟩ := out_calls hp h
    exact ⟨_, started_calls.trans hcs, bracketed_transfers hc⟩

/-- `tfs_init` selects the drive once it is there. -/
theorem tfsInit_bracketed (h : tfsInit e s = some ((), s')) : ∃ cs, CallsBetween s s' cs ∧ Bracketed cs := by
  unfold tfsInit driveInit at h
  rw [Prog.modify_bind, setErr_bind, Prog.modify_bind] at h
  cases hb : e.drive.blkCount with
  | none =>
    simp only [hb] at h
    rw [ifOk_err (by exact Err.noConfusion)] at h
    cases h
    exact ⟨[], .refl rfl, bracketed_nil⟩
  | some n =>
    simp only [hb] at h
    rw [ifOk_ok (by rfl), driveSelect, Prog.modify_bind, Prog.modify_bind] at h
    have hbody : Transfering (do
        loadBitmap e firstBitmapBlk
        ifOk () do
          Prog.modify fun s => { s with currentDirBlk := rootDirBlk, loadedDirBlk := 0 }) :=
      (acts_transfering (loadBitmap_acts _)).bind fun _ => ifOk_steps (Prog.Steps.modify fun _ => .of_log rfl)
    obtain ⟨cs, hcs, hc⟩ := out_calls hbody h
    exact ⟨_, CallsBetween.trans (call_calls .select) hcs, bracketed_transfers hc⟩

/-- `tfs_close` makes no drive call. -/
theorem tfsClose_bracketed {fd : Int} (h : tfsClose e fd s = some ((), s')) :
    ∃ cs, CallsBetween s s' cs ∧ Bracketed cs := by
  unfold tfsClose at h
  split at h
  · cases h
    exact ⟨[], .refl rfl, bracketed_nil⟩
  · rw [setErr_bind, Prog.gets_bind] at h
    split at h
    · cases h
      exact ⟨[], .refl rfl, bracketed_nil⟩
    · cases h
      exact ⟨[], .refl rfl, bracketed_nil⟩

/-- Every function but `tfs_write` and `tfs_read` deselects the drive it selected. -/
theorem Op.exec_bracketed {c : Op} (hw : ∀ fd data len offset, c ≠ .write fd data len offset)
    (hr : ∀ fd len offset, c ≠ .read fd len offset) (h : c.exec e s = some ((), s')) :
    ∃ cs, CallsBetween s s' cs ∧ Bracketed cs := by
  obtain ⟨a, hrun⟩ := drop_eq_some h
  cases c with
  | write fd data len offset => exact absurd rfl (hw fd data len offset)
  | read fd len offset => exact absurd rfl (hr fd len offset)
  | changeDirRoot =>
    cases hrun
    exact ⟨[], .refl rfl, bracketed_nil⟩
  | init => exact tfsInit_bracketed hrun
  | close fd => exact tfsClose_bracketed hrun
  | _ =>
    obtain ⟨_, _, _, _, hp, h⟩ := Op.plain_body rfl h
    exact enter_out_bracketed (hp.mono fun _ _ => Deed.transfers) h

end TinyFs
