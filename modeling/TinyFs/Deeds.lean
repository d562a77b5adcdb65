/-
The public functions as sequences of steps. A public function brackets a body
of actions, errors and changes of the current directory; only the functions
that move to another directory change it. `tfs_write` and `tfs_read` deselect
the drive in the middle of their bodies.
-/
import TinyFs.Actions

namespace TinyFs

open Bytes

variable {e : Env} {mv : Bool} {α β : Type} {s s' : State}

/-- The call behind a dropped result. -/
theorem drop_eq_some {p : M α} (h : drop p s = some ((), s')) : ∃ a, p s = some (a, s') := by
  obtain ⟨a, t, h1, h2⟩ := Prog.bind_eq_some.mp h
  cases h2
  exact ⟨a, h1⟩

/-- A step of the body of a public function; `mv` allows a change of the current directory. -/
inductive Deed (e : Env) (mv : Bool) : State → State → Prop
  | act {s s' : State} : Act e s s' → Deed e mv s s'
  | err {s : State} (err : Err) : Deed e mv s { s with tfsLastError := err }
  | move {s : State} (b : Nat) : mv = true → Deed e mv s { s with currentDirBlk := b }

abbrev Deeds (e : Env) (mv : Bool) (p : M α) : Prop := Prog.Steps (Deed e mv) p

theorem Acts.deeds {p : M α} (h : Acts e p) : Deeds e mv p := h.mono fun _ _ => .act

theorem setErr_deeds (err : Err) : Deeds e mv (setErr err) := Prog.Steps.modify fun _ => .err err

open Prog.Steps (gets noFuel ite guard)

theorem findFile_deeds (name : List UInt8) (want : Bool) : Deeds e mv (findFile e name want) := by
  unfold findFile
  refine ite (fun _ => (setErr_deeds _).bind fun _ => .pure none) fun _ => (gets _).bind fun s => ?_
  refine (findWalk_looks name _ _ _).acts.deeds.bind fun w => ?_
  cases w with
  | error | found _ => exact .pure _
  | missing free =>
    refine ite (fun _ => .pure none) fun _ => ?_
    cases free with
    | none => exact appendDirBlock_acts.deeds
    | some p =>
      refine (gets _).bind fun t => ite (fun _ => ?_) fun _ => .pure _
      refine (driveReadBlock_acts _ _).deeds.bind fun _ => ifOk_steps ?_
      exact (Prog.Steps.modify fun _ => .act (.look (.dirBlk _))).bind fun _ => .pure _

theorem deleteDir_deeds (i : Nat) : Deeds e mv (deleteDir e i) := by
  have hacts : ∀ pos, Acts e (do
      modifyBuf fun b => b.setItemType i itemFree
      writeDirCleanup e
      ifOk () (freeBlock e pos) : M Unit) := fun pos =>
    (modifyBuf_acts _).bind fun _ => writeDirCleanup_acts.bind fun _ => ifOk_steps (freeBlock_acts _)
  unfold deleteDir
  refine (gets _).bind fun b => (driveReadBlock_acts _ _).deeds.bind fun _ => ifOk_steps ?_
  refine (gets _).bind fun sub => ite (fun _ => setErr_deeds _) fun _ => ite (fun _ => setErr_deeds _) fun _ => ?_
  exact (gets _).bind fun s => (driveReadBlock_acts _ _).deeds.bind fun _ => ifOk_steps (hacts _).deeds

theorem usage_deeds {p : M Unit} (hp : Deeds e mv p) (i : Nat) : Deeds e mv (do
    if (← itemUsageCount e i) > 0 then setErr .fileBusy else p) :=
  (gets _).bind fun _ => ite (fun _ => setErr_deeds _) fun _ => hp

/-! ## Bracketed functions -/

/-- The functions made of the guard, the bracket and one body. -/
def Op.plain : Op → Bool
  | .init | .changeDirRoot | .close _ | .write .. | .read .. => false
  | _ => true

/-- The bracketed functions that change the current directory. -/
def Op.moves : Op → Bool
  | .format | .changeDirParent | .changeDir _ => true
  | _ => false

/-- A run of a bracketed function is one of its body. -/
theorem Op.plain_body {c : Op} (hc : c.plain = true) (h : c.exec e s = some ((), s')) :
    ∃ (α : Type) (r a : α) (p : M α), Deeds e c.moves p ∧ enter r (out p) s = some (a, s') := by
  have hread : ∀ {mv : Bool} b, Deeds e mv (driveReadBlock e b .blkBuf) := fun b => (driveReadBlock_acts b _).deeds
  have hwrite : ∀ {mv : Bool} b, Deeds e mv (driveWriteBlock e b .blkBuf) := fun b => (driveWriteBlock_acts b _).deeds
  have hbuf : ∀ {mv : Bool} f, Deeds e mv (modifyBuf f) := fun f => (modifyBuf_acts f).deeds
  have hfind : ∀ {mv : Bool} name want, Deeds e mv (findFile e name want) := fun name want => findFile_deeds name want
  obtain ⟨a, h⟩ := drop_eq_some h
  cases c with
  | init | changeDirRoot | close | write | read => cases hc
  | format =>
    refine ⟨_, _, _, _, ?_, h⟩
    refine Prog.Steps.bind (Prog.Steps.modify fun t => .act (.bitmap _ t.loadedBitmapBlk)) fun _ =>
      (formatLoop_acts _ _).deeds.bind fun _ => ifOk_steps ?_
    refine (loadBitmap_acts _).deeds.bind fun _ => ifOk_steps (allocBlock_acts.deeds.bind fun pos => ifOk_steps ?_)
    refine (hbuf _).bind fun _ => (hwrite _).bind fun _ => ifOk_steps fun t _ t' hrun => ?_
    cases hrun
    exact .trans (.single (.move rootDirBlk rfl)) (.single (.act (.look (.dirBlk 0))))
  | getUsed =>
    exact ⟨_, _, _, _, (getUsedLoop_acts _ _ _).deeds.bind fun _ => .pure _, h⟩
  | readDir handler =>
    exact ⟨_, _, _, _, (gets _).bind fun s => (readDirLoop_looks handler _ _ _).acts.deeds, h⟩
  | changeDirParent =>
    refine ⟨_, _, _, _, ?_, h⟩
    refine (gets _).bind fun s => (hread _).bind fun _ => ifOk_steps ((gets _).bind fun b => ?_)
    exact ite (fun _ => setErr_deeds _) fun _ => Prog.Steps.modify fun _ => .move _ rfl
  | changeDir name =>
    refine ⟨_, _, _, _, ?_, h⟩
    refine (hfind _ _).bind fun item => ifOk_steps ((gets _).bind fun b => ?_)
    cases item with
    | none => exact setErr_deeds _
    | some i => exact ite (fun _ => setErr_deeds _) fun _ => Prog.Steps.modify fun _ => .move _ rfl
  | createDir name =>
    refine ⟨_, _, _, _, ?_, h⟩
    refine (hfind _ _).bind fun item => ifOk_steps ((gets _).bind fun b => ite (fun _ => setErr_deeds _) fun _ => ?_)
    refine allocBlock_acts.deeds.bind fun new => ifOk_steps ((hbuf _).bind fun _ => (gets _).bind fun s => ?_)
    exact (hwrite _).bind fun _ => ifOk_steps ((hbuf _).bind fun _ => hwrite _)
  | writeFile name data len ov =>
    refine ⟨_, _, _, _, ?_, h⟩
    refine (hfind _ _).bind fun item => ifOk_steps ((gets _).bind fun b => ite (fun _ => ?_) fun _ =>
      (writeFileData_acts _ _ _ _).deeds)
    refine ite (fun _ => setErr_deeds _) fun _ => usage_deeds ?_ _
    refine (freeFileBlocks_acts _).deeds.bind fun _ => ifOk_steps ((gets _).bind fun s => ?_)
    exact (hread _).bind fun _ => ifOk_steps (writeFileData_acts _ _ _ _).deeds
  | readFile name maxLen =>
    refine ⟨_, _, _, _, ?_, h⟩
    refine (hfind _ _).bind fun item => ifOk_steps ((gets _).bind fun b => ?_)
    cases item with
    | none => exact (setErr_deeds _).bind fun _ => .pure _
    | some i =>
      refine ite (fun _ => (setErr_deeds _).bind fun _ => .pure _) fun _ => ?_
      exact (readFileLoop_looks _ _ _ _).acts.deeds.bind fun _ => .pure _
  | delete name type =>
    refine ⟨_, _, _, _, ?_, h⟩
    refine (hfind _ _).bind fun item => ifOk_steps ((gets _).bind fun b => ?_)
    cases item with
    | none => exact setErr_deeds _
    | some i =>
      refine ite (fun _ => setErr_deeds _) fun _ => usage_deeds ?_ _
      exact ite (fun _ => (deleteFile_acts _).deeds) fun _ => ite (fun _ => deleteDir_deeds _) fun _ => setErr_deeds _
  | rename fromName toName =>
    refine ⟨_, _, _, _, ?_, h⟩
    refine (hfind _ _).bind fun item => ifOk_steps ?_
    cases item with
    | some i => exact setErr_deeds _
    | none =>
      refine (hfind _ _).bind fun item => ifOk_steps ?_
      cases item with
      | none => exact setErr_deeds _
      | some i => exact (hbuf _).bind fun _ => (gets _).bind fun s => hwrite _
  | stat name =>
    exact ⟨_, _, _, _, hfind _ _, h⟩
  | touch name =>
    refine ⟨_, _, _, _, ?_, h⟩
    refine (hfind _ _).bind fun item => ifOk_steps ((gets _).bind fun b => ite (fun _ => .pure _) fun _ => ?_)
    exact (hbuf _).bind fun _ => (gets _).bind fun s => hwrite _
  | openFile name =>
    have hhandle : ∀ fd f, Deeds e false (modifyHandle fd f) := fun fd f => (modifyHandle_acts fd f).deeds
    refine ⟨_, _, _, _, ?_, h⟩
    refine (hfind _ _).bind fun item => ifOk_steps ((gets _).bind fun b => ?_)
    cases item with
    | none => exact (setErr_deeds _).bind fun _ => .pure _
    | some i =>
      refine ite (fun _ => (setErr_deeds _).bind fun _ => .pure _) fun _ => (gets _).bind fun s => ?_
      split
      · exact (hhandle _ _).bind fun _ => .pure _
      · split
        · exact (setErr_deeds _).bind fun _ => .pure _
        · exact (hhandle _ _).bind fun _ => (hhandle _ _).bind fun _ => .pure _
  | trunc fd size =>
    exact ⟨_, _, _, _, (gets _).bind fun s => ite (fun _ => setErr_deeds _) fun _ =>
      (truncBody_acts fd.toNat size).deeds, h⟩

/-! ## Reading and writing through a handle -/

/-- A step of `tfs_write` or `tfs_read` past the check of the descriptor. -/
inductive Late (e : Env) : State → State → Prop
  | act {s s' : State} : Act e s s' → Late e s s'
  | deselect {s : State} : Late e s (s.call .deselect)

abbrev Lates (e : Env) (p : M α) : Prop := Prog.Steps (Late e) p

theorem Acts.lates {p : M α} (h : Acts e p) : Lates e p := h.mono fun _ _ => .act

theorem out_lates {p : M α} (h : Acts e p) : Lates e (out p) :=
  h.lates.bind fun _ => Prog.Steps.bind (Prog.Steps.modify fun _ => .deselect) fun _ => .pure _

theorem readBody_lates (hnd len offset : Nat) : Lates e (do
    let h ← handle hnd
    if offset > h.size then out (pure (0, []))
    else do
      let len := if len > h.size - offset then h.size - offset else len
      let seekRes ← seek e hnd offset false
      let s ← Prog.gets id
      if seekRes = .eof ∨ s.tfsLastError ≠ .ok ∨ len = 0 then out (pure (0, []))
      else do
        let h ← handle hnd
        let blkOs := (offset + 2 ^ 32 - h.currPos) % 2 ^ 32
        let blkLen := (dataLen + 2 ^ 32 - blkOs) % 2 ^ 32
        let (exit, data) ← readLoop e hnd e.fuel blkOs blkLen len []
        match exit with
        | .ret => pure (0, data)
        | _ => out (pure (data.length % 2 ^ 32, data)) : M (Nat × List UInt8)) := by
  refine Prog.Steps.bind (.gets _) fun h => .ite (fun _ => out_lates (.pure _)) fun _ => ?_
  refine (seek_acts _ _ _).lates.bind fun res => Prog.Steps.bind (.gets _) fun s => .ite
    (fun _ => out_lates (.pure _)) fun _ => ?_
  refine Prog.Steps.bind (.gets _) fun h => (readLoop_acts _ _ _ _ _ _).lates.bind fun x => ?_
  obtain ⟨exit, data⟩ := x
  cases exit with
  | ret => exact .pure _
  | done | out => exact out_lates (.pure _)

theorem writeBody_lates (hnd : Nat) (data : List UInt8) (len offset : Nat) : Lates e (do
    let seekRes ← seek e hnd offset true
    let append : Bool := seekRes = .append
    let s ← Prog.gets id
    if s.tfsLastError ≠ .ok then out (pure 0)
    else if len = 0 then out do
      if append then updateDirItem e hnd
      pure 0
    else do
      let h ← handle hnd
      let blkOs := (offset + 2 ^ 32 - h.currPos) % 2 ^ 32
      let blkLen := (dataLen + 2 ^ 32 - blkOs) % 2 ^ 32
      let (exit, w) ← writeLoop e hnd e.fuel
        { blkOs, blkLen, data, len, offset, append, updateItem := append, ret := 0 }
      match exit with
      | .ret => pure 0
      | .out => out (pure w.ret)
      | .done => out do
        if w.updateItem then updateDirItem e hnd
        pure w.ret : M Nat) := by
  have hupdate : ∀ (b : Bool) (n : Nat), Acts e (do
      if b then updateDirItem e hnd
      pure n) := fun b n => .guard (fun _ => updateDirItem_acts _) fun _ => .pure _
  refine (seek_acts _ _ _).lates.bind fun res => Prog.Steps.bind (.gets _) fun s => .ite
    (fun _ => out_lates (.pure _)) fun _ => ?_
  refine .ite (fun _ => out_lates (hupdate _ _)) fun _ => Prog.Steps.bind (.gets _) fun h => ?_
  refine (writeLoop_acts _ _ _).lates.bind fun x => ?_
  obtain ⟨exit, w⟩ := x
  cases exit with
  | ret => exact .pure _
  | out => exact out_lates (.pure _)
  | done => exact out_lates (hupdate _ _)

end TinyFs
