/-
What the static functions of `filesys.c` do, on any medium and any drive: a
`Look` reads into the buffer, an `Act` may also write, change the bitmap cache
and move a handle. Each function is a sequence of such actions; none of them
changes the current directory or the variables of the mount, calls the drive
other than for a transfer, or ends with an error that refuses a call.
-/
import TinyFs.Lib.Steps
import TinyFs.Model.Api

namespace TinyFs

open Bytes

/-- An action that changes neither the medium nor the bitmap cache. -/
inductive Look (e : Env) : State → State → Prop
  | read {s s' : State} {b : Nat} : driveReadBlock e b .blkBuf s = some ((), s') → Look e s s'
  | buf {s : State} (v : Block) : Look e s { s with blkBuf := v }
  | dirBlk {s : State} (b : Nat) : Look e s { s with loadedDirBlk := b }
  | eof {s : State} : Look e s { s with tfsLastError := .unexpEof }

/-- An action of a static function. -/
inductive Act (e : Env) : State → State → Prop
  | look {s s' : State} : Look e s s' → Act e s s'
  | readBitmap {s s' : State} {b : Nat} : driveReadBlock e b .bitmapBlk s = some ((), s') → Act e s s'
  | write {s s' : State} {b : Nat} {sel : BufSel} : driveWriteBlock e b sel s = some ((), s') → Act e s s'
  | bitmap {s : State} (m : Block) (b : Nat) : Act e s { s with bitmapBlk := m, loadedBitmapBlk := b }
  | full {s : State} : Act e s { s with tfsLastError := .diskFull }
  | handle {s : State} (fd : Nat) (h : Handle) : Act e s { s with handles := Function.update s.handles fd h }

/-- An action that only reads and moves a handle. -/
inductive Move (e : Env) : State → State → Prop
  | look {s s' : State} : Look e s s' → Move e s s'
  | handle {s : State} (fd : Nat) (h : Handle) : Move e s { s with handles := Function.update s.handles fd h }

abbrev Looks (e : Env) {α : Type} (p : M α) : Prop := Prog.Steps (Look e) p

abbrev Moves (e : Env) {α : Type} (p : M α) : Prop := Prog.Steps (Move e) p

abbrev Acts (e : Env) {α : Type} (p : M α) : Prop := Prog.Steps (Act e) p

variable {e : Env} {α β : Type}

open Prog.Steps (gets noFuel ite guard)

theorem ifOk_steps {R : State → State → Prop} {r : α} {k : M α} (h : Prog.Steps R k) : Prog.Steps R (ifOk r k) := by
  intro s a s' hrun
  unfold ifOk at hrun
  split at hrun
  · exact h hrun
  · cases hrun
    exact .refl

theorem Looks.acts {p : M α} (h : Looks e p) : Acts e p := h.mono fun _ _ => .look

theorem Looks.moves {p : M α} (h : Looks e p) : Moves e p := h.mono fun _ _ => .look

theorem Moves.acts {p : M α} (h : Moves e p) : Acts e p := h.mono fun _ _ hm =>
  match hm with
  | .look hl => .look hl
  | .handle fd x => .handle fd x

@[simp] theorem handle_bind (fd : Nat) (f : Handle → M β) (s : State) : (handle fd >>= f) s = f (s.handles fd) s := rfl

@[simp] theorem modifyHandle_bind (fd : Nat) (g : Handle → Handle) (f : Unit → M β) (s : State) :
    (modifyHandle fd g >>= f) s = f () { s with handles := Function.update s.handles fd (g (s.handles fd)) } := rfl

@[simp] theorem modifyHandle_apply (fd : Nat) (g : Handle → Handle) (s : State) :
    modifyHandle fd g s = some ((), { s with handles := Function.update s.handles fd (g (s.handles fd)) }) := rfl

/-! ## Single actions -/

theorem driveReadBlock_looks (b : Nat) : Looks e (driveReadBlock e b .blkBuf) := fun _ _ _ h => .single (.read h)

theorem driveReadBlock_acts (b : Nat) (sel : BufSel) : Acts e (driveReadBlock e b sel) := fun _ _ _ h => by
  cases sel with
  | blkBuf => exact .single (.look (.read h))
  | bitmapBlk => exact .single (.readBitmap h)

theorem driveWriteBlock_acts (b : Nat) (sel : BufSel) : Acts e (driveWriteBlock e b sel) := fun _ _ _ h => .single
    (.write h)

theorem modifyBuf_looks (f : Block → Block) : Looks e (modifyBuf f) := Prog.Steps.modify fun s => .buf (f s.blkBuf)

theorem modifyBuf_acts (f : Block → Block) : Acts e (modifyBuf f) := (modifyBuf_looks f).acts

theorem modifyHandle_moves (fd : Nat) (f : Handle → Handle) : Moves e (modifyHandle fd f) :=
  Prog.Steps.modify fun s => .handle fd (f (s.handles fd))

theorem modifyHandle_acts (fd : Nat) (f : Handle → Handle) : Acts e (modifyHandle fd f) := (modifyHandle_moves fd f).acts

theorem setFull_acts : Acts e (setErr .diskFull) := Prog.Steps.modify fun _ => .full

theorem setEof_looks : Looks e (setErr .unexpEof) := Prog.Steps.modify fun _ => .eof

/-! ## The bitmap -/

theorem loadBitmap_acts (b : Nat) : Acts e (loadBitmap e b) :=
  (driveReadBlock_acts b .bitmapBlk).bind fun _ => Prog.Steps.modify fun s => by
    split
    · exact .bitmap s.bitmapBlk bitmapBlkInval
    · exact .bitmap s.bitmapBlk b

theorem nextBitmap_acts (start pos : Nat) {search : Nat → M Nat} (h : ∀ p, Acts e (search p)) :
    Acts e (nextBitmap e start pos search) := by
  unfold nextBitmap
  refine (gets _).bind fun s => ite (fun _ => ?_) fun _ => ?_
  · exact (Prog.Steps.modify fun t => .bitmap t.bitmapBlk bitmapBlkInval).bind fun _ => setFull_acts.bind fun _ => .pure 0
  · exact (loadBitmap_acts _).bind fun _ => ifOk_steps (h _)

theorem allocStep_acts (start pos : Nat) {search : Nat → M Nat} (h : ∀ p, Acts e (search p)) :
    Acts e (allocStep e start pos search) := by
  unfold allocStep
  refine (gets _).bind fun s => ?_
  split
  · exact nextBitmap_acts start pos h
  · refine ite (fun _ => nextBitmap_acts start pos h) fun _ => ?_
    exact (Prog.Steps.modify fun t => .bitmap _ t.loadedBitmapBlk).bind fun _ =>
      (gets _).bind fun _ => (driveWriteBlock_acts _ _).bind fun _ => ifOk_steps (.pure _)

theorem allocLoop_acts (start : Nat) : ∀ fuel pos, Acts e (allocLoop e start fuel pos)
  | 0, _ => noFuel
  | fuel + 1, pos => allocStep_acts start pos (allocLoop_acts start fuel)

theorem allocBlock_acts : Acts e (allocBlock e) := by
  unfold allocBlock
  refine (gets _).bind fun s => ite (fun _ => ?_) fun _ => allocLoop_acts _ _ _
  exact setFull_acts.bind fun _ => .pure 0

theorem freeBlock_acts (b : Nat) : Acts e (freeBlock e b) := by
  have hrel : Acts e (do
      Prog.modify fun s => { s with
        bitmapBlk := s.bitmapBlk.set (b % bitmapBlkCount / 8)
          (s.bitmapBlk.get (b % bitmapBlkCount / 8) &&& ~~~maskOf (b % bitmapBlkCount % 8)) }
      let s ← Prog.gets id
      driveWriteBlock e s.loadedBitmapBlk .bitmapBlk) :=
    (Prog.Steps.modify fun t => .bitmap _ t.loadedBitmapBlk).bind fun _ => (gets _).bind fun _ => driveWriteBlock_acts _ _
  unfold freeBlock
  refine (gets _).bind fun s => ite (fun _ => ?_) fun _ => hrel
  exact (loadBitmap_acts _).bind fun _ => ifOk_steps hrel

theorem freeFileBlocksLoop_acts : ∀ fuel pos, Acts e (freeFileBlocksLoop e fuel pos)
  | 0, _ => noFuel
  | fuel + 1, pos => by
    unfold freeFileBlocksLoop
    refine ite (fun _ => .pure ()) fun _ => (driveReadBlock_acts _ _).bind fun _ => ifOk_steps ?_
    exact (freeBlock_acts _).bind fun _ => ifOk_steps ((gets _).bind fun _ => freeFileBlocksLoop_acts fuel _)

theorem freeFileBlocks_acts (pos : Nat) : Acts e (freeFileBlocks e pos) := freeFileBlocksLoop_acts _ _

theorem getUsedLoop_acts : ∀ fuel pos used, Acts e (getUsedLoop e fuel pos used)
  | 0, _, _ => noFuel
  | fuel + 1, pos, used => by
    unfold getUsedLoop
    refine (loadBitmap_acts _).bind fun _ => ifOk_steps ((gets _).bind fun s => ite (fun _ => ?_) fun _ => ?_)
    · exact (loadBitmap_acts _).bind fun _ => .pure _
    · exact getUsedLoop_acts fuel _ _

theorem formatLoop_acts : ∀ fuel pos, Acts e (formatLoop e fuel pos)
  | 0, _ => noFuel
  | fuel + 1, pos => by
    unfold formatLoop
    have hrest : ∀ s : State, Acts e (do
        driveWriteBlock e pos .bitmapBlk
        ifOk () (if pos = s.lastBitmapBlk then pure () else formatLoop e fuel ((pos + bitmapBlkCount) % 2 ^ 32))) :=
      fun s => (driveWriteBlock_acts _ _).bind fun _ =>
        ifOk_steps (ite (fun _ => .pure _) fun _ => formatLoop_acts fuel _)
    refine (gets _).bind fun s => ite (fun _ => ?_) fun _ => hrest s
    exact (Prog.Steps.modify fun t => .bitmap _ t.loadedBitmapBlk).bind fun _ => hrest s

/-! ## Directories -/

theorem findWalk_looks (name : List UInt8) : ∀ fuel pos free, Looks e (findWalk e name fuel pos free)
  | 0, _, _ => noFuel
  | fuel + 1, pos, free => by
    unfold findWalk
    refine (driveReadBlock_looks _).bind fun _ => ifOk_steps ?_
    refine (Prog.Steps.modify fun _ => .dirBlk pos).bind fun _ => (gets _).bind fun b => ?_
    split
    · exact .pure _
    · exact ite (fun _ => .pure _) fun _ => findWalk_looks name fuel _ _

theorem appendDirBlock_acts : Acts e (appendDirBlock e) := by
  unfold appendDirBlock
  refine allocBlock_acts.bind fun freeBlk => ifOk_steps ((modifyBuf_acts _).bind fun _ => (gets _).bind fun s => ?_)
  refine (driveWriteBlock_acts _ _).bind fun _ => ifOk_steps ((modifyBuf_acts _).bind fun _ => ?_)
  refine (Prog.Steps.modify fun _ => .look (.dirBlk freeBlk)).bind fun _ => ?_
  exact (driveWriteBlock_acts _ _).bind fun _ => ifOk_steps (.pure _)

theorem relinkDir_acts (prev next : Nat) : Acts e (relinkDir e prev next) := by
  have hrel : Acts e (do
      let s ← Prog.gets id
      freeBlock e s.loadedDirBlk) := (gets _).bind fun s => freeBlock_acts s.loadedDirBlk
  unfold relinkDir
  refine (driveWriteBlock_acts _ _).bind fun _ => ifOk_steps (ite (fun _ => ?_) fun _ => hrel)
  refine (driveReadBlock_acts _ _).bind fun _ => ifOk_steps ((modifyBuf_acts _).bind fun _ => ?_)
  exact (driveWriteBlock_acts _ _).bind fun _ => ifOk_steps hrel

theorem writeDirCleanup_acts : Acts e (writeDirCleanup e) := by
  unfold writeDirCleanup
  refine (gets _).bind fun s => ite (fun _ => driveWriteBlock_acts _ _) fun _ =>
    ite (fun _ => driveWriteBlock_acts _ _) fun _ => ite (fun _ => ?_) fun _ => ?_
  · refine (driveReadBlock_acts _ _).bind fun _ => ifOk_steps ((modifyBuf_acts _).bind fun _ => ?_)
    exact (Prog.Steps.modify fun _ => .look (.dirBlk _)).bind fun _ => (gets _).bind fun c => relinkDir_acts _ _
  · exact (driveReadBlock_acts _ _).bind fun _ => ifOk_steps ((modifyBuf_acts _).bind fun _ => relinkDir_acts _ _)

theorem readDirLoop_looks (handler : List DirItem → Bool) : ∀ fuel pos seen, Looks e (readDirLoop e handler fuel pos seen)
  | 0, _, _ => noFuel
  | fuel + 1, pos, seen => by
    unfold readDirLoop
    refine (driveReadBlock_looks _).bind fun _ => ifOk_steps ((gets _).bind fun b => ?_)
    split
    · exact .pure _
    · exact ite (fun _ => .pure _) fun _ => readDirLoop_looks handler fuel _ _

/-! ## Whole files -/

theorem writeFileLoop_acts : ∀ fuel pos data len, Acts e (writeFileLoop e fuel pos data len)
  | 0, _, _, _ => noFuel
  | fuel + 1, pos, data, len => by
    unfold writeFileLoop
    refine ite (fun _ => .pure _) fun _ => ?_
    dsimp only
    have hrest : ∀ blkLen rem, Acts e (do
        modifyBuf fun b => b.copyData 0 data blkLen
        driveWriteBlock e pos .blkBuf
        ifOk () do
          modifyBuf fun b => b.setPrev pos
          let b ← blkBuf
          writeFileLoop e fuel b.next (data.drop blkLen) rem) := fun blkLen rem =>
      (modifyBuf_acts _).bind fun _ => (driveWriteBlock_acts _ _).bind fun _ =>
        ifOk_steps ((modifyBuf_acts _).bind fun _ => (gets _).bind fun b => writeFileLoop_acts fuel _ _ _)
    refine ite (fun _ => ?_) fun _ => ?_
    · exact allocBlock_acts.bind fun next => (modifyBuf_acts _).bind fun _ => hrest _ _
    · exact (modifyBuf_acts _).bind fun _ => hrest _ _

theorem writeFileData_acts (name data : List UInt8) (len i : Nat) : Acts e (writeFileData e name data len i) := by
  unfold writeFileData
  have hrest : ∀ pos, Acts e (ifOk () do
      modifyBuf (fillItem i itemFile pos len name)
      let s ← Prog.gets id
      driveWriteBlock e s.loadedDirBlk .blkBuf
      ifOk () do
        modifyBuf fun b => b.setPrev 0
        writeFileLoop e e.fuel pos data len) := fun pos =>
    ifOk_steps ((modifyBuf_acts _).bind fun _ => (gets _).bind fun s => (driveWriteBlock_acts _ _).bind fun _ =>
      ifOk_steps ((modifyBuf_acts _).bind fun _ => writeFileLoop_acts _ _ _ _))
  exact ite (fun _ => hrest 0) fun _ => allocBlock_acts.bind hrest

theorem readFileLoop_looks : ∀ fuel pos rem data, Looks e (readFileLoop e fuel pos rem data)
  | 0, _, _, _ => noFuel
  | fuel + 1, pos, rem, data => by
    unfold readFileLoop
    refine (driveReadBlock_looks _).bind fun _ => ifOk_steps ((gets _).bind fun b => ?_)
    dsimp only
    exact ite (fun _ => guard (fun _ => setEof_looks) fun _ => .pure _) fun _ => readFileLoop_looks fuel _ _ _

theorem deleteFile_acts (i : Nat) : Acts e (deleteFile e i) := by
  unfold deleteFile
  refine (gets _).bind fun b => (modifyBuf_acts _).bind fun _ => writeDirCleanup_acts.bind fun _ => ?_
  exact ifOk_steps (freeFileBlocks_acts _)

/-! ## Handles -/

theorem initPos_moves (fd : Nat) : Moves e (initPos fd) := modifyHandle_moves fd _

theorem initPos_acts (fd : Nat) : Acts e (initPos fd) := (initPos_moves fd).acts

theorem updateDirItem_acts (fd : Nat) : Acts e (updateDirItem e fd) := by
  unfold updateDirItem
  refine (gets _).bind fun h => (driveReadBlock_acts _ _).bind fun _ => ifOk_steps ?_
  exact (modifyBuf_acts _).bind fun _ => driveWriteBlock_acts _ _

theorem seekBack_moves (fd pos : Nat) : ∀ fuel, Moves e (seekBack e fd pos fuel)
  | 0 => noFuel
  | fuel + 1 => by
    unfold seekBack
    refine (gets _).bind fun h => ite (fun _ => ?_) fun _ => .pure _
    refine (driveReadBlock_looks _).moves.bind fun _ => ifOk_steps ((gets _).bind fun b => ite (fun _ => ?_) fun _ => ?_)
    · exact setEof_looks.moves.bind fun _ => .pure _
    · exact (modifyHandle_moves _ _).bind fun _ => seekBack_moves fd pos fuel

theorem seekForward_moves (fd pos : Nat) : ∀ fuel last, Moves e (seekForward e fd pos fuel last)
  | 0, _ => noFuel
  | fuel + 1, last => by
    unfold seekForward
    refine (gets _).bind fun h => ite (fun _ => ?_) fun _ => .pure _
    refine (driveReadBlock_looks _).moves.bind fun _ => ifOk_steps ((gets _).bind fun b => ?_)
    exact (modifyHandle_moves _ _).bind fun _ => seekForward_moves fd pos fuel _

theorem seekAppend_acts (fd pos : Nat) : ∀ fuel, Acts e (seekAppend e fd pos fuel)
  | 0 => noFuel
  | fuel + 1 => by
    unfold seekAppend
    refine (gets _).bind fun h => ite (fun _ => ?_) fun _ => .pure _
    refine allocBlock_acts.bind fun new => (modifyBuf_acts _).bind fun _ => (driveWriteBlock_acts _ _).bind fun _ => ?_
    refine ifOk_steps ((gets _).bind fun b => (modifyBuf_acts _).bind fun _ => ?_)
    exact (modifyHandle_acts _ _).bind fun _ => seekAppend_acts fd pos fuel

theorem seekEnd_acts (fd pos : Nat) (append : Bool) (last : Nat × Nat) : Acts e (seekEnd e fd pos append last) := by
  unfold seekEnd
  refine (gets _).bind fun h => ite (fun _ => ?_) fun _ => ite (fun _ => .pure _) fun _ => ite (fun _ => ?_) fun _ => ?_
  · exact (driveReadBlock_acts _ _).bind fun _ => ifOk_steps (.pure _)
  · refine allocBlock_acts.bind fun new => (modifyHandle_acts _ _).bind fun _ => ifOk_steps ?_
    exact (modifyBuf_acts _).bind fun _ => (initPos_acts _).bind fun _ => seekAppend_acts _ _ _
  · exact (modifyHandle_acts _ _).bind fun _ => seekAppend_acts _ _ _

theorem seek_acts (fd pos : Nat) (append : Bool) : Acts e (seek e fd pos append) := by
  unfold seek
  refine (gets _).bind fun h => guard (fun _ => initPos_acts _) fun _ => ?_
  refine (seekBack_moves _ _ _).acts.bind fun ok => ite (fun _ => (seekForward_moves _ _ _ _).acts.bind fun last =>
    ?_) fun _ =>
    .pure _
  cases last with
  | none => exact .pure _
  | some last => exact seekEnd_acts _ _ _ _

/-- `tfs_trunc` past its checks. -/
theorem truncBody_acts (hnd size : Nat) : Acts e (
    if size = 0 then do
      let h ← handle hnd
      freeFileBlocks e h.firstBlk
      ifOk () do
        modifyHandle hnd fun h => { h with firstBlk := 0 }
        initPos hnd
        updateDirItem e hnd
    else do
      let seekRes ← seek e hnd size true
      ifOk () do
        let b ← blkBuf
        let freeFrom := if seekRes = .ok then b.next else 0
        if seekRes = .ok then modifyBuf fun b => b.setNext 0
        let rest : M Unit := do
          freeFileBlocks e freeFrom
          ifOk () (updateDirItem e hnd)
        if seekRes = .append ∨ freeFrom ≠ 0 then
          let h ← handle hnd
          driveWriteBlock e h.currBlk .blkBuf
          ifOk () rest
        else rest) := by
  have hrest : ∀ freeFrom, Acts e (do
      freeFileBlocks e freeFrom
      ifOk () (updateDirItem e hnd)) := fun freeFrom =>
    (freeFileBlocks_acts _).bind fun _ => ifOk_steps (updateDirItem_acts _)
  refine ite (fun _ => ?_) fun _ => ?_
  · refine (gets _).bind fun h => (freeFileBlocks_acts _).bind fun _ => ifOk_steps ?_
    exact (modifyHandle_acts _ _).bind fun _ => (initPos_acts _).bind fun _ => updateDirItem_acts _
  · refine (seek_acts _ _ _).bind fun res => ifOk_steps
      ((gets _).bind fun b => guard (fun _ => modifyBuf_acts _) fun _ => ?_)
    refine ite (fun _ => ?_) fun _ => hrest _
    exact (gets _).bind fun h => (driveWriteBlock_acts _ _).bind fun _ => ifOk_steps (hrest _)

theorem writeNext_acts (fd : Nat) (append : Bool) {k : M (Exit × WriteVars)} (hk : Acts e k) (w : WriteVars) :
    Acts e (writeNext e fd append k w) := by
  unfold writeNext
  refine (gets _).bind fun b => ite (fun _ => ?_) fun _ => ?_
  · exact (gets _).bind fun h => (modifyBuf_acts _).bind fun _ => (modifyHandle_acts _ _).bind fun _ => hk
  · refine (modifyHandle_acts _ _).bind fun _ => (driveReadBlock_acts _ _).bind fun _ => ifOk_steps ?_
    exact (modifyHandle_acts _ _).bind fun _ => hk

theorem writeLoop_acts (fd : Nat) : ∀ fuel w, Acts e (writeLoop e fd fuel w)
  | 0, _ => noFuel
  | fuel + 1, w => by
    unfold writeLoop
    refine (modifyBuf_acts _).bind fun _ => (gets _).bind fun b => ?_
    refine Prog.Steps.guard₂ (fun _ => allocBlock_acts) (fun new => modifyBuf_acts _) fun _ => ?_
    refine (gets _).bind fun h => (driveWriteBlock_acts _ _).bind fun _ => ifOk_steps ?_
    refine guard (fun _ => modifyHandle_acts _ _) fun _ => ite (fun _ => .pure _) fun _ => ?_
    exact writeNext_acts fd _ (writeLoop_acts fd fuel _) _

theorem readLoop_acts (fd : Nat) : ∀ fuel blkOs blkLen len data, Acts e (readLoop e fd fuel blkOs blkLen len data)
  | 0, _, _, _, _ => noFuel
  | fuel + 1, blkOs, blkLen, len, data => by
    unfold readLoop
    refine (gets _).bind fun b => ?_
    dsimp only
    refine ite (fun _ => .pure _) fun _ => (modifyHandle_acts _ _).bind fun _ => ite (fun _ => .pure _) fun _ => ?_
    exact (driveReadBlock_acts _ _).bind fun _ => ifOk_steps (readLoop_acts fd fuel _ _ _ _)

end TinyFs
