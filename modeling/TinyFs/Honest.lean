/-
A drive that fails transfers, next to the same drive without failures. The code goes
on after some failures (a block whose successor could not be allocated is still
written), looks at `tfs_last_error` only now and then, and resets it in every call.
Here no failure is lost: a call that does not end with `TFS_ERR_IO` has met none, and
has done what it does on a drive that never fails.
-/
import TinyFs.Lib.Faults
import TinyFs.NoFailure
import TinyFs.Model.Api

namespace TinyFs

open Bytes
open Prog (Honest)

/-- The transfers of a drive; a failure is told of by `TFS_ERR_IO`. -/
def driveFaults (e : Env) : Prog.Faults State where
  count s := s.log.transfers
  faulty j := e.drive.fails j = true
  told s := s.tfsLastError = .io

theorem clean_iff {e : Env} {s s' : State} : (driveFaults e).Clean s s' ↔ NoFailure e s s' :=
  forall_congr' fun _ => forall_congr' fun _ => forall_congr' fun _ => Bool.not_eq_true _ ▸ Iff.rfl

/-- The Linux build on a drive that fails some of its transfers. -/
def Env.faulting (n : Nat) (fails : Nat → Bool) : Env := { Env.linux n with drive := { (Env.linux n).drive with fails } }

/-- `p` loses no failure; from every state. -/
abbrev Tells {α : Type} (e : Env) (p p' : M α) : Prop := Honest.Any (driveFaults e) p p'

/-- From the states with no error pending. -/
abbrev TellsOk {α : Type} (e : Env) (p p' : M α) : Prop := Honest (driveFaults e) (fun s => s.tfsLastError = .ok) p p'

variable {e : Env} {α β : Type} {s s' : State}

theorem errAfter_keeps (hset : e.drive.setsOk = false) : errAfter e s = s.tfsLastError := by
  rw [errAfter, hset]
  rfl

/-! ## The constructs -/

/-- A store that is no transfer. -/
theorem assign_any {g : State → State} {f f' : Unit → M β}
    (hg : ∀ s, (g s).tfsLastError = s.tfsLastError ∧ (g s).log.transfers = s.log.transfers)
    (h : Tells e (f ()) (f' ())) : Tells e (Prog.modify g >>= f) (Prog.modify g >>= f') :=
  .modify_bind (fun s => (hg s).2) (fun s h => (hg s).1.trans h) (fun _ => id) h

/-- It leaves no error pending. -/
theorem assign_tells {g : State → State} {f f' : Unit → M β}
    (hg : ∀ s, (g s).tfsLastError = s.tfsLastError ∧ (g s).log.transfers = s.log.transfers)
    (h : TellsOk e (f ()) (f' ())) : TellsOk e (Prog.modify g >>= f) (Prog.modify g >>= f') :=
  .modify_bind (fun s => (hg s).2) (fun s h => (hg s).1.trans h) (fun s hs => (hg s).1.trans hs) h

theorem setErr_tells {err : Err} : TellsOk e (setErr err) (setErr err) :=
  .modify fun s hs => ⟨rfl, fun hio => by cases hs.symm.trans hio⟩

/-- An error found in the data, not met on the drive. -/
theorem setErr_pure_tells {err : Err} (r : α) :
    TellsOk e (setErr err >>= fun _ => pure r) (setErr err >>= fun _ => pure r) :=
  setErr_tells.bind fun _ => .pure r

/-- What follows a check is entered with no error pending. -/
theorem ifOk_tells {r : α} {k k' : M α} (h : TellsOk e k k') : Tells e (ifOk r k) (ifOk r k') where
  later {s a s'} _ hrun := by
    by_cases hok : s.tfsLastError = .ok
    · rw [ifOk_ok hok] at hrun
      exact h.later hok hrun
    · rw [ifOk_err hok] at hrun
      cases hrun
      exact Nat.le_refl _
  same {s a s'} _ hrun hclean := by
    by_cases hok : s.tfsLastError = .ok
    · rw [ifOk_ok hok] at hrun ⊢
      exact h.same hok hrun hclean
    · rw [ifOk_err hok] at hrun ⊢
      exact hrun
  tells {s a s'} _ hrun hno := by
    by_cases hok : s.tfsLastError = .ok
    · rw [ifOk_ok hok] at hrun ⊢
      exact h.tells hok hrun hno
    · rw [ifOk_err hok] at hrun ⊢
      cases hrun
      exact ⟨hno, .of_eq rfl, rfl⟩

/-- A transfer that tells of its failure, and leaves `tfs_last_error` alone otherwise. -/
theorem tells_transfer {b : Nat} {f : State → Bool → State}
    (hcount : ∀ s ok, (f s ok).log.transfers = s.log.transfers + 1)
    (herr : ∀ s, (f s true).tfsLastError = s.tfsLastError) (hio : ∀ s, (f s false).tfsLastError = .io) :
    Tells e (Prog.modify fun s => f s (transferOk e s b)) (Prog.modify fun s => f s (transferOk e.reliable s b)) where
  later _ hrun := by
    cases hrun
    exact Nat.le.intro (hcount _ _).symm
  same {s a s'} _ hrun hclean := by
    have hnext : s'.log.transfers = s.log.transfers + 1 := by
      cases hrun
      exact hcount _ _
    have hok : e.drive.fails s.log.transfers = false :=
      clean_iff.mp hclean _ (Nat.le_refl _) (by rw [hnext]; exact Nat.lt_succ_self _)
    rw [Prog.modify_apply, transferOk_reliable hok]
    exact hrun
  tells {s a s'} _ hrun hno := by
    cases hrun
    change ¬ (f s (transferOk e s b)).tfsLastError = .io at hno
    rcases hok : transferOk e s b with - | -
    · rw [hok] at hno
      exact absurd (hio s) hno
    · rw [hok] at hno
      have hfine : e.drive.fails s.log.transfers = false := by
        rw [transferOk, Bool.and_eq_true, Bool.not_eq_true'] at hok
        exact hok.2
      refine ⟨fun h => hno ((herr s).trans h), clean_iff.mpr fun j hj hj' => ?_, ?_⟩
      · change j < (f s (transferOk e s b)).log.transfers at hj'
        rw [hcount] at hj'
        rw [show j = s.log.transfers by omega, hfine]
      · show some ((), f s (transferOk e.reliable s b)) = some ((), f s (transferOk e s b))
        rw [transferOk_reliable hfine]

section
variable (hset : e.drive.setsOk = false)
include hset

theorem driveReadBlock_tells (b : Nat) (sel : BufSel) :
    Tells e (driveReadBlock e b sel) (driveReadBlock e.reliable b sel) := by
  refine tells_transfer (b := b) (f := fun s ok =>
    let t := { s with log := s.log.transfer (.read b ok) }
    if ok then { t.setBuf (s.dev b) sel with tfsLastError := errAfter e s } else { t with tfsLastError := .io }) ?_
      ?_ fun _ => rfl
  · intro s ok
    cases ok <;> cases sel <;> rfl
  · intro s
    exact errAfter_keeps hset

theorem driveWriteBlock_tells (b : Nat) (sel : BufSel) :
    Tells e (driveWriteBlock e b sel) (driveWriteBlock e.reliable b sel) := by
  refine tells_transfer (b := b) (f := fun s ok =>
    let t := { s with log := s.log.transfer (.write b ok) }
    if ok then { t with dev := Function.update s.dev b (s.buf sel), tfsLastError := errAfter e s }
    else { t with tfsLastError := .io }) ?_ ?_ fun _ => rfl
  · intro s ok
    cases ok <;> rfl
  · intro s
    exact errAfter_keeps hset

/-! ## The bitmap -/

theorem loadBitmap_tells (b : Nat) : Tells e (loadBitmap e b) (loadBitmap e.reliable b) :=
  (driveReadBlock_tells hset b .bitmapBlk).bind fun _ => .modify fun s _ => by
    split
    · exact ⟨rfl, id⟩
    · exact ⟨rfl, id⟩

theorem nextBitmap_tells (start pos : Nat) {search search' : Nat → M Nat} (h : ∀ p, TellsOk e (search p) (search' p)) :
    TellsOk e (nextBitmap e start pos search) (nextBitmap e.reliable start pos search') := by
  refine .gets fun s => .ite ?_ ((loadBitmap_tells hset _).at.bind fun _ => ifOk_tells (h _))
  exact assign_tells (fun _ => ⟨rfl, rfl⟩) (setErr_pure_tells 0)

theorem allocLoop_tells (start : Nat) : ∀ fuel pos, TellsOk e (allocLoop e start fuel pos)
    (allocLoop e.reliable start fuel pos)
  | 0, _ => .noFuel
  | fuel + 1, pos => by
    unfold allocLoop allocStep
    refine .gets fun s => ?_
    split
    · exact nextBitmap_tells hset start pos (allocLoop_tells start fuel)
    · refine .ite (nextBitmap_tells hset start pos (allocLoop_tells start fuel)) (assign_tells (fun _ => ⟨rfl, rfl⟩) ?_)
      exact (driveWriteBlock_tells hset _ _).at.bind fun _ => ifOk_tells (.pure _)

theorem allocBlock_tells : TellsOk e (allocBlock e) (allocBlock e.reliable) :=
  .gets fun _ => .ite (setErr_pure_tells 0) (allocLoop_tells hset _ _ _)

theorem freeBlock_tells (b : Nat) : Tells e (freeBlock e b) (freeBlock e.reliable b) := by
  refine .gets fun s => .ite ((loadBitmap_tells hset _).bind fun _ => ifOk_tells ?_) ?_
  · exact assign_tells (fun _ => ⟨rfl, rfl⟩) (.gets fun _ => (driveWriteBlock_tells hset _ _).at)
  · exact assign_any (fun _ => ⟨rfl, rfl⟩) (.gets fun _ => driveWriteBlock_tells hset _ _)

theorem freeFileBlocksLoop_tells : ∀ fuel b, Tells e (freeFileBlocksLoop e fuel b) (freeFileBlocksLoop e.reliable fuel b)
  | 0, _ => .noFuel
  | fuel + 1, b => by
    unfold freeFileBlocksLoop
    refine .ite (.pure _) ((driveReadBlock_tells hset _ _).bind fun _ => ifOk_tells ?_)
    exact (freeBlock_tells hset b).at.bind fun _ => ifOk_tells (.gets fun _ => (freeFileBlocksLoop_tells fuel _).at)

theorem freeFileBlocks_tells (b : Nat) : Tells e (freeFileBlocks e b) (freeFileBlocks e.reliable b) :=
  freeFileBlocksLoop_tells hset _ b

theorem formatLoop_tells : ∀ fuel pos, Tells e (formatLoop e fuel pos) (formatLoop e.reliable fuel pos)
  | 0, _ => .noFuel
  | fuel + 1, pos => by
    have hwrite : ∀ s : State, Tells e
        (driveWriteBlock e pos .bitmapBlk >>= fun _ => ifOk ()
          (if pos = s.lastBitmapBlk then Pure.pure () else formatLoop e fuel ((pos + bitmapBlkCount) % 2 ^ 32)))
        (driveWriteBlock e.reliable pos .bitmapBlk >>= fun _ => ifOk ()
          (if pos = s.lastBitmapBlk then Pure.pure () else formatLoop e.reliable fuel
            ((pos + bitmapBlkCount) % 2 ^ 32))) :=
      fun s => (driveWriteBlock_tells hset _ _).bind fun _ => ifOk_tells (.ite (.pure _) (formatLoop_tells fuel _).at)
    unfold formatLoop
    exact .gets fun s => .ite (assign_any (fun _ => ⟨rfl, rfl⟩) (hwrite s)) (hwrite s)

theorem getUsedLoop_tells : ∀ fuel pos used, Tells e (getUsedLoop e fuel pos used) (getUsedLoop e.reliable fuel pos used)
  | 0, _, _ => .noFuel
  | fuel + 1, pos, used => by
    unfold getUsedLoop
    refine (loadBitmap_tells hset _).bind fun _ => ifOk_tells (.gets fun s => .ite ?_ (getUsedLoop_tells fuel _ _).at)
    exact (loadBitmap_tells hset _).at.bind fun _ => .pure _

end

/-! ## Directories -/

theorem scanItems_reliable (name : List UInt8) (b : Block) (pos : Nat) (is : List Nat) (free : Option (Nat × Nat)) :
    scanItems e.reliable name b pos is free = scanItems e name b pos is free := by
  induction is generalizing free with
  | nil => rfl
  | cons i is ih =>
    rw [scanItems, scanItems, ih, ih]
    rfl

section
variable (hset : e.drive.setsOk = false)
include hset

theorem findWalk_tells (name : List UInt8) : ∀ fuel pos free,
    Tells e (findWalk e name fuel pos free) (findWalk e.reliable name fuel pos free)
  | 0, _, _ => .noFuel
  | fuel + 1, pos, free => by
    unfold findWalk
    refine (driveReadBlock_tells hset _ _).bind fun _ => ifOk_tells (assign_tells (fun _ => ⟨rfl, rfl⟩)
      (.gets fun b => ?_))
    rw [scanItems_reliable]
    rcases scanItems e name b pos (List.range dirBlkItems) free with i | free'
    · exact .pure _
    · exact .ite (.pure _) (findWalk_tells name fuel _ _).at

theorem appendDirBlock_tells : TellsOk e (appendDirBlock e) (appendDirBlock e.reliable) := by
  refine (allocBlock_tells hset).bind fun _ => ifOk_tells (assign_tells (fun _ => ⟨rfl, rfl⟩) (.gets fun _ => ?_))
  refine (driveWriteBlock_tells hset _ _).at.bind fun _ => ifOk_tells (assign_tells (fun _ => ⟨rfl, rfl⟩) ?_)
  refine assign_tells (fun _ => ⟨rfl, rfl⟩) ((driveWriteBlock_tells hset _ _).at.bind fun _ => ?_)
  exact ifOk_tells (.pure _)

end

/-- A walk that does not fail ends with no error pending. -/
theorem findWalk_quiet {name : List UInt8} {fuel pos : Nat} {free : Option (Nat × Nat)} {w : Walk}
    (h : findWalk e name fuel pos free s = some (w, s')) (hw : w ≠ .error) : s'.tfsLastError = .ok := by
  induction fuel generalizing pos free s with
  | zero => cases h
  | succ fuel ih =>
    obtain ⟨_, s₁, -, h⟩ := Prog.bind_eq_some.mp h
    by_cases hok : s₁.tfsLastError = .ok
    · rw [ifOk_ok hok, Prog.modify_bind, blkBuf_bind] at h
      rcases hscan : scanItems e name s₁.blkBuf pos (List.range dirBlkItems) free with i | free'
      · simp only [hscan] at h
        cases h
        exact hok
      · simp only [hscan] at h
        split at h
        · cases h
          exact hok
        · exact ih h
    · rw [ifOk_err hok] at h
      cases h
      exact absurd rfl hw

theorem findFile_tells (hset : e.drive.setsOk = false) (name : List UInt8) (want : Bool) :
    TellsOk e (findFile e name want) (findFile e.reliable name want) := by
  refine .ite (setErr_pure_tells _) (.gets fun s => ?_)
  refine (findWalk_tells hset _ _ _ _).at.bind_post (fun w t => w ≠ .error → t.tfsLastError = .ok)
    (fun _ => findWalk_quiet) (fun _ => findWalk_quiet) fun w => ?_
  rcases w with - | i | free
  · exact .pure _
  · exact .pure _
  · refine .ite (.pure _) ?_
    rcases free with - | ⟨freeBlk, freeItem⟩
    · exact (appendDirBlock_tells hset).mono fun _ ht => ht Walk.noConfusion
    · refine .gets fun s => .ite ((driveReadBlock_tells hset _ _).at.bind fun _ => ifOk_tells ?_) (.pure _)
      exact assign_tells (fun _ => ⟨rfl, rfl⟩) (.pure _)

section
variable (hset : e.drive.setsOk = false)
include hset

theorem relinkDir_tells (prev next : Nat) : Tells e (relinkDir e prev next) (relinkDir e.reliable prev next) := by
  refine (driveWriteBlock_tells hset _ _).bind fun _ => ifOk_tells (.ite ?_ (.gets fun _ => (freeBlock_tells hset _).at))
  refine (driveReadBlock_tells hset _ _).at.bind fun _ => ifOk_tells (assign_tells (fun _ => ⟨rfl, rfl⟩) ?_)
  exact (driveWriteBlock_tells hset _ _).at.bind fun _ => ifOk_tells (.gets fun _ => (freeBlock_tells hset _).at)

theorem writeDirCleanup_tells : Tells e (writeDirCleanup e) (writeDirCleanup e.reliable) := by
  refine .gets fun s => .ite (driveWriteBlock_tells hset _ _) (.ite (driveWriteBlock_tells hset _ _) (.ite ?_ ?_))
  · refine (driveReadBlock_tells hset _ _).bind fun _ => ifOk_tells (assign_tells (fun _ => ⟨rfl, rfl⟩) ?_)
    exact assign_tells (fun _ => ⟨rfl, rfl⟩) (.gets fun _ => (relinkDir_tells hset _ _).at)
  · refine (driveReadBlock_tells hset _ _).bind fun _ => ifOk_tells ?_
    exact assign_tells (fun _ => ⟨rfl, rfl⟩) (relinkDir_tells hset _ _).at

theorem readDirLoop_tells (handler : List DirItem → Bool) : ∀ fuel pos seen,
    Tells e (readDirLoop e handler fuel pos seen) (readDirLoop e.reliable handler fuel pos seen)
  | 0, _, _ => .noFuel
  | fuel + 1, pos, seen => by
    unfold readDirLoop
    refine (driveReadBlock_tells hset _ _).bind fun _ => ifOk_tells (.gets fun b => ?_)
    rcases passItems handler b (List.range dirBlkItems) seen with ⟨seen', more⟩
    cases more
    · exact .pure _
    · exact .ite (.pure _) (readDirLoop_tells handler fuel _ _).at

/-! ## Whole files -/

theorem writeFileLoop_tells : ∀ fuel pos data len,
    TellsOk e (writeFileLoop e fuel pos data len) (writeFileLoop e.reliable fuel pos data len)
  | 0, _, _, _ => .noFuel
  | fuel + 1, pos, data, len => by
    have hwrite : ∀ blkLen rem, Tells e
        (driveWriteBlock e pos .blkBuf >>= fun _ => ifOk () (modifyBuf (fun b => b.setPrev pos) >>= fun _ =>
          blkBuf >>= fun b => writeFileLoop e fuel b.next (data.drop blkLen) rem))
        (driveWriteBlock e.reliable pos .blkBuf >>= fun _ => ifOk () (modifyBuf (fun b => b.setPrev pos) >>= fun _ =>
          blkBuf >>= fun b => writeFileLoop e.reliable fuel b.next (data.drop blkLen) rem)) := fun blkLen rem =>
      (driveWriteBlock_tells hset _ _).bind fun _ => ifOk_tells (assign_tells (fun _ => ⟨rfl, rfl⟩)
        (.gets fun b => writeFileLoop_tells fuel b.next _ _))
    unfold writeFileLoop
    refine .ite (.pure _) (.ite ?_ ?_)
    · refine (allocBlock_tells hset).bind fun _ => assign_any (fun _ => ⟨rfl, rfl⟩) ?_
      exact assign_any (fun _ => ⟨rfl, rfl⟩) (hwrite _ _)
    · refine assign_tells (fun _ => ⟨rfl, rfl⟩) (assign_tells (fun _ => ⟨rfl, rfl⟩) ?_)
      exact (hwrite _ _).at

theorem writeFileData_tells (name data : List UInt8) (len i : Nat) :
    TellsOk e (writeFileData e name data len i) (writeFileData e.reliable name data len i) := by
  have hrest : ∀ pos, Tells e
      (ifOk () (modifyBuf (fillItem i itemFile pos len name) >>= fun _ => Prog.gets id >>= fun s =>
        driveWriteBlock e s.loadedDirBlk .blkBuf >>= fun _ => ifOk () (modifyBuf (fun b => b.setPrev 0) >>= fun _ =>
          writeFileLoop e e.fuel pos data len)))
      (ifOk () (modifyBuf (fillItem i itemFile pos len name) >>= fun _ => Prog.gets id >>= fun s =>
        driveWriteBlock e.reliable s.loadedDirBlk .blkBuf >>= fun _ => ifOk ()
          (modifyBuf (fun b => b.setPrev 0) >>= fun _ =>
          writeFileLoop e.reliable e.fuel pos data len))) := fun pos =>
    ifOk_tells (assign_tells (fun _ => ⟨rfl, rfl⟩) (.gets fun _ => (driveWriteBlock_tells hset _ _).at.bind fun _ =>
      ifOk_tells (assign_tells (fun _ => ⟨rfl, rfl⟩) (writeFileLoop_tells hset _ _ _ _))))
  refine .ite (hrest 0).at ?_
  exact (allocBlock_tells hset).bind hrest

theorem readFileLoop_tells : ∀ fuel pos rem data,
    Tells e (readFileLoop e fuel pos rem data) (readFileLoop e.reliable fuel pos rem data)
  | 0, _, _, _ => .noFuel
  | fuel + 1, pos, rem, data => by
    unfold readFileLoop
    refine (driveReadBlock_tells hset _ _).bind fun _ => ifOk_tells (.gets fun b => .ite (.ite ?_ (.pure _)) ?_)
    · exact setErr_pure_tells _
    · exact (readFileLoop_tells fuel _ _ _).at

/-! ## Deleting -/

theorem deleteFile_tells (i : Nat) : Tells e (deleteFile e i) (deleteFile e.reliable i) :=
  .gets fun _ => assign_any (fun _ => ⟨rfl, rfl⟩) ((writeDirCleanup_tells hset).bind fun _ =>
    ifOk_tells (freeFileBlocks_tells hset _).at)

theorem deleteDir_tells (i : Nat) : Tells e (deleteDir e i) (deleteDir e.reliable i) := by
  refine .gets fun b => (driveReadBlock_tells hset _ _).bind fun _ => ifOk_tells (.gets fun sub => ?_)
  refine .ite setErr_tells (.ite setErr_tells (.gets fun s => ?_))
  refine (driveReadBlock_tells hset _ _).at.bind fun _ => ifOk_tells (assign_tells (fun _ => ⟨rfl, rfl⟩) ?_)
  exact (writeDirCleanup_tells hset).at.bind fun _ => ifOk_tells (freeBlock_tells hset _).at

/-! ## Seeking -/

theorem updateDirItem_tells (fd : Nat) : Tells e (updateDirItem e fd) (updateDirItem e.reliable fd) :=
  .gets fun _ => (driveReadBlock_tells hset _ _).bind fun _ => ifOk_tells (assign_tells (fun _ => ⟨rfl, rfl⟩)
    (driveWriteBlock_tells hset _ _).at)

theorem seekBack_tells (fd pos : Nat) : ∀ fuel, Tells e (seekBack e fd pos fuel) (seekBack e.reliable fd pos fuel)
  | 0 => .noFuel
  | fuel + 1 => by
    unfold seekBack
    refine .gets fun h => .ite ((driveReadBlock_tells hset _ _).bind fun _ => ifOk_tells (.gets fun b => .ite ?_ ?_))
      (.pure _)
    · exact setErr_pure_tells _
    · exact assign_tells (fun _ => ⟨rfl, rfl⟩) (seekBack_tells fd pos fuel).at

theorem seekForward_tells (fd pos : Nat) : ∀ fuel last,
    Tells e (seekForward e fd pos fuel last) (seekForward e.reliable fd pos fuel last)
  | 0, _ => .noFuel
  | fuel + 1, last => by
    unfold seekForward
    refine .gets fun h => .ite ((driveReadBlock_tells hset _ _).bind fun _ => ifOk_tells (.gets fun b => ?_)) (.pure _)
    exact assign_tells (fun _ => ⟨rfl, rfl⟩) (seekForward_tells fd pos fuel _).at

theorem seekAppend_tells (fd pos : Nat) : ∀ fuel, TellsOk e (seekAppend e fd pos fuel) (seekAppend e.reliable fd pos fuel)
  | 0 => .noFuel
  | fuel + 1 => by
    unfold seekAppend
    refine .gets fun h => .ite ((allocBlock_tells hset).bind fun _ => ?_) (.pure _)
    refine assign_any (fun _ => ⟨rfl, rfl⟩) ((driveWriteBlock_tells hset _ _).bind fun _ => ifOk_tells
      (.gets fun b => ?_))
    exact assign_tells (fun _ => ⟨rfl, rfl⟩) (assign_tells (fun _ => ⟨rfl, rfl⟩)
      (seekAppend_tells fd pos fuel))

theorem seekEnd_tells (fd pos : Nat) (append : Bool) (last : Nat × Nat) :
    TellsOk e (seekEnd e fd pos append last) (seekEnd e.reliable fd pos append last) := by
  refine .gets fun h => .ite ((driveReadBlock_tells hset _ _).at.bind fun _ => ifOk_tells (.pure _))
    (.ite (.pure _) (.ite ?_ ?_))
  · refine (allocBlock_tells hset).bind fun _ => assign_any (fun _ => ⟨rfl, rfl⟩) (ifOk_tells ?_)
    exact assign_tells (fun _ => ⟨rfl, rfl⟩) (assign_tells (fun _ => ⟨rfl, rfl⟩)
      (seekAppend_tells hset _ _ _))
  · exact assign_tells (fun _ => ⟨rfl, rfl⟩) (seekAppend_tells hset _ _ _)

end

theorem seekBack_quiet {fd pos fuel : Nat} (h : seekBack e fd pos fuel s = some (true, s')) (hok : s.tfsLastError = .ok) :
    s'.tfsLastError = .ok := by
  induction fuel generalizing s with
  | zero => cases h
  | succ fuel ih =>
    rw [seekBack, handle, Prog.gets_bind] at h
    split at h
    · obtain ⟨_, s₁, -, h⟩ := Prog.bind_eq_some.mp h
      by_cases hok₁ : s₁.tfsLastError = .ok
      · rw [ifOk_ok hok₁, blkBuf_bind] at h
        split at h
        · cases h
        · exact ih h hok₁
      · rw [ifOk_err hok₁] at h
        cases h
    · cases h
      exact hok

theorem seekForward_quiet {fd pos fuel : Nat} {last last' : Nat × Nat}
    (h : seekForward e fd pos fuel last s = some (some last', s')) (hok : s.tfsLastError = .ok) :
    s'.tfsLastError = .ok := by
  induction fuel generalizing s last with
  | zero => cases h
  | succ fuel ih =>
    rw [seekForward, handle, Prog.gets_bind] at h
    split at h
    · obtain ⟨_, s₁, -, h⟩ := Prog.bind_eq_some.mp h
      by_cases hok₁ : s₁.tfsLastError = .ok
      · rw [ifOk_ok hok₁, blkBuf_bind] at h
        exact ih h hok₁
      · rw [ifOk_err hok₁] at h
        cases h
    · cases h
      exact hok

theorem seek_tells (hset : e.drive.setsOk = false) (fd pos : Nat) (append : Bool) :
    TellsOk e (seek e fd pos append) (seek e.reliable fd pos append) := by
  have hwalk : TellsOk e (seekWalk e fd pos append) (seekWalk e.reliable fd pos append) := by
    refine (seekBack_tells hset _ _ _).at.bind_post (fun r t => r = true → t.tfsLastError = .ok)
      (fun hs hrun hr => seekBack_quiet (hr ▸ hrun) hs) (fun hs hrun hr => seekBack_quiet (hr ▸ hrun) hs) fun r => ?_
    cases r
    · exact .pure _
    · refine Honest.mono ?_ fun _ (ht : true = true → _) => ht rfl
      refine (seekForward_tells hset _ _ _ _).at.bind_post (fun r t => r ≠ none → t.tfsLastError = .ok) ?_ ?_ fun r => ?_
      · intro s r s₁ hs hrun hr
        obtain ⟨last, rfl⟩ := Option.ne_none_iff_exists'.mp hr
        exact seekForward_quiet hrun hs
      · intro s r s₁ hs hrun hr
        obtain ⟨last, rfl⟩ := Option.ne_none_iff_exists'.mp hr
        exact seekForward_quiet hrun hs
      · rcases r with - | last
        · exact .pure _
        · exact (seekEnd_tells hset _ _ _ _).mono fun _ ht => ht (Option.some_ne_none _)
  refine .gets fun h => .ite (assign_tells (fun _ => ⟨rfl, rfl⟩) hwalk) hwalk

/-! ## The public functions -/

theorem out_tells {pre : State → Prop} {p p' : M α} (h : Honest (driveFaults e) pre p p') :
    Honest (driveFaults e) pre (out p) (out p') :=
  h.bind fun _ => assign_any (fun _ => ⟨rfl, rfl⟩) (.pure _)

/-- What reads `tfs_last_error` itself goes on with no error pending. -/
theorem check_tells {A A' : M α} {B B' : State → M α} (hA : Tells e A A') (hB : ∀ s, TellsOk e (B s) (B' s)) :
    Tells e (Prog.gets id >>= fun s => if s.tfsLastError ≠ .ok then A else B s)
      (Prog.gets id >>= fun s => if s.tfsLastError ≠ .ok then A' else B' s) := by
  refine .reads fun s => ?_
  by_cases hok : s.tfsLastError = .ok
  · rw [id, if_neg (not_not.mpr hok), if_neg (not_not.mpr hok)]
    exact (hB s).mono fun t ht => ht.2 ▸ hok
  · rw [id, if_pos hok, if_pos hok]
    exact hA.at

/-- On a drive that fails transfers, a call ends without `TFS_ERR_IO` exactly where it
does on the drive that never fails, and none of its transfers failed; and then it does
the same. -/
def Faithful (e : Env) (p p' : M α) : Prop := ∀ s a s',
  p s = some (a, s') ∧ s'.tfsLastError ≠ .io ↔ p' s = some (a, s') ∧ s'.tfsLastError ≠ .io ∧ NoFailure e s s'

theorem TellsOk.enter {r : α} {p p' : M α} (h : TellsOk e p p') : Faithful e (enter r p) (enter r p') := by
  intro s a s'
  by_cases hdev : s.tfsLastError = .noDev
  · rw [enter_noDev hdev, enter_noDev hdev]
    refine ⟨fun ⟨hrun, hno⟩ => ⟨hrun, hno, ?_⟩, fun ⟨hrun, hno, _⟩ => ⟨hrun, hno⟩⟩
    cases hrun
    exact fun j hj hj' => absurd hj' (by omega)
  · rw [enter_run hdev, enter_run hdev, ← clean_iff]
    exact h.run_iff rfl

theorem Faithful.quiet {p : M α} (h : ∀ s a s', p s = some (a, s') → s'.log.transfers = s.log.transfers) :
    Faithful e p p := by
  intro s a s'
  refine ⟨fun ⟨hrun, hno⟩ => ⟨hrun, hno, fun j hj hj' => ?_⟩, fun ⟨hrun, hno, _⟩ => ⟨hrun, hno⟩⟩
  have := h s a s' hrun
  omega

theorem Faithful.drop {p p' : M α} (h : Faithful e p p') : Faithful e (drop p) (drop p') := by
  have hdrop : ∀ (q : M α) s s', TinyFs.drop q s = some ((), s') ↔ ∃ a, q s = some (a, s') := by
    intro q s s'
    rw [TinyFs.drop, Prog.bind_eq_some]
    constructor
    · rintro ⟨a, s₁, hrun, hend⟩
      cases hend
      exact ⟨a, hrun⟩
    · rintro ⟨a, hrun⟩
      exact ⟨a, s', hrun, rfl⟩
  intro s _ s'
  rw [hdrop, hdrop]
  constructor
  · rintro ⟨⟨a, hrun⟩, hno⟩
    obtain ⟨hrun', hno', hclean⟩ := (h s a s').mp ⟨hrun, hno⟩
    exact ⟨⟨a, hrun'⟩, hno', hclean⟩
  · rintro ⟨⟨a, hrun⟩, hno, hclean⟩
    exact ⟨⟨a, ((h s a s').mpr ⟨hrun, hno, hclean⟩).1⟩, hno⟩

/-- `tfs_init` forgets an error of before. -/
theorem TellsOk.reset {g : State → State} {p p' : M α} (hg : ∀ s, (g s).log.transfers = s.log.transfers)
    (h : TellsOk e p p') : Faithful e (Prog.modify g >>= fun _ => setErr .ok >>= fun _ => p)
    (Prog.modify g >>= fun _ => setErr .ok >>= fun _ => p') := by
  intro s a s'
  rw [Prog.modify_bind, Prog.modify_bind, setErr_bind, setErr_bind, NoFailure, ← hg s]
  change _ ↔ _ ∧ _ ∧ NoFailure e { g s with tfsLastError := .ok } s'
  rw [← clean_iff]
  exact h.run_iff rfl

theorem driveInit_transfers : driveInit e s = some ((), s') → s'.log.transfers = s.log.transfers := by
  rw [driveInit, Prog.modify_apply]
  rcases e.drive.blkCount with - | n
  · intro h
    cases h
    rfl
  · intro h
    cases h
    rfl

theorem tfsClose_faithful (fd : Int) : Faithful e (tfsClose e fd) (tfsClose e fd) := by
  refine Faithful.quiet fun s a s' h => ?_
  rw [tfsClose] at h
  split at h
  · cases h
    rfl
  · rw [setErr_bind, Prog.gets_bind] at h
    split at h
    · cases h
      rfl
    · cases h
      rfl

section
variable (hset : e.drive.setsOk = false)
include hset

theorem tfsInit_faithful : Faithful e (tfsInit e) (tfsInit e.reliable) := by
  have hdrive : TellsOk e (driveInit e) (driveInit e.reliable) := .quiet fun s _ s' hs hrun =>
    ⟨driveInit_transfers hrun, fun hio => by cases hs.symm.trans hio⟩
  refine TellsOk.reset (fun _ => rfl) (hdrive.bind fun _ => ifOk_tells (assign_tells (fun _ => ⟨rfl, rfl⟩) ?_))
  refine assign_tells (fun _ => ⟨rfl, rfl⟩) (out_tells ?_)
  exact (loadBitmap_tells hset _).at.bind fun _ => ifOk_tells (.modify fun _ _ => ⟨rfl, id⟩)

theorem tfsFormat_faithful : Faithful e (tfsFormat e) (tfsFormat e.reliable) := by
  refine TellsOk.enter (out_tells (assign_tells (fun _ => ⟨rfl, rfl⟩) ?_))
  refine (formatLoop_tells hset _ _).at.bind fun _ => ifOk_tells ((loadBitmap_tells hset _).at.bind fun _ =>
    ifOk_tells ?_)
  refine (allocBlock_tells hset).bind fun pos => ifOk_tells (assign_tells (fun _ => ⟨rfl, rfl⟩) ?_)
  exact (driveWriteBlock_tells hset _ _).at.bind fun _ => ifOk_tells (.modify fun _ _ => ⟨rfl, id⟩)

theorem tfsGetUsed_faithful : Faithful e (tfsGetUsed e) (tfsGetUsed e.reliable) :=
  TellsOk.enter (out_tells ((getUsedLoop_tells hset _ _ _).at.bind fun _ => .pure _))

theorem tfsReadDir_faithful (handler : List DirItem → Bool) :
    Faithful e (tfsReadDir e handler) (tfsReadDir e.reliable handler) :=
  TellsOk.enter (out_tells (.gets fun _ => (readDirLoop_tells hset _ _ _ _).at))

theorem tfsChangeDirParent_faithful : Faithful e (tfsChangeDirParent e) (tfsChangeDirParent e.reliable) := by
  refine TellsOk.enter (out_tells (.gets fun s => (driveReadBlock_tells hset _ _).at.bind fun _ => ifOk_tells
    (.gets fun b => ?_)))
  exact .ite setErr_tells (.modify fun _ _ => ⟨rfl, id⟩)

theorem tfsChangeDir_faithful (name : List UInt8) : Faithful e (tfsChangeDir e name) (tfsChangeDir e.reliable name) := by
  refine TellsOk.enter (out_tells ((findFile_tells hset _ _).bind fun item => ifOk_tells (.gets fun b => ?_)))
  rcases item with - | i
  · exact setErr_tells
  · exact .ite setErr_tells (.modify fun _ _ => ⟨rfl, id⟩)

theorem tfsCreateDir_faithful (name : List UInt8) : Faithful e (tfsCreateDir e name) (tfsCreateDir e.reliable name) := by
  refine TellsOk.enter (out_tells ((findFile_tells hset _ _).bind fun item => ifOk_tells (.gets fun b => .ite ?_ ?_)))
  · exact setErr_tells
  refine (allocBlock_tells hset).bind fun new => ifOk_tells (assign_tells (fun _ => ⟨rfl, rfl⟩) (.gets fun s => ?_))
  refine (driveWriteBlock_tells hset _ _).at.bind fun _ => ifOk_tells (assign_tells (fun _ => ⟨rfl, rfl⟩) ?_)
  exact (driveWriteBlock_tells hset _ _).at

theorem tfsWriteFile_faithful (name data : List UInt8) (len : Nat) (overwrite : Bool) :
    Faithful e (tfsWriteFile e name data len overwrite) (tfsWriteFile e.reliable name data len overwrite) := by
  refine TellsOk.enter (out_tells ((findFile_tells hset _ _).bind fun item => ifOk_tells (.gets fun b => .ite ?_ ?_)))
  · refine .ite setErr_tells (.gets fun count => .ite setErr_tells ?_)
    refine (freeFileBlocks_tells hset _).at.bind fun _ => ifOk_tells (.gets fun s => ?_)
    exact (driveReadBlock_tells hset _ _).at.bind fun _ => ifOk_tells (writeFileData_tells hset _ _ _ _)
  · exact writeFileData_tells hset _ _ _ _

theorem tfsReadFile_faithful (name : List UInt8) (maxLen : Nat) :
    Faithful e (tfsReadFile e name maxLen) (tfsReadFile e.reliable name maxLen) := by
  refine TellsOk.enter (out_tells ((findFile_tells hset _ _).bind fun item => ifOk_tells (.gets fun b => ?_)))
  rcases item with - | i
  · exact setErr_pure_tells _
  · refine .ite (setErr_pure_tells _) ?_
    exact (readFileLoop_tells hset _ _ _ _).at.bind fun _ => .pure _

theorem tfsDelete_faithful (name : List UInt8) (type : UInt8) :
    Faithful e (tfsDelete e name type) (tfsDelete e.reliable name type) := by
  refine TellsOk.enter (out_tells ((findFile_tells hset _ _).bind fun item => ifOk_tells (.gets fun b => ?_)))
  rcases item with - | i
  · exact setErr_tells
  refine .ite setErr_tells (.gets fun count => .ite setErr_tells (.ite ?_ (.ite ?_ ?_)))
  · exact (deleteFile_tells hset _).at
  · exact (deleteDir_tells hset _).at
  · exact setErr_tells

theorem tfsRename_faithful (fromName toName : List UInt8) :
    Faithful e (tfsRename e fromName toName) (tfsRename e.reliable fromName toName) := by
  refine TellsOk.enter (out_tells ((findFile_tells hset _ _).bind fun item => ifOk_tells ?_))
  rcases item with - | i
  · refine (findFile_tells hset _ _).bind fun item => ifOk_tells ?_
    rcases item with - | i
    · exact setErr_tells
    · exact assign_tells (fun _ => ⟨rfl, rfl⟩) (.gets fun _ => (driveWriteBlock_tells hset _ _).at)
  · exact setErr_tells

theorem tfsStat_faithful (name : List UInt8) : Faithful e (tfsStat e name) (tfsStat e.reliable name) :=
  TellsOk.enter (out_tells (findFile_tells hset _ _))

theorem tfsTouch_faithful (name : List UInt8) : Faithful e (tfsTouch e name) (tfsTouch e.reliable name) := by
  refine TellsOk.enter (out_tells ((findFile_tells hset _ _).bind fun item => ifOk_tells
    (.gets fun b => .ite (.pure _) ?_)))
  exact assign_tells (fun _ => ⟨rfl, rfl⟩) (.gets fun _ => (driveWriteBlock_tells hset _ _).at)

theorem tfsOpen_faithful (name : List UInt8) : Faithful e (tfsOpen e name) (tfsOpen e.reliable name) := by
  refine TellsOk.enter (out_tells ((findFile_tells hset _ _).bind fun item => ifOk_tells (.gets fun b => ?_)))
  rcases item with - | i
  · exact setErr_pure_tells _
  refine .ite (setErr_pure_tells _) (.gets fun s => ?_)
  rw [show e.reliable.maxFds = e.maxFds from rfl]
  rcases sharedHandle s i (List.range e.maxFds) with - | fd
  · rcases freeHandle s e.maxFds e.maxFds 0 with - | fd
    · exact setErr_pure_tells _
    · exact assign_tells (fun _ => ⟨rfl, rfl⟩) (assign_tells (fun _ => ⟨rfl, rfl⟩) (.pure _))
  · exact assign_tells (fun _ => ⟨rfl, rfl⟩) (.pure _)

theorem tfsTrunc_faithful (fd : Int) (size : Nat) : Faithful e (tfsTrunc e fd size) (tfsTrunc e.reliable fd size) := by
  refine TellsOk.enter (out_tells (.gets fun s => .ite setErr_tells (.ite (.gets fun h => ?_) ?_)))
  · refine (freeFileBlocks_tells hset _).at.bind fun _ => ifOk_tells (assign_tells (fun _ => ⟨rfl, rfl⟩) ?_)
    exact assign_tells (fun _ => ⟨rfl, rfl⟩) (updateDirItem_tells hset _).at
  · refine (seek_tells hset _ _ _).bind fun res => ifOk_tells (.gets fun b => ?_)
    have hrest : ∀ b, Tells e (freeFileBlocks e b >>= fun _ => ifOk () (updateDirItem e fd.toNat))
        (freeFileBlocks e.reliable b >>= fun _ => ifOk () (updateDirItem e.reliable fd.toNat)) := fun b =>
      (freeFileBlocks_tells hset b).bind fun _ => ifOk_tells (updateDirItem_tells hset _).at
    have hwrite : ∀ b, Tells e
        (handle fd.toNat >>= fun h => driveWriteBlock e h.currBlk .blkBuf >>= fun _ => ifOk ()
          (freeFileBlocks e b >>= fun _ => ifOk () (updateDirItem e fd.toNat)))
        (handle fd.toNat >>= fun h => driveWriteBlock e.reliable h.currBlk .blkBuf >>= fun _ => ifOk ()
          (freeFileBlocks e.reliable b >>= fun _ => ifOk () (updateDirItem e.reliable fd.toNat))) := fun b =>
      .gets fun h => (driveWriteBlock_tells hset _ _).bind fun _ => ifOk_tells (hrest b).at
    refine .ite (assign_tells (fun _ => ⟨rfl, rfl⟩) (.ite (hwrite _).at (hrest _).at)) ?_
    exact .ite (hwrite _).at (hrest _).at

theorem writeNext_tells (fd : Nat) (append : Bool) {k k' : M (Exit × WriteVars)} (h : TellsOk e k k') (w : WriteVars) :
    TellsOk e (writeNext e fd append k w) (writeNext e.reliable fd append k' w) := by
  refine .gets fun b => .ite (.gets fun h' => ?_) ?_
  · exact assign_tells (fun _ => ⟨rfl, rfl⟩) (assign_tells (fun _ => ⟨rfl, rfl⟩) h)
  · refine assign_tells (fun _ => ⟨rfl, rfl⟩) ((driveReadBlock_tells hset _ _).at.bind fun _ => ifOk_tells ?_)
    exact assign_tells (fun _ => ⟨rfl, rfl⟩) h

theorem writeLoop_tells (fd : Nat) : ∀ fuel w, TellsOk e (writeLoop e fd fuel w) (writeLoop e.reliable fd fuel w)
  | 0, _ => .noFuel
  | fuel + 1, w => by
    unfold writeLoop
    refine assign_tells (fun _ => ⟨rfl, rfl⟩) (.gets fun b => .ite ?_ ?_)
    · refine (allocBlock_tells hset).bind fun new => assign_any (fun _ => ⟨rfl, rfl⟩) (.gets fun h => ?_)
      refine (driveWriteBlock_tells hset _ _).bind fun _ => ifOk_tells (.ite ?_ ?_)
      · refine assign_tells (fun _ => ⟨rfl, rfl⟩) (.ite (.pure _) ?_)
        exact writeNext_tells hset _ _ (writeLoop_tells fd fuel _) _
      · exact .ite (.pure _) (writeNext_tells hset _ _ (writeLoop_tells fd fuel _) _)
    · refine .gets fun h => (driveWriteBlock_tells hset _ _).at.bind fun _ => ifOk_tells (.ite ?_ ?_)
      · refine assign_tells (fun _ => ⟨rfl, rfl⟩) (.ite (.pure _) ?_)
        exact writeNext_tells hset _ _ (writeLoop_tells fd fuel _) _
      · exact .ite (.pure _) (writeNext_tells hset _ _ (writeLoop_tells fd fuel _) _)

theorem tfsWrite_faithful (fd : Int) (data : List UInt8) (len offset : Nat) :
    Faithful e (tfsWrite e fd data len offset) (tfsWrite e.reliable fd data len offset) := by
  refine TellsOk.enter (.gets fun s => .ite (out_tells (setErr_pure_tells 0)) ?_)
  refine (seek_tells hset _ _ _).bind fun res => check_tells (out_tells (.pure _)) fun s => .ite ?_ (.gets fun h => ?_)
  · exact out_tells (.ite ((updateDirItem_tells hset _).at.bind fun _ => .pure _) (.pure _))
  · refine (writeLoop_tells hset _ _ _).bind fun r => ?_
    rcases r with ⟨exit, w⟩
    cases exit
    · exact out_tells (.ite ((updateDirItem_tells hset _).bind fun _ => .pure _) (.pure _))
    · exact out_tells (.pure _)
    · exact .pure _

theorem readLoop_tells (fd : Nat) : ∀ fuel blkOs blkLen len data,
    Tells e (readLoop e fd fuel blkOs blkLen len data) (readLoop e.reliable fd fuel blkOs blkLen len data)
  | 0, _, _, _, _ => .noFuel
  | fuel + 1, blkOs, blkLen, len, data => by
    unfold readLoop
    refine .gets fun b => .ite (.pure _) (assign_any (fun _ => ⟨rfl, rfl⟩) (.ite (.pure _) ?_))
    exact (driveReadBlock_tells hset _ _).bind fun _ => ifOk_tells (readLoop_tells fd fuel _ _ _ _).at

theorem tfsRead_faithful (fd : Int) (len offset : Nat) :
    Faithful e (tfsRead e fd len offset) (tfsRead e.reliable fd len offset) := by
  refine TellsOk.enter (.gets fun s => .ite (out_tells (setErr_pure_tells _)) (.gets fun h => .ite ?_ ?_))
  · exact out_tells (.pure _)
  refine (seek_tells hset _ _ _).bind fun res => .gets fun s => .ite (out_tells (.pure _)) (.gets fun h => ?_)
  refine (readLoop_tells hset _ _ _ _ _ _).bind fun r => ?_
  rcases r with ⟨exit, data⟩
  cases exit
  · exact out_tells (.pure _)
  · exact out_tells (.pure _)
  · exact .pure _

/-- **No failure of the drive is lost.** Whatever transfers the drive fails, a public call
returns without `TFS_ERR_IO` exactly where it does on the drive that never fails and meets
no failure; with the same result, and the same state behind it. -/
theorem run_faithful (op : Op) : Faithful e (op.run e) (op.run e.reliable) := by
  cases op with
  | init => exact tfsInit_faithful hset
  | format => exact tfsFormat_faithful hset
  | getUsed => exact tfsGetUsed_faithful hset
  | readDir handler => exact tfsReadDir_faithful hset handler
  | changeDirRoot =>
    refine Faithful.quiet fun s a s' h => ?_
    cases h
    rfl
  | changeDirParent => exact tfsChangeDirParent_faithful hset
  | changeDir name => exact tfsChangeDir_faithful hset name
  | createDir name => exact tfsCreateDir_faithful hset name
  | writeFile name data len overwrite => exact tfsWriteFile_faithful hset name data len overwrite
  | readFile name maxLen => exact tfsReadFile_faithful hset name maxLen
  | delete name type => exact tfsDelete_faithful hset name type
  | rename fromName toName => exact tfsRename_faithful hset fromName toName
  | stat name => exact tfsStat_faithful hset name
  | touch name => exact tfsTouch_faithful hset name
  | openFile name => exact tfsOpen_faithful hset name
  | close fd => exact tfsClose_faithful fd
  | trunc fd size => exact tfsTrunc_faithful hset fd size
  | write fd data len offset => exact tfsWrite_faithful hset fd data len offset
  | read fd len offset => exact tfsRead_faithful hset fd len offset

end

/-- A drive that fails transfer 13 serves a format and the writing of a file of two blocks like one that never fails; then
that transfer is due in the reading of the file, which tells. -/
theorem run_faithful_thirteenth : ∃ s s₁ r s₂,
    Prog.runAll (Op.exec (Env.faulting 16 fun k => k = 13)) [.init, .format] (State.boot fun _ => Buf.zero) =
    some ((), s) ∧
    (Op.writeFile [97] (List.replicate 600 7) 600 false).run (Env.faulting 16 fun k => k = 13) s = some ((), s₁) ∧
    (Op.writeFile [97] (List.replicate 600 7) 600 false).run (Env.faulting 16 fun k => k = 13).reliable s =
    some ((), s₁) ∧
    NoFailure (Env.faulting 16 fun k => k = 13) s s₁ ∧
    (Op.readFile [97] 600).run (Env.faulting 16 fun k => k = 13) s₁ = some (r, s₂) ∧ s₂.tfsLastError = .io ∧
    ∀ r' s', (Op.readFile [97] 600).run (Env.faulting 16 fun k => k = 13).reliable s₁ = some (r', s') →
      s'.tfsLastError ≠ .io → ¬ NoFailure (Env.faulting 16 fun k => k = 13) s₁ s' := by
  have hcalls : ((Prog.runAll (Op.exec (Env.faulting 16 fun k => k = 13)) [.init, .format]
    (State.boot fun _ => Buf.zero)).bind fun p =>
      (tfsWriteFile (Env.faulting 16 fun k => k = 13) [97] (List.replicate 600 7) 600 false p.2).bind fun w =>
      (tfsReadFile (Env.faulting 16 fun k => k = 13) [97] 600 w.2).map fun r => (w.2.tfsLastError, r.2.tfsLastError)) =
      some (.ok, .io) := by decide +kernel
  obtain ⟨⟨_, s⟩, hs, hcalls⟩ := Option.bind_eq_some_iff.mp hcalls
  obtain ⟨⟨_, s₁⟩, hwrite, hcalls⟩ := Option.bind_eq_some_iff.mp hcalls
  obtain ⟨⟨r, s₂⟩, hread, herrs⟩ := Option.map_eq_some_iff.mp hcalls
  simp only [Prod.mk.injEq] at herrs
  obtain ⟨hok, hio⟩ := herrs
  obtain ⟨hwrite', -, hclean⟩ := (run_faithful rfl (.writeFile [97] (List.replicate 600 7) 600 false) s () s₁).mp
    ⟨hwrite, fun herr => Err.noConfusion (hok.symm.trans herr)⟩
  refine ⟨s, s₁, r, s₂, hs, hwrite, hwrite', hclean, hread, hio, fun r' s' hread' hno hclean' => ?_⟩
  obtain ⟨hrun, -⟩ := (run_faithful rfl (.readFile [97] 600) s₁ r' s').mpr ⟨hread', hno, hclean'⟩
  obtain rfl : s₂ = s' := congrArg Prod.snd (Option.some.inj (hread.symm.trans hrun))
  exact hno hio

end TinyFs
