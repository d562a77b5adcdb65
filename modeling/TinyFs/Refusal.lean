/-
Refused calls. A call that ends with one of the errors that refuse it has only
looked: what it did before the refusal is reading, and what it does after the
last check no longer ends with such an error. The one lookup that writes, where
`find_file` appends a directory block, hands out a free item, and the checks
behind it pass.
-/
import TinyFs.CutShort

namespace TinyFs

open Bytes

/-- The errors that refuse a call. -/
def Err.refused : Err → Bool
  | .fileExist | .notExist | .notEmpty | .noName | .fileBusy | .invalFd => true
  | _ => false

def DriveCall.isWrite : DriveCall → Bool
  | .write _ _ => true
  | _ => false

/-- No block was written, the cached bitmap, the mount, the current directory and
the handles are as before, and the device has not gone. -/
structure Untouched (s s' : State) : Prop where
  dev : s'.dev = s.dev
  bitmap : s'.bitmapBlk = s.bitmapBlk
  loadedBitmap : s'.loadedBitmapBlk = s.loadedBitmapBlk
  blkCount : s'.blkCount = s.blkCount
  lastBlk : s'.lastBitmapBlk = s.lastBitmapBlk
  lastLen : s'.lastBitmapLen = s.lastBitmapLen
  cur : s'.currentDirBlk = s.currentDirBlk
  handles : s'.handles = s.handles
  present : s.tfsLastError ≠ .noDev → s'.tfsLastError ≠ .noDev
  calls : ∃ cs, CallsBetween s s' cs ∧ ∀ c ∈ cs, c.isWrite = false

/-- The error did not become one that refuses. -/
def Unrefused (s s' : State) : Prop := s.tfsLastError.refused = false → s'.tfsLastError.refused = false

variable {e : Env} {α β : Type} {s s' s₁ : State} {name : List UInt8} {r : α} {p : M α}

theorem Untouched.refl : Untouched s s := ⟨rfl, rfl, rfl, rfl, rfl, rfl, rfl, rfl, id, [], .refl rfl, by simp⟩

theorem Untouched.trans (h : Untouched s s₁) (h' : Untouched s₁ s') : Untouched s s' := by
  obtain ⟨cs, hcs, hc⟩ := h.calls
  obtain ⟨ds, hds, hd⟩ := h'.calls
  refine ⟨h'.1.trans h.1, h'.2.trans h.2, h'.3.trans h.3, h'.4.trans h.4, h'.5.trans h.5, h'.6.trans h.6, h'.7.trans h.7,
    h'.8.trans h.8, h'.9 ∘ h.9, cs ++ ds, hcs.trans hds, fun c hmem => ?_⟩
  rcases List.mem_append.mp hmem with hmem | hmem
  · exact hc c hmem
  · exact hd c hmem

theorem Look.untouched (h : Look e s s') : Untouched s s' := by
  cases h with
  | @read _ b hrun =>
    simp only [driveReadBlock, Prog.modify_apply, Option.some.injEq, Prod.mk.injEq, true_and] at hrun
    subst hrun
    by_cases hok : transferOk e s b = true
    · rw [if_pos hok]
      refine ⟨rfl, rfl, rfl, rfl, rfl, rfl, rfl, rfl, fun h => ?_, [.read b _], rfl, by simp [DriveCall.isWrite]⟩
      show errAfter e s ≠ _
      unfold errAfter
      split
      · exact Err.noConfusion
      · exact h
    · rw [if_neg hok]
      exact ⟨rfl, rfl, rfl, rfl, rfl, rfl, rfl, rfl, fun _ => Err.noConfusion, [.read b _],
        rfl, by simp [DriveCall.isWrite]⟩
  | buf | dirBlk => exact ⟨rfl, rfl, rfl, rfl, rfl, rfl, rfl, rfl, id, [], rfl, by simp⟩
  | eof => exact ⟨rfl, rfl, rfl, rfl, rfl, rfl, rfl, rfl, fun _ => Err.noConfusion, [], rfl, by simp⟩

theorem driveReadBlock_unrefused {b : Nat} {sel : BufSel} (h : driveReadBlock e b sel s = some ((), s')) :
    Unrefused s s' := by
  simp only [driveReadBlock, Prog.modify_apply, Option.some.injEq, Prod.mk.injEq, true_and] at h
  subst h
  intro hs
  by_cases hok : transferOk e s b = true
  · simp only [hok, if_true, errAfter]
    split
    · rfl
    · exact hs
  · simp only [hok, if_false, Bool.false_eq_true]
    rfl

theorem driveWriteBlock_unrefused {b : Nat} {sel : BufSel} (h : driveWriteBlock e b sel s = some ((), s')) :
    Unrefused s s' := by
  simp only [driveWriteBlock, Prog.modify_apply, Option.some.injEq, Prod.mk.injEq, true_and] at h
  subst h
  intro hs
  by_cases hok : transferOk e s b = true
  · simp only [hok, if_true, errAfter]
    split
    · rfl
    · exact hs
  · simp only [hok, if_false, Bool.false_eq_true]
    rfl

theorem Act.unrefused (h : Act e s s') : Unrefused s s' := by
  cases h with
  | look h =>
    cases h with
    | read h => exact driveReadBlock_unrefused h
    | buf | dirBlk => exact id
    | eof => exact fun _ => rfl
  | readBitmap h => exact driveReadBlock_unrefused h
  | write h => exact driveWriteBlock_unrefused h
  | bitmap | handle => exact id
  | full => exact fun _ => rfl

/-! ## Quiet and firm programs -/

/-- A program that only looks. -/
abbrev Quiet {α : Type} (p : M α) : Prop := Prog.Steps Untouched p

/-- A program past the last check. -/
abbrev Firm {α : Type} (p : M α) : Prop := Prog.Steps Unrefused p

/-- A program that, started with no error, has done nothing where it refuses. -/
def Refuses {α : Type} (p : M α) : Prop :=
  ∀ ⦃s a s'⦄, p s = some (a, s') → s.tfsLastError = .ok → s'.tfsLastError.refused = true → Untouched s s'

theorem looks_quiet (h : Looks e p) : Quiet p := h.mono fun _ _ => Look.untouched

theorem acts_firm (h : Acts e p) : Firm p := h.mono fun _ _ => Act.unrefused

theorem lates_firm (h : Lates e p) : Firm p := h.mono fun _ _ h => by
  cases h with
  | act h => exact h.unrefused
  | deselect => exact id

theorem setErr_quiet (err : Err) (h : err ≠ .noDev) : Quiet (setErr err) :=
  Prog.Steps.modify fun _ => ⟨rfl, rfl, rfl, rfl, rfl, rfl, rfl, rfl, fun _ => h, [], rfl, by simp⟩

theorem untouched_of_run (h : Quiet p) {a : α} (hrun : p s = some (a, s')) : Untouched s s' :=
  h.lift (fun _ => .refl) (fun _ _ _ => .trans) hrun

theorem unrefused_of_run (h : Firm p) {a : α} (hrun : p s = some (a, s')) : Unrefused s s' :=
  h.lift (Q := Unrefused) (fun _ h => h) (fun _ _ _ h1 h2 h => h2 (h1 h)) hrun

theorem Refuses.of_quiet (h : Quiet p) : Refuses p := fun _ _ _ hrun _ _ => untouched_of_run h hrun

theorem Refuses.of_firm (h : Firm p) : Refuses p := by
  intro s a s' hrun herr hr
  have hf := unrefused_of_run h hrun (by rw [herr]; rfl)
  rw [hr] at hf
  cases hf

theorem Refuses.gets {g : State → β} {f : β → M α} (h : ∀ b, Refuses (f b)) : Refuses (Prog.gets g >>= f) :=
  fun s _ _ hrun herr hr => h (g s) hrun herr hr

theorem Refuses.ite {c : Prop} [Decidable c] {q : M α} (hp : Refuses p) (hq : Refuses q) :
    Refuses (if c then p else q) := by
  split
  · exact hp
  · exact hq

/-- Looking, and going on where there is no error. -/
theorem Refuses.look {q : M β} {k : β → M α} (hq : Quiet q) (hk : ∀ b, Refuses (k b)) :
    Refuses (q >>= fun b => ifOk r (k b)) := by
  intro s a s' hrun herr hr
  obtain ⟨b, s₁, h1, h2⟩ := Prog.bind_eq_some.mp hrun
  have hu := untouched_of_run hq h1
  by_cases herr₁ : s₁.tfsLastError = .ok
  · rw [ifOk_ok herr₁] at h2
    exact hu.trans (hk b h2 herr₁ hr)
  · rw [ifOk_err herr₁] at h2
    cases h2
    exact hu

theorem Untouched.bracket {t : State} (h : Untouched s.started t) : Untouched s (t.call .deselect) := by
  obtain ⟨hdev, hbm, hlb, hbc, hlast, hlen, hcur, hh, hp, cs, hcs, hc⟩ := h
  refine ⟨hdev, hbm, hlb, hbc, hlast, hlen, hcur, hh, fun _ => hp Err.noConfusion, [.select] ++ (cs ++ [.deselect]),
    ?_, ?_⟩
  · exact started_calls.trans (CallsBetween.trans hcs (call_calls .deselect))
  · intro c hmem
    simp only [List.cons_append, List.nil_append, List.mem_cons, List.mem_append, List.not_mem_nil, or_false] at hmem
    rcases hmem with rfl | hmem | rfl
    · rfl
    · exact hc c hmem
    · rfl

/-- A public function. -/
theorem Refuses.enter (hp : Refuses p) {a : α} (h : enter r (out p) s = some (a, s'))
    (hr : s'.tfsLastError.refused = true) : Untouched s s' := by
  by_cases hd : s.tfsLastError = .noDev
  · rw [enter_noDev hd] at h
    cases h
    exact .refl
  · rw [enter_run hd, out_run, Option.map_eq_some_iff] at h
    obtain ⟨⟨a', t⟩, hrun, heq⟩ := h
    cases heq
    exact (hp hrun rfl hr).bracket

/-- A public function that only looks. -/
theorem Quiet.enter (hp : Quiet p) {a : α} (h : enter r (out p) s = some (a, s')) : Untouched s s' := by
  by_cases hd : s.tfsLastError = .noDev
  · rw [enter_noDev hd] at h
    cases h
    exact .refl
  · rw [enter_run hd, out_run, Option.map_eq_some_iff] at h
    obtain ⟨⟨a', t⟩, hrun, heq⟩ := h
    cases heq
    exact (untouched_of_run hp hrun).bracket

/-! ## The lookup -/

theorem findFile_quiet (name : List UInt8) : Quiet (findFile e name false) := by
  unfold findFile
  refine .ite (fun _ => (setErr_quiet _ Err.noConfusion).bind fun _ => .pure none) fun _ => Prog.Steps.bind
    (.gets _) fun s => ?_
  refine (looks_quiet (findWalk_looks name _ _ _)).bind fun w => ?_
  cases w with
  | error | found _ => exact .pure _
  | missing free => exact .ite (fun _ => .pure none) fun h => absurd rfl h

/-- The item of an appended block is free. -/
theorem appendDirBlock_free {i : Option Nat} (h : appendDirBlock e s = some (i, s'))
    (herr : s.tfsLastError.refused = false) :
    s'.tfsLastError.refused = false ∧ (s'.tfsLastError = .ok → s'.blkBuf.itemType (i.getD 0) = itemFree) := by
  refine ⟨unrefused_of_run (acts_firm appendDirBlock_acts) h herr, fun hend => ?_⟩
  have hstop : ∀ {t : State} {k : M (Option Nat)} {u : State} {i : Option Nat}, ifOk none k t = some (i, u) →
      u.tfsLastError = .ok → k t = some (i, u) := by
    intro t k u i hrun hu
    by_cases ht : t.tfsLastError = .ok
    · rwa [ifOk_ok ht] at hrun
    · rw [ifOk_err ht] at hrun
      cases hrun
      exact absurd hu ht
  unfold appendDirBlock at h
  obtain ⟨b, s₁, _, h⟩ := Prog.bind_eq_some.mp h
  replace h := hstop h hend
  rw [modifyBuf_bind, Prog.gets_bind] at h
  obtain ⟨_, s₂, _, h⟩ := Prog.bind_eq_some.mp h
  replace h := hstop h hend
  rw [modifyBuf_bind, Prog.modify_bind] at h
  obtain ⟨_, s₃, h3, h⟩ := Prog.bind_eq_some.mp h
  replace h := hstop h hend
  cases h
  simp only [driveWriteBlock, Prog.modify_apply, Option.some.injEq, Prod.mk.injEq, true_and] at h3
  subst h3
  have hfree : ∀ b : Block, b.clearItems.itemType 0 = itemFree := fun b => Block.itemType_clearItems (by omega)
  split <;> exact hfree _

/-- A lookup for a new entry has only looked, or found a free item. -/
theorem findFile_insert {i : Option Nat} (h : findFile e name true s = some (i, s')) (herr : s.tfsLastError = .ok) :
    Untouched s s' ∨
      (s'.tfsLastError.refused = false ∧ (s'.tfsLastError = .ok → s'.blkBuf.itemType (i.getD 0) = itemFree)) := by
  unfold findFile at h
  split at h
  · cases h
    exact .inl (untouched_of_run (setErr_quiet .noName Err.noConfusion) rfl)
  rw [Prog.gets_bind] at h
  obtain ⟨w, s₁, hwalk, h⟩ := Prog.bind_eq_some.mp h
  have hu := untouched_of_run (looks_quiet (findWalk_looks name _ _ _)) hwalk
  cases w with
  | error | found _ =>
    cases h
    exact .inl hu
  | missing free =>
    have herr₁ := unrefused_of_run (acts_firm (findWalk_looks name _ _ _).acts) hwalk (by rw [herr]; rfl)
    cases free with
    | none => exact .inr (appendDirBlock_free h herr₁)
    | some q =>
      have hquiet : Quiet (do
          let s ← Prog.gets id
          if s.loadedDirBlk ≠ q.1 then
            driveReadBlock e q.1 .blkBuf
            ifOk none do
              Prog.modify fun s => { s with loadedDirBlk := q.1 }
              pure (some q.2)
          else pure (some q.2) : M (Option Nat)) := by
        refine Prog.Steps.bind (.gets _) fun t => .ite (fun _ => ?_) fun _ => .pure _
        refine (looks_quiet (driveReadBlock_looks (e := e) _)).bind fun _ => ifOk_steps
          (Prog.Steps.bind ?_ fun _ => .pure _)
        exact looks_quiet (e := e) (Prog.Steps.modify fun t => .dirBlk _)
      exact .inl (hu.trans (untouched_of_run hquiet h))

/-- Behind a lookup for a new entry: the checks `A` refuse, or the item is free and `B` stores in it. -/
theorem Refuses.insert {A : Option Nat → Block → M α} {B : Option Nat → M α} (hA : ∀ i b, Refuses (A i b))
    (hB : ∀ i, Acts e (B i)) : Refuses (findFile e name true >>= fun i => ifOk r (blkBuf >>= fun b =>
      if b.itemType (i.getD 0) ≠ itemFree then A i b else B i)) := by
  intro s a s' hrun herr hr
  obtain ⟨i, s₁, h1, h2⟩ := Prog.bind_eq_some.mp hrun
  by_cases herr₁ : s₁.tfsLastError = .ok
  · rw [ifOk_ok herr₁, blkBuf_bind] at h2
    rcases findFile_insert h1 herr with hu | ⟨_, hf⟩
    · exact hu.trans (Refuses.ite (hA i _) (.of_firm (acts_firm (hB i))) h2 herr₁ hr)
    · rw [if_neg (not_not.mpr (hf herr₁))] at h2
      rw [unrefused_of_run (acts_firm (hB i)) h2 (by rw [herr₁]; rfl)] at hr
      cases hr
  · rw [ifOk_err herr₁] at h2
    cases h2
    rcases findFile_insert h1 herr with hu | ⟨hne, _⟩
    · exact hu
    · rw [hr] at hne
      cases hne

/-! ## The public functions -/

theorem setErr_refuses (err : Err) (h : err ≠ .noDev) : Refuses (setErr err) := .of_quiet (setErr_quiet err h)

/-- A file in use is refused; a free one is not. -/
theorem Refuses.usage {q : M Unit} (hq : Refuses q) (i : Nat) : Refuses (do
    if (← itemUsageCount e i) > 0 then setErr .fileBusy else q) := .gets fun _ => .ite
    (setErr_refuses _ Err.noConfusion) hq

theorem deleteDir_refuses (i : Nat) : Refuses (deleteDir e i) := by
  have hstore : ∀ pos, Acts e (do
      modifyBuf fun b => b.setItemType i itemFree
      writeDirCleanup e
      ifOk () (freeBlock e pos)) := fun pos =>
    (modifyBuf_acts _).bind fun _ => writeDirCleanup_acts.bind fun _ => ifOk_steps (freeBlock_acts _)
  unfold deleteDir
  refine .gets fun b => .look (looks_quiet (driveReadBlock_looks (e := e) _)) fun _ => .gets fun sub => ?_
  refine .ite (setErr_refuses _ Err.noConfusion) (.ite (setErr_refuses _ Err.noConfusion)
    (.of_firm (acts_firm (e := e) ?_)))
  exact Prog.Steps.bind (.gets _) fun s => (driveReadBlock_acts _ _).bind fun _ => ifOk_steps (hstore _)

theorem out_firm (h : Firm p) : Firm (out p) :=
  h.bind fun _ => Prog.Steps.bind (Prog.Steps.modify fun _ => id) fun _ => .pure _

/-- A call that checks its descriptor, and then acts. -/
theorem descriptor_untouched {fd : Int} {a b : α} {q : M α} (hq : Firm q) (h : (enter r do
    let s ← Prog.gets id
    if invalidFd e s fd then out do
      setErr .invalFd
      pure a
    else q) s = some (b, s')) (hr : s'.tfsLastError.refused = true) : Untouched s s' := by
  by_cases hd : s.tfsLastError = .noDev
  · rw [enter_noDev hd] at h
    cases h
    exact .refl
  rw [enter_run hd, Prog.gets_bind, id_eq] at h
  split at h
  · have henter : enter r (out do
        setErr .invalFd
        pure a) s = some (b, s') := by
      rw [enter_run hd]
      exact h
    exact Refuses.enter (.of_quiet ((setErr_quiet _ Err.noConfusion).bind fun _ => .pure _)) henter hr
  · rw [unrefused_of_run hq h rfl] at hr
    cases hr

theorem tfsInit_unrefused (h : tfsInit e s = some ((), s')) : s'.tfsLastError.refused = false := by
  unfold tfsInit at h
  rw [Prog.modify_bind, setErr_bind] at h
  refine unrefused_of_run (Prog.Steps.bind ?_ fun _ => ifOk_steps ?_) h rfl
  · refine Prog.Steps.modify fun t _ => ?_
    cases e.drive.blkCount <;> rfl
  · refine Prog.Steps.bind (Prog.Steps.modify fun _ => id) fun _ => Prog.Steps.bind
      (Prog.Steps.modify fun _ => id) fun _ => out_firm ?_
    exact (acts_firm (loadBitmap_acts _)).bind fun _ => ifOk_steps (Prog.Steps.modify fun _ => id)

theorem tfsFormat_firm : Firm (do
    Prog.modify fun s => { s with bitmapBlk := Buf.zero.set 0 1 }
    formatLoop e e.fuel firstBitmapBlk
    ifOk () do
      loadBitmap e firstBitmapBlk
      ifOk () do
        let pos ← allocBlock e
        ifOk () do
          modifyBuf fun _ => Buf.zero
          driveWriteBlock e pos .blkBuf
          ifOk () do
            Prog.modify fun s => { s with currentDirBlk := rootDirBlk, loadedDirBlk := 0 }) := by
  refine Prog.Steps.bind (Prog.Steps.modify fun _ => id) fun _ => (acts_firm (formatLoop_acts _ _)).bind fun _ =>
    ifOk_steps ?_
  refine (acts_firm (loadBitmap_acts _)).bind fun _ => ifOk_steps ((acts_firm allocBlock_acts).bind fun pos =>
    ifOk_steps ?_)
  refine (acts_firm (e := e) (modifyBuf_acts _)).bind fun _ => (acts_firm (driveWriteBlock_acts _ _)).bind fun _ =>
    ifOk_steps ?_
  exact Prog.Steps.modify fun _ => id

/-- `tfs_read_file` past the lookup. -/
theorem readFileBody_quiet (item : Option Nat) (maxLen : Nat) : Quiet (do
    let b ← blkBuf
    match item with
    | none => do
      setErr .notExist
      pure (0, [])
    | some i =>
      if b.itemType i ≠ itemFile then do
        setErr .notExist
        pure (0, [])
      else do
        let len := if b.itemSize i > maxLen then maxLen else b.itemSize i
        let data ← readFileLoop e e.fuel (b.itemBlk i) len []
        pure (len, data) : M (Nat × List UInt8)) := by
  refine Prog.Steps.bind (.gets _) fun b => ?_
  cases item with
  | none => exact (setErr_quiet _ Err.noConfusion).bind fun _ => .pure _
  | some i =>
    refine .ite (fun _ => (setErr_quiet _ Err.noConfusion).bind fun _ => .pure _) fun _ => ?_
    exact (looks_quiet (readFileLoop_looks _ _ _ _)).bind fun _ => .pure _

theorem tfsClose_untouched {fd : Int} (h : tfsClose e fd s = some ((), s')) (hr : s'.tfsLastError.refused = true) :
    Untouched s s' := by
  unfold tfsClose at h
  split at h
  · cases h
    exact .refl
  · rw [setErr_bind, Prog.gets_bind, id_eq] at h
    split at h
    · cases h
      exact untouched_of_run (setErr_quiet .invalFd Err.noConfusion) rfl
    · cases h
      cases hr

/-- A call that ends with an error that refuses it has changed nothing. -/
theorem refused_untouched {c : Op} (hc : c ≠ .changeDirRoot) (h : c.exec e s = some ((), s'))
    (hr : s'.tfsLastError.refused = true) : Untouched s s' := by
  have hread : ∀ b, Quiet (driveReadBlock e b .blkBuf) := fun b => looks_quiet (driveReadBlock_looks b)
  have hwrite : ∀ b, Acts e (driveWriteBlock e b .blkBuf) := fun b => driveWriteBlock_acts b _
  have hfind := @findFile_quiet e
  obtain ⟨a, h⟩ := drop_eq_some h
  cases c with
  | changeDirRoot => exact absurd rfl hc
  | init =>
    rw [tfsInit_unrefused h] at hr
    cases hr
  | format => exact Refuses.enter (.of_firm tfsFormat_firm) h hr
  | getUsed =>
    exact Refuses.enter (.of_firm ((acts_firm (getUsedLoop_acts _ _ _)).bind fun _ => .pure _)) h hr
  | readDir handler =>
    exact Refuses.enter (.gets fun s => .of_quiet (looks_quiet (readDirLoop_looks handler _ _ _))) h hr
  | changeDirParent =>
    refine Refuses.enter (.gets fun s => .look (hread _) fun _ => .gets fun b => .ite
      (setErr_refuses _ Err.noConfusion) ?_) h hr
    exact .of_firm (Prog.Steps.modify fun _ => id)
  | changeDir name =>
    refine Refuses.enter (.look (hfind _) fun item => .gets fun b => ?_) h hr
    cases item with
    | none => exact setErr_refuses _ Err.noConfusion
    | some i => exact .ite (setErr_refuses _ Err.noConfusion) (.of_firm (Prog.Steps.modify fun _ => id))
  | createDir name =>
    refine Refuses.enter (.insert (e := e) (fun i b => setErr_refuses _ Err.noConfusion) fun i => ?_) h hr
    refine allocBlock_acts.bind fun new => ifOk_steps ((modifyBuf_acts _).bind fun _ => Prog.Steps.bind
      (.gets _) fun s => ?_)
    exact (hwrite _).bind fun _ => ifOk_steps ((modifyBuf_acts _).bind fun _ => hwrite _)
  | writeFile name data len ov =>
    refine Refuses.enter (.insert (e := e) (fun i b => .ite (setErr_refuses _ Err.noConfusion) (.usage ?_ _))
      fun i => writeFileData_acts _ _ _ _) h hr
    refine .of_firm (acts_firm (e := e) ((freeFileBlocks_acts _).bind fun _ => ifOk_steps
      (Prog.Steps.bind (.gets _) fun s => ?_)))
    exact (driveReadBlock_acts _ _).bind fun _ => ifOk_steps (writeFileData_acts _ _ _ _)
  | readFile name maxLen =>
    exact Refuses.enter (.look (hfind _) fun item => .of_quiet (readFileBody_quiet item maxLen)) h hr
  | delete name type =>
    refine Refuses.enter (.look (hfind _) fun item => .gets fun b => ?_) h hr
    cases item with
    | none => exact setErr_refuses _ Err.noConfusion
    | some i =>
      refine .ite (setErr_refuses _ Err.noConfusion) (.usage (.ite (.of_firm (acts_firm (deleteFile_acts _))) ?_) _)
      exact .ite (deleteDir_refuses _) (setErr_refuses _ Err.noConfusion)
  | rename fromName toName =>
    refine Refuses.enter (.look (hfind _) fun item => ?_) h hr
    cases item with
    | some i => exact setErr_refuses _ Err.noConfusion
    | none =>
      refine .look (hfind _) fun item => ?_
      cases item with
      | none => exact setErr_refuses _ Err.noConfusion
      | some i => exact .of_firm (acts_firm ((modifyBuf_acts _).bind fun _ => Prog.Steps.bind (.gets _) fun s =>
          hwrite _))
  | stat name =>
    exact Refuses.enter (.of_quiet (hfind _)) h hr
  | touch name =>
    refine Refuses.enter (.insert (e := e) (fun i b => .of_quiet (.pure _)) fun i => ?_) h hr
    exact (modifyBuf_acts _).bind fun _ => Prog.Steps.bind (.gets _) fun s => hwrite _
  | openFile name =>
    have hfirm : ∀ fd f, Firm (modifyHandle fd f) := fun fd f => acts_firm (e := e) (modifyHandle_acts fd f)
    refine Refuses.enter (.look (hfind _) fun item => .gets fun b => ?_) h hr
    cases item with
    | none => exact .of_quiet ((setErr_quiet _ Err.noConfusion).bind fun _ => .pure _)
    | some i =>
      refine .ite (.of_quiet ((setErr_quiet _ Err.noConfusion).bind fun _ => .pure _)) (.gets fun s => .of_firm ?_)
      split
      · exact (hfirm _ _).bind fun _ => .pure _
      · split
        · exact Prog.Steps.bind (Prog.Steps.modify fun _ _ => rfl) fun _ => .pure _
        · exact (hfirm _ _).bind fun _ => (hfirm _ _).bind fun _ => .pure _
  | close fd => exact tfsClose_untouched h hr
  | trunc fd size =>
    exact Refuses.enter (.gets fun s => .ite (setErr_refuses _ Err.noConfusion)
      (.of_firm (acts_firm (truncBody_acts _ _)))) h hr
  | write fd data len offset =>
    exact descriptor_untouched (lates_firm (writeBody_lates fd.toNat data len offset)) h hr
  | read fd len offset =>
    exact descriptor_untouched (lates_firm (readBody_lates fd.toNat len offset)) h hr

/-- A volume with the file `a` and the directory `d`, which holds the file `b`. -/
def fileAndDir : List Op :=
  [.init, .format, .writeFile [97] (List.replicate 600 7) 600 false, .createDir [100], .changeDir [100], .touch [98],
    .changeDirRoot]

theorem deleteFull_run : ∃ s s', Prog.runAll (Op.exec (Env.linux 16)) fileAndDir (State.boot fun _ => Buf.zero) =
    some ((), s) ∧
    (Op.delete [100] itemDir).exec (Env.linux 16) s = some ((), s') ∧ s'.tfsLastError = .notEmpty := by
  have hrun : ((Prog.runAll (Op.exec (Env.linux 16)) fileAndDir (State.boot fun _ => Buf.zero)).bind fun p =>
      ((Op.delete [100] itemDir).exec (Env.linux 16) p.2).map fun q => q.2.tfsLastError) = some .notEmpty := by
    decide +kernel
  obtain ⟨⟨_, s⟩, hs, hrun⟩ := Option.bind_eq_some_iff.mp hrun
  obtain ⟨⟨_, s'⟩, hs', herr⟩ := Option.map_eq_some_iff.mp hrun
  exact ⟨s, s', hs, hs', herr⟩

/-- The directory `d` cannot be deleted. -/
theorem refused_untouched_delete : ∃ s s',
    Prog.runAll (Op.exec (Env.linux 16)) fileAndDir (State.boot fun _ => Buf.zero) = some ((), s) ∧
    (Op.delete [100] itemDir).exec (Env.linux 16) s = some ((), s') ∧ s'.tfsLastError = .notEmpty ∧ Untouched s s' := by
  obtain ⟨s, s', hs, hs', herr⟩ := deleteFull_run
  exact ⟨s, s', hs, hs', herr, refused_untouched Op.noConfusion hs' (by rw [herr]; rfl)⟩

end TinyFs
