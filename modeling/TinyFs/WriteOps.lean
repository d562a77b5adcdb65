/-
`tfs_write_file` on the never-failing drive: an entry added or replaced, with the
chain the write loop built. An overwrite gives the old chain back first, so only
an empty file can find the disk full before its entry is written.
-/
import TinyFs.DirOps
import TinyFs.Space

namespace TinyFs

open Bytes Chains

variable {e : Env} {n : Nat} {s s' s₁ : State} {L : Layout} {C : List Nat} {D cs : List (List Nat)} {xs : List Nat}
  {q : Nat × Nat} {name data : List UInt8} {len : Nat}

/-- The entry of a file is in slot `q` of `C` and its data, where there is any, in
the chains `bornF`. -/
structure FileStored (e : Env) (n : Nat) (s s' : State) (C : List Nat) (cs : List (List Nat)) (xs : List Nat)
    (q : Nat × Nat) (name data : List UInt8) (len pos : Nat) (bornF : List (List Nat)) : Prop where
  ready : Ready n s' (bornF ++ C :: cs) xs
  frame : Frame s s'
  err : s'.tfsLastError = .ok ∨ s'.tfsLastError = .diskFull
  pos32 : pos % 2 ^ 32 = pos
  pos_ne : 0 < len → pos ≠ 0
  heads : (newFile name len pos).fileHead = heads bornF
  dir : ∀ b ∈ C, s'.dev b = Function.update s.dev q.1 (fillItem q.2 itemFile pos len name (s.dev q.1)) b
  agree : AgreeOff (C ++ bornF.flatten) s.dev s'.dev
  written : Written e n s' bornF.flatten.length (blocksFor len)
  holds : Holds s'.dev bornF.flatten data len

theorem Written.ended {blocks need : Nat} (h : Written e n s blocks need) : Ended n s := by
  rcases h with ⟨h, _⟩ | ⟨h, hfull, _⟩
  · exact .ok h
  · refine ⟨?_, fun _ => hfull⟩
    rw [h]
    split <;> exact Err.noConfusion

theorem Written.err {blocks need : Nat} (h : Written e n s blocks need) :
    s.tfsLastError = .ok ∨ s.tfsLastError = .diskFull := by
  rcases h with ⟨h, _⟩ | ⟨h, _⟩
  · exact .inl h
  · rw [h]
    split
    · exact .inl rfl
    · exact .inr rfl

/-- The entry is written with the first block of the data, then the data. -/
theorem writeFileEntry_ok (he : e.NeverFails) (name data : List UInt8) (len pos : Nat) (h : Ready n s (C :: cs) xs)
    (herr : s.tfsLastError = .ok)
    (hbuf : s.blkBuf = s.dev q.1) (hdir : s.loadedDirBlk = q.1) (hq : q ∈ slots C) (l : DriveLog) :
    Ready n { s with
      blkBuf := (fillItem q.2 itemFile pos len name (s.dev q.1)).setPrev 0
      dev := Function.update s.dev q.1 (fillItem q.2 itemFile pos len name (s.dev q.1)), log := l } (C :: cs) xs ∧
    ((do
      modifyBuf (fillItem q.2 itemFile pos len name)
      let s ← Prog.gets id
      driveWriteBlock e s.loadedDirBlk .blkBuf
      ifOk () do
        modifyBuf fun b => b.setPrev 0
        writeFileLoop e e.fuel pos data len : M Unit) s =
      writeFileLoop e e.fuel pos data len { s with
        blkBuf := (fillItem q.2 itemFile pos len name (s.dev q.1)).setPrev 0
        dev := Function.update s.dev q.1 (fillItem q.2 itemFile pos len name (s.dev q.1))
        log := s.log.transfer (.write q.1 true) }) := by
  have hqC := (mem_slots.mp hq).1
  have hlt : q.1 < s.blkCount := h.mem_lt (c := C) (by simp) hqC
  have hR := h.storeSlot hqC (Block.SlotStore.fillItem (b := s.dev q.1) (i := q.2) itemFile pos len name) l
  refine ⟨⟨hR.mounted, hR.cache, hR.owned⟩, ?_⟩
  rw [modifyBuf_bind]
  simp only [Prog.gets_bind, id_eq, hdir, hbuf]
  rw [Prog.bind_some (driveWriteBlock_ok he (by exact herr) (by exact hlt)), ifOk_ok (by exact herr), modifyBuf_bind]

theorem writeFileData_ok (he : e.NeverFails) (hf : n ≤ e.fuel) (name data : List UInt8) (len : Nat)
    (h : Ready n s (C :: cs) xs) (herr : s.tfsLastError = .ok)
    (hbuf : s.blkBuf = s.dev q.1) (hdir : s.loadedDirBlk = q.1) (hq : q ∈ slots C) :
    (∃ pos bornF s', writeFileData e name data len q.2 s = some ((), s') ∧
      FileStored e n s s' C cs xs q name data len pos bornF) ∨
    (∃ s', writeFileData e name data len q.2 s = some ((), s') ∧ NoSpace n s s' (C :: cs) xs) := by
  have hn := h.mounted.pos
  have hqC := (mem_slots.mp hq).1
  rw [writeFileData]
  by_cases hlen : len = 0
  · subst hlen
    left
    obtain ⟨hR, hrun⟩ := writeFileEntry_ok he name data 0 0 h herr hbuf hdir hq
      (s.log.transfer (.write q.1 true))
    obtain ⟨k, hk⟩ : ∃ k, e.fuel = k + 1 := ⟨e.fuel - 1, by omega⟩
    refine ⟨0, [], _, ?_, ⟨⟨hR.mounted, hR.cache, hR.owned⟩, ⟨rfl, rfl, rfl, rfl, rfl⟩, .inl herr, rfl, nofun, ?_,
      fun _ _ => rfl, AgreeOff.update (by simp [hqC]) _, .all herr rfl, nofun⟩⟩
    · rw [if_pos rfl, Prog.pure_bind_apply]
      show ifOk () _ s = _
      rw [ifOk_ok herr, hrun, hk, writeFileLoop, if_pos rfl]
      rfl
    · simp [newFile, DirItem.fileHead]
  · rw [if_neg hlen]
    rcases h.alloc he hf herr with ⟨b, s₁, ha⟩ | ⟨s₁, ha⟩
    · left
      have hbn := (ha.ready.owned.range b (by simp)).1
      have hb0 := ne_zero_of_mod (ha.ready.owned.range b (by simp)).2
      have hqb : s₁.dev q.1 = s.dev q.1 := ha.agree q.1 (h.owned.mem_mod (by simp) hqC) (by simp)
      obtain ⟨hR, hrun⟩ := writeFileEntry_ok he name data len b ha.ready ha.err
        (by rw [ha.kept.buf, hbuf, hqb]) (ha.kept.dirBlk.trans hdir) hq (s₁.log.transfer (.write q.1 true))
      obtain ⟨c, s', hrun', hs', hframe, hagree, hw, hholds⟩ := writeFileLoop_ok he hf e.fuel [] b data len _
        (by simpa using hf) (by omega) hR trivial (by simp) ha.err
      have hbC : ∀ x ∈ C, x ∉ b :: c := fun x hx hxc => (hs'.owned.apart (d := C) (by simp) hx) hxc
      refine ⟨b, [b :: c], s', ?_, ⟨hs', ?_, hw.err, ?_, fun _ => hb0, ?_, ?_, ?_, by simpa using hw,
        by simpa using hholds⟩⟩
      · rw [Prog.bind_some ha.run]
        show ifOk () _ s₁ = _
        rw [ifOk_ok ha.err, hrun, hrun']
      · exact ha.kept.toFrame.trans ⟨hframe.1, hframe.2, hframe.3, hframe.4, hframe.5⟩
      · exact Nat.mod_eq_of_lt (Nat.lt_trans hbn h.mounted.lt)
      · simp [newFile, DirItem.fileHead, hb0]
      · intro x hx
        have hxm := h.owned.mem_mod (c := C) (by simp) hx
        refine (hagree x hxm (hbC x hx)).trans ?_
        show Function.update s₁.dev q.1 _ x = _
        by_cases hxq : x = q.1
        · rw [hxq, Function.update_self, Function.update_self, hqb]
        · rw [Function.update_of_ne hxq, Function.update_of_ne hxq]
          exact ha.agree x hxm (by simp)
      · have h1 : AgreeOff (C ++ [b :: c].flatten) s.dev s₁.dev := ha.agree.mono (by simp)
        exact h1.trans ((AgreeOff.update (by simp [hqC]) _).trans (hagree.mono fun x hx => by simp at hx ⊢; tauto))
    · right
      have herr₁ : s₁.tfsLastError ≠ .ok := by
        rw [ha.err]
        exact Err.noConfusion
      exact ⟨s₁, by rw [Prog.bind_some ha.run]; exact ifOk_err herr₁, ha.ready, ha.kept.toFrame, ha.err, ha.full, ha.dev⟩

/-- A new file in a free slot. -/
theorem Cur.fileInserted {C' : List Nat} {ov : Bool} {pos : Nat} {bornF : List (List Nat)} (h : Cur n s L C D)
    (hs₁ : FreeSlot n s s₁ C C' (D ++ (L.files ++ L.loose)) L.leaked q)
    (hst : FileStored e n s₁ s' C' (D ++ (L.files ++ L.loose)) L.leaked q name data len pos bornF)
    (hname : name.headD 0 ≠ 0) (hmiss : Miss e.filenameCmp name (entries s.dev C)) :
    DirDone e n L (.writeFile name data len ov) s s' [newFile name len pos] := by
  have hperm : (bornF ++ C' :: (D ++ (L.files ++ L.loose))).Perm (C' :: D ++ (bornF ++ (L.files ++ L.loose))) :=
    (List.perm_append_comm_assoc bornF (C' :: D) (L.files ++ L.loose))
  have hr : Ready n s' (L.edit C' [] D bornF L.files).chains L.leaked := by
    refine hst.ready.perm (hperm.trans (.of_eq ?_)) (.refl _)
    simp [Layout.edit, Layout.chains]
  refine h.inserted [] bornF hs₁ (Block.SlotStore.fillItem ..) ?_ rfl hst.frame hst.written.ended hr hst.dir
    (by simpa using hst.agree) rfl hst.heads (by simp) (by simp) (by simp) fun A B hE => ?_
  · rw [Block.item_fillItem _ _ _ _ hs₁.slot_lt.2, hst.pos32]
    rfl
  · exact .writeNew hname (hE ▸ hmiss) hst.err

/-- A file overwritten: its old chain is given back, its entry and data replaced. -/
theorem Cur.fileReplaced {t : State} {P Q : List (Nat × Nat)} {pos : Nat} {goneF bornF F : List (List Nat)}
    (h : Cur n s L C D)
    (hfd : Found e s.dev C name q P Q) (ht : (itemAt s.dev q).type = itemFile) (hfiles : L.files.Perm (goneF ++ F))
    (hheads : heads goneF = (itemAt s.dev q).fileHead) (hf : Frame s t) (hag : AgreeOff [] s.dev t.dev)
    (hst : FileStored e n t s' C (D ++ (F ++ L.loose)) L.leaked q name data len pos bornF) (hname : name.headD 0 ≠ 0) :
    DirDone e n L (.writeFile name data len true) s s' [newFile name len pos] := by
  obtain ⟨hq, hi⟩ := mem_slots.mp hfd.mem
  have hsame : ∀ b ∈ C, t.dev b = s.dev b := fun b hb => hag b (h.owned.mem_mod (c := C) (by simp) hb) (by simp)
  have hperm : (bornF ++ C :: (D ++ (F ++ L.loose))).Perm (C :: D ++ (bornF ++ (F ++ L.loose))) :=
    (List.perm_append_comm_assoc bornF (C :: D) (F ++ L.loose))
  have hr : Ready n s' (L.edit C [] D bornF F).chains L.leaked := by
    refine hst.ready.perm (hperm.trans (.of_eq ?_)) (.refl _)
    simp [Layout.edit, Layout.chains]
  have hnodir : (itemAt s.dev q).dirHead = [] := by
    rw [DirItem.dirHead, if_neg (by rw [ht]; decide)]
  refine h.replaced goneF bornF (v := fillItem q.2 itemFile pos len name (s.dev q.1)) (x := newFile name len pos) hfd
    (Block.SlotStore.fillItem ..) ?_ rfl (hf.trans hst.frame) hst.written.ended hfiles hr ?_ ?_ ?_ ?_ ?_ ?_
  · rw [Block.item_fillItem _ _ _ _ hi, hst.pos32]
    rfl
  · intro b hb
    rw [hst.dir b hb, hsame q.1 hq]
    by_cases hbq : b = q.1
    · rw [hbq, Function.update_self, Function.update_self]
    · rw [Function.update_of_ne hbq, Function.update_of_ne hbq, hsame b hb]
  · exact (hag.mono (by simp)).trans hst.agree
  · rw [hnodir]
    rfl
  · rw [hheads, hst.heads]
  · simp [DirCall.dropped, hheads, hnodir]
  · exact .writeOver hname hfd.hit ht hst.err

/-! ## Where a call ends -/

/-- The slot of the first entry with the name in the current directory. -/
def State.lookup (e : Env) (n : Nat) (s : State) (name : List UInt8) : Option (Nat × Nat) :=
  (slots (follow s.dev n s.currentDirBlk)).find? fun p => hits e name (itemAt s.dev p)

/-- A file can be written under the name: there is none yet, or one that can be overwritten. -/
def State.Accepts (e : Env) (n : Nat) (s : State) (name : List UInt8) (ov : Bool) : Prop :=
  name.headD 0 ≠ 0 ∧ ∀ q, s.lookup e n name = some q → ov = true ∧ (itemAt s.dev q).type = itemFile ∧
    itemUsageCountLoop { s with loadedDirBlk := q.1 } q.2 (List.range e.maxFds) = 0

/-- How many blocks there are for the data: an overwrite gives the old ones back,
a new entry may need a block for the directory. -/
def State.room (e : Env) (n : Nat) (s : State) (name : List UInt8) : Nat :=
  match s.lookup e n name with
  | some q => freeCount n s.dev + (follow s.dev n (itemAt s.dev q).blk).length
  | none => freeCount n s.dev - growth s.dev (follow s.dev n s.currentDirBlk)

/-- The data is in the chain that starts at `pos`. -/
structure Stored (e : Env) (n : Nat) (s s' : State) (name data : List UInt8) (len pos : Nat) : Prop where
  pos_ne : 0 < len → pos ≠ 0
  written : Written e n s' (follow s'.dev n pos).length (blocksFor len)
  holds : Holds s'.dev (follow s'.dev n pos) data len
  space : freeCount n s'.dev + (follow s'.dev n pos).length = s.room e n name
  /-- What is left of the old chain is free. -/
  dropped : ∀ q, s.lookup e n name = some q → ∀ b ∈ follow s.dev n (itemAt s.dev q).blk,
    b ∉ follow s'.dev n pos → ¬ Used s'.dev b

/-- How `tfs_write_file` ends: refused, with no block for the data, or with an
entry and as much of the data as there is room for. -/
inductive WriteFileEnd (e : Env) (n : Nat) (L : Layout) (s s' : State) (name data : List UInt8) (len : Nat)
    (ov : Bool) : Prop
  | refused : DirDone e n L (.writeFile name data len ov) s s' [] → s'.tfsLastError ≠ .ok → ¬ s.Accepts e n name ov →
      WriteFileEnd e n L s s' name data len ov
  | noSpace : DirDone e n L (.writeFile name data len ov) s s' [] → s'.tfsLastError = .diskFull →
      s.room e n name = 0 → WriteFileEnd e n L s s' name data len ov
  | stored (pos : Nat) : DirDone e n L (.writeFile name data len ov) s s' [newFile name len pos] →
      s.Accepts e n name ov → Stored e n s s' name data len pos → WriteFileEnd e n L s s' name data len ov

theorem WriteFileEnd.ok {ov : Bool} (h : WriteFileEnd e n L s s' name data len ov) :
    DirOk e n L (.writeFile name data len ov) s s' := by
  cases h with
  | refused h _ _ => exact h.ok
  | noSpace h _ _ => exact h.ok
  | stored _ h _ _ => exact h.ok

theorem Cur.lookup_some {P Q : List (Nat × Nat)} (h : Cur n s L C D) (hfd : Found e s.dev C name q P Q) :
    s.lookup e n name = some q := by
  rw [State.lookup, h.follow_eq]
  exact hfd.find

theorem Cur.lookup_none (h : Cur n s L C D) (hmiss : Miss e.filenameCmp name (entries s.dev C)) :
    s.lookup e n name = none := by
  rw [State.lookup, h.follow_eq]
  exact find_of_miss hmiss

theorem Cur.room_some {P Q : List (Nat × Nat)} (h : Cur n s L C D) (hfd : Found e s.dev C name q P Q) :
    s.room e n name = freeCount n s.dev + (follow s.dev n (itemAt s.dev q).blk).length := by
  rw [State.room, h.lookup_some hfd]

theorem Cur.room_none (h : Cur n s L C D) (hmiss : Miss e.filenameCmp name (entries s.dev C)) :
    s.room e n name = freeCount n s.dev - growth s.dev C := by
  rw [State.room, h.lookup_none hmiss, h.follow_eq]

theorem Cur.accepts_none {ov : Bool} (h : Cur n s L C D) (hname : name.headD 0 ≠ 0)
    (hmiss : Miss e.filenameCmp name (entries s.dev C)) : s.Accepts e n name ov :=
  ⟨hname, fun _ hq => absurd (h.lookup_none hmiss ▸ hq) nofun⟩

/-- The chain of a stored file. -/
theorem FileStored.follow_eq {pos : Nat} {bornF : List (List Nat)}
    (h : FileStored e n s s' C cs xs q name data len pos bornF) :
    follow s'.dev n pos = bornF.flatten := by
  have hheads := h.heads
  by_cases hpos : pos = 0
  · subst hpos
    have hnil : bornF = [] := by simpa [newFile, DirItem.fileHead, TinyFs.heads] using hheads.symm
    rw [follow_zero, hnil]
    rfl
  · have hone : TinyFs.heads bornF = [pos] := by simpa [newFile, DirItem.fileHead, hpos] using hheads.symm
    obtain ⟨c, hc, hhead⟩ : ∃ c, bornF = [c] ∧ firstBlk c = pos := List.map_eq_singleton_iff.mp hone
    rw [← hhead, h.ready.owned.follow_eq (c := c) (by simp [hc]), hc]
    simp

theorem Cur.storedNew {C' : List Nat} {pos : Nat} {bornF : List (List Nat)} (h : Cur n s L C D)
    (hmiss : Miss e.filenameCmp name (entries s.dev C)) (hgrow : C'.length = C.length + growth s.dev C)
    (hst : FileStored e n s₁ s' C' (D ++ (L.files ++ L.loose)) L.leaked q name data len pos bornF) :
    Stored e n s s' name data len pos := by
  have hfollow := hst.follow_eq
  refine ⟨hst.pos_ne, hfollow ▸ hst.written, hfollow ▸ hst.holds, ?_, fun q hq => ?_⟩
  · have hcount := h.owned.freeCount_add hst.ready.owned
    rw [h.room_none hmiss, hfollow]
    simp only [List.flatten_append, List.flatten_cons, List.length_append] at hcount
    omega
  · rw [h.lookup_none hmiss] at hq
    cases hq

/-- The old chain of an overwritten file. -/
theorem Cur.follow_gone {goneF F : List (List Nat)} {x : DirItem} (h : Cur n s L C D) (hfiles : L.files.Perm (goneF ++ F))
    (hg : goneF = [] ∧ x.blk = 0 ∨ ∃ c, goneF = [c] ∧ firstBlk c = x.blk) : follow s.dev n x.blk = goneF.flatten := by
  rcases hg with ⟨rfl, hb⟩ | ⟨c, rfl, hb⟩
  · rw [hb, follow_zero]
    rfl
  · rw [← hb, h.owned.follow_eq (c := c) (by simp [hfiles.mem_iff])]
    simp

theorem Cur.storedOver {P Q : List (Nat × Nat)} {t : State} {pos : Nat} {goneF bornF F : List (List Nat)}
    (h : Cur n s L C D) (hfd : Found e s.dev C name q P Q) (hfiles : L.files.Perm (goneF ++ F))
    (hg : goneF = [] ∧ (itemAt s.dev q).blk = 0 ∨ ∃ c, goneF = [c] ∧ firstBlk c = (itemAt s.dev q).blk)
    (hst : FileStored e n t s' C (D ++ (F ++ L.loose)) L.leaked q name data len pos bornF) :
    Stored e n s s' name data len pos := by
  have hfollow := hst.follow_eq
  have hgone := h.follow_gone hfiles hg
  have howned : Owned n s.dev (goneF ++ C :: (D ++ (F ++ L.loose))) L.leaked := by
    refine h.owned.perm ?_ (.refl _)
    have h1 := List.Perm.append_left (C :: D) (hfiles.append_right L.loose)
    rw [List.append_assoc] at h1
    exact h1.trans (List.perm_append_comm_assoc (C :: D) goneF (F ++ L.loose))
  refine ⟨hst.pos_ne, hfollow ▸ hst.written, hfollow ▸ hst.holds, ?_, fun p hp b hb hnew hu => ?_⟩
  · have hcount := howned.freeCount_add hst.ready.owned
    rw [h.room_some hfd, hfollow, hgone]
    simp only [List.flatten_append, List.flatten_cons, List.length_append] at hcount
    omega
  · obtain rfl : p = q := Option.some.inj (hp.symm.trans (h.lookup_some hfd))
    rw [hgone] at hb
    rw [hfollow] at hnew
    obtain ⟨hlt, hmod⟩ := howned.range b (by simp only [List.flatten_append, List.mem_append]; exact .inr (.inl hb))
    have hnd := howned.nodup
    rw [List.flatten_append, List.nodup_append, List.nodup_append] at hnd
    have hmem := ((hst.ready.owned.used b hlt).mp hu).resolve_left hmod
    rw [List.flatten_append, List.mem_append, List.mem_append] at hmem
    rcases hmem with hmem | hmem | hmem
    · exact hnd.2.2 b hmem b (List.mem_append_left _ hb) rfl
    · exact hnew hmem
    · exact hnd.2.1.2.2 b hb b hmem rfl

/-- The overwrite of the file in slot `q`. -/
theorem writeOver_ok (he : e.NeverFails) (hf : n ≤ e.fuel) {P Q : List (Nat × Nat)} (h : Cur n s L C D)
    (hname : name.headD 0 ≠ 0) (hfd : Found e s.dev C name q P Q) (ht : (itemAt s.dev q).type = itemFile)
    (hacc : s.Accepts e n name true) (l : DriveLog) :
    ∃ s', (do
      freeFileBlocks e ((s.dev q.1).itemBlk q.2)
      ifOk () do
        let s ← Prog.gets id
        driveReadBlock e s.loadedDirBlk .blkBuf
        ifOk () (writeFileData e name data len q.2) : M Unit) { s with
          blkBuf := s.dev q.1, loadedDirBlk := q.1, log := l } = some ((), s') ∧
      WriteFileEnd e n L s s' name data len true := by
  obtain ⟨goneF, F, hfiles, hheads, hg⟩ := h.fileChain (x := itemAt s.dev q) (by rw [hfd.entries]; simp) ht
  have hperm : (C :: (D ++ (L.files ++ L.loose))).Perm (goneF ++ C :: (D ++ (F ++ L.loose))) := by
    have h1 := List.Perm.append_left (C :: D) (hfiles.append_right L.loose)
    rw [List.append_assoc] at h1
    exact h1.trans (List.perm_append_comm_assoc (C :: D) goneF (F ++ L.loose))
  obtain ⟨s₁, hrun, hs₁, herr₁, hf₁, hdir₁, hag, hnotfull⟩ := freeEntry_ok (p := (itemAt s.dev q).blk) he hf
    ((h.look q.1 l).toReady.perm hperm (.refl _)) h.err hg
  have hf₁ : Frame s s₁ := ⟨hf₁.1, hf₁.2, hf₁.3, hf₁.4, hf₁.5⟩
  have hdir₁ : s₁.loadedDirBlk = q.1 := hdir₁
  have hqC := (mem_slots.mp hfd.mem).1
  have hlt : q.1 < s₁.blkCount := hs₁.mem_lt (c := C) (by simp) hqC
  have hread : Ready n { s₁ with blkBuf := s₁.dev q.1, log := s₁.log.transfer (.read q.1 true) }
      (C :: (D ++ (F ++ L.loose))) L.leaked := ⟨hs₁.mounted, hs₁.cache, hs₁.owned⟩
  have hrest := writeFileData_ok he hf name data len hread herr₁ rfl hdir₁ hfd.mem
  have hpre : ∀ k : M Unit, (freeFileBlocks e ((s.dev q.1).itemBlk q.2) >>= fun _ => ifOk () do
      let s ← Prog.gets id
      driveReadBlock e s.loadedDirBlk .blkBuf
      ifOk () k) { s with blkBuf := s.dev q.1, loadedDirBlk := q.1, log := l } =
      k { s₁ with blkBuf := s₁.dev q.1, log := s₁.log.transfer (.read q.1 true) } := by
    intro k
    have hrun : freeFileBlocks e ((s.dev q.1).itemBlk q.2) { s with
      blkBuf := s.dev q.1, loadedDirBlk := q.1, log := l } = some ((), s₁) := hrun
    rw [Prog.bind_some hrun, ifOk_ok herr₁]
    simp only [Prog.gets_bind, id_eq, hdir₁]
    rw [Prog.bind_some (driveReadBlock_ok he herr₁ hlt), ifOk_ok (by exact herr₁), ← hdir₁]
  rcases hrest with ⟨pos, bornF, s', hrun', hst⟩ | ⟨s', hrun', hns⟩
  · refine ⟨s', (hpre _).trans hrun', .stored pos ?_ hacc (h.storedOver hfd hfiles hg hst)⟩
    exact h.fileReplaced hfd ht hfiles hheads (t := { s₁ with
      blkBuf := s₁.dev q.1, log := s₁.log.transfer (.read q.1 true) }) ⟨hf₁.1, hf₁.2, hf₁.3, hf₁.4, hf₁.5⟩ hag hst hname
  · have hblk : (itemAt s.dev q).blk = 0 := by
      by_contra hne
      exact hnotfull hne hns.full
    have hrun0 := freeFileBlocks_zero (e := e) (s := { s with blkBuf := s.dev q.1, loadedDirBlk := q.1, log := l })
      (Nat.lt_of_lt_of_le h.mounted.pos hf)
    rw [hblk, hrun0] at hrun
    have hs₁ : s₁.dev = s.dev := by
      have := congrArg (fun r => r.map fun p => p.2.dev) hrun
      simpa using this.symm
    refine ⟨s', (hpre _).trans hrun', .noSpace ?_ hns.err ?_⟩
    · refine h.same (hf₁.trans ⟨hns.frame.1, hns.frame.2, hns.frame.3, hns.frame.4, hns.frame.5⟩) (hns.dev.trans hs₁)
        hns.cache hns.ended hfd.entries ?_
      rw [hns.err]
      exact .writeOverFull hname hfd.hit ht hblk
    · have hfull : Full n s.dev := hs₁ ▸ hns.full
      rw [h.room_some hfd, hblk, follow_zero, freeCount_eq_zero.mpr hfull]
      rfl

/-- The body of `tfs_write_file`, in the current directory `C`. -/
theorem writeFileBody_ok (he : e.NeverFails) (hf : n ≤ e.fuel) (h : Cur n s L C D) (name data : List UInt8) (len : Nat)
    (ov : Bool) : ∃ s', (do
      let item ← findFile e name true
      ifOk () do
        let i := item.getD 0
        let b ← blkBuf
        if b.itemType i ≠ itemFree then
          if !ov ∨ b.itemType i ≠ itemFile then setErr .fileExist
          else if (← itemUsageCount e i) > 0 then setErr .fileBusy
          else
            freeFileBlocks e (b.itemBlk i)
            ifOk () do
              let s ← Prog.gets id
              driveReadBlock e s.loadedDirBlk .blkBuf
              ifOk () (writeFileData e name data len i)
        else writeFileData e name data len i : M Unit) s = some ((), s') ∧ WriteFileEnd e n L s s' name data len ov := by
  refine placing he hf h name (fun hname => ?_) (fun q P Q l hname hfd => ?_) (fun C' q s₁ hname hmiss hs₁ hgrow => ?_)
    (fun s₁ hname hmiss hs₁ hgrow => ?_)
  · exact .refused (h.noName hname) Err.noConfusion fun hacc => hacc.1 hname
  · have hne : (s.dev q.1).itemType q.2 ≠ itemFree := fun ht => by
      have := live_of_free (x := itemAt s.dev q) ht
      simp [hfd.live] at this
    have hlook : ∀ err : Err, err ≠ .noDev → err ≠ .diskFull → err ≠ .ok → DirStep e.filenameCmp (Held e s)
        (.writeFile name data len ov) err (liveAt s.dev P) [] [] (itemAt s.dev q :: liveAt s.dev Q) →
        ¬ s.Accepts e n name ov →
        ∃ s', setErr err { s with blkBuf := s.dev q.1, loadedDirBlk := q.1, log := l } = some ((), s') ∧
          WriteFileEnd e n L s s' name data len ov :=
      fun err hdev hfull hok hstep hacc =>
        ⟨_, rfl, .refused (h.looked q.1 l err hfd.entries hdev hfull hstep) hok hacc⟩
    simp only [Option.getD_some, blkBuf_bind, ne_eq, hne, not_false_eq_true, if_true]
    by_cases h1 : (!ov) = true ∨ ¬ (s.dev q.1).itemType q.2 = itemFile
    · rw [if_pos h1]
      have h1' : ov = false ∨ ¬ (s.dev q.1).itemType q.2 = itemFile := by simpa using h1
      refine hlook _ Err.noConfusion Err.noConfusion Err.noConfusion (.writeExist hname hfd.hit h1') fun hacc => ?_
      obtain ⟨hov, htype, _⟩ := hacc.2 q (h.lookup_some hfd)
      rcases h1' with h1' | h1'
      · rw [hov] at h1'
        cases h1'
      · exact h1' htype
    rw [if_neg h1]
    have hov : ov = true := by
      cases ov
      · exact absurd (.inl rfl) h1
      · rfl
    have hft : (itemAt s.dev q).type = itemFile := by_contra fun h2 => h1 (.inr h2)
    simp only [itemUsageCount, Prog.gets_bind]
    have huse : itemUsageCountLoop { s with blkBuf := s.dev q.1, loadedDirBlk := q.1, log := l } q.2
        (List.range e.maxFds) = itemUsageCountLoop { s with loadedDirBlk := q.1 } q.2 (List.range e.maxFds) := by
      refine itemUsageCountLoop_congr ?_ ?_ _ _ <;> rfl
    by_cases h2 : itemUsageCountLoop { s with blkBuf := s.dev q.1, loadedDirBlk := q.1, log := l } q.2
        (List.range e.maxFds) > 0
    · have hheld : Held e s := held_of_usage (e := e) (s := { s with
        blkBuf := s.dev q.1, loadedDirBlk := q.1, log := l }) h2
      rw [if_pos h2]
      refine hlook _ Err.noConfusion Err.noConfusion Err.noConfusion (hov ▸ .writeBusy hname hfd.hit hft hheld)
        fun hacc => ?_
      have := (hacc.2 q (h.lookup_some hfd)).2.2
      omega
    rw [if_neg h2, hov]
    refine writeOver_ok he hf h hname hfd hft ⟨hname, fun p hp => ?_⟩ l
    obtain rfl : p = q := Option.some.inj (hp.symm.trans (h.lookup_some hfd))
    exact ⟨rfl, hft, by omega⟩
  · simp only [Option.getD_some, blkBuf_bind, ne_eq, hs₁.type, not_true_eq_false, if_false, hs₁.buf]
    rcases writeFileData_ok he hf name data len hs₁.toReady hs₁.err hs₁.buf hs₁.dirBlk
      hs₁.mem with ⟨pos, bornF, s', hrun, hst⟩ | ⟨s', hrun, hns⟩
    · exact ⟨s', hrun, .stored pos (h.fileInserted hs₁ hst hname hmiss) (h.accepts_none hname hmiss)
        (h.storedNew hmiss hgrow hst)⟩
    · refine ⟨s', hrun, .noSpace (h.allocFull hs₁ hns rfl hname hmiss) hns.err ?_⟩
      have hcount := h.owned.freeCount_add hs₁.owned
      rw [freeCount_eq_zero.mpr hns.full] at hcount
      rw [h.room_none hmiss]
      simp only [List.flatten_cons, List.length_append] at hcount
      omega
  · refine .noSpace (h.noSpace hs₁ rfl hname hmiss) hs₁.err ?_
    rw [h.room_none hmiss, freeCount_eq_zero.mpr hs₁.full, Nat.zero_sub]

/-- The way back from the body of a call to the call. -/
theorem WriteFileEnd.leave {t : State} {ov : Bool}
    (h : WriteFileEnd e n L { s with tfsLastError := .ok, log := s.log.call .select } t name data len ov) :
    WriteFileEnd e n L s (t.call .deselect) name data len ov := by
  have hacc : State.Accepts e n { s with tfsLastError := .ok, log := s.log.call .select } name ov ↔
      s.Accepts e n name ov := by
    have huse : ∀ q : Nat × Nat, itemUsageCountLoop { s with
        tfsLastError := .ok, log := s.log.call .select, loadedDirBlk := q.1 } q.2 (List.range e.maxFds) =
        itemUsageCountLoop { s with loadedDirBlk := q.1 } q.2 (List.range e.maxFds) := fun q => by
      refine itemUsageCountLoop_congr ?_ ?_ _ _ <;> rfl
    simp only [State.Accepts, huse]
    rfl
  cases h with
  | refused hd herr hno =>
    obtain ⟨L', C, C', A, old, B, hd⟩ := hd
    exact .refused ⟨L', C, C', A, old, B, hd.leave⟩ herr fun h => hno (hacc.mpr h)
  | noSpace hd herr hroom =>
    obtain ⟨L', C, C', A, old, B, hd⟩ := hd
    exact .noSpace ⟨L', C, C', A, old, B, hd.leave⟩ herr hroom
  | stored pos hd ha hst =>
    obtain ⟨L', C, C', A, old, B, hd⟩ := hd
    refine .stored pos ⟨L', C, C', A, old, B, hd.leave⟩ (hacc.mp ha) ⟨hst.pos_ne, ?_, hst.holds, hst.space, hst.dropped⟩
    rcases hst.written with ⟨h1, h2⟩ | ⟨h1, h2, h3⟩
    · exact .all h1 h2
    · exact .full h1 h2 h3

theorem tfsWriteFile_end (he : e.NeverFails) (hf : n ≤ e.fuel) (hs : Sys n s L) (name data : List UInt8) (len : Nat)
    (ov : Bool) : ∃ s', tfsWriteFile e name data len ov s = some ((), s') ∧ WriteFileEnd e n L s s' name data len ov := by
  obtain ⟨C, D, h⟩ := hs.current_enter
  obtain ⟨t, hrun, hend⟩ := writeFileBody_ok he hf h name data len ov
  exact ⟨t.call .deselect, enter_out hs.dev hrun, hend.leave⟩

theorem tfsWriteFile_ok (he : e.NeverFails) (hf : n ≤ e.fuel) (hs : Sys n s L) (name data : List UInt8) (len : Nat)
    (ov : Bool) : ∃ s', tfsWriteFile e name data len ov s = some ((), s') ∧
      DirOk e n L (.writeFile name data len ov) s s' := by
  obtain ⟨s', hrun, hend⟩ := tfsWriteFile_end he hf hs name data len ov
  exact ⟨s', hrun, hend.ok⟩

/-- Every directory call does a step of the abstract directory. -/
theorem DirCall.exec_ok (he : e.NeverFails) (hf : n ≤ e.fuel) (hs : Sys n s L) (c : DirCall) :
    ∃ s', c.exec e s = some ((), s') ∧ DirOk e n L c s s' := by
  cases c with
  | createDir name => exact tfsCreateDir_ok he hf hs name
  | writeFile name data len ov => exact tfsWriteFile_ok he hf hs name data len ov
  | touch name => exact tfsTouch_ok he hf hs name
  | delete name type => exact tfsDelete_ok he hf hs name type
  | rename fromName toName => exact tfsRename_ok he hf hs fromName toName

end TinyFs
