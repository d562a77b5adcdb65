/-
`tfs_create_dir`, `tfs_touch`, `tfs_rename` and `tfs_delete` on the never-failing
drive: each does one step of the abstract directory to the current directory.
-/
import TinyFs.Space
import TinyFs.Steps

namespace TinyFs

open Bytes Chains

variable {e : Env} {n : Nat} {s s' s₁ : State} {L : Layout} {C C' : List Nat} {D cs : List (List Nat)} {xs : List Nat}
  {q : Nat × Nat}

theorem FreeSlot.slot_lt (h : FreeSlot n s s₁ C C' cs xs q) : q.1 ∈ C' ∧ q.2 < 20 := mem_slots.mp h.mem

theorem FreeSlot.type (h : FreeSlot n s s₁ C C' cs xs q) : (s₁.dev q.1).itemType q.2 = itemFree :=
  live_eq_false.mp h.free

/-- The block with the slot is written back with an entry in it. -/
theorem Ready.storeSlot (h : Ready n s (C :: cs) xs) (hq : q.1 ∈ C) {v : Block}
    (hv : Block.SlotStore v (s.dev q.1) q.2) (l : DriveLog) :
    Ready n { s with dev := Function.update s.dev q.1 v, log := l } (C :: cs) xs :=
  h.storeLinks (h.owned.mem_mod (by simp) hq) hv.next hv.prev l

/-! ## tfs_touch -/

theorem tfsTouch_ok (he : e.NeverFails) (hf : n ≤ e.fuel) (hs : Sys n s L) (name : List UInt8) :
    ∃ s', tfsTouch e name s = some ((), s') ∧ DirOk e n L (.touch name) s s' := by
  refine DirOk.bracket hs fun t ht herr _ _ => ?_
  obtain ⟨C, D, h⟩ := ht.current herr
  refine inserting (c := .touch name) he hf h rfl (fun q P Q l hname hfd => ?_) (fun C' q s₁ hname hmiss hs₁ => ?_)
  · have hne : (t.dev q.1).itemType q.2 ≠ itemFree := fun ht => by
      have := live_of_free (x := itemAt t.dev q) ht
      simp [hfd.live] at this
    refine ⟨_, ?_, (h.same (t := { t with blkBuf := t.dev q.1, loadedDirBlk := q.1, log := l })
      ⟨rfl, rfl, rfl, rfl, rfl⟩ rfl h.cache (.ok herr) hfd.entries ?_).ok⟩
    · simp only [Option.getD_some, blkBuf_bind, ne_eq, hne, not_false_eq_true, if_true]
      rfl
    · show DirStep _ _ _ t.tfsLastError _ _ _ _
      rw [herr]
      exact .touchPresent hname hfd.hit
  · obtain ⟨hq, hi⟩ := hs₁.slot_lt
    have hlt : q.1 < s₁.blkCount := hs₁.mem_lt (c := C') (by simp) hq
    have hv := Block.SlotStore.fillItem (b := s₁.dev q.1) (i := q.2) itemFile 0 0 name
    have hR := hs₁.toReady.storeSlot hq hv (s₁.log.transfer (.write q.1 true))
    have hitem := Block.item_fillItem (b := s₁.dev q.1) itemFile 0 0 name hi
    refine ⟨_, ?_, (h.inserted [] [] (t := { s₁ with
        blkBuf := fillItem q.2 itemFile 0 0 name (s₁.dev q.1)
        dev := Function.update s₁.dev q.1 (fillItem q.2 itemFile 0 0 name (s₁.dev q.1))
        log := s₁.log.transfer (.write q.1 true) }) hs₁ hv hitem rfl
      ⟨rfl, rfl, rfl, rfl, rfl⟩ (.ok hs₁.err) ⟨hR.mounted, hR.cache, hR.owned⟩ (fun b _ => rfl)
        (AgreeOff.update (by simp [hq]) _) rfl rfl
      (by simp) (by simp) (by simp) ?_).ok⟩
    · simp only [Option.getD_some, blkBuf_bind, ne_eq, hs₁.type, not_true_eq_false, if_false, modifyBuf_bind,
        Prog.gets_bind, id_eq, hs₁.dirBlk, hs₁.buf]
      rw [driveWriteBlock_ok he (by exact hs₁.err) (by exact hlt)]
    · intro A B hE
      show DirStep _ _ _ s₁.tfsLastError _ _ _ _
      rw [hs₁.err]
      exact .touch hname (hE ▸ hmiss)

/-! ## tfs_create_dir -/

/-- The first block of a new directory. -/
def emptyDirBlk (parent : Nat) : Block := Block.setParent Buf.zero parent

theorem emptyDirBlk_type (parent i : Nat) : (emptyDirBlk parent).itemType i = itemFree :=
  (Buf.get_fill_out _ _ (by simp only [Block.itemOff]; omega)).trans (Buf.get_zero _)

theorem emptyDirBlk_chain {dev : Nat → Block} {b parent : Nat} (h : dev b = emptyDirBlk parent) : Chain dev [b] := by
  refine ⟨by simp, ?_, ?_, trivial⟩ <;> simp [h, emptyDirBlk]

/-- The medium after `tfs_create_dir`: the entry in its slot, the directory in block `b`. -/
def createdDir (dev : Nat → Block) (q : Nat × Nat) (b : Nat) (name : List UInt8) (parent : Nat) : Nat → Block :=
  Function.update (Function.update dev q.1 (fillItem q.2 itemDir b 0 name (dev q.1))) b (emptyDirBlk parent)

theorem createDir_run (he : e.NeverFails) (name : List UInt8) {b : Nat} {s₂ : State}
    (hs₁ : FreeSlot n s s₁ C C' cs xs q) (ha : Alloc e n s₁ (C' :: cs) xs b s₂) :
    ∃ l, (do
      let new ← allocBlock e
      ifOk () do
        modifyBuf (fillItem q.2 itemDir new 0 name)
        let s ← Prog.gets id
        driveWriteBlock e s.loadedDirBlk .blkBuf
        ifOk () do
          modifyBuf fun _ => Block.setParent Buf.zero s.currentDirBlk
          driveWriteBlock e new .blkBuf : M Unit) s₁ = some ((), { s₂ with
      dev := createdDir s₂.dev q b name s.currentDirBlk, blkBuf := emptyDirBlk s.currentDirBlk, log := l }) := by
  have hq := hs₁.slot_lt.1
  have hqb : s₂.dev q.1 = s₁.dev q.1 := ha.agree q.1 (hs₁.owned.mem_mod (by simp) hq) (by simp)
  have hlt : q.1 < s₂.blkCount := ha.ready.mem_lt (c := C') (by simp) hq
  have hblt : b < s₂.blkCount := ha.ready.single_lt (by simp)
  rw [Prog.bind_some ha.run, ifOk_ok ha.err, modifyBuf_bind]
  simp only [Prog.gets_bind, id_eq, ha.kept.dirBlk, ha.kept.buf, hs₁.dirBlk, hs₁.buf, ← hqb, ha.kept.cur,
    hs₁.frame.cur]
  rw [Prog.bind_some (driveWriteBlock_ok he (by exact ha.err) (by exact hlt)), ifOk_ok (by exact ha.err),
    modifyBuf_bind, driveWriteBlock_ok he (by exact ha.err) (by exact hblt)]
  exact ⟨_, rfl⟩

/-- A block just allocated is in no chain. -/
theorem Alloc.fresh {s₂ : State} {b : Nat} (ha : Alloc e n s₁ cs xs b s₂) {c : List Nat} (hc : c ∈ cs) : b ∉ c := by
  intro hb
  have hnd := ha.ready.owned.nodup
  rw [List.cons_append, List.nodup_cons] at hnd
  exact hnd.1 (List.mem_append_right _ (List.mem_flatten.mpr ⟨c, hc, hb⟩))

theorem createDir_new {name : List UInt8} {b : Nat} {s₂ : State} {l : DriveLog} (h : Cur n s L C D)
    (hs₁ : FreeSlot n s s₁ C C' (D ++ (L.files ++ L.loose)) L.leaked q)
    (ha : Alloc e n s₁ (C' :: (D ++ (L.files ++ L.loose))) L.leaked b s₂) (hname : name.headD 0 ≠ 0)
    (hmiss : Miss e.filenameCmp name (entries s.dev C)) {dev₃ : Nat → Block}
    (hdev₃ : dev₃ = createdDir s₂.dev q b name s.currentDirBlk) :
    DirDone e n L (.createDir name) s { s₂ with
      dev := dev₃, blkBuf := emptyDirBlk s.currentDirBlk, log := l } [newDir name (b % 2 ^ 32)] := by
  obtain ⟨hq, hi⟩ := hs₁.slot_lt
  have hqb : s₂.dev q.1 = s₁.dev q.1 := ha.agree q.1 (hs₁.owned.mem_mod (by simp) hq) (by simp)
  have h32 : ∀ x < n, x % 2 ^ 32 = x := fun x hx => Nat.mod_eq_of_lt (Nat.lt_trans hx h.mounted.lt)
  have hb32 := h32 b (ha.ready.owned.range b (by simp)).1
  have hcur32 : s.currentDirBlk % 2 ^ 32 = s.currentDirBlk := by
    rw [h.cur]
    exact h32 _ (h.owned.mem_lt (c := C) (by simp) (firstBlk_mem (h.owned.chain C (by simp)).1))
  have hnew : dev₃ b = emptyDirBlk s.currentDirBlk := by rw [hdev₃, createdDir, Function.update_self]
  have hv := Block.SlotStore.fillItem (b := s₂.dev q.1) (i := q.2) itemDir b 0 name
  have hR : Ready n { s₂ with dev := dev₃, log := l } (C' :: (D ++ (L.files ++ L.loose))) ([b] ++ L.leaked) := by
    rw [hdev₃]
    exact (ha.ready.storeSlot hq hv l).store (by simp) _ l
  have hR3 := hR.owned.adopt (emptyDirBlk_chain hnew)
  refine h.inserted [[b]] [] hs₁ (hqb ▸ hv) (Block.item_fillItem _ _ _ _ hi) rfl
    ⟨ha.kept.blkCount, ha.kept.lastBlk, ha.kept.lastLen, ha.kept.cur, ha.kept.handles⟩ (.ok ha.err)
    ⟨hR.mounted, hR.cache, hR3.perm (.swap _ _ _) (.refl _)⟩ ?_ ?_ ?_ rfl ?_ ?_ ?_ ?_
  · intro x hx
    show dev₃ x = _
    rw [hdev₃, createdDir, Function.update_of_ne (ne_of_mem_of_not_mem hx (ha.fresh (by simp)))]
    by_cases hxq : x = q.1
    · rw [hxq, Function.update_self, Function.update_self, hqb]
    · rw [Function.update_of_ne hxq, Function.update_of_ne hxq]
      exact ha.agree x (hs₁.owned.mem_mod (by simp) hx) (by simp)
  · have h1 : AgreeOff (C' ++ ([[b]].flatten ++ [].flatten)) s₁.dev s₂.dev := ha.agree.mono (by simp)
    show AgreeOff _ _ dev₃
    rw [hdev₃]
    exact h1.trans ((AgreeOff.update (by simp [hq]) _).trans (AgreeOff.update (by simp) _))
  · rw [DirItem.dirHead, newDir, if_pos rfl, hb32]
    rfl
  · intro d hd
    obtain rfl := List.mem_singleton.mp hd
    refine ⟨entries_single_free fun i _ => ?_, rfl⟩
    show (dev₃ b).itemType i = _
    rw [hnew, emptyDirBlk_type]
  · intro d hd hmem
    obtain rfl := List.mem_singleton.mp hd
    obtain ⟨d, hd, hhead⟩ := mem_heads hmem
    rw [firstBlk_cons] at hhead
    rcases List.mem_cons.mp (h.dirs.mem_iff.mp hd) with rfl | hd
    · refine ha.fresh (c := C') (by simp) ?_
      rw [← hhead, ← hs₁.head]
      exact firstBlk_mem (hs₁.owned.chain C' (by simp)).1
    · refine ha.fresh (c := d) (by simp [hd]) ?_
      rw [← hhead]
      exact firstBlk_mem (h.owned.chain d (by simp [hd])).1
  · intro d hd x hx
    obtain rfl := List.mem_singleton.mp hd
    obtain rfl := List.mem_singleton.mp hx
    show (dev₃ x).parent = _
    rw [hnew, emptyDirBlk, Block.parent_setParent, hcur32, h.cur]
  · intro A B hE
    show DirStep _ _ _ s₂.tfsLastError _ _ _ _
    rw [ha.err, hb32]
    exact .createDir hname (hE ▸ hmiss)

/-- The disk is full after the lookup: the directory may have grown. -/
theorem Cur.allocFull {c : DirCall} {s₂ : State} (h : Cur n s L C D)
    (hs₁ : FreeSlot n s s₁ C C' (D ++ (L.files ++ L.loose)) L.leaked q)
    (ha : NoSpace n s₁ s₂ (C' :: (D ++ (L.files ++ L.loose))) L.leaked) (hc : c.inserts = true)
    (hname : c.name.headD 0 ≠ 0) (hmiss : Miss e.filenameCmp c.name (entries s.dev C)) : DirDone e n L c s s₂ [] := by
  refine h.grown (hs₁.frame.trans ha.frame) ha.toReady ha.ended hs₁.head ?_ ?_ ?_ ?_ ?_
  · rw [ha.dev, hs₁.entries]
  · rw [ha.dev]
    exact hs₁.parents
  · rw [ha.dev]
    exact hs₁.compact
  · rw [ha.dev]
    exact hs₁.agree
  · rw [ha.err]
    exact .full hc hname (by simpa using hmiss)

theorem tfsCreateDir_ok (he : e.NeverFails) (hf : n ≤ e.fuel) (hs : Sys n s L) (name : List UInt8) :
    ∃ s', tfsCreateDir e name s = some ((), s') ∧ DirOk e n L (.createDir name) s s' := by
  refine DirOk.bracket hs fun t ht herr _ _ => ?_
  obtain ⟨C, D, h⟩ := ht.current herr
  refine inserting (c := .createDir name) he hf h rfl (fun q P Q l hname hfd => ?_) (fun C' q s₁ hname hmiss hs₁ => ?_)
  · refine ⟨_, ?_, (h.looked q.1 l .fileExist hfd.entries Err.noConfusion Err.noConfusion
      (.createDirExist hname hfd.hit)).ok⟩
    have hne : (t.dev q.1).itemType q.2 ≠ itemFree := fun ht => by
      have := live_of_free (x := itemAt t.dev q) ht
      simp [hfd.live] at this
    simp only [Option.getD_some, blkBuf_bind, ne_eq, hne, not_false_eq_true, if_true]
    rfl
  · simp only [Option.getD_some, blkBuf_bind, ne_eq, hs₁.type, not_true_eq_false, if_false, hs₁.buf]
    rcases hs₁.alloc he hf hs₁.err with ⟨b, s₂, ha⟩ | ⟨s₂, ha⟩
    · obtain ⟨l, hrun⟩ := createDir_run he name hs₁ ha
      exact ⟨_, hrun, (createDir_new h hs₁ ha hname hmiss rfl).ok⟩
    · have herr₂ : s₂.tfsLastError ≠ .ok := by
        rw [ha.err]
        exact Err.noConfusion
      refine ⟨s₂, ?_, (h.allocFull hs₁ ⟨ha.ready, ha.kept.toFrame, ha.err, ha.full, ha.dev⟩ rfl hname hmiss).ok⟩
      rw [Prog.bind_some ha.run, ifOk_err herr₂]

/-! ## tfs_rename -/

theorem tfsRename_ok (he : e.NeverFails) (hf : n ≤ e.fuel) (hs : Sys n s L) (fromName toName : List UInt8) :
    ∃ s', tfsRename e fromName toName s = some ((), s') ∧ DirOk e n L (.rename fromName toName) s s' := by
  refine DirOk.bracket hs fun t ht herr _ _ => ?_
  obtain ⟨C, D, h⟩ := ht.current herr
  refine looking he hf h toName (fun hname => ?_) (fun q P Q l hname hfd => ?_) (fun b l hname hmiss => ?_)
  · exact (h.noName (c := .rename fromName toName) hname).ok
  · exact ⟨_, rfl, (h.looked q.1 l .fileExist hfd.entries Err.noConfusion Err.noConfusion
      (.renameExist hname hfd.hit)).ok⟩
  · refine looking he hf (h.look b l) fromName (fun hname' => ?_) (fun q P Q l hname' hfd => ?_)
      (fun b l hname' hmiss' => ?_)
    · exact (h.same (t := { t with blkBuf := t.dev b, loadedDirBlk := b, log := l, tfsLastError := .noName })
        ⟨rfl, rfl, rfl, rfl, rfl⟩ rfl h.cache (.of_ne Err.noConfusion Err.noConfusion) (A := entries t.dev C) (B := [])
        (by simp)
        (.renameNoName hname hname' (by simpa using hmiss))).ok
    · have hfd : Found e t.dev C fromName q P Q := hfd
      obtain ⟨hq, hi⟩ := mem_slots.mp hfd.mem
      have hlt : q.1 < t.blkCount := h.mem_lt (c := C) (by simp) hq
      have hv := Block.SlotStore.setItemName (b := t.dev q.1) (i := q.2) toName
      have hR := h.toReady.storeSlot hq hv l
      refine ⟨_, ?_, (h.replaced [] [] (t := { t with
          blkBuf := (t.dev q.1).setItemName q.2 toName, loadedDirBlk := q.1
          dev := Function.update t.dev q.1 ((t.dev q.1).setItemName q.2 toName)
          log := l.transfer (.write q.1 true) }) hfd hv (Block.item_setItemName toName hi)
        hfd.live ⟨rfl, rfl, rfl, rfl, rfl⟩ (.ok herr) (.refl _) ⟨hR.mounted, hR.cache, hR.owned⟩ (fun _ _ => rfl)
        (AgreeOff.update (by simp [hq]) _) rfl
          (.of_eq (by simp only [heads_nil, List.nil_append, List.append_nil]; rfl)) rfl ?_).ok⟩
      · simp only [modifyBuf_bind, Prog.gets_bind, id_eq]
        rw [driveWriteBlock_ok he (by exact herr) (by exact hlt)]
      · show DirStep _ _ _ t.tfsLastError _ _ _ _
        rw [herr]
        exact .rename hname hname' (hfd.entries ▸ hmiss) hfd.hit
    · exact ⟨_, rfl, (h.same (t := { t with blkBuf := t.dev b, loadedDirBlk := b, log := l, tfsLastError := .notExist })
        ⟨rfl, rfl, rfl, rfl, rfl⟩ rfl h.cache (.of_ne Err.noConfusion Err.noConfusion) (A := entries t.dev C) (B := [])
        (by simp)
        (.renameMiss hname hname' (by simpa using hmiss) (by simpa using hmiss'))).ok⟩

/-! ## tfs_delete -/

/-- A usage count is read from the handles and the directory block in the buffer. -/
theorem itemUsageCountLoop_congr (h : s'.handles = s.handles) (h' : s'.loadedDirBlk = s.loadedDirBlk) (item : Nat)
    (fds : List Nat) : itemUsageCountLoop s' item fds = itemUsageCountLoop s item fds := by
  induction fds with
  | nil => rfl
  | cons fd fds ih => rw [itemUsageCountLoop, itemUsageCountLoop, h, h', ih]

/-- A usage count is that of some handle. -/
theorem held_of_usage {item : Nat} (h : itemUsageCountLoop s item (List.range e.maxFds) > 0) : Held e s := by
  have hloop : ∀ fds : List Nat, itemUsageCountLoop s item fds > 0 → ∃ fd ∈ fds, (s.handles fd).usageCount ≠ 0 := by
    intro fds
    induction fds with
    | nil => intro h; simp [itemUsageCountLoop] at h
    | cons fd fds ih =>
      intro h
      rw [itemUsageCountLoop] at h
      split at h
      · exact ⟨fd, by simp, by omega⟩
      · obtain ⟨fd', hmem, hne⟩ := ih h
        exact ⟨fd', by simp [hmem], hne⟩
  obtain ⟨fd, hmem, hne⟩ := hloop _ h
  exact ⟨fd, List.mem_range.mp hmem, hne⟩

/-- The data chain of a file entry of the current directory. -/
theorem Cur.fileChain (h : Cur n s L C D) {x : DirItem} (hx : x ∈ entries s.dev C) (ht : x.type = itemFile) :
    ∃ goneF F, L.files.Perm (goneF ++ F) ∧ heads goneF = x.fileHead ∧
      (goneF = [] ∧ x.blk = 0 ∨ ∃ c, goneF = [c] ∧ firstBlk c = x.blk) := by
  by_cases hb : x.blk = 0
  · exact ⟨[], L.files, .refl _, by simp [DirItem.fileHead, hb], .inl ⟨rfl, hb⟩⟩
  · obtain ⟨c, hc, hhead⟩ := mem_heads (h.sys.volume.mem_files h.mem hx ht hb)
    obtain ⟨F₁, F₂, hsplit⟩ := List.append_of_mem hc
    exact ⟨[c], F₁ ++ F₂, hsplit ▸ List.perm_middle, by simp [DirItem.fileHead, ht, hb, hhead], .inr ⟨c, rfl, hhead⟩⟩

/-- The chain of a directory entry of the current directory. -/
theorem Cur.subDir (h : Cur n s L C D) {x : DirItem} (hx : x ∈ entries s.dev C) (ht : x.type = itemDir) :
    ∃ d D', D.Perm (d :: D') ∧ firstBlk d = x.blk := by
  obtain ⟨d, hd, hhead⟩ := mem_heads (h.sys.volume.mem_dirs h.mem hx ht)
  rcases List.mem_cons.mp (h.dirs.mem_iff.mp hd) with rfl | hd
  · have hdepth := (h.sys.volume.tree d h.mem x hx ht).2
    rw [hhead] at hdepth
    omega
  · obtain ⟨D₁, D₂, hsplit⟩ := List.append_of_mem hd
    exact ⟨d, D₁ ++ D₂, hsplit ▸ List.perm_middle, hhead⟩

/-- The data chain of an entry given back; an empty file has none. -/
theorem freeEntry_ok (he : e.NeverFails) (hf : n ≤ e.fuel) {goneF : List (List Nat)} {p : Nat}
    (h : Ready n s (goneF ++ cs) xs) (herr : s.tfsLastError = .ok)
    (hg : goneF = [] ∧ p = 0 ∨ ∃ c, goneF = [c] ∧ firstBlk c = p) :
    ∃ s', freeFileBlocks e p s = some ((), s') ∧ Ready n s' cs xs ∧ s'.tfsLastError = .ok ∧ Frame s s' ∧
      s'.loadedDirBlk = s.loadedDirBlk ∧ AgreeOff [] s.dev s'.dev ∧ (p ≠ 0 → ¬ Full n s'.dev) := by
  have hn := h.mounted.pos
  rcases hg with ⟨rfl, rfl⟩ | ⟨c, rfl, rfl⟩
  · exact ⟨s, freeFileBlocks_zero (by omega), h, herr, .refl, rfl, .refl, fun h0 => absurd rfl h0⟩
  · obtain ⟨s', hrun, hs', herr', hframe, hdir, hagree, hfree⟩ := freeFileBlocks_ok he hf h herr
    have hmem := firstBlk_mem (h.owned.chain c (by simp)).1
    exact ⟨s', hrun, hs', herr', hframe, hdir, hagree, fun _ hfull =>
      hfree _ hmem (hfull _ (h.owned.mem_lt (c := c) (by simp) hmem))⟩

/-- The slot in the buffer freed, and the directory cleaned. -/
theorem Cur.cleanup {name : List UInt8} {P Q : List (Nat × Nat)} (he : e.NeverFails) (h : Cur n s L C D)
    (hfd : Found e s.dev C name q P Q) {t : State} (hb : t.blkBuf = (s.dev q.1).setItemType q.2 itemFree)
    (hdir : t.loadedDirBlk = q.1) (hdev : t.dev = s.dev) (hcache : t.CacheOk n) (hf : Frame s t)
    (herr : t.tfsLastError = .ok) :
    ∃ C' s₁, writeDirCleanup e t = some ((), s₁) ∧ InDir n s₁ C' (D ++ (L.files ++ L.loose)) L.leaked ∧ Frame s s₁ ∧
      AgreeOff C s.dev s₁.dev ∧
      Cleaned (Function.update s.dev q.1 ((s.dev q.1).setItemType q.2 itemFree)) s₁.dev C C' ∧
      (Compact s.dev C → Compact s₁.dev C') ∧
      C'.length = (if anyItem ((s.dev q.1).setItemType q.2 itemFree) = true ∨
        C.length = 1 then C.length else C.length - 1) := by
  have ht : InDir n t C (D ++ (L.files ++ L.loose)) L.leaked :=
    ⟨⟨hf.mounted h.mounted, hcache, hdev ▸ h.owned⟩, herr, hf.cur.trans h.cur⟩
  have hq := (mem_slots.mp hfd.mem).1
  obtain ⟨C', s₁, hrun, hs₁, hf₁, hag, hclean, hcm, hcount⟩ := writeDirCleanup_ok he ht hq hdir (by rw [hb, hdev]; simp)
    (by rw [hb, hdev]; simp)
  rw [hb, hdev] at hclean
  rw [hb] at hcount
  exact ⟨C', s₁, hrun, hs₁, hf.trans hf₁, hdev ▸ hag, hclean, hdev ▸ hcm, hcount⟩

theorem itemType_setItemType {b : Block} {i : Nat} (t : UInt8) (hi : i < 20) : (b.setItemType i t).itemType i = t :=
  congrArg DirItem.type (Block.item_setItemType t hi)

theorem deleteFile_ok (he : e.NeverFails) (hf : n ≤ e.fuel) {name : List UInt8} {type : UInt8} {P Q : List (Nat × Nat)}
    (h : Cur n s L C D) (hname : name.headD 0 ≠ 0) (hfd : Found e s.dev C name q P Q)
    (htype : type = 0 ∨ (itemAt s.dev q).type = type) (ht : (itemAt s.dev q).type = itemFile) (l : DriveLog) :
    ∃ s', deleteFile e q.2 { s with blkBuf := s.dev q.1, loadedDirBlk := q.1, log := l } = some ((), s') ∧
      DirOk e n L (.delete name type) s s' ∧
      freeCount n s'.dev = freeCount n s.dev + (follow s.dev n (itemAt s.dev q).blk).length +
        (if anyItem ((s.dev q.1).setItemType q.2 itemFree) = true ∨ C.length = 1 then 0 else 1) := by
  have hi := (mem_slots.mp hfd.mem).2
  obtain ⟨C', s₁, hrun, hs₁, hf₁, hag, hclean, hcm, hcount⟩ := h.cleanup he hfd (t := { s with
    blkBuf := (s.dev q.1).setItemType q.2 itemFree, loadedDirBlk := q.1, log := l }) rfl rfl rfl h.cache
    ⟨rfl, rfl, rfl, rfl, rfl⟩ h.err
  obtain ⟨goneF, F, hfiles, hheads, hg⟩ := h.fileChain (x := itemAt s.dev q) (by rw [hfd.entries]; simp) ht
  have hperm : (C' :: (D ++ (L.files ++ L.loose))).Perm (goneF ++ C' :: (D ++ (F ++ L.loose))) := by
    have h1 := List.Perm.append_left (C' :: D) (hfiles.append_right L.loose)
    rw [List.append_assoc] at h1
    exact h1.trans (List.perm_append_comm_assoc (C' :: D) goneF (F ++ L.loose))
  obtain ⟨s', hrun', hs', herr', hf', _, hag', _⟩ :=
    freeEntry_ok (p := (itemAt s.dev q).blk) he hf (hs₁.toReady.perm hperm (.refl _)) hs₁.err hg
  have hne : Ended n s' := .ok herr'
  have hgone : goneF.flatten.length = (follow s.dev n (itemAt s.dev q).blk).length := by
    rcases hg with ⟨rfl, hzero⟩ | ⟨c, rfl, hhead⟩
    · rw [hzero, follow_zero]
      rfl
    · have hc : c ∈ L.files := hfiles.mem_iff.mpr (by simp)
      rw [← hhead, h.owned.follow_eq (c := c) (by simp [hc]), List.flatten_singleton]
  have hfree : freeCount n s'.dev = freeCount n s.dev + (follow s.dev n (itemAt s.dev q).blk).length +
      (if anyItem ((s.dev q.1).setItemType q.2 itemFree) = true ∨ C.length = 1 then 0 else 1) := by
    have hadd := h.owned.freeCount_add hs'.owned
    have hsplit := (hfiles.flatten).length_eq
    have hpos : 0 < C.length := List.length_pos_of_ne_nil (h.owned.chain C (by simp)).1
    simp only [List.flatten_cons, List.flatten_append, List.length_append] at hadd hsplit
    rw [← hgone]
    split at hcount
    · rename_i hkeep
      rw [if_pos hkeep]
      omega
    · rename_i hlose
      rw [if_neg hlose]
      omega
  refine ⟨s', ?_, (h.removed [] goneF (G := D) hfd (Block.SlotStore.setItemType _)
    (itemType_setItemType _ hi) hclean hcm hag
    hag' (hf₁.trans hf') hne h.dirs hfiles hs' ?_ hheads (by simp) ?_ ?_).ok, hfree⟩
  · rw [deleteFile, blkBuf_bind, modifyBuf_bind, Prog.bind_some hrun, ifOk_ok hs₁.err]
    exact hrun'
  · rw [DirItem.dirHead, if_neg (by rw [ht]; decide)]
    rfl
  · simp [DirCall.dropped, DirItem.dirHead, hheads, ht, itemFile, itemDir]
  · rw [herr']
    exact .delete hname hfd.hit htype (.inl ht)

/-- A directory of one block without entries. -/
theorem single_of_next {dev : Nat → Block} {d : List Nat} (h : Chain dev d) (h0 : ∀ b ∈ d, b ≠ 0)
    (hn : (dev (firstBlk d)).next = 0) : d = [firstBlk d] := by
  cases d with
  | nil => exact absurd rfl h.1
  | cons b d =>
    cases d with
    | nil => rfl
    | cons x d =>
      have hx : (dev b).next = x := h.2.2.1
      exact absurd (hx.symm.trans hn) (h0 x (by simp))

/-- How the deletion of the directory `d` ends: one block without entries is given
back; what has an entry or a second block stays. -/
inductive DirDeleted (s s' : State) (d : List Nat) : Prop
  | gone : d.length = 1 → entries s.dev d = [] → s'.tfsLastError = .ok → (∀ b ∈ d, ¬ Used s'.dev b) → DirDeleted s s' d
  | kept : (d.length = 1 → entries s.dev d ≠ []) → s'.tfsLastError = .notEmpty → DirDeleted s s' d

theorem deleteDir_ok (he : e.NeverFails) {name : List UInt8} {type : UInt8} {P Q : List (Nat × Nat)}
    (h : Cur n s L C D) (hname : name.headD 0 ≠ 0) (hfd : Found e s.dev C name q P Q)
    (htype : type = 0 ∨ (itemAt s.dev q).type = type) (ht : (itemAt s.dev q).type = itemDir) (l : DriveLog) :
    ∃ s', deleteDir e q.2 { s with blkBuf := s.dev q.1, loadedDirBlk := q.1, log := l } = some ((), s') ∧
      DirOk e n L (.delete name type) s s' ∧
      ∃ d ∈ L.dirs, firstBlk d = (itemAt s.dev q).blk ∧ DirDeleted s s' d := by
  obtain ⟨hq, hi⟩ := mem_slots.mp hfd.mem
  obtain ⟨d, D', hD, hhead⟩ := h.subDir (x := itemAt s.dev q) (by rw [hfd.entries]; simp) ht
  have hdL : d ∈ L.dirs := h.dirs.mem_iff.mpr (List.mem_cons_of_mem _ (hD.mem_iff.mpr (by simp)))
  have hdD : d ∈ D := hD.mem_iff.mpr (by simp)
  have hchain := h.owned.chain d (by simp [hdD])
  have hdmem := firstBlk_mem hchain.1
  have hlt : firstBlk d < s.blkCount := h.mem_lt (c := d) (by simp [hdD]) hdmem
  have hqlt : q.1 < s.blkCount := h.mem_lt (c := C) (by simp) hq
  have hpos : (s.dev q.1).itemBlk q.2 = firstBlk d := hhead.symm
  rw [deleteDir, blkBuf_bind]
  simp only [hpos]
  rw [Prog.bind_some (driveReadBlock_ok he (by exact h.err) (by exact hlt)), ifOk_ok (by exact h.err), blkBuf_bind]
  by_cases hnext : (s.dev (firstBlk d)).next ≠ 0
  · have hmore : d.length = 1 → entries s.dev d ≠ [] := by
      intro hone
      obtain ⟨b, rfl⟩ := List.length_eq_one_iff.mp hone
      exact absurd hchain.2.2.1 hnext
    simp only [ne_eq, hnext, not_false_eq_true, if_true]
    exact ⟨_, rfl, (h.same (t := { s with
      blkBuf := s.dev (firstBlk d), loadedDirBlk := q.1, log := l.transfer (.read (firstBlk d) true)
      tfsLastError := .notEmpty }) ⟨rfl, rfl, rfl, rfl, rfl⟩ rfl h.cache
      (.of_ne Err.noConfusion Err.noConfusion) hfd.entries (.deleteNotEmpty hname hfd.hit htype ht)).ok, d, hdL, hhead,
        .kept hmore rfl⟩
  by_cases hany : anyItem (s.dev (firstBlk d)) = true
  · have hentry : entries s.dev d ≠ [] := by
      obtain ⟨i, hi, hl⟩ : ∃ i < dirBlkItems, (s.dev (firstBlk d)).itemType i ≠ itemFree := by simpa [anyItem] using hany
      have hlive : ((s.dev (firstBlk d)).item i).live = true := live_of_ne_free hl
      exact List.ne_nil_of_mem (mem_entries.mpr ⟨firstBlk d, hdmem, i, hi, rfl, hlive⟩)
    simp only [hnext, hany, if_false, if_true]
    exact ⟨_, rfl, (h.same (t := { s with
      blkBuf := s.dev (firstBlk d), loadedDirBlk := q.1, log := l.transfer (.read (firstBlk d) true)
      tfsLastError := .notEmpty }) ⟨rfl, rfl, rfl, rfl, rfl⟩ rfl h.cache
      (.of_ne Err.noConfusion Err.noConfusion) hfd.entries (.deleteNotEmpty hname hfd.hit htype ht)).ok, d, hdL, hhead,
        .kept (fun _ => hentry) rfl⟩
  simp only [hnext, hany, if_false, Prog.gets_bind, id_eq, Bool.false_eq_true]
  rw [Prog.bind_some (driveReadBlock_ok he (by exact h.err) (by exact hqlt)), ifOk_ok (by exact h.err), modifyBuf_bind]
  have hsingle := single_of_next hchain (fun b hb => ne_zero_of_mod (h.owned.mem_mod (c := d) (by simp [hdD]) hb))
    (by simpa using hnext)
  have hempty : entries s.dev d = [] := by
    rw [hsingle]
    exact entries_single_free (anyItem_eq_false.mp (by simpa using hany))
  obtain ⟨C', s₁, hrun, hs₁, hf₁, hag, hclean, hcm, -⟩ := h.cleanup he hfd (t := { s with
    blkBuf := (s.dev q.1).setItemType q.2 itemFree, loadedDirBlk := q.1,
    log := (l.transfer (.read (firstBlk d) true)).transfer (.read q.1 true) }) rfl rfl rfl h.cache
    ⟨rfl, rfl, rfl, rfl, rfl⟩ h.err
  have hperm : (C' :: (D ++ (L.files ++ L.loose))).Perm (d :: C' :: (D' ++ (L.files ++ L.loose))) :=
    ((hD.append_right (L.files ++ L.loose)).cons C').trans (.swap _ _ _)
  have hR := (hs₁.toReady.perm hperm (.refl _))
  have hR2 : Ready n s₁ (C' :: (D' ++ (L.files ++ L.loose))) (firstBlk d :: L.leaked) := by
    have hrel := hR.owned.release
    rw [hsingle] at hrel
    exact ⟨hR.mounted, hR.cache, hrel⟩
  obtain ⟨s', hrun', hs', herr', hkept, hfree, hag'⟩ := hR2.free he hs₁.err
  have hne : Ended n s' := .ok herr'
  have hdirs : L.dirs.Perm (C :: ([d] ++ D')) := h.dirs.trans (hD.cons C)
  have hheads : heads [d] = (itemAt s.dev q).dirHead := by
    rw [DirItem.dirHead, if_pos ht, heads_cons, hhead]
    rfl
  have hnofile : (itemAt s.dev q).fileHead = [] := by
    rw [DirItem.fileHead, if_neg (by rw [ht]; exact fun h => absurd h.1 (by decide))]
  refine ⟨s', ?_, (h.removed [d] [] (G := D') (F := L.files) hfd (Block.SlotStore.setItemType _)
    (itemType_setItemType _ hi) hclean hcm hag hag' (hf₁.trans hkept.toFrame) hne hdirs (.refl _) hs' hheads hnofile.symm
    (by simpa using hempty) ?_ ?_).ok, d, hdL, hhead, .gone (by rw [hsingle]; rfl) hempty herr' fun b hb => ?_⟩
  · rw [Prog.bind_some hrun, ifOk_ok hs₁.err]
    exact hrun'
  · simp only [DirCall.dropped, List.flatMap_cons, List.flatMap_nil, hnofile, ← hheads]
    simp
  · rw [herr']
    exact .delete hname hfd.hit htype (.inr ht)
  · rw [hsingle, List.mem_singleton] at hb
    exact hb ▸ hfree

theorem tfsDelete_ok (he : e.NeverFails) (hf : n ≤ e.fuel) (hs : Sys n s L) (name : List UInt8) (type : UInt8) :
    ∃ s', tfsDelete e name type s = some ((), s') ∧ DirOk e n L (.delete name type) s s' := by
  refine DirOk.bracket hs fun t ht herr _ _ => ?_
  obtain ⟨C, D, h⟩ := ht.current herr
  refine looking he hf h name (fun hname => ?_) (fun q P Q l hname hfd => ?_) (fun b l hname hmiss => ?_)
  · exact (h.noName (c := .delete name type) hname).ok
  · have hlook : ∀ err : Err, err ≠ .noDev → err ≠ .diskFull → DirStep e.filenameCmp (Held e t) (.delete name type) err
        (liveAt t.dev P) [] [] (itemAt t.dev q :: liveAt t.dev Q) → ∃ s', setErr err { t with
          blkBuf := t.dev q.1, loadedDirBlk := q.1, log := l } = some ((), s') ∧ DirOk e n L (.delete name type) t s' :=
      fun err hdev hfull hstep => ⟨_, rfl, (h.looked q.1 l err hfd.entries hdev hfull hstep).ok⟩
    have htypeq : (t.dev q.1).itemType q.2 = (itemAt t.dev q).type := rfl
    simp only [blkBuf_bind, htypeq]
    by_cases h1 : type ≠ 0 ∧ (itemAt t.dev q).type ≠ type
    · rw [if_pos h1]
      exact hlook _ Err.noConfusion Err.noConfusion (.deleteType hname hfd.hit (.inl h1))
    rw [if_neg h1]
    have htype : type = 0 ∨ (itemAt t.dev q).type = type := by
      by_cases h0 : type = 0
      · exact .inl h0
      · exact .inr (by_contra fun h2 => h1 ⟨h0, h2⟩)
    simp only [itemUsageCount, Prog.gets_bind]
    by_cases h2 : itemUsageCountLoop { t with blkBuf := t.dev q.1, loadedDirBlk := q.1, log := l } q.2
        (List.range e.maxFds) > 0
    · have hheld : Held e t := held_of_usage (e := e) (s := { t with
        blkBuf := t.dev q.1, loadedDirBlk := q.1, log := l }) h2
      rw [if_pos h2]
      exact hlook _ Err.noConfusion Err.noConfusion (.deleteBusy hname hfd.hit htype hheld)
    rw [if_neg h2]
    by_cases h3 : (itemAt t.dev q).type = itemFile
    · rw [if_pos h3]
      obtain ⟨s', hrun, hok, -⟩ := deleteFile_ok he hf h hname hfd htype h3 l
      exact ⟨s', hrun, hok⟩
    rw [if_neg h3]
    by_cases h4 : (itemAt t.dev q).type = itemDir
    · rw [if_pos h4]
      obtain ⟨s', hrun, hok, -⟩ := deleteDir_ok he h hname hfd htype h4 l
      exact ⟨s', hrun, hok⟩
    rw [if_neg h4]
    exact hlook _ Err.noConfusion Err.noConfusion (.deleteType hname hfd.hit (.inr ⟨h3, h4⟩))
  · exact ⟨_, rfl, (h.same (t := { t with blkBuf := t.dev b, loadedDirBlk := b, log := l, tfsLastError := .notExist })
      ⟨rfl, rfl, rfl, rfl, rfl⟩ rfl h.cache (.of_ne Err.noConfusion Err.noConfusion) (A := entries t.dev C) (B := [])
      (by simp) (.deleteMiss hname (by simpa using hmiss))).ok⟩

end TinyFs
