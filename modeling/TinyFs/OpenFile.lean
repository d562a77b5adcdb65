/-
An open file of a well-formed volume: the handle and the entry agree on the first
block and the size, and the cursor is on the file. `tfs_open` of a file brings a free
handle there.
-/
import TinyFs.HandleOps
import TinyFs.EmptyFile

namespace TinyFs

open Bytes Chains

variable {e : Env} {n : Nat} {s s' : State} {L : Layout} {fd b : Nat} {c c' C : List Nat} {q : Nat × Nat}
  {dev : Nat → Block}
  {name : List UInt8}

/-- The blocks of the file behind a handle. -/
def State.fileOf (n : Nat) (s : State) (fd : Nat) : List Nat := follow s.dev n (s.handles fd).firstBlk

theorem FileData.fileOf (h : FileData n fd cs xs s c) : s.fileOf n fd = c := by
  rw [State.fileOf, h.first]
  exact follow_linked n 0 h.linked (fun b hb => (h.blocks b hb).2) (Nat.le_of_lt h.length_lt)

/-- Slot `p` of a directory holds the entry of a file. -/
structure FileSlot (dev : Nat → Block) (L : Layout) (p : Nat × Nat) : Prop where
  dir : ∃ d ∈ L.dirs, p ∈ slots d
  type : (itemAt dev p).type = itemFile

theorem FileSlot.mem_entries (h : FileSlot dev L p) : ∃ d ∈ L.dirs, itemAt dev p ∈ entries dev d := by
  obtain ⟨d, hd, hp⟩ := h.dir
  obtain ⟨hb, hi⟩ := mem_slots.mp hp
  refine ⟨d, hd, TinyFs.mem_entries.mpr ⟨p.1, hb, p.2, hi, rfl, ?_⟩⟩
  rw [DirItem.live, h.type]
  rfl

/-- The chain of the file at a slot: one of the volume, or none. -/
theorem Volume.slotChain (h : Volume n dev L) (hp : FileSlot dev L p) :
    ∃ f, (f ∈ L.files ∨ f = []) ∧ firstBlk f = (itemAt dev p).blk := by
  by_cases hb : (itemAt dev p).blk = 0
  · exact ⟨[], .inr rfl, hb.symm⟩
  · obtain ⟨d, hd, hx⟩ := hp.mem_entries
    obtain ⟨f, hf, hhead⟩ := mem_heads (h.mem_files hd hx hp.type hb)
    exact ⟨f, .inl hf, hhead⟩

/-- Handle `fd` is in use on the file with the entry at slot `q` of the directory `C`
and the blocks `c`. -/
structure OpenFile (n : Nat) (s : State) (L : Layout) (fd : Nat) (C : List Nat) (q : Nat × Nat) (c : List Nat) : Prop
    extends Sys n s L where
  dir : C ∈ L.dirs
  slot : q ∈ slots C
  file : c ∈ L.files ∨ c = []
  usage : (s.handles fd).usageCount ≠ 0
  dirBlk : (s.handles fd).dirBlk = q.1
  dirItem : (s.handles fd).dirItem = some q.2
  type : (itemAt s.dev q).type = itemFile
  blk : (itemAt s.dev q).blk = (s.handles fd).firstBlk
  size : (itemAt s.dev q).size = (s.handles fd).size
  first : (s.handles fd).firstBlk = firstBlk c
  cursor : Cursor (s.handles fd) c

/-! ## The other chains -/

theorem Volume.dir_ne_file (h : Volume n dev L) {d : List Nat} (hd : d ∈ L.dirs) (hc : c ∈ L.files) : d ≠ c := by
  intro heq
  have hnd := h.heads_nodup
  rw [heads_append, List.nodup_append] at hnd
  exact hnd.2.2 _ (firstBlk_mem_heads hd) _ (firstBlk_mem_heads hc) (by rw [heq])

theorem Volume.nil_notMem (h : Volume n dev L) : [] ∉ L.chains := fun hmem => h.chain_ne_nil hmem rfl

/-- A directory is one of the other chains. -/
theorem OpenFile.dir_mem (h : OpenFile n s L fd C q c) : C ∈ L.chains.erase c := by
  have hC : C ∈ L.chains := List.mem_append_left _ h.dir
  rcases h.file with hc | hc
  · exact (List.mem_erase_of_ne (h.volume.dir_ne_file h.dir hc)).mpr hC
  · rw [hc, List.erase_of_not_mem h.volume.nil_notMem]
    exact hC

/-- The file is one of the chains, or has no block. -/
theorem OpenFile.chains (h : OpenFile n s L fd C q c) : L.chains.Perm (c :: L.chains.erase c) ∨ c = [] ∧
    L.chains.erase c = L.chains := by
  rcases h.file with hc | hc
  · exact .inl (List.perm_cons_erase (by simp [Layout.chains, hc]))
  · exact .inr ⟨hc, by rw [hc, List.erase_of_not_mem h.volume.nil_notMem]⟩

theorem OpenFile.linked (h : OpenFile n s L fd C q c) : LinkedOn s.dev 0 c 0 := by
  rcases h.file with hc | hc
  · exact (h.volume.owned.chain c (by simp [Layout.chains, hc])).2
  · rw [hc]
    trivial

/-- What the functions on handles ask for. -/
theorem OpenFile.opened (h : OpenFile n s L fd C q c) : Opened n fd (L.chains.erase c) L.leaked s c := by
  have howned : Owned n s.dev (L.chains.erase c) (c ++ L.leaked) := by
    rcases h.chains with hp | ⟨hc, heq⟩
    · exact (h.volume.owned.perm hp (.refl _)).release
    · rw [heq, hc, List.nil_append]
      exact h.volume.owned
  refine ⟨⟨⟨h.mounted, h.cache, howned⟩, h.linked, h.first⟩, h.dev, h.usage, h.cursor, ?_, C, h.dir_mem, ?_⟩
  · rw [← h.size]
    exact Block.itemSize_lt _ _
  · rw [h.dirBlk]
    exact (mem_slots.mp h.slot).1

/-- A call that leaves the medium and only moves the cursor. -/
theorem OpenFile.moved (h : OpenFile n s L fd C q c) {p : Nat} {v : Block} {l : DriveLog} {err : Err}
    (herr : err ≠ .noDev) (hcur : Cursor { s.handles fd with currBlk := b, currPos := p } c) :
    OpenFile n { s.seekTo fd b p v l with tfsLastError := err } L fd C q c := by
  have hh : (s.seekTo fd b p v l).handles fd = _ := State.seekTo_handle ..
  have ho := h.opened.moved (v := v) (l := l) herr hcur
  refine ⟨⟨ho.mounted, h.cache, h.volume, h.cur, herr⟩, h.dir, h.slot, h.file, ho.usage, ?_, ?_, h.type, ?_, ?_,
    ho.first, ho.cursor⟩
  · exact (congrArg Handle.dirBlk hh).trans h.dirBlk
  · exact (congrArg Handle.dirItem hh).trans h.dirItem
  · exact h.blk.trans (congrArg Handle.firstBlk hh).symm
  · exact h.size.trans (congrArg Handle.size hh).symm

/-! ## The volume after a call -/

/-- The chains of a file: one, or none. -/
def fileChains (c : List Nat) : List (List Nat) := if c = [] then [] else [c]

theorem mem_fileChains {d : List Nat} : d ∈ fileChains c ↔ c ≠ [] ∧ d = c := by
  rw [fileChains]
  split
  · simp_all
  · simp_all

/-- The volume with the file `c` of directory `C` exchanged for `c'`. -/
def Layout.refile (L : Layout) (C c c' : List Nat) : Layout :=
  L.edit C [] (L.dirs.erase C) (fileChains c') (L.files.erase c)

theorem Volume.erase_chains (h : Volume n dev L) (hc : c ∈ L.files ∨ c = []) :
    L.chains.erase c = L.dirs ++ (L.files.erase c ++ L.loose) := by
  have hdirs : c ∉ L.dirs := by
    intro hd
    rcases hc with hc | rfl
    · exact h.dir_ne_file hd hc rfl
    · exact h.nil_notMem (List.mem_append_left _ hd)
  rw [Layout.chains, List.erase_append_right _ hdirs]
  rcases hc with hc | rfl
  · rw [List.erase_append_left _ hc]
  · have hnil := h.nil_notMem
    simp only [Layout.chains, List.mem_append, not_or] at hnil
    rw [List.erase_of_not_mem (by simp [hnil]), List.erase_of_not_mem hnil.2.1]

theorem OpenFile.refile_perm (h : OpenFile n s L fd C q c) (c' : List Nat) :
    (fileChains c' ++ L.chains.erase c).Perm (L.refile C c c').chains := by
  rw [h.volume.erase_chains h.file]
  show (fileChains c' ++ (L.dirs ++ (L.files.erase c ++ L.loose))).Perm
    (C :: L.dirs.erase C ++ (fileChains c' ++ L.files.erase c ++ L.loose))
  refine (List.perm_append_comm_assoc _ _ _).trans ?_
  rw [List.append_assoc]
  exact (List.perm_cons_erase h.dir).append_right _

/-- A file entry stands for the chain of its file. -/
theorem fileHead_fileChains {x : DirItem} (ht : x.type = itemFile) (hb : x.blk = firstBlk c) (h0 : ∀ b ∈ c, b ≠ 0) :
    x.fileHead = heads (fileChains c) := by
  rw [DirItem.fileHead, fileChains, ht, hb]
  by_cases hc : c = []
  · simp [hc]
  · have hne := h0 _ (firstBlk_mem hc)
    simp [hc, hne]

theorem Handle.entryIn_store (h : Handle) (v : Block) : Block.SlotStore (h.entryIn v) v (h.dirItem.getD 0) :=
  ⟨by simp [Handle.entryIn], by simp [Handle.entryIn], by simp [Handle.entryIn], fun j hj => by
    rw [Handle.entryIn, Block.item_setItemSize_ne _ hj, Block.item_setItemBlk_ne _ hj]⟩

theorem Handle.entryIn_item (h : Handle) (v : Block) {i : Nat} (hd : h.dirItem = some i) (hi : i < dirBlkItems) :
    (h.entryIn v).item i = { v.item i with blk := h.firstBlk % 2 ^ 32, size := h.size % 2 ^ 32 } := by
  rw [Handle.entryIn, hd, Option.getD_some, Block.item_setItemSize _ hi, Block.item_setItemBlk _ hi]

/-- The entry of a handle stored as it is. -/
theorem Handle.entryIn_same {h : Handle} {v : Block} {i : Nat} (hd : h.dirItem = some i) (hb : v.itemBlk i = h.firstBlk)
    (hs : v.itemSize i = h.size) : h.entryIn v = v := by
  rw [Handle.entryIn, hd, Option.getD_some, ← hb, ← hs]
  exact (congrArg (fun w => Buf.setU32 w _ _) (Buf.setU32_u32 v _)).trans (Buf.setU32_u32 v _)

/-- What is written only to the file leaves the blocks of the other chains. -/
theorem Opened.kept {cs : List (List Nat)} {xs : List Nat} (ho : Opened n fd cs xs s' c') {dev₁ : Nat → Block}
    (hag : AgreeOff c' dev dev₁) : ∀ d ∈ cs, ∀ b ∈ d, dev₁ b = dev b := fun d hd b hb =>
  hag b (ho.owned.mem_mod hd hb) fun hb' => (List.nodup_append.mp ho.owned.nodup).2.2 _ (List.mem_append_left _ hb') _
    (List.mem_flatten.mpr ⟨d, hd, hb⟩) rfl

/-- A call that did not have to store the entry did as well as if it had. -/
theorem OpenFile.stored (h : OpenFile n s L fd C q c) {dev₁ : Nat → Block} {exact : Prop}
    (ho : Opened n fd (L.chains.erase c) L.leaked s' c') (hag : AgreeOff c' s.dev dev₁) (hfr : FdFrame fd s s')
    (hw : EntryWrite fd s dev₁ exact s') (hex : exact) :
    s'.dev = Function.update dev₁ (s'.handles fd).dirBlk ((s'.handles fd).entryIn (dev₁ (s'.handles fd).dirBlk)) := by
  cases hw with
  | stored hdev => exact hdev
  | kept hdev hsame =>
    obtain ⟨hfirst, hsize⟩ := hsame hex
    have hblk : (s'.handles fd).dirBlk = q.1 := hfr.entry.1.trans h.dirBlk
    have hsame : dev₁ q.1 = s.dev q.1 := ho.kept hag C h.dir_mem q.1 (mem_slots.mp h.slot).1
    have hentry : (s'.handles fd).entryIn (s.dev q.1) = s.dev q.1 :=
      Handle.entryIn_same (hfr.entry.2.trans h.dirItem) (h.blk.trans hfirst.symm) (h.size.trans hsize.symm)
    rw [hblk, hsame, hentry, ← hsame, Function.update_eq_self, hdev]

/-- The entry at slot `q` has been brought up to date, for a file with the blocks `c'` now; the other chains are as they
were but for that. -/
structure EntryUpdated (s s' : State) (L : Layout) (fd : Nat) (q : Nat × Nat) (c c' : List Nat) : Prop where
  item : itemAt s'.dev q = { itemAt s.dev q with blk := firstBlk c', size := (s'.handles fd).size }
  store : Block.SlotStore (s'.dev q.1) (s.dev q.1) q.2
  apart : ∀ d ∈ L.chains.erase c, ∀ b ∈ d, b ≠ q.1 → s'.dev b = s.dev b

theorem OpenFile.entryUpdated (h : OpenFile n s L fd C q c) {dev₁ : Nat → Block}
    (ho : Opened n fd (L.chains.erase c) L.leaked s' c') (hag : AgreeOff c' s.dev dev₁) (hfr : FdFrame fd s s')
    (hdev : s'.dev = Function.update dev₁ (s'.handles fd).dirBlk
    ((s'.handles fd).entryIn (dev₁ (s'.handles fd).dirBlk))) : EntryUpdated s s' L fd q c c' := by
  obtain ⟨hq, hi⟩ := mem_slots.mp h.slot
  have hkeep := ho.kept hag
  have hblk : (s'.handles fd).dirBlk = q.1 := hfr.entry.1.trans h.dirBlk
  have hitem : (s'.handles fd).dirItem = some q.2 := hfr.entry.2.trans h.dirItem
  rw [hblk, hkeep C h.dir_mem q.1 hq] at hdev
  have hself : s'.dev q.1 = (s'.handles fd).entryIn (s.dev q.1) := by rw [hdev, Function.update_self]
  have hstore := (s'.handles fd).entryIn_store (s.dev q.1)
  rw [hitem, Option.getD_some, ← hself] at hstore
  have hfirst : firstBlk c' % 2 ^ 32 = firstBlk c' := by
    by_cases hc' : c' = []
    · rw [hc']
      rfl
    · have hlt := (ho.blocks _ (firstBlk_mem hc')).1
      rw [ho.mounted.count] at hlt
      exact Nat.mod_eq_of_lt (Nat.lt_trans hlt ho.mounted.lt)
  refine ⟨?_, hstore, fun d hd b hb hne => ?_⟩
  · rw [itemAt, hself, Handle.entryIn_item _ _ hitem hi, ho.first, hfirst, Nat.mod_eq_of_lt ho.size]
    rfl
  · rw [hdev, Function.update_of_ne hne, hkeep d hd b hb]

/-- In the directory only the slot of the entry differs. -/
theorem EntryUpdated.on (hu : EntryUpdated s s' L fd q c c') (hC : C ∈ L.chains.erase c) :
    ∀ b ∈ C, s'.dev b = Function.update s.dev q.1 (s'.dev q.1) b := by
  intro b hb
  by_cases hbq : b = q.1
  · rw [hbq, Function.update_self]
  · rw [Function.update_of_ne hbq]
    exact hu.apart C hC b hb hbq

/-- The directories and files beside that of the handle. -/
theorem OpenFile.beside (h : OpenFile n s L fd C q c) {d : List Nat} (hd : d ∈ L.dirs.erase C ++ L.files.erase c)
    (hb : b ∈ d) : d ∈ L.chains.erase c ∧ b ≠ q.1 := by
  have howned := h.volume.owned.perm ((List.perm_cons_erase h.dir).append_right _) (.refl _)
  have hq := (mem_slots.mp h.slot).1
  rw [h.volume.erase_chains h.file]
  rcases List.mem_append.mp hd with hd | hd
  · exact ⟨List.mem_append_left _ (List.mem_of_mem_erase hd),
      fun heq => howned.apart (List.mem_append_left _ hd) hb (heq ▸ hq)⟩
  · exact ⟨List.mem_append_right _ (List.mem_append_left _ hd), fun heq =>
      howned.apart (List.mem_append_right _ (List.mem_append_left _ (List.mem_of_mem_erase hd))) hb (heq ▸ hq)⟩

/-- The step of the volume: one entry of the directory, and the chain of its file. -/
theorem OpenFile.edit (h : OpenFile n s L fd C q c) (hu : EntryUpdated s s' L fd q c c') (h0 : ∀ b ∈ c', b ≠ 0) :
    Edit s.dev s'.dev L C C [] [] (L.dirs.erase C) (fileChains c) (fileChains c') (L.files.erase c)
      [itemAt s.dev q] [itemAt s'.dev q] := by
  have hv := h.volume
  have hq := (mem_slots.mp h.slot).1
  have hsame := hu.on h.dir_mem
  obtain ⟨P, Q, hslots⟩ := List.append_of_mem h.slot
  have htype : (itemAt s'.dev q).type = itemFile := by rw [hu.item]; exact h.type
  have hold : (itemAt s.dev q).live = true := by
    rw [DirItem.live, h.type]
    rfl
  have hnew : ((s'.dev q.1).item q.2).live = true := by
    show (itemAt s'.dev q).live = true
    rw [DirItem.live, htype]
    rfl
  refine ⟨List.perm_cons_erase h.dir, ?_, rfl, ⟨liveAt s.dev P, liveAt s.dev Q, ?_, ?_⟩, ?_,
    ?_, by simp, by simp, by simp, by simp, ?_, ?_, by simp, ?_⟩
  · rw [fileChains]
    rcases h.file with hc | hc
    · have hne : c ≠ [] := hv.chain_ne_nil (by simp [Layout.chains, hc])
      rw [if_neg hne]
      exact List.perm_cons_erase hc
    · have hnil := hv.nil_notMem
      simp only [Layout.chains, List.mem_append, not_or] at hnil
      rw [if_pos hc, hc, List.erase_of_not_mem hnil.2.1]
      exact .refl _
  · rw [entries_around hslots, List.filter_cons_of_pos hold]
    rfl
  · rw [entries_congr fun b hb i _ => by rw [hsame b hb],
      entries_store hslots (hv.owned.chain_nodup (List.mem_append_left _ h.dir)) hu.store.item,
      List.filter_cons_of_pos hnew]
    rfl
  · refine .of_eq ?_
    simp [DirItem.dirHead, htype, h.type, itemFile, itemDir]
  · refine .of_eq ?_
    rw [List.flatMap_singleton, List.flatMap_singleton,
      fileHead_fileChains h.type (h.blk.trans h.first) fun b hb => (h.opened.blocks b hb).2,
      fileHead_fileChains (c := c') htype (by rw [hu.item]) h0]
  · exact fun d hd b hb => hu.apart d (h.beside hd hb).1 b hb (h.beside hd hb).2
  · intro hup b hb
    rw [hsame b hb]
    by_cases hbq : b = q.1
    · rw [hbq, Function.update_self, hu.store.parent]
      exact hv.parents hup C h.dir _ hq
    · rw [Function.update_of_ne hbq]
      exact hv.parents hup C h.dir b hb
  · intro x hx ht
    rw [List.mem_singleton.mp hx, htype] at ht
    exact absurd ht (by decide)

/-- A call that gave the file the blocks `c'` and brought its entry up to date
leaves a well-formed volume, and the handle on the file. -/
theorem OpenFile.updated (h : OpenFile n s L fd C q c) {dev₁ : Nat → Block}
    (ho : Opened n fd (L.chains.erase c) L.leaked s' c') (hag : AgreeOff c' s.dev dev₁) (hfr : FdFrame fd s s')
    (hdev : s'.dev = Function.update dev₁ (s'.handles fd).dirBlk
    ((s'.handles fd).entryIn (dev₁ (s'.handles fd).dirBlk))) : OpenFile n s' (L.refile C c c') fd C q c' := by
  have hu := h.entryUpdated ho hag hfr hdev
  have hedit := h.edit hu fun b hb => (ho.blocks b hb).2
  have howned : Owned n s'.dev (L.refile C c c').chains L.leaked := by
    refine Owned.perm ?_ (h.refile_perm c') (.refl _)
    by_cases hc' : c' = []
    · rw [hc', fileChains, if_pos rfl]
      have := ho.owned
      rwa [hc'] at this
    · rw [fileChains, if_neg hc']
      exact ho.owned.adopt ⟨hc', ho.linked⟩
  refine ⟨⟨ho.mounted, ho.cache, h.volume.edit hedit howned, ?_, ho.dev⟩, ?_, h.slot, ?_, ho.usage,
    hfr.entry.1.trans h.dirBlk, hfr.entry.2.trans h.dirItem, ?_, ?_, ?_, ho.first, ho.cursor⟩
  · rw [hfr.cur]
    exact ((List.perm_cons_erase h.dir).map firstBlk).mem_iff.mp h.cur
  · show C ∈ C :: _
    simp
  · by_cases hc' : c' = []
    · exact .inr hc'
    · exact .inl (List.mem_append_left _ (mem_fileChains.mpr ⟨hc', rfl⟩))
  · rw [hu.item]
    exact h.type
  · rw [hu.item, ho.first]
  · rw [hu.item]

/-- What a call on the file at slot `q`, with the blocks `c`, leaves of the volume: the
names, and all other files. -/
structure OthersKept (s s' : State) (L L' : Layout) (c : List Nat) (q : Nat × Nat) : Prop where
  dirs : ∀ d, d ∈ L'.dirs ↔ d ∈ L.dirs
  items : ∀ d ∈ L.dirs, ∀ p ∈ slots d, p ≠ q → itemAt s'.dev p = itemAt s.dev p
  type : (itemAt s'.dev q).type = (itemAt s.dev q).type
  name : (itemAt s'.dev q).name = (itemAt s.dev q).name
  files : ∀ f ∈ L.files, f ≠ c → f ∈ L'.files ∧ ∀ b ∈ f, s'.dev b = s.dev b

/-- A call that gave the file the blocks `c'` and brought its entry up to date. -/
theorem OpenFile.others (h : OpenFile n s L fd C q c) {dev₁ : Nat → Block}
    (ho : Opened n fd (L.chains.erase c) L.leaked s' c') (hag : AgreeOff c' s.dev dev₁) (hfr : FdFrame fd s s')
    (hdev : s'.dev = Function.update dev₁ (s'.handles fd).dirBlk
    ((s'.handles fd).entryIn (dev₁ (s'.handles fd).dirBlk))) : OthersKept s s' L (L.refile C c c') c q := by
  have hu := h.entryUpdated ho hag hfr hdev
  refine ⟨fun d => (List.perm_cons_erase h.dir).mem_iff.symm, fun d hd p hp hne => ?_, by rw [hu.item], by rw [hu.item],
    fun f hf hne => ?_⟩
  · have hd' : d ∈ L.chains.erase c := h.volume.erase_chains h.file ▸ List.mem_append_left _ hd
    by_cases hpq : p.1 = q.1
    · rw [itemAt, itemAt, hpq]
      exact hu.store.item _ fun h2 => hne (Prod.ext hpq h2)
    · rw [itemAt, itemAt, hu.apart d hd' p.1 (mem_slots.mp hp).1 hpq]
  · have hf' : f ∈ L.files.erase c := (List.mem_erase_of_ne hne).mpr hf
    refine ⟨List.mem_append_right _ hf', fun b hb => ?_⟩
    obtain ⟨hmem, hbq⟩ := h.beside (List.mem_append_right _ hf') hb
    exact hu.apart f hmem b hb hbq

/-! ## tfs_open -/

theorem sharedHandle_some {item : Nat} {fds : List Nat} (h : sharedHandle s item fds = some fd) :
    fd ∈ fds ∧ (s.handles fd).usageCount > 0 := by
  induction fds with
  | nil => cases h
  | cons f fds ih =>
    rw [sharedHandle] at h
    split at h
    · rename_i hf
      cases h
      exact ⟨by simp, hf.2.2⟩
    · exact ⟨List.mem_cons_of_mem _ (ih h).1, (ih h).2⟩

/-- The handle `tfs_open` sets up for item `i` of the directory block `v`. -/
def openedHandle (dirBlk i : Nat) (v : Block) : Handle where
  usageCount := 1
  dirBlk := dirBlk
  dirItem := some i
  size := v.itemSize i
  firstBlk := v.itemBlk i
  currBlk := v.itemBlk i
  currPos := 0

/-- A handle set up for a file entry is on the file. -/
theorem Sys.openFile (hs : Sys n s L) (hC : C ∈ L.dirs) (hq : q ∈ slots C) (ht : (itemAt s.dev q).type = itemFile)
    (hh : s.handles fd = openedHandle q.1 q.2 (s.dev q.1)) :
    ∃ c, OpenFile n s L fd C q c ∧ (s.handles fd).currBlk = firstBlk c ∧ (s.handles fd).currPos = 0 := by
  obtain ⟨c, hc, hhead⟩ := hs.volume.slotChain ⟨⟨C, hC, hq⟩, ht⟩
  have hcur : (s.handles fd).currBlk = firstBlk c := by
    rw [hh, hhead]
    rfl
  have hpos : (s.handles fd).currPos = 0 := by rw [hh]; rfl
  refine ⟨c, ⟨hs, hC, hq, hc, ?_, ?_, ?_, ht, ?_, ?_, ?_, ?_⟩, hcur, hpos⟩
  · rw [hh]
    exact Nat.one_ne_zero
  · rw [hh]
    rfl
  · rw [hh]
    rfl
  · rw [hh]
    rfl
  · rw [hh]
    rfl
  · rw [hh, hhead]
    rfl
  · by_cases hne : c = []
    · exact .inl (by rw [hcur, hne, firstBlk_nil])
    · refine .inr ⟨0, List.length_pos_of_ne_nil hne, ?_, hpos, by decide⟩
      rw [hcur]
      cases c with
      | nil => exact absurd rfl hne
      | cons b c => rfl

/-- `tfs_open` of a file that brought a free handle into use. -/
theorem tfsOpen_ok (he : e.NeverFails) (hf : n ≤ e.fuel) (hs : Sys n s L)
    (hopen : tfsOpen e name s = some ((fd : Int), s'))
    (hnew : (s.handles fd).usageCount = 0) : ∃ C q c, OpenFile n s' L fd C q c ∧ s'.tfsLastError = .ok ∧ s'.dev = s.dev ∧
      (∀ f, f ≠ fd → s'.handles f = s.handles f) ∧ (s'.handles fd).currBlk = firstBlk c ∧
        (s'.handles fd).currPos = 0 := by
  obtain ⟨C, D, h⟩ := hs.current_enter
  rw [tfsOpen, enter_run hs.dev, out_run, Option.map_eq_some_iff] at hopen
  obtain ⟨⟨a, t⟩, hrun, heq⟩ := hopen
  simp only [Prod.mk.injEq] at heq
  obtain ⟨ha, rfl⟩ := heq
  subst ha
  by_cases hname : name.headD 0 = 0
  · rw [Prog.bind_some (findFile_noName hname false), ifOk_err (by exact Err.noConfusion)] at hrun
    cases hrun
  rcases findFile_lookup he hf h.toInDir hname with ⟨q, l, hq, hfind⟩ | ⟨-, l, hfind⟩
  · obtain ⟨P, Q, hfd⟩ := found_of_find hq
    obtain ⟨s₁, hs₁⟩ : ∃ s₁ : State, s₁ = { s.started with blkBuf := s.dev q.1, loadedDirBlk := q.1, log := l } :=
        ⟨_, rfl⟩
    have hfind' : findFile e name false s.started = some (some q.2, s₁) := hs₁ ▸ hfind false
    have herr₁ : s₁.tfsLastError = .ok := by rw [hs₁]; rfl
    have hbuf : s₁.blkBuf = s.dev q.1 := by rw [hs₁]
    have hdir : s₁.loadedDirBlk = q.1 := by rw [hs₁]
    have hh₁ : s₁.handles = s.handles := by rw [hs₁]; rfl
    replace hrun := (Prog.bind_some (f := _) hfind').symm.trans hrun
    rw [ifOk_ok herr₁, blkBuf_bind] at hrun
    simp only [hbuf] at hrun
    by_cases ht : (s.dev q.1).itemType q.2 = itemFile
    · rw [if_neg (by simpa using ht), Prog.gets_bind, id] at hrun
      cases hshare : sharedHandle s₁ q.2 (List.range e.maxFds) with
      | some f =>
        simp only [hshare] at hrun
        rw [modifyHandle_bind] at hrun
        cases hrun
        have hused := (sharedHandle_some hshare).2
        rw [hh₁, hnew] at hused
        omega
      | none =>
        simp only [hshare] at hrun
        cases hfree : freeHandle s₁ e.maxFds e.maxFds 0 with
        | none =>
          simp only [hfree] at hrun
          rw [setErr_bind] at hrun
          cases hrun
        | some f =>
          simp only [hfree] at hrun
          rw [modifyHandle_bind, initPos, modifyHandle_bind] at hrun
          cases hrun
          simp only [Function.update_self, Function.update_idem, hdir]
          have hend : ∀ t : State, t.handles = Function.update s.handles fd (openedHandle q.1 q.2 (s.dev q.1)) →
            t.dev = s.dev →
              Sys n t L → t.tfsLastError = .ok → ∃ C q c, OpenFile n t L fd C q c ∧ t.tfsLastError = .ok ∧ t.dev = s.dev ∧
                (∀ f, f ≠ fd → t.handles f = s.handles f) ∧ (t.handles fd).currBlk = firstBlk c ∧
                  (t.handles fd).currPos = 0 := by
            intro t hh hdev hsys herr
            have hfield : t.handles fd = openedHandle q.1 q.2 (t.dev q.1) := by rw [hh, hdev, Function.update_self]
            obtain ⟨c, hfile, hcur, hpos⟩ := hsys.openFile h.mem hfd.mem (by rw [hdev]; exact ht) hfield
            exact ⟨C, q, c, hfile, herr, hdev, fun f hne => by rw [hh, Function.update_of_ne hne], hcur, hpos⟩
          refine hend _ ?_ (by rw [hs₁]; rfl) ⟨?_, ?_, ?_, ?_, ?_⟩ herr₁
          · rw [← hh₁]
            rfl
          all_goals rw [hs₁]
          · exact ⟨hs.mounted.pos, hs.mounted.lt, hs.mounted.count, hs.mounted.lastBlk, hs.mounted.lastLen⟩
          · exact hs.cache
          · exact hs.volume
          · exact hs.cur
          · exact Err.noConfusion
    · rw [if_pos (by simpa using ht), setErr_bind] at hrun
      cases hrun
  · replace hrun := (Prog.bind_some (f := _) hfind).symm.trans hrun
    rw [ifOk_ok (by exact h.err), blkBuf_bind] at hrun
    simp only at hrun
    rw [setErr_bind] at hrun
    cases hrun

/-- Sixteen blocks with an empty file, which is opened. -/
theorem openEmpty_sixteen : ∃ s s' L, withEmptyFile (Env.linux 16) (State.boot fun _ => Buf.zero) = some ((), s) ∧
    Sys 16 s L ∧
    tfsOpen (Env.linux 16) [97] s = some (((0 : Nat) : Int), s') ∧ (s.handles 0).usageCount = 0 ∧
    (s'.handles 0).size = 0 ∧ (s'.handles 0).firstBlk = 0 := by
  obtain ⟨s, dirs, files, hs, hrest, -⟩ := withEmptyFile_ok
  have hopen : ((withEmptyFile (Env.linux 16) >>= fun _ => tfsOpen (Env.linux 16) [97])
    (State.boot fun _ => Buf.zero)).map
      (fun p => (p.1, (p.2.handles 0).size, (p.2.handles 0).firstBlk)) = some (0, 0, 0) := by decide +kernel
  have hfree : (withEmptyFile (Env.linux 16) (State.boot fun _ => Buf.zero)).map (fun p => (p.2.handles 0).usageCount) =
      some 0 := by decide +kernel
  rw [Prog.bind_some hs, Option.map_eq_some_iff] at hopen
  rw [hs, Option.map_some, Option.some.injEq] at hfree
  obtain ⟨⟨fd, s'⟩, hopen, hfd⟩ := hopen
  simp only [Prod.mk.injEq] at hfd
  obtain ⟨rfl, hempty⟩ := hfd
  exact ⟨s, s', _, hs, hrest.sys, hopen, hfree, hempty⟩

end TinyFs
