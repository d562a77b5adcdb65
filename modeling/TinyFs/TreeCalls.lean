/-
The calls of the basic API on the tree, one by one, and their runs: from a freshly
formatted volume, every run of calls is a run of the file system its callers see.
-/
import TinyFs.FreshVolume
import TinyFs.TreeSteps

namespace TinyFs

open Bytes Chains KeyMap NameTree

variable {e : Env} {n b : Nat} {s s' : State} {L L' : Layout} {fs fs' : FileSys} {C C' : List Nat}
  {A old new B : List DirItem}
  {x y : DirItem} {k : Name} {p : List Name} {c : DirCall} {name data : List UInt8} {len pos : Nat} {err : Err}

/-- The call did a step of the file system, and the state holds what it left. -/
def Shown (e : Env) (n : Nat) (fs : FileSys) (c : Call) (s' : State) : Prop :=
  ∃ L' fs', FileSys.Step fs (.call c) fs' ∧ Shows e n s' L' fs'

theorem Shows.after (hcmp : e.filenameCmp = strncmpName) (hs : Shows e n s L fs)
    (h : DirOp e n L c s s' L' C C' A old new B)
    (htree : volumeTree n s'.dev = fs'.tree) (hcwd : fs'.cwd = fs.cwd) (herr : s'.tfsLastError = fs'.err) :
    Shows e n s' L' fs' where
  sys := h.sys
  tight := ⟨h.loose.trans hs.tight.loose, h.leaked.trans hs.tight.leaked⟩
  upLinks := h.upLinks ▸ hs.upLinks
  compact := h.compact_dirs hs.compact
  idle := fun ⟨fd, hfd, hne⟩ => hs.idle ⟨fd, hfd, h.frame.handles ▸ hne⟩
  distinct := by
    intro d hd
    by_cases hcur : firstBlk d = s.currentDirBlk
    · have hdC : d = C' := by rw [← h.sys.volume.follow_dir hd, hcur, ← h.head', h.sys.volume.follow_dir h.mem']
      have hold := hs.distinct C h.mem
      rw [h.before] at hold
      rw [hdC, h.after]
      exact DirStep.distinct (hcmp ▸ h.step) hold
    · rcases h.dirs_from d hd hcur with ⟨hd', hsame⟩ | ⟨hnil, -⟩
      · rw [entries_congr fun b hb i _ => by rw [hsame b hb]]
        exact hs.distinct d hd'
      · rw [hnil]
        exact List.nodup_nil
  tree := htree
  cwd := by
    rw [hcwd, h.frame.cur]
    exact (h.tree_edit hs.sys.volume hs.cwd).1
  err := herr
  full := h.full

/-- A call that ends as the file system says, and changed nothing. -/
theorem Shows.failed (hcmp : e.filenameCmp = strncmpName) (hs : Shows e n s L fs) (h : DirOp e n L c s s' L' C C' A []
    [] B) (hfs : fs.step (.onDir c) = fs.fail err) (herr : s'.tfsLastError = err) : Shown e n fs (.onDir c) s' :=
  ⟨L', fs.fail err, hfs ▸ .call, hs.after hcmp h ((h.tree_same hs.sys.volume).trans hs.tree) rfl herr⟩

/-- A call that found the disk full, and changed nothing. -/
theorem Shows.noSpace (hcmp : e.filenameCmp = strncmpName) (hs : Shows e n s L fs) (h : DirOp e n L c s s' L' C C' A
    [] [] B) (hok : (fs.step (.onDir c)).err = .ok) (hneeds : fs.NeedsSpace c) (herr : s'.tfsLastError = .diskFull) :
    Shown e n fs (.onDir c) s' :=
  ⟨L', fs.fail .diskFull, .full hok hneeds, hs.after hcmp h ((h.tree_same hs.sys.volume).trans hs.tree) rfl herr⟩

theorem Shows.get_some {A' B' : List DirItem} (hs : Shows e n s L fs) (h : DirOp e n L c s s' L' C C' A old new B)
    (hx : Hit strncmpName name A' x) (hE : A ++ old ++ B = A' ++ x :: B') : ∃ v, fs.get name = some v := by
  rw [hs.get_hit h hx hE]
  by_cases ht : x.type = itemDir
  · exact ⟨_, entryNode_dir ht⟩
  · exact ⟨_, entryNode_leaf ht⟩

theorem append_nil_cons (A B : List DirItem) (x : DirItem) : A ++ [] ++ (x :: B) = A ++ x :: B := by simp

theorem append_single (A B : List DirItem) (x : DirItem) : A ++ [x] ++ B = A ++ x :: B := by simp

theorem append_nil_mid (A B : List DirItem) : A ++ [] ++ B = A ++ B := by simp

/-! ## Creating -/

theorem Shows.createDir (he : e.NeverFails) (hf : n ≤ e.fuel) (hcmp : e.filenameCmp = strncmpName) (hs : Shows e n s L fs)
    (name : List UInt8) : ∃ s', tfsCreateDir e name s = some ((), s') ∧ Shown e n fs (.onDir (.createDir name)) s' := by
  obtain ⟨s', hrun, L', C, C', A, old, new, B, h⟩ := tfsCreateDir_ok he hf hs.sys name
  refine ⟨s', hrun, ?_⟩
  have hstep : DirStep strncmpName (Held e s) (.createDir name) s'.tfsLastError A old new B := hcmp ▸ h.step
  generalize herr : s'.tfsLastError = err at hstep
  cases hstep with
  | noName hn => exact hs.failed hcmp h (if_pos hn) herr
  | full _ hn hm =>
    have hget : fs.get name = none := hs.get_miss h (append_nil_mid A B ▸ hm)
    refine hs.noSpace hcmp h ?_ trivial herr
    rw [FileSys.step, FileSys.createDir, if_neg (by exact hn), hget]
    rfl
  | @createDir _ b A B hn hm =>
    have hm' := append_nil_mid A B ▸ hm
    have hfs : fs.step (.onDir (.createDir name)) = fs.put name .emptyDir := by
      rw [FileSys.step, FileSys.createDir, if_neg hn, hs.get_miss h hm']
    refine ⟨L', _, .call, hs.after hcmp h ?_ (by rw [hfs]; rfl) (by rw [hfs, herr]; rfl)⟩
    rw [h.tree_put hs.sys.volume hs.cwd (h.look_insert hs.sys.volume hm' rfl) (fun _ hx => by cases hx),
      h.newDir_tree hs.sys.volume, hs.tree, hfs]
    rfl
  | createDirExist hn hx =>
    obtain ⟨v, hv⟩ := hs.get_some h hx (append_nil_cons ..)
    refine hs.failed hcmp h ?_ herr
    rw [FileSys.step, FileSys.createDir, if_neg hn, hv]

/-- A file without blocks. -/
theorem newFile_node_zero {dev : Nat → Block} (name : List UInt8) (pos : Nat) :
    (newFile name 0 pos).node n dev = .inr ⟨itemFile, 0, []⟩ := by
  rw [DirItem.node_file (show itemFile ≠ itemDir by decide), DirItem.bytes]
  simp [newFile]

theorem Shows.touch (he : e.NeverFails) (hf : n ≤ e.fuel) (hcmp : e.filenameCmp = strncmpName) (hs : Shows e n s L fs)
    (name : List UInt8) : ∃ s', tfsTouch e name s = some ((), s') ∧ Shown e n fs (.onDir (.touch name)) s' := by
  obtain ⟨s', hrun, L', C, C', A, old, new, B, h⟩ := tfsTouch_ok he hf hs.sys name
  refine ⟨s', hrun, ?_⟩
  have hstep : DirStep strncmpName (Held e s) (.touch name) s'.tfsLastError A old new B := hcmp ▸ h.step
  generalize herr : s'.tfsLastError = err at hstep
  cases hstep with
  | noName hn => exact hs.failed hcmp h (if_pos hn) herr
  | full _ hn hm =>
    have hget : fs.get name = none := hs.get_miss h (append_nil_mid A B ▸ hm)
    refine hs.noSpace hcmp h ?_ hget herr
    rw [FileSys.step, FileSys.touch, if_neg (by exact hn), hget]
    rfl
  | touch hn hm =>
    have hm' := append_nil_mid A B ▸ hm
    have hfs : fs.step (.onDir (.touch name)) = fs.put name (.leaf ⟨itemFile, 0, []⟩) := by
      rw [FileSys.step, FileSys.touch, if_neg hn, hs.get_miss h hm']
    refine ⟨L', _, .call, hs.after hcmp h ?_ (by rw [hfs]; rfl) (by rw [hfs, herr]; rfl)⟩
    rw [h.tree_put hs.sys.volume hs.cwd (h.look_insert hs.sys.volume hm' rfl) (fun _ hx => by cases hx),
      newFile_node_zero, entryTree_leaf, hs.tree, hfs]
    rfl
  | touchPresent hn hx =>
    obtain ⟨v, hv⟩ := hs.get_some h hx (append_nil_cons ..)
    refine hs.failed hcmp h ?_ herr
    rw [FileSys.step, FileSys.touch, if_neg hn, hv]

/-! ## Writing -/

/-- The entry `tfs_write_file` leaves: the data, as far as it is stored. -/
theorem Stored.node {e : Env} (h : Stored e n s s' name data len pos) (hdata : data.length = len) (h32 : len < 2 ^ 32) :
    (newFile name len pos).node n s'.dev =
      .inr ⟨itemFile, len, data.take (min len (dataLen * (follow s'.dev n pos).length))⟩ := by
  have hblks : (newFile name len pos).dataBlks n s'.dev = follow s'.dev n pos := if_pos rfl
  have hsize : (newFile name len pos).size = len := Nat.mod_eq_of_lt h32
  rw [DirItem.node_file (show itemFile ≠ itemDir by decide), DirItem.bytes, hblks, hsize,
    take_eq_map data (by rw [hdata]; exact Nat.min_le_left _ _)]
  congr 2
  refine List.map_congr_left fun j hj => h.holds j ?_ ?_ <;>
  · have hj := List.mem_range.mp hj
    omega

/-- A `tfs_write_file` that left no entry. -/
theorem Shows.writeNone {ov : Bool} (hcmp : e.filenameCmp = strncmpName) (hs : Shows e n s L fs)
    (hd : DirDone e n L (.writeFile name data len ov) s s' []) :
    Shown e n fs (.onDir (.writeFile name data len ov)) s' := by
  obtain ⟨L', C, C', A, old, B, h⟩ := hd
  have hstep : DirStep strncmpName (Held e s) (.writeFile name data len ov) s'.tfsLastError A old [] B := hcmp ▸ h.step
  generalize herr : s'.tfsLastError = err at hstep
  cases hstep with
  | noName hn => exact hs.failed hcmp h (if_pos hn) herr
  | full _ hn hm =>
    have hget : fs.get name = none := hs.get_miss h (append_nil_mid A B ▸ hm)
    refine hs.noSpace hcmp h ?_ (.inl hget) herr
    rw [FileSys.step, FileSys.writeFile, if_neg (by exact hn), hget]
    rfl
  | @writeOverFull _ _ _ x A B hn hx ht hb =>
    have hget := hs.get_hit h hx (append_nil_cons ..)
    rw [entryNode_leaf (by rw [ht]; decide)] at hget
    have hbytes : x.bytes n s.dev = [] := by
      rw [DirItem.bytes, DirItem.dataBlks, if_pos ht, hb, follow_zero]
      simp
    refine hs.noSpace hcmp h ?_ (.inr ⟨_, hget, hbytes⟩) herr
    rw [FileSys.step, FileSys.writeFile, if_neg hn, hget]
    simp only [ht, Bool.true_eq_false, ne_eq, not_true_eq_false, or_self, if_false]
    rfl
  | @writeExist _ _ _ _ x A B hn hx ht =>
    refine hs.failed hcmp h ?_ herr
    have hget := hs.get_hit h hx (append_nil_cons ..)
    rw [FileSys.step, FileSys.writeFile, if_neg hn, hget]
    by_cases htd : x.type = itemDir
    · rw [entryNode_dir htd]
    · rw [entryNode_leaf htd]
      exact if_pos ht
  | writeBusy _ _ _ hheld => exact absurd hheld hs.idle

theorem Shows.writeFile (he : e.NeverFails) (hf : n ≤ e.fuel) (hcmp : e.filenameCmp = strncmpName)
    (hsets : e.drive.setsOk = false) (hs : Shows e n s L fs) (hdata : data.length = len) (h32 : len < 2 ^ 32)
    (ov : Bool) :
    ∃ s', tfsWriteFile e name data len ov s = some ((), s') ∧ Shown e n fs (.onDir (.writeFile name data len ov)) s' := by
  obtain ⟨s', hrun, hend⟩ := tfsWriteFile_end he hf hs.sys name data len ov
  refine ⟨s', hrun, ?_⟩
  cases hend with
  | refused hd _ _ => exact hs.writeNone hcmp hd
  | noSpace hd _ _ => exact hs.writeNone hcmp hd
  | stored pos hd hacc hst =>
    obtain ⟨L', C, C', A, old, B, h⟩ := hd
    have hnode := hst.node hdata h32
    -- either way the name now stands for what is stored of the data
    have hput : volumeTree n s'.dev = (volumeTree n s.dev).graft (fs.path name)
          (.leaf ⟨itemFile, len, data.take (min len (dataLen * (follow s'.dev n pos).length))⟩) ∧
        fs.writeFile name data ov = fs.put name (.leaf ⟨itemFile, data.length, data⟩) := by
      have hstep : DirStep strncmpName (Held e s) (.writeFile name data len ov) s'.tfsLastError A old
          [newFile name len pos] B :=
        hcmp ▸ h.step
      generalize s'.tfsLastError = err at hstep
      cases hstep with
      | writeNew hn hm _ =>
        have hm' := append_nil_mid A B ▸ hm
        refine ⟨?_, ?_⟩
        · rw [h.tree_put hs.sys.volume hs.cwd (h.look_insert hs.sys.volume hm' rfl) (fun _ hx => by cases hx), hnode,
            entryTree_leaf]
          rfl
        · rw [FileSys.writeFile, if_neg hn, hs.get_miss h hm']
      | @writeOver _ _ _ _ x _ _ _ hn hx ht _ =>
        have hdist : DistinctNames (A ++ [x] ++ B) := h.before ▸ hs.distinct C h.mem
        have hkey : (newFile name len pos).key = x.key := by rw [DirItem.key, newFile, nameKey_padName, hx.key_eq]
        refine ⟨?_, ?_⟩
        · rw [h.tree_put hs.sys.volume hs.cwd (h.look_replace hs.sys.volume hdist hkey)
            (fun y hy => by rw [List.mem_singleton.mp hy]), hnode, entryTree_leaf, hx.key_eq]
          rfl
        · rw [FileSys.writeFile, if_neg hn, hs.get_hit h hx (append_single ..), entryNode_leaf (by rw [ht]; decide)]
          simp only [ht, Bool.true_eq_false, ne_eq, not_true_eq_false, or_self, if_false]
    rcases hst.written with ⟨hok, hall⟩ | ⟨herr, -, hpart⟩
    · refine ⟨L', _, .call, hs.after hcmp h ?_ ?_ ?_⟩
      · rw [hput.1, hall, Nat.min_eq_left (le_blocksFor len), ← hdata, List.take_length, hs.tree, FileSys.step, hput.2]
        rfl
      · rw [FileSys.step, hput.2]
        rfl
      · rw [FileSys.step, hput.2, hok]
        rfl
    · rw [hsets] at herr
      have hm : dataLen * (follow s'.dev n pos).length < len := by
        simp only [blocksFor, dataLen] at hpart ⊢
        omega
      have hstart : 0 < (follow s'.dev n pos).length := by
        obtain ⟨k, rfl⟩ : ∃ k, n = k + 1 := ⟨n - 1, by have := hs.sys.mounted.pos; omega⟩
        rw [follow, if_neg (hst.pos_ne (by omega)), List.length_cons]
        exact Nat.succ_pos _
      refine ⟨L', _, .part (by rw [hput.2]; rfl) hstart (hdata ▸ hm), hs.after hcmp h ?_ rfl herr⟩
      rw [hput.1, Nat.min_eq_right (Nat.le_of_lt hm), hs.tree, ← hdata]
      rfl

/-! ## Renaming and deleting -/

theorem Shows.rename (he : e.NeverFails) (hf : n ≤ e.fuel) (hcmp : e.filenameCmp = strncmpName) (hs : Shows e n s L fs)
    (fromName toName : List UInt8) :
    ∃ s', tfsRename e fromName toName s = some ((), s') ∧ Shown e n fs (.onDir (.rename fromName toName)) s' := by
  obtain ⟨s', hrun, L', C, C', A, old, new, B, h⟩ := tfsRename_ok he hf hs.sys fromName toName
  refine ⟨s', hrun, ?_⟩
  have hstep : DirStep strncmpName (Held e s) (.rename fromName toName) s'.tfsLastError A old new B := hcmp ▸ h.step
  generalize herr : s'.tfsLastError = err at hstep
  cases hstep with
  | noName hn => exact hs.failed hcmp h (if_pos hn) herr
  | full hins => cases hins
  | @rename _ _ x A B hn hn' hm hx =>
    have hdist : DistinctNames (A ++ [x] ++ B) := h.before ▸ hs.distinct C h.mem
    have hm' := append_single A B x ▸ hm
    obtain ⟨v, hv⟩ := hs.get_some h hx (append_single ..)
    have hfs : fs.step (.onDir (.rename fromName toName)) =
        (fs.put fromName .none).put toName (fs.tree.below (fs.path fromName)) := by
      rw [FileSys.step, FileSys.rename, if_neg hn, hs.get_miss h hm']
      show (if _ then _ else _) = _
      rw [if_neg hn', hv]
    refine ⟨L', _, .call, hs.after hcmp h ?_ (by rw [hfs]; rfl) (by rw [hfs, herr]; rfl)⟩
    rw [h.tree_move hs.sys.volume hs.cwd hdist hx.key_eq hm' rfl, hs.tree, hfs]
    rfl
  | renameExist hn hx =>
    obtain ⟨v, hv⟩ := hs.get_some h hx (append_nil_cons ..)
    refine hs.failed hcmp h ?_ herr
    rw [FileSys.step, FileSys.rename, if_neg hn, hv]
  | @renameMiss _ _ A B hn hn' hm hm' =>
    refine hs.failed hcmp h ?_ herr
    rw [FileSys.step, FileSys.rename, if_neg hn, hs.get_miss h (append_nil_mid A B ▸ hm)]
    show (if _ then _ else _) = _
    rw [if_neg hn', hs.get_miss h (append_nil_mid A B ▸ hm')]
  | @renameNoName _ _ A B hn hn' hm =>
    refine hs.failed hcmp h ?_ herr
    rw [FileSys.step, FileSys.rename, if_neg hn, hs.get_miss h (append_nil_mid A B ▸ hm)]
    exact if_pos hn'

/-- A directory holds something in the tree where it has an entry on the medium. -/
theorem Shows.inhabited (hs : Shows e n s L fs) (hk : dirLook n s.dev s.currentDirBlk (nameKey name) = some (.inl b)) :
    fs.Inhabited name ↔ entries s.dev (follow s.dev n b) ≠ [] := by
  have hat : dirAt (dirLook n s.dev) rootDirBlk (fs.path name) = some b := dirAt_snoc.mpr ⟨_, hs.cwd, hk⟩
  have hsub : ∀ k, fs.tree (fs.path name ++ [k]) = entryNode (dirLook n s.dev b k) := fun k => by
    rw [← hs.tree]
    exact span_snoc hat k
  constructor
  · rintro ⟨k, hk⟩ hnil
    rw [hsub, dirLook, hnil] at hk
    exact hk rfl
  · intro hne
    obtain ⟨x, hx⟩ := List.exists_mem_of_ne_nil _ hne
    have hsome : (dirLook n s.dev b x.key).isSome := toMap_isSome.mpr (List.mem_map_of_mem hx)
    obtain ⟨v, hv⟩ := Option.isSome_iff_exists.mp hsome
    refine ⟨x.key, ?_⟩
    rw [hsub, hv]
    rcases v with c | f <;> exact Option.some_ne_none _

/-- The deletion of a directory ends as it should. -/
theorem Shows.subdir_ends (he : e.NeverFails) (hf : n ≤ e.fuel) (hcmp : e.filenameCmp = strncmpName)
    (hs : Shows e n s L fs)
    {type : UInt8} {A' B' : List DirItem} (h : DirOp e n L c s s' L' C C' A old new B) (hn : name.headD 0 ≠ 0)
    (hx : Hit strncmpName name A' x) (hE : A ++ old ++ B = A' ++ x :: B') (ht : x.type = itemDir)
    (hask : type = 0 ∨ x.type = type) (hrun : tfsDelete e name type s = some ((), s')) :
    (s'.tfsLastError = .ok ↔ ¬ fs.Inhabited name) ∧ (s'.tfsLastError = .notEmpty ↔ fs.Inhabited name) := by
  have hfind : (s.listing n).find? (fun x => e.filenameCmp name x.name) = some x := by
    rw [hs.sys.listing_eq h.mem h.head, h.before, hE, List.find?_append,
      List.find?_eq_none.mpr fun y hy => by simp [hcmp, hx.before y hy], Option.none_or, List.find?_cons_of_pos]
    rw [hcmp]
    exact hx.hit
  rw [← State.lookup_item, Option.map_eq_some_iff] at hfind
  obtain ⟨q, hq, rfl⟩ := hfind
  obtain ⟨-, t, hrun', hok, hne, -⟩ := hs.deletes he hf ⟨hn, hq, ht, hask.imp_right fun hk => hk.symm.trans ht⟩
  obtain rfl : s' = t := congrArg Prod.snd (Option.some.inj (hrun.symm.trans hrun'))
  have hlook : dirLook n s.dev s.currentDirBlk (nameKey name) = some (.inl (itemAt s.dev q).blk) := by
    rw [h.look_before hs.sys.volume, hE, look_hit hx, DirItem.node_dir ht]
  rw [hs.inhabited hlook]
  exact ⟨hok.trans not_not.symm, hne⟩

theorem Shows.delete (he : e.NeverFails) (hf : n ≤ e.fuel) (hcmp : e.filenameCmp = strncmpName) (hs : Shows e n s L fs)
    (name : List UInt8) (type : UInt8) :
    ∃ s', tfsDelete e name type s = some ((), s') ∧ Shown e n fs (.onDir (.delete name type)) s' := by
  obtain ⟨s', hrun, L', C, C', A, old, new, B, h⟩ := tfsDelete_ok he hf hs.sys name type
  refine ⟨s', hrun, ?_⟩
  have hstep : DirStep strncmpName (Held e s) (.delete name type) s'.tfsLastError A old new B := hcmp ▸ h.step
  generalize herr : s'.tfsLastError = err at hstep
  cases hstep with
  | noName hn => exact hs.failed hcmp h (if_pos hn) herr
  | full hins => cases hins
  | @delete _ _ x A B hn hx hask htype =>
    have hfs : fs.step (.onDir (.delete name type)) = fs.put name .none := by
      rw [FileSys.step, FileSys.delete, if_neg hn, hs.get_hit h hx (append_single ..)]
      by_cases ht : x.type = itemDir
      · have hnone : ¬ fs.Inhabited name := (hs.subdir_ends he hf hcmp h hn hx (append_single ..) ht hask hrun).1.mp herr
        rw [entryNode_dir ht]
        show (if _ then _ else _) = _
        rw [if_neg (by rintro ⟨h0, h1⟩; exact hask.elim h0 fun h2 => h1 (ht.symm.trans h2)), if_neg hnone]
      · rw [entryNode_leaf ht]
        refine if_neg ?_
        rintro (⟨h0, h1⟩ | h1)
        · exact hask.elim h0 h1
        · exact h1 (htype.resolve_right ht)
    have hdist : DistinctNames (A ++ [x] ++ B) := h.before ▸ hs.distinct C h.mem
    refine ⟨L', _, .call, hs.after hcmp h ?_ (by rw [hfs]; rfl) (by rw [hfs, herr]; rfl)⟩
    rw [h.tree_put hs.sys.volume hs.cwd (h.look_erase hs.sys.volume hdist) (fun y hy => by rw [List.mem_singleton.mp hy]),
      entryTree_none, hx.key_eq, hs.tree, hfs]
    rfl
  | @deleteMiss _ _ A B hn hm =>
    refine hs.failed hcmp h ?_ herr
    rw [FileSys.step, FileSys.delete, if_neg hn, hs.get_miss h (append_nil_mid A B ▸ hm)]
  | @deleteType _ _ x A B hn hx ht =>
    refine hs.failed hcmp h ?_ herr
    rw [FileSys.step, FileSys.delete, if_neg hn, hs.get_hit h hx (append_nil_cons ..)]
    by_cases htd : x.type = itemDir
    · rw [entryNode_dir htd]
      have hask := ht.resolve_right fun hno => hno.2 htd
      rw [htd] at hask
      exact if_pos hask
    · rw [entryNode_leaf htd]
      exact if_pos (ht.imp_right And.left)
  | deleteBusy _ _ _ hheld => exact absurd hheld hs.idle
  | @deleteNotEmpty _ _ x A B hn hx hask ht =>
    refine hs.failed hcmp h ?_ herr
    have hin := (hs.subdir_ends he hf hcmp h hn hx (append_nil_cons ..) ht hask hrun).2.mp herr
    rw [FileSys.step, FileSys.delete, if_neg hn, hs.get_hit h hx (append_nil_cons ..), entryNode_dir ht]
    show (if _ then _ else _) = _
    rw [if_neg (by rintro ⟨h0, h1⟩; exact hask.elim h0 fun h2 => h1 (ht.symm.trans h2)), if_pos hin]

/-! ## Moving -/

/-- What the code compares, and what the maps do. -/
theorem cmp_key (hcmp : e.filenameCmp = strncmpName) :
    (fun x : DirItem => e.filenameCmp name x.name) = fun x => decide (x.key = nameKey name) := by
  funext x
  rw [hcmp, Bool.eq_iff_iff, strncmpName_iff, decide_eq_true_iff]
  exact eq_comm

/-- The directory a name leads to, in the map of a directory. -/
theorem namesDir_look {dev : Nat → Block} {a : Nat} (hcmp : e.filenameCmp = strncmpName) :
    Fuse.NamesDir e n dev a name b ↔ dirLook n dev a (nameKey name) = some (.inl b) := by
  rw [Fuse.NamesDir, dirLook, toMap, cmp_key hcmp, Option.map_eq_some_iff]
  exact exists_congr fun x => and_congr_right fun _ => DirItem.node_eq_inl.symm

theorem Shows.changeDir (he : e.NeverFails) (hf : n ≤ e.fuel) (hcmp : e.filenameCmp = strncmpName) (hs : Shows e n s L fs)
    (name : List UInt8) : ∃ s', tfsChangeDir e name s = some ((), s') ∧ Shown e n fs (.changeDir name) s' := by
  by_cases hn : name.headD 0 = 0
  · have hrun : tfsChangeDir e name s = some ((), State.call { s with
        tfsLastError := .noName, log := s.log.call .select } .deselect) := by
      refine enter_out hs.sys.dev ?_
      rw [Prog.bind_some (findFile_noName hn false), ifOk_err Err.noConfusion]
    refine ⟨_, hrun, L, fs.fail .noName, ?_, ?_⟩
    · rw [show fs.fail .noName = fs.step (.changeDir name) from (if_pos hn).symm]
      exact .call
    · have h : Stays n s (State.call { s with tfsLastError := .noName, log := s.log.call .select } .deselect) L :=
        ⟨⟨hs.sys.mounted, hs.sys.cache, hs.sys.volume, hs.sys.cur, Err.noConfusion⟩, rfl, rfl, Err.noConfusion⟩
      exact hs.stays h rfl
  · obtain ⟨s', hrun, hstays, -⟩ := tfsChangeDir_ok he hf hs.sys name
    refine ⟨s', hrun, L, fs.step (.changeDir name), .call, ?_⟩
    obtain ⟨t, hrun', -, -, hend⟩ := Fuse.tfsChangeDir_enters he hf hs.sys hn
    obtain rfl : s' = t := congrArg Prod.snd (Option.some.inj (hrun.symm.trans hrun'))
    have hget := hs.get name
    rcases hend with ⟨hnames, herr⟩ | ⟨hnone, herr, hcur⟩
    · rw [namesDir_look hcmp] at hnames
      rw [hnames] at hget
      have hfs : fs.step (.changeDir name) = { fs with cwd := fs.path name, err := .ok } := by
        rw [FileSys.step, FileSys.changeDir, if_neg hn, hget]
        rfl
      rw [hfs, ← herr]
      exact hs.moved hstays (dirAt_snoc.mpr ⟨_, hs.cwd, hnames⟩)
    · have hfs : fs.step (.changeDir name) = fs.fail .notExist := by
        rw [FileSys.step, FileSys.changeDir, if_neg hn, hget]
        rcases hk : dirLook n s.dev s.currentDirBlk (nameKey name) with - | (c | f)
        · rfl
        · exact absurd ((namesDir_look hcmp).mpr hk) (hnone c)
        · rfl
      rw [hfs, ← herr]
      exact hs.stays hstays hcur

end TinyFs
