/-
The tree a volume holds. Each directory knows its entries, so the directories of a
medium span a tree of names with the files as its leaves; a call on the entries of
one directory replaces the part of the tree at that directory's path.
-/
import Mathlib.Data.List.Pairwise
import TinyFs.DirMap
import TinyFs.EmptyDirs
import TinyFs.Lib.NameTree

namespace TinyFs

open Bytes Chains KeyMap NameTree

/-! ## Files and directories -/

/-- A name in a tree, the 16 bytes that are stored. -/
abbrev Name := List UInt8

/-- A file: the fields of its entry, and its bytes as far as there are blocks for them. -/
structure FileNode where
  type : UInt8
  size : Nat
  bytes : List UInt8

/-- The data blocks of an entry. -/
def DirItem.dataBlks (n : Nat) (dev : Nat → Block) (x : DirItem) :
    List Nat := if x.type = itemFile then follow dev n x.blk else []

/-- The bytes an entry's blocks hold, up to its size. -/
def DirItem.bytes (n : Nat) (dev : Nat → Block) (x : DirItem) : List UInt8 :=
  (List.range (min x.size (dataLen * (x.dataBlks n dev).length))).map (fileByte dev (x.dataBlks n dev))

/-- What an entry stands for. -/
def DirItem.node (n : Nat) (dev : Nat → Block) (x : DirItem) : Nat ⊕ FileNode :=
  if x.type = itemDir then .inl x.blk else .inr ⟨x.type, x.size, x.bytes n dev⟩

/-- What the directory with first block `b` says of a name. -/
def dirLook (n : Nat) (dev : Nat → Block) (b : Nat) : Name → Option (Nat ⊕ FileNode) :=
  toMap DirItem.key (DirItem.node n dev) (entries dev (follow dev n b))

/-- The tree on a medium. -/
def volumeTree (n : Nat) (dev : Nat → Block) : Tree Name FileNode := span (dirLook n dev) rootDirBlk

variable {e : Env} {n b c : Nat} {s s' : State} {L L' : Layout} {dev : Nat → Block} {C C' d : List Nat}
  {A old new B : List DirItem} {x y : DirItem} {k : Name} {p q : List Name} {call : DirCall}

theorem DirItem.node_dir (h : x.type = itemDir) : x.node n dev = .inl x.blk := if_pos h

theorem DirItem.node_file (h : x.type ≠ itemDir) : x.node n dev = .inr ⟨x.type, x.size, x.bytes n dev⟩ := if_neg h

theorem DirItem.node_eq_inl : x.node n dev = .inl c ↔ x.type = itemDir ∧ x.blk = c := by
  by_cases h : x.type = itemDir
  · simp [node_dir h, h]
  · simp [node_file h, h]

/-- The name of an entry is not part of what it stands for. -/
theorem DirItem.node_name (x : DirItem) (name : List UInt8) : { x with name := name }.node n dev = x.node n dev := by
  simp only [node, bytes, dataBlks]

theorem dirLook_inl (h : dirLook n dev b k = some (.inl c)) :
    ∃ x ∈ entries dev (follow dev n b), x.key = k ∧ x.type = itemDir ∧ x.blk = c := by
  obtain ⟨x, hx, hk, hn⟩ := toMap_mem h
  exact ⟨x, hx, hk, DirItem.node_eq_inl.mp hn⟩

theorem Volume.follow_dir (h : Volume n dev L) (hd : d ∈ L.dirs) : follow dev n (firstBlk d) = d :=
  h.owned.follow_eq (List.mem_append_left _ hd)

theorem Volume.dirLook_eq (h : Volume n dev L) (hd : d ∈ L.dirs) :
    dirLook n dev (firstBlk d) = toMap DirItem.key (DirItem.node n dev) (entries dev d) := by
  rw [dirLook, h.follow_dir hd]

/-! ## Every directory has one place -/

/-- No two entries of a volume stand for one chain. -/
theorem Volume.entry_unique (h : Volume n dev L) (hx : x ∈ L.entries dev) (hy : y ∈ L.entries dev)
    (hbx : b ∈ x.dirHead ++ x.fileHead) (hby : b ∈ y.dirHead ++ y.fileHead) : x = y := by
  by_contra hne
  have hpair := (List.nodup_flatMap.mp h.starts_nodup).2
  have hsymm : Std.Symm (Function.onFun List.Disjoint fun x : DirItem => x.dirHead ++ x.fileHead) := ⟨fun _ _ h => h.symm⟩
  exact hpair.forall hx hy hne hbx hby

theorem mem_dirHead (h : x.type = itemDir) : x.blk ∈ x.dirHead ++ x.fileHead := by
  simp [DirItem.dirHead, h]

theorem mem_fileHead (h : x.type = itemFile) (hb : x.blk ≠ 0) : x.blk ∈ x.dirHead ++ x.fileHead := by
  simp [DirItem.fileHead, h, hb]

/-- What is reached from the root is a directory of the volume. -/
theorem Volume.dirAt_mem (h : Volume n dev L) (hp : dirAt (dirLook n dev) rootDirBlk p = some b) :
    ∃ d ∈ L.dirs, firstBlk d = b := by
  induction p using List.reverseRecOn generalizing b with
  | nil =>
    cases hp
    exact mem_heads h.root_mem
  | append_singleton p k ih =>
    obtain ⟨a, ha, hk⟩ := dirAt_snoc.mp hp
    obtain ⟨d, hd, rfl⟩ := ih ha
    obtain ⟨x, hx, -, ht, rfl⟩ := dirLook_inl hk
    rw [h.follow_dir hd] at hx
    exact mem_heads (h.mem_dirs hd hx ht)

/-- The root is no entry. -/
theorem Volume.ne_root (h : Volume n dev L) (hd : d ∈ L.dirs) (hx : x ∈ entries dev d) (ht : x.type = itemDir) :
    x.blk ≠ rootDirBlk := by
  intro hroot
  have hpar := (h.tree d hd x hx ht).1
  rw [hroot, h.root] at hpar
  have hd' : d ∈ L.chains := List.mem_append_left _ hd
  exact h.ne_zero hd' _ (firstBlk_mem (h.chain_ne_nil hd')) hpar.symm

/-- A directory is the entry of one directory only, under one name. -/
theorem Volume.onePlace (h : Volume n dev L) : OnePlace (dirLook n dev) rootDirBlk := by
  have hentry : ∀ {p b k c}, dirAt (dirLook n dev) rootDirBlk p = some b → dirLook n dev b k = some (.inl c) →
      ∃ d ∈ L.dirs, firstBlk d = b ∧ ∃ x ∈ entries dev d, x.key = k ∧ x.type = itemDir ∧ x.blk = c := by
    intro p b k c hp hk
    obtain ⟨d, hd, rfl⟩ := h.dirAt_mem hp
    obtain ⟨x, hx, hxk⟩ := dirLook_inl hk
    exact ⟨d, hd, rfl, x, h.follow_dir hd ▸ hx, hxk⟩
  refine .of_parents (fun p b k hp hk => ?_) fun p q b b' c k k' hp hq hk hk' => ?_
  · obtain ⟨d, hd, -, x, hx, -, ht, hblk⟩ := hentry hp hk
    exact h.ne_root hd hx ht hblk
  · obtain ⟨d, hd, rfl, x, hx, rfl, htx, rfl⟩ := hentry hp hk
    obtain ⟨d', hd', rfl, y, hy, rfl, hty, hblk⟩ := hentry hq hk'
    obtain rfl : x = y := h.entry_unique (List.mem_flatMap.mpr ⟨d, hd, hx⟩) (List.mem_flatMap.mpr ⟨d', hd', hy⟩)
      (mem_dirHead htx) (hblk ▸ mem_dirHead hty)
    exact ⟨((h.tree d hd x hx htx).1.symm.trans (h.tree d' hd' x hy hty).1), rfl⟩

/-! ## One call -/

/-- An entry whose chain is not dropped stands for what it stood for. -/
theorem DirOp.node_kept (h : DirOp e n L call s s' L' C C' A old new B) (hv : Volume n s.dev L) (hd : d ∈ L.dirs)
    (hx : x ∈ entries s.dev d) (hkept : ∀ b ∈ x.dirHead ++ x.fileHead, b ∉ call.dropped old) :
    x.node n s'.dev = x.node n s.dev := by
  by_cases ht : x.type = itemDir
  · rw [DirItem.node_dir ht, DirItem.node_dir ht]
  rw [DirItem.node_file ht, DirItem.node_file ht]
  have hsame : x.dataBlks n s'.dev = x.dataBlks n s.dev ∧ ∀ b ∈ x.dataBlks n s.dev, s'.dev b = s.dev b := by
    rw [DirItem.dataBlks, DirItem.dataBlks]
    by_cases hf : x.type = itemFile
    · rw [if_pos hf, if_pos hf]
      by_cases hb : x.blk = 0
      · rw [hb, follow_zero, follow_zero]
        simp
      · obtain ⟨f, hf', hhead⟩ := mem_heads (hv.mem_files hd hx hf hb)
        obtain ⟨hf'', hsame⟩ := h.files f hf' (hhead ▸ hkept _ (mem_fileHead hf hb))
        rw [← hhead, hv.owned.follow_eq (show f ∈ L.chains by simp [Layout.chains, hf']),
          h.sys.volume.owned.follow_eq (show f ∈ L'.chains by simp [Layout.chains, hf''])]
        exact ⟨rfl, hsame⟩
    · rw [if_neg hf, if_neg hf]
      simp
  congr 2
  rw [DirItem.bytes, DirItem.bytes, hsame.1]
  refine List.map_congr_left fun j hj => fileByte_congr hsame.2 ?_
  have hj := List.mem_range.mp hj
  omega

/-- The other entries stand for what they stood for. -/
theorem DirOp.node_eq (h : DirOp e n L call s s' L' C C' A old new B) (hv : Volume n s.dev L)
    (hx : x ∈ A ++ B ∨ ∃ d ∈ L.dirs, firstBlk d ≠ s.currentDirBlk ∧ x ∈ entries s.dev d) :
    x.node n s'.dev = x.node n s.dev := by
  have hxd : ∃ d ∈ L.dirs, x ∈ entries s.dev d := by
    rcases hx with hx | ⟨d, hd, -, hx⟩
    · refine ⟨C, h.mem, ?_⟩
      rw [h.before]
      rcases List.mem_append.mp hx with hx | hx <;> simp [hx]
    · exact ⟨d, hd, hx⟩
  obtain ⟨d, hd, hxd⟩ := hxd
  exact h.node_kept hv hd hxd ((h.isolated hv).apart x hx)

/-- Another directory says what it said. -/
theorem DirOp.look_other (h : DirOp e n L call s s' L' C C' A old new B) (hv : Volume n s.dev L) (hd : d ∈ L.dirs)
    (hne : firstBlk d ≠ s.currentDirBlk) (hg : firstBlk d ∉ call.dropped old) :
    dirLook n s'.dev (firstBlk d) = dirLook n s.dev (firstBlk d) := by
  obtain ⟨hd', -, hE⟩ := (h.isolated hv).dirs d hd hne hg
  rw [h.sys.volume.dirLook_eq hd', hv.dirLook_eq hd, hE]
  exact toMap_congr fun x hx => h.node_eq hv (.inr ⟨d, hd, hne, hx⟩)

theorem DirOp.look_before (h : DirOp e n L call s s' L' C C' A old new B) (hv : Volume n s.dev L) :
    dirLook n s.dev s.currentDirBlk = toMap DirItem.key (DirItem.node n s.dev) (A ++ old ++ B) := by
  rw [← h.head, hv.dirLook_eq h.mem, h.before]

theorem DirOp.look_after (h : DirOp e n L call s s' L' C C' A old new B) :
    dirLook n s'.dev s.currentDirBlk = toMap DirItem.key (DirItem.node n s'.dev) (A ++ new ++ B) := by
  rw [← h.head', h.sys.volume.dirLook_eq h.mem', h.after]

/-- A directory the call drops is one right below the current one. -/
theorem DirOp.dropped_below (h : DirOp e n L call s s' L' C C' A old new B) (hv : Volume n s.dev L)
    (hp : dirAt (dirLook n s.dev) rootDirBlk p = some s.currentDirBlk) (hq : dirAt (dirLook n s.dev) rootDirBlk q =
    some c)
    (hc : c ∈ call.dropped old) : ∃ k, q = p ++ [k] := by
  obtain ⟨x, hx, hxc⟩ := List.mem_flatMap.mp (DirCall.dropped_sub hc)
  have hxC : x ∈ entries s.dev C := by
    rw [h.before]
    simp [hx]
  obtain ⟨d, hd, hhead⟩ := hv.dirAt_mem hq
  rcases List.eq_nil_or_concat' q with rfl | ⟨r, k, rfl⟩
  · cases hq
    rcases List.mem_append.mp hxc with hxc | hxc
    · rw [DirItem.dirHead] at hxc
      split at hxc
      · exact absurd (List.mem_singleton.mp hxc).symm (hv.ne_root h.mem hxC ‹_›)
      · simp at hxc
    · have hnd := heads_append L.dirs L.files ▸ hv.heads_nodup
      have hfile : rootDirBlk ∈ heads L.files :=
        hv.fileHeads.mem_iff.mpr (List.mem_flatMap.mpr ⟨x, List.mem_flatMap.mpr ⟨C, h.mem, hxC⟩, hxc⟩)
      exact absurd rfl ((List.nodup_append.mp hnd).2.2 _ hv.root_mem _ hfile)
  · obtain ⟨a, ha, hk⟩ := dirAt_snoc.mp hq
    obtain ⟨d', hd', rfl⟩ := hv.dirAt_mem ha
    obtain ⟨y, hy, rfl, hty, rfl⟩ := dirLook_inl hk
    rw [hv.follow_dir hd'] at hy
    obtain rfl : x = y := hv.entry_unique (List.mem_flatMap.mpr ⟨C, h.mem, hxC⟩) (List.mem_flatMap.mpr ⟨d', hd', hy⟩)
      hxc (mem_dirHead hty)
    have hcur : firstBlk d' = s.currentDirBlk := by
      rw [← (hv.tree d' hd' x hy hty).1, (hv.tree C h.mem x hxC hty).1, h.head]
    exact ⟨x.key, by rw [hv.onePlace r p _ ha (hcur ▸ hp)]⟩

/-- The tree changes at the path of the current directory only. -/
theorem DirOp.tree_edit (h : DirOp e n L call s s' L' C C' A old new B) (hv : Volume n s.dev L)
    (hp : dirAt (dirLook n s.dev) rootDirBlk p = some s.currentDirBlk) :
    dirAt (dirLook n s'.dev) rootDirBlk p = some s.currentDirBlk ∧
      volumeTree n s'.dev = (volumeTree n s.dev).graft p (span (dirLook n s'.dev) s.currentDirBlk) := by
  refine span_edit hp fun q c hq hpq => ?_
  obtain ⟨d, hd, rfl⟩ := hv.dirAt_mem hq
  refine h.look_other hv hd (fun hcur => hpq ?_) fun hg => hpq ?_
  · rw [hv.onePlace q p _ hq (hcur ▸ hp)]
  · obtain ⟨k, rfl⟩ := h.dropped_below hv hp hq hg
    exact List.prefix_append p [k]

/-- A directory below the current one that is not dropped keeps its tree. -/
theorem DirOp.sub_tree (h : DirOp e n L call s s' L' C C' A old new B) (hv : Volume n s.dev L)
    (hp : dirAt (dirLook n s.dev) rootDirBlk p = some s.currentDirBlk)
    (hc : dirLook n s.dev s.currentDirBlk k = some (.inl c)) (hg : c ∉ call.dropped old) :
    span (dirLook n s'.dev) c = span (dirLook n s.dev) c := by
  refine span_congr fun q b hq => ?_
  have hpq : dirAt (dirLook n s.dev) rootDirBlk (p ++ k :: q) = some b := by
    rw [dirAt_append, hp, Option.bind_some, dirAt_cons hc, hq]
  obtain ⟨d, hd, rfl⟩ := hv.dirAt_mem hpq
  refine h.look_other hv hd (fun hcur => ?_) fun hdrop => ?_
  · have heq := hv.onePlace _ p _ hpq (hcur ▸ hp)
    exact absurd (List.append_right_eq_self.mp heq) (List.cons_ne_nil k q)
  · obtain ⟨j, hj⟩ := h.dropped_below hv hp hpq hdrop
    obtain ⟨rfl, rfl⟩ := List.cons.inj (List.append_cancel_left hj)
    cases hq
    exact hg hdrop

end TinyFs
