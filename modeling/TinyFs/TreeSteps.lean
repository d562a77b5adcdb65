/-
Every call of the basic API is a step of the file system its callers see. `Shows`
relates a state to a `FileSys`: the volume is tidy, no directory holds a name twice,
the tree is the one on the medium, and the path leads to the current directory.
-/
import TinyFs.FileTree
import TinyFs.TravelPath

namespace TinyFs

open Bytes Chains KeyMap NameTree

variable {e : Env} {n b : Nat} {s s' : State} {L L' : Layout} {fs fs' : FileSys} {C C' : List Nat}
  {A old new B : List DirItem}
  {x y : DirItem} {k : Name} {p : List Name} {c : DirCall} {name data : List UInt8} {len pos : Nat}

/-- The state holds the file system `fs`. -/
structure Shows (e : Env) (n : Nat) (s : State) (L : Layout) (fs : FileSys) : Prop extends Tidy e n s L where
  distinct : ∀ d ∈ L.dirs, DistinctNames (entries s.dev d)
  tree : volumeTree n s.dev = fs.tree
  cwd : dirAt (dirLook n s.dev) rootDirBlk fs.cwd = some s.currentDirBlk
  err : s.tfsLastError = fs.err
  full : s.tfsLastError = .diskFull → Full n s.dev

theorem Shows.get (hs : Shows e n s L fs) (name : List UInt8) :
    fs.get name = entryNode (dirLook n s.dev s.currentDirBlk (nameKey name)) := by
  rw [FileSys.get, FileSys.path, ← hs.tree]
  exact span_snoc hs.cwd (nameKey name)

/-- A call that only moves to another directory. -/
theorem Shows.moved (hs : Shows e n s L fs) (h : Stays n s s' L)
    (hp : dirAt (dirLook n s.dev) rootDirBlk p = some s'.currentDirBlk) :
    Shows e n s' L { fs with cwd := p, err := s'.tfsLastError } where
  sys := h.sys
  tight := hs.tight
  upLinks := hs.upLinks
  compact := h.dev ▸ hs.compact
  idle := fun ⟨fd, hfd, hne⟩ => hs.idle ⟨fd, hfd, h.handles ▸ hne⟩
  distinct := h.dev ▸ hs.distinct
  tree := h.dev ▸ hs.tree
  cwd := h.dev ▸ hp
  err := rfl
  full := fun herr => h.dev ▸ hs.full (h.full herr)

/-- A call that changes neither the medium nor the directory. -/
theorem Shows.stays (hs : Shows e n s L fs) (h : Stays n s s' L) (hcur : s'.currentDirBlk = s.currentDirBlk) :
    Shows e n s' L (fs.fail s'.tfsLastError) :=
  hs.moved h (hcur ▸ hs.cwd)

/-! ## Entries -/

theorem look_miss {val : DirItem → Nat ⊕ FileNode} {E : List DirItem} (h : Miss strncmpName name E) :
    toMap DirItem.key val E (nameKey name) = none :=
  toMap_eq_none.mpr fun x hx => (strncmpName_eq_false name x.name).mp (h x hx)

theorem look_hit {val : DirItem → Nat ⊕ FileNode} (h : Hit strncmpName name A x) :
    toMap DirItem.key val (A ++ x :: B) (nameKey name) = some (val x) := by
  rw [← h.key_eq]
  exact toMap_hit h.key_ne

theorem Shows.get_miss (hs : Shows e n s L fs) (h : DirOp e n L c s s' L' C C' A old new B)
    (hm : Miss strncmpName name (A ++ old ++ B)) : fs.get name = none := by
  rw [hs.get, h.look_before hs.sys.volume, look_miss hm]
  rfl

theorem Shows.get_hit {A' B' : List DirItem} (hs : Shows e n s L fs) (h : DirOp e n L c s s' L' C C' A old new B)
    (hx : Hit strncmpName name A' x) (hE : A ++ old ++ B = A' ++ x :: B') :
    fs.get name = entryNode (some (x.node n s.dev)) := by
  rw [hs.get, h.look_before hs.sys.volume, hE, look_hit hx]

theorem entryNode_dir {dev : Nat → Block} (h : x.type = itemDir) : entryNode (some (x.node n dev)) = some .dir := by
  rw [DirItem.node_dir h]
  rfl

theorem entryNode_leaf {dev : Nat → Block} (h : x.type ≠ itemDir) :
    entryNode (some (x.node n dev)) = some (.leaf ⟨x.type, x.size, x.bytes n dev⟩) := by
  rw [DirItem.node_file h]
  rfl

/-! ## The tree after a call -/

theorem DirOp.look_kept (h : DirOp e n L c s s' L' C C' A old new B) (hv : Volume n s.dev L) :
    toMap DirItem.key (DirItem.node n s'.dev) (A ++ B) = toMap DirItem.key (DirItem.node n s.dev) (A ++ B) :=
  toMap_congr fun _ hx => h.node_eq hv (.inl hx)

/-- A call that changes no entry. -/
theorem DirOp.tree_same (h : DirOp e n L c s s' L' C C' A [] [] B) (hv : Volume n s.dev L) :
    volumeTree n s'.dev = volumeTree n s.dev := by
  refine span_congr fun q b hq => ?_
  obtain ⟨d, hd, rfl⟩ := hv.dirAt_mem hq
  by_cases hcur : firstBlk d = s.currentDirBlk
  · rw [hcur, h.look_after, h.look_before hv, List.append_nil, h.look_kept hv]
  · exact h.look_other hv hd hcur (by simp)

/-- An entry that stays is not one whose chain is dropped. -/
theorem DirOp.dropped_key (h : DirOp e n L c s s' L' C C' A old new B) (hv : Volume n s.dev L)
    (hk : dirLook n s.dev s.currentDirBlk k = some (.inl b)) (hb : b ∈ c.dropped old) : ∃ x ∈ old, x.key = k := by
  obtain ⟨x, hx, hxb⟩ := List.mem_flatMap.mp (DirCall.dropped_sub hb)
  have hxC : x ∈ entries s.dev C := by
    rw [h.before]
    simp [hx]
  obtain ⟨y, hy, rfl, ht, rfl⟩ := dirLook_inl hk
  rw [← h.head, hv.follow_dir h.mem] at hy
  obtain rfl : x = y := hv.entry_unique (List.mem_flatMap.mpr ⟨C, h.mem, hxC⟩) (List.mem_flatMap.mpr ⟨C, h.mem, hy⟩) hxb
    (mem_dirHead ht)
  exact ⟨x, hx, rfl⟩

/-- A call that changes the meaning of one name. -/
theorem DirOp.tree_put {v : Option (Nat ⊕ FileNode)} (h : DirOp e n L c s s' L' C C' A old new B) (hv : Volume n s.dev L)
    (hp : dirAt (dirLook n s.dev) rootDirBlk p = some s.currentDirBlk)
    (hlook : dirLook n s'.dev s.currentDirBlk = Function.update (dirLook n s.dev s.currentDirBlk) k v)
    (hold : ∀ x ∈ old, x.key = k) :
    volumeTree n s'.dev = (volumeTree n s.dev).graft (p ++ [k]) (entryTree (dirLook n s'.dev) v) := by
  have hspan := span_update hlook fun j hj b hb => h.sub_tree hv hp hb fun hdrop => by
    obtain ⟨x, hx, rfl⟩ := h.dropped_key hv hb hdrop
    exact hj (hold x hx)
  rw [(h.tree_edit hv hp).2, hspan, ← span_below hp]
  exact Tree.graft_graft_below _ _ _ _

theorem DirOp.look_insert (h : DirOp e n L c s s' L' C C' A [] [y] B) (hv : Volume n s.dev L)
    (hm : Miss strncmpName name (A ++ [] ++ B)) (hy : y.name = Block.padName name) : dirLook n s'.dev s.currentDirBlk =
      Function.update (dirLook n s.dev s.currentDirBlk) (nameKey name) (some (y.node n s'.dev)) := by
  have hkey : y.key = nameKey name := by rw [DirItem.key, hy, nameKey_padName]
  rw [List.append_nil] at hm
  rw [h.look_after, h.look_before hv, List.append_nil, ← h.look_kept hv, List.append_assoc, List.singleton_append,
    toMap_insert, hkey]
  intro z hz
  rw [hkey]
  exact (strncmpName_eq_false name z.name).mp (hm z (List.mem_append_left _ hz))

theorem DirOp.look_erase (h : DirOp e n L c s s' L' C C' A [x] [] B) (hv : Volume n s.dev L)
    (hd : DistinctNames (A ++ [x] ++ B)) :
    dirLook n s'.dev s.currentDirBlk = Function.update (dirLook n s.dev s.currentDirBlk) x.key none := by
  rw [List.append_assoc, List.singleton_append] at hd
  rw [h.look_after, h.look_before hv, List.append_nil, h.look_kept hv, List.append_assoc, List.singleton_append]
  exact toMap_erase hd

theorem DirOp.look_replace (h : DirOp e n L c s s' L' C C' A [x] [y] B) (hv : Volume n s.dev L)
    (hd : DistinctNames (A ++ [x] ++ B)) (hy : y.key = x.key) : dirLook n s'.dev s.currentDirBlk =
      Function.update (dirLook n s.dev s.currentDirBlk) x.key (some (y.node n s'.dev)) := by
  rw [List.append_assoc, List.singleton_append] at hd
  have hne : ∀ z ∈ A, z.key ≠ x.key := fun z hz => hd.ne z (List.mem_append_left _ hz)
  rw [h.look_after, h.look_before hv, List.append_assoc, List.append_assoc, List.singleton_append, List.singleton_append,
    toMap_insert (x := y) (fun z hz => hy ▸ hne z hz), h.look_kept hv, toMap_erase hd, hy,
    Function.update_idem]

/-- A renamed entry takes its part of the tree along. -/
theorem DirOp.tree_move {fromName toName : List UInt8} (h : DirOp e n L (.rename fromName toName) s s' L' C C' A [x]
    [y] B) (hv : Volume n s.dev L) (hp : dirAt (dirLook n s.dev) rootDirBlk p = some s.currentDirBlk)
    (hd : DistinctNames (A ++ [x] ++ B)) (hx : x.key = nameKey fromName) (hm : Miss strncmpName toName (A ++ [x] ++ B))
    (hy : y = { x with name := Block.padName toName }) : volumeTree n s'.dev =
      ((volumeTree n s.dev).graft (p ++ [nameKey fromName]) .none).graft (p ++ [nameKey toName])
        ((volumeTree n s.dev).below (p ++ [nameKey fromName])) := by
  have hykey : y.key = nameKey toName := by rw [hy, DirItem.key, nameKey_padName]
  have hsub : ∀ j b, dirLook n s.dev s.currentDirBlk j = some (.inl b) → span (dirLook n s'.dev) b = span
      (dirLook n s.dev) b :=
    fun j b hb => h.sub_tree hv hp hb (by simp [DirCall.dropped])
  have hflat : A ++ [x] ++ B = A ++ x :: B := by simp
  rw [hflat] at hd hm
  have hne : ∀ z ∈ A ++ B, z.key ≠ nameKey toName := fun z hz =>
    (strncmpName_eq_false toName z.name).mp (hm z (by
      rcases List.mem_append.mp hz with hz | hz <;> simp [hz]))
  -- the two stores into the map of the directory
  have hfrom : dirLook n s.dev s.currentDirBlk (nameKey fromName) = some (x.node n s.dev) := by
    rw [h.look_before hv, hflat, ← hx]
    exact toMap_hit fun z hz => hd.ne z (List.mem_append_left _ hz)
  have hlook : dirLook n s'.dev s.currentDirBlk = Function.update
      (Function.update (dirLook n s.dev s.currentDirBlk) (nameKey fromName) none) (nameKey toName)
        (some (y.node n s'.dev)) := by
    rw [h.look_after, h.look_before hv, hflat, List.append_assoc, List.singleton_append, toMap_insert, h.look_kept hv,
      hykey,
      toMap_erase hd, hx]
    exact fun z hz => hykey ▸ hne z (List.mem_append_left _ hz)
  have hxC : x ∈ entries s.dev C := by
    rw [h.before]
    simp
  have hnode : y.node n s'.dev = x.node n s.dev := by
    rw [hy, DirItem.node_name]
    exact h.node_kept hv h.mem hxC fun b _ => by simp [DirCall.dropped]
  have hbelow : entryTree (dirLook n s'.dev) (some (y.node n s'.dev)) =
      (span (dirLook n s.dev) s.currentDirBlk).below [nameKey fromName] := by
    rw [← entryTree_below, hfrom, hnode]
    rcases hx : x.node n s.dev with b | f
    · rw [entryTree_dir, entryTree_dir, hsub _ b (by rw [hfrom, hx])]
    · rw [entryTree_leaf, entryTree_leaf]
  rw [(h.tree_edit hv hp).2, span_move hlook hsub, hbelow, ← span_below hp, Tree.below_append]
  exact Tree.graft_twice_below _ _ _ _ _ _

/-- A directory that was just created is empty. -/
theorem DirOp.newDir_tree {name : List UInt8} (h : DirOp e n L (.createDir name) s s' L' C C' A [] [newDir name b] B)
    (hv : Volume n s.dev L) : entryTree (dirLook n s'.dev) (some ((newDir name b).node n s'.dev)) = Tree.emptyDir := by
  have hnode : (newDir name b).node n s'.dev = .inl b := DirItem.node_dir rfl
  have hnew : newDir name b ∈ entries s'.dev C' := by
    rw [h.after]
    simp
  obtain ⟨d, hd, hhead⟩ := mem_heads (h.sys.volume.mem_dirs h.mem' hnew rfl)
  have hmem : b ∈ [newDir name b].flatMap fun x => x.dirHead ++ x.fileHead := by
    simp [newDir, DirItem.dirHead]
  have hempty : entries s'.dev d = [] := by
    by_cases hcur : firstBlk d = s.currentDirBlk
    · -- the current directory is not the entry of itself
      have htree := (h.sys.volume.tree C' h.mem' _ hnew rfl).2
      rw [h.head', ← hhead, hcur] at htree
      exact absurd htree (Nat.lt_irrefl _)
    · rcases h.dirs_from d hd hcur with ⟨hd', -⟩ | ⟨hnil, -⟩
      · -- it would be the entry of a directory that was there, and of the new entry
        rcases hv.head_cases hd' with hroot | ⟨d', hd', y, hy, ht, hyb⟩
        · exact absurd (hhead.symm.trans hroot) (h.sys.volume.ne_root h.mem' hnew rfl)
        · refine absurd hmem (h.sys.volume.starts_apart h.mem' h.after ?_ (hyb.trans hhead ▸ mem_dirHead ht))
          by_cases hcur' : firstBlk d' = s.currentDirBlk
          · rw [← hv.follow_dir hd', hcur', ← h.head, hv.follow_dir h.mem, h.before, List.append_nil] at hy
            exact .inl hy
          · obtain ⟨hd'', -, hE⟩ := (h.isolated hv).dirs d' hd' hcur' (by simp)
            exact .inr ⟨d', hd'', h.head'.symm ▸ hcur', hE.symm ▸ hy⟩
      · exact hnil
  rw [hnode, entryTree_dir]
  refine span_empty ?_
  funext k
  show dirLook n s'.dev b k = none
  rw [show b = firstBlk d from hhead.symm, h.sys.volume.dirLook_eq hd, hempty]
  rfl

end TinyFs
