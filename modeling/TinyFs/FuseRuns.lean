/-
The FUSE driver serves the file system behind the mount point: each operation on paths
does a step of it and gives its reply, whatever error the operation before has left, and
so does every run of them from a freshly formatted volume on.
-/
import TinyFs.FuseTree

namespace TinyFs

open Bytes Chains KeyMap NameTree Fuse

variable {e : Env} {n : Nat} {s s' : State} {L : Layout} {fs fs' : FileSys} {name tok path newpath : List UInt8}
  {names : List (List UInt8)} {m m' : Mount} {op : MountOp} {c : DirCall}

/-- The state holds the file system, in whatever blocks. -/
def Carries (e : Env) (n : Nat) (s : State) (fs : FileSys) : Prop := ∃ L, Shows e n s L fs

/-! ## Walking a path -/

/-- The names lead from the current directory to another, one inside the other. -/
def FileSys.IsBelow (fs : FileSys) (names : List (List UInt8)) : Prop :=
  (∀ name ∈ names, name.length ≤ nameLen) ∧ fs.tree (fs.cwd ++ names.map nameKey) = some .dir

theorem FileSys.isBelow_cons :
    fs.IsBelow (name :: names) ↔ name.length ≤ nameLen ∧ FileSys.IsBelow { fs with cwd := fs.path name } names := by
  rw [IsBelow, IsBelow, List.forall_mem_cons, and_assoc, path, List.append_assoc]
  rfl

theorem Carries.below_nil (hs : Carries e n s fs) : fs.IsBelow [] := by
  obtain ⟨L, hs⟩ := hs
  refine ⟨fun _ h => absurd h List.not_mem_nil, ?_⟩
  rw [← hs.tree, List.map_nil, List.append_nil]
  exact span_eq_dir.mpr ⟨_, hs.cwd⟩

/-- The first name on the way is that of a directory. -/
theorem Carries.below_get (hs : Carries e n s fs) (h : fs.IsBelow (name :: names)) : fs.get name = some .dir := by
  obtain ⟨L, hs⟩ := hs
  have hdir := h.2
  rw [← hs.tree, List.map_cons, List.append_cons] at hdir
  rw [FileSys.get, ← hs.tree]
  exact span_above hdir

/-- How the loop of `travel_path` ends, given the part of the path it has not cut yet. -/
inductive Fuse.Walked (e : Env) (n : Nat) (fs : FileSys) (path : List UInt8) : Option (List UInt8) → State → Prop
  | found {s' : State} : fs.IsBelow (dirNames path) →
      Carries e n s' { fs with cwd := fs.cwd ++ (dirNames path).map nameKey } → Walked e n fs path
        (some (lastName path)) s'
  | lost {s' : State} {p : List Name} :
      ¬ fs.IsBelow (dirNames path) → Carries e n s' { fs with cwd := p, err := .notExist } →
      Walked e n fs path none s'

theorem Fuse.Walked.here (hs : Carries e n s fs) (h : slash ∉ tok) : Walked e n fs tok (some tok) s := by
  have hfound : Walked e n fs tok (some (lastName tok)) s := by
    refine .found ?_ ?_
    · rw [dirNames_last h]
      exact hs.below_nil
    · rw [dirNames_last h, List.map_nil, List.append_nil]
      exact hs
  rwa [lastName_last h] at hfound

/-- An empty component. -/
theorem Fuse.Walked.slash {r : Option (List UInt8)} (h : Walked e n fs path r s') :
    Walked e n fs (Fuse.slash :: path) r s' := by
  have hdirs : dirNames (Fuse.slash :: path) = dirNames path := dirNames_slash List.not_mem_nil path
  cases h with
  | found hdir hs =>
    rw [← show lastName (Fuse.slash :: path) = lastName path from lastName_slash List.not_mem_nil path]
    exact .found (hdirs ▸ hdir) (hdirs ▸ hs)
  | lost hno hs => exact .lost (hdirs ▸ hno) hs

/-- A component that is the name of a directory. -/
theorem Fuse.Walked.enter {r : Option (List UInt8)} (hno : Fuse.slash ∉ tok) (htok : tok ≠ [])
    (hlen : tok.length ≤ nameLen)
    (h : Walked e n { fs with cwd := fs.path tok } path r s') : Walked e n fs (tok ++ Fuse.slash :: path) r s' := by
  have hdirs : dirNames (tok ++ Fuse.slash :: path) = tok :: dirNames path := by rw [dirNames_slash hno, if_neg htok]
  cases h with
  | found hdir hs =>
    rw [← lastName_slash hno]
    refine .found (hdirs ▸ FileSys.isBelow_cons.mpr ⟨hlen, hdir⟩) ?_
    rw [hdirs, List.map_cons, List.append_cons]
    exact hs
  | lost hnot hs => exact .lost (fun hdir => hnot (FileSys.isBelow_cons.mp (hdirs ▸ hdir)).2) hs

theorem Carries.err (hs : Carries e n s fs) : s.tfsLastError = fs.err := by
  obtain ⟨L, hs⟩ := hs
  exact Shows.err hs

/-- `tfs_change_dir` of a name that is not empty. -/
theorem Carries.enters (he : e.Plain n) (hs : Carries e n s fs) (hname : name.headD 0 ≠ 0) :
    ∃ s', tfsChangeDir e name s = some ((), s') ∧
    ((fs.get name = some .dir ∧ Carries e n s' { fs with cwd := fs.path name, err := .ok }) ∨
      (fs.get name ≠ some .dir ∧ Carries e n s' (fs.fail .notExist))) := by
  obtain ⟨L, hs⟩ := hs
  obtain ⟨s', hrun, L', fs', hstep, hs'⟩ := hs.changeDir he.never he.fuel he.cmp name
  refine ⟨s', hrun, ?_⟩
  cases hstep
  change Shows e n s' L' (fs.changeDir name) at hs'
  rw [FileSys.changeDir, if_neg hname] at hs'
  rcases hget : fs.get name with - | (- | f)
  · rw [hget] at hs'
    exact .inr ⟨by simp, L', hs'⟩
  · rw [hget] at hs'
    exact .inl ⟨rfl, L', hs'⟩
  · rw [hget] at hs'
    exact .inr ⟨by simp, L', hs'⟩

theorem Carries.tooLong (hs : Carries e n s fs) :
    Carries e n { s with tfsLastError := .notExist } (fs.fail .notExist) := by
  obtain ⟨L, hs⟩ := hs
  have h : Stays n s { s with tfsLastError := .notExist } L :=
    ⟨⟨hs.sys.mounted, hs.sys.cache, hs.sys.volume, hs.sys.cur, Err.noConfusion⟩, rfl, rfl, Err.noConfusion⟩
  exact ⟨L, hs.stays h rfl⟩

/-- The loop of `travel_path` walks down the tree. -/
theorem travelRule_carries (he : e.Plain n) : TravelRule e (fun fs s => Carries e n s fs ∧ fs.err = .ok)
    (Walked e n) := by
  refine ⟨fun hs hno => .here hs.1 hno, fun hend => hend.slash, ?_, ?_⟩
  · rintro fs s tok path ⟨hs, -⟩ hno htok hlong
    refine .lost (fun hdir => ?_) hs.tooLong
    rw [dirNames_slash hno, if_neg htok, FileSys.isBelow_cons] at hdir
    omega
  · rintro fs s tok ⟨hs, herr⟩ hno hname htok hlen
    obtain ⟨s₁, hrun₁, ⟨hget, hs₁⟩ | ⟨hget, hs₁⟩⟩ := hs.enters he hname
    · refine ⟨s₁, hrun₁, .inl ⟨hs₁.err, _, ⟨hs₁, rfl⟩, fun hend => .enter hno htok hlen ?_⟩⟩
      rw [herr]
      exact hend
    · refine ⟨s₁, hrun₁, .inr ⟨by rw [hs₁.err]; exact Err.noConfusion, fun path => .lost (fun hdir => ?_) hs₁⟩⟩
      rw [dirNames_slash hno, if_neg htok] at hdir
      exact hget (hs.below_get hdir)

theorem Carries.travelLoop (he : e.Plain n) (hs : Carries e n s fs) (herr : fs.err = .ok) {cs : List UInt8}
    (hno : slash ∉ tok)
    (hz : ∀ x ∈ tok ++ cs, x ≠ 0) : ∃ r s', travelLoop e tok cs s = some (r, s') ∧ Walked e n fs (tok ++ cs) r s' :=
  (travelRule_carries he).loop ⟨hs, herr⟩ hno hz

/-- How `travel_path` ends. -/
inductive Fuse.Arrived (e : Env) (n : Nat) (m : Mount) (path : List UInt8) : Option (List UInt8) → State → Prop
  | found {s' : State} {fs' : FileSys} : m.locate path = .ok fs' → Carries e n s' fs' →
      Arrived e n m path (some (lastName (cstr path))) s'
  | lost {s' : State} {err : Err} {fs' : FileSys} : m.locate path = .error err → Carries e n s' fs' →
      fs'.mount = { m with err := err } → Arrived e n m path none s'

theorem Fuse.cstr_slash (h : path.headD 0 = slash) : ∃ rest, cstr path = slash :: rest ∧ ∀ x ∈ rest, x ≠ 0 := by
  cases path with
  | nil => cases h
  | cons x xs =>
    obtain rfl : x = slash := h
    exact ⟨cstr xs, cstr_cons (by decide) xs, fun x hx => by simpa using List.mem_takeWhile_imp hx⟩

theorem Carries.atRoot (hs : Carries e n s fs) :
    ∃ s', tfsChangeDirRoot s = some ((), s') ∧ Carries e n s' { fs with cwd := [] } := by
  obtain ⟨L, hs⟩ := hs
  obtain ⟨s', hrun, L', fs', hstep, hs'⟩ := hs.changeDirRoot
  cases hstep
  exact ⟨s', hrun, L', hs'⟩

/-- **`travel_path` finds the directory of the last name, or its error**, be it one that was there before. -/
theorem Carries.travelPath (he : e.Plain n) (hs : Carries e n s fs) (habs : path.headD 0 = slash) :
    ∃ r s', travelPath e path s = some (r, s') ∧ Arrived e n fs.mount path r s' := by
  obtain ⟨s₁, hroot, hs₁⟩ := hs.atRoot
  rw [Fuse.travelPath, if_pos habs, Prog.bind_some hroot]
  by_cases herr : fs.err = .ok
  · obtain ⟨rest, hpath, hz⟩ := cstr_slash habs
    have hz' : ∀ x ∈ [] ++ rest, x ≠ 0 := by simpa using hz
    obtain ⟨r, s', hrun, hend⟩ := hs₁.travelLoop he herr List.not_mem_nil hz'
    refine ⟨r, s', ?_, ?_⟩
    · rw [ifOk_ok (hs₁.err.trans herr), hpath]
      exact hrun
    have hend := hend.slash
    rw [List.nil_append, ← hpath] at hend
    cases hend with
    | found hdir hs' =>
      refine .found (Mount.locate_dir herr hdir) ?_
      rw [Mount.inDir, FileSys.mount, ← herr]
      exact hs'
    | lost hno hs' => exact .lost (Mount.locate_lost herr hno) hs' rfl
  · refine ⟨none, s₁, ifOk_err (by rw [hs₁.err]; exact herr), ?_⟩
    exact .lost (Mount.locate_stale herr) hs₁ rfl

/-! ## The operations -/

/-- The operation did a step of the mounted file system. -/
def Fuse.Served (e : Env) (n : Nat) (m : Mount) (op : MountOp) (r : Reply) (s' : State) : Prop :=
  ∃ fs', Mount.Step m op r fs'.mount ∧ Carries e n s' fs'

/-- What is common to the operations on a path. -/
theorem Carries.withPath {α : Type} {fail : Int → α} {body : List UInt8 → M α} {reply : α → Reply} (he : e.Plain n)
    (hs : Carries e n s fs) (op : MountOp) (habs : op.Absolute) (htravels : op.travels)
    (hfail : ∀ code, reply (fail code) = op.fail code)
    (hbody : ∀ fs₁ s₁, fs.mount.locate op.path = .ok fs₁ → (lastName (cstr op.path)).length ≤ nameLen →
    Carries e n s₁ fs₁ →
      ∃ a s', body (lastName (cstr op.path)) s₁ = some (a, s') ∧ Served e n fs.mount op (reply a) s') :
    ∃ a s', Fuse.withPath e op.path fail body s = some (a, s') ∧ Served e n fs.mount op (reply a) s' := by
  obtain ⟨r, s₁, hrun, harr⟩ := hs.travelPath he habs
  rw [Fuse.withPath, Prog.bind_some hrun]
  cases harr with
  | found hloc hs₁ =>
    by_cases hlong : (lastName (cstr op.path)).length > nameLen
    · dsimp only
      rw [if_pos hlong]
      refine ⟨_, s₁, rfl, _, ?_, hs₁⟩
      rw [hfail, (Mount.locate_ok hloc).1]
      exact .long htravels hloc hlong
    · dsimp only
      rw [if_neg hlong]
      exact hbody _ s₁ hloc (by omega) hs₁
  | @lost _ err _ hloc hs₁ hmount =>
    have herr : s₁.tfsLastError = err := hs₁.err.trans (congrArg Mount.err hmount)
    refine ⟨fail (-errnoOf s₁.tfsLastError), s₁, rfl, _, ?_, hs₁⟩
    rw [hfail, herr, hmount]
    exact .lost htravels hloc

theorem Carries.edit (he : e.Plain n) (hs : Carries e n s fs) (c : DirCall) (hc : (Request.call (.onDir c)).Sized) :
    ∃ s', c.exec e s = some ((), s') ∧ ∃ fs', fs.Step (.call (.onDir c)) fs' ∧ Carries e n s' fs' := by
  obtain ⟨L, hs⟩ := hs
  obtain ⟨s', hrun, L', fs', hstep, hs'⟩ := Call.exec_shown he hs (.onDir c) hc
  exact ⟨s', hrun, fs', hstep, L', hs'⟩

/-- The code of an operation that ends with a call. -/
theorem Carries.finish (he : e.Plain n) (hs : Carries e n s fs) (c : DirCall) (hc : (Request.call (.onDir c)).Sized) :
    ∃ s' fs', Fuse.finish (c.exec e) s = some (-errnoOf fs'.err, s') ∧ fs.Step (.call (.onDir c)) fs' ∧
    Carries e n s' fs' := by
  obtain ⟨s', hrun, fs', hstep, hs'⟩ := hs.edit he c hc
  refine ⟨s', fs', ?_, hstep, hs'⟩
  rw [Fuse.finish, Prog.bind_some hrun, ← hs'.err]
  rfl

/-- The operations that are one call in the directory of the last name. -/
theorem Carries.edits (he : e.Plain n) (hs : Carries e n s fs) (op : MountOp) (f : List UInt8 → DirCall)
    (habs : op.Absolute) (htravels : op.travels) (hfail : ∀ code, Reply.code code = op.fail code)
    (hcall : ∀ name, op.call name = some (f name)) (hsized : ∀ name, (Request.call (.onDir (f name))).Sized) :
    ∃ code s', Fuse.withPath e op.path id (fun name => Fuse.finish ((f name).exec e)) s = some (code, s') ∧
      Served e n fs.mount op (.code code) s' := by
  refine hs.withPath he op habs htravels hfail fun fs₁ s₁ hloc hlen hs₁ => ?_
  obtain ⟨s', fs', hrun, hstep, hs'⟩ := hs₁.finish he (f (lastName (cstr op.path))) (hsized _)
  exact ⟨_, s', hrun, fs', .edit hloc hlen (hcall _) hstep, hs'⟩

theorem Carries.rename (he : e.Plain n) (hs : Carries e n s fs) (habs : path.headD 0 = slash) :
    ∃ code s', opRename e path newpath s = some (code, s') ∧ Served e n fs.mount (.rename path newpath)
    (.code code) s' := by
  refine hs.withPath he (.rename path newpath) habs trivial (fun _ => rfl) fun fs₁ s₁ hloc hlen hs₁ => ?_
  have hmount := (Mount.locate_ok hloc).1
  change fs.mount.locate path = .ok fs₁ at hloc
  generalize hold : lastName (cstr (MountOp.rename path newpath).path) = old at hlen ⊢
  change lastName (cstr path) = old at hold
  subst hold
  by_cases hpre : strncmpEq ((cstr path).length - (lastName (cstr path)).length) path newpath = true
  · by_cases hslash : slash ∈ (cstr newpath).drop ((cstr path).length - (lastName (cstr path)).length)
    · refine ⟨-einval, s₁, by simp [hpre, hslash], fs₁, ?_, hs₁⟩
      rw [hmount]
      refine .renameFar hloc hlen fun new hnew => ?_
      obtain ⟨-, rfl, hno⟩ := sibling_iff.mp hnew
      exact hno hslash
    have hsib : Sibling path newpath ((cstr newpath).drop ((cstr path).length - (lastName (cstr path)).length)) :=
      sibling_iff.mpr ⟨hpre, rfl, hslash⟩
    by_cases hlong : ((cstr newpath).drop ((cstr path).length - (lastName (cstr path)).length)).length > nameLen
    · refine ⟨-enametoolong, s₁, ?_, fs₁, ?_, hs₁⟩
      · simp only [hpre, Bool.not_true, Bool.false_eq_true, if_false, hslash, if_pos hlong]
        rfl
      rw [hmount]
      exact .renameLong hloc hlen hsib hlong
    · obtain ⟨s', fs', hrun, hstep, hs'⟩ := hs₁.finish he (.rename (lastName (cstr path)) _) trivial
      refine ⟨_, s', ?_, fs', .rename hloc hlen hsib (by omega) hstep, hs'⟩
      simp only [hpre, Bool.not_true, Bool.false_eq_true, if_false, hslash, hlong]
      exact hrun
  · refine ⟨-einval, s₁, by simp [hpre], fs₁, ?_, hs₁⟩
    rw [hmount]
    exact .renameFar hloc hlen fun new hnew => hpre (sibling_iff.mp hnew).1

/-! ## Looking -/

/-- `item_to_stat` tells what the item is in the tree. -/
theorem itemToStat_node (n : Nat) (dev : Nat → Block) (x : DirItem) : ∃ v, entryNode (some (x.node n dev)) = some v ∧
    itemToStat x Stat.zero = (nodeStat v).elim (1, Stat.zero) fun st => (0, st) := by
  rw [itemToStat]
  by_cases ht : x.type = itemDir
  · rw [if_pos ht]
    exact ⟨_, entryNode_dir ht, rfl⟩
  · rw [if_neg ht]
    refine ⟨_, entryNode_leaf ht, ?_⟩
    rw [nodeStat]
    split <;> rfl

theorem Carries.getattr (he : e.Plain n) (hs : Carries e n s fs) (habs : path.headD 0 = slash) :
    ∃ r s', opGetattr e path s = some (r, s') ∧ Served e n fs.mount (.getattr path) (.attr r) s' := by
  by_cases hroot : cstr path = [slash]
  · exact ⟨_, s, by rw [opGetattr, if_pos hroot]; rfl, fs, .root hroot, hs⟩
  rw [opGetattr, if_neg hroot]
  refine hs.withPath he (.getattr path) habs hroot (fun _ => rfl) fun fs₁ s₁ hloc hlen hs₁ => ?_
  obtain ⟨L, hs₁⟩ := hs₁
  obtain ⟨r, s', hrun, hs', hget⟩ := hs₁.stat he.never he.fuel he.cmp (lastName (cstr path))
  refine ⟨attrOf fs₁ (lastName (cstr path)), s', ?_, _, .getattr hroot hloc hlen, L, hs'⟩
  refine (Prog.bind_some hrun).trans ?_
  rw [checkError, Prog.gets_bind, hs'.err, FileSys.stat, attrOf]
  by_cases hname : (lastName (cstr path)).headD 0 = 0
  · rw [if_pos hname, if_pos hname]
    rfl
  rw [if_neg hname, if_neg hname, if_neg (show ¬ -errnoOf (fs₁.fail .ok).err < 0 by exact Int.lt_irrefl 0),
    blkBuf_bind, hget hname]
  cases r with
  | none => rfl
  | some i =>
    obtain ⟨v, hnode, hstat⟩ := itemToStat_node n s₁.dev (s'.blkBuf.item i)
    rw [Option.map_some, hnode]
    show some (itemToStat (s'.blkBuf.item i) Stat.zero, s') = _
    rw [hstat]

theorem fillerItem_node (n : Nat) (dev : Nat → Block) (x : DirItem) :
    fillerItem x = ((entryNode (some (x.node n dev))).bind nodeStat).map fun st => (cstr x.name, st) := by
  obtain ⟨v, hnode, hstat⟩ := itemToStat_node n dev x
  rw [fillerItem, hstat, hnode, Option.bind_some]
  cases nodeStat v <;> rfl

/-- Free items are not listed. -/
theorem fillerItem_live {x : DirItem} {r : List UInt8 × Stat} (h : fillerItem x = some r) : x.live = true := by
  by_contra hlive
  have hfree : x.type = itemFree := by simpa [DirItem.live] using hlive
  rw [fillerItem, itemToStat, hfree] at h
  cases h

/-- The name an item is listed under tells its key. -/
theorem itemAt_name (dev : Nat → Block) (q : Nat × Nat) : cstr (itemAt dev q).name = cstr (itemAt dev q).key := by
  show _ = cstr (padTo nameLen _)
  rw [cstr_padTo, List.take_of_length_le]
  refine Nat.le_trans (List.takeWhile_prefix _).length_le ?_
  show ((dev q.1).slice _ nameLen).length ≤ nameLen
  rw [Buf.slice_length]

theorem mem_entries_item {dev : Nat → Block} {C : List Nat} {x : DirItem} (h : x ∈ entries dev C) :
    ∃ q, x = itemAt dev q := by
  obtain ⟨q, -, rfl⟩ := List.mem_map.mp (List.mem_filter.mp h).1
  exact ⟨q, rfl⟩

/-- What `tfs_dir_handler` makes of the items of the current directory. -/
theorem Shows.fills (hs : Shows e n s L fs) {C : List Nat} (hC : C ∈ L.dirs) (hcur : firstBlk C = s.currentDirBlk) :
    Lists fs ((items s.dev C).filterMap fillerItem) := by
  have hdist : ((entries s.dev C).map DirItem.key).Nodup := hs.distinct C hC
  have hname : ∀ x ∈ entries s.dev C, cstr x.name = cstr x.key := fun x hx => by
    obtain ⟨q, rfl⟩ := mem_entries_item hx
    exact itemAt_name s.dev q
  have hlive : (items s.dev C).filterMap fillerItem = (entries s.dev C).filterMap fillerItem := by
    rw [← items_live, List.filterMap_filter]
    refine List.filterMap_congr fun x _ => ?_
    by_cases hx : x.live = true
    · rw [if_pos hx]
    · rw [if_neg hx, Option.eq_none_iff_forall_ne_some]
      exact fun r hr => hx (fillerItem_live hr)
  rw [hlive]
  refine ⟨?_, fun name st => ?_⟩
  · -- two names listed alike would have one key
    rw [List.Nodup, List.pairwise_map, List.pairwise_filterMap]
    refine (List.pairwise_map.mp hdist).imp_of_mem fun {x y} hx hy hne r hr r' hr' heq => hne ?_
    rw [fillerItem_node n s.dev, Option.map_eq_some_iff] at hr hr'
    obtain ⟨_, -, rfl⟩ := hr
    obtain ⟨_, -, rfl⟩ := hr'
    have heq : cstr x.name = cstr y.name := heq
    rw [DirItem.key, DirItem.key, ← nameKey_cstr x.name, heq, nameKey_cstr]
  · have hlevel : ∀ k, fs.tree (fs.cwd ++ [k]) = entryNode (toMap DirItem.key (DirItem.node n s.dev)
      (entries s.dev C) k) := by
      intro k
      rw [← hs.tree, ← hs.sys.volume.dirLook_eq hC, hcur]
      exact span_snoc hs.cwd k
    rw [List.mem_filterMap]
    constructor
    · rintro ⟨x, hx, hfill⟩
      rw [fillerItem_node n s.dev, Option.map_eq_some_iff] at hfill
      obtain ⟨st', hst, heq⟩ := hfill
      cases heq
      refine ⟨x.key, (hname x hx).symm, ?_⟩
      rw [hlevel, (hs.distinct C hC).toMap_eq.mpr ⟨x, hx, rfl, rfl⟩]
      exact hst
    · rintro ⟨k, rfl, hst⟩
      rw [hlevel] at hst
      rcases hk : toMap DirItem.key (DirItem.node n s.dev) (entries s.dev C) k with - | v
      · rw [hk] at hst
        cases hst
      · obtain ⟨x, hx, rfl, rfl⟩ := toMap_mem hk
        rw [hk] at hst
        refine ⟨x, hx, ?_⟩
        rw [fillerItem_node n s.dev, hst, hname x hx]
        rfl

theorem Carries.changeDir (he : e.Plain n) (hs : Carries e n s fs) (name : List UInt8) :
    ∃ s', tfsChangeDir e name s = some ((), s') ∧ Carries e n s' (fs.changeDir name) := by
  obtain ⟨L, hs⟩ := hs
  obtain ⟨s', hrun, L', fs', hstep, hs'⟩ := hs.changeDir he.never he.fuel he.cmp name
  cases hstep
  exact ⟨s', hrun, L', hs'⟩

theorem errnoOf_eq_zero (err : Err) : -errnoOf err = 0 ↔ err = .ok := by
  cases err <;> decide

/-- A change of the directory changes nothing else. -/
theorem FileSys.changeDir_tree (fs : FileSys) (name : List UInt8) : (fs.changeDir name).tree = fs.tree := by
  rw [changeDir]
  split
  · rfl
  · split <;> rfl

/-- The listing of the directory one is at. -/
theorem Carries.lists (he : e.Plain n) (hs : Carries e n s fs) : ∃ xs s', (do
      let (_, items) ← tfsReadDir e fun _ => true
      let err ← checkError
      pure (err, items.filterMap fillerItem) : M (Int × List (List UInt8 × Stat))) s = some ((0, xs), s') ∧
    Carries e n s' (fs.fail .ok) ∧ Lists fs xs := by
  obtain ⟨L, hs⟩ := hs
  obtain ⟨C, hC, hcur, s', hrun, hs'⟩ := hs.readDir he.never he.fuel fun _ => true
  rw [offered_all fun _ => rfl, List.nil_append] at hrun
  refine ⟨_, s', ?_, ⟨L, hs'⟩, hs.fills hC hcur⟩
  rw [Prog.bind_some hrun]
  dsimp only
  rw [checkError, Prog.gets_bind, hs'.err]
  rfl

theorem Carries.readdir (he : e.Plain n) (hs : Carries e n s fs) (habs : path.headD 0 = slash) :
    ∃ r s', opReaddir e path s = some (r, s') ∧ Served e n fs.mount (.readdir path) (.entries r) s' := by
  refine hs.withPath he (.readdir path) habs trivial (fun _ => rfl) fun fs₁ s₁ hloc hlen hs₁ => ?_
  change fs.mount.locate path = .ok fs₁ at hloc
  generalize hlast : lastName (cstr (MountOp.readdir path).path) = name at hlen ⊢
  change lastName (cstr path) = name at hlast
  subst hlast
  obtain ⟨hmount, herr⟩ := Mount.locate_ok hloc
  have herr₁ : fs₁.err = .ok := (congrArg Mount.err hmount).trans herr
  by_cases hname : lastName (cstr path) = []
  · have hat : listed fs₁ (lastName (cstr path)) = fs₁ := if_pos hname
    obtain ⟨xs, s', hrun, hs', hxs⟩ := hs₁.lists he
    refine ⟨(0, xs), s', ?_, fs₁.fail .ok, ?_, hs'⟩
    · rw [if_neg (not_not.mpr hname)]
      dsimp only
      rw [if_neg (not_not.mpr hname), Prog.bind_some (rfl : (pure 0 : M Int) s₁ = some (0, s₁)), if_neg (not_not.mpr rfl)]
      exact hrun
    · rw [show (fs₁.fail .ok).mount = fs.mount by rw [← hmount, FileSys.mount, FileSys.mount, herr₁]; rfl]
      exact .readdir hloc hlen (by rw [hat]; exact herr₁) (by rw [hat]; exact hxs)
  · have hat : listed fs₁ (lastName (cstr path)) = fs₁.changeDir (lastName (cstr path)) := if_neg hname
    obtain ⟨s₂, hrun₂, hs₂⟩ := hs₁.changeDir he (lastName (cstr path))
    rw [← hat] at hs₂
    by_cases herr₂ : (listed fs₁ (lastName (cstr path))).err = .ok
    · obtain ⟨xs, s', hrun, hs', hxs⟩ := hs₂.lists he
      refine ⟨(0, xs), s', ?_, _, ?_, hs'⟩
      · rw [if_pos hname, Prog.bind_some hrun₂]
        dsimp only
        rw [if_pos hname, checkError, Prog.gets_bind, hs₂.err, herr₂, if_neg
          (not_not.mpr ((errnoOf_eq_zero .ok).mpr rfl))]
        exact hrun
      · rw [show ((listed fs₁ (lastName (cstr path))).fail .ok).mount = fs.mount by
          rw [← hmount, FileSys.mount, FileSys.mount, herr₁, hat]
          exact congrArg (Mount.mk · .ok) (fs₁.changeDir_tree _)]
        exact .readdir hloc hlen herr₂ hxs
    · refine ⟨_, s₂, ?_, _, .readdirLost hloc hlen herr₂, hs₂⟩
      rw [if_pos hname, Prog.bind_some hrun₂]
      dsimp only
      rw [if_pos hname, checkError, Prog.gets_bind, hs₂.err, if_pos ((errnoOf_eq_zero _).not.mpr herr₂)]
      rfl

theorem Carries.statfs (he : e.Plain n) (hs : Carries e n s fs) :
    ∃ r s', opStatfs e s = some (r, s') ∧ Served e n fs.mount .statfs (.space r) s' := by
  obtain ⟨L, hs⟩ := hs
  obtain ⟨s', hrun, hs'⟩ := hs.getUsed he.never he.fuel
  have herr : s'.tfsLastError = .ok := hs'.err
  refine ⟨(0, statvfs s'.blkCount (usedCount n s.dev)), s', ?_, fs.fail .ok, .statfs, L, hs'⟩
  rw [opStatfs, Prog.bind_some hrun, Prog.gets_bind, id_eq, checkError, Prog.gets_bind, herr]
  rfl

/-! ## Runs -/

/-- Every operation on paths returns, and is a step of the mounted file system. -/
theorem Fuse.MountOp.exec_served (he : e.Plain n) (hs : Carries e n s fs) (op : MountOp) (habs : op.Absolute) :
    ∃ r s', op.exec e s = some (r, s') ∧ Served e n fs.mount op r s' := by
  cases op with
  | getattr path =>
    obtain ⟨r, s', hrun, hend⟩ := hs.getattr he habs
    exact ⟨_, s', Prog.bind_some hrun, hend⟩
  | readdir path =>
    obtain ⟨r, s', hrun, hend⟩ := hs.readdir he habs
    exact ⟨_, s', Prog.bind_some hrun, hend⟩
  | mkdir path =>
    obtain ⟨code, s', hrun, hend⟩ := hs.edits he (.mkdir path) .createDir habs trivial (fun _ => rfl)
      (fun _ => rfl) fun _ => trivial
    exact ⟨_, s', Prog.bind_some hrun, hend⟩
  | unlink path =>
    obtain ⟨code, s', hrun, hend⟩ := hs.edits he (.unlink path) (.delete · itemFile) habs trivial (fun _ => rfl)
      (fun _ => rfl) fun _ => trivial
    exact ⟨_, s', Prog.bind_some hrun, hend⟩
  | rmdir path =>
    obtain ⟨code, s', hrun, hend⟩ := hs.edits he (.rmdir path) (.delete · itemDir) habs trivial (fun _ => rfl)
      (fun _ => rfl) fun _ => trivial
    exact ⟨_, s', Prog.bind_some hrun, hend⟩
  | rename path newpath =>
    obtain ⟨code, s', hrun, hend⟩ := hs.rename he habs
    exact ⟨_, s', Prog.bind_some hrun, hend⟩
  | mknod path =>
    obtain ⟨code, s', hrun, hend⟩ := hs.edits he (.mknod path) (.writeFile · [] 0 false) habs trivial
      (fun _ => rfl) (fun _ => rfl) fun _ => ⟨rfl, by decide⟩
    exact ⟨_, s', Prog.bind_some hrun, hend⟩
  | statfs =>
    obtain ⟨r, s', hrun, hend⟩ := hs.statfs he
    exact ⟨_, s', Prog.bind_some hrun, hend⟩

/-- The operations of a list, with their replies. -/
def Fuse.runOps (e : Env) : List MountOp → M (List Reply)
  | [] => pure []
  | op :: ops => do
    let r ← op.exec e
    let rs ← runOps e ops
    pure (r :: rs)

theorem Carries.runOps (he : e.Plain n) (ops : List MountOp) (hops : ∀ op ∈ ops, op.Absolute) (hs : Carries e n s fs) :
    ∃ rs s', Fuse.runOps e ops s = some (rs, s') ∧ ∃ fs', Mount.Run fs.mount ops rs fs'.mount ∧ Carries e n s' fs' := by
  induction ops generalizing s fs with
  | nil => exact ⟨[], s, rfl, fs, .nil, hs⟩
  | cons op ops ih =>
    obtain ⟨r, s₁, hrun, fs₁, hstep, hs₁⟩ := op.exec_served he hs (hops op (by simp))
    obtain ⟨rs, s', hruns, fs', hrest, hs'⟩ := ih (fun op hop => hops op (by simp [hop])) hs₁
    refine ⟨r :: rs, s', ?_, fs', .cons hstep hrest, hs'⟩
    rw [Fuse.runOps, Prog.bind_some hrun, Prog.bind_some hruns]
    rfl

/-- **The driver serves the mounted file system.** From a freshly formatted volume, every
run of operations on paths returns, with the replies of a run of the mounted file system,
and the volume then holds its tree. -/
theorem run_mount (he : e.Plain n) (s : State) : ∃ s₀, formatted e s = some ((), s₀) ∧ ∀ ops :
    List MountOp, (∀ op ∈ ops, op.Absolute) →
    ∃ rs s', Fuse.runOps e ops s₀ = some (rs, s') ∧ ∃ m, Mount.Run { tree := .emptyDir, err := .ok } ops rs m ∧
      volumeTree n s'.dev = m.tree ∧ s'.tfsLastError = m.err := by
  obtain ⟨s₀, hrun, hs⟩ := formatted_shows he s
  refine ⟨s₀, hrun, fun ops hops => ?_⟩
  obtain ⟨rs, s', hruns, fs, hfs, L, hs'⟩ := Carries.runOps he ops hops ⟨_, hs⟩
  exact ⟨rs, s', hruns, fs.mount, hfs, hs'.tree, hs'.err⟩

/-- Sixteen blocks. -/
theorem run_mount_sixteen : ∃ s₀, formatted (Env.linux 16) (State.boot fun _ => Buf.zero) = some ((), s₀) ∧
    ∀ ops : List MountOp, (∀ op ∈ ops, op.Absolute) → ∃ rs s', Fuse.runOps (Env.linux 16) ops s₀ = some (rs, s') ∧
      ∃ m, Mount.Run { tree := .emptyDir, err := .ok } ops rs m ∧ volumeTree 16 s'.dev = m.tree ∧
        s'.tfsLastError = m.err :=
  run_mount (Env.linux_plain (by omega) (by omega) (by decide)) _

end TinyFs
