/-
Runs of the basic API on the tree: from a freshly formatted volume on, every run of
calls ends with the errors, and leaves the tree, of a run of the file system its
callers see; and what `tfs_read_file`, `tfs_read_dir` and `tfs_stat` report then is
what is in that tree.
-/
import TinyFs.TreeCalls

namespace TinyFs

open Bytes Chains KeyMap NameTree

variable {e : Env} {n b : Nat} {s s' : State} {L : Layout} {fs fs' : FileSys} {name : List UInt8} {r : Request}
  {q : Nat × Nat}
  {f : FileNode}

/-! ## The other calls -/

theorem Shows.changeDirRoot (hs : Shows e n s L fs) :
    ∃ s', tfsChangeDirRoot s = some ((), s') ∧ Shown e n fs .changeDirRoot s' := by
  obtain ⟨s', hrun, hstays⟩ := tfsChangeDirRoot_ok hs.sys
  cases hrun
  refine ⟨_, rfl, L, fs.step .changeDirRoot, .call, ?_⟩
  rw [FileSys.step, ← hs.err]
  exact hs.moved hstays rfl

theorem Shows.changeDirParent (he : e.NeverFails) (hs : Shows e n s L fs) :
    ∃ s', tfsChangeDirParent e s = some ((), s') ∧ Shown e n fs .changeDirParent s' := by
  obtain ⟨s', hrun, hstays, htop, hup⟩ := tfsChangeDirParent_ok he hs.sys hs.upLinks
  refine ⟨s', hrun, L, fs.step .changeDirParent, .call, ?_⟩
  have hcwd := hs.cwd
  rcases fs.cwd.eq_nil_or_concat' with hnil | ⟨p, k, hsnoc⟩
  · rw [hnil] at hcwd
    have hroot : s.currentDirBlk = rootDirBlk := (Option.some.inj hcwd).symm
    obtain ⟨herr, hcur⟩ := htop (by rw [hroot]; exact hs.sys.volume.root)
    rw [FileSys.step, FileSys.changeDirParent, if_pos hnil, ← herr]
    exact hs.stays hstays hcur
  · rw [hsnoc] at hcwd
    obtain ⟨a, ha, hk⟩ := dirAt_snoc.mp hcwd
    obtain ⟨d, hd, rfl⟩ := hs.sys.volume.dirAt_mem ha
    obtain ⟨x, hx, -, ht, hblk⟩ := dirLook_inl hk
    rw [hs.sys.volume.follow_dir hd] at hx
    have hpar : L.par s.currentDirBlk = firstBlk d := hblk ▸ (hs.sys.volume.tree d hd x hx ht).1
    have hd' : d ∈ L.chains := List.mem_append_left _ hd
    have hne : firstBlk d ≠ 0 := hs.sys.volume.ne_zero hd' _ (firstBlk_mem (hs.sys.volume.chain_ne_nil hd'))
    obtain ⟨herr, hcur⟩ := hup (by rw [hpar]; exact hne)
    rw [FileSys.step, FileSys.changeDirParent, if_neg (by rw [hsnoc]; simp), hsnoc, List.dropLast_concat, ← herr]
    exact hs.moved hstays (by rw [hcur, hpar]; exact ha)

theorem Shows.readDir (he : e.NeverFails) (hf : n ≤ e.fuel) (hs : Shows e n s L fs) (handler : List DirItem → Bool) :
    ∃ C ∈ L.dirs, firstBlk C = s.currentDirBlk ∧ ∃ s', tfsReadDir e handler s =
        some (((offered handler (items s.dev C) []).2, (offered handler (items s.dev C) []).1), s') ∧
      Shows e n s' L (fs.fail .ok) := by
  obtain ⟨C, hC, hcur⟩ := mem_heads hs.sys.cur
  obtain ⟨b, l, hrun⟩ := tfsReadDir_run he hf hs.sys hC hcur handler
  have hstays : Stays n s (State.call { s with tfsLastError := .ok, blkBuf := b, log := l } .deselect) L :=
    ⟨⟨hs.sys.mounted, hs.sys.cache, hs.sys.volume, hs.sys.cur, Err.noConfusion⟩, rfl, rfl, Err.noConfusion⟩
  exact ⟨C, hC, hcur, _, hrun, hs.stays hstays rfl⟩

theorem Shows.getUsed (he : e.NeverFails) (hf : n ≤ e.fuel) (hs : Shows e n s L fs) :
    ∃ s', tfsGetUsed e s = some (usedCount n s.dev, s') ∧ Shows e n s' L (fs.fail .ok) := by
  obtain ⟨l, hrun⟩ := tfsGetUsed_ok he hs.sys.mounted hs.sys.dev hf
  have hstays : Stays n s { s with tfsLastError := .ok, bitmapBlk := s.dev 0, loadedBitmapBlk := 0, log := l } L :=
    ⟨⟨hs.sys.mounted, .valid rfl hs.sys.mounted.pos rfl, hs.sys.volume, hs.sys.cur, Err.noConfusion⟩, rfl, rfl,
      Err.noConfusion⟩
  exact ⟨_, hrun, hs.stays hstays rfl⟩

/-- What a name stands for, by the slot the lookup finds. -/
theorem Shows.get_lookup (hcmp : e.filenameCmp = strncmpName) (hs : Shows e n s L fs) (name : List UInt8) :
    fs.get name = entryNode ((s.lookup e n name).map fun q => (itemAt s.dev q).node n s.dev) := by
  have hitem := State.lookup_item e n s name
  rw [hs.get, dirLook, toMap, ← cmp_key hcmp, show (s.lookup e n name).map (fun q => (itemAt s.dev q).node n s.dev) =
    ((s.lookup e n name).map (itemAt s.dev)).map (DirItem.node n s.dev) by rw [Option.map_map]; rfl, hitem]
  rfl

/-- `tfs_stat` finds the item a name stands for, and leaves it in the buffer. -/
theorem Shows.stat (he : e.NeverFails) (hf : n ≤ e.fuel) (hcmp : e.filenameCmp = strncmpName) (hs : Shows e n s L fs)
    (name : List UInt8) : ∃ r s', tfsStat e name s = some (r, s') ∧ Shows e n s' L (fs.stat name) ∧
      (name.headD 0 ≠ 0 → fs.get name = entryNode (r.map fun i => (s'.blkBuf.item i).node n s.dev)) := by
  have hsame : ∀ (b : Block) (z : Nat) (l : DriveLog) (err : Err), err ≠ .noDev → err ≠ .diskFull →
      Stays n s { s with tfsLastError := err, blkBuf := b, loadedDirBlk := z, log := l } L :=
    fun _ _ _ _ herr hfull => ⟨⟨hs.sys.mounted, hs.sys.cache, hs.sys.volume, hs.sys.cur, herr⟩, rfl, rfl,
      fun h => absurd h hfull⟩
  by_cases hname : name.headD 0 = 0
  · refine ⟨_, _, enter_out hs.sys.dev (findFile_noName hname false), ?_, fun hne => absurd hname hne⟩
    rw [FileSys.stat, if_pos hname]
    exact hs.stays (hsame s.blkBuf s.loadedDirBlk _ _ Err.noConfusion Err.noConfusion) rfl
  obtain ⟨C, D, h⟩ : ∃ C D, Cur n s.started L C D := hs.sys.current_enter
  have hfollow : follow s.dev n s.currentDirBlk = C := h.follow_eq
  have hget := hs.get_lookup hcmp name
  rw [State.lookup, hfollow] at hget
  rw [FileSys.stat, if_neg hname]
  rcases findFile_lookup he hf h.toInDir hname with ⟨q, l, hq, hrun⟩ | ⟨hmiss, l, hrun⟩
  · rw [show (slots C).find? (fun p => hits e name (itemAt s.dev p)) = some q from hq] at hget
    exact ⟨some q.2, _, enter_out hs.sys.dev (hrun false),
      hs.stays (hsame _ _ _ _ Err.noConfusion Err.noConfusion) rfl, fun _ => hget⟩
  · rw [show (slots C).find? (fun p => hits e name (itemAt s.dev p)) = none from hmiss] at hget
    exact ⟨none, _, enter_out hs.sys.dev hrun, hs.stays (hsame _ _ _ _ Err.noConfusion Err.noConfusion) rfl,
      fun _ => hget⟩

/-- A volume that is mounted again. -/
theorem Shows.remount (he : e.NeverFails) (hd : e.drive.blkCount = some n) (hs : Shows e n s L fs) :
    ∃ s', tfsInit e s = some ((), s') ∧ Shows e n s' L fs.remount := by
  obtain ⟨l, hrun⟩ := tfsInit_ok he hd hs.sys.mounted.pos hs.sys.mounted.lt s
  refine ⟨_, hrun, ⟨?_, hs.tight, hs.upLinks, hs.compact, ?_⟩, hs.distinct, hs.tree, rfl, rfl, Err.noConfusion⟩
  · exact ⟨⟨hs.sys.mounted.pos, hs.sys.mounted.lt, rfl, rfl, rfl⟩, .valid rfl hs.sys.mounted.pos rfl, hs.sys.volume,
      hs.sys.volume.root_mem, Err.noConfusion⟩
  · rintro ⟨fd, hfd, hne⟩
    exact hne (by simp [hfd, Handle.zero])

/-- A fresh volume is an empty tree. -/
theorem Formatted.shows (h : Formatted n s s') (hidle : ¬ Held e s) : Shows e n s' Layout.fresh FileSys.fresh := by
  have hnil : entries s'.dev [rootDirBlk] = [] := entries_single_free fun i _ => by rw [h.root, Block.itemType_zero]
  have hmem : [rootDirBlk] ∈ Layout.fresh.dirs := List.mem_singleton.mpr rfl
  refine ⟨⟨h.sys, Layout.fresh_tight, trivial, fun d hd => ?_, ?_⟩, fun d hd => ?_, ?_, ?_, h.err, ?_⟩
  · rw [List.mem_singleton.mp hd]
    exact .single rootDirBlk
  · rintro ⟨fd, hfd, hne⟩
    exact hidle ⟨fd, hfd, h.handles ▸ hne⟩
  · rw [List.mem_singleton.mp hd, hnil]
    exact List.nodup_nil
  · refine span_empty ?_
    rw [show rootDirBlk = firstBlk [rootDirBlk] from rfl, h.sys.volume.dirLook_eq hmem, hnil]
    rfl
  · rw [h.cur]
    rfl
  · rw [h.err]
    exact Err.noConfusion

theorem Shows.format (he : e.NeverFails) (hf : n ≤ e.fuel) (hn : 2 ≤ n) (hs : Shows e n s L fs) :
    ∃ s', tfsFormat e s = some ((), s') ∧ Shows e n s' Layout.fresh FileSys.fresh := by
  obtain ⟨s', hrun, hfmt⟩ := tfsFormat_done he hf hn hs.sys.mounted hs.sys.dev
  exact ⟨s', hrun, hfmt.shows hs.idle⟩

/-! ## Runs -/

/-- What the calls need of the build and of the drive: the comparison of the portable
code, and a drive that leaves `tfs_last_error` alone. -/
structure Env.Plain (e : Env) (n : Nat) : Prop where
  never : e.NeverFails
  size : e.drive.blkCount = some n
  two : 2 ≤ n
  lt : n < 2 ^ 32
  fuel : n ≤ e.fuel
  cmp : e.filenameCmp = strncmpName
  sets : e.drive.setsOk = false

theorem Env.linux_plain {n : Nat} (hn : 2 ≤ n) (hlt : n < 2 ^ 32) (hf : n ≤ (Env.linux n).fuel) : (Env.linux n).Plain n :=
  ⟨Env.linux_neverFails n, rfl, hn, hlt, hf, rfl, rfl⟩

theorem Call.exec_shown (he : e.Plain n) (hs : Shows e n s L fs) (c : Call) (hc : (Request.call c).Sized) :
    ∃ s', c.exec e s = some ((), s') ∧ Shown e n fs c s' := by
  cases c with
  | onDir c =>
    cases c with
    | createDir name => exact hs.createDir he.never he.fuel he.cmp name
    | writeFile name data len ov => exact hs.writeFile he.never he.fuel he.cmp he.sets hc.1 hc.2 ov
    | touch name => exact hs.touch he.never he.fuel he.cmp name
    | delete name type => exact hs.delete he.never he.fuel he.cmp name type
    | rename fromName toName => exact hs.rename he.never he.fuel he.cmp fromName toName
  | changeDir name => exact hs.changeDir he.never he.fuel he.cmp name
  | changeDirParent => exact hs.changeDirParent he.never
  | changeDirRoot => exact hs.changeDirRoot
  | readDir handler =>
    obtain ⟨_, _, _, s', hrun, hs'⟩ := hs.readDir he.never he.fuel handler
    exact ⟨s', Prog.bind_some hrun, L, _, .call, hs'⟩
  | getUsed =>
    obtain ⟨s', hrun, hs'⟩ := hs.getUsed he.never he.fuel
    exact ⟨s', Prog.bind_some hrun, L, _, .call, hs'⟩

/-- Every request returns, and is a step of the file system. -/
theorem Request.exec_shown (he : e.Plain n) (hs : Shows e n s L fs) (r : Request) (hr : r.Sized) :
    ∃ s', r.exec e s = some ((), s') ∧ ∃ L' fs', FileSys.Step fs r fs' ∧ Shows e n s' L' fs' := by
  cases r with
  | call c => exact c.exec_shown he hs hr
  | stat name =>
    obtain ⟨_, s', hrun, hs', -⟩ := hs.stat he.never he.fuel he.cmp name
    exact ⟨s', Prog.bind_some hrun, L, _, .done, hs'⟩
  | init =>
    obtain ⟨s', hrun, hs'⟩ := hs.remount he.never he.size
    exact ⟨s', hrun, L, _, .done, hs'⟩
  | format =>
    obtain ⟨s', hrun, hs'⟩ := hs.format he.never he.fuel he.two
    exact ⟨s', hrun, _, _, .done, hs'⟩

/-- The requests of a list, with `tfs_last_error` after each of them. -/
def runErrs (e : Env) : List Request → M (List Err)
  | [] => pure []
  | r :: rs => do
    r.exec e
    let s ← Prog.gets id
    let errs ← runErrs e rs
    pure (s.tfsLastError :: errs)

theorem Shows.run (he : e.Plain n) (rs : List Request) (hrs : ∀ r ∈ rs, r.Sized) (hs : Shows e n s L fs) :
    ∃ errs s', runErrs e rs s = some (errs, s') ∧ ∃ L' fs', FileSys.Run fs rs errs fs' ∧ Shows e n s' L' fs' := by
  induction rs generalizing s L fs with
  | nil => exact ⟨[], s, rfl, L, fs, .nil, hs⟩
  | cons r rs ih =>
    obtain ⟨s₁, hrun, L₁, fs₁, hstep, hs₁⟩ := r.exec_shown he hs (hrs r (by simp))
    obtain ⟨errs, s', hruns, L', fs', hrest, hs'⟩ := ih (fun r hr => hrs r (by simp [hr])) hs₁
    refine ⟨s₁.tfsLastError :: errs, s', ?_, L', fs', hs₁.err ▸ .cons hstep hrest, hs'⟩
    rw [runErrs, Prog.bind_some hrun, Prog.gets_bind, Prog.bind_some hruns]
    rfl

/-- `formatted` leaves the fresh file system. -/
theorem formatted_shows (he : e.Plain n) (s : State) :
    ∃ s₀, formatted e s = some ((), s₀) ∧ Shows e n s₀ Layout.fresh FileSys.fresh := by
  obtain ⟨l, hinit⟩ := tfsInit_ok he.never he.size (by have := he.two; omega) he.lt s
  obtain ⟨s₁, hinit, hmt, hnd, hh⟩ : ∃ s₁, tfsInit e s = some ((), s₁) ∧ s₁.Mounted n ∧ s₁.tfsLastError ≠ .noDev ∧
      ∀ fd < e.maxFds, s₁.handles fd = Handle.zero :=
    ⟨_, hinit, ⟨by have := he.two; omega, he.lt, rfl, rfl, rfl⟩, Err.noConfusion, fun fd hfd => if_pos hfd⟩
  obtain ⟨s₀, hrun, hfmt⟩ := tfsFormat_done he.never he.fuel he.two hmt hnd
  refine ⟨s₀, (Prog.bind_some hinit).trans hrun, hfmt.shows ?_⟩
  rintro ⟨fd, hfd, hne⟩
  exact hne (by rw [hh fd hfd]; rfl)

/-- **The basic API is a file system.** From a freshly formatted volume, every run of
requests returns, with the errors of a run of the file system its callers see, and the
volume then holds its tree. Where the last of them ended with a full disk, no block is free. -/
theorem run_fileSys (he : e.Plain n) (s : State) : ∃ s₀, formatted e s = some ((), s₀) ∧ ∀ rs :
    List Request, (∀ r ∈ rs, r.Sized) →
    ∃ errs s', runErrs e rs s₀ = some (errs, s') ∧ ∃ fs, FileSys.Run .fresh rs errs fs ∧ volumeTree n s'.dev = fs.tree ∧
      dirAt (dirLook n s'.dev) rootDirBlk fs.cwd = some s'.currentDirBlk ∧
      (fs.err = .diskFull → freeCount n s'.dev = 0) := by
  obtain ⟨s₀, hrun, hs⟩ := formatted_shows he s
  refine ⟨s₀, hrun, fun rs hrs => ?_⟩
  obtain ⟨errs, s', hruns, L', fs, hfs, hs'⟩ := hs.run he rs hrs
  exact ⟨errs, s', hruns, fs, hfs, hs'.tree, hs'.cwd, fun herr => freeCount_eq_zero.mpr (hs'.full (hs'.err.trans herr))⟩

/-- Sixteen blocks. -/
theorem run_fileSys_sixteen : ∃ s₀, formatted (Env.linux 16) (State.boot fun _ => Buf.zero) = some ((), s₀) ∧
    ∀ rs : List Request, (∀ r ∈ rs, r.Sized) → ∃ errs s', runErrs (Env.linux 16) rs s₀ = some (errs, s') ∧
      ∃ fs, FileSys.Run .fresh rs errs fs ∧ volumeTree 16 s'.dev = fs.tree ∧
        dirAt (dirLook 16 s'.dev) rootDirBlk fs.cwd = some s'.currentDirBlk ∧
        (fs.err = .diskFull → freeCount 16 s'.dev = 0) :=
  run_fileSys (Env.linux_plain (by omega) (by omega) (by decide)) _

/-! ## What is reported -/

/-- What an item says of itself, and what a node of the tree would: nothing more of a
directory, the type and the size of a file. -/
def DirItem.info (x : DirItem) : Option (UInt8 × Nat) := if x.type = itemDir then none else some (x.type, x.size)

def nodeInfo : Node FileNode → Option (UInt8 × Nat)
  | .dir => none
  | .leaf f => some (f.type, f.size)

/-- What the calls that only look report of a file system. -/
structure Reports (e : Env) (s : State) (fs : FileSys) : Prop where
  /-- A file with bytes reads as the bytes it has, up to the length asked for. -/
  reads : ∀ name maxLen f, name.headD 0 ≠ 0 → fs.get name = some (.leaf f) → f.type = itemFile → f.bytes ≠ [] →
    ∃ s', tfsReadFile e name maxLen s = some ((min f.size maxLen, f.bytes.take maxLen), s') ∧
      s'.tfsLastError = if min f.size maxLen ≤ f.bytes.length then .ok else .unexpEof
  /-- The live items of the current directory are its names in the tree, each of them once. -/
  lists : ∀ handler : List DirItem → Bool, (∀ seen, handler seen = true) → ∃ xs s', tfsReadDir e handler s =
    some ((true, xs), s') ∧
    s'.tfsLastError = .ok ∧ DistinctNames (xs.filter DirItem.live) ∧
    ∀ k i, (fs.tree (fs.cwd ++ [k])).map nodeInfo = some i ↔ ∃ x ∈ xs.filter DirItem.live, x.key = k ∧ x.info = i
  /-- The item of a name is found where the name stands for something. -/
  finds : ∀ name, name.headD 0 ≠ 0 → ∃ r s', tfsStat e name s = some (r, s') ∧ s'.tfsLastError = .ok ∧
    (fs.get name).map nodeInfo = r.map fun i => (s'.blkBuf.item i).info

theorem entryNode_info (x : Option DirItem) (dev : Nat → Block) :
    (entryNode (x.map (DirItem.node n dev))).map nodeInfo = x.map DirItem.info := by
  cases x with
  | none => rfl
  | some x =>
    rw [Option.map_some, Option.map_some, DirItem.info]
    by_cases ht : x.type = itemDir
    · rw [entryNode_dir ht, if_pos ht]
      rfl
    · rw [entryNode_leaf ht, if_neg ht]
      rfl

theorem Shows.reports (he : e.Plain n) (hs : Shows e n s L fs) : Reports e s fs where
  reads := by
    intro name maxLen f hname hget htype hbytes
    rw [hs.get_lookup he.cmp] at hget
    rcases hq : s.lookup e n name with - | q
    · rw [hq] at hget
      cases hget
    rw [hq, Option.map_some] at hget
    by_cases ht : (itemAt s.dev q).type = itemDir
    · rw [entryNode_dir ht] at hget
      cases hget
    rw [entryNode_leaf ht] at hget
    cases hget
    have htype : (itemAt s.dev q).type = itemFile := htype
    have hdata : (itemAt s.dev q).dataBlks n s.dev = follow s.dev n (itemAt s.dev q).blk := if_pos htype
    have hblk : (itemAt s.dev q).blk ≠ 0 := by
      intro hzero
      refine hbytes ?_
      show DirItem.bytes n s.dev _ = []
      rw [DirItem.bytes, hdata, hzero, follow_zero]
      simp
    obtain ⟨s', hrun, herr⟩ := tfsReadFile_ok he.never he.fuel hs.sys hname hq htype hblk maxLen rfl rfl
    refine ⟨s', ?_, ?_⟩
    · rw [hrun]
      show _ = some ((_, (DirItem.bytes n s.dev _).take maxLen), s')
      rw [DirItem.bytes, hdata, ← List.map_take, List.take_range]
      congr 5
      omega
    · rw [herr]
      show _ = if _ ≤ (DirItem.bytes n s.dev _).length then _ else _
      rw [DirItem.bytes, hdata, List.length_map, List.length_range]
      refine if_congr ?_ rfl rfl
      show _ ↔ min (itemAt s.dev q).size maxLen ≤ _
      omega
  lists := by
    intro handler hall
    obtain ⟨C, hC, hcur, s', hrun, hs'⟩ := hs.readDir he.never he.fuel handler
    rw [offered_all hall, List.nil_append] at hrun
    refine ⟨items s.dev C, s', hrun, hs'.err, ?_, fun k i => ?_⟩
    · rw [items_live]
      exact hs.distinct C hC
    · rw [items_live, ← (hs.distinct C hC).toMap_eq, ← hs.tree]
      refine Eq.congr_left ?_
      show Option.map nodeInfo (span (dirLook n s.dev) rootDirBlk (fs.cwd ++ [k])) = _
      rw [span_snoc hs.cwd k, ← hcur, hs.sys.volume.dirLook_eq hC]
      exact entryNode_info _ s.dev
  finds := by
    intro name hname
    obtain ⟨r, s', hrun, hs', hr⟩ := hs.stat he.never he.fuel he.cmp name
    refine ⟨r, s', hrun, ?_, ?_⟩
    · rw [hs'.err, FileSys.stat, if_neg hname]
      rfl
    · rw [hr hname]
      cases r with
      | none => rfl
      | some i => exact entryNode_info (some (s'.blkBuf.item i)) s.dev

/-- **What is reported is what was stored.** From a freshly formatted volume, after any
run of requests, `tfs_read_file`, `tfs_read_dir` and `tfs_stat` report the file system
that a run with the same errors leaves. -/
theorem run_reports (he : e.Plain n) (s : State) : ∃ s₀, formatted e s = some ((), s₀) ∧ ∀ rs :
    List Request, (∀ r ∈ rs, r.Sized) →
    ∃ errs s', runErrs e rs s₀ = some (errs, s') ∧ ∃ fs, FileSys.Run .fresh rs errs fs ∧ Reports e s' fs := by
  obtain ⟨s₀, hrun, hs⟩ := formatted_shows he s
  refine ⟨s₀, hrun, fun rs hrs => ?_⟩
  obtain ⟨errs, s', hruns, L', fs, hfs, hs'⟩ := hs.run he rs hrs
  exact ⟨errs, s', hruns, fs, hfs, hs'.reports he⟩

theorem run_reports_sixteen : ∃ s₀, formatted (Env.linux 16) (State.boot fun _ => Buf.zero) = some ((), s₀) ∧
    ∀ rs : List Request, (∀ r ∈ rs, r.Sized) → ∃ errs s', runErrs (Env.linux 16) rs s₀ = some (errs, s') ∧
      ∃ fs, FileSys.Run .fresh rs errs fs ∧ Reports (Env.linux 16) s' fs :=
  run_reports (Env.linux_plain (by omega) (by omega) (by decide)) _

end TinyFs
