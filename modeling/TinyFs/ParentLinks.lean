/-
Moving in the directory tree. Every block of a directory holds the first block
of the directory above it, and the directory above keeps its entry while calls
change what is below; so `tfs_change_dir_parent` leads back to where
`tfs_change_dir` came from, and from depth `k` in `k` steps to the root.
-/
import TinyFs.Isolation
import TinyFs.Refusal

namespace TinyFs

open Bytes Chains

variable {e : Env} {n k : Nat} {s s' : State} {L L' : Layout} {c : DirCall} {C C' P : List Nat} {x : DirItem}
  {A old new B : List DirItem} {dirs files : List (List Nat)}

/-- The blocks of a directory hold the first block of the directory with its entry. -/
structure ParentLinks (dev : Nat → Block) (dirs : List (List Nat)) : Prop where
  root : ∀ d ∈ dirs, firstBlk d = rootDirBlk → ∀ b ∈ d, (dev b).parent = 0
  sub : ∀ d x, SubDir dev dirs d x → ∀ d' ∈ dirs, firstBlk d' = x.blk → ∀ b ∈ d', (dev b).parent = firstBlk d

theorem Volume.parentLinks {dev : Nat → Block} (h : Volume n dev L) (hup : L.upLinks) : ParentLinks dev L.dirs where
  root := fun d hd hroot b hb => by rw [h.parents hup d hd b hb, hroot, h.root]
  sub := fun d x hx d' hd' hhead b hb => by
    rw [h.parents hup d' hd' b hb, hhead]
    exact (h.tree d hx.dir x hx.entry hx.type).1

/-- The directory above the current one is not the one a call changes, and not one it drops. -/
theorem DirOp.above (h : DirOp e n L c s s' L' C C' A old new B) (hv : Volume n s.dev L) (hx : SubDir s.dev L.dirs P x)
    (hcur : x.blk = s.currentDirBlk) : SubDir s'.dev L'.dirs P x := by
  have hdepth := (hv.tree P hx.dir x hx.entry hx.type).2
  rw [hcur] at hdepth
  have hne : firstBlk P ≠ s.currentDirBlk := fun heq => by
    rw [heq] at hdepth
    exact Nat.lt_irrefl _ hdepth
  have hkept : firstBlk P ∉ c.dropped old := by
    intro hmem
    obtain ⟨y, hy, hyP⟩ := List.mem_flatMap.mp (DirCall.dropped_sub hmem)
    have hyC : y ∈ entries s.dev C := by
      rw [h.before]
      simp [hy]
    rcases List.mem_append.mp hyP with hyP | hyP
    · -- a directory below the current one is deeper
      rw [DirItem.dirHead] at hyP
      split at hyP
      · have hdeep := (hv.tree C h.mem y hyC ‹_›).2
        rw [h.head, ← List.mem_singleton.mp hyP] at hdeep
        omega
      · simp at hyP
    · rw [DirItem.fileHead] at hyP
      split at hyP
      · rename_i ht
        have hfile := hv.mem_files h.mem hyC ht.1 ht.2
        rw [← List.mem_singleton.mp hyP] at hfile
        have hnd := hv.heads_nodup
        rw [heads_append, List.nodup_append] at hnd
        exact hnd.2.2 _ (firstBlk_mem_heads hx.dir) _ hfile rfl
      · simp at hyP
  obtain ⟨hP, -, hE⟩ := (h.isolated hv).dirs P hx.dir hne hkept
  exact ⟨hP, hE ▸ hx.entry, hx.type⟩

/-- In a directory below `P`, whose entry there is `x`. -/
structure Below (n : Nat) (P : List Nat) (x : DirItem) (s : State) (L : Layout) : Prop where
  sys : Sys n s L
  up : L.upLinks
  sub : SubDir s.dev L.dirs P x
  cur : x.blk = s.currentDirBlk

theorem Below.step (he : e.NeverFails) (hf : n ≤ e.fuel) (h : Below n P x s L) (c : DirCall) :
    ∃ s' L', c.exec e s = some ((), s') ∧ Below n P x s' L' := by
  obtain ⟨s', hrun, L', C, C', A, old, new, B, hop⟩ := DirCall.exec_ok he hf h.sys c
  exact ⟨s', L', hrun, hop.sys, hop.upLinks ▸ h.up, hop.above h.sys.volume h.sub h.cur, h.cur.trans hop.frame.cur.symm⟩

theorem Below.run (he : e.NeverFails) (hf : n ≤ e.fuel) (h : Below n P x s L) (cs : List DirCall) :
    ∃ s', Prog.runAll (DirCall.exec e) cs s = some ((), s') ∧ ∃ L', Below n P x s' L' :=
  Prog.runAll_total (fun c t ht => by
    obtain ⟨L, ht⟩ := ht
    obtain ⟨t', L', hrun, ht'⟩ := ht.step he hf c
    exact ⟨t', hrun, L', ht'⟩) cs ⟨L, h⟩

/-- One step up. -/
theorem Below.up_ok (he : e.NeverFails) (h : Below n P x s L) : ∃ s', tfsChangeDirParent e s = some ((), s') ∧
    Stays n s s' L ∧ s'.tfsLastError = .ok ∧ s'.currentDirBlk = firstBlk P := by
  obtain ⟨s', hrun, hstays, -, hup⟩ := tfsChangeDirParent_ok he h.sys h.up
  have hpar : L.par s.currentDirBlk = firstBlk P := by
    rw [← h.cur]
    exact (h.sys.volume.tree P h.sub.dir x h.sub.entry h.sub.type).1
  have hP : P ∈ L.chains := List.mem_append_left _ h.sub.dir
  have hne : firstBlk P ≠ 0 := h.sys.volume.ne_zero hP _ (firstBlk_mem (h.sys.volume.chain_ne_nil hP))
  rw [hpar] at hup
  exact ⟨s', hrun, hstays, hup hne⟩

/-! ## Climbing -/

/-- So many calls of `tfs_change_dir_parent`. -/
def climb (e : Env) (i : Nat) : M Unit := Prog.runAll (fun _ => tfsChangeDirParent e) (List.replicate i ())

theorem climb_ok (he : e.NeverFails) (hs : Sys n s L) (hup : L.upLinks) (hk : Level s.dev L.dirs s.currentDirBlk k) :
    ∀ i ≤ k, ∃ t, climb e i s = some ((), t) ∧ Stays n s t L ∧ Level t.dev L.dirs t.currentDirBlk (k - i) := by
  intro i
  induction i generalizing s k with
  | zero => exact fun _ => ⟨s, rfl, ⟨hs, rfl, rfl, id⟩, hk⟩
  | succ i ih =>
    intro hi
    obtain ⟨k, rfl⟩ : ∃ j, k = j + 1 := ⟨k - 1, by omega⟩
    obtain ⟨d, y, hd, hy, hyb⟩ : ∃ d y, Level s.dev L.dirs (firstBlk d) k ∧ SubDir s.dev L.dirs d y ∧
        y.blk = s.currentDirBlk := by
      cases hk with
      | sub hd hy hyb => exact ⟨_, _, hd, hy, hyb⟩
    have hbelow : Below n d y s L := ⟨hs, hup, hy, hyb⟩
    obtain ⟨s₁, hrun₁, hs₁, -, hcur₁⟩ := hbelow.up_ok he
    have hd₁ : Level s₁.dev L.dirs s₁.currentDirBlk k := by
      rw [hs₁.dev, hcur₁]
      exact hd
    obtain ⟨t, hrun, ht, hlevel⟩ := ih hs₁.sys hd₁ (by omega)
    refine ⟨t, ?_, ⟨ht.sys, ht.dev.trans hs₁.dev, ht.handles.trans hs₁.handles, hs₁.full ∘ ht.full⟩, ?_⟩
    · rw [climb, List.replicate_succ, Prog.runAll_cons, hrun₁]
      exact hrun
    · rwa [Nat.add_sub_add_right]

theorem WellFormed.level_root {dev : Nat → Block} {b : Nat} (h : WellFormed n dev dirs files) (hk : Level dev dirs b k) :
    b = rootDirBlk ↔ k = 0 := by
  cases hk with
  | root hb => exact iff_of_true hb rfl
  | sub _ hx hxb => exact iff_of_false (hxb ▸ h.root_not_sub hx) (Nat.succ_ne_zero _)

/-! ## Runs of the basic API -/

/-- The functions that neither hand out nor use a handle. -/
def Op.basic : Op → Bool
  | .openFile _ | .close _ | .trunc _ _ | .write _ _ _ _ | .read _ _ _ => false
  | _ => true

theorem Untouched.sys (h : Untouched s s') (hs : Sys n s L) : Sys n s' L := by
  refine ⟨⟨hs.mounted.pos, hs.mounted.lt, h.blkCount.trans hs.mounted.count, h.lastBlk.trans hs.mounted.lastBlk,
    h.lastLen.trans hs.mounted.lastLen⟩, ?_, h.dev ▸ hs.volume, h.cur ▸ hs.cur, h.present hs.dev⟩
  rw [State.CacheOk, h.dev, h.bitmap, h.loadedBitmap]
  exact hs.cache

/-- What a call of the basic API does to the volume: nothing, it makes a new one, or
it does a step to one directory. -/
inductive BasicStep (e : Env) (n : Nat) (s s' : State) (L : Layout) : Layout → Prop
  | stays : s'.dev = s.dev → BasicStep e n s s' L L
  | formatted : BasicStep e n s s' L Layout.fresh
  | edited {c : DirCall} {L' : Layout} {C C' : List Nat} {A old new B : List DirItem} :
      DirOp e n L c s s' L' C C' A old new B → BasicStep e n s s' L L'

/-- A call that took no handle. -/
def KeepsHandles (e : Env) (s s' : State) : Prop := s'.handles = s.handles ∨ ∀ fd < e.maxFds, s'.handles fd = Handle.zero

theorem Call.basicStep (he : e.NeverFails) (hf : n ≤ e.fuel) (hs : Sys n s L) (hup : L.upLinks) {c : Call}
    (h : c.exec e s = some ((), s')) : ∃ L', Sys n s' L' ∧ BasicStep e n s s' L L' ∧ s'.handles = s.handles := by
  cases c with
  | onDir c =>
    obtain ⟨t, hrun, L', C, C', A, old, new, B, hop⟩ := DirCall.exec_ok he hf hs c
    cases hrun.symm.trans h
    exact ⟨L', hop.sys, .edited hop, hop.frame.handles⟩
  | changeDir name =>
    obtain ⟨t, hrun, hst, -⟩ := tfsChangeDir_ok he hf hs name
    cases hrun.symm.trans h
    exact ⟨L, hst.sys, .stays hst.dev, hst.handles⟩
  | changeDirParent =>
    obtain ⟨t, hrun, hst, -⟩ := tfsChangeDirParent_ok he hs hup
    cases hrun.symm.trans h
    exact ⟨L, hst.sys, .stays hst.dev, hst.handles⟩
  | changeDirRoot =>
    obtain ⟨t, hrun, hst⟩ := tfsChangeDirRoot_ok hs
    cases hrun.symm.trans h
    exact ⟨L, hst.sys, .stays hst.dev, hst.handles⟩
  | readDir handler =>
    obtain ⟨C, hC, hcur⟩ := mem_heads hs.cur
    obtain ⟨t, hrun, hst⟩ := tfsReadDir_ok he hf hs hC hcur handler
    cases (Prog.bind_some hrun).symm.trans h
    exact ⟨L, hst.sys, .stays hst.dev, hst.handles⟩
  | getUsed =>
    obtain ⟨t, hrun, hst⟩ := tfsGetUsed_stays he hf hs
    cases (Prog.bind_some hrun).symm.trans h
    exact ⟨L, hst.sys, .stays hst.dev, hst.handles⟩

theorem Op.basicStep (he : e.NeverFails) (hd : e.drive.blkCount = some n) (hn : 2 ≤ n) (hf : n ≤ e.fuel) (hs : Sys n s L)
    (hup : L.upLinks) {c : Op} (hc : c.basic = true) (h : c.exec e s = some ((), s')) :
    ∃ L', Sys n s' L' ∧ BasicStep e n s s' L L' ∧ KeepsHandles e s s' := by
  have hcall : ∀ {c : Call}, c.exec e s = some ((), s') → ∃ L', Sys n s' L' ∧ BasicStep e n s s' L L' ∧
      KeepsHandles e s s' :=
    fun h =>
      let ⟨L', hs', hstep, hh⟩ := Call.basicStep he hf hs hup h
      ⟨L', hs', hstep, .inl hh⟩
  have hquiet : Untouched s s' → ∃ L', Sys n s' L' ∧ BasicStep e n s s' L L' ∧ KeepsHandles e s s' :=
    fun h => ⟨L, h.sys hs, .stays h.dev, .inl h.handles⟩
  obtain ⟨a, hres⟩ := drop_eq_some h
  cases c with
  | openFile _ | close _ | trunc _ _ | write _ _ _ _ | read _ _ _ => cases hc
  | init =>
    obtain ⟨l, hrun⟩ := tfsInit_ok he hd (by omega) hs.mounted.lt s
    cases hrun.symm.trans hres
    exact ⟨L, ⟨⟨by omega, hs.mounted.lt, rfl, rfl, rfl⟩, .valid rfl hs.mounted.pos rfl, hs.volume,
      hs.volume.root_mem, Err.noConfusion⟩, .stays rfl, .inr fun fd hfd => if_pos hfd⟩
  | format =>
    obtain ⟨t, hrun, ht, hh, -⟩ := tfsFormat_ok he hf hn hs.mounted hs.dev
    cases hrun.symm.trans hres
    exact ⟨_, ht, .formatted, .inl hh⟩
  | getUsed => exact hcall (c := .getUsed) h
  | readDir handler => exact hcall (c := .readDir handler) h
  | changeDirRoot => exact hcall (c := .changeDirRoot) hres
  | changeDirParent => exact hcall (c := .changeDirParent) hres
  | changeDir name => exact hcall (c := .changeDir name) hres
  | createDir name => exact hcall (c := .onDir (.createDir name)) hres
  | writeFile name data len ov => exact hcall (c := .onDir (.writeFile name data len ov)) hres
  | delete name type => exact hcall (c := .onDir (.delete name type)) hres
  | rename fromName toName => exact hcall (c := .onDir (.rename fromName toName)) hres
  | touch name => exact hcall (c := .onDir (.touch name)) hres
  | readFile name maxLen =>
    exact hquiet (Quiet.enter ((findFile_quiet name).bind fun item => ifOk_steps (readFileBody_quiet item maxLen)) hres)
  | stat name =>
    exact hquiet (Quiet.enter (findFile_quiet name) hres)

theorem BasicStep.tight (h : BasicStep e n s s' L L') (ht : L.Tight) : L'.Tight := by
  cases h with
  | stays _ => exact ht
  | formatted => exact Layout.fresh_tight
  | edited h => exact ⟨h.loose.trans ht.loose, h.leaked.trans ht.leaked⟩

theorem BasicStep.upLinks (h : BasicStep e n s s' L L') (hup : L.upLinks) : L'.upLinks := by
  cases h with
  | stays _ => exact hup
  | formatted => exact trivial
  | edited h => exact h.upLinks ▸ hup

/-- What the basic API keeps: a tight volume whose blocks hold their parents. -/
def Rooted (n : Nat) (s : State) : Prop := ∃ L, Sys n s L ∧ L.Tight ∧ L.upLinks

theorem Rooted.step (he : e.NeverFails) (hd : e.drive.blkCount = some n) (hn : 2 ≤ n) (hf : n ≤ e.fuel) (hs : Rooted n s)
    {c : Op} (hc : c.basic = true) (h : c.exec e s = some ((), s')) : Rooted n s' := by
  obtain ⟨L, hs, ht, hup⟩ := hs
  obtain ⟨L', hs', hstep, -⟩ := Op.basicStep he hd hn hf hs hup hc h
  exact ⟨L', hs', hstep.tight ht, hstep.upLinks hup⟩

/-! ## Navigation -/

/-- The tree from the current directory of a state, `k` entries below the root. -/
structure Navigable (e : Env) (n : Nat) (s : State) (dirs files : List (List Nat)) (k : Nat) : Prop where
  wellFormed : WellFormed n s.dev dirs files
  parents : ParentLinks s.dev dirs
  cur : s.currentDirBlk ∈ heads dirs
  level : Level s.dev dirs s.currentDirBlk k
  /-- Down into a directory, any changes there, and up again. -/
  there_and_back : ∀ name t, tfsChangeDir e name s = some ((), t) → t.tfsLastError = .ok → ∀ cs : List DirCall,
    ∃ t' u, Prog.runAll (DirCall.exec e) cs t = some ((), t') ∧ tfsChangeDirParent e t' = some ((), u) ∧
      u.tfsLastError = .ok ∧ u.currentDirBlk = s.currentDirBlk
  /-- The root is reached in `k` steps up, and in no fewer. -/
  up : ∀ i ≤ k, ∃ t, climb e i s = some ((), t) ∧ (t.currentDirBlk = rootDirBlk ↔ i = k)
  /-- From there it goes no further. -/
  top : ∃ t u, climb e k s = some ((), t) ∧ tfsChangeDirParent e t = some ((), u) ∧ u.tfsLastError = .notExist ∧
    u.currentDirBlk = t.currentDirBlk

theorem Rooted.navigable (he : e.NeverFails) (hf : n ≤ e.fuel) (hs : Rooted n s) :
    ∃ dirs files k, Navigable e n s dirs files k := by
  obtain ⟨L, hs, ht, hup⟩ := hs
  have hwf := hs.volume.wellFormed ht
  obtain ⟨C, hC, hcur⟩ := mem_heads hs.cur
  obtain ⟨k, hk⟩ := hwf.level_exists hC
  rw [hcur] at hk
  have hclimb := climb_ok he hs hup hk
  have hroot : ∀ i ≤ k, ∃ t, climb e i s = some ((), t) ∧ Stays n s t L ∧ (t.currentDirBlk = rootDirBlk ↔ i = k) := by
    intro i hi
    obtain ⟨t, hrun, hst, hl⟩ := hclimb i hi
    rw [hst.dev] at hl
    exact ⟨t, hrun, hst, (hwf.level_root hl).trans (by omega)⟩
  refine ⟨L.dirs, L.files, k, hwf, hs.volume.parentLinks hup, hs.cur, hk, ?_, fun i hi => ?_, ?_⟩
  · intro name t hrun herr cs
    obtain ⟨t', hrun', hst, hmoved⟩ := tfsChangeDir_ok he hf hs name
    rw [hrun] at hrun'
    cases hrun'
    obtain ⟨P, hP, hPcur, x, hx, hxt, hxb⟩ := hmoved herr
    have hbelow : Below n P x t L := ⟨hst.sys, hup, by rw [hst.dev]; exact ⟨hP, hx, hxt⟩, hxb⟩
    obtain ⟨t', hruns, L', hb'⟩ := hbelow.run he hf cs
    obtain ⟨u, hrunu, -, herru, hcuru⟩ := hb'.up_ok he
    exact ⟨t', u, hruns, hrunu, herru, hcuru.trans hPcur⟩
  · obtain ⟨t, hrun, -, h⟩ := hroot i hi
    exact ⟨t, hrun, h⟩
  · obtain ⟨t, hrun, hst, h⟩ := hroot k (Nat.le_refl k)
    obtain ⟨u, hrunu, -, hnone, -⟩ := tfsChangeDirParent_ok he hst.sys hup
    have hpar : L.par t.currentDirBlk = 0 := by
      rw [h.mpr rfl]
      exact hs.volume.root
    exact ⟨t, u, hrun, hrunu, hnone hpar⟩

/-- On a drive that never fails, every state a run of the basic API on a freshly
formatted volume ends in has its directories linked to their parents, and can be
navigated by them. -/
theorem run_navigable (he : e.NeverFails) (hd : e.drive.blkCount = some n) (hn : 2 ≤ n) (hlt : n < 2 ^ 32)
    (hf : n ≤ e.fuel) (s : State) : ∃ s₀, formatted e s = some ((), s₀) ∧ ∀ (ops : List Op) (s' : State),
      (∀ c ∈ ops, c.basic = true) → Prog.runAll (Op.exec e) ops s₀ = some ((), s') →
      ∃ dirs files k, Navigable e n s' dirs files k := by
  obtain ⟨s₀, hrun, hs, -⟩ := formatted_ok he hd hn hlt hf s
  refine ⟨s₀, hrun, fun ops s' hops hruns => ?_⟩
  have hr : Rooted n s' := Prog.runAll_keeps (I := Rooted n) (fun c hc t t' ht h => ht.step he hd hn hf
      (hops c hc) h) hruns
    ⟨_, hs, Layout.fresh_tight, trivial⟩
  exact hr.navigable he hf

/-- Sixteen blocks. -/
theorem run_navigable_sixteen : ∃ s₀, formatted (Env.linux 16) (State.boot fun _ => Buf.zero) = some ((), s₀) ∧
    ∀ (ops : List Op) (s' : State), (∀ c ∈ ops, c.basic = true) → Prog.runAll (Op.exec (Env.linux 16)) ops s₀ =
    some ((), s') →
      ∃ dirs files k, Navigable (Env.linux 16) 16 s' dirs files k :=
  run_navigable (Env.linux_neverFails 16) rfl (by omega) (by omega) (by decide) _

end TinyFs
