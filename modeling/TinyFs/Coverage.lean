/-
A file has as many blocks as its size asks for. The entry of a new file gets its
final size before the data is written, so a volume that runs full behind the first
block is left with an entry that promises more than its chain holds; as long as
that does not happen every file stays covered, and can be read.
-/
import TinyFs.ReadBack

namespace TinyFs

open Bytes Chains

variable {e : Env} {n : Nat} {s s' : State} {L L' : Layout} {C C' : List Nat} {A B old new : List DirItem}
  {name data : List UInt8} {len : Nat} {ov : Bool} {dev dev' : Nat → Block}

/-- The chain of a file holds its size. -/
def DirItem.Covered (n : Nat) (dev : Nat → Block) (x : DirItem) : Prop :=
  x.type = itemFile → x.size ≤ dataLen * (follow dev n x.blk).length

/-- The size of every live file entry is at most 504 times the number of its blocks. -/
def Covered (n : Nat) (dev : Nat → Block) : Prop :=
  ∀ b i, DirReached dev b → i < dirBlkItems → ((dev b).item i).Covered n dev

/-- The same, by the layout. -/
def Layout.Covered (n : Nat) (dev : Nat → Block) (L : Layout) : Prop :=
  ∀ d ∈ L.dirs, ∀ x ∈ TinyFs.entries dev d, x.Covered n dev

theorem Volume.covered (hv : Volume n dev L) (h : L.Covered n dev) : Covered n dev := by
  intro b i hb hi ht
  obtain ⟨d, hd, hbd⟩ := List.mem_flatten.mp (hv.mem_of_dirReached hb)
  have hl : ((dev b).item i).live = true := live_of_ne_free (by rw [ht]; decide)
  exact h d hd _ (item_mem_entries hbd hi hl) ht

/-- An entry keeps its chain where the blocks of that are kept. -/
theorem DirItem.Covered.keep {x : DirItem} (hv : Volume n dev L) (hv' : Volume n dev' L') {d : List Nat} (hd : d ∈ L.dirs)
    (hx : x ∈ TinyFs.entries dev d) (hfiles : x.type = itemFile → x.blk ≠ 0 → ∀ c ∈ L.files, firstBlk c = x.blk →
    c ∈ L'.files)
    (h : x.Covered n dev) : x.Covered n dev' := by
  intro ht
  have hsize := h ht
  by_cases hb : x.blk = 0
  · rw [hb, follow_zero] at hsize
    rwa [hb, follow_zero]
  · obtain ⟨c, hc, hhead⟩ := mem_heads (hv.mem_files hd hx ht hb)
    have hc' := hfiles ht hb c hc hhead
    rw [← hhead, hv.owned.follow_eq (c := c) (by simp [Layout.chains, hc])] at hsize
    rwa [← hhead, hv'.owned.follow_eq (c := c) (by simp [Layout.chains, hc'])]

/-- A step of the directory keeps the volume covered, if what it brings is. -/
theorem DirOp.covered {c : DirCall} (h : DirOp e n L c s s' L' C C' A old new B) (hv : Volume n s.dev L)
    (hs : L.Covered n s.dev) (hnew : ∀ x ∈ new, x.Covered n s'.dev) : L'.Covered n s'.dev := by
  -- an entry that was there before, and is not one of those taken out
  have hkeep : ∀ d ∈ L.dirs, ∀ x ∈ entries s.dev d, (x ∈ A ++ B ∨ ∃ d ∈ L.dirs, firstBlk d ≠ firstBlk C ∧
    x ∈ entries s.dev d) →
      x.Covered n s'.dev := by
    intro d hd x hx hapart
    refine (hs d hd x hx).keep hv h.sys.volume hd hx fun ht hb c' hc' hhead => (h.files c' hc' fun hdrop => ?_).1
    have hmem : firstBlk c' ∈ x.dirHead ++ x.fileHead := by
      simp [DirItem.fileHead, ht, hb, hhead]
    exact hv.starts_apart h.mem h.before hapart hmem (DirCall.dropped_sub hdrop)
  intro d hd x hx
  by_cases hcur : firstBlk d = s.currentDirBlk
  · have hdC : d = C' := by
      have h1 := h.sys.volume.owned.follow_eq (c := d) (List.mem_append_left _ hd)
      have h2 := h.sys.volume.owned.follow_eq (c := C') (List.mem_append_left _ h.mem')
      rw [← h1, hcur, ← h.head', h2]
    rw [hdC, h.after] at hx
    simp only [List.mem_append] at hx
    rcases hx with (hx | hx) | hx
    · exact hkeep C h.mem x (by simp [h.before, hx]) (.inl (List.mem_append_left _ hx))
    · exact hnew x hx
    · exact hkeep C h.mem x (by simp [h.before, hx]) (.inl (List.mem_append_right _ hx))
  · rcases h.dirs_from d hd hcur with ⟨hd', hsame⟩ | ⟨hempty, -⟩
    · have hentries : entries s'.dev d = entries s.dev d := entries_congr fun b hb i _ => by rw [hsame b hb]
      rw [hentries] at hx
      exact hkeep d hd' x hx (.inr ⟨d, hd', by rwa [h.head], hx⟩)
    · rw [hempty] at hx
      simp at hx

/-- What a step brings that writes no data needs no block, or is there already. -/
theorem DirStep.new_size {c : DirCall} {cmp : List UInt8 → List UInt8 → Bool} {held : Prop} {err : Err}
    (h : DirStep cmp held c err A old new B) (hc : ∀ name data len ov, c ≠ .writeFile name data len ov) :
    ∀ x ∈ new, x.type = itemFile → x.size = 0 ∨
      (c.dropped old = [] ∧ ∃ y ∈ old, y.type = itemFile ∧ y.blk = x.blk ∧ y.size = x.size) := by
  cases h with
  | createDir _ _ =>
    intro x hx ht
    obtain rfl := List.mem_singleton.mp hx
    cases ht
  | touch _ _ =>
    intro x hx _
    obtain rfl := List.mem_singleton.mp hx
    exact .inl rfl
  | rename _ _ _ _ =>
    intro x hx ht
    obtain rfl := List.mem_singleton.mp hx
    exact .inr ⟨rfl, _, List.mem_singleton.mpr rfl, ht, rfl, rfl⟩
  | writeNew _ _ _ => exact absurd rfl (hc _ _ _ _)
  | writeOver _ _ _ _ => exact absurd rfl (hc _ _ _ _)
  | _ => exact fun _ hx => absurd hx List.not_mem_nil

/-- A call that writes no file keeps the volume covered. -/
theorem DirOp.covered_quiet {c : DirCall} (h : DirOp e n L c s s' L' C C' A old new B) (hv : Volume n s.dev L)
    (hs : L.Covered n s.dev) (hc : ∀ name data len ov, c ≠ .writeFile name data len ov) : L'.Covered n s'.dev := by
  refine h.covered hv hs fun x hx ht => ?_
  rcases h.step.new_size hc x hx ht with hsize | ⟨hdrop, y, hy, hty, hblk, hsize⟩
  · rw [hsize]
    exact Nat.zero_le _
  · have hmem : y ∈ entries s.dev C := by simp [h.before, hy]
    have hkept : y.Covered n s'.dev := (hs C h.mem y hmem).keep hv h.sys.volume h.mem hmem fun _ _ c' hc' _ =>
      (h.files c' hc' (by simp [hdrop])).1
    rw [← hsize, ← hblk]
    exact hkept hty

/-- A file with all its data is covered. -/
theorem newFile_covered {pos : Nat}
    (hall : (follow s'.dev n pos).length = blocksFor len) : (newFile name len pos).Covered n s'.dev := by
  intro _
  show len % 2 ^ 32 ≤ dataLen * (follow s'.dev n pos).length
  rw [hall]
  exact Nat.le_trans (Nat.mod_le _ _) (le_blocksFor len)

theorem tfsWriteFile_covered (he : e.NeverFails) (hf : n ≤ e.fuel) (hs : Sys n s L) (hcov : L.Covered n s.dev)
    (name data : List UInt8) (len : Nat) (ov : Bool) (hcut : ¬ s.CutOff e n name len ov) :
    ∃ s', tfsWriteFile e name data len ov s = some ((), s') ∧ ∃ L', Sys n s' L' ∧ L'.loose = L.loose ∧
      L'.leaked = L.leaked ∧ L'.upLinks = L.upLinks ∧ L'.Covered n s'.dev := by
  obtain ⟨s', hrun, hend⟩ := tfsWriteFile_end he hf hs name data len ov
  refine ⟨s', hrun, ?_⟩
  rcases hend.whole hs.mounted.pos hcut with ⟨hd, _⟩ | ⟨pos, hd, _, hall⟩
  · obtain ⟨L', C, C', A, old, B, h⟩ := hd
    exact ⟨L', h.sys, h.loose, h.leaked, h.upLinks, h.covered hs.volume hcov (by simp)⟩
  · obtain ⟨L', C, C', A, old, B, h⟩ := hd
    refine ⟨L', h.sys, h.loose, h.leaked, h.upLinks, h.covered hs.volume hcov fun x hx => ?_⟩
    obtain rfl := List.mem_singleton.mp hx
    exact newFile_covered hall

/-- A file cut off is not covered, and reading it ends unexpectedly. -/
theorem DirDone.uncovered (he : e.NeverFails) (hf : n ≤ e.fuel) (hcmp : e.filenameCmp = strncmpName) {pos : Nat}
    (hd : DirDone e n L (.writeFile name data len ov) s s' [newFile name len pos]) (hname : name.headD 0 ≠ 0)
    (h32 : len < 2 ^ 32) (hpos : 0 < (follow s'.dev n pos).length)
    (hpart : (follow s'.dev n pos).length < blocksFor len) :
    ¬ Covered n s'.dev ∧ ∃ r t, tfsReadFile e name len s' = some (r, t) ∧ t.tfsLastError = .unexpEof := by
  obtain ⟨q, hq, hitem⟩ := hd.lookup hcmp
  obtain ⟨L', C, C', A, old, B, h⟩ := hd
  have hshort : dataLen * (follow s'.dev n pos).length < len := by
    simp only [dataLen, blocksFor] at *
    omega
  have hblk : (itemAt s'.dev q).blk = pos := by rw [hitem, newFile]
  have hsize : (itemAt s'.dev q).size = len := by rw [hitem, newFile, Nat.mod_eq_of_lt h32]
  have htype : (itemAt s'.dev q).type = itemFile := by rw [hitem, newFile]
  constructor
  · intro hcov
    have hmem := mem_slots.mp (List.mem_of_find?_eq_some hq)
    have hcur : follow s'.dev n s'.currentDirBlk = C' := by
      rw [h.frame.cur, ← h.head', h.sys.volume.owned.follow_eq (List.mem_append_left _ h.mem')]
    rw [hcur] at hmem
    have hle := hcov q.1 q.2 (h.sys.volume.dirReached h.mem' _ hmem.1) hmem.2 htype
    have hle : (itemAt s'.dev q).size ≤ dataLen * (follow s'.dev n (itemAt s'.dev q).blk).length := hle
    rw [hsize, hblk] at hle
    omega
  · have hne : pos ≠ 0 := fun h0 => by simp [h0, follow_zero] at hpos
    obtain ⟨t, hread, herr⟩ := tfsReadFile_ok he hf h.sys hname hq htype (hblk ▸ hne) len (by rw [hblk]) (m := len)
      (by rw [hsize, Nat.min_self])
    exact ⟨_, t, hread, herr.trans (if_neg (by omega))⟩

/-! ## Runs -/

/-- The call is no `tfs_write_file` that runs out of blocks behind the first one. -/
def Call.Fits (e : Env) (n : Nat) (s : State) : Call → Prop
  | .onDir (.writeFile name _ len ov) => ¬ s.CutOff e n name len ov
  | _ => True

theorem Call.exec_covered (he : e.NeverFails) (hf : n ≤ e.fuel) (hs : Sys n s L) (hup : L.upLinks)
    (hcov : L.Covered n s.dev) (c : Call) (hc : c.Fits e n s) : ∃ s' L', c.exec e s = some ((), s') ∧ Sys n s' L' ∧
      L'.loose = L.loose ∧ L'.leaked = L.leaked ∧ L'.upLinks ∧ L'.Covered n s'.dev := by
  have hstay : ∀ s', Stays n s s' L → L.Covered n s'.dev := fun s' h => by rwa [h.dev]
  cases c with
  | onDir c =>
    by_cases hw : ∃ name data len ov, c = .writeFile name data len ov
    · obtain ⟨name, data, len, ov, rfl⟩ := hw
      obtain ⟨s', hrun, L', hs', h1, h2, h3, h4⟩ := tfsWriteFile_covered he hf hs hcov name data len ov hc
      exact ⟨s', L', hrun, hs', h1, h2, h3 ▸ hup, h4⟩
    · obtain ⟨s', hrun, L', C, C', A, old, new, B, h⟩ := DirCall.exec_ok he hf hs c
      exact ⟨s', L', hrun, h.sys, h.loose, h.leaked, h.upLinks ▸ hup, h.covered_quiet hs.volume hcov
        fun name data len ov heq => hw ⟨name, data, len, ov, heq⟩⟩
  | changeDir name =>
    obtain ⟨s', hrun, h, -⟩ := tfsChangeDir_ok he hf hs name
    exact ⟨s', L, hrun, h.sys, rfl, rfl, hup, hstay s' h⟩
  | changeDirParent =>
    obtain ⟨s', hrun, h, -⟩ := tfsChangeDirParent_ok he hs hup
    exact ⟨s', L, hrun, h.sys, rfl, rfl, hup, hstay s' h⟩
  | changeDirRoot =>
    obtain ⟨s', hrun, h⟩ := tfsChangeDirRoot_ok hs
    exact ⟨s', L, hrun, h.sys, rfl, rfl, hup, hstay s' h⟩
  | readDir handler =>
    obtain ⟨C, hC, hcur⟩ := mem_heads hs.cur
    obtain ⟨s', hrun, h⟩ := tfsReadDir_ok he hf hs hC hcur handler
    exact ⟨s', L, Prog.bind_some hrun, h.sys, rfl, rfl, hup, hstay s' h⟩
  | getUsed =>
    obtain ⟨s', hrun, h⟩ := tfsGetUsed_stays he hf hs
    exact ⟨s', L, Prog.bind_some hrun, h.sys, rfl, rfl, hup, hstay s' h⟩

/-- A run of the basic API whose every `tfs_write_file` has room for its data, or for none of it. -/
def FittingRun (e : Env) (n : Nat) : State → State → Prop := Prog.GuardedRun (Call.exec e) fun c s => c.Fits e n s

theorem FittingRun.covered (he : e.NeverFails) (hf : n ≤ e.fuel) (h : FittingRun e n s s') (hs : Sys n s L)
    (hup : L.upLinks) (hcov : L.Covered n s.dev) : ∃ L', Sys n s' L' ∧ L'.upLinks ∧ L'.Covered n s'.dev := by
  refine Prog.GuardedRun.keeps (I := fun t => ∃ L', Sys n t L' ∧ L'.upLinks ∧ L'.Covered n t.dev) h ?_ ⟨L, hs, hup, hcov⟩
  rintro c t t' ⟨L', ht, hup, hcov⟩ hc hrun
  obtain ⟨t₁, L₁, hrun', ht', _, _, hup', hcov'⟩ := Call.exec_covered he hf ht hup hcov _ hc
  rw [hrun] at hrun'
  cases hrun'
  exact ⟨L₁, ht', hup', hcov'⟩

/-- On a freshly formatted volume and a drive that never fails, every run that does
not run full behind the first block of a file keeps the size of every file within
its chain, and every file that is not empty can be read without an error. -/
theorem run_covered (he : e.NeverFails) (hd : e.drive.blkCount = some n) (hn : 2 ≤ n) (hlt : n < 2 ^ 32)
    (hf : n ≤ e.fuel) (s : State) : ∃ s₀, formatted e s = some ((), s₀) ∧ ∀ s', FittingRun e n s₀ s' →
      Covered n s'.dev ∧ ∀ (name : List UInt8) (q : Nat × Nat), name.headD 0 ≠ 0 → s'.lookup e n name = some q →
        (itemAt s'.dev q).type = itemFile → (itemAt s'.dev q).size ≠ 0 → ∀ maxLen, ∃ r t,
          tfsReadFile e name maxLen s' = some (r, t) ∧ t.tfsLastError = .ok := by
  obtain ⟨s₀, hrun, hs, -, hroot⟩ := formatted_ok he hd hn hlt hf s
  refine ⟨s₀, hrun, fun s' h => ?_⟩
  have hfresh : Layout.fresh.Covered n s₀.dev := by
    intro d hd x hx
    obtain rfl : d = [rootDirBlk] := List.mem_singleton.mp hd
    rw [entries_single_free fun i _ => by rw [hroot, Block.itemType_zero]] at hx
    cases hx
  obtain ⟨L, hs', -, hcov⟩ := FittingRun.covered he hf h hs trivial hfresh
  refine ⟨hs'.volume.covered hcov, fun name q hname hq ht hsize maxLen => ?_⟩
  obtain ⟨C, D, hcur⟩ := hs'.current_enter
  have hfind : ((slots C).find? fun p => hits e name (itemAt s'.dev p)) = some q := by
    have hfollow : follow s'.dev n s'.currentDirBlk = C := hcur.follow_eq
    rwa [State.lookup, hfollow] at hq
  obtain ⟨P, Q, hfd⟩ := found_of_find hfind
  have hcovered := hcov C hcur.mem (itemAt s'.dev q) (by rw [hfd.entries]; simp) ht
  have hb : (itemAt s'.dev q).blk ≠ 0 := fun hb => by
    rw [hb, follow_zero] at hcovered
    exact hsize (Nat.le_zero.mp hcovered)
  obtain ⟨t, hread, herr⟩ := tfsReadFile_ok he hf hs' hname hq ht hb maxLen rfl rfl
  exact ⟨_, t, hread, herr.trans (if_pos (Nat.le_trans (Nat.min_le_left _ _) hcovered))⟩

/-- A file of 1000 bytes in a freshly formatted volume of sixteen blocks. -/
theorem run_covered_sixteen : ∃ s₀ s', formatted (Env.linux 16) (State.boot fun _ => Buf.zero) = some ((), s₀) ∧
    FittingRun (Env.linux 16) 16 s₀ s' ∧ Covered 16 s'.dev := by
  obtain ⟨s₀, hrun, hall⟩ := run_covered (Env.linux_neverFails 16) rfl (by omega) (by omega) (by decide)
    (State.boot fun _ => Buf.zero)
  obtain ⟨s₁, hrun', hs, -⟩ := formatted_ok (Env.linux_neverFails 16) rfl (by omega) (by omega) (by decide)
    (State.boot fun _ => Buf.zero)
  obtain rfl : s₀ = s₁ := by
    rw [hrun] at hrun'
    cases hrun'
    rfl
  have hroom : (formatted (Env.linux 16) (State.boot fun _ => Buf.zero)).map
      (fun p => p.2.room (Env.linux 16) 16 [97]) = some 14 := by decide +kernel
  rw [hrun, Option.map_some, Option.some.injEq] at hroom
  obtain ⟨s', hwrite, -⟩ := tfsWriteFile_end (Env.linux_neverFails 16) (by decide) hs [97]
      (List.replicate 1000 65) 1000 false
  have hfit : Call.Fits (Env.linux 16) 16 s₀ (.onDir (.writeFile [97] (List.replicate 1000 65) 1000 false)) := by
    intro hcut
    have hlt := hcut.2.2
    rw [hroom] at hlt
    exact absurd hlt (by decide)
  have hfitting : FittingRun (Env.linux 16) 16 s₀ s' := .cons hfit hwrite .nil
  exact ⟨s₀, s', hrun, hfitting, (hall s' hfitting).1⟩

/-- On a volume of four blocks, a file of 1500 bytes is left with that size and two
blocks, and reading it ends unexpectedly. -/
theorem run_covered_four : ∃ s₀ s', formatted (Env.linux 4) (State.boot fun _ => Buf.zero) = some ((), s₀) ∧
    tfsWriteFile (Env.linux 4) [97] (List.replicate 1500 65) 1500 false s₀ = some ((), s') ∧
    s'.tfsLastError = .diskFull ∧ ¬ Covered 4 s'.dev ∧
    ∃ r t, tfsReadFile (Env.linux 4) [97] 1500 s' = some (r, t) ∧ t.tfsLastError = .unexpEof := by
  obtain ⟨s₀, hrun, hs, -⟩ := formatted_ok (Env.linux_neverFails 4) rfl (by omega) (by omega) (by decide)
    (State.boot fun _ => Buf.zero)
  obtain ⟨s', hwrite, hend⟩ := tfsWriteFile_end (Env.linux_neverFails 4) (by decide) hs [97] (List.replicate 1500 65)
    1500 false
  have hroom : (formatted (Env.linux 4) (State.boot fun _ => Buf.zero)).map
      (fun p => (p.2.room (Env.linux 4) 4 [97], p.2.lookup (Env.linux 4) 4 [97])) = some (2, none) := by decide +kernel
  rw [hrun, Option.map_some, Option.some.injEq, Prod.mk.injEq] at hroom
  have hacc : s₀.Accepts (Env.linux 4) 4 [97] false := ⟨by decide, fun q hq => absurd (hroom.2 ▸ hq) nofun⟩
  obtain ⟨pos, hd, herr, hpos, hpart⟩ := hend.cut ⟨hacc, by rw [hroom.1]; decide, by rw [hroom.1]; decide⟩
  exact ⟨s₀, s', hrun, hwrite, herr,
    hd.uncovered (Env.linux_neverFails 4) (by decide) rfl (by decide) (by omega) hpos hpart⟩

end TinyFs
