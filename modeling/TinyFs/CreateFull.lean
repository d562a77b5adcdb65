/-
A full disk in the middle of a creation. `find_file` links a new block to a directory
without a free item before its caller allocates anything, and nothing takes the block
back: `tfs_create_dir` in such a directory with one free block left ends with the
directory longer by an empty block. In all other cases a creation that finds the disk
full leaves the medium as it was.
-/
import TinyFs.EmptyFile
import TinyFs.DirOps
import TinyFs.Bracket

namespace TinyFs

open Bytes Chains

variable {e : Env} {n : Nat} {s s' t : State} {L : Layout} {C C' : List Nat} {D cs : List (List Nat)} {xs : List Nat}
  {dirs files : List (List Nat)} {name : List UInt8}

/-- A call that found the disk full left the directory `C` longer by the last free block,
in which no item is in use, and everything else as it was. -/
structure GrownOnly (n : Nat) (s s' : State) (dirs files : List (List Nat)) (C : List Nat) (b : Nat) : Prop where
  free : b < n ∧ ¬ Used s.dev b
  full : Full n s'.dev
  chain : follow s'.dev n s'.currentDirBlk = C ++ [b]
  entries : entries s'.dev (C ++ [b]) = entries s.dev C
  dirs : ∀ d ∈ dirs, d ≠ C → ∀ x ∈ d, s'.dev x = s.dev x
  files : ∀ c ∈ files, ∀ x ∈ c, s'.dev x = s.dev x
  rest : ∃ dirs' files', AtRest n s' dirs' files'

/-- A creation needs a block for the entry where the directory has no free item; that
block, and no other, is free. -/
def OneBlockShort (n : Nat) (s : State) : Prop :=
  growth s.dev (follow s.dev n s.currentDirBlk) = 1 ∧ freeCount n s.dev = 1

/-- A public function whose body returns. -/
theorem enter_returns {p : M Unit} {R : State → Prop} (hs : s.tfsLastError ≠ .noDev)
    (h : ∃ t, p s.started = some ((), t) ∧ R (t.call .deselect)) : ∃ s', enter () (out p) s = some ((), s') ∧ R s' := by
  obtain ⟨t, hrun, hR⟩ := h
  refine ⟨t.call .deselect, ?_, hR⟩
  rw [enter_started hs, hrun]
  rfl

/-- `tfs_touch` needs a block for the entry only, and finds none before it writes. -/
theorem tfsTouch_diskFull (he : e.NeverFails) (hf : n ≤ e.fuel) (hs : Sys n s L) (name : List UInt8) :
    ∃ s', tfsTouch e name s = some ((), s') ∧ (s'.tfsLastError = .diskFull → s'.dev = s.dev) := by
  obtain ⟨C, D, h⟩ := hs.current_enter
  refine enter_returns (R := fun s' => s'.tfsLastError = .diskFull → s'.dev = s.dev) hs.dev
    (placing he hf h name (fun _ herr => by cases herr) (fun q P Q l hname hfd => ?_)
      (fun C' q s₁ hname hmiss hs₁ _ => ?_) (fun s₁ hname hmiss hs₁ _ _ => hs₁.dev))
  · have hne : (s.dev q.1).itemType q.2 ≠ itemFree := fun ht => by
      have := live_of_free (x := itemAt s.dev q) ht
      have hlive : (itemAt s.dev q).live = true := hfd.live
      rw [hlive] at this
      cases this
    refine ⟨{ s.started with blkBuf := s.dev q.1, loadedDirBlk := q.1, log := l }, ?_, fun _ => rfl⟩
    simp only [Option.getD_some, blkBuf_bind, ne_eq]
    exact if_pos hne ▸ rfl
  · have hlt : q.1 < s₁.blkCount := hs₁.mem_lt (c := C') (by simp) hs₁.slot_lt.1
    refine ⟨{ s₁ with
        blkBuf := fillItem q.2 itemFile 0 0 name (s₁.dev q.1)
        dev := Function.update s₁.dev q.1 (fillItem q.2 itemFile 0 0 name (s₁.dev q.1))
        log := s₁.log.transfer (.write q.1 true) }, ?_, fun herr => ?_⟩
    · simp only [Option.getD_some, blkBuf_bind, ne_eq, hs₁.type, not_true_eq_false, if_false, modifyBuf_bind,
        Prog.gets_bind, id_eq, hs₁.dirBlk, hs₁.buf]
      rw [driveWriteBlock_ok he (by exact hs₁.err) (by exact hlt)]
    · have herr : s₁.tfsLastError = .diskFull := herr
      rw [hs₁.err] at herr
      cases herr

/-- What `tfs_create_dir` leaves when it finds the disk full. -/
def FullOutcome (n : Nat) (s s' : State) (L : Layout) : Prop :=
  (s'.dev = s.dev ∧ ¬ OneBlockShort n s) ∨ OneBlockShort n s ∧ ∃ C C' D, L.dirs.Perm (C :: D) ∧ C'.length = C.length + 1 ∧
    C <+: C' ∧ Owned n s.dev (C :: (D ++ (L.files ++ L.loose))) L.leaked ∧
    Owned n s'.dev (C' :: (D ++ (L.files ++ L.loose))) L.leaked ∧ Full n s'.dev ∧ firstBlk C = s.currentDirBlk ∧
    firstBlk C' = s'.currentDirBlk ∧ entries s'.dev C' = entries s.dev C ∧ AgreeOff C' s.dev s'.dev

theorem tfsCreateDir_outcome (he : e.NeverFails) (hf : n ≤ e.fuel) (hs : Sys n s L) (name : List UInt8) :
    ∃ s', tfsCreateDir e name s = some ((), s') ∧ (s'.tfsLastError = .diskFull → FullOutcome n s s' L) := by
  obtain ⟨C, D, h⟩ := hs.current_enter
  have hfollow : follow s.dev n s.currentDirBlk = C := h.follow_eq
  refine enter_returns (R := fun s' => s'.tfsLastError = .diskFull → FullOutcome n s s' L) hs.dev
    (placing he hf h name (fun _ herr => by cases herr) (fun q P Q l hname hfd => ?_)
      (fun C' q s₁ hname hmiss hs₁ hgrow => ?_) (fun s₁ hname hmiss hs₁ _ _ => .inl ⟨hs₁.dev, fun hshort => ?_⟩))
  · have hne : (s.dev q.1).itemType q.2 ≠ itemFree := fun ht => by
      have := live_of_free (x := itemAt s.dev q) ht
      have hlive : (itemAt s.dev q).live = true := hfd.live
      rw [hlive] at this
      cases this
    refine ⟨{ s.started with blkBuf := s.dev q.1, loadedDirBlk := q.1, log := l, tfsLastError := .fileExist }, ?_,
      fun herr => by cases herr⟩
    simp only [Option.getD_some, blkBuf_bind, ne_eq]
    exact if_pos hne ▸ rfl
  · simp only [Option.getD_some, blkBuf_bind, ne_eq, hs₁.type, not_true_eq_false, if_false, hs₁.buf]
    rcases hs₁.alloc he hf hs₁.err with ⟨b, s₂, ha⟩ | ⟨s₂, ha⟩
    · obtain ⟨l, hrun⟩ := createDir_run he name hs₁ ha
      refine ⟨_, hrun, fun herr => ?_⟩
      have herr : s₂.tfsLastError = .diskFull := herr
      rw [ha.err] at herr
      cases herr
    · have herr₂ : s₂.tfsLastError ≠ .ok := by
        rw [ha.err]
        exact Err.noConfusion
      refine ⟨s₂, by rw [Prog.bind_some ha.run, ifOk_err herr₂], fun _ => ?_⟩
      have hzero : freeCount n s₁.dev = 0 := freeCount_eq_zero.mpr ha.full
      have hadd : freeCount n s.dev + _ = freeCount n s₁.dev + _ := h.owned.freeCount_add hs₁.owned
      simp only [List.flatten_cons, List.length_append] at hadd
      have hgrow : C'.length = C.length + growth s.dev C := hgrow
      have hdev : s₂.dev = s₁.dev := ha.dev
      rcases Nat.lt_or_eq_of_le (show growth s.dev C ≤ 1 by unfold growth; split <;> omega) with hlt | hone
      · -- the item found is free: no block was appended
        have hsame : C' = C := (hs₁.grows.eq_of_length (by omega)).symm
        refine .inl ⟨hdev.trans (hs₁.same hsame), fun hshort => ?_⟩
        have := hshort.1
        rw [hfollow] at this
        omega
      · refine .inr ⟨⟨by rw [hfollow, hone], by omega⟩, C, C', D, h.dirs, by omega, hs₁.grows, h.owned, ?_, ?_,
          h.cur.symm, ?_, ?_, ?_⟩
        · exact ha.ready.owned
        · show Full n s₂.dev
          rw [hdev]
          exact ha.full
        · exact hs₁.head.trans (h.cur.symm.trans (hs₁.frame.trans ha.kept.toFrame).cur.symm)
        · show entries s₂.dev C' = _
          rw [hdev, hs₁.entries]
        · show AgreeOff C' s.dev s₂.dev
          rw [hdev]
          exact hs₁.agree
  · have hfull : freeCount n s.dev = 0 := freeCount_eq_zero.mpr hs₁.full
    have hone := hshort.2
    omega

/-- The block is appended to the directory, and is the one that was free. -/
theorem FullOutcome.grownOnly (hs' : ∃ dirs' files', AtRest n s' dirs' files')
    (h : FullOutcome n s s' (layoutOf s.dev dirs files)) (hshort : OneBlockShort n s) :
    ∃ C b, C ∈ dirs ∧ firstBlk C = s.currentDirBlk ∧ GrownOnly n s s' dirs files C b := by
  rcases h with ⟨-, hno⟩ | ⟨-, C, C', D, hperm, hlen, hpre, ho, ho', hfull, hhead, hhead', hentries, hag⟩
  · exact absurd hshort hno
  obtain ⟨d, rfl⟩ := hpre
  obtain ⟨b, rfl⟩ : ∃ b, d = [b] := List.length_eq_one_iff.mp (by simpa using hlen)
  have hC : C ∈ dirs := hperm.mem_iff.mpr (by simp)
  have hb : b ∈ C ++ [b] := by simp
  have hlt : b < n := ho'.mem_lt (c := C ++ [b]) (by simp) hb
  have hsame : ∀ d ∈ D ++ ((layoutOf s.dev dirs files).files ++ (layoutOf s.dev dirs files).loose), ∀ x ∈ d,
      s'.dev x = s.dev x :=
    fun d hd x hx => hag x (ho'.mem_mod (List.mem_cons_of_mem _ hd) hx) (ho'.apart hd hx)
  refine ⟨C, b, hC, hhead, ⟨hlt, fun hused => ?_⟩, hfull, ?_, hentries, fun d hd hne => ?_, fun c hc => ?_, hs'⟩
  · rcases (ho.used b hlt).mp hused with hmod | hmem
    · exact ho'.mem_mod (c := C ++ [b]) (by simp) hb hmod
    · have hp : ((layoutOf s.dev dirs files).leaked ++ ((C ++ [b]) :: (D ++ ((layoutOf s.dev dirs files).files ++
          (layoutOf s.dev dirs files).loose))).flatten).Perm (b :: ((layoutOf s.dev dirs files).leaked ++
          (C :: (D ++ ((layoutOf s.dev dirs files).files ++ (layoutOf s.dev dirs files).loose))).flatten)) := by
        rw [List.flatten_cons, List.flatten_cons, List.append_assoc, List.singleton_append, ← List.append_assoc,
          ← List.append_assoc]
        exact List.perm_middle
      exact (List.nodup_cons.mp (hp.nodup_iff.mp ho'.nodup)).1 hmem
  · rw [← hhead']
    exact ho'.follow_eq (by simp)
  · refine hsame d (List.mem_append_left _ ?_)
    exact (List.mem_cons.mp (hperm.mem_iff.mp hd)).resolve_left hne
  · exact hsame c (by simp [layoutOf, hc])

/-- **A creation that finds the disk full leaves the volume as it was,** but for
`tfs_create_dir` in a directory without a free item with one block left: that block is
then the last of the directory, and empty. -/
theorem create_diskFull (he : e.NeverFails) (hf : n ≤ e.fuel) (hs : AtRest n s dirs files) (name : List UInt8) :
    (∃ s', tfsTouch e name s = some ((), s') ∧ (s'.tfsLastError = .diskFull → s'.dev = s.dev)) ∧
    ∃ s', tfsCreateDir e name s = some ((), s') ∧ (s'.tfsLastError = .diskFull →
      (¬ OneBlockShort n s → s'.dev = s.dev) ∧
      (OneBlockShort n s → ∃ C b, C ∈ dirs ∧ firstBlk C = s.currentDirBlk ∧ GrownOnly n s s' dirs files C b)) := by
  refine ⟨tfsTouch_diskFull he hf hs.sys name, ?_⟩
  obtain ⟨s', hrun, hout⟩ := tfsCreateDir_outcome he hf hs.sys name
  obtain ⟨t, hrun', L', _, _, _, _, _, _, hop⟩ := tfsCreateDir_ok he hf hs.sys name
  rw [hrun] at hrun'
  cases hrun'
  have hs' : ∃ dirs' files', AtRest n s' dirs' files' :=
      ⟨_, _, hop.sys.atRest ⟨hop.loose.trans rfl, hop.leaked.trans rfl⟩⟩
  refine ⟨s', hrun, fun herr => ⟨fun hno => ?_, fun hshort => (hout herr).grownOnly hs' hshort⟩⟩
  rcases hout herr with ⟨hdev, -⟩ | ⟨hshort, -⟩
  · exact hdev
  · exact absurd hshort hno

/-- Twenty files. -/
def twentyFiles : List Call := (List.range 20).map fun i => .onDir (.touch [UInt8.ofNat (65 + i)])

theorem twentyFiles_ok : ∃ s dirs files s', AtRest 3 s dirs files ∧
    (formatted (Env.linux 3) >>= fun _ => Prog.runAll (Call.exec (Env.linux 3)) twentyFiles)
    (State.boot fun _ => Buf.zero) =
      some ((), s) ∧ OneBlockShort 3 s ∧
    tfsCreateDir (Env.linux 3) [97] s = some ((), s') ∧ s'.tfsLastError = .diskFull ∧
    follow s.dev 3 rootDirBlk = [1] ∧ follow s'.dev 3 rootDirBlk = [1, 2] ∧ freeCount 3 s'.dev = 0 := by
  have hrun : ((formatted (Env.linux 3) >>= fun _ => Prog.runAll (Call.exec (Env.linux 3)) twentyFiles)
      (State.boot fun _ => Buf.zero)).bind (fun p => (tfsCreateDir (Env.linux 3) [97] p.2).map fun q =>
        (q.2.tfsLastError, [follow p.2.dev 3 1, follow q.2.dev 3 1],
          [growth p.2.dev (follow p.2.dev 3 p.2.currentDirBlk), freeCount 3 p.2.dev, freeCount 3 q.2.dev])) =
      some (.diskFull, [[1], [1, 2]], [1, 1, 0]) := by decide +kernel
  obtain ⟨s₀, hformat, hs₀, -⟩ := formatted_ok (Env.linux_neverFails 3) rfl (by omega) (by omega) (by decide)
    (State.boot fun _ => Buf.zero)
  obtain ⟨s, L, hfiles, hs, htight, -⟩ := hs₀.runAll (Env.linux_neverFails 3)
      (by decide) Layout.fresh_tight trivial twentyFiles
  have hfull := (Prog.bind_some (f := fun _ => Prog.runAll (Call.exec (Env.linux 3)) twentyFiles) hformat).trans hfiles
  rw [hfull, Option.bind_some, Option.map_eq_some_iff] at hrun
  obtain ⟨⟨_, s'⟩, hcreate, heq⟩ := hrun
  simp only [Prod.mk.injEq, List.cons.injEq, and_true] at heq
  obtain ⟨herr, ⟨hbefore, hafter⟩, hgrow, hone, hzero⟩ := heq
  exact ⟨s, _, _, s', hs.atRest htight, hfull, ⟨hgrow, hone⟩, hcreate, herr, hbefore, hafter, hzero⟩

/-- With twenty files in the root directory of a volume of three blocks, one block is
free: the directory is not made, and the root directory has the block. -/
theorem createDir_grows : ∃ s dirs files s', AtRest 3 s dirs files ∧
    (formatted (Env.linux 3) >>= fun _ => Prog.runAll (Call.exec (Env.linux 3)) twentyFiles)
    (State.boot fun _ => Buf.zero) =
      some ((), s) ∧
    tfsCreateDir (Env.linux 3) [97] s = some ((), s') ∧ s'.tfsLastError = .diskFull ∧
    follow s.dev 3 rootDirBlk = [1] ∧ follow s'.dev 3 rootDirBlk = [1, 2] ∧ freeCount 3 s.dev = 1 ∧
    freeCount 3 s'.dev = 0 := by
  obtain ⟨s, dirs, files, s', hs, hrun, hshort, hcreate, herr, hbefore, hafter, hzero⟩ := twentyFiles_ok
  exact ⟨s, dirs, files, s', hs, hrun, hcreate, herr, hbefore, hafter, hshort.2, hzero⟩

/-- What is left of that volume. -/
theorem create_diskFull_three : ∃ s s' dirs files C b, tfsCreateDir (Env.linux 3) [97] s = some ((), s') ∧
    s'.tfsLastError = .diskFull ∧ OneBlockShort 3 s ∧ C ∈ dirs ∧ firstBlk C = s.currentDirBlk ∧
    GrownOnly 3 s s' dirs files C b := by
  obtain ⟨s, dirs, files, s', hs, -, hshort, hcreate, herr, -⟩ := twentyFiles_ok
  obtain ⟨-, t, hcreate', hleft⟩ := create_diskFull (Env.linux_neverFails 3) (by decide) hs [97]
  rw [hcreate] at hcreate'
  cases hcreate'
  obtain ⟨C, b, hC, hhead, hgrown⟩ := (hleft herr).2 hshort
  exact ⟨s, s', dirs, files, C, b, hcreate, herr, hshort, hC, hhead, hgrown⟩

end TinyFs
