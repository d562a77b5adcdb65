/-
Reading a file without data. Its entry has the block number 0, and the loop of
`tfs_read_file` reads a block before it looks at the length that remains: so it
always reads block 0, the first bitmap block, and goes on where the bits of the
blocks 32 to 63 point to.
-/
import TinyFs.Bracket
import TinyFs.ReadBack

namespace TinyFs

open Bytes Chains

variable {e : Env} {n : Nat} {s s' : State} {L : Layout} {dirs files : List (List Nat)} {name : List UInt8}
  {q : Nat × Nat} {maxLen : Nat} {r : Nat × List UInt8}

/-- `tfs_read_file` returns 0 without an error, copies nothing, and reads no block
but those of the directory. -/
def ReadsEmpty (e : Env) (n : Nat) (s : State) (name : List UInt8) (maxLen : Nat) : Prop :=
  ∃ s' cs, tfsReadFile e name maxLen s = some ((0, []), s') ∧ s'.tfsLastError = .ok ∧ CallsBetween s s' cs ∧
    ∀ b ok, DriveCall.read b ok ∈ cs → b ∈ follow s.dev n s.currentDirBlk

/-- The loop at block 0 reads it. -/
theorem readFileLoop_zero (he : e.NeverFails) (hlt : 0 < s.blkCount) {fuel rem : Nat} {data data' : List UInt8}
    (h : readFileLoop e fuel 0 rem data s = some (data', s')) :
    ∃ cs, CallsBetween s s' (.read 0 true :: cs) := by
  cases fuel with
  | zero => cases h
  | succ fuel =>
    rw [readFileLoop] at h
    obtain ⟨_, s₁, hread, hrest⟩ := Prog.bind_eq_some.mp h
    rw [driveReadBlock_any he hlt] at hread
    cases hread
    have hloop : Acts e (ifOk data (do
        let b ← blkBuf
        let blkLen := if rem > dataLen then dataLen else rem
        let rem := if rem > dataLen then rem - dataLen else 0
        let data := data ++ (List.range blkLen).map b.data
        if b.next = 0 then do
          if rem > 0 then setErr .unexpEof
          pure data
        else readFileLoop e fuel b.next rem data)) := by
      refine ifOk_steps (Prog.Steps.bind (.gets _) fun b => .ite (fun _ => ?_) fun _ => ?_)
      · exact Prog.Steps.guard (fun _ => setEof_looks.acts) fun _ => .pure _
      · exact (readFileLoop_looks fuel _ _ _).acts
    obtain ⟨cs, hcs, -⟩ := transfers_of_run (acts_transfering hloop) hrest
    refine ⟨cs, ?_⟩
    rw [CallsBetween, hcs]
    simp [DriveLog.transfer]

/-- A call for a file without data that ends well has read block 0. -/
theorem tfsReadFile_zero (he : e.NeverFails) (hf : n ≤ e.fuel) (hs : Sys n s L) (hq : s.lookup e n name = some q)
    (ht : (itemAt s.dev q).type = itemFile) (hb : (itemAt s.dev q).blk = 0)
    (h : tfsReadFile e name maxLen s = some (r, s')) (hok : s'.tfsLastError = .ok) :
    ∃ cs, CallsBetween s s' cs ∧ DriveCall.read 0 true ∈ cs := by
  obtain ⟨C, D, hcur⟩ := hs.current_enter
  rw [tfsReadFile, enter_run hs.dev, out_run] at h
  obtain ⟨⟨_, t⟩, hrun, hend⟩ := Option.map_eq_some_iff.mp h
  cases hend
  by_cases hname : name.headD 0 = 0
  · rw [Prog.bind_some (findFile_noName hname false), ifOk_err (by exact Err.noConfusion)] at hrun
    cases hrun
    cases hok
  have hfollow : follow s.dev n s.currentDirBlk = C := hcur.follow_eq
  rw [State.lookup, hfollow] at hq
  rcases findFile_lookup he hf hcur.toInDir hname with ⟨p, l, hp, hfind⟩ | ⟨hnone, _⟩
  · have hp : ((slots C).find? fun p => hits e name (itemAt s.dev p)) = some p := hp
    obtain rfl : p = q := Option.some.inj (hp.symm.trans hq)
    obtain ⟨cs₁, hcs₁, -⟩ := transfers_of_run (((findFile_deeds name false : Deeds e false _)).mono fun _ _ =>
        Deed.transfers)
      (hfind false)
    rw [Prog.bind_some (hfind false), ifOk_ok (by exact hcur.err), blkBuf_bind] at hrun
    have htype : (s.dev p.1).itemType p.2 = itemFile := ht
    have hblk : (s.dev p.1).itemBlk p.2 = 0 := hb
    simp only [htype, ne_eq, not_true_eq_false, if_false, hblk] at hrun
    obtain ⟨data, t₁, hloop, hpure⟩ := Prog.bind_eq_some.mp hrun
    cases hpure
    obtain ⟨cs₂, hcs₂⟩ := readFileLoop_zero he (by exact hs.mounted.count ▸ hs.mounted.pos) hloop
    refine ⟨.select :: (cs₁ ++ (.read 0 true :: cs₂) ++ [.deselect]), ?_, by simp⟩
    have hall := hcs₁.trans hcs₂
    rw [CallsBetween] at hall ⊢
    simp only [State.call, DriveLog.call] at hall ⊢
    rw [hall]
    simp
  · have hnone : ((slots C).find? fun p => hits e name (itemAt s.dev p)) = none := hnone
    rw [hq] at hnone
    cases hnone

/-- **No file without data reads as the empty file it is:** whatever the volume and
the length asked for, the call fails, or has read block 0. -/
theorem tfsReadFile_empty (he : e.NeverFails) (hf : n ≤ e.fuel) (hs : AtRest n s dirs files)
    (hq : s.lookup e n name = some q) (ht : (itemAt s.dev q).type = itemFile) (hb : (itemAt s.dev q).blk = 0)
    (maxLen : Nat) : ¬ ReadsEmpty e n s name maxLen := by
  intro ⟨s', cs, hrun, hok, hcs, hreads⟩
  obtain ⟨cs', hcs', hzero⟩ := tfsReadFile_zero he hf hs.sys hq ht hb hrun hok
  obtain rfl := hcs.unique hcs'
  have hmem := hreads 0 true hzero
  obtain ⟨C, D, hcur⟩ := hs.sys.current_enter
  have hfollow : follow s.dev n s.currentDirBlk = C := hcur.follow_eq
  rw [hfollow] at hmem
  exact hcur.owned.mem_mod (c := C) (by simp) hmem rfl

/-- A formatted volume with one empty file in it. -/
def withEmptyFile (e : Env) : M Unit := do
  formatted e
  tfsTouch e [97]

theorem withEmptyFile_ok : ∃ s dirs files, withEmptyFile (Env.linux 16) (State.boot fun _ => Buf.zero) = some ((), s) ∧
    AtRest 16 s dirs files ∧ s.lookup (Env.linux 16) 16 [97] = some (1, 0) ∧
    itemAt s.dev (1, 0) = { blk := 0, size := 0, type := itemFile, name := 97 :: List.replicate 15 0 } := by
  obtain ⟨s₀, hrun, hs, -⟩ := formatted_ok (Env.linux_neverFails 16) rfl (by omega) (by omega) (by decide)
    (State.boot fun _ => Buf.zero)
  obtain ⟨s, htouch, L', _, _, _, _, _, _, h⟩ := tfsTouch_ok (Env.linux_neverFails 16) (by decide) hs [97]
  have htight : L'.Tight := ⟨h.loose.trans rfl, h.leaked.trans rfl⟩
  have hrun : withEmptyFile (Env.linux 16) (State.boot fun _ => Buf.zero) = some ((), s) := by
    rw [withEmptyFile, Prog.bind_some hrun]
    exact htouch
  have hlook : (withEmptyFile (Env.linux 16) (State.boot fun _ => Buf.zero)).map (fun p =>
      (p.2.lookup (Env.linux 16) 16 [97], itemAt p.2.dev (1, 0))) =
      some (some (1, 0), { blk := 0, size := 0, type := itemFile, name := 97 :: List.replicate 15 0 }) := by
    decide +kernel
  rw [hrun, Option.map_some, Option.some.injEq, Prod.mk.injEq] at hlook
  exact ⟨s, _, _, hrun, h.sys.atRest htight, hlook.1, hlook.2⟩

/-- On a volume of sixteen blocks, reading the empty file is an input error: the
bits past the end are set, and point past the end. -/
theorem tfsReadFile_empty_fails : ∃ s dirs files, withEmptyFile (Env.linux 16) (State.boot fun _ => Buf.zero) =
    some ((), s) ∧
    AtRest 16 s dirs files ∧ s.lookup (Env.linux 16) 16 [97] = some (1, 0) ∧
    itemAt s.dev (1, 0) = { blk := 0, size := 0, type := itemFile, name := 97 :: List.replicate 15 0 } ∧
    ¬ ReadsEmpty (Env.linux 16) 16 s [97] 100 ∧
    ∃ s', tfsReadFile (Env.linux 16) [97] 100 s = some ((0, []), s') ∧ s'.tfsLastError = .io := by
  obtain ⟨s, dirs, files, hrun, hs, hq, hitem⟩ := withEmptyFile_ok
  have hread : (withEmptyFile (Env.linux 16) (State.boot fun _ => Buf.zero)).bind (fun p =>
      (tfsReadFile (Env.linux 16) [97] 100 p.2).map fun q => (q.1, q.2.tfsLastError)) = some ((0, []), .io) := by
    decide +kernel
  rw [hrun, Option.bind_some, Option.map_eq_some_iff] at hread
  obtain ⟨⟨_, s'⟩, hread, heq⟩ := hread
  simp only [Prod.mk.injEq] at heq
  obtain ⟨rfl, herr⟩ := heq
  refine ⟨s, dirs, files, hrun, hs, hq, hitem, ?_, s', hread, herr⟩
  intro ⟨t, _, ht, hok, _⟩
  rw [hread] at ht
  cases ht
  rw [herr] at hok
  cases hok

theorem tfsReadFile_empty_touched : ∃ s, withEmptyFile (Env.linux 16) (State.boot fun _ => Buf.zero) = some ((), s) ∧
    ¬ ReadsEmpty (Env.linux 16) 16 s [97] 0 := by
  obtain ⟨s, dirs, files, hrun, hs, hq, hitem⟩ := withEmptyFile_ok
  exact ⟨s, hrun, tfsReadFile_empty (Env.linux_neverFails 16) (by decide) hs hq (by rw [hitem]) (by rw [hitem]) 0⟩

end TinyFs
