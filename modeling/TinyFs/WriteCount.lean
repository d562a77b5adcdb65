/-
How far `tfs_write` gets, whatever becomes of its 32-bit positions. The blocks it
visits do not depend on them: it goes along the chain of the file, and appends a
block wherever the chain ends. So it stores all its bytes where the disk has the
blocks for them; and where it has not, a drive that leaves `tfs_last_error` alone lets
it count the bytes up to the end of the last block, and no more.
-/
import TinyFs.FileBytes

namespace TinyFs

open Bytes Chains

variable {e : Env} {n : Nat} {s s' s₁ : State} {fd b b' fuel : Nat} {c d r : List Nat} {cs : List (List Nat)}
  {xs : List Nat}
  {w : WriteVars}

/-- Between two iterations: block `b` of the file, behind the blocks `d` and before the
blocks `r`, is the current one, and the buffer leads to the next. -/
structure Passing (n fd : Nat) (cs : List (List Nat)) (xs : List Nat) (s : State) (d : List Nat) (b : Nat)
    (r : List Nat) : Prop extends Ready n s cs (d ++ b :: r ++ xs) where
  err : s.tfsLastError = .ok
  blk : (s.handles fd).currBlk = b
  next : s.blkBuf.next = firstBlk r
  rest : LinkedOn s.dev b r 0

theorem Editing.passing (h : Editing n fd cs xs s d b r) (herr : s.tfsLastError = .ok) : Passing n fd cs xs s d b r :=
  ⟨h.toReady, herr, h.blk, h.next, h.rest⟩

theorem Passing.loaded (h : Passing n fd cs xs s d b r) (w : WriteVars) : Passing n fd cs xs (s.loaded w) d b r :=
  ⟨⟨h.mounted, h.cache, h.owned⟩, h.err, h.blk, (Block.next_copyData ..).trans h.next, h.rest⟩

theorem Passing.lt (h : Passing n fd cs xs s d b r) : b < s.blkCount := h.toReady.single_lt (by simp)

theorem Passing.notMem (h : Passing n fd cs xs s d b r) : b ∉ r := by
  have hnd := (List.nodup_append.mp h.owned.nodup).1
  rw [List.append_assoc, List.nodup_append] at hnd
  exact fun hb => (List.nodup_cons.mp hnd.2.1).1 (List.mem_append_left _ hb)

/-- The block in the buffer written, and any links with it. -/
theorem Passing.wrote (h : Passing n fd cs xs s d b r) (v : Block) (o : Nat) (l : DriveLog) :
    Ready n (s.wrote fd b v o l) cs (d ++ b :: r ++ xs) ∧ LinkedOn (s.wrote fd b v o l).dev b r 0 := by
  have hst := h.toReady.store (b := b) (by simp) v l
  exact ⟨⟨hst.mounted, hst.cache, hst.owned⟩, h.rest.update_notMem h.notMem v⟩

/-- What the loop leaves: the blocks of the file, `c` among them, and all others as they were. -/
structure Visited (n fd : Nat) (cs : List (List Nat)) (xs : List Nat) (s : State) (c : List Nat) (s' : State) : Prop where
  frame : FdFrame fd s s'
  first : (s'.handles fd).firstBlk = (s.handles fd).firstBlk
  file : ∃ c', c <+: c' ∧ Ready n s' cs (c' ++ xs) ∧ AgreeOff c' s.dev s'.dev

theorem Visited.after (hpre : c <+: c') (hag : AgreeOff c' s.dev s₁.dev) (hfr : FdFrame fd s s₁)
    (hfirst : (s₁.handles fd).firstBlk = (s.handles fd).firstBlk) (h : Visited n fd cs xs s₁ c' s') :
    Visited n fd cs xs s c s' := by
  obtain ⟨c'', hpre', hready, hag'⟩ := h.file
  exact ⟨hfr.trans h.frame, h.first.trans hfirst, c'', hpre.trans hpre', hready,
    (hag.mono fun b hb => hpre'.subset hb).trans hag'⟩

/-- How the loop ends, with room for `room` bytes: it has stored all of them, or the disk
is full. -/
inductive LoopEnd (w : WriteVars) (room : Nat) : Exit → WriteVars → State → Prop
  | done {w' : WriteVars} {s' : State} : w.len ≤ room → w'.ret = (w.ret + w.len) % 2 ^ 32 → s'.tfsLastError = .ok →
      LoopEnd w room .done w' s'
  | out {w' : WriteVars} {s' : State} : room < w.len → w'.ret = (w.ret + room) % 2 ^ 32 → s'.tfsLastError = .diskFull →
      LoopEnd w room .out w' s'

/-- The end of the loop, seen from before an iteration that fills its block. -/
theorem LoopEnd.after {w₁ w' : WriteVars} {room m : Nat} {x : Exit} (hlen : w₁.len + m = w.len)
    (hret : w₁.ret = (w.ret + m) % 2 ^ 32) (h : LoopEnd w₁ room x w' s') : LoopEnd w (m + room) x w' s' := by
  cases h with
  | done hle hret' herr =>
    refine .done (by omega) ?_ herr
    rw [hret', hret, Nat.mod_add_mod, ← hlen]
    congr 1
    omega
  | out hlt hret' herr =>
    refine .out (by omega) ?_ herr
    rw [hret', hret, Nat.mod_add_mod, Nat.add_assoc]

/-- An iteration that goes on with the next block of the file. -/
theorem Passing.inPlace (he : e.NeverFails) (h : Passing n fd cs xs s d b (b' :: r)) (happ : w.append = false)
    (hlen : w.blkLen < w.len) : ∃ w₁ s₁, writeLoop e fd (fuel + 1) w s = writeLoop e fd fuel w₁ s₁ ∧
      Passing n fd cs xs s₁ (d ++ [b]) b' r ∧ w₁.append = false ∧ w₁.len + w.blkLen = w.len ∧ w₁.blkLen = dataLen ∧
      w₁.ret = (w.ret + w.blkLen) % 2 ^ 32 ∧ AgreeOff (d ++ b :: b' :: r) s.dev s₁.dev ∧ FdFrame fd s s₁ ∧
      (s₁.handles fd).firstBlk = (s.handles fd).firstBlk := by
  have hchunk := WriteVars.chunk_of_lt hlen
  have h₁ := h.loaded w
  have hnext : (s.loaded w).blkBuf.next = b' := h₁.next
  have hb' : b' ≠ 0 := ne_zero_of_mod (h.owned.range b' (by simp)).2
  have hpos : (w.copied w.append).len ≠ 0 := by
    show w.len - w.chunk ≠ 0
    omega
  obtain ⟨u, l, -, hrun⟩ := writeStore_ok he (s := s.loaded w) (by exact h.err) h₁.blk h₁.lt (w.copied w.append)
    (writeLoop e fd fuel)
  rw [if_neg hpos] at hrun
  obtain ⟨hready, hrest⟩ := h₁.wrote (s.loaded w).blkBuf (w.copied w.append).offset l
  obtain ⟨s₂, hs₂⟩ : ∃ s₂, s₂ = (s.loaded w).wrote fd b (s.loaded w).blkBuf (w.copied w.append).offset l := ⟨_, rfl⟩
  rw [← hs₂] at hrun hready hrest
  have hfr : FdFrame fd s s₂ := hs₂ ▸ (FdFrame.loaded s fd w).trans (.wrote (s.loaded w) fd b _ _ l)
  have herr₂ : s₂.tfsLastError = .ok := by
    rw [hs₂]
    exact h.err
  have hfirst₂ : (s₂.handles fd).firstBlk = (s.handles fd).firstBlk := by
    rw [hs₂, State.wrote_handle]
    rfl
  have hbuf₂ : s₂.blkBuf.next = b' := by
    rw [hs₂]
    exact hnext
  have hlt' : b' < s₂.blkCount := hready.single_lt (by simp)
  obtain ⟨-, hnext', hrest'⟩ := hrest
  refine ⟨{ w.copied w.append with updateItem := u, blkOs := 0, blkLen := dataLen },
    s₂.seekTo fd b' (((s₂.handles fd).currPos + dataLen) % 2 ^ 32) (s₂.dev b') (s₂.log.transfer (.read b' true)), ?_,
    ⟨?_, herr₂, ?_, ?_, hrest'⟩, happ, ?_, rfl, congrArg (fun m => (w.ret + m) % 2 ^ 32) hchunk, ?_, ?_, ?_⟩
  · rw [writeLoop_run, if_neg (fun hp => hb' (hnext.symm.trans hp.2)), hrun]
    rw [happ, writeNext, blkBuf_bind, if_neg (show ¬ ((w.copied false).append = true) from Bool.noConfusion),
      modifyHandle_bind, hbuf₂,
      Prog.bind_some (driveReadBlock_ok he (by exact herr₂) (by exact hlt')), ifOk_ok (by exact herr₂), modifyHandle_bind]
    simp only [Function.update_self, Function.update_idem, State.seekTo]
  · refine ⟨hready.mounted, hready.cache, ?_⟩
    show Owned n s₂.dev cs _
    simpa using hready.owned
  · rw [State.seekTo_handle]
  · exact hnext'
  · show w.len - w.chunk + w.blkLen = w.len
    omega
  · show AgreeOff _ s.dev s₂.dev
    rw [hs₂]
    exact AgreeOff.update (by simp) _
  · exact hfr.trans (.handle rfl ⟨rfl, rfl, rfl, rfl⟩ rfl ⟨rfl, rfl⟩)
  · rw [State.seekTo_handle]
    exact hfirst₂

/-- An iteration that goes on with a new block. -/
theorem Passing.push (he : e.NeverFails) (h : Passing n fd cs xs s d b []) (hlen : w.blkLen < w.len)
    (ha : Alloc e n (s.loaded w) cs (d ++ [b] ++ xs) b' s₁) :
    ∃ w₁ s₂, writeLoop e fd (fuel + 1) w s = writeLoop e fd fuel w₁ s₂ ∧
      Passing n fd cs xs s₂ (d ++ [b]) b' [] ∧ w₁.len + w.blkLen = w.len ∧ w₁.blkLen = dataLen ∧
      w₁.ret = (w.ret + w.blkLen) % 2 ^ 32 ∧ AgreeOff (d ++ [b]) s.dev s₂.dev ∧ FdFrame fd s s₂ ∧
      (s₂.handles fd).firstBlk = (s.handles fd).firstBlk := by
  have hchunk := WriteVars.chunk_of_lt hlen
  have h₁ := h.loaded w
  have hb' : b' % 2 ^ 32 = b' := Nat.mod_eq_of_lt (Nat.lt_trans (ha.ready.owned.range b' (by simp)).1 h.mounted.lt)
  have hpos : (w.copied true).len ≠ 0 := by
    show w.len - w.chunk ≠ 0
    omega
  have hpre : (w.copied w.append).len > 0 ∧ (s.loaded w).blkBuf.next = 0 := ⟨Nat.pos_of_ne_zero hpos, h₁.next⟩
  obtain ⟨s₃, hs₃⟩ : ∃ s₃ : State, s₃ = { s₁ with blkBuf := s₁.blkBuf.setNext b' } := ⟨_, rfl⟩
  have hh₃ : s₃.handles = s.handles := by
    rw [hs₃]
    exact ha.kept.handles
  obtain ⟨u, l, -, hrun⟩ := writeStore_ok he (s := s₃) (b := b) (by rw [hs₃]; exact ha.err) (by rw [hh₃]; exact h.blk)
    (by rw [hs₃]; exact ha.kept.blkCount ▸ h₁.lt) (w.copied true) (writeLoop e fd fuel)
  rw [if_neg hpos] at hrun
  obtain ⟨s₄, hs₄⟩ : ∃ s₄, s₄ = s₃.wrote fd b s₃.blkBuf (w.copied true).offset l := ⟨_, rfl⟩
  rw [← hs₄] at hrun
  have hh₄ : s₄.handles fd = { s.handles fd with size := max (s.handles fd).size (w.copied true).offset } := by
    rw [hs₄, State.wrote_handle, hh₃]
  have hready : Ready n s₄ cs (d ++ [b] ++ b' :: xs) := by
    have hst := (ha.ready.perm (.refl _) (List.perm_middle.symm)).store (b := b) (by simp) s₃.blkBuf l
    rw [hs₄, hs₃]
    rw [hs₃] at hst
    exact ⟨hst.mounted, hst.cache, hst.owned⟩
  have hfr₄ : FdFrame fd s s₄ := by
    rw [hs₄, hs₃]
    refine (FdFrame.loaded s fd w).trans (.trans (Frame.fdFrame ?_) (.wrote _ fd b _ _ l))
    exact ⟨ha.kept.blkCount, ha.kept.lastBlk, ha.kept.lastLen, ha.kept.cur, ha.kept.handles⟩
  obtain ⟨s₅, hs₅⟩ : ∃ s₅ : State, s₅ = { s₄ with
    blkBuf := ((s₄.blkBuf.setPrev (s₄.handles fd).currBlk).setNext 0).clearData
    handles := Function.update s₄.handles fd { s₄.handles fd with
      currBlk := b', currPos := ((s₄.handles fd).currPos + dataLen) % 2 ^ 32 } } := ⟨_, rfl⟩
  have hnext₄ : s₄.blkBuf.next = b' := by
    rw [hs₄, hs₃]
    exact (Block.next_setNext ..).trans hb'
  have hh₅ : s₅.handles fd = { s₄.handles fd with
      currBlk := b', currPos := ((s₄.handles fd).currPos + dataLen) % 2 ^ 32 } := by
    rw [hs₅]
    exact Function.update_self ..
  refine ⟨{ w.copied true with updateItem := u, blkOs := 0, blkLen := dataLen }, s₅, ?_,
    ⟨?_, ?_, by rw [hh₅], ?_, trivial⟩, ?_, rfl,
    congrArg (fun m => (w.ret + m) % 2 ^ 32) hchunk, ?_, hfr₄.trans (.handle (x := s₅.handles fd) ?_ ?_ ?_ ?_), ?_⟩
  · rw [writeLoop_run, if_pos hpre, Prog.bind_some ha.run, modifyBuf_bind, ← hs₃, hrun]
    show writeNext e fd true _ _ s₄ = _
    rw [writeNext, blkBuf_bind, if_pos rfl, handle_bind, modifyBuf_bind, modifyHandle_bind, hs₅]
    simp only [hnext₄]
  · rw [hs₅]
    exact ⟨hready.mounted, hready.cache, by simpa using hready.owned⟩
  · rw [hs₅, hs₄, hs₃]
    exact ha.err
  · rw [hs₅]
    simp
  · show w.len - w.chunk + w.blkLen = w.len
    omega
  · rw [hs₅, hs₄, hs₃]
    exact (ha.agree.mono (by simp)).trans (AgreeOff.update (by simp) _)
  · rw [hh₅, hs₅]
  · rw [hs₅]
    exact ⟨rfl, rfl, rfl, rfl⟩
  · rw [hh₅]
  · rw [hh₅]
    exact ⟨rfl, rfl⟩
  · rw [hh₅, hh₄]

/-- The iteration in which the disk is found full. -/
theorem Passing.full (he : e.NeverFails) (h : Passing n fd cs xs s d b []) (hlen : w.blkLen < w.len)
    (hsets : e.drive.setsOk = false) (ha : AllocFull e n (s.loaded w) cs (d ++ [b] ++ xs) s₁) :
    ∃ w' s', writeLoop e fd (fuel + 1) w s = some ((.out, w'), s') ∧
      w'.ret = (w.ret + w.blkLen) % 2 ^ 32 ∧ s'.tfsLastError = .diskFull ∧ Visited n fd cs xs s (d ++ [b]) s' := by
  have hchunk := WriteVars.chunk_of_lt hlen
  have hpre : (w.copied w.append).len > 0 ∧ (s.loaded w).blkBuf.next = 0 := by
    refine ⟨?_, (h.loaded w).next⟩
    show 0 < w.len - w.chunk
    omega
  obtain ⟨s₂, hs₂⟩ : ∃ s₂ : State, s₂ = { s₁ with blkBuf := s₁.blkBuf.setNext 0 } := ⟨_, rfl⟩
  have herr₂ : errAfter e s₂ = .diskFull := by
    rw [errAfter, hsets, hs₂]
    exact ha.err
  have hb : (s₂.handles fd).currBlk = b := by
    rw [hs₂]
    exact (congrArg (fun H : Nat → Handle => (H fd).currBlk) ha.kept.handles).trans h.blk
  have hlt : b < s₂.blkCount := by
    rw [hs₂]
    exact ha.kept.blkCount ▸ h.lt
  refine ⟨w.copied true, { s₂ with
    tfsLastError := errAfter e s₂, dev := Function.update s₂.dev b s₂.blkBuf, log :=
      s₂.log.transfer (.write b true) }, ?_,
    congrArg (fun m => (w.ret + m) % 2 ^ 32) hchunk, herr₂, ?_, ?_, d ++ [b], List.prefix_refl _, ?_, ?_⟩
  · rw [writeLoop_run, if_pos hpre, Prog.bind_some ha.run, modifyBuf_bind, ← hs₂, writeStore, handle_bind, hb,
      Prog.bind_some (driveWriteBlock_any he hlt), ifOk_err
        (by show errAfter e s₂ ≠ .ok; rw [herr₂]; exact Err.noConfusion)]
  · rw [hs₂]
    exact (FdFrame.loaded s fd w).trans (Frame.fdFrame ⟨ha.kept.blkCount, ha.kept.lastBlk, ha.kept.lastLen, ha.kept.cur,
      ha.kept.handles⟩)
  · rw [hs₂]
    exact congrArg (fun H : Nat → Handle => (H fd).firstBlk) ha.kept.handles
  · have hst := ha.ready.store (b := b) (by simp) s₂.blkBuf (s₂.log.transfer (.write b true))
    rw [hs₂] at hst ⊢
    exact ⟨hst.mounted, hst.cache, hst.owned⟩
  · rw [hs₂]
    show AgreeOff _ s.dev (Function.update s₁.dev b _)
    rw [ha.dev]
    exact AgreeOff.update (by simp) _

/-- The last iteration. -/
theorem Passing.last (he : e.NeverFails) (h : Passing n fd cs xs s d b r) (hlen : w.len ≤ w.blkLen) :
    ∃ w' s', writeLoop e fd (fuel + 1) w s = some ((.done, w'), s') ∧ w'.ret = (w.ret + w.len) % 2 ^ 32 ∧
    s'.tfsLastError = .ok ∧
      Visited n fd cs xs s (d ++ b :: r) s' := by
  have hchunk := WriteVars.chunk_of_le hlen
  have hzero : (w.copied w.append).len = 0 := by
    show w.len - w.chunk = 0
    omega
  have h₁ := h.loaded w
  obtain ⟨u, l, -, hrun⟩ := writeStore_ok he (s := s.loaded w) (by exact h.err) h₁.blk h₁.lt (w.copied w.append)
    (writeLoop e fd fuel)
  rw [if_pos hzero] at hrun
  refine ⟨{ w.copied w.append with updateItem := u }, (s.loaded w).wrote fd b (s.loaded w).blkBuf
    (w.copied w.append).offset l, ?_, congrArg (fun m => (w.ret + m) % 2 ^ 32) hchunk, h.err,
    (FdFrame.loaded s fd w).trans (.wrote (s.loaded w) fd b (s.loaded w).blkBuf _ l), ?_, d ++ b :: r,
    List.prefix_refl _, (h₁.wrote _ _ l).1, AgreeOff.update (by simp) _⟩
  · rw [writeLoop_run, if_neg (by omega)]
    exact hrun
  · rw [State.wrote_handle]
    rfl

/-- **How far the loop of `tfs_write` gets**, from a block in the buffer on. -/
theorem writeLoop_counts (he : e.NeverFails) (hf : n ≤ e.fuel) (hsets : e.drive.setsOk = false) (fuel : Nat) :
    ∀ d b r w s,
    n ≤ fuel + d.length → Passing n fd cs xs s d b r → (w.append = true → r = []) →
    ∃ x w' s', writeLoop e fd fuel w s = some ((x, w'), s') ∧
      LoopEnd w (w.blkLen + dataLen * (r.length + freeCount n s.dev)) x w' s' ∧ Visited n fd cs xs s
        (d ++ b :: r) s' := by
  induction fuel with
  | zero =>
    intro d b r w s hn h
    have htotal := h.owned.total_lt h.mounted.pos
    simp only [List.length_append, List.length_cons] at htotal
    omega
  | succ fuel ih =>
    intro d b r w s hn h happ
    by_cases hlen : w.blkLen < w.len
    · cases r with
      | cons b' r =>
        have hno : w.append = false := by
          cases hw : w.append with
          | false => rfl
          | true => cases happ hw
        obtain ⟨w₁, s₁, hrun, h₁, happ₁, hlen₁, hblk₁, hret₁, hag, hfr, hfirst⟩ := h.inPlace he hno hlen
        obtain ⟨x, w', s', hrun', hend, hpassed⟩ := ih (d ++ [b]) b' r w₁ s₁
            (by simp only [List.length_append, List.length_singleton]; omega)
          h₁ (fun htrue => by rw [happ₁] at htrue; cases htrue)
        have hlist : d ++ b :: b' :: r = d ++ [b] ++ b' :: r := by simp
        have hfree : freeCount n s₁.dev = freeCount n s.dev := by
          have hadd := h.owned.freeCount_add h₁.owned
          rw [hlist] at hadd
          omega
        refine ⟨x, w', s', hrun.trans hrun', ?_, .after (by rw [hlist]) hag hfr hfirst (by rw [hlist]; exact hpassed)⟩
        have hroom : w.blkLen + (w₁.blkLen + dataLen * (r.length + freeCount n s₁.dev)) =
            w.blkLen + dataLen * ((b' :: r).length + freeCount n s.dev) := by
          rw [hblk₁, hfree, List.length_cons, show r.length + 1 + freeCount n s.dev = r.length + freeCount n s.dev +
            1 by omega,
            Nat.mul_succ]
          omega
        rw [← hroom]
        exact hend.after hlen₁ hret₁
      | nil =>
        rcases (h.loaded w).toReady.alloc he hf (by exact h.err) with ⟨b', s₁, ha⟩ | ⟨s₁, ha⟩
        · obtain ⟨w₁, s₂, hrun, h₂, hlen₁, hblk₁, hret₁, hag, hfr, hfirst⟩ := h.push he hlen ha
          obtain ⟨x, w', s', hrun', hend, hpassed⟩ := ih (d ++ [b]) b' [] w₁ s₂
            (by simp only [List.length_append, List.length_singleton]; omega) h₂ (fun _ => rfl)
          have hfree : freeCount n s.dev = freeCount n s₂.dev + 1 := by
            have hadd := h.owned.freeCount_add h₂.owned
            simp only [List.length_append, List.length_cons, List.length_nil] at hadd
            omega
          refine ⟨x, w', s', hrun.trans hrun', ?_,
            .after (List.prefix_append _ _) (hag.mono fun x hx => List.mem_append_left _ hx) hfr hfirst hpassed⟩
          have hroom : w.blkLen + (w₁.blkLen + dataLen * (([] : List Nat).length + freeCount n s₂.dev)) =
              w.blkLen + dataLen * (([] : List Nat).length + freeCount n s.dev) := by
            rw [hblk₁, hfree, List.length_nil, Nat.zero_add, Nat.zero_add, Nat.mul_succ]
            omega
          rw [← hroom]
          exact hend.after hlen₁ hret₁
        · obtain ⟨w', s', hrun, hret, herr, hpassed⟩ := h.full he hlen hsets ha
          have hroom : w.blkLen + dataLen * (([] : List Nat).length + freeCount n s.dev) = w.blkLen := by
            rw [show freeCount n s.dev = 0 from freeCount_eq_zero.mpr ha.full]
            rfl
          rw [hroom]
          exact ⟨.out, w', s', hrun, .out hlen hret herr, hpassed⟩
    · obtain ⟨w', s', hrun, hret, herr, hpassed⟩ := h.last he (Nat.not_lt.mp hlen)
      exact ⟨.done, w', s', hrun, .done (by omega) hret herr, hpassed⟩

/-! ## The call -/

/-- How `tfs_write` ends where there is room for `room` bytes from the offset on: what it
says, what it returns, and that it has touched no block of the chains `cs` but the one
with the entry. -/
structure Credited (fd : Nat) (cs : List (List Nat)) (s : State) (len room k : Nat) (s' : State) : Prop where
  fits : len ≤ room → s'.tfsLastError = .ok ∧ k = len % 2 ^ 32
  full : room < len → s'.tfsLastError = .diskFull ∧ k = room % 2 ^ 32
  others : ∀ d ∈ cs, ∀ x ∈ d, x ≠ (s.handles fd).dirBlk → s'.dev x = s.dev x

theorem Ready.others (h : Ready n s cs (c ++ xs)) {dev : Nat → Block} (hag : AgreeOff c dev s.dev) :
    ∀ d ∈ cs, ∀ x ∈ d, s.dev x = dev x := fun d hd x hx =>
  hag x (h.owned.mem_mod hd hx) fun hc => (List.nodup_append.mp h.owned.nodup).2.2 x (List.mem_append_left _ hc) x
    (List.mem_flatten.mpr ⟨d, hd, hx⟩) rfl

/-- The part of `tfs_write` behind its `seek`. -/
theorem Passing.writeRest (he : e.NeverFails) (hf : n ≤ e.fuel) (hsets : e.drive.setsOk = false) {s₂ : State}
    (h : Passing n fd cs xs s₂ d b r) (happ : w.append = true → r = []) (hret : w.ret = 0)
    (hag : AgreeOff (d ++ b :: r) s.dev s₂.dev) (hfr : FdFrame fd s s₂) (hdir : ∃ d ∈ cs, (s.handles fd).dirBlk ∈ d) :
    ∃ k s', writeRest e fd w s₂ = some (k, s') ∧
      Credited fd cs s w.len (w.blkLen + dataLen * (r.length + freeCount n s₂.dev)) k s' := by
  obtain ⟨x, w', s₃, hrun, hend, hvisited⟩ := writeLoop_counts he hf hsets e.fuel d b r w s₂ (by omega) h happ
  obtain ⟨c', hpre, hready, hag'⟩ := hvisited.file
  have hothers : ∀ d ∈ cs, ∀ x ∈ d, s₃.dev x = s.dev x := hready.others ((hag.mono fun b hb => hpre.subset hb).trans hag')
  rw [TinyFs.writeRest, Prog.bind_some hrun]
  cases hend with
  | done hle hret' herr =>
    rw [hret, Nat.zero_add] at hret'
    cases hupd : w'.updateItem with
    | false =>
      refine ⟨_, s₃.call .deselect, ?_, fun _ => ⟨herr, hret'⟩, fun hlt => by omega, fun d hd x hx _ => hothers d hd x hx⟩
      simp only [hupd]
      rfl
    | true =>
      have hentry : (s₃.handles fd).dirBlk = (s.handles fd).dirBlk := hvisited.frame.entry.1.trans hfr.entry.1
      obtain ⟨d', hd', hmem⟩ := hdir
      obtain ⟨s₄, hrun', hdev, herr'⟩ : ∃ s₄, updateDirItem e fd s₃ = some ((), s₄) ∧
          s₄.dev = Function.update s₃.dev (s₃.handles fd).dirBlk
            ((s₃.handles fd).entryIn (s₃.dev (s₃.handles fd).dirBlk)) ∧
          s₄.tfsLastError = .ok := by
        have hlt : (s₃.handles fd).dirBlk < s₃.blkCount := by
          rw [hentry]
          exact hready.mem_lt hd' hmem
        obtain ⟨l, hrun'⟩ := updateDirItem_ok he herr hlt
        exact ⟨_, hrun', rfl, herr⟩
      refine ⟨w'.ret, s₄.call .deselect, ?_, fun _ => ⟨herr', hret'⟩, fun hlt => by omega, fun d hd x hx hne => ?_⟩
      · simp only [hupd, if_true]
        rw [out_run, Prog.bind_some hrun']
        rfl
      · show s₄.dev x = _
        rw [hdev, hentry, Function.update_of_ne hne]
        exact hothers d hd x hx
  | out hlt hret' herr =>
    rw [hret, Nat.zero_add] at hret'
    exact ⟨_, s₃.call .deselect, rfl, fun hle => by omega, fun _ => ⟨herr, hret'⟩, fun d hd x hx _ => hothers d hd x hx⟩

/-- **How far `tfs_write` gets**, for every offset and length, also where the end of the data is not a number of 32
bits: on a drive that leaves `tfs_last_error` alone it ends well and returns the length exactly if the blocks of the
file and the free ones have room for the data, and otherwise the disk is full and it returns what they had room for. -/
theorem tfsWrite_counts (he : e.NeverFails) (hf : n ≤ e.fuel) (hsets : e.drive.setsOk = false) {L : Layout} {C : List Nat}
    {q : Nat × Nat} (h : OpenFile n s L fd C q c) (hfd : fd < e.maxFds) (data : List UInt8) {len offset : Nat}
    (hpos : 0 < len) (ho : offset < 2 ^ 32) : ∃ k s', tfsWrite e fd data len offset s = some (k, s') ∧
      Credited fd (L.chains.erase c) s len (dataLen * s.capacity n fd - offset) k s' := by
  have hopen := h.opened
  have hrun : tfsWrite e fd data len offset s = _ := enter_run hopen.dev
  have hvalid : ¬ invalidFd e s.started fd := not_invalidFd hfd hopen.usage
  have hstart : FdFrame fd s s.started := .started
  rw [hrun, show ({ s with tfsLastError := .ok, log := s.log.call .select } : State) = s.started from rfl,
      Prog.gets_bind, id,
    if_neg hvalid, Int.toNat_natCast, State.capacity, hopen.fileOf]
  have hdiv := Nat.div_add_mod offset dataLen
  have hmod : offset % dataLen < dataLen := Nat.mod_lt _ (by decide)
  have hzero : ¬ len = 0 := by omega
  by_cases hq : offset / dataLen < c.length
  · obtain ⟨l, hseek⟩ := seek_found he (hopen.started.fileChain hf) hopen.cursor rfl ho true hq
    have hed := hopen.started.split hq l
    have hsplit : c = c.take (offset / dataLen) ++ c.getD (offset / dataLen) 0 :: c.drop (offset / dataLen + 1) := by
      rw [List.getD_eq_getElem _ _ hq, ← List.drop_eq_getElem_cons hq, List.take_append_drop]
    obtain ⟨s₂, hs₂⟩ : ∃ s₂, s₂ = s.started.seekTo fd (c.getD (offset / dataLen) 0) (dataLen * (offset / dataLen))
      (s.started.dev (c.getD (offset / dataLen) 0)) l := ⟨_, rfl⟩
    rw [← hs₂] at hseek hed
    have hpos₂ : (s₂.handles fd).currPos = dataLen * (offset / dataLen) := by rw [hs₂, State.seekTo_handle]
    obtain ⟨hos, hblk⟩ := start_ok hpos₂
    have hdev : s₂.dev = s.dev := by rw [hs₂]; rfl
    obtain ⟨k, s', hrest, hcount⟩ := (hed.passing (by rw [hs₂]; rfl)).writeRest (s := s)
        (w := .start (s₂.handles fd) data len offset false)
      he hf hsets Bool.noConfusion rfl (by rw [hdev]; exact .refl) (by
        rw [hs₂]
        exact hstart.trans (.handle rfl ⟨rfl, rfl, rfl, rfl⟩ rfl ⟨rfl, rfl⟩)) hopen.entry
    refine ⟨k, s', ?_, ?_⟩
    · rw [Prog.bind_some hseek, Prog.gets_bind, id, if_neg (by rw [hs₂]; simp [State.seekTo, State.started]),
        if_neg hzero]
      exact hrest
    · have hroom : (WriteVars.start (s₂.handles fd) data len offset false).blkLen +
          dataLen * ((c.drop (offset / dataLen + 1)).length + freeCount n s₂.dev) =
            dataLen * (c.length + freeCount n s.dev) - offset := by
        show (dataLen + 2 ^ 32 - (offset + 2 ^ 32 - (s₂.handles fd).currPos) % 2 ^ 32) % 2 ^ 32 + _ = _
        rw [hos, hblk, hdev, List.length_drop]
        obtain ⟨m, hm⟩ : ∃ m, c.length = offset / dataLen + 1 + m := ⟨c.length - (offset / dataLen + 1), by omega⟩
        have hmul : dataLen * (offset / dataLen + 1 + m + freeCount n s.dev) =
            dataLen * (offset / dataLen) + dataLen + dataLen * (m + freeCount n s.dev) := by
          rw [Nat.add_assoc, Nat.mul_add, Nat.mul_succ]
        rw [hm, show offset / dataLen + 1 + m - (offset / dataLen + 1) = m by omega, hmul]
        omega
      rw [← hroom]
      exact hcount
  · obtain ⟨res, s₂, hseek, hext⟩ := seek_extend he hf hopen.started hopen.cursor rfl ho (by omega) (.inl hsets)
    rw [Prog.bind_some hseek, Prog.gets_bind, id]
    cases hext with
    | append hed herr _hpre hd _hg hag hfr _hsize _hfill =>
      rename_i d b
      obtain ⟨hos, hblk⟩ := start_ok (k := (s₂.handles fd).currPos) (by rw [hed.pos, hd])
      obtain ⟨k, s', hrest, hcount⟩ := (hed.passing herr).writeRest (s := s)
          (w := .start (s₂.handles fd) data len offset true)
        he hf hsets (fun _ => rfl) rfl hag (hstart.trans hfr) hopen.entry
      refine ⟨k, s', ?_, ?_⟩
      · rw [if_neg (by simp [herr]), if_neg hzero]
        exact hrest
      · have hadd := hopen.owned.freeCount_add hed.owned
        simp only [List.length_append, List.length_cons, List.length_nil, hd] at hadd
        have hroom : (WriteVars.start (s₂.handles fd) data len offset true).blkLen +
            dataLen * (([] : List Nat).length + freeCount n s₂.dev) =
              dataLen * (c.length + freeCount n s.dev) - offset := by
          show (dataLen + 2 ^ 32 - (offset + 2 ^ 32 - (s₂.handles fd).currPos) % 2 ^ 32) % 2 ^ 32 + _ = _
          rw [hos, hblk, List.length_nil, Nat.zero_add,
            show c.length + freeCount n s.dev = offset / dataLen + 1 +
              freeCount n s₂.dev by omega, Nat.mul_add, Nat.mul_succ]
          omega
        rw [← hroom]
        exact hcount
    | astray hno =>
      rw [hsets] at hno
      cases hno
    | full _hsets hfile _hcur herr _hpre hlen hfull _hg hag hfr _hsize _hfill _hstay =>
      rename_i c'
      have hmul : dataLen * c'.length ≤ dataLen * (offset / dataLen) := Nat.mul_le_mul_left _ hlen
      have hroom : dataLen * (c.length + freeCount n s.dev) - offset = 0 := by
        rw [← hopen.length_full hfile hfull]
        omega
      refine ⟨0, s₂.call .deselect, ?_, fun hle => by omega, fun _ => ⟨herr, by rw [hroom]; rfl⟩, fun d hd x hx _ => ?_⟩
      · rw [if_pos (by simp [herr])]
        rfl
      · exact hfile.toReady.others hag d hd x hx

/-- Sixteen blocks with an empty file: a write of three blocks ends well, one of sixteen is cut off at the end
of the disk. -/
theorem tfsWrite_counts_blocks : ∃ s t t', tfsWrite (Env.linux 16) 0 (List.replicate 1200 7) 1200 100 s = some (1200, t) ∧
    t.tfsLastError = .ok ∧ tfsWrite (Env.linux 16) 0 (List.replicate 8000 7) 8000 100 s = some (6956, t') ∧
    t'.tfsLastError = .diskFull := by
  have he := Env.linux_neverFails 16
  obtain ⟨s, s', L, hs₀, hs, hopen, hnew, -⟩ := openEmpty_sixteen
  obtain ⟨C, q, c, hfile, -⟩ := tfsOpen_ok he (by decide) hs hopen hnew
  have hcap : ((withEmptyFile (Env.linux 16) (State.boot fun _ => Buf.zero)).bind fun p =>
      (tfsOpen (Env.linux 16) [97] p.2).map fun o => o.2.capacity 16 0) = some 14 := by decide +kernel
  rw [hs₀, Option.bind_some, hopen, Option.map_some, Option.some.injEq] at hcap
  obtain ⟨k, t, hrun, hcount⟩ := tfsWrite_counts he (by decide) rfl hfile (by decide) (List.replicate 1200 7)
    (show 0 < 1200 by decide) (show 100 < 2 ^ 32 by decide)
  obtain ⟨k', t', hrun', hcount'⟩ := tfsWrite_counts he (by decide) rfl hfile (by decide) (List.replicate 8000 7)
    (show 0 < 8000 by decide) (show 100 < 2 ^ 32 by decide)
  rw [hcap] at hcount hcount'
  obtain ⟨hok, rfl⟩ := hcount.fits (by decide)
  obtain ⟨hfull, rfl⟩ := hcount'.full (by decide)
  exact ⟨s', t, t', hrun, hok, hrun', hfull⟩

end TinyFs
