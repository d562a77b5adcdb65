/-
The cursor of a handle, and `seek`, on the never-failing drive. A handle remembers
a block of its file and the position of that block; `seek` goes from there, backward
along `prev` or forward along `next`, to the block a position is in. Behind the last
block it appends blocks of zeros, and leaves the last one in the buffer only.
-/
import TinyFs.FileBlocks
import TinyFs.Space
import TinyFs.Footprint
import TinyFs.Lib.Chunks

namespace TinyFs

open Bytes Chains

variable {e : Env} {n : Nat} {s s' : State} {fd pos k fuel b p : Nat} {c d r : List Nat} {cs : List (List Nat)}
  {xs : List Nat} {v v' : Block} {l l' : DriveLog}

/-! ## The cursor -/

/-- The cursor of handle `fd` put on block `b` at position `p`, with what is in the buffer and in the log. -/
def State.seekTo (s : State) (fd b p : Nat) (v : Block) (l : DriveLog) : State := { s with
  handles := Function.update s.handles fd { s.handles fd with currBlk := b, currPos := p }
  blkBuf := v
  log := l }

theorem State.seekTo_seekTo (s : State) (fd b p b' p' : Nat) (v v' : Block) (l l' : DriveLog) :
    (s.seekTo fd b p v l).seekTo fd b' p' v' l' = s.seekTo fd b' p' v' l' := by
  simp only [State.seekTo, Function.update_idem, Function.update_self]

theorem State.seekTo_self (hb : (s.handles fd).currBlk = b) (hp : (s.handles fd).currPos = p) :
    s.seekTo fd b p s.blkBuf s.log = s := by
  subst hb
  subst hp
  simp only [State.seekTo, Function.update_eq_self]

@[simp] theorem State.seekTo_handle (s : State) (fd b p : Nat) (v : Block) (l : DriveLog) :
    (s.seekTo fd b p v l).handles fd = { s.handles fd with currBlk := b, currPos := p } := Function.update_self ..

/-- The cursor is nowhere, or on a block of the file, at the position of that block. -/
def Cursor (h : Handle) (c : List Nat) : Prop :=
  h.currBlk = 0 ∨ ∃ k < c.length, h.currBlk = c.getD k 0 ∧ h.currPos = dataLen * k ∧ dataLen * k < 2 ^ 32

theorem getD_mem (hk : k < c.length) : c.getD k 0 ∈ c := by
  rw [List.getD_eq_getElem _ _ hk]
  exact List.getElem_mem hk

/-! ## Walking -/

/-- The walk backward stops at the block `pos` is in, or before it starts. -/
theorem seekBack_ok (he : e.NeverFails) (hr : ∀ b ∈ c, b < s.blkCount ∧ b ≠ 0) (hl : LinkedOn s.dev 0 c 0)
    (herr : s.tfsLastError = .ok) (hk : k < c.length) (hf : k < fuel) (hb : (s.handles fd).currBlk = c.getD k 0)
    (hp : (s.handles fd).currPos = dataLen * k) (h32 : dataLen * k < 2 ^ 32) :
    ∃ v l, seekBack e fd pos fuel s =
      some (true, s.seekTo fd (c.getD (min k (pos / dataLen)) 0) (dataLen * min k (pos / dataLen)) v l) := by
  induction k generalizing s fuel with
  | zero =>
    obtain ⟨fuel, rfl⟩ : ∃ m, fuel = m + 1 := ⟨fuel - 1, by omega⟩
    refine ⟨s.blkBuf, s.log, ?_⟩
    rw [seekBack, handle_bind, if_neg (by rw [hp]; omega), Nat.zero_min]
    rw [State.seekTo_self hb hp]
    rfl
  | succ k ih =>
    obtain ⟨fuel, rfl⟩ : ∃ m, fuel = m + 1 := ⟨fuel - 1, by omega⟩
    obtain ⟨hlt, hne⟩ := hr _ (getD_mem hk)
    rw [seekBack, handle_bind, hb, hp]
    by_cases hback : dataLen * (k + 1) > pos
    · have hq : pos / dataLen < k + 1 := (Nat.div_lt_iff_lt_mul (by decide)).mpr (by rw [Nat.mul_comm]; exact hback)
      have hprev : (s.dev (c.getD (k + 1) 0)).prev = c.getD k 0 := hl.prev_getD hk
      have hprev0 : c.getD k 0 ≠ 0 := (hr _ (getD_mem (by omega))).2
      rw [if_pos ⟨hne, hback⟩, Prog.bind_some (driveReadBlock_ok he herr hlt), ifOk_ok (by exact herr), blkBuf_bind,
        if_neg (by exact fun h => hprev0 (hprev.symm.trans h)), modifyHandle_bind]
      simp only [hprev, hp]
      have hpos : (dataLen * (k + 1) + 2 ^ 32 - dataLen) % 2 ^ 32 = dataLen * k := by
        simp only [dataLen] at *
        omega
      rw [hpos]
      obtain ⟨v, l, hrun⟩ := ih (s := s.seekTo fd (c.getD k 0) (dataLen * k) (s.dev (c.getD (k + 1) 0))
        (s.log.transfer (.read (c.getD (k + 1) 0) true))) hr hl herr (by omega) (show k < fuel by omega)
        (by rw [State.seekTo_handle]) (by rw [State.seekTo_handle]) (by simp only [dataLen] at *; omega)
      rw [State.seekTo_seekTo] at hrun
      have hmin : min (k + 1) (pos / dataLen) = min k (pos / dataLen) := by omega
      rw [hmin]
      exact ⟨v, l, hrun⟩
    · have hq : k + 1 ≤ pos / dataLen := (Nat.le_div_iff_mul_le (by decide)).mpr (by rw [Nat.mul_comm]; omega)
      refine ⟨s.blkBuf, s.log, ?_⟩
      rw [if_neg (by omega), Nat.min_eq_left hq, State.seekTo_self hb hp]
      rfl

/-- The walk forward stops at the block `pos` is in, or behind the last one. -/
theorem seekForward_ok (he : e.NeverFails) (hr : ∀ b ∈ c, b < s.blkCount ∧ b ≠ 0) (hl : LinkedOn s.dev 0 c 0)
    (herr : s.tfsLastError = .ok) {m j : Nat} {last : Nat × Nat} (hm : m = max j (min (pos / dataLen) c.length))
    (hj : j ≤ c.length) (hf : m - j < fuel) (h32 : pos < 2 ^ 32) (hb : (s.handles fd).currBlk = c.getD j 0)
    (hp : (s.handles fd).currPos = dataLen * j) :
    ∃ last' v l, seekForward e fd pos fuel last s = some (some last', s.seekTo fd (c.getD m 0) (dataLen * m) v l) ∧
      (j < m → last' = (c.getD (m - 1) 0, dataLen * (m - 1)) ∧ v = s.dev (c.getD (m - 1) 0)) ∧
      (m = j → last' = last ∧ v = s.blkBuf) := by
  induction fuel generalizing s j last with
  | zero => omega
  | succ fuel ih =>
    rw [seekForward, handle_bind, hb, hp]
    by_cases hstop : j = m
    · have hcond : ¬ (c.getD j 0 ≠ 0 ∧ dataLen * j + dataLen ≤ pos) := by
        intro ⟨hne, hle⟩
        have hlt : j < c.length := by
          by_contra hge
          rw [List.getD_eq_default _ _ (by omega)] at hne
          exact hne rfl
        have hq : j + 1 ≤ pos / dataLen := (Nat.le_div_iff_mul_le (by decide)).mpr (by rw [Nat.mul_comm]; exact hle)
        omega
      refine ⟨last, s.blkBuf, s.log, ?_, fun h => by omega, fun _ => ⟨rfl, rfl⟩⟩
      rw [if_neg hcond, ← hstop, State.seekTo_self hb hp]
      rfl
    · have hlt : j < c.length := by omega
      obtain ⟨hblt, hne⟩ := hr _ (getD_mem hlt)
      have hle : dataLen * j + dataLen ≤ pos := by
        have hq : j + 1 ≤ pos / dataLen := by omega
        have hmul := (Nat.le_div_iff_mul_le (by decide)).mp hq
        simp only [dataLen] at *
        omega
      have hnext : (s.dev (c.getD j 0)).next = c.getD (j + 1) 0 := hl.next_getD hlt
      have hpos : (dataLen * j + dataLen) % 2 ^ 32 = dataLen * (j + 1) := by
        rw [Nat.mod_eq_of_lt (by omega), Nat.mul_succ]
      rw [if_pos ⟨hne, hle⟩, Prog.bind_some (driveReadBlock_ok he herr hblt), ifOk_ok (by exact herr), blkBuf_bind,
        modifyHandle_bind]
      simp only [hnext, hp, hpos]
      obtain ⟨last', v, l, hrun, hgo, hstay⟩ := ih (s := s.seekTo fd (c.getD (j + 1) 0) (dataLen * (j + 1))
        (s.dev (c.getD j 0)) (s.log.transfer (.read (c.getD j 0) true))) (j := j + 1)
        hr hl herr (by omega) (by omega) (by omega)
        (by rw [State.seekTo_handle]) (by rw [State.seekTo_handle])
      rw [State.seekTo_seekTo] at hrun
      refine ⟨last', v, l, hrun, fun _ => ?_, fun h => by omega⟩
      by_cases hone : m = j + 1
      · obtain ⟨h1, h2⟩ := hstay hone
        rw [hone, Nat.add_sub_cancel]
        exact ⟨h1, h2⟩
      · exact hgo (by omega)

theorem seekBack_none (hb : (s.handles fd).currBlk = 0) (hf : 0 < fuel) : seekBack e fd pos fuel s = some (true, s) := by
  obtain ⟨fuel, rfl⟩ : ∃ m, fuel = m + 1 := ⟨fuel - 1, by omega⟩
  rw [seekBack, handle_bind, if_neg (fun h => h.1 hb)]
  rfl

/-! ## The file behind a handle -/

/-- The blocks `c` of the file of handle `fd`, as far as a walk along them needs to know. -/
structure FileChain (e : Env) (fd : Nat) (s : State) (c : List Nat) : Prop where
  blocks : ∀ b ∈ c, b < s.blkCount ∧ b ≠ 0
  linked : LinkedOn s.dev 0 c 0
  first : (s.handles fd).firstBlk = firstBlk c
  short : c.length < e.fuel

/-- The blocks `c` of the file of handle `fd`: owned beside the chains `cs` and the
blocks `xs`, linked, and the handle starts with the first of them. -/
structure FileData (n fd : Nat) (cs : List (List Nat)) (xs : List Nat) (s : State) (c : List Nat) : Prop
    extends Ready n s cs (c ++ xs) where
  linked : LinkedOn s.dev 0 c 0
  first : (s.handles fd).firstBlk = firstBlk c

theorem FileData.blocks (h : FileData n fd cs xs s c) : ∀ b ∈ c, b < s.blkCount ∧ b ≠ 0 := fun _ hb =>
  ⟨h.single_lt (List.mem_append_left _ hb), ne_zero_of_mod (h.owned.single_mod (List.mem_append_left _ hb))⟩

theorem FileData.length_lt (h : FileData n fd cs xs s c) : c.length < n := by
  have htotal := h.owned.total_lt h.mounted.pos
  simp only [List.length_append] at htotal
  omega

theorem FileData.fileChain (h : FileData n fd cs xs s c) (hf : n ≤ e.fuel) : FileChain e fd s c :=
  ⟨h.blocks, h.linked, h.first, Nat.lt_of_lt_of_le h.length_lt hf⟩

/-- Both walks of `seek`: the cursor is on the block `pos` is in, or behind the
last block, and then the last block is in the buffer. -/
theorem seek_walk (he : e.NeverFails) (h : FileChain e fd s c) (hcur : Cursor (s.handles fd) c)
    (herr : s.tfsLastError = .ok) (h32 : pos < 2 ^ 32) (append : Bool) {m : Nat} (hm : m = min (pos / dataLen) c.length) :
    ∃ last v l, seek e fd pos append s = seekEnd e fd pos append last (s.seekTo fd (c.getD m 0) (dataLen * m) v l) ∧
      (c ≠ [] → m = c.length → last = (c.getLastD 0, dataLen * (c.length - 1)) ∧ v = s.dev (c.getLastD 0)) ∧
      WritesIn (fun _ => False) s (s.seekTo fd (c.getD m 0) (dataLen * m) v l) := by
  have hlen := h.short
  -- from any place of the cursor
  have hwalk : ∀ j s₁, s₁ = s.seekTo fd (c.getD j 0) (dataLen * j) s.blkBuf s.log → (c ≠ [] → j < c.length) →
      (c = [] → j = 0) → dataLen * j < 2 ^ 32 →
      ∃ last v l, seekWalk e fd pos append s₁ = seekEnd e fd pos append last
        (s.seekTo fd (c.getD m 0) (dataLen * m) v l) ∧
      (c ≠ [] → m = c.length → last = (c.getLastD 0, dataLen * (c.length - 1)) ∧ v = s.dev (c.getLastD 0)) ∧
      WritesIn (fun _ => False) s (s.seekTo fd (c.getD m 0) (dataLen * m) v l) := by
    intro j s₁ hs₁ hj hj0 hj32
    have hback : ∃ i v l, seekBack e fd pos e.fuel s₁ = some (true, s.seekTo fd (c.getD i 0) (dataLen * i) v l) ∧
        i ≤ c.length ∧ (c ≠ [] → i ≤ pos / dataLen ∧ i < c.length) ∧ (c = [] → i = 0) := by
      by_cases hc : c = []
      · have hzero : (s₁.handles fd).currBlk = 0 := by
          rw [hs₁, State.seekTo_handle, hc]
          rfl
        refine ⟨j, s.blkBuf, s.log, ?_, by simp [hc, hj0], fun hne => absurd hc hne, hj0⟩
        rw [seekBack_none hzero (by omega), hs₁]
      · obtain ⟨v, l, hrun⟩ := seekBack_ok (s := s₁) he (by rw [hs₁]; exact h.blocks)
          (by rw [hs₁]; exact h.linked) (by rw [hs₁]; exact herr) (hj hc) (show _ < e.fuel by have := hj hc; omega)
          (by rw [hs₁, State.seekTo_handle]) (by rw [hs₁, State.seekTo_handle]) hj32
        rw [hs₁, State.seekTo_seekTo] at hrun
        refine ⟨min j (pos / dataLen), v, l, hs₁ ▸ hrun, ?_, fun _ => ⟨Nat.min_le_right _ _, ?_⟩, fun h => absurd h hc⟩
        · have := hj hc
          omega
        · have := hj hc
          omega
    obtain ⟨i, v, l, hrun, hile, hi, hi0⟩ := hback
    have hmi : m = max i (min (pos / dataLen) c.length) := by
      by_cases hc : c = []
      · rw [hm, hi0 hc]
        omega
      · have := hi hc
        omega
    obtain ⟨last, v', l', hrun', hgo, -⟩ := seekForward_ok (s := s.seekTo fd (c.getD i 0) (dataLen * i) v l) he h.blocks
      h.linked herr hmi hile (show _ < e.fuel by omega) h32
      (by rw [State.seekTo_handle]) (by rw [State.seekTo_handle])
    rw [State.seekTo_seekTo] at hrun'
    have hlog₁ : s₁.log = s.log := by rw [hs₁]; rfl
    have hwrites := (WritesIn.of_log hlog₁).trans ((writes_of_moves (seekBack_moves ..) hrun).trans
      (writes_of_moves (P := fun _ => False) (seekForward_moves ..) hrun'))
    refine ⟨last, v', l', ?_, fun hc hmc => ?_, hwrites⟩
    · rw [seekWalk, Prog.bind_some hrun, if_pos rfl, Prog.bind_some hrun']
    · have hlast : c.getD (m - 1) 0 = c.getLastD 0 := by
        rw [hmc, List.getLastD_eq_getLast?, List.getLast?_eq_getElem?, List.getD_eq_getElem?_getD]
      obtain ⟨h1, h2⟩ := hgo (by have := hi hc; omega)
      rw [← hlast, ← hmc]
      exact ⟨h1, h2⟩
  unfold seek
  rw [handle_bind]
  by_cases hreset : pos = 0 ∨ (s.handles fd).currBlk = 0
  · rw [if_pos hreset]
    have hs₁ : initPos fd s = some ((), s.seekTo fd (c.getD 0 0) (dataLen * 0) s.blkBuf s.log) := by
      have hfirst : c.getD 0 0 = (s.handles fd).firstBlk := by
        rw [h.first]
        cases c <;> rfl
      rw [hfirst]
      rfl
    obtain ⟨last, v, l, hrun, hend⟩ := hwalk 0 _ rfl (fun hc => List.length_pos_of_ne_nil hc) (fun _ => rfl) (by omega)
    refine ⟨last, v, l, ?_, hend⟩
    rw [← hrun]
    exact Prog.bind_some hs₁
  · rw [if_neg hreset]
    rcases hcur with h0 | ⟨k, hk, hb, hp, hk32⟩
    · exact absurd (.inr h0) hreset
    · obtain ⟨last, v, l, hrun, hend⟩ := hwalk k s (State.seekTo_self hb hp).symm (fun _ => hk)
        (fun hc => by rw [hc] at hk; simp at hk) hk32
      exact ⟨last, v, l, hrun, hend⟩

/-! ## The block in the buffer -/

/-- The file as bytes, zeros behind its last block. -/
def fileContent (dev : Nat → Block) (c : List Nat) : Nat → UInt8 := Chunks.content dataLen 0 (fun b => (dev b).data) c

/-- The medium as if the buffer were written to block `b`. -/
def flushed (s : State) (b : Nat) : Nat → Block := Function.update s.dev b s.blkBuf

/-- In the middle of a transfer: block `b` of the file, behind the blocks `d` and
before the blocks `r`, is the current one. It is in the buffer; on the medium it may
not be written yet. -/
structure Editing (n fd : Nat) (cs : List (List Nat)) (xs : List Nat) (s : State) (d : List Nat) (b : Nat)
    (r : List Nat) : Prop extends Ready n s cs (d ++ b :: r ++ xs) where
  blk : (s.handles fd).currBlk = b
  pos : (s.handles fd).currPos = dataLen * d.length
  first : (s.handles fd).firstBlk = firstBlk (d ++ [b])
  linked : LinkedOn s.dev 0 d b
  prev : s.blkBuf.prev = d.getLastD 0
  next : s.blkBuf.next = firstBlk r
  rest : LinkedOn s.dev b r 0

theorem firstBlk_snoc (d : List Nat) (b : Nat) (r : List Nat) : firstBlk (d ++ b :: r) = firstBlk (d ++ [b]) := by
  cases d <;> rfl

theorem Editing.nodup (h : Editing n fd cs xs s d b r) : (d ++ b :: r).Nodup :=
  (List.nodup_append.mp (List.nodup_append.mp h.owned.nodup).1).1

theorem Editing.notMem (h : Editing n fd cs xs s d b r) : b ∉ d ∧ b ∉ r := by
  have hnd := h.nodup
  rw [List.nodup_append, List.nodup_cons] at hnd
  exact ⟨fun hb => hnd.2.2 b hb b (by simp) rfl, hnd.2.1.1⟩

theorem Editing.range (h : Editing n fd cs xs s d b r) : b < s.blkCount ∧ b % 4096 ≠ 0 ∧ b % 2 ^ 32 = b := by
  obtain ⟨hlt, hmod⟩ := h.owned.range b (by simp)
  exact ⟨by rw [h.mounted.count]; exact hlt, hmod, Nat.mod_eq_of_lt (Nat.lt_trans hlt h.mounted.lt)⟩

theorem Editing.length_lt (h : Editing n fd cs xs s d b r) : d.length + 1 + r.length < n := by
  have htotal := h.owned.total_lt h.mounted.pos
  simp only [List.length_append, List.length_cons] at htotal
  omega

/-- Block `b` of a file with everything written, read into the buffer. -/
theorem FileData.editing (h : FileData n fd cs xs s c) (hc : c = d ++ b :: r) (l : DriveLog) :
    Editing n fd cs xs (s.seekTo fd b (dataLen * d.length) (s.dev b) l) d b r := by
  subst hc
  obtain ⟨h1, h2, h3, h4⟩ := linked_append.mp h.linked
  refine ⟨⟨h.mounted, h.cache, h.owned⟩, ?_, ?_, ?_, h1, h2, h3, h4⟩
  · rw [State.seekTo_handle]
  · rw [State.seekTo_handle]
  · rw [State.seekTo_handle, ← firstBlk_snoc d b r]
    exact h.first

/-- A block written to the place of the current one, with any links. -/
theorem Editing.write (h : Editing n fd cs xs s d b r) {v : Block} {x : Nat} (hp : v.prev = d.getLastD 0)
    (hx : v.next = x) (l : DriveLog) :
    Ready n { s with dev := Function.update s.dev b v, log := l } cs (d ++ b :: r ++ xs) ∧
      LinkedOn (Function.update s.dev b v) 0 (d ++ [b]) x ∧ LinkedOn (Function.update s.dev b v) b r 0 :=
  ⟨h.toReady.store (by simp) v l, h.linked.snoc h.notMem.1 hp hx, h.rest.update_notMem h.notMem.2 v⟩

/-- With the current block written, links to the rest and all, the file is whole. -/
theorem Editing.stored (h : Editing n fd cs xs s d b r) {v w : Block} {H : Nat → Handle} {x : Err} {l : DriveLog}
    (hp : v.prev = d.getLastD 0) (hx : v.next = firstBlk r) (hH : (H fd).firstBlk = (s.handles fd).firstBlk) :
    FileData n fd cs xs { s with
      dev := Function.update s.dev b v, blkBuf := w, handles := H, tfsLastError := x, log := l } (d ++ b :: r) := by
  obtain ⟨hR, h1, h2⟩ := h.write hp hx l
  refine ⟨⟨hR.mounted, hR.cache, hR.owned⟩, ?_, ?_⟩
  · obtain ⟨h3, h4, h5, -⟩ := linked_append.mp h1
    exact linked_append.mpr ⟨h3, h4, h5, h2⟩
  · rw [firstBlk_snoc, ← h.first]
    exact hH

/-- A call that keeps the buffer and all blocks but bitmap blocks. -/
theorem Editing.kept {s₁ : State} {xs' : List Nat} (h : Editing n fd cs xs s d b r)
    (hR : Ready n s₁ cs (d ++ b :: r ++ xs'))
    (hk : Kept s s₁) (hag : AgreeOff [] s.dev s₁.dev) : Editing n fd cs xs' s₁ d b r := by
  have hsame : ∀ x ∈ d ++ b :: r, s₁.dev x = s.dev x := fun x hx =>
    hag x (h.owned.single_mod (List.mem_append_left _ hx)) List.not_mem_nil
  have hlink : ∀ p q c, (∀ x ∈ c, x ∈ d ++ b :: r) → LinkedOn s.dev p c q → LinkedOn s₁.dev p c q := fun p q c hc hl =>
    hl.congr (fun x hx => by rw [hsame x (hc x hx)]) (fun x hx => by rw [hsame x (hc x hx)])
  refine ⟨hR, ?_, ?_, ?_, hlink _ _ d (by simp +contextual) h.linked, ?_, ?_, hlink _ _ r (by simp +contextual) h.rest⟩
  · rw [hk.handles, h.blk]
  · rw [hk.handles, h.pos]
  · rw [hk.handles, h.first]
  · rw [hk.buf, h.prev]
  · rw [hk.buf, h.next]

theorem fileContent_congr {dev dev' : Nat → Block} (h : ∀ b ∈ c, dev' b = dev b) :
    fileContent dev' c = fileContent dev c :=
  Chunks.content_congr (by decide) fun b hb _ _ => by rw [h b hb]

/-- A block of zeros at the end of the file. -/
theorem fileContent_snoc {dev : Nat → Block} (h : ∀ k < dataLen, (dev b).data k = 0) :
    fileContent dev (c ++ [b]) = fileContent dev c := Chunks.content_snoc (by decide) h

/-- The file with the current block exchanged for one with the same data. -/
theorem fileContent_same {dev dev' : Nat → Block} (hsame : ∀ x ∈ c, x ≠ b → dev' x = dev x)
    (hb : ∀ k < dataLen, (dev' b).data k = (dev b).data k) : fileContent dev' c = fileContent dev c := by
  refine Chunks.content_congr (by decide) fun x hx k hk => ?_
  by_cases hxb : x = b
  · rw [hxb]
    exact hb k hk
  · rw [hsame x hx hxb]

@[simp] theorem Block.data_setNext (v : Block) (x k : Nat) : (v.setNext x).data k = v.data k := Buf.get_fill_out _ _
    (by omega)
@[simp] theorem Block.data_setPrev (v : Block) (x k : Nat) : (v.setPrev x).data k = v.data k := Buf.get_fill_out _ _
    (by omega)

theorem Block.data_clearData (v : Block) {k : Nat} (hk : k < dataLen) : v.clearData.data k = 0 :=
  Buf.get_fill_in _ _ (by omega) (by simp only [dataLen] at hk; omega) (by simp only [dataLen] at hk; omega)

theorem Block.data_zero (k : Nat) : Block.data Buf.zero k = 0 := Buf.get_zero _

/-- A block of zeros appended: the current one is written with its link, and the new
one is in the buffer. -/
theorem Editing.push {s₁ : State} {b' : Nat} {w : Block} {H : Nat → Handle} {l : DriveLog}
    (h : Editing n fd cs xs s d b []) (ha : Alloc e n s cs (d ++ [b] ++ xs) b' s₁)
    (hw : w.prev = b ∧ w.next = 0 ∧ ∀ k < dataLen, w.data k = 0)
    (hH : (H fd).currBlk = b' ∧ (H fd).currPos = dataLen * (d.length + 1) ∧ (H fd).firstBlk = (s.handles fd).firstBlk) :
    Editing n fd cs xs { s₁ with
      dev := Function.update s₁.dev b (s₁.blkBuf.setNext b'), blkBuf := w, handles := H, log := l } (d ++ [b]) b' [] ∧
    fileContent (Function.update (Function.update s₁.dev b (s₁.blkBuf.setNext b')) b' w) (d ++ [b] ++ [b']) =
      fileContent (flushed s b) (d ++ [b]) ∧
    AgreeOff [b] s.dev (Function.update s₁.dev b (s₁.blkBuf.setNext b')) := by
  have hperm : (b' :: (d ++ [b] ++ xs)).Perm (d ++ [b] ++ b' :: xs) := by
    exact List.perm_middle.symm
  have hR := ha.ready.perm (.refl _) hperm
  have hb' : b' % 2 ^ 32 = b' := Nat.mod_eq_of_lt (Nat.lt_trans (ha.ready.owned.range b' (by simp)).1 h.mounted.lt)
  have hnew : b' ∉ d ++ [b] := by
    have hnd := ha.ready.owned.nodup
    rw [List.cons_append, List.nodup_cons] at hnd
    exact fun hx => hnd.1 (List.mem_append_left _ (List.mem_append_left _ hx))
  have h₁ : Editing n fd cs (b' :: xs) s₁ d b [] := h.kept hR ha.kept ha.agree
  obtain ⟨hR', hl, -⟩ := h₁.write (v := s₁.blkBuf.setNext b') (x := b') (by simp [ha.kept.buf, h.prev])
    (by rw [Block.next_setNext, hb']) l
  have hperm' : (d ++ [b] ++ b' :: xs).Perm (d ++ [b] ++ b' :: [] ++ xs) := by simp
  have hsame : ∀ x ∈ d ++ [b], s₁.dev x = s.dev x := fun x hx =>
    ha.agree x (h.owned.single_mod (List.mem_append_left _ hx)) List.not_mem_nil
  refine ⟨⟨⟨hR'.mounted, hR'.cache, (hR'.owned).perm (.refl _) hperm'⟩, hH.1, ?_, ?_, hl, ?_, hw.2.1, trivial⟩, ?_, ?_⟩
  · rw [List.length_append, List.length_singleton]
    exact hH.2.1
  · rw [List.append_assoc, List.singleton_append, firstBlk_snoc, ← h.first]
    exact hH.2.2
  · rw [List.getLastD_concat]
    exact hw.1
  · rw [fileContent_snoc fun k hk => by rw [Function.update_self]; exact hw.2.2 k hk]
    refine fileContent_same (b := b) (fun x hx hxb => ?_) fun k _ => ?_
    · rw [Function.update_of_ne (ne_of_mem_of_not_mem hx hnew), Function.update_of_ne hxb, flushed,
        Function.update_of_ne hxb, hsame x hx]
    · have hbb' : b ≠ b' := fun heq => hnew (heq ▸ by simp)
      rw [Function.update_of_ne hbb', Function.update_self, flushed, Function.update_self, Block.data_setNext,
        ha.kept.buf]
  · exact (ha.agree.mono (by simp)).trans (AgreeOff.update (by simp) _)

/-! ## Extending the file -/

/-- The variables a function on handle `fd` leaves alone, and the fields of the
handle that say where its entry is. -/
structure FdFrame (fd : Nat) (s s' : State) : Prop where
  blkCount : s'.blkCount = s.blkCount
  lastBlk : s'.lastBitmapBlk = s.lastBitmapBlk
  lastLen : s'.lastBitmapLen = s.lastBitmapLen
  cur : s'.currentDirBlk = s.currentDirBlk
  others : ∀ f, f ≠ fd → s'.handles f = s.handles f
  usage : (s'.handles fd).usageCount = (s.handles fd).usageCount
  entry : (s'.handles fd).dirBlk = (s.handles fd).dirBlk ∧ (s'.handles fd).dirItem = (s.handles fd).dirItem

theorem FdFrame.trans {s'' : State} (h : FdFrame fd s s') (h' : FdFrame fd s' s'') : FdFrame fd s s'' :=
  ⟨h'.1.trans h.1, h'.2.trans h.2, h'.3.trans h.3, h'.4.trans h.4, fun f hf => (h'.5 f hf).trans (h.5 f hf),
    h'.6.trans h.6,
    h'.7.1.trans h.7.1, h'.7.2.trans h.7.2⟩

theorem Frame.fdFrame (h : Frame s s') : FdFrame fd s s' :=
  ⟨h.1, h.2, h.3, h.4, fun f _ => by rw [h.handles], by rw [h.handles], by rw [h.handles], by rw [h.handles]⟩

/-- A change of the handle that leaves its entry. -/
theorem FdFrame.handle {x : Handle} (hh : s'.handles = Function.update s.handles fd x)
    (hm : s'.blkCount = s.blkCount ∧ s'.lastBitmapBlk = s.lastBitmapBlk ∧ s'.lastBitmapLen = s.lastBitmapLen ∧
      s'.currentDirBlk = s.currentDirBlk) (hu : x.usageCount = (s.handles fd).usageCount)
    (hd : x.dirBlk = (s.handles fd).dirBlk ∧ x.dirItem = (s.handles fd).dirItem) : FdFrame fd s s' := by
  have hfd : s'.handles fd = x := by rw [hh, Function.update_self]
  refine ⟨hm.1, hm.2.1, hm.2.2.1, hm.2.2.2, fun f hf => ?_, ?_, ?_, ?_⟩
  · rw [hh, Function.update_of_ne hf]
  · rw [hfd, hu]
  · rw [hfd, hd.1]
  · rw [hfd, hd.2]

/-! ## Past a full disk -/

/-- Past the end of the disk on a drive that sets `tfs_last_error`: `alloc_block` has
failed, the error is lost, and the handle goes on with block 0. The file is as it is in
the state `s₁` then. -/
structure Astray (fd : Nat) (s₁ s' : State) : Prop where
  inval : s'.loadedBitmapBlk = bitmapBlkInval
  err : s'.tfsLastError = .ok
  blk : (s'.handles fd).currBlk = 0
  first : (s'.handles fd).firstBlk = (s₁.handles fd).firstBlk
  next : s'.blkBuf.next = 0
  dev : ∀ b, b ≠ 0 → s'.dev b = s₁.dev b
  frame : FdFrame fd s₁ s'

theorem allocBlock_inval (h : s.loadedBitmapBlk = bitmapBlkInval) :
    allocBlock e s = some (0, { s with tfsLastError := .diskFull }) := by
  rw [allocBlock, Prog.gets_bind, id, if_pos h]
  rfl

theorem AllocFull.inval (h : AllocFull e n s cs xs s') (hR : Ready n s cs xs) (he : e.NeverFails) (hf : n ≤ e.fuel)
    (herr : s.tfsLastError = .ok) : s'.loadedBitmapBlk = bitmapBlkInval := by
  rcases allocBlock_ok he hR.mounted hR.cache herr hf with ⟨b, l, hb, hfree, -⟩ | ⟨-, bm, l, hrun⟩
  · exact absurd (h.full b hb) hfree
  · rw [h.run] at hrun
    cases hrun
    rfl

theorem more_iff {k pos : Nat} : dataLen * k + dataLen ≤ pos ↔ k + 1 ≤ pos / dataLen := by
  rw [Nat.le_div_iff_mul_le (by decide), Nat.mul_comm (k + 1), Nat.mul_succ]

/-- A block without data, with no link on and one back into the volume. -/
structure BlankTo (n : Nat) (v : Block) : Prop where
  prev : v.prev < n
  next : v.next = 0
  data : ∀ k < dataLen, v.data k = 0

/-- The rest of the way of `seek` on block 0: it is overwritten, if there is any. -/
theorem seekAppend_astray (he : e.NeverFails) (hsets : e.drive.setsOk = true) (hn : 0 < n) {s₁ : State}
    (hcount : s₁.blkCount = n)
    (h32 : pos < 2 ^ 32) (fuel : Nat) : ∀ k s, Astray fd s₁ s → (s.handles fd).currPos = dataLen * k → k ≤ pos / dataLen →
    pos / dataLen < fuel + k → BlankTo n s.blkBuf → ∃ s', seekAppend e fd pos fuel s = some (.append, s') ∧
    Astray fd s₁ s' ∧
      (s'.handles fd).currPos = dataLen * (pos / dataLen) ∧ (s'.handles fd).size = (s.handles fd).size ∧
        BlankTo n s'.blkBuf ∧
      (k = pos / dataLen → s'.dev = s.dev) ∧ (k < pos / dataLen → BlankTo n (s'.dev 0)) ∧
      WritesIn (· % 4096 = 0) s s' := by
  induction fuel with
  | zero =>
    intro k s h hp hk hfuel
    omega
  | succ fuel ih =>
    intro k s h hp hk hfuel hblank
    rw [seekAppend, handle_bind, hp]
    by_cases hmore : dataLen * k + dataLen ≤ pos
    · have hmore' := more_iff.mp hmore
      obtain ⟨s₂, hs₂⟩ : ∃ s₂ : State, s₂ = { s with tfsLastError := .diskFull, blkBuf := s.blkBuf.setNext 0 } := ⟨_, rfl⟩
      have hlt : 0 < s₂.blkCount := by
        have hblk : s₂.blkCount = s₁.blkCount := by
          rw [hs₂]
          exact h.frame.blkCount
        omega
      have herr : errAfter e s₂ = .ok := by rw [errAfter, hsets]; rfl
      rw [if_pos hmore, Prog.bind_some (allocBlock_inval h.inval), modifyBuf_bind, h.blk]
      rw [← hs₂, Prog.bind_some (driveWriteBlock_any he hlt), ifOk_ok (by exact herr), blkBuf_bind, modifyBuf_bind,
        modifyHandle_bind]
      have hnext : s₂.blkBuf.next = 0 := by
        rw [hs₂]
        simp
      have hh₂ : s₂.handles = s.handles := by rw [hs₂]
      have hpos : (dataLen * k + dataLen) % 2 ^ 32 = dataLen * (k + 1) := by
        rw [Nat.mod_eq_of_lt (by omega), Nat.mul_succ]
      simp only [hnext, hh₂, hp, hpos, herr]
      obtain ⟨s₃, hs₃⟩ : ∃ s₃ : State, s₃ = { s₂ with
        tfsLastError := .ok
        dev := Function.update s₂.dev 0 s₂.blkBuf
        log := s₂.log.transfer (.write 0 true)
        blkBuf := (s₂.blkBuf.clearData.setPrev 0).setNext 0
        handles := Function.update s.handles fd { s.handles fd with currBlk := 0, currPos := dataLen * (k + 1) } } :=
          ⟨_, rfl⟩
      have hh₃ : s₃.handles fd = { s.handles fd with currBlk := 0, currPos := dataLen * (k + 1) } := by
        rw [hs₃]
        exact Function.update_self ..
      have hdev₃ : s₃.dev = Function.update s.dev 0 (s.blkBuf.setNext 0) := by rw [hs₃, hs₂]
      have hfr₃ : FdFrame fd s s₃ := .handle (x := s₃.handles fd) (by rw [hh₃, hs₃])
          (by rw [hs₃, hs₂]; exact ⟨rfl, rfl, rfl, rfl⟩)
        (by rw [hh₃]) (by rw [hh₃]; exact ⟨rfl, rfl⟩)
      have h₃ : Astray fd s₁ s₃ := by
        refine ⟨by rw [hs₃, hs₂]; exact h.inval, by rw [hs₃], by rw [hh₃], by rw [hh₃]; exact h.first, by rw [hs₃]; simp,
          fun b hb => ?_, h.frame.trans hfr₃⟩
        rw [hdev₃, Function.update_of_ne hb]
        exact h.dev b hb
      have hblank₃ : BlankTo n s₃.blkBuf := by
        rw [hs₃]
        exact ⟨by simpa using hn, by simp, fun j hj => by simp [Block.data_clearData _ hj]⟩
      obtain ⟨s', hrun, h', hpos', hsize, hbuf, hstay, hgo, hw⟩ := ih (k + 1) s₃ h₃ (by rw [hh₃]) hmore'
          (by omega) hblank₃
      have hw₃ : WritesIn (· % 4096 = 0) s s₃ := .call (x := .write 0 true) (by rw [hs₃, hs₂]; rfl) fun b ok hb => by
        cases hb
        rfl
      rw [hs₃] at hrun
      refine ⟨s', hrun, h', hpos', by rw [hsize, hh₃], hbuf, fun heq => by omega, fun _ => ?_, hw₃.trans hw⟩
      by_cases hlast : k + 1 = pos / dataLen
      · rw [hstay hlast, hdev₃, Function.update_self]
        exact ⟨by simpa using hblank.prev, by simp, fun j hj => by simp [hblank.data j hj]⟩
      · exact hgo (by omega)
    · rw [if_neg hmore]
      have heq : k = pos / dataLen := by
        have := mt more_iff.mpr hmore
        omega
      exact ⟨s, rfl, h, by rw [hp, heq], rfl, hblank, fun _ => rfl, fun hlt => by omega, .of_log rfl⟩

/-- How `seek` extends the file, from the blocks `c` with the bytes `g` to block
number `q`: that block is in the buffer, or the disk is full and the blocks that were
appended are written; the call ends then, or it goes astray. -/
inductive Extended (e : Env) (n fd : Nat) (cs : List (List Nat)) (xs : List Nat) (s : State) (c : List Nat)
    (g : Nat → UInt8) (q : Nat) : Seek → State → Prop
  | append {s' : State} {d : List Nat} {b : Nat} : Editing n fd cs xs s' d b [] → s'.tfsLastError = .ok →
      c <+: d ++ [b] → d.length = q → fileContent (flushed s' b) (d ++ [b]) = g → AgreeOff (d ++ [b]) s.dev s'.dev →
      FdFrame fd s s' → (s'.handles fd).size = (s.handles fd).size → Filled c d s s' →
        Extended e n fd cs xs s c g q .append s'
  | full {s' : State} {c' : List Nat} : (c' ≠ [] → e.drive.setsOk = false) → FileData n fd cs xs s' c' →
      Cursor (s'.handles fd) c' → s'.tfsLastError = .diskFull → c <+: c' → c'.length ≤ q → Full n s'.dev →
      fileContent s'.dev c' = g → AgreeOff c' s.dev s'.dev → FdFrame fd s s' →
        (s'.handles fd).size = (s.handles fd).size →
      Filled c c' s s' → (c' = [] → s'.dev = s.dev) → Extended e n fd cs xs s c g q .error s'
  | astray {s₁ s' : State} {c' : List Nat} : e.drive.setsOk = true → FileData n fd cs xs s₁ c' → c' ≠ [] → c <+: c' →
      c'.length ≤ q → Full n s₁.dev → fileContent s₁.dev c' = g → AgreeOff c' s.dev s₁.dev → FdFrame fd s s₁ →
      (s₁.handles fd).size = (s.handles fd).size → Astray fd s₁ s' → (s'.handles fd).currPos = dataLen * q →
      (s'.handles fd).size = (s₁.handles fd).size → BlankTo n s'.blkBuf → (c'.length = q → s'.dev = s₁.dev) →
      (c'.length < q → BlankTo n (s'.dev 0)) → Filled c c' s s' → Extended e n fd cs xs s c g q .append s'

/-- The loop of `seek` that appends, on its way to block number `q`: block `b` is the last one of the file, behind the
blocks `d`. The bytes `g` are those of the state `s₀` the call began in, where the file had the blocks `c`. -/
structure Appending (n fd : Nat) (cs : List (List Nat)) (xs : List Nat) (s₀ : State) (c : List Nat) (g : Nat → UInt8)
    (q : Nat) (s : State) (d : List Nat) (b : Nat) : Prop extends Editing n fd cs xs s d b [] where
  err : s.tfsLastError = .ok
  grown : c <+: d ++ [b]
  short : d.length ≤ q
  content : fileContent (flushed s b) (d ++ [b]) = g
  agree : AgreeOff (d ++ [b]) s₀.dev s.dev
  frame : FdFrame fd s₀ s
  size : (s.handles fd).size = (s₀.handles fd).size
  filled : Filled c d s₀ s

/-- A block is free: it is the last one in the next turn. -/
theorem Appending.grow {s₀ s₁ : State} {g : Nat → UInt8} {b' : Nat} (he : e.NeverFails) (h32 : pos < 2 ^ 32)
    (h : Appending n fd cs xs s₀ c g (pos / dataLen) s d b) (hmore : dataLen * d.length + dataLen ≤ pos)
    (ha : Alloc e n s cs (d ++ [b] ++ xs) b' s₁) (fuel : Nat) :
    ∃ s', seekAppend e fd pos (fuel + 1) s = seekAppend e fd pos fuel s' ∧
      Appending n fd cs xs s₀ c g (pos / dataLen) s' (d ++ [b]) b' ∧ freeCount n s.dev = freeCount n s'.dev + 1 := by
  have hb' : b' % 2 ^ 32 = b' :=
    Nat.mod_eq_of_lt (Nat.lt_trans (ha.ready.owned.range b' (by simp)).1 h.mounted.lt)
  have hlt : b < s₁.blkCount := by
    rw [ha.kept.blkCount]
    exact h.range.1
  have hpos : (dataLen * d.length + dataLen) % 2 ^ 32 = dataLen * (d.length + 1) := by
    rw [Nat.mod_eq_of_lt (by omega), Nat.mul_succ]
  obtain ⟨h', hg', hag'⟩ := h.push
    (w := ((s₁.blkBuf.setNext b').clearData.setPrev b).setNext 0)
    (H := Function.update s.handles fd { s.handles fd with currBlk := b', currPos := dataLen * (d.length + 1) })
    (l := s₁.log.transfer (.write b true)) ha
    ⟨by rw [Block.prev_setNext, Block.prev_setPrev, h.range.2.2], by simp, fun k hk => by
      simp [Block.data_clearData _ hk]⟩
    (by rw [Function.update_self]; exact ⟨rfl, rfl, rfl⟩)
  have hfree := h.owned.freeCount_add h'.owned
  simp only [List.length_append, List.length_cons, List.length_nil] at hfree
  refine ⟨_, ?_, ⟨h', ha.err, h.grown.trans (List.prefix_append _ _), ?_, hg'.trans h.content, ?_, ?_, ?_,
    (h.filled.trans (allocBlock_writes h.cache ha.run)).snoc rfl⟩, ?_⟩
  · rw [seekAppend, handle_bind, h.pos, if_pos hmore, h.blk, Prog.bind_some ha.run, modifyBuf_bind,
      Prog.bind_some (driveWriteBlock_ok he (by exact ha.err) (by exact hlt)), ifOk_ok (by exact ha.err), blkBuf_bind,
      modifyBuf_bind, modifyHandle_bind]
    simp only [Block.next_setNext, hb', ha.kept.handles, h.pos, hpos]
  · rw [List.length_append, List.length_singleton]
    exact more_iff.mp hmore
  · exact (h.agree.mono fun x hx => List.mem_append_left _ hx).trans (hag'.mono (by simp))
  · exact h.frame.trans (.handle rfl ⟨ha.kept.blkCount, ha.kept.lastBlk, ha.kept.lastLen, ha.kept.cur⟩ rfl ⟨rfl, rfl⟩)
  · show (Function.update s.handles fd _ fd).size = _
    rw [Function.update_self]
    exact h.size
  · show _ = freeCount n (Function.update s₁.dev b _) + 1
    omega

/-- No block is free: block `b` has been written as the last one of the file. -/
structure LastWritten (e : Env) (n fd : Nat) (cs : List (List Nat)) (xs : List Nat) (s₀ : State) (c : List Nat)
    (g : Nat → UInt8) (s : State) (d : List Nat) (b : Nat) (s₂ : State) : Prop
    extends FileData n fd cs xs s₂ (d ++ [b]) where
  err : s₂.tfsLastError = if e.drive.setsOk then .ok else .diskFull
  handles : s₂.handles = s.handles
  next : s₂.blkBuf.next = 0
  inval : s₂.loadedBitmapBlk = bitmapBlkInval
  full : Full n s₂.dev
  content : fileContent s₂.dev (d ++ [b]) = g
  agree : AgreeOff (d ++ [b]) s₀.dev s₂.dev
  frame : FdFrame fd s₀ s₂
  filled : Filled c (d ++ [b]) s₀ s₂

theorem Appending.last {s₀ s₁ : State} {g : Nat → UInt8} {q : Nat} (he : e.NeverFails) (hf : n ≤ e.fuel)
    (h : Appending n fd cs xs s₀ c g q s d b) (ha : AllocFull e n s cs (d ++ [b] ++ xs) s₁) :
    ∃ s₂, driveWriteBlock e b .blkBuf { s₁ with blkBuf := s₁.blkBuf.setNext 0 } = some ((), s₂) ∧
      LastWritten e n fd cs xs s₀ c g s d b s₂ := by
  have hlt : b < s₁.blkCount := by
    rw [ha.kept.blkCount]
    exact h.range.1
  have h₁ : Editing n fd cs xs s₁ d b [] := h.kept ha.ready ha.kept (by rw [ha.dev]; exact .refl)
  obtain ⟨s₂, hs₂⟩ : ∃ s₂ : State, s₂ = { s₁ with
    tfsLastError := errAfter e s₁
    dev := Function.update s₁.dev b (s₁.blkBuf.setNext 0)
    blkBuf := s₁.blkBuf.setNext 0
    log := s₁.log.transfer (.write b true) } := ⟨_, rfl⟩
  have hdev₂ : s₂.dev = Function.update s.dev b (s₁.blkBuf.setNext 0) := by rw [hs₂, ← ha.dev]
  refine ⟨s₂, ?_, ?_, ?_, ?_, ?_, ?_, fun x hx => ?_, ?_, ?_, ?_, ?_⟩
  · rw [hs₂, driveWriteBlock_any he (by exact hlt)]
    rfl
  · rw [hs₂]
    exact h₁.stored (by simp [ha.kept.buf, h.prev]) (by simp) rfl
  · rw [hs₂]
    show errAfter e s₁ = _
    rw [errAfter, ha.err]
  · rw [hs₂]
    exact ha.kept.handles
  · rw [hs₂]
    simp
  · rw [hs₂]
    exact ha.inval h.toReady he hf h.err
  · rw [hdev₂, used_update h.range.2.1]
    exact ha.full x hx
  · refine Eq.trans (fileContent_same (b := b) (fun x _ hxb => ?_) fun k _ => ?_) h.content
    · rw [hdev₂, Function.update_of_ne hxb, flushed, Function.update_of_ne hxb]
    · rw [hdev₂, Function.update_self, flushed, Function.update_self, Block.data_setNext, ha.kept.buf]
  · rw [hdev₂]
    exact h.agree.trans (AgreeOff.update (by simp) _)
  · rw [hs₂]
    exact h.frame.trans (Frame.fdFrame ⟨ha.kept.blkCount, ha.kept.lastBlk, ha.kept.lastLen, ha.kept.cur,
      ha.kept.handles⟩)
  · exact (h.filled.trans (allocBlock_writes h.cache ha.run)).snoc (by rw [hs₂]; rfl)

/-- On a drive that sets `tfs_last_error` the loop does not see the error, and goes on with block 0. -/
theorem LastWritten.goesOn {s₀ s₂ : State} {g : Nat → UInt8} (he : e.NeverFails) (hsets : e.drive.setsOk = true)
    (h32 : pos < 2 ^ 32) (h : Appending n fd cs xs s₀ c g (pos / dataLen) s d b)
    (h₂ : LastWritten e n fd cs xs s₀ c g s d b s₂) (hmore : d.length + 1 ≤ pos / dataLen) {fuel : Nat}
    (hgo : pos / dataLen < fuel + (d.length + 1)) :
    ∃ s', seekAppend e fd pos fuel { s₂ with
        blkBuf := (s₂.blkBuf.clearData.setPrev b).setNext 0
        handles := Function.update s.handles fd { s.handles fd with
          currBlk := 0, currPos := dataLen * (d.length + 1) } } = some (.append, s') ∧
      Extended e n fd cs xs s₀ c g (pos / dataLen) .append s' := by
  obtain ⟨s₃, hs₃⟩ : ∃ s₃ : State, s₃ = { s₂ with
    blkBuf := (s₂.blkBuf.clearData.setPrev b).setNext 0
    handles := Function.update s.handles fd { s.handles fd with
      currBlk := 0, currPos := dataLen * (d.length + 1) } } := ⟨_, rfl⟩
  rw [← hs₃]
  have hh₃ : s₃.handles fd = { s.handles fd with currBlk := 0, currPos := dataLen * (d.length + 1) } := by
    rw [hs₃]
    exact Function.update_self ..
  have hfr₃ : FdFrame fd s₂ s₃ := .handle (x := s₃.handles fd) (by rw [hh₃, hs₃, h₂.handles])
    (by rw [hs₃]; exact ⟨rfl, rfl, rfl, rfl⟩) (by rw [hh₃, h₂.handles])
    (by rw [hh₃, h₂.handles]; exact ⟨rfl, rfl⟩)
  have hastray : Astray fd s₂ s₃ := by
    refine ⟨?_, ?_, by rw [hh₃], by rw [hh₃, h₂.handles], by rw [hs₃]; simp, fun x _ => by rw [hs₃], hfr₃⟩
    · rw [hs₃]
      exact h₂.inval
    · rw [hs₃]
      show s₂.tfsLastError = .ok
      rw [h₂.err, if_pos hsets]
  have hbn : b < n := (h.owned.range b (by simp)).1
  have hblank : BlankTo n s₃.blkBuf := by
    rw [hs₃]
    exact ⟨by rw [Block.prev_setNext, Block.prev_setPrev, h.range.2.2]; exact hbn, by simp,
      fun j hj => by simp [Block.data_clearData _ hj]⟩
  obtain ⟨s', hrun, h', hpos', hsize', hbuf, hstay, hblank', hw⟩ := seekAppend_astray he hsets h.mounted.pos
    h₂.mounted.count h32 fuel (d.length + 1) s₃ hastray (by rw [hh₃]) hmore hgo hblank
  have hdev₃ : s₃.dev = s₂.dev := by rw [hs₃]
  refine ⟨s', hrun, .astray hsets h₂.toFileData (by simp) h.grown (by simpa using hmore) h₂.full h₂.content h₂.agree
    h₂.frame (by rw [h₂.handles]; exact h.size) h' hpos' (by rw [hsize', hh₃, h₂.handles]) hbuf (fun heq => ?_)
    (fun hlt => hblank' (by simpa using hlt)) ((h₂.filled.trans (.of_log (by rw [hs₃]))).trans hw)⟩
  rw [hstay (by simpa using heq), hdev₃]

theorem seekAppend_ok (he : e.NeverFails) (hf : n ≤ e.fuel) (h32 : pos < 2 ^ 32) {s₀ : State} {g : Nat → UInt8}
    (fuel : Nat) : ∀ d b s, n ≤ fuel + d.length → Appending n fd cs xs s₀ c g (pos / dataLen) s d b →
    (e.drive.setsOk = false ∨ pos / dataLen ≤ d.length + freeCount n s.dev ∨ pos / dataLen < fuel + d.length) →
    ∃ r s', seekAppend e fd pos fuel s = some (r, s') ∧ Extended e n fd cs xs s₀ c g (pos / dataLen) r s' := by
  induction fuel with
  | zero =>
    intro d b s hn h
    have := h.length_lt
    omega
  | succ fuel ih =>
    intro d b s hn h hroom
    by_cases hmore : dataLen * d.length + dataLen ≤ pos
    · have hmore' := more_iff.mp hmore
      rcases h.toReady.alloc he hf h.err with ⟨b', s₁, ha⟩ | ⟨s₁, ha⟩
      · obtain ⟨s', hrun, h', hfree⟩ := h.grow he h32 hmore ha fuel
        have hlen : (d ++ [b]).length = d.length + 1 := by rw [List.length_append, List.length_singleton]
        rw [hrun]
        exact ih (d ++ [b]) b' s' (by omega) h' (hroom.imp_right fun hroom => by omega)
      · obtain ⟨s₂, hwrite, h₂⟩ := h.last he hf ha
        rw [seekAppend, handle_bind, h.pos, if_pos hmore, h.blk, Prog.bind_some ha.run, modifyBuf_bind,
          Prog.bind_some hwrite]
        cases hsets : e.drive.setsOk with
        | false =>
          have herr₂ : s₂.tfsLastError = .diskFull := by
            rw [h₂.err, hsets]
            rfl
          refine ⟨.error, s₂, ifOk_err (by rw [herr₂]; exact Err.noConfusion), .full (fun _ => hsets) h₂.toFileData ?_
            herr₂ h.grown (by simpa using hmore') h₂.full h₂.content h₂.agree h₂.frame
            (by rw [h₂.handles]; exact h.size) h₂.filled (by simp)⟩
          exact .inr ⟨d.length, by simp, by simp [h₂.handles, h.blk], by rw [h₂.handles, h.pos], by omega⟩
        | true =>
          have hgo : pos / dataLen < fuel + (d.length + 1) := by
            rcases hroom with hno | hroom | hfuel
            · rw [hsets] at hno
              cases hno
            · rw [freeCount_eq_zero.mpr ha.full] at hroom
              omega
            · omega
          have hpos : (dataLen * d.length + dataLen) % 2 ^ 32 = dataLen * (d.length + 1) := by
            rw [Nat.mod_eq_of_lt (by omega), Nat.mul_succ]
          obtain ⟨s', hrun, hend⟩ := h₂.goesOn he hsets h32 h hmore' hgo
          refine ⟨.append, s', ?_, hend⟩
          rw [ifOk_ok (by rw [h₂.err, if_pos hsets]), blkBuf_bind, modifyBuf_bind, modifyHandle_bind]
          simp only [h₂.next, h₂.handles, h.pos, hpos]
          exact hrun
    · rw [seekAppend, handle_bind, h.pos, if_neg hmore]
      refine ⟨.append, s, rfl, .append h.toEditing h.err h.grown ?_ h.content h.agree h.frame h.size h.filled⟩
      have := mt more_iff.mpr hmore
      have := h.short
      omega

/-! ## seek -/

theorem FileData.split (h : FileData n fd cs xs s c) (hk : k < c.length) (l : DriveLog) :
    Editing n fd cs xs (s.seekTo fd (c.getD k 0) (dataLen * k) (s.dev (c.getD k 0)) l) (c.take k) (c.getD k 0)
      (c.drop (k + 1)) := by
  have hsplit : c = c.take k ++ c.getD k 0 :: c.drop (k + 1) := by
    rw [List.getD_eq_getElem _ _ hk, ← List.drop_eq_getElem_cons hk, List.take_append_drop]
  have hlen : (c.take k).length = k := by
    rw [List.length_take]
    omega
  have hed := h.editing hsplit l
  rwa [hlen] at hed

/-- A position inside the file: its block is the current one, and in the buffer. -/
theorem seek_found (he : e.NeverFails) (h : FileChain e fd s c) (hcur : Cursor (s.handles fd) c)
    (herr : s.tfsLastError = .ok) (h32 : pos < 2 ^ 32) (append : Bool) (hq : pos / dataLen < c.length) :
    ∃ l, seek e fd pos append s = some (.ok, s.seekTo fd (c.getD (pos / dataLen) 0) (dataLen * (pos / dataLen))
      (s.dev (c.getD (pos / dataLen) 0)) l) := by
  obtain ⟨last, v, l, hrun, -⟩ := seek_walk he h hcur herr h32 append (m := pos / dataLen) (by omega)
  obtain ⟨hlt, hne⟩ := h.blocks _ (getD_mem hq)
  refine ⟨l.transfer (.read (c.getD (pos / dataLen) 0) true), ?_⟩
  rw [hrun, seekEnd, handle_bind, State.seekTo_handle, if_pos hne, Prog.bind_some
    (driveReadBlock_ok he (by exact herr) (by exact hlt)),
    ifOk_ok (by exact herr)]
  rfl

/-- A position behind the file, when nothing is appended. -/
theorem seek_eof (he : e.NeverFails) (h : FileChain e fd s c) (hcur : Cursor (s.handles fd) c)
    (herr : s.tfsLastError = .ok) (h32 : pos < 2 ^ 32) (hq : c.length ≤ pos / dataLen) :
    ∃ v l, seek e fd pos false s = some (.eof, s.seekTo fd 0 (dataLen * c.length) v l) := by
  obtain ⟨last, v, l, hrun, -⟩ := seek_walk he h hcur herr h32 false (m := c.length) (by omega)
  refine ⟨v, l, ?_⟩
  have hzero : c.getD c.length 0 = 0 := List.getD_eq_default _ _ (Nat.le_refl _)
  rw [hrun, hzero, seekEnd, handle_bind, State.seekTo_handle, if_neg (by simp), if_pos (by rfl)]
  rfl

/-- The end of `seek` for a file without blocks: it gets its first one. -/
theorem seekEnd_first (he : e.NeverFails) (hf : n ≤ e.fuel) {s₁ : State} (hR : Ready n s₁ cs xs)
    (hfirst : (s.handles fd).firstBlk = 0) (hh₁ : s₁.handles fd = { s.handles fd with currBlk := 0, currPos := 0 })
    (hdev₁ : s₁.dev = s.dev) (herr₁ : s₁.tfsLastError = .ok) (hfr₁ : FdFrame fd s s₁) (h32 : pos < 2 ^ 32)
    (hquiet : WritesIn (fun _ => False) s s₁)
    (hroom : e.drive.setsOk = false ∨ pos / dataLen + 1 ≤ freeCount n s.dev ∨ pos / dataLen < e.fuel)
    (last : Nat × Nat) :
    ∃ r s', seekEnd e fd pos true last s₁ = some (r, s') ∧
      Extended e n fd cs xs s [] (fileContent s.dev []) (pos / dataLen) r s' := by
  rw [seekEnd, handle_bind, hh₁, if_neg (by simp), if_neg (by simp), if_pos (by exact hfirst)]
  rcases hR.alloc he hf herr₁ with ⟨b, s₂, ha⟩ | ⟨s₂, ha⟩
  · rw [Prog.bind_some ha.run, modifyHandle_bind, ifOk_ok (by exact ha.err), modifyBuf_bind, initPos, modifyHandle_bind]
    simp only [Function.update_self, Function.update_idem, ha.kept.handles]
    have hed : Editing n fd cs xs { s₂ with
        blkBuf := Buf.zero, handles := Function.update s₁.handles fd { s₁.handles fd with
          firstBlk := b, currBlk := b, currPos := 0 } } [] b [] := by
      refine ⟨⟨ha.ready.mounted, ha.ready.cache, ha.ready.owned⟩, ?_, ?_, ?_, trivial, Block.prev_zero,
        Block.next_zero, trivial⟩
      · show (Function.update s₁.handles fd _ fd).currBlk = _
        rw [Function.update_self]
      · show (Function.update s₁.handles fd _ fd).currPos = _
        rw [Function.update_self]
        rfl
      · show (Function.update s₁.handles fd _ fd).firstBlk = _
        rw [Function.update_self]
        rfl
    have hfill : Filled [] [] s s₂ := (Filled.start hquiet (by simp)).trans (allocBlock_writes hR.cache ha.run)
    refine seekAppend_ok he hf h32 (c := []) (g := fileContent s.dev []) e.fuel [] b _ (by omega)
      ⟨hed, ha.err, List.nil_prefix, Nat.zero_le _, ?_, ?_, ?_, ?_, hfill.trans (.of_log rfl)⟩ ?_
    · refine fileContent_snoc (c := []) fun k _ => ?_
      rw [flushed, Function.update_self]
      exact Block.data_zero k
    · rw [← hdev₁]
      exact ha.agree.mono (by simp)
    · exact hfr₁.trans (.handle rfl ⟨ha.kept.blkCount, ha.kept.lastBlk, ha.kept.lastLen, ha.kept.cur⟩ rfl ⟨rfl, rfl⟩)
    · show (Function.update s₁.handles fd _ fd).size = _
      rw [Function.update_self, hh₁]
    · refine hroom.imp_right fun hroom => ?_
      have hfree := hR.owned.freeCount_add ha.ready.owned
      rw [hdev₁] at hfree
      simp only [List.length_append, List.length_cons, List.length_nil] at hfree hroom ⊢
      show _ ≤ 0 + freeCount n s₂.dev ∨ _
      omega
  · rw [Prog.bind_some ha.run, modifyHandle_bind, ifOk_err
      (by show s₂.tfsLastError ≠ .ok; rw [ha.err]; exact Err.noConfusion)]
    simp only [ha.kept.handles]
    have hfd : FdFrame fd s { s₂ with handles := Function.update s₁.handles fd { s₁.handles fd with firstBlk := 0 } } :=
      hfr₁.trans (.handle rfl ⟨ha.kept.blkCount, ha.kept.lastBlk, ha.kept.lastLen, ha.kept.cur⟩ rfl ⟨rfl, rfl⟩)
    refine ⟨.error, _, rfl, .full (fun hne => absurd rfl hne) ⟨⟨ha.ready.mounted, ha.ready.cache, ha.ready.owned⟩,
      trivial, ?_⟩ (.inl ?_)
      ha.err List.nil_prefix (Nat.zero_le _) ?_ rfl ?_ hfd ?_
      (((Filled.start hquiet (by simp)).trans (allocBlock_writes hR.cache ha.run)).trans (.of_log rfl))
      (fun _ => ha.dev.trans hdev₁)⟩
    · show (Function.update s₁.handles fd _ fd).firstBlk = _
      rw [Function.update_self]
      rfl
    · show (Function.update s₁.handles fd _ fd).currBlk = _
      rw [Function.update_self, hh₁]
    · show Full n s₂.dev
      rw [ha.dev]
      exact ha.full
    · show AgreeOff _ _ s₂.dev
      rw [ha.dev, hdev₁]
      exact .refl
    · show (Function.update s₁.handles fd _ fd).size = _
      rw [Function.update_self, hh₁]

/-- The end of `seek` behind the last block of a file: it goes on from there. -/
theorem seekEnd_last (he : e.NeverFails) (hf : n ≤ e.fuel) (h : FileData n fd cs xs s c) (hc : c ≠ [])
    (herr : s.tfsLastError = .ok) (h32 : pos < 2 ^ 32) (hq : c.length ≤ pos / dataLen) {l : DriveLog}
    (hquiet : WritesIn (fun _ => False) s (s.seekTo fd 0 (dataLen * c.length) (s.dev (c.getLastD 0)) l))
    (hroom : e.drive.setsOk = false ∨ pos / dataLen + 1 ≤ c.length + freeCount n s.dev ∨ pos / dataLen < e.fuel) :
    ∃ r s', seekEnd e fd pos true (c.getLastD 0, dataLen * (c.length - 1))
        (s.seekTo fd 0 (dataLen * c.length) (s.dev (c.getLastD 0)) l) = some (r, s') ∧
      Extended e n fd cs xs s c (fileContent s.dev c) (pos / dataLen) r s' := by
  have hfirst : (s.handles fd).firstBlk ≠ 0 := by
    rw [h.first]
    exact (h.blocks _ (firstBlk_mem hc)).2
  rw [seekEnd, handle_bind, State.seekTo_handle, if_neg (by simp), if_neg (by simp), if_neg (by exact hfirst),
    modifyHandle_bind]
  have hsplit : c = c.dropLast ++ c.getLastD 0 :: [] := by
    rw [List.getLastD_eq_getLast?, List.getLast?_eq_getLast_of_ne_nil hc]
    exact (List.dropLast_append_getLast hc).symm
  have hlen : c.dropLast.length = c.length - 1 := List.length_dropLast
  have hed := h.editing hsplit l
  rw [hlen] at hed
  have hstate : ({ (s.seekTo fd 0 (dataLen * c.length) (s.dev (c.getLastD 0)) l) with
      handles := Function.update (s.seekTo fd 0 (dataLen * c.length) (s.dev (c.getLastD 0)) l).handles fd
        { (s.seekTo fd 0 (dataLen * c.length) (s.dev (c.getLastD 0)) l).handles fd with
          currBlk := c.getLastD 0, currPos := dataLen * (c.length - 1) } } : State) =
      s.seekTo fd (c.getLastD 0) (dataLen * (c.length - 1)) (s.dev (c.getLastD 0)) l :=
    s.seekTo_seekTo fd _ _ _ _ _ _ _ _
  rw [hstate]
  have hfill : Filled c c.dropLast s (s.seekTo fd (c.getLastD 0) (dataLen * (c.length - 1)) (s.dev (c.getLastD 0)) l) :=
    .start (hquiet.trans (.of_log rfl)) fun b hb => List.dropLast_subset c hb
  have hpos : 0 < c.length := List.length_pos_of_ne_nil hc
  refine seekAppend_ok he hf h32 (c := c) (g := fileContent s.dev c) e.fuel c.dropLast _ _ (by omega)
    ⟨hed, herr, hsplit ▸ List.prefix_refl c, by omega, ?_, .refl, .handle rfl ⟨rfl, rfl, rfl, rfl⟩ rfl ⟨rfl, rfl⟩, ?_,
      hfill⟩ ?_
  · rw [← hsplit]
    refine fileContent_congr fun b _ => ?_
    show Function.update s.dev _ _ b = _
    rw [show (s.seekTo fd (c.getLastD 0) (dataLen * (c.length - 1)) (s.dev (c.getLastD 0)) l).blkBuf = s.dev
      (c.getLastD 0) from rfl, Function.update_eq_self]
  · rw [State.seekTo_handle]
  · refine hroom.imp_right fun hroom => ?_
    show _ ≤ _ + freeCount n s.dev ∨ _
    omega

/-- A position behind the file: the file is extended to it. -/
theorem seek_extend (he : e.NeverFails) (hf : n ≤ e.fuel) (h : FileData n fd cs xs s c) (hcur : Cursor (s.handles fd) c)
    (herr : s.tfsLastError = .ok) (h32 : pos < 2 ^ 32) (hq : c.length ≤ pos / dataLen)
    (hroom : e.drive.setsOk = false ∨ pos / dataLen + 1 ≤ c.length + freeCount n s.dev ∨ pos / dataLen < e.fuel) :
    ∃ r s', seek e fd pos true s = some (r, s') ∧ Extended e n fd cs xs s c (fileContent s.dev c)
    (pos / dataLen) r s' := by
  obtain ⟨last, v, l, hrun, hlast, hquiet⟩ := seek_walk he (h.fileChain hf) hcur herr h32 true (m := c.length) (by omega)
  have hzero : c.getD c.length 0 = 0 := List.getD_eq_default _ _ (Nat.le_refl _)
  rw [hzero] at hquiet
  rw [hrun, hzero]
  by_cases hc : c = []
  · subst hc
    have hR : Ready n (s.seekTo fd 0 (dataLen * ([] : List Nat).length) v l) cs xs := ⟨h.mounted, h.cache, h.owned⟩
    have hfr : FdFrame fd s (s.seekTo fd 0 (dataLen * ([] : List Nat).length) v l) :=
      .handle rfl ⟨rfl, rfl, rfl, rfl⟩ rfl ⟨rfl, rfl⟩
    exact seekEnd_first he hf hR h.first (by rw [State.seekTo_handle]; rfl) rfl herr hfr h32 hquiet
      (by simpa using hroom) last
  · obtain ⟨rfl, rfl⟩ := hlast hc rfl
    exact seekEnd_last he hf h hc herr h32 hq hquiet hroom

end TinyFs
