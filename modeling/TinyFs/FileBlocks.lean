/-
The data blocks of a whole file on the never-failing drive: `free_file_blocks`
gives a chain back, and the write loop of `tfs_write_file` builds one, block
after block. The loop allocates the next block before it writes the current one,
so what it has written so far ends in the block it is about to write; that is
its invariant.
-/
import TinyFs.Cleanup

namespace TinyFs

open Bytes Chains

variable {e : Env} {n : Nat} {s : State} {cs : List (List Nat)} {xs : List Nat}

/-- Blocks that were owned and no longer are, are free. -/
theorem Ready.not_used {s' : State} {c : List Nat} (h : Ready n s cs (c ++ xs)) (h' : Ready n s' cs xs) :
    ∀ b ∈ c, ¬ Used s'.dev b := by
  intro b hb hu
  obtain ⟨hlt, hmod⟩ := h.owned.range b (by simp [hb])
  have hnd := h.owned.nodup
  rw [List.append_assoc, List.nodup_append] at hnd
  rcases (h'.owned.used b hlt).mp hu with hm | hm
  · exact hmod hm
  · exact hnd.2.2 b hb b hm rfl

theorem freeFileBlocksLoop_ok (he : e.NeverFails) (c : List Nat) : ∀ (fuel p : Nat) (s : State), c.length < fuel →
    LinkedOn s.dev p c 0 → Ready n s cs (c ++ xs) → s.tfsLastError = .ok →
    ∃ s', freeFileBlocksLoop e fuel (firstBlk c) s = some ((), s') ∧ Ready n s' cs xs ∧ s'.tfsLastError = .ok ∧
      Frame s s' ∧ s'.loadedDirBlk = s.loadedDirBlk ∧ AgreeOff [] s.dev s'.dev := by
  induction c with
  | nil =>
    intro fuel p s hf _ h herr
    obtain ⟨fuel, rfl⟩ : ∃ k, fuel = k + 1 := ⟨fuel - 1, by simp at hf; omega⟩
    exact ⟨s, rfl, h, herr, .refl, rfl, .refl⟩
  | cons b c ih =>
    intro fuel p s hf hl h herr
    obtain ⟨fuel, rfl⟩ : ∃ k, fuel = k + 1 := ⟨fuel - 1, by simp at hf; omega⟩
    obtain ⟨_, hnext, hl⟩ := hl
    obtain ⟨hlt, hmod⟩ := h.owned.range b (by simp)
    have hread : Ready n { s with blkBuf := s.dev b, log := s.log.transfer (.read b true) } cs (b :: (c ++ xs)) :=
      ⟨h.mounted, h.cache, h.owned⟩
    obtain ⟨s₁, hrun, h₁, herr₁, hkept, _, hagree⟩ := hread.free he herr
    have hl₁ : LinkedOn s₁.dev b c 0 := by
      have hsame : ∀ x ∈ c, s₁.dev x = s.dev x := fun x hx =>
        hagree x (h.owned.single_mod (by simp [hx])) (by simp)
      exact hl.congr (fun x hx => by rw [hsame x hx]) (fun x hx => by rw [hsame x hx])
    obtain ⟨s', hrun', h', herr', hframe, hdir, hagree'⟩ := ih fuel b s₁ (by simpa using hf) hl₁ h₁ herr₁
    refine ⟨s', ?_, h', herr', ?_, hdir.trans hkept.dirBlk, hagree.trans hagree'⟩
    · rw [freeFileBlocksLoop, firstBlk_cons, if_neg (ne_zero_of_mod hmod),
        Prog.bind_some (driveReadBlock_ok he herr (h.single_lt (by simp))), ifOk_ok (by exact herr),
        Prog.bind_some hrun, ifOk_ok herr₁, blkBuf_bind, hkept.buf]
      have hfirst : (s.dev b).next = firstBlk c := hnext
      simp only [hfirst]
      exact hrun'
    · exact Frame.trans ⟨hkept.blkCount, hkept.lastBlk, hkept.lastLen, hkept.cur, hkept.handles⟩ hframe

/-- `free_file_blocks` gives the blocks of a chain back, and changes no block but bitmap blocks. -/
theorem freeFileBlocks_ok (he : e.NeverFails) (hf : n ≤ e.fuel) {c : List Nat} (h : Ready n s (c :: cs) xs)
    (herr : s.tfsLastError = .ok) :
    ∃ s', freeFileBlocks e (firstBlk c) s = some ((), s') ∧ Ready n s' cs xs ∧ s'.tfsLastError = .ok ∧ Frame s s' ∧
      s'.loadedDirBlk = s.loadedDirBlk ∧ AgreeOff [] s.dev s'.dev ∧ ∀ b ∈ c, ¬ Used s'.dev b := by
  have hlen := h.owned.length_lt (c := c) (by simp)
  have hl := (h.owned.chain c (by simp)).2
  have hR : Ready n s cs (c ++ xs) := ⟨h.mounted, h.cache, h.owned.release⟩
  obtain ⟨s', hrun, h', herr', hframe, hdir, hagree⟩ := freeFileBlocksLoop_ok he c e.fuel 0 s (by omega) hl hR herr
  exact ⟨s', hrun, h', herr', hframe, hdir, hagree, hR.not_used h'⟩

theorem freeFileBlocks_zero (hf : 0 < e.fuel) : freeFileBlocks e 0 s = some ((), s) := by
  obtain ⟨k, hk⟩ : ∃ k, e.fuel = k + 1 := ⟨e.fuel - 1, by omega⟩
  rw [freeFileBlocks, hk, freeFileBlocksLoop, if_pos rfl]
  rfl

/-! ## The bytes of a file -/

/-- Byte `p` of a file with its data in the blocks `c`. -/
def fileByte (dev : Nat → Block) (c : List Nat) (p : Nat) : UInt8 := (dev (c.getD (p / dataLen) 0)).data (p % dataLen)

/-- The first `len` bytes of `data` are in the blocks `c`, as far as these go. -/
def Holds (dev : Nat → Block) (c : List Nat) (data : List UInt8) (len : Nat) : Prop :=
  ∀ p < len, p < dataLen * c.length → fileByte dev c p = data.getD p 0

section Bytes

variable {dev dev' : Nat → Block} {b p len : Nat} {c : List Nat} {data : List UInt8}

theorem fileByte_head (h : p < dataLen) : fileByte dev (b :: c) p = (dev b).data p := by
  rw [fileByte, Nat.div_eq_of_lt h, Nat.mod_eq_of_lt h]
  rfl

theorem fileByte_tail (h : dataLen ≤ p) : fileByte dev (b :: c) p = fileByte dev c (p - dataLen) := by
  obtain ⟨q, rfl⟩ := Nat.exists_eq_add_of_le h
  have hdiv : (dataLen + q) / dataLen = q / dataLen + 1 := by
    rw [Nat.add_comm, Nat.add_div_right q (by decide)]
  rw [fileByte, fileByte, hdiv, Nat.add_mod_left, Nat.add_sub_cancel_left, List.getD_cons_succ]

theorem fileByte_congr (h : ∀ b ∈ c, dev' b = dev b) (hp : p < dataLen * c.length) :
    fileByte dev' c p = fileByte dev c p := by
  have hlt : p / dataLen < c.length := Nat.div_lt_of_lt_mul hp
  rw [fileByte, fileByte, List.getD_eq_getElem _ _ hlt, h _ (List.getElem_mem hlt)]

theorem Holds.cons (h : Holds dev c (data.drop dataLen) (len - dataLen))
    (hb : ∀ p < len, p < dataLen → (dev b).data p = data.getD p 0) : Holds dev (b :: c) data len := by
  intro p hp hpc
  rw [List.length_cons] at hpc
  by_cases h504 : p < dataLen
  · rw [fileByte_head h504, hb p hp h504]
  · have hle : dataLen ≤ p := by omega
    rw [fileByte_tail hle, h (p - dataLen) (by omega) (by simp only [dataLen] at *; omega), List.getD_eq_getElem?_getD,
      List.getD_eq_getElem?_getD, List.getElem?_drop, Nat.add_sub_cancel' hle]

/-- What `memcpy` puts at the start of a data block. -/
theorem data_copyData (v : Block) (h : len ≤ dataLen) (hp : p < len) :
    (v.copyData 0 data len).data p = data.getD p 0 := by
  rw [Block.data, Block.copyData, Buf.get_fill_in _ _ (by omega) (by omega) (by simp only [dataLen] at h; omega)]
  congr 1
  omega

end Bytes

/-! ## Writing a file -/

/-- How many blocks hold `len` bytes. -/
def blocksFor (len : Nat) : Nat := (len + 503) / 504

/-- How the write loop ends: with all blocks, or with what the disk had room for. -/
inductive Written (e : Env) (n : Nat) (s' : State) (blocks need : Nat) : Prop
  | all : s'.tfsLastError = .ok → blocks = need → Written e n s' blocks need
  | full : s'.tfsLastError = (if e.drive.setsOk then .ok else .diskFull) → Full n s'.dev → blocks < need →
      Written e n s' blocks need

/-- What the write loop leaves from block `pos` on, with the blocks `d` written and linked to it: `c` are the blocks
behind it. -/
structure WrittenFrom (e : Env) (n : Nat) (cs : List (List Nat)) (xs : List Nat) (s : State) (d : List Nat) (pos : Nat)
    (data : List UInt8) (len : Nat) (c : List Nat) (s' : State) : Prop where
  ready : Ready n s' ((d ++ pos :: c) :: cs) xs
  frame : Frame s s'
  agree : AgreeOff (pos :: c) s.dev s'.dev
  written : Written e n s' (c.length + 1) (blocksFor len)
  holds : Holds s'.dev (pos :: c) data len

theorem Ready.notMem_before {d : List Nat} {pos : Nat} (h : Ready n s cs (d ++ pos :: xs)) : pos ∉ d := by
  have hnd := h.owned.nodup
  rw [List.append_assoc, List.nodup_append] at hnd
  exact fun hx => hnd.2.2 pos hx pos (by simp) rfl

theorem writeFileLoop_zero {fuel : Nat} (hfuel : 0 < fuel) (data : List UInt8) (len : Nat) (s : State) :
    writeFileLoop e fuel 0 data len s = some ((), s) := by
  obtain ⟨k, rfl⟩ : ∃ k, fuel = k + 1 := ⟨fuel - 1, by omega⟩
  rw [writeFileLoop, if_pos rfl]
  rfl

/-- A block is written at the end, with a `next` of 0: the blocks are a chain. -/
theorem Ready.closed {s' : State} {d : List Nat} {pos : Nat} {v : Block} (h : Ready n s cs (d ++ pos :: xs))
    (hl : LinkedOn s.dev 0 d pos) (hvp : v.prev = d.getLastD 0) (hvn : v.next = 0)
    (hdev : s'.dev = Function.update s.dev pos v) (hfr : Frame s s') (hlb : s'.loadedBitmapBlk = s.loadedBitmapBlk)
    (hbb : s'.bitmapBlk = s.bitmapBlk) : Ready n s' ((d ++ pos :: []) :: cs) xs := by
  have hR := h.store (b := pos) (by simp) v s.log
  have hR' : Owned n (Function.update s.dev pos v) cs (d ++ [pos] ++ xs) :=
    hR.owned.perm (.refl _) (.of_eq (by simp))
  refine ⟨hfr.mounted h.mounted, ?_, ?_⟩
  · rw [State.CacheOk, hdev, hlb, hbb]
    exact hR.cache
  · rw [hdev]
    exact hR'.adopt ⟨by simp, Linked.snoc hl h.notMem_before hvp hvn⟩

/-- The rest of the data fits into the block. -/
theorem writeFileLoop_last (he : e.NeverFails) {d : List Nat} {pos : Nat} {data : List UInt8} {len fuel : Nat}
    (hfuel : 0 < fuel) (hlen : 0 < len) (hle : len ≤ dataLen) (h : Ready n s cs (d ++ pos :: xs))
    (hl : LinkedOn s.dev 0 d pos) (hprev : s.blkBuf.prev = d.getLastD 0) (herr : s.tfsLastError = .ok) :
    ∃ s', writeFileLoop e (fuel + 1) pos data len s = some ((), s') ∧ WrittenFrom e n cs xs s d pos data len [] s' := by
  have hmod := (h.owned.range pos (by simp)).2
  rw [writeFileLoop, if_neg (ne_zero_of_mod hmod)]
  simp only [if_neg (Nat.not_lt.mpr hle), modifyBuf_bind]
  rw [Prog.bind_some (driveWriteBlock_ok he (by exact herr) (by exact h.single_lt (b := pos) (by simp))),
    ifOk_ok (by exact herr), modifyBuf_bind, blkBuf_bind]
  simp only [Block.next_setPrev, Block.next_copyData, Block.next_setNext, Nat.zero_mod, writeFileLoop_zero hfuel]
  refine ⟨_, rfl, h.closed hl ?_ ?_ rfl ⟨rfl, rfl, rfl, rfl, rfl⟩ rfl rfl, ⟨rfl, rfl, rfl, rfl, rfl⟩,
    AgreeOff.update (by simp) _, .all herr ?_, fun p hp hp504 => ?_⟩
  · simp [hprev]
  · simp
  · simp only [blocksFor, dataLen, List.length_nil] at *
    omega
  · have h504 : p < dataLen := by simpa using hp504
    rw [fileByte_head h504]
    show (Function.update s.dev pos _ pos).data p = _
    rw [Function.update_self]
    exact data_copyData _ (by omega) hp

/-- There is more data, and no free block for it: the file ends with this one. -/
theorem writeFileLoop_full (he : e.NeverFails) {d : List Nat} {pos : Nat} {data : List UInt8} {len fuel : Nat}
    {s₁ : State} (hfuel : 0 < fuel) (hmore : dataLen < len) (h : Ready n s cs (d ++ pos :: xs))
    (hl : LinkedOn s.dev 0 d pos) (hprev : s.blkBuf.prev = d.getLastD 0)
    (ha : AllocFull e n s cs (d ++ pos :: xs) s₁) :
    ∃ s', writeFileLoop e (fuel + 1) pos data len s = some ((), s') ∧ WrittenFrom e n cs xs s d pos data len [] s' := by
  have hmod := (h.owned.range pos (by simp)).2
  have hl₁ : LinkedOn s₁.dev 0 d pos := ha.dev ▸ hl
  have hblocks : 1 < blocksFor len := by
    simp only [blocksFor, dataLen] at *
    omega
  have hdone : ∀ s' : State, s'.dev = Function.update s₁.dev pos ((s₁.blkBuf.setNext 0).copyData 0 data dataLen) →
      Frame s₁ s' → s'.loadedBitmapBlk = s₁.loadedBitmapBlk → s'.bitmapBlk = s₁.bitmapBlk →
      s'.tfsLastError = errAfter e s₁ → WrittenFrom e n cs xs s d pos data len [] s' := by
    intro s' hdev hfr hlb hbb herr'
    refine ⟨ha.ready.closed hl₁ (by simp [ha.kept.buf, hprev]) (by simp) hdev hfr hlb hbb, ha.kept.toFrame.trans hfr, ?_,
      .full ?_ (fun x hx => ?_) hblocks, fun p hp hp504 => ?_⟩
    · rw [hdev, ha.dev]
      exact AgreeOff.update (by simp) _
    · rw [herr', errAfter, ha.err]
    · rw [hdev, used_update hmod, ha.dev]
      exact ha.full x hx
    · have h504 : p < dataLen := by simpa using hp504
      rw [fileByte_head h504, hdev, Function.update_self]
      exact data_copyData _ (Nat.le_refl _) h504
  rw [writeFileLoop, if_neg (ne_zero_of_mod hmod)]
  simp only [if_pos hmore]
  rw [Prog.bind_some ha.run, modifyBuf_bind, modifyBuf_bind,
    Prog.bind_some (driveWriteBlock_any he (by exact ha.ready.single_lt (b := pos) (by simp)))]
  by_cases hok : errAfter e s₁ = .ok
  · rw [ifOk_ok (by exact hok), modifyBuf_bind, blkBuf_bind]
    simp only [Block.next_setPrev, Block.next_copyData, Block.next_setNext, Nat.zero_mod, writeFileLoop_zero hfuel]
    exact ⟨_, rfl, hdone _ rfl ⟨rfl, rfl, rfl, rfl, rfl⟩ rfl rfl rfl⟩
  · rw [ifOk_err (by exact hok)]
    exact ⟨_, rfl, hdone _ rfl ⟨rfl, rfl, rfl, rfl, rfl⟩ rfl rfl rfl⟩

/-- The write loop at block `pos`, with the blocks `d` written and linked to it. -/
theorem writeFileLoop_ok (he : e.NeverFails) (hfuel : n ≤ e.fuel) (fuel : Nat) : ∀ (d : List Nat) (pos : Nat)
    (data : List UInt8) (len : Nat) (s : State), n ≤ fuel + d.length → 0 < len → Ready n s cs (d ++ pos :: xs) →
    LinkedOn s.dev 0 d pos → s.blkBuf.prev = d.getLastD 0 → s.tfsLastError = .ok →
    ∃ c s', writeFileLoop e fuel pos data len s = some ((), s') ∧ WrittenFrom e n cs xs s d pos data len c s' := by
  induction fuel with
  | zero =>
    intro d pos data len s hf _ h
    have htotal := h.owned.total_lt h.mounted.pos
    simp only [List.length_append, List.length_cons] at htotal
    omega
  | succ fuel ih =>
    intro d pos data len s hf hlen h hl hprev herr
    have htotal := h.owned.total_lt h.mounted.pos
    simp only [List.length_append, List.length_cons] at htotal
    have hfuel' : 0 < fuel := by omega
    by_cases hmore : len > dataLen
    · rcases h.alloc he hfuel herr with ⟨b, s₁, ha⟩ | ⟨s₁, ha⟩
      · obtain ⟨hlt, hmod⟩ := h.owned.range pos (by simp)
        have hpos32 : pos % 2 ^ 32 = pos := Nat.mod_eq_of_lt (Nat.lt_trans hlt h.mounted.lt)
        have hneed : blocksFor len = blocksFor (len - dataLen) + 1 := by
          simp only [blocksFor, dataLen] at *
          omega
        have hb32 : b % 2 ^ 32 = b :=
          Nat.mod_eq_of_lt (Nat.lt_trans (ha.ready.owned.range b (by simp)).1 h.mounted.lt)
        have hl₁ : LinkedOn s₁.dev 0 d pos := by
          have hsame : ∀ x ∈ d, s₁.dev x = s.dev x := fun x hx =>
            ha.agree x (h.owned.single_mod (by simp [hx])) (by simp)
          exact hl.congr (fun x hx => by rw [hsame x hx]) (fun x hx => by rw [hsame x hx])
        rw [writeFileLoop, if_neg (ne_zero_of_mod hmod)]
        simp only [if_pos hmore]
        rw [Prog.bind_some ha.run, modifyBuf_bind, modifyBuf_bind,
          Prog.bind_some (driveWriteBlock_ok he (by exact ha.err) (by exact ha.ready.single_lt (b := pos) (by simp))),
          ifOk_ok (by exact ha.err), modifyBuf_bind, blkBuf_bind]
        simp only [Block.next_setPrev, Block.next_copyData, Block.next_setNext, hb32]
        have hperm : (b :: (d ++ pos :: xs)).Perm (d ++ [pos] ++ b :: xs) := by
          have hp : (b :: (d ++ [pos] ++ xs)).Perm (d ++ [pos] ++ b :: xs) := List.perm_middle.symm
          rwa [List.append_assoc d [pos] xs] at hp
        have hR := (ha.ready.store (b := pos) (by simp) ((s₁.blkBuf.setNext b).copyData 0 data dataLen)
          (s₁.log.transfer (.write pos true))).perm (.refl _) hperm
        obtain ⟨c, s', hrun, hs', hframe, hagree, hw, hholds⟩ := ih (d ++ [pos]) b (data.drop dataLen) (len - dataLen)
          { s₁ with
            dev := Function.update s₁.dev pos ((s₁.blkBuf.setNext b).copyData 0 data dataLen)
            blkBuf := ((s₁.blkBuf.setNext b).copyData 0 data dataLen).setPrev pos
            log := s₁.log.transfer (.write pos true) } (by simp; omega) (by omega) ⟨hR.mounted, hR.cache, hR.owned⟩
          (hl₁.snoc h.notMem_before (by simp [ha.kept.buf, hprev])
            (by rw [Block.next_copyData, Block.next_setNext, hb32]))
          (by simp only [Block.prev_setPrev, hpos32, List.getLastD_concat]) ha.err
        refine ⟨b :: c, s', hrun, ?_, ?_, ?_, ?_, hholds.cons fun p hp h504 => ?_⟩
        · rw [List.append_assoc] at hs'
          exact hs'
        · exact ha.kept.toFrame.trans ⟨hframe.1, hframe.2, hframe.3, hframe.4, hframe.5⟩
        · have h1 : AgreeOff (pos :: b :: c) s.dev s₁.dev := ha.agree.mono (by simp)
          have h2 : AgreeOff (pos :: b :: c) s₁.dev
              (Function.update s₁.dev pos ((s₁.blkBuf.setNext b).copyData 0 data dataLen)) :=
            AgreeOff.update (by simp) _
          exact h1.trans (h2.trans (hagree.mono fun x hx => List.mem_cons_of_mem _ hx))
        · rw [hneed]
          rcases hw with ⟨h1, h2⟩ | ⟨h1, h2, h3⟩
          · exact .all h1 (by simpa using h2)
          · exact .full h1 h2 (by simpa using h3)
        · have hposc : pos ∉ b :: c := by
            have hnd := hs'.owned.chain_nodup (List.mem_cons_self ..)
            rw [List.append_assoc, List.nodup_append] at hnd
            exact (List.nodup_cons.mp hnd.2.1).1
          rw [hagree pos hmod hposc]
          show (Function.update s₁.dev pos _ pos).data p = _
          rw [Function.update_self]
          exact data_copyData _ (Nat.le_refl _) h504
      · exact ⟨[], writeFileLoop_full he hfuel' hmore h hl hprev ha⟩
    · exact ⟨[], writeFileLoop_last he hfuel' hlen (Nat.not_lt.mp hmore) h hl hprev herr⟩

/-! ## Reading a file -/

theorem map_range_add {α : Type} (f : Nat → α) (k m : Nat) :
    (List.range (k + m)).map f = (List.range k).map f ++ (List.range m).map fun p => f (k + p) := by
  rw [List.range_add, List.map_append, List.map_map]
  rfl

/-- The read loop over the data blocks `c`: the bytes asked for, as far as the
blocks go; where they end before, an error. The loop goes on to the last block
though it has all the bytes. -/
theorem readFileLoop_ok (he : e.NeverFails) (c : List Nat) : ∀ (fuel p rem : Nat) (data : List UInt8) (s : State),
    c ≠ [] →
    c.length ≤ fuel → LinkedOn s.dev p c 0 → (∀ b ∈ c, b < s.blkCount ∧ b ≠ 0) → s.tfsLastError = .ok →
    ∃ b l, readFileLoop e fuel (firstBlk c) rem data s =
      some (data ++ (List.range (min rem (dataLen * c.length))).map (fileByte s.dev c), { s with
        blkBuf := b, log := l, tfsLastError := if rem ≤ dataLen * c.length then .ok else .unexpEof }) := by
  induction c with
  | nil => exact fun _ _ _ _ _ h => absurd rfl h
  | cons b c ih =>
    intro fuel p rem data s _ hf hl hr herr
    obtain ⟨fuel, rfl⟩ : ∃ k, fuel = k + 1 := ⟨fuel - 1, by simp at hf; omega⟩
    obtain ⟨_, hnext, hl⟩ := hl
    obtain ⟨hlt, _⟩ := hr b (by simp)
    have hnext : (s.dev b).next = firstBlk c := hnext
    have hlen : ∀ k, k ≤ dataLen → (List.range k).map (s.dev b).data = (List.range k).map (fileByte s.dev (b :: c)) :=
      fun k hk => List.map_congr_left fun q hq => (fileByte_head (by have := List.mem_range.mp hq; omega)).symm
    rw [readFileLoop, firstBlk_cons, Prog.bind_some (driveReadBlock_ok he herr hlt), ifOk_ok (by exact herr), blkBuf_bind]
    simp only [hnext]
    have hk : (if rem > dataLen then dataLen else rem) = min rem dataLen := by
      split <;> omega
    have hrem : (if rem > dataLen then rem - dataLen else 0) = rem - dataLen := by
      split <;> omega
    rw [hk, hrem, hlen _ (by omega)]
    by_cases hc : c = []
    · subst hc
      rw [if_pos (show firstBlk ([] : List Nat) = 0 from rfl)]
      by_cases hmore : rem > dataLen
      · rw [if_pos (by omega), setErr_bind]
        refine ⟨s.dev b, s.log.transfer (.read b true), ?_⟩
        rw [if_neg (by simp only [List.length_singleton]; omega)]
        simp only [List.length_singleton, Nat.mul_one]
        rfl
      · rw [if_neg (by omega)]
        refine ⟨s.dev b, s.log.transfer (.read b true), ?_⟩
        rw [if_pos (by simp only [List.length_singleton]; omega), ← herr]
        simp only [List.length_singleton, Nat.mul_one]
        rfl
    · have hne : firstBlk c ≠ 0 := (hr _ (List.mem_cons_of_mem _ (firstBlk_mem hc))).2
      rw [if_neg hne]
      obtain ⟨b', l, hrun⟩ := ih fuel b (rem - dataLen) (data ++ (List.range (min rem dataLen)).map
          (fileByte s.dev (b :: c)))
        { s with blkBuf := s.dev b, log := s.log.transfer (.read b true) } hc (by simpa using hf) hl
        (fun x hx => hr x (List.mem_cons_of_mem _ hx)) herr
      refine ⟨b', l, hrun.trans ?_⟩
      have htail : (List.range (min (rem - dataLen) (dataLen * c.length))).map (fileByte s.dev c) =
          (List.range (min (rem - dataLen) (dataLen * c.length))).map fun p => fileByte s.dev (b :: c) (dataLen + p) :=
        List.map_congr_left fun p _ => by rw [fileByte_tail (Nat.le_add_right _ _), Nat.add_sub_cancel_left]
      have hcond : rem - dataLen ≤ dataLen * c.length ↔ rem ≤ dataLen * (b :: c).length := by
        rw [List.length_cons, Nat.mul_succ]
        omega
      simp only [List.append_assoc, htail, hcond]
      have hsplit : (List.range (min rem dataLen)).map (fileByte s.dev (b :: c)) ++
          (List.range (min (rem - dataLen) (dataLen * c.length))).map (fun p => fileByte s.dev (b :: c) (dataLen + p)) =
          (List.range (min rem (dataLen * (b :: c).length))).map (fileByte s.dev (b :: c)) := by
        by_cases hle : rem ≤ dataLen
        · have h0 : min (rem - dataLen) (dataLen * c.length) = 0 := by omega
          have h1 : min rem (dataLen * (b :: c).length) = min rem dataLen := by
            rw [List.length_cons, Nat.mul_succ]
            omega
          rw [h0, h1, List.range_zero, List.map_nil, List.append_nil]
        · have h1 : min rem (dataLen * (b :: c).length) = dataLen + min (rem - dataLen) (dataLen * c.length) := by
            rw [List.length_cons, Nat.mul_succ]
            omega
          rw [h1, map_range_add, Nat.min_eq_right (by omega)]
      rw [hsplit]

end TinyFs
