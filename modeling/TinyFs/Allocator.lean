/-
The block allocator on the never-failing drive: what `alloc_block`,
`free_block` and `tfs_get_used` do, as functions of the set of used blocks.

`alloc_block` searches the bitmap blocks in a circle from the cached one. The
loop invariant says that every bitmap block the circle has passed is full; when
it closes, all are.
-/
import Mathlib.Data.Nat.Count
import TinyFs.Bitmap

namespace TinyFs

open Bytes

/-- The variables `tfs_init` derives from the block count. -/
structure Mounted (n blkCount lastBlk lastLen : Nat) : Prop where
  pos : 0 < n
  lt : n < 2 ^ 32
  count : blkCount = n
  lastBlk : lastBlk = getBitmapBlk (n - 1)
  lastLen : lastLen = (n - 1) % 4096 + 1

abbrev State.Mounted (s : State) (n : Nat) : Prop :=
  TinyFs.Mounted n s.blkCount s.lastBitmapBlk s.lastBitmapLen

/-- No block of the volume is free. -/
def Full (n : Nat) (dev : Nat → Block) : Prop := ∀ b < n, Used dev b

/-- The cached bitmap block: it equals its block on the medium, or the cache is
marked invalid, which stands for a full disk. -/
inductive CacheOk (n : Nat) (dev : Nat → Block) (loaded : Nat) (bm : Block) : Prop
  | full : loaded = bitmapBlkInval → Full n dev → CacheOk n dev loaded bm
  | valid : loaded % 4096 = 0 → loaded < n → bm = dev loaded → CacheOk n dev loaded bm

abbrev State.CacheOk (s : State) (n : Nat) : Prop := TinyFs.CacheOk n s.dev s.loadedBitmapBlk s.bitmapBlk

/-- The bits of the bitmap blocks themselves are set. -/
def BitmapsUsed (n : Nat) (dev : Nat → Block) : Prop := ∀ b < n, b % 4096 = 0 → Used dev b

variable {e : Env} {s : State} {n : Nat}

theorem ne_inval {b : Nat} (h : b % 4096 = 0) : b ≠ bitmapBlkInval := by
  rintro rfl
  simp [bitmapBlkInval] at h

/-! ## Allocation -/

/-- What `alloc_block` may answer: a free block, now marked, or that there is none. -/
def AllocResult (n : Nat) (s : State) (r : Option (Nat × State)) : Prop :=
  (∃ b l, b < n ∧ ¬ Used s.dev b ∧ r = some (b, { s with
    dev := markUsed s.dev b, bitmapBlk := markUsed s.dev b (getBitmapBlk b),
    loadedBitmapBlk := getBitmapBlk b, log := l })) ∨
  (Full n s.dev ∧ ∃ bm l, r = some (0, { s with
    tfsLastError := .diskFull, bitmapBlk := bm, loadedBitmapBlk := bitmapBlkInval, log := l }))

/-- The place of bitmap block `k` in the circle, after the one before it. -/
theorem next_pos {bc lb ll k m : Nat} (hmt : Mounted n bc lb ll) (hm : m = (n - 1) / 4096 + 1) (hk : k < m) :
    (if 4096 * k = lb then firstBitmapBlk else (4096 * k + bitmapBlkCount) % 2 ^ 32) = 4096 * ((k + 1) % m) := by
  have hlt := hmt.lt
  have hn0 := hmt.pos
  have hlb : lb = 4096 * (m - 1) := by
    rw [hmt.lastBlk, getBitmapBlk]
    omega
  rw [hlb]
  by_cases hlast : k + 1 = m
  · rw [if_pos (by omega), hlast, Nat.mod_self]
    rfl
  · have h1 : (k + 1) % m = k + 1 := Nat.mod_eq_of_lt (by omega)
    have h2 : (4096 * k + 4096) % 2 ^ 32 = 4096 * k + 4096 := Nat.mod_eq_of_lt (by omega)
    rw [if_neg (by omega), bitmapBlkCount, h1, h2]
    omega

/-- The circle of `m` bitmap blocks from `k₀` closes after `m` steps. -/
theorem circle_closed {k₀ d m : Nat} (hk₀ : k₀ < m) (hd : d < m) : (k₀ + (d + 1)) % m = k₀ ↔ d + 1 = m := by
  by_cases h : k₀ + (d + 1) < m
  · rw [Nat.mod_eq_of_lt h]
    omega
  · rw [Nat.mod_eq_sub_mod (by omega), Nat.mod_eq_of_lt (by omega)]
    omega

/-- Every bitmap block is on the circle. -/
theorem circle_covers {k₀ k m : Nat} (hk₀ : k₀ < m) (hk : k < m) : ∃ d < m, k = (k₀ + d) % m := by
  by_cases hge : k₀ ≤ k
  · refine ⟨k - k₀, by omega, ?_⟩
    rw [Nat.mod_eq_of_lt] <;> omega
  · refine ⟨k + m - k₀, by omega, ?_⟩
    have h : k₀ + (k + m - k₀) = k + m := by omega
    rw [h, Nat.add_mod_right, Nat.mod_eq_of_lt hk]

/-- Every bitmap block the circle has passed in `d` steps is full. -/
def Passed (n k₀ m d : Nat) (dev : Nat → Block) : Prop :=
  ∀ d' < d, ∀ b < n, b / 4096 = (k₀ + d') % m → Used dev b

theorem Passed.succ {k₀ m d : Nat} {dev : Nat → Block} (h : Passed n k₀ m d dev)
    (hk : ∀ b < n, b / 4096 = (k₀ + d) % m → Used dev b) : Passed n k₀ m (d + 1) dev := by
  intro d' hd' b hb hbk
  by_cases hdd : d' = d
  · exact hk b hb (by rw [hbk, hdd])
  · exact h d' (by omega) b hb hbk

theorem Passed.full {k₀ m : Nat} {dev : Nat → Block} (hm : m = (n - 1) / 4096 + 1) (hk₀ : k₀ < m)
    (h : Passed n k₀ m m dev) : Full n dev := by
  intro b hb
  obtain ⟨d, hd, hbd⟩ := circle_covers hk₀ (k := b / 4096) (by omega)
  exact h d hd b hb hbd

theorem nextBitmap_ok (he : e.NeverFails) {k₀ m d : Nat} (hm : m = (n - 1) / 4096 + 1) (hk₀ : k₀ < m)
    (hd : d < m) (hmt : s.Mounted n) (herr : s.tfsLastError = .ok) (hp : Passed n k₀ m (d + 1) s.dev)
    (search : Nat → M Nat)
    (ih : d + 1 < m → ∀ l, AllocResult n s (search (4096 * ((k₀ + (d + 1)) % m)) { s with
      bitmapBlk := s.dev (4096 * ((k₀ + (d + 1)) % m)), loadedBitmapBlk := 4096 * ((k₀ + (d + 1)) % m),
      log := l })) :
    AllocResult n s (nextBitmap e (4096 * k₀) (4096 * ((k₀ + d) % m)) search s) := by
  have hn0 := hmt.pos
  have hm0 : 0 < m := by omega
  have hadd : ((k₀ + d) % m + 1) % m = (k₀ + (d + 1)) % m := by rw [Nat.mod_add_mod, Nat.add_assoc]
  rw [nextBitmap]
  simp only [Prog.gets_bind, id_eq]
  rw [next_pos hmt hm (Nat.mod_lt _ hm0), hadd]
  by_cases hclosed : (k₀ + (d + 1)) % m = k₀
  · -- the circle is closed
    rw [if_pos (by rw [hclosed])]
    have hd1 := (circle_closed hk₀ hd).mp hclosed
    exact .inr ⟨Passed.full hm hk₀ (hd1 ▸ hp), s.bitmapBlk, s.log, rfl⟩
  · have hd1 : d + 1 < m := by
      have := mt (circle_closed hk₀ hd).mpr hclosed
      omega
    have hlt : 4096 * ((k₀ + (d + 1)) % m) < s.blkCount := by
      have := Nat.mod_lt (k₀ + (d + 1)) hm0
      rw [hmt.count]
      omega
    rw [if_neg (by omega), Prog.bind_some (loadBitmap_ok he herr hlt), ifOk_ok (by exact herr)]
    exact ih hd1 _

theorem allocLoop_ok (he : e.NeverFails) {k₀ m : Nat} (hm : m = (n - 1) / 4096 + 1) (hk₀ : k₀ < m) (r : Nat) :
    ∀ d (s : State), d < m → m - d ≤ r → s.Mounted n → s.tfsLastError = .ok →
      s.loadedBitmapBlk = 4096 * ((k₀ + d) % m) → s.bitmapBlk = s.dev s.loadedBitmapBlk →
      Passed n k₀ m d s.dev → AllocResult n s (allocLoop e (4096 * k₀) r (4096 * ((k₀ + d) % m)) s) := by
  induction r with
  | zero => intro d s hd hr; omega
  | succ r ih =>
    intro d s hd hr hmt herr hload hbm hp
    have hn0 := hmt.pos
    have hcount := hmt.count
    have hkm : (k₀ + d) % m < m := Nat.mod_lt _ (by omega)
    have hnext : (∀ b < n, b / 4096 = (k₀ + d) % m → Used s.dev b) →
        AllocResult n s (nextBitmap e (4096 * k₀) (4096 * ((k₀ + d) % m)) (allocLoop e (4096 * k₀) r) s) := by
      intro hfull
      refine nextBitmap_ok he hm hk₀ hd hmt herr (hp.succ hfull) _ fun hd1 l => ?_
      exact ih (d + 1) { s with
        bitmapBlk := s.dev (4096 * ((k₀ + (d + 1)) % m)), loadedBitmapBlk := 4096 * ((k₀ + (d + 1)) % m),
        log := l } hd1 (by omega) hmt herr rfl rfl (hp.succ hfull)
    generalize (k₀ + d) % m = k at *
    have hg : ∀ x, x / 4096 = k → getBitmapBlk x = 4096 * k := fun x h => by rw [getBitmapBlk, h, Nat.mul_comm]
    have hbit : ∀ x, x / 4096 = k → (Used s.dev x ↔ s.bitmapBlk.bit (x % 4096) = true) := by
      intro x hx
      rw [Used, hg x hx, ← hload, ← hbm]
    rw [allocLoop, allocStep]
    simp only [Prog.gets_bind, id_eq]
    rcases hsearch : searchBitmap s.bitmapBlk (List.range 512) with _ | ⟨i, j⟩
    · exact hnext fun b _ hbk => (hbit b hbk).mpr (searchBitmap_none hsearch _ (Nat.mod_lt _ (by omega)))
    · simp only
      obtain ⟨hi, hj, hclear, hset⟩ := searchBitmap_some hsearch
      have hdiv : (4096 * k + 8 * i + j) / 4096 = k := by omega
      have hmod : (4096 * k + 8 * i + j) % 4096 = 8 * i + j := by omega
      by_cases hend : 4096 * k + 8 * i + j ≥ s.blkCount
      · -- the first clear bit is past the end of the disk
        rw [if_pos hend]
        exact hnext fun b hb hbk => (hbit b hbk).mpr (hset _ (by omega))
      · rw [if_neg hend]
        refine .inl ⟨4096 * k + 8 * i + j, s.log.transfer (.write (4096 * k) true), by omega, ?_, ?_⟩
        · rw [hbit _ hdiv, hmod, hclear]
          simp
        · have hi8 : (8 * i + j) / 8 = i := by omega
          have hj8 : (8 * i + j) % 8 = j := by omega
          rw [Prog.modify_bind, Prog.bind_some (driveWriteBitmap_ok he (by exact herr) (by
            show s.loadedBitmapBlk < s.blkCount
            omega)), ifOk_ok (by exact herr)]
          simp only [Prog.pure_apply, markUsed, hg _ hdiv, hmod, hi8, hj8, hload, hbm, Function.update_self]

/-- `alloc_block` returns a free block below the block count and marks it, or
finds the disk full; and it terminates. -/
theorem allocBlock_ok (he : e.NeverFails) (hmt : s.Mounted n) (hc : s.CacheOk n) (herr : s.tfsLastError = .ok)
    (hf : n ≤ e.fuel) : AllocResult n s (allocBlock e s) := by
  have hn0 := hmt.pos
  rw [allocBlock]
  simp only [Prog.gets_bind, id_eq]
  rcases hc with ⟨hinv, hfull⟩ | ⟨hmod, hlt, hbm⟩
  · rw [if_pos hinv]
    refine .inr ⟨hfull, s.bitmapBlk, s.log, ?_⟩
    rw [setErr_bind, ← hinv]
    rfl
  · rw [if_neg (ne_inval hmod)]
    obtain ⟨k, hk⟩ : ∃ k, s.loadedBitmapBlk = 4096 * k := ⟨s.loadedBitmapBlk / 4096, by omega⟩
    have hkm : k < (n - 1) / 4096 + 1 := by omega
    have hk0 : (k + 0) % ((n - 1) / 4096 + 1) = k := Nat.mod_eq_of_lt hkm
    have h := allocLoop_ok (e := e) he (n := n) rfl hkm e.fuel 0 s (by omega) (by omega) hmt herr
      (by rw [hk0, hk]) hbm (by intro d' hd'; omega)
    rw [hk0] at h
    rw [hk]
    exact h

/-! ## The cache and the bits after a step -/

theorem CacheOk.mark {dev : Nat → Block} {b : Nat} (hb : b < n) :
    TinyFs.CacheOk n (markUsed dev b) (getBitmapBlk b) (markUsed dev b (getBitmapBlk b)) :=
  .valid (getBitmapBlk_mod b) (getBitmapBlk_lt hb) rfl

theorem CacheOk.free {dev : Nat → Block} {b : Nat} (hb : b < n) :
    TinyFs.CacheOk n (markFree dev b) (getBitmapBlk b) (markFree dev b (getBitmapBlk b)) :=
  .valid (getBitmapBlk_mod b) (getBitmapBlk_lt hb) rfl

/-- A store into a block that is no bitmap block leaves the cache as good as it was. -/
theorem CacheOk.update {dev : Nat → Block} {loaded : Nat} {bm : Block} (h : TinyFs.CacheOk n dev loaded bm)
    {b : Nat} (hb : b % 4096 ≠ 0) (v : Block) : TinyFs.CacheOk n (Function.update dev b v) loaded bm := by
  rcases h with ⟨h1, h2⟩ | ⟨h1, h2, h3⟩
  · exact .full h1 fun x hx => (used_update hb v x).mpr (h2 x hx)
  · refine .valid h1 h2 ?_
    have hne : loaded ≠ b := fun heq => hb (by rw [← heq]; exact h1)
    rw [Function.update_of_ne hne]
    exact h3

theorem BitmapsUsed.mark {dev : Nat → Block} (h : BitmapsUsed n dev) (b : Nat) : BitmapsUsed n (markUsed dev b) :=
  fun x hx hm => used_markUsed.mpr (.inr (h x hx hm))

theorem BitmapsUsed.free {dev : Nat → Block} (h : BitmapsUsed n dev) {b : Nat} (hb : b % 4096 ≠ 0) :
    BitmapsUsed n (markFree dev b) :=
  fun x hx hm => used_markFree.mpr ⟨fun he => hb (he ▸ hm), h x hx hm⟩

/-! ## Release -/

/-- `free_block` clears the bit of its block and caches the bitmap block of it. -/
theorem freeBlock_ok (he : e.NeverFails) (hmt : s.Mounted n) (hc : s.CacheOk n) (herr : s.tfsLastError = .ok)
    {b : Nat} (hb : b < n) : ∃ l, freeBlock e b s = some ((), { s with
      dev := markFree s.dev b, bitmapBlk := markFree s.dev b (getBitmapBlk b),
      loadedBitmapBlk := getBitmapBlk b, log := l }) := by
  have hg : getBitmapBlk b < s.blkCount := by
    rw [hmt.count]
    exact getBitmapBlk_lt hb
  rw [freeBlock]
  simp only [Prog.gets_bind, id_eq]
  by_cases hl : s.loadedBitmapBlk = getBitmapBlk b
  · have hbm : s.bitmapBlk = s.dev (getBitmapBlk b) := by
      rcases hc with ⟨h1, _⟩ | ⟨_, _, h3⟩
      · exact absurd (hl ▸ h1) (ne_inval (getBitmapBlk_mod b))
      · rw [h3, hl]
    rw [if_neg (by simpa using hl), Prog.modify_bind]
    simp only [Prog.gets_bind, id_eq]
    rw [driveWriteBitmap_ok he (by exact herr) (by simpa only [hl] using hg)]
    simp only [markFree, hl, hbm, bitmapBlkCount, Function.update_self]
    exact ⟨_, rfl⟩
  · rw [if_pos (by simpa using hl), Prog.bind_some (loadBitmap_ok he herr hg), ifOk_ok (by exact herr),
      Prog.modify_bind]
    simp only [Prog.gets_bind, id_eq]
    rw [driveWriteBitmap_ok he (by exact herr) (by exact hg)]
    simp only [markFree, bitmapBlkCount, Function.update_self]
    exact ⟨_, rfl⟩

/-! ## Counting -/

/-- The bits past the end of the disk, in the last bitmap block, are set. -/
def TailUsed (n : Nat) (dev : Nat → Block) : Prop := ∀ b, n ≤ b → b / 4096 = (n - 1) / 4096 → Used dev b

theorem count_range (p : Nat → Prop) [DecidablePred p] (n : Nat) :
    Nat.count p n = ((List.range n).filter fun k => decide (p k)).length := by
  induction n with
  | zero => rfl
  | succ n ih =>
    rw [Nat.count_succ, ih, List.range_succ, List.filter_append, List.length_append]
    by_cases h : p n <;> simp [h]

/-- Counting in groups of eight. -/
theorem count_groups (p : Nat → Prop) [DecidablePred p] (m : Nat) :
    ((List.range m).map fun i => Nat.count (fun j => p (8 * i + j)) 8).sum = Nat.count p (8 * m) := by
  induction m with
  | zero => rfl
  | succ m ih =>
    rw [List.range_succ, List.map_append, List.sum_append, ih, Nat.mul_succ, Nat.count_add]
    simp

theorem countUsed_eq (b : Block) : countUsed b = Nat.count (fun k => b.bit k = true) (8 * 512) := by
  rw [← count_groups (fun k => b.bit k = true) 512, countUsed]
  refine congrArg List.sum (List.map_congr_left fun i _ => ?_)
  have hbit : ∀ j < 8, b.bit (8 * i + j) = (b.get i).toNat.testBit j := by
    intro j hj
    have e1 : (8 * i + j) / 8 = i := by omega
    have e2 : (8 * i + j) % 8 = j := by omega
    rw [Buf.bit, e1, e2]
  have hcount : Nat.count (fun j => b.bit (8 * i + j) = true) 8 =
      ((List.range 8).filter fun j => b.get i &&& maskOf j ≠ 0).length := by
    rw [count_range]
    congr 1
    apply List.filter_congr
    intro j hj
    have hj8 : j < 8 := List.mem_range.mp hj
    rw [hbit j hj8]
    have := and_maskOf_eq_zero (b.get i) hj8
    cases hb : (b.get i).toNat.testBit j <;> simp [this, hb]
  rw [hcount]
  by_cases h0 : b.get i > 0
  · rw [if_pos h0]
  · have hz : b.get i = 0 := by
      simpa [UInt8.lt_iff_toNat_lt, ← UInt8.toNat_inj] using h0
    rw [if_neg h0, hz]
    rfl

theorem count_bitmap (dev : Nat → Block) (k : Nat) :
    Nat.count (Used dev) (4096 * k) + countUsed (dev (4096 * k)) = Nat.count (Used dev) (4096 * (k + 1)) := by
  have hsplit : 4096 * (k + 1) = 4096 * k + 8 * 512 := by omega
  have hcongr : ∀ m, m ≤ 8 * 512 → Nat.count (fun j => Used dev (4096 * k + j)) m =
      Nat.count (fun j => (dev (4096 * k)).bit j = true) m := by
    intro m
    induction m with
    | zero => intro _; rfl
    | succ m ih =>
      intro hm
      have e1 : getBitmapBlk (4096 * k + m) = 4096 * k := by
        simp only [getBitmapBlk]
        omega
      have e2 : (4096 * k + m) % 4096 = m := by omega
      rw [Nat.count_succ, Nat.count_succ, ih (by omega)]
      simp only [Used, e1, e2]
  rw [hsplit, Nat.count_add (Used dev) (4096 * k), countUsed_eq, hcongr _ (Nat.le_refl _)]

/-- What `tfs_get_used` returns: the set bits of all bitmap blocks, less those the
last one has for blocks past the end. -/
def usedCount (n : Nat) (dev : Nat → Block) : Nat :=
  (Nat.count (Used dev) (4096 * ((n - 1) / 4096 + 1)) + 2 ^ 32 - (4096 - ((n - 1) % 4096 + 1))) % 2 ^ 32

/-- With the bits past the end set, it is the number of used blocks. -/
theorem usedCount_eq {dev : Nat → Block} (ht : TailUsed n dev) (hn : 0 < n) (hlt : n < 2 ^ 32) :
    usedCount n dev = Nat.count (Used dev) n := by
  obtain ⟨d, hd⟩ : ∃ d, 4096 * ((n - 1) / 4096 + 1) = n + d := ⟨4096 * ((n - 1) / 4096 + 1) - n, by omega⟩
  have hall : ∀ k < d, Used dev (n + k) := fun k hk => ht _ (by omega) (by omega)
  have hle : Nat.count (Used dev) n ≤ n := Nat.count_le _
  rw [usedCount, hd, Nat.count_add, Nat.count_of_forall fun k hk => hall k hk]
  have harith : Nat.count (Used dev) n + d + 2 ^ 32 - (4096 - ((n - 1) % 4096 + 1)) =
      Nat.count (Used dev) n + 2 ^ 32 := by omega
  rw [harith, Nat.add_mod_right, Nat.mod_eq_of_lt (by omega)]

theorem getUsedLoop_ok (he : e.NeverFails) (r : Nat) :
    ∀ k (s : State), k ≤ (n - 1) / 4096 → (n - 1) / 4096 < k + r → s.Mounted n → s.tfsLastError = .ok →
      ∃ l, getUsedLoop e r (4096 * k) (Nat.count (Used s.dev) (4096 * k)) s =
        some (some (usedCount n s.dev), { s with bitmapBlk := s.dev 0, loadedBitmapBlk := 0, log := l }) := by
  induction r with
  | zero => intro k s hk hr; omega
  | succ r ih =>
    intro k s hk hr hmt herr
    have hn0 := hmt.pos
    have hlt := hmt.lt
    have hcount := hmt.count
    have hlast : s.lastBitmapBlk = 4096 * ((n - 1) / 4096) := by
      rw [hmt.lastBlk, getBitmapBlk]
      omega
    rw [getUsedLoop, Prog.bind_some (loadBitmap_ok he herr (by omega)), ifOk_ok (by exact herr)]
    simp only [Prog.gets_bind, id_eq, count_bitmap]
    by_cases hend : k = (n - 1) / 4096
    · rw [if_pos (by omega), Prog.bind_some (loadBitmap_ok he (by exact herr) (by
        show firstBitmapBlk < s.blkCount
        rw [firstBitmapBlk]
        omega))]
      have hres : (Nat.count (Used s.dev) (4096 * (k + 1)) + 2 ^ 32 - (bitmapBlkCount - s.lastBitmapLen)) % 2 ^ 32 =
          usedCount n s.dev := by
        rw [usedCount, hend, hmt.lastLen, bitmapBlkCount]
      rw [Prog.pure_apply, hres]
      exact ⟨_, rfl⟩
    · have hmod : (4096 * k + bitmapBlkCount) % 2 ^ 32 = 4096 * (k + 1) := by
        rw [bitmapBlkCount, Nat.mod_eq_of_lt (by omega)]
        omega
      rw [if_neg (by omega), hmod]
      exact ih (k + 1) { s with
        bitmapBlk := s.dev (4096 * k), loadedBitmapBlk := 4096 * k,
        log := s.log.transfer (.read (4096 * k) true) } (by omega) (by omega) hmt herr

/-- `tfs_get_used` changes only the cache. -/
theorem tfsGetUsed_ok (he : e.NeverFails) (hmt : s.Mounted n) (hnd : s.tfsLastError ≠ .noDev) (hf : n ≤ e.fuel) :
    ∃ l, tfsGetUsed e s = some (usedCount n s.dev, { s with
      tfsLastError := .ok, bitmapBlk := s.dev 0, loadedBitmapBlk := 0, log := l }) := by
  have hn0 := hmt.pos
  obtain ⟨l, hl⟩ := getUsedLoop_ok (n := n) he e.fuel 0
    { s with tfsLastError := .ok, log := s.log.call .select } (by omega) (by omega) hmt rfl
  rw [Nat.mul_zero, Nat.count_zero] at hl
  rw [tfsGetUsed, enter_run hnd, out_run, firstBitmapBlk, Prog.bind_some hl]
  rw [Option.getD_some, Prog.pure_apply, Option.map_some]
  exact ⟨_, rfl⟩

/-! ## Start-up -/

/-- `tfs_init` on a working drive of `n` blocks. -/
theorem tfsInit_ok (he : e.NeverFails) (hd : e.drive.blkCount = some n) (hn : 0 < n) (hlt : n < 2 ^ 32)
    (s : State) : ∃ l, tfsInit e s = some ((), { s with
      handles := fun fd => if fd < e.maxFds then Handle.zero else s.handles fd, tfsLastError := .ok,
      blkCount := n, lastBitmapBlk := getBitmapBlk (n - 1), lastBitmapLen := (n - 1) % 4096 + 1,
      bitmapBlk := s.dev 0, loadedBitmapBlk := 0, currentDirBlk := 1, loadedDirBlk := 0, log := l }) := by
  have hlast : (n + 2 ^ 32 - 1) % 2 ^ 32 = n - 1 := by
    have h : n + 2 ^ 32 - 1 = n - 1 + 2 ^ 32 := by omega
    rw [h, Nat.add_mod_right, Nat.mod_eq_of_lt (by omega)]
  rw [tfsInit]
  simp only [Prog.modify_bind, setErr_bind, driveInit, hd, driveSelect, State.call, ifOk_ok, hlast, out_run,
    firstBitmapBlk, rootDirBlk, bitmapBlkCount]
  rw [Prog.bind_some (loadBitmap_ok he (by rfl) (by exact hn)), ifOk_ok (by rfl)]
  exact ⟨_, rfl⟩

end TinyFs
