/-
`tfs_format`: it writes the bitmap blocks, allocates block 1 for the root
directory and leaves a well-formed volume with nothing in it. The bits past the
end of the disk are set, whether the last bitmap block is full or partial.
-/
import TinyFs.System

namespace TinyFs

open Bytes Chains

variable {e : Env} {n : Nat} {s : State}

/-! ## The bits of a fresh bitmap -/

theorem testBit_pastMask : ∀ r < 8, ∀ j < 8, (UInt8.ofNat (255 * 2 ^ r)).toNat.testBit j = decide (r ≤ j) := by
  decide

theorem bit_markPastEnd (b : Block) {len k : Nat} (hk : k < 4096) :
    (markPastEnd len b).bit k = (b.bit k || decide (len ≤ k)) := by
  have hj : k % 8 < 8 := Nat.mod_lt _ (by omega)
  rw [Buf.bit, markPastEnd]
  rcases Nat.lt_trichotomy (k / 8) (len / 8) with h | h | h
  · have hlt : ¬ len ≤ k := by omega
    rw [Buf.get_fill_out _ _ (by omega), Buf.get_set_ne _ _ (by omega), decide_eq_false hlt, Bool.or_false]
    rfl
  · have hmask := testBit_pastMask (len % 8) (Nat.mod_lt _ (by omega)) (k % 8) hj
    have hle : (len % 8 ≤ k % 8) ↔ (len ≤ k) := by omega
    rw [← h, Buf.get_fill_out _ _ (by omega), Buf.get_set_self _ _ (by omega), UInt8.toNat_or, Nat.testBit_or, hmask,
      decide_eq_decide.mpr hle]
    rfl
  · have hle : len ≤ k := by omega
    rw [Buf.get_fill_in _ _ (by omega) (by omega) (by omega), testBit_ff hj, decide_eq_true hle, Bool.or_true]

theorem bit_first {k : Nat} : (Buf.zero.set 0 1 : Block).bit k = decide (k = 0) := by
  have hone : ∀ j < 8, (1 : UInt8).toNat.testBit j = decide (j = 0) := by decide
  by_cases h : k / 8 = 0
  · rw [Buf.bit, h, Buf.get_set_self _ _ (by omega), hone _ (Nat.mod_lt _ (by omega)), decide_eq_decide]
    omega
  · have hk : ¬ k = 0 := by omega
    rw [Buf.bit, Buf.get_set_ne _ _ (Ne.symm h), Buf.get_zero, decide_eq_false hk]
    simp

/-! ## Writing the bitmap -/

/-- Bitmap block `k` of a fresh volume. -/
def freshBitmap (n k : Nat) : Block :=
  if k = (n - 1) / 4096 then markPastEnd ((n - 1) % 4096 + 1) (Buf.zero.set 0 1) else Buf.zero.set 0 1

/-- The loop from bitmap block `k` on writes the fresh bitmap blocks and nothing else. -/
theorem formatLoop_ok (he : e.NeverFails) (r : Nat) :
    ∀ k (s : State), k ≤ (n - 1) / 4096 → (n - 1) / 4096 < k + r → s.Mounted n → s.tfsLastError = .ok →
      s.bitmapBlk = Buf.zero.set 0 1 → ∃ dev bm l, formatLoop e r (4096 * k) s =
        some ((), { s with dev := dev, bitmapBlk := bm, log := l }) ∧
        (∀ b, b < 4096 * k → dev b = s.dev b) ∧ ∀ j, k ≤ j → j ≤ (n - 1) / 4096 → dev (4096 * j) = freshBitmap n j := by
  induction r with
  | zero => intro k s hk hr; omega
  | succ r ih =>
    intro k s hk hr hmt herr hbm
    have hn0 := hmt.pos
    have hlt := hmt.lt
    have hcount := hmt.count
    have hlast : s.lastBitmapBlk = 4096 * ((n - 1) / 4096) := by
      rw [hmt.lastBlk, getBitmapBlk]
      omega
    rw [formatLoop]
    simp only [Prog.gets_bind, id_eq]
    by_cases hend : k = (n - 1) / 4096
    · rw [if_pos (by omega)]
      simp only [Prog.modify_bind, hmt.lastLen, hbm]
      rw [Prog.bind_some (driveWriteBitmap_ok he (by exact herr) (by
        show 4096 * k < s.blkCount
        omega)), ifOk_ok (by exact herr), if_pos (by omega)]
      refine ⟨Function.update s.dev (4096 * k) _, _, _, rfl, fun b hb => Function.update_of_ne
        (Nat.ne_of_lt hb) _ _, fun j hj hj' => ?_⟩
      have hjk : j = k := by omega
      rw [hjk, Function.update_self, freshBitmap, if_pos hend]
    · have hmod : (4096 * k + bitmapBlkCount) % 2 ^ 32 = 4096 * (k + 1) := by
        rw [bitmapBlkCount, Nat.mod_eq_of_lt (by omega)]
        omega
      rw [if_neg (by omega), Prog.bind_some (driveWriteBitmap_ok he herr (by omega)), ifOk_ok (by exact herr), if_neg
        (by omega), hmod]
      obtain ⟨dev, bm, l, hrun, hbelow, hfresh⟩ := ih (k + 1) { s with
        dev := Function.update s.dev (4096 * k) s.bitmapBlk, log := s.log.transfer (.write (4096 * k) true) }
        (by omega) (by omega) hmt herr hbm
      refine ⟨dev, bm, l, hrun, fun b hb => ?_, fun j hj hj' => ?_⟩
      · rw [hbelow b (by omega)]
        exact Function.update_of_ne (by omega) _ _
      · by_cases hjk : j = k
        · rw [hjk, hbelow _ (by omega), freshBitmap, if_neg hend, ← hbm]
          exact Function.update_self ..
        · exact hfresh j (by omega) hj'

/-- A fresh bitmap marks the bitmap blocks and what lies past the end. -/
theorem used_fresh {dev : Nat → Block} (h : ∀ j, j ≤ (n - 1) / 4096 → dev (4096 * j) = freshBitmap n j) {b : Nat}
    (hn : 0 < n) (hb : b / 4096 ≤ (n - 1) / 4096) : Used dev b ↔ b % 4096 = 0 ∨ n ≤ b := by
  have hbm : getBitmapBlk b = 4096 * (b / 4096) := by
    rw [getBitmapBlk]
    omega
  have hmod : b % 4096 < 4096 := Nat.mod_lt _ (by omega)
  rw [Used, hbm, h _ hb, freshBitmap]
  by_cases hlast : b / 4096 = (n - 1) / 4096
  · have hpast : (n - 1) % 4096 + 1 ≤ b % 4096 ↔ n ≤ b := by omega
    rw [if_pos hlast, bit_markPastEnd _ hmod, bit_first, Bool.or_eq_true, decide_eq_true_eq, decide_eq_true_eq, hpast]
  · rw [if_neg hlast, bit_first, decide_eq_true_eq]
    omega

/-! ## The root directory -/

/-- The search of a valid cache at block 0 answers with its first clear bit. -/
theorem allocBlock_first (he : e.NeverFails) (hf : 0 < e.fuel) (herr : s.tfsLastError = .ok)
    (hload : s.loadedBitmapBlk = 0) {i j : Nat} (hsearch : searchBitmap s.bitmapBlk (List.range 512) = some (i, j))
    (hlt : 8 * i + j < s.blkCount) : ∃ s', allocBlock e s = some (8 * i + j, s') := by
  obtain ⟨r, hr⟩ : ∃ r, e.fuel = r + 1 := ⟨e.fuel - 1, by omega⟩
  have hlt0 : s.loadedBitmapBlk < s.blkCount := by omega
  rw [allocBlock]
  simp only [Prog.gets_bind, id_eq]
  rw [if_neg (ne_inval (by rw [hload])), hr, allocLoop, allocStep]
  simp only [Prog.gets_bind, id_eq, hsearch, hload, Nat.zero_add]
  rw [if_neg (by omega), Prog.modify_bind, Prog.bind_some (driveWriteBitmap_ok he (by exact herr) (by
    show (0 : Nat) < s.blkCount
    omega)), ifOk_ok (by exact herr)]
  exact ⟨_, rfl⟩

/-- The first free block of a fresh volume is block 1. -/
theorem searchBitmap_fresh {dev : Nat → Block} (h : ∀ j, j ≤ (n - 1) / 4096 → dev (4096 * j) = freshBitmap n j)
    (hn : 2 ≤ n) : ∃ i j, searchBitmap (dev 0) (List.range 512) = some (i, j) ∧ 8 * i + j = 1 := by
  have hbit : ∀ k < 4096, (dev 0).bit k = true ↔ k = 0 ∨ n ≤ k := by
    intro k hk
    have hu := used_fresh h (b := k) (by omega) (by omega)
    have h0 : getBitmapBlk k = 0 := by
      rw [getBitmapBlk]
      omega
    rwa [Used, h0, Nat.mod_eq_of_lt hk] at hu
  have h1 : ¬ (dev 0).bit 1 = true := by
    rw [hbit 1 (by omega)]
    omega
  cases hs : searchBitmap (dev 0) (List.range 512) with
  | none => exact absurd (searchBitmap_none hs 1 (by omega)) h1
  | some r =>
    obtain ⟨i, j⟩ := r
    obtain ⟨hi, hj, hclear, hset⟩ := searchBitmap_some hs
    have hle : 8 * i + j ≤ 1 := by
      by_contra hlt
      exact h1 (hset 1 (by omega))
    have hne : 8 * i + j ≠ 0 := by
      intro h0
      have hb := (hbit 0 (by omega)).mpr (.inl rfl)
      rw [h0, hb] at hclear
      exact absurd hclear (by simp)
    exact ⟨i, j, rfl, by omega⟩

/-- The layout of a fresh volume: the root directory of one block. -/
def Layout.fresh : Layout :=
  { dirs := [[rootDirBlk]], files := [], loose := [], leaked := [], par := fun _ => 0, depth := fun _ => 0
    upLinks := True }

theorem Layout.fresh_tight : Layout.fresh.Tight := ⟨rfl, rfl⟩

/-- Block 1 zeroed is the root directory of an empty volume. -/
theorem Volume.fresh {dev : Nat → Block} (h : Owned n dev [] [1]) :
    Volume n (Function.update dev 1 Buf.zero) Layout.fresh := by
  have hself : Function.update dev 1 Buf.zero 1 = Buf.zero := Function.update_self ..
  have hE : entries (Function.update dev 1 Buf.zero) [1] = [] := by
    refine entries_single_free fun i _ => ?_
    rw [hself, Block.itemType_zero]
  have hc : Chain (Function.update dev 1 Buf.zero) [1] := by
    refine ⟨by simp, ?_, ?_, trivial⟩
    · rw [hself, Block.prev_zero]
    · rw [hself, Block.next_zero]
      rfl
  have hflat : Layout.fresh.entries (Function.update dev 1 Buf.zero) = [] := by
    rw [Layout.entries, Layout.fresh, List.flatMap_cons, rootDirBlk, hE]
    rfl
  have ho : Owned n (Function.update dev 1 Buf.zero) [] ([1] ++ []) := h.store (by simp) _
  refine ⟨ho.adopt hc, ?_, ?_, ?_, rfl, ?_⟩
  · rw [hflat]
    exact .refl _
  · rw [hflat]
    exact .refl _
  · intro _ d hd b hb
    obtain rfl : d = [1] := List.mem_singleton.mp hd
    obtain rfl : b = 1 := List.mem_singleton.mp hb
    rw [hself, Block.parent_zero]
    rfl
  · intro d hd x hx
    obtain rfl : d = [1] := List.mem_singleton.mp hd
    rw [hE] at hx
    simp at hx

/-- What `tfs_format` leaves of a volume of `n` blocks. -/
structure Formatted (n : Nat) (s s' : State) : Prop where
  sys : Sys n s' Layout.fresh
  err : s'.tfsLastError = .ok
  handles : s'.handles = s.handles
  root : s'.dev rootDirBlk = Buf.zero
  cur : s'.currentDirBlk = rootDirBlk
  bits : ∀ b, b / 4096 ≤ (n - 1) / 4096 → (Used s'.dev b ↔ b % 4096 = 0 ∨ b = rootDirBlk ∨ n ≤ b)
  loaded : s'.loadedBitmapBlk = firstBitmapBlk
  cached : s'.bitmapBlk = s'.dev firstBitmapBlk

/-- `tfs_format` on a volume of at least two blocks. -/
theorem tfsFormat_done (he : e.NeverFails) (hf : n ≤ e.fuel) (hn : 2 ≤ n) (hmt : s.Mounted n)
    (hnd : s.tfsLastError ≠ .noDev) : ∃ s', tfsFormat e s = some ((), s') ∧ Formatted n s s' := by
  have hcount := hmt.count
  have hlt : 0 < s.blkCount := by omega
  obtain ⟨dev, bm, l, hloop, -, hfresh⟩ := formatLoop_ok (n := n) he e.fuel 0 { s with
    tfsLastError := .ok, log := s.log.call .select, bitmapBlk := Buf.zero.set 0 1 } (by omega) (by omega) hmt rfl rfl
  have hfresh : ∀ j, j ≤ (n - 1) / 4096 → dev (4096 * j) = freshBitmap n j := fun j => hfresh j (Nat.zero_le _)
  let t : State := { s with tfsLastError := .ok, dev := dev, bitmapBlk := bm, log := l }
  have hloop : formatLoop e e.fuel 0 { s with
      tfsLastError := .ok, log := s.log.call .select, bitmapBlk := Buf.zero.set 0 1 } = some ((), t) := hloop
  have hused := fun b (hb : b / 4096 ≤ (n - 1) / 4096) => used_fresh hfresh (by omega) hb
  have ho : Owned n dev [] [] := by
    refine ⟨by simp, by simp, by simp, fun b hb => ?_⟩
    rw [hused b (by omega)]
    simp
    omega
  let s₁ : State := { s with
    tfsLastError := .ok, dev := dev, bitmapBlk := dev 0, loadedBitmapBlk := 0, log := l.transfer (.read 0 true) }
  have hload : loadBitmap e 0 t = some ((), s₁) := loadBitmap_ok he rfl hlt
  rcases allocBlock_ok (s := s₁) he hmt (.valid rfl (show 0 < n by omega) rfl) rfl hf with
    ⟨b, l₂, hb, hfree, halloc⟩ | ⟨hfull, _⟩
  · obtain rfl : b = 1 := by
      obtain ⟨i, j, hsearch, hij⟩ := searchBitmap_fresh hfresh hn
      obtain ⟨s', hrun⟩ := allocBlock_first (s := s₁) he (by omega) rfl rfl hsearch (by
        show 8 * i + j < s.blkCount
        omega)
      rw [halloc] at hrun
      simp only [Option.some.injEq, Prod.mk.injEq] at hrun
      omega
    let s₂ : State := { s₁ with
      dev := markUsed dev 1, bitmapBlk := markUsed dev 1 (getBitmapBlk 1), loadedBitmapBlk := getBitmapBlk 1, log := l₂ }
    have halloc : allocBlock e s₁ = some (1, s₂) := halloc
    have hg : getBitmapBlk 1 = 0 := rfl
    have hcache₂ : TinyFs.CacheOk n (markUsed dev 1) (getBitmapBlk 1) (markUsed dev 1 (getBitmapBlk 1)) :=
      CacheOk.mark hb
    let s₃ : State := { s₂ with
      blkBuf := Buf.zero, dev := Function.update s₂.dev 1 Buf.zero, log := l₂.transfer (.write 1 true)
      currentDirBlk := rootDirBlk, loadedDirBlk := 0 }
    have hcache : s₃.CacheOk n := hcache₂.update (by omega) Buf.zero
    have hvol : Volume n (Function.update (markUsed dev 1) 1 Buf.zero) Layout.fresh := .fresh (ho.alloc hb hfree)
    have hroot : Function.update (markUsed dev 1) 1 Buf.zero 1 = Buf.zero := Function.update_self ..
    refine ⟨s₃.call .deselect, ?_, ⟨⟨hmt, hcache, hvol, List.mem_singleton.mpr rfl, Err.noConfusion⟩,
      rfl, rfl, hroot, rfl, fun b hb => ?_, rfl, ?_⟩⟩
    · rw [tfsFormat, enter_run hnd, out_run]
      simp only [Prog.modify_bind, firstBitmapBlk]
      rw [Prog.bind_some hloop, ifOk_ok rfl, Prog.bind_some hload, ifOk_ok rfl,
        Prog.bind_some halloc, ifOk_ok rfl, modifyBuf_bind,
        Prog.bind_some (driveWriteBlock_ok (s := { s₂ with blkBuf := Buf.zero }) he rfl (by
          show 1 < s.blkCount
          omega)), ifOk_ok rfl]
      rfl
    · show Used (Function.update (markUsed dev 1) 1 Buf.zero) b ↔ _
      rw [used_update (by omega), used_markUsed, hused b hb, rootDirBlk]
      exact or_left_comm
    · show markUsed dev 1 (getBitmapBlk 1) = Function.update (markUsed dev 1) 1 Buf.zero 0
      rw [hg]
      exact (Function.update_of_ne Nat.zero_ne_one _ _).symm
  · have h1 : ¬ Used dev 1 := by
      rw [hused 1 (by omega)]
      omega
    exact absurd (hfull 1 (by omega)) h1

theorem tfsFormat_ok (he : e.NeverFails) (hf : n ≤ e.fuel) (hn : 2 ≤ n) (hmt : s.Mounted n)
    (hnd : s.tfsLastError ≠ .noDev) :
    ∃ s', tfsFormat e s = some ((), s') ∧ Sys n s' Layout.fresh ∧ s'.handles = s.handles ∧
      s'.dev rootDirBlk = Buf.zero := by
  obtain ⟨s', hrun, h⟩ := tfsFormat_done he hf hn hmt hnd
  exact ⟨s', hrun, h.sys, h.handles, h.root⟩

end TinyFs
