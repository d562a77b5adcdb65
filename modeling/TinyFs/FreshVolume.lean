/-
What `tfs_format` leaves on a drive of any size: which bits of the bitmap are
set, an empty root directory, and how many blocks `tfs_get_used` counts then. The
marking of the blocks after the end of the disk also stores to the byte at
index `last_bitmap_len >> 3`, which is past the buffer when the last bitmap block
is full.
-/
import Mathlib.Data.Nat.Count
import TinyFs.Format
import TinyFs.NoFailure

namespace TinyFs

open Bytes

variable {e : Env} {n : Nat} {s s₀ : State}

/-- `load_bitmap` leaves the variables of the mount, on any drive. -/
theorem loadBitmap_mounted {b : Nat} {s' : State} (h : loadBitmap e b s = some ((), s')) (hmt : s.Mounted n)
    (herr : s.tfsLastError = .ok) : s'.Mounted n ∧ s'.tfsLastError ≠ .noDev := by
  obtain ⟨_, s₁, hread, hset⟩ := Prog.bind_eq_some.mp h
  simp only [driveReadBlock, Prog.modify_apply, Option.some.injEq, Prod.mk.injEq, true_and] at hread
  simp only [Prog.modify_apply, Option.some.injEq, Prod.mk.injEq, true_and] at hset
  have h₁ : s₁.Mounted n ∧ s₁.tfsLastError ≠ .noDev := by
    subst hread
    split
    · exact ⟨hmt, by simp [errAfter, herr]⟩
    · exact ⟨hmt, Err.noConfusion⟩
  subst hset
  split <;> exact h₁

/-- On any drive that is there, `tfs_init` sets the variables of the mount. -/
theorem tfsInit_mounted (hd : e.drive.blkCount = some n) (hn : 0 < n) (hlt : n < 2 ^ 32)
    (h : tfsInit e s = some ((), s₀)) : s₀.Mounted n ∧ s₀.tfsLastError ≠ .noDev := by
  have hlast : (n + 2 ^ 32 - 1) % 2 ^ 32 = n - 1 := by omega
  rw [tfsInit] at h
  simp only [Prog.modify_bind, setErr_bind, driveInit, hd, driveSelect, State.call, ifOk_ok, out_run, hlast,
    bitmapBlkCount] at h
  obtain ⟨⟨_, t⟩, hrun, ht⟩ := Option.map_eq_some_iff.mp h
  cases ht
  obtain ⟨_, t₁, hload, hset⟩ := Prog.bind_eq_some.mp hrun
  obtain ⟨hmt, hnd⟩ := loadBitmap_mounted (n := n) hload ⟨hn, hlt, rfl, rfl, rfl⟩ rfl
  by_cases hok : t₁.tfsLastError = .ok
  · rw [ifOk_ok hok] at hset
    cases hset
    exact ⟨hmt, hnd⟩
  · rw [ifOk_err hok] at hset
    cases hset
    exact ⟨hmt, hnd⟩

/-! ## The stores past the end of the disk -/

/-- The stores of `tfs_format` to `bitmap_blk` that mark the blocks after the end
of the disk: the index, and the new byte from the old one. -/
def markStores (len : Nat) : List (Nat × (UInt8 → UInt8)) :=
  (len / 8, fun v => v ||| UInt8.ofNat (255 * 2 ^ (len % 8))) ::
    (List.range' (len / 8 + 1) (512 - (len / 8 + 1))).map fun i => (i, fun _ => 0xff)

/-- Stores into a buffer, in order. -/
def runStores (b : Block) (stores : List (Nat × (UInt8 → UInt8))) : Block :=
  stores.foldl (fun c p => c.set p.1 (p.2 (c.get p.1))) b

theorem fill_eq_runStores (b : Block) (o : Nat) (v : UInt8) (len : Nat) :
    b.fill o (fun _ => v) len = runStores b ((List.range' o len).map fun i => (i, fun _ => v)) := by
  induction len with
  | zero => rfl
  | succ len ih =>
    rw [Buf.fill, ih, List.range'_concat, List.map_append, runStores, runStores, List.foldl_append, Nat.one_mul]
    rfl

/-- The marking is these stores. -/
theorem markPastEnd_eq (len : Nat) (b : Block) : markPastEnd len b = runStores b (markStores len) := by
  rw [markPastEnd, fill_eq_runStores]
  rfl

/-- **On a drive of any size, every store of the marking is inside the buffer exactly
when the last bitmap block is not full.** -/
theorem markStores_inside (hd : e.drive.blkCount = some n) (hn : 1 ≤ n) (hlt : n < 2 ^ 32)
    (hinit : tfsInit e s = some ((), s₀)) : (∀ p ∈ markStores s₀.lastBitmapLen, p.1 < 512) ↔ n % 4096 ≠ 0 := by
  have hlen := (tfsInit_mounted hd hn hlt hinit).1.lastLen
  have hmod : (n - 1) % 4096 + 1 = 4096 ↔ n % 4096 = 0 := by omega
  have hle : (n - 1) % 4096 < 4096 := Nat.mod_lt _ (by omega)
  rw [hlen]
  constructor
  · intro h h0
    have hfirst : ((n - 1) % 4096 + 1) / 8 < 512 := h _ (List.mem_cons_self ..)
    omega
  · intro h p hp
    rcases List.mem_cons.mp hp with rfl | hp
    · show ((n - 1) % 4096 + 1) / 8 < 512
      omega
    · obtain ⟨i, hi, rfl⟩ := List.mem_map.mp hp
      rw [List.mem_range'_1] at hi
      show i < 512
      omega

/-- A drive of 4096 blocks. -/
theorem markStores_outside : ∃ s₀, tfsInit (Env.linux 4096) (State.boot fun _ => Buf.zero) = some ((), s₀) ∧
    ¬ ∀ p ∈ markStores s₀.lastBitmapLen, p.1 < 512 := by
  obtain ⟨l, hinit⟩ := tfsInit_ok (Env.linux_neverFails 4096) rfl (by omega) (by omega) (State.boot fun _ => Buf.zero)
  refine ⟨_, hinit, fun h => ?_⟩
  have hfirst : 4096 / 8 < 512 := h _ (List.mem_cons_self ..)
  omega

theorem markStores_inside_sixteen : ∃ s₀, tfsInit (Env.linux 16) (State.boot fun _ => Buf.zero) = some ((), s₀) ∧
    ((∀ p ∈ markStores s₀.lastBitmapLen, p.1 < 512) ↔ 16 % 4096 ≠ 0) := by
  obtain ⟨l, hinit⟩ := tfsInit_ok (Env.linux_neverFails 16) rfl (by omega) (by omega) (State.boot fun _ => Buf.zero)
  exact ⟨_, hinit, markStores_inside rfl (by omega) (by omega) hinit⟩

/-! ## The fresh volume -/

/-- How many bitmap blocks a volume has. -/
def bitmapBlks (n : Nat) : Nat := (n + 4095) / 4096

/-- The used blocks of a fresh volume, counted. -/
theorem count_fresh (hn : 2 ≤ n) : Nat.count (fun b => b % 4096 = 0 ∨ b = 1) n = bitmapBlks n + 1 := by
  induction n, hn using Nat.le_induction with
  | base => decide
  | succ m hm ih =>
    rw [Nat.count_succ, ih, bitmapBlks, bitmapBlks]
    split <;> omega

theorem Formatted.count {s s' : State} (h : Formatted n s s') (hn : 2 ≤ n) :
    usedCount n s'.dev = bitmapBlks n + 1 := by
  have htail : TailUsed n s'.dev := fun b hb hlast => (h.bits b (by omega)).mpr (.inr (.inr hb))
  rw [usedCount_eq htail (by omega) h.sys.mounted.lt, ← count_fresh hn, Nat.count_eq_card_filter_range,
    Nat.count_eq_card_filter_range]
  congr 1
  refine Finset.filter_congr fun b hb => ?_
  have hb : b < n := Finset.mem_range.mp hb
  rw [h.bits b (by omega), rootDirBlk]
  omega

/-- **After `tfs_init` on a drive of any size, `tfs_format` returns when it meets no
drive failure, and leaves exactly the bitmap blocks, the root directory and what
lies past the end marked, and the root directory empty;** `tfs_get_used` counts
these blocks. -/
theorem tfsFormat_fresh (hd : e.drive.blkCount = some n) (hn : 2 ≤ n) (hlt : n < 2 ^ 32) (hf : n ≤ e.fuel)
    (hinit : tfsInit e s = some ((), s₀)) (hno : MeetsNoFailure e tfsFormat s₀) :
    ∃ s', tfsFormat e s₀ = some ((), s') ∧ s'.tfsLastError = .ok ∧
      (∀ b < 4096 * bitmapBlks n, Used s'.dev b ↔ b % 4096 = 0 ∨ b = 1 ∨ n ≤ b) ∧
      s'.dev 1 = Buf.zero ∧ s'.currentDirBlk = 1 ∧ s'.loadedBitmapBlk = 0 ∧ s'.bitmapBlk = s'.dev 0 ∧
      (MeetsNoFailure e tfsGetUsed s' → ∃ s'', tfsGetUsed e s' = some (bitmapBlks n + 1, s'')) := by
  obtain ⟨hmt, hnd⟩ := tfsInit_mounted hd (by omega) hlt hinit
  obtain ⟨s', hrun, h⟩ := tfsFormat_done e.reliable_neverFails hf hn hmt hnd
  refine ⟨s', hno.run tfsFormat_follows hrun, h.err, fun b hb => ?_, h.root, h.cur, h.loaded, h.cached, fun hno' => ?_⟩
  · rw [bitmapBlks] at hb
    exact h.bits b (by omega)
  · obtain ⟨l, hused⟩ := tfsGetUsed_ok e.reliable_neverFails h.sys.mounted h.sys.dev hf
    rw [h.count hn] at hused
    exact ⟨_, hno'.run tfsGetUsed_follows hused⟩

/-- Two blocks, with anything on them before. -/
theorem tfsFormat_fresh_two : ∃ s₀ s', tfsInit (Env.linux 2) (State.boot fun b => Buf.zero.set b 7) = some ((), s₀) ∧
    tfsFormat (Env.linux 2) s₀ = some ((), s') ∧ s'.tfsLastError = .ok ∧
    (∀ b < 4096 * bitmapBlks 2, Used s'.dev b ↔ b % 4096 = 0 ∨ b = 1 ∨ 2 ≤ b) ∧
    s'.dev 1 = Buf.zero ∧ s'.currentDirBlk = 1 ∧ s'.loadedBitmapBlk = 0 ∧ s'.bitmapBlk = s'.dev 0 ∧
    (MeetsNoFailure (Env.linux 2) tfsGetUsed s' → ∃ s'', tfsGetUsed (Env.linux 2) s' = some (bitmapBlks 2 + 1, s'')) := by
  obtain ⟨l, hinit⟩ := tfsInit_ok (Env.linux_neverFails 2) rfl (by omega) (by omega)
    (State.boot fun b => Buf.zero.set b 7)
  obtain ⟨s', h⟩ := tfsFormat_fresh rfl (by omega) (by omega) (by decide) hinit fun _ _ _ _ _ _ => rfl
  exact ⟨_, s', hinit, h⟩

end TinyFs
