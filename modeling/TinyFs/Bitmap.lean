/-
The bitmap as a set of block numbers: which blocks a medium marks as used, and
what setting or clearing one bit does to that set. Bitmap blocks sit at the
multiples of 4096, so a bit changes no other block of the medium.
-/
import TinyFs.Reliable

namespace TinyFs

open Bytes

/-- The medium marks block `b` as used. -/
def Used (dev : Nat → Block) (b : Nat) : Prop := (dev (getBitmapBlk b)).bit (b % 4096) = true

instance (dev : Nat → Block) (b : Nat) : Decidable (Used dev b) := by
  unfold Used
  infer_instance

/-- The medium with the bit of `b` set. -/
def markUsed (dev : Nat → Block) (b : Nat) : Nat → Block :=
  let x := dev (getBitmapBlk b)
  Function.update dev (getBitmapBlk b) (x.set (b % 4096 / 8) (x.get (b % 4096 / 8) ||| maskOf (b % 4096 % 8)))

/-- The medium with the bit of `b` cleared. -/
def markFree (dev : Nat → Block) (b : Nat) : Nat → Block :=
  let x := dev (getBitmapBlk b)
  Function.update dev (getBitmapBlk b) (x.set (b % 4096 / 8) (x.get (b % 4096 / 8) &&& ~~~maskOf (b % 4096 % 8)))

theorem getBitmapBlk_mod (b : Nat) : getBitmapBlk b % 4096 = 0 := by
  simp [getBitmapBlk]

theorem getBitmapBlk_le (b : Nat) : getBitmapBlk b ≤ b := by
  simp only [getBitmapBlk]
  omega

theorem getBitmapBlk_add (b : Nat) : getBitmapBlk b + b % 4096 = b := by
  simp only [getBitmapBlk]
  omega

theorem getBitmapBlk_ne {b x : Nat} (h : b % 4096 ≠ 0) : b ≠ getBitmapBlk x := by
  intro heq
  rw [heq] at h
  exact h (getBitmapBlk_mod x)

theorem getBitmapBlk_lt {b n : Nat} (h : b < n) : getBitmapBlk b < n :=
  Nat.lt_of_le_of_lt (getBitmapBlk_le b) h

/-- Two blocks with one bitmap block differ in their bit. -/
theorem eq_of_bitmapBlk_eq {b x : Nat} (h1 : getBitmapBlk b = getBitmapBlk x) (h2 : b % 4096 = x % 4096) :
    b = x := by
  have hb := getBitmapBlk_add b
  have hx := getBitmapBlk_add x
  omega

theorem used_markUsed {dev : Nat → Block} {b x : Nat} : Used (markUsed dev b) x ↔ x = b ∨ Used dev x := by
  have hj : b % 4096 % 8 < 8 := Nat.mod_lt _ (by omega)
  have hi : b % 4096 / 8 < 512 := by omega
  have hk : 8 * (b % 4096 / 8) + b % 4096 % 8 = b % 4096 := by omega
  simp only [Used, markUsed]
  by_cases h : getBitmapBlk x = getBitmapBlk b
  · rw [h, Function.update_self, Buf.bit_set_or _ hi hj, hk]
    simp only [Bool.or_eq_true, decide_eq_true_eq]
    constructor
    · rintro (h1 | h1)
      · exact .inr h1
      · exact .inl (eq_of_bitmapBlk_eq h h1.symm)
    · rintro (rfl | h1)
      · exact .inr rfl
      · exact .inl h1
  · rw [Function.update_of_ne h]
    constructor
    · exact .inr
    · rintro (rfl | h1)
      · exact absurd rfl h
      · exact h1

theorem used_markFree {dev : Nat → Block} {b x : Nat} : Used (markFree dev b) x ↔ x ≠ b ∧ Used dev x := by
  have hj : b % 4096 % 8 < 8 := Nat.mod_lt _ (by omega)
  have hi : b % 4096 / 8 < 512 := by omega
  have hk : 8 * (b % 4096 / 8) + b % 4096 % 8 = b % 4096 := by omega
  simp only [Used, markFree]
  by_cases h : getBitmapBlk x = getBitmapBlk b
  · rw [h, Function.update_self, Buf.bit_set_and_not _ hi hj, hk]
    simp only [Bool.and_eq_true, Bool.not_eq_true', decide_eq_false_iff_not]
    constructor
    · rintro ⟨h1, h2⟩
      exact ⟨fun he => h2 (he ▸ rfl), h1⟩
    · rintro ⟨h1, h2⟩
      exact ⟨h2, fun he => h1 (eq_of_bitmapBlk_eq h he.symm)⟩
  · rw [Function.update_of_ne h]
    constructor
    · exact fun h1 => ⟨fun he => h (he ▸ rfl), h1⟩
    · exact fun h1 => h1.2

theorem markUsed_of_ne {dev : Nat → Block} {b x : Nat} (h : x ≠ getBitmapBlk b) : markUsed dev b x = dev x :=
  Function.update_of_ne h _ _

theorem markFree_of_ne {dev : Nat → Block} {b x : Nat} (h : x ≠ getBitmapBlk b) : markFree dev b x = dev x :=
  Function.update_of_ne h _ _

/-- A store into a block that is no bitmap block changes no bit. -/
theorem used_update {dev : Nat → Block} {b : Nat} (h : b % 4096 ≠ 0) (v : Block) (x : Nat) :
    Used (Function.update dev b v) x ↔ Used dev x := by
  simp only [Used]
  rw [Function.update_of_ne (getBitmapBlk_ne h).symm]

/-! ## The search of `alloc_block` -/

theorem clearMask_eq (p : UInt8) (js : List Nat) : clearMask p js = js.find? fun j => p &&& maskOf j = 0 := by
  induction js with
  | nil => rfl
  | cons j js ih =>
    simp only [clearMask, List.find?_cons]
    split
    · rename_i h; simp [h]
    · rename_i h; simp [h, ih]

theorem clearMask_some {p : UInt8} {j : Nat} (h : clearMask p (List.range 8) = some j) :
    j < 8 ∧ p.toNat.testBit j = false ∧ ∀ k < j, p.toNat.testBit k = true := by
  rw [clearMask_eq, List.find?_range_eq_some] at h
  obtain ⟨h1, h2, h3⟩ := h
  have hj : j < 8 := List.mem_range.mp h2
  refine ⟨hj, (and_maskOf_eq_zero p hj).mp (by simpa using h1), fun k hk => ?_⟩
  have h4 := h3 k hk
  simp only [Bool.not_eq_true', decide_eq_false_iff_not] at h4
  simpa using (not_congr (and_maskOf_eq_zero p (by omega))).mp h4

theorem clearMask_isSome {p : UInt8} (h : p ≠ 0xff) : ∃ j, clearMask p (List.range 8) = some j := by
  obtain ⟨j, hj, hclear⟩ := exists_clear h
  rw [clearMask_eq, ← Option.isSome_iff_exists, List.find?_isSome]
  exact ⟨j, List.mem_range.mpr hj, by simpa using (and_maskOf_eq_zero p hj).mpr hclear⟩

theorem searchBitmap_eq (b : Block) (is : List Nat) :
    searchBitmap b is = (is.find? fun i => b.get i ≠ 0xff).bind fun i =>
      (clearMask (b.get i) (List.range 8)).map fun j => (i, j) := by
  induction is with
  | nil => rfl
  | cons i is ih =>
    simp only [searchBitmap, List.find?_cons]
    split
    · rename_i h
      obtain ⟨j, hj⟩ := clearMask_isSome h
      simp [h, hj]
    · rename_i h
      simp only [h, decide_false]
      exact ih

theorem bit_of_ff {b : Block} {k : Nat} (h : b.get (k / 8) = 0xff) : b.bit k = true := by
  rw [Buf.bit, h]
  exact testBit_ff (Nat.mod_lt _ (by omega))

/-- The search stops at the first clear bit. -/
theorem searchBitmap_some {b : Block} {i j : Nat} (h : searchBitmap b (List.range 512) = some (i, j)) :
    i < 512 ∧ j < 8 ∧ b.bit (8 * i + j) = false ∧ ∀ k < 8 * i + j, b.bit k = true := by
  rw [searchBitmap_eq, Option.bind_eq_some_iff] at h
  obtain ⟨i', hi', h⟩ := h
  rw [Option.map_eq_some_iff] at h
  obtain ⟨j', hj', h⟩ := h
  simp only [Prod.mk.injEq] at h
  obtain ⟨rfl, rfl⟩ := h
  rw [List.find?_range_eq_some] at hi'
  obtain ⟨_, hi, hfull⟩ := hi'
  obtain ⟨hj, hclear, hset⟩ := clearMask_some hj'
  have e1 : (8 * i' + j') / 8 = i' := by omega
  have e2 : (8 * i' + j') % 8 = j' := by omega
  refine ⟨List.mem_range.mp hi, hj, by rw [Buf.bit, e1, e2]; exact hclear, fun k hk => ?_⟩
  by_cases hki : k / 8 = i'
  · rw [Buf.bit, hki]
    exact hset (k % 8) (by omega)
  · exact bit_of_ff (by simpa using hfull (k / 8) (by omega))

theorem searchBitmap_none {b : Block} (h : searchBitmap b (List.range 512) = none) :
    ∀ k < 4096, b.bit k = true := by
  intro k hk
  rw [searchBitmap_eq, Option.bind_eq_none_iff] at h
  by_contra hc
  have hne : b.get (k / 8) ≠ 0xff := fun he => hc (bit_of_ff he)
  have hsome : ((List.range 512).find? fun i => b.get i ≠ 0xff).isSome := by
    rw [List.find?_isSome]
    exact ⟨k / 8, by simp; omega, by simpa using hne⟩
  obtain ⟨i, hi⟩ := Option.isSome_iff_exists.mp hsome
  have hi' : b.get i ≠ 0xff := by simpa using List.find?_some hi
  obtain ⟨j, hj⟩ := clearMask_isSome hi'
  simpa [hj] using h i hi

end TinyFs
