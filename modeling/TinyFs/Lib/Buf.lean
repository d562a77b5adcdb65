/-
Fixed-size byte buffers: `n` bytes held in one bit vector, read and stored a
byte at a time. Every other access (a little-endian 32-bit field, a block
copy) is made of these two, so a proof about a buffer rests on `get_set` and
`ext` and never looks at the bits again.
-/
import Mathlib.Data.Nat.Bitwise

namespace Bytes

/-- A buffer of `n` bytes; byte `i` is the eight bits from `8 * i` on. -/
structure Buf (n : Nat) where
  bits : BitVec (8 * n)
  deriving DecidableEq

namespace Buf

variable {n : Nat}

/-- The buffer of zero bytes. -/
def zero : Buf n := ⟨0#(8 * n)⟩

/-- Byte `i`; zero past the end. -/
def get (b : Buf n) (i : Nat) : UInt8 := ⟨b.bits.extractLsb' (8 * i) 8⟩

/-- Stores byte `v` at `i`; a store past the end has no effect. -/
def set (b : Buf n) (i : Nat) (v : UInt8) : Buf n :=
  ⟨(b.bits &&& ~~~((BitVec.allOnes 8).setWidth (8 * n) <<< (8 * i))) |||
    (v.toBitVec.setWidth (8 * n) <<< (8 * i))⟩

theorem get_getLsbD (b : Buf n) (i k : Nat) :
    (b.get i).toBitVec.getLsbD k = (decide (k < 8) && b.bits.getLsbD (8 * i + k)) := by
  simp [get, BitVec.getLsbD_extractLsb']

theorem set_getLsbD (b : Buf n) (i : Nat) (v : UInt8) (k : Nat) :
    (b.set i v).bits.getLsbD k =
      if 8 * i ≤ k ∧ k < 8 * i + 8 then decide (k < 8 * n) && v.toBitVec.getLsbD (k - 8 * i)
      else b.bits.getLsbD k := by
  by_cases hk : k < 8 * n
  · simp only [set, BitVec.getLsbD_or, BitVec.getLsbD_and, BitVec.getLsbD_not, BitVec.getLsbD_shiftLeft,
      BitVec.getLsbD_setWidth, BitVec.getLsbD_allOnes, hk, decide_true, Bool.true_and]
    by_cases h1 : k < 8 * i
    · have : ¬(8 * i ≤ k ∧ k < 8 * i + 8) := by omega
      simp [h1, this]
    · have h2 : k - 8 * i < 8 * n := by omega
      by_cases h3 : k < 8 * i + 8
      · have h4 : k - 8 * i < 8 := by omega
        simp [h1, h2, h3, h4, Nat.le_of_not_lt h1]
      · have h4 : ¬ k - 8 * i < 8 := by omega
        have h5 : v.toBitVec.getLsbD (k - 8 * i) = false := BitVec.getLsbD_of_ge _ _ (by omega)
        simp [h1, h3, h4, h5]
  · rw [BitVec.getLsbD_of_ge _ _ (by omega), BitVec.getLsbD_of_ge b.bits _ (by omega)]
    simp [hk]

theorem get_set (b : Buf n) (i : Nat) (v : UInt8) (j : Nat) :
    (b.set i v).get j = if i = j ∧ j < n then v else b.get j := by
  apply UInt8.toBitVec_inj.mp
  apply BitVec.eq_of_getLsbD_eq
  intro k hk
  rw [get_getLsbD, set_getLsbD]
  by_cases h : i = j ∧ j < n
  · obtain ⟨rfl, hi⟩ := h
    have h1 : 8 * i + k < 8 * n := by omega
    simp [hk, hi, h1]
  · rw [if_neg h, get_getLsbD]
    by_cases hij : i = j
    · subst hij
      have h1 : ¬ 8 * i + k < 8 * n := by omega
      have h2 : b.bits.getLsbD (8 * i + k) = false := BitVec.getLsbD_of_ge _ _ (by omega)
      simp [h1, h2]
    · have h1 : ¬ (8 * i ≤ 8 * j + k ∧ 8 * j + k < 8 * i + 8) := by omega
      rw [if_neg h1]

@[simp] theorem get_set_self (b : Buf n) {i : Nat} (v : UInt8) (h : i < n) : (b.set i v).get i = v := by
  rw [get_set, if_pos ⟨rfl, h⟩]

theorem get_set_ne (b : Buf n) {i j : Nat} (v : UInt8) (h : i ≠ j) : (b.set i v).get j = b.get j := by
  rw [get_set, if_neg (fun h' => h h'.1)]

@[simp] theorem get_zero (i : Nat) : (zero : Buf n).get i = 0 := by
  apply UInt8.toBitVec_inj.mp
  apply BitVec.eq_of_getLsbD_eq
  intro k _
  rw [get_getLsbD]
  simp [zero]

theorem ext_get {b c : Buf n} (h : ∀ i < n, b.get i = c.get i) : b = c := by
  obtain ⟨x⟩ := b
  obtain ⟨y⟩ := c
  congr 1
  apply BitVec.eq_of_getLsbD_eq
  intro k hk
  have h1 := congrArg (fun v : UInt8 => v.toBitVec.getLsbD (k % 8)) (h (k / 8) (by omega))
  simp only [get_getLsbD] at h1
  have h2 : k % 8 < 8 := Nat.mod_lt _ (by omega)
  have h3 : 8 * (k / 8) + k % 8 = k := by omega
  simpa [h2, h3] using h1

/-! ## Block copies -/

/-- Bytes `o` to `o + len - 1` replaced by `f 0`, `f 1`, ... (`memcpy`, `memset`). -/
def fill (b : Buf n) (o : Nat) (f : Nat → UInt8) : Nat → Buf n
  | 0 => b
  | len + 1 => (b.fill o f len).set (o + len) (f len)

theorem get_fill (b : Buf n) (o : Nat) (f : Nat → UInt8) (len j : Nat) :
    (b.fill o f len).get j = if o ≤ j ∧ j < o + len ∧ j < n then f (j - o) else b.get j := by
  induction len with
  | zero =>
    have : ¬ (o ≤ j ∧ j < o + 0 ∧ j < n) := by omega
    rw [fill, if_neg this]
  | succ len ih =>
    rw [fill, get_set, ih]
    by_cases h : o + len = j ∧ j < n
    · have h1 : o ≤ j ∧ j < o + (len + 1) ∧ j < n := by omega
      have h2 : j - o = len := by omega
      rw [if_pos h, if_pos h1, h2]
    · rw [if_neg h]
      by_cases h1 : o ≤ j ∧ j < o + len ∧ j < n
      · rw [if_pos h1, if_pos (by omega)]
      · rw [if_neg h1, if_neg (by omega)]

theorem get_fill_in (b : Buf n) {o len j : Nat} (f : Nat → UInt8) (h1 : o ≤ j) (h2 : j < o + len)
    (h3 : j < n) : (b.fill o f len).get j = f (j - o) := by
  rw [get_fill, if_pos ⟨h1, h2, h3⟩]

theorem get_fill_out (b : Buf n) {o len j : Nat} (f : Nat → UInt8) (h : j < o ∨ o + len ≤ j) :
    (b.fill o f len).get j = b.get j := by
  rw [get_fill, if_neg (by omega)]

/-! ## 32-bit fields, little endian -/

/-- Byte `k` of the little-endian form of `v`. -/
def byteOf (v k : Nat) : UInt8 := UInt8.ofNat (v / 256 ^ k)

/-- The 32-bit field at `o`. -/
def u32 (b : Buf n) (o : Nat) : Nat :=
  (b.get o).toNat + 256 * (b.get (o + 1)).toNat + 65536 * (b.get (o + 2)).toNat +
    16777216 * (b.get (o + 3)).toNat

/-- Stores `v`, modulo 2^32, in the 32-bit field at `o`. -/
def setU32 (b : Buf n) (o v : Nat) : Buf n := b.fill o (byteOf v) 4

theorem byteOf_toNat (v k : Nat) : (byteOf v k).toNat = v / 256 ^ k % 256 := by
  simp [byteOf]

theorem u32_lt (b : Buf n) (o : Nat) : b.u32 o < 2 ^ 32 := by
  have h0 := (b.get o).toNat_lt
  have h1 := (b.get (o + 1)).toNat_lt
  have h2 := (b.get (o + 2)).toNat_lt
  have h3 := (b.get (o + 3)).toNat_lt
  simp only [u32]
  omega

theorem u32_congr {b c : Buf n} {o : Nat} (h : ∀ k < 4, b.get (o + k) = c.get (o + k)) : b.u32 o = c.u32 o := by
  have h0 := h 0 (by omega)
  have h1 := h 1 (by omega)
  have h2 := h 2 (by omega)
  have h3 := h 3 (by omega)
  simp only [Nat.add_zero] at h0
  simp only [u32, h0, h1, h2, h3]

theorem u32_setU32_self (b : Buf n) {o : Nat} (v : Nat) (h : o + 4 ≤ n) :
    (b.setU32 o v).u32 o = v % 2 ^ 32 := by
  have hg : ∀ k < 4, (b.setU32 o v).get (o + k) = byteOf v k := by
    intro k hk
    rw [setU32, get_fill_in _ _ (by omega) (by omega) (by omega)]
    congr 1
    omega
  have h0 := hg 0 (by omega)
  have h1 := hg 1 (by omega)
  have h2 := hg 2 (by omega)
  have h3 := hg 3 (by omega)
  simp only [Nat.add_zero] at h0
  simp only [u32, h0, h1, h2, h3, byteOf_toNat]
  omega

theorem byteOf_u32 (b : Buf n) (o : Nat) {k : Nat} (hk : k < 4) : byteOf (b.u32 o) k = b.get (o + k) := by
  have h0 := (b.get o).toNat_lt
  have h1 := (b.get (o + 1)).toNat_lt
  have h2 := (b.get (o + 2)).toNat_lt
  have h3 := (b.get (o + 3)).toNat_lt
  apply UInt8.toNat_inj.mp
  rw [byteOf_toNat, u32]
  obtain rfl | rfl | rfl | rfl : k = 0 ∨ k = 1 ∨ k = 2 ∨ k = 3 := by omega
  all_goals simp only [Nat.reducePow, Nat.add_zero]; omega

/-- A field stored as it is. -/
theorem setU32_u32 (b : Buf n) (o : Nat) : b.setU32 o (b.u32 o) = b := by
  apply ext_get
  intro j hj
  rw [setU32, get_fill]
  split
  · rename_i h
    rw [byteOf_u32 b o (by omega)]
    congr 1
    omega
  · rfl

theorem u32_setU32_ne (b : Buf n) {o o' : Nat} (v : Nat) (h : o + 4 ≤ o' ∨ o' + 4 ≤ o) :
    (b.setU32 o v).u32 o' = b.u32 o' :=
  u32_congr fun k hk => get_fill_out _ _ (by omega)

theorem u32_fill_ne (b : Buf n) {o o' len : Nat} (f : Nat → UInt8) (h : o + len ≤ o' ∨ o' + 4 ≤ o) :
    (b.fill o f len).u32 o' = b.u32 o' :=
  u32_congr fun k hk => get_fill_out _ _ (by omega)

theorem u32_set_ne (b : Buf n) {i o : Nat} (v : UInt8) (h : i < o ∨ o + 4 ≤ i) :
    (b.set i v).u32 o = b.u32 o :=
  u32_congr fun k hk => get_set_ne _ _ (by omega)

@[simp] theorem u32_zero (o : Nat) : (zero : Buf n).u32 o = 0 := by
  simp [u32]

/-! ## Runs of bytes -/

/-- The `len` bytes from `o` on. -/
def slice (b : Buf n) (o len : Nat) : List UInt8 := (List.range len).map fun k => b.get (o + k)

@[simp] theorem slice_length (b : Buf n) (o len : Nat) : (b.slice o len).length = len := by
  simp [slice]

theorem slice_congr {b c : Buf n} {o len : Nat} (h : ∀ k < len, b.get (o + k) = c.get (o + k)) :
    b.slice o len = c.slice o len := by
  apply List.map_congr_left
  intro k hk
  exact h k (List.mem_range.mp hk)

theorem slice_getElem (b : Buf n) (o len k : Nat) (h : k < (b.slice o len).length) :
    (b.slice o len)[k] = b.get (o + k) := by
  simp [slice]

/-- Bit `k` of the buffer: bit `k % 8` of byte `k / 8`. -/
def bit (b : Buf n) (k : Nat) : Bool := (b.get (k / 8)).toNat.testBit (k % 8)

end Buf

/-! ## Single bits -/

/-- The byte with bit `j` alone. -/
def maskOf (j : Nat) : UInt8 := 1 <<< UInt8.ofNat j

theorem maskOf_toNat {j : Nat} (h : j < 8) : (maskOf j).toNat = 2 ^ j := by
  have : ∀ j < 8, (maskOf j).toNat = 2 ^ j := by decide
  exact this j h

theorem testBit_not (p : UInt8) {k : Nat} (hk : k < 8) : (~~~p).toNat.testBit k = !p.toNat.testBit k := by
  have h : (~~~p).toNat.testBit k = (~~~p.toBitVec).getLsbD k := rfl
  rw [h, BitVec.getLsbD_not]
  simp only [hk, decide_true, Bool.true_and]
  rfl

theorem and_maskOf_eq_zero (p : UInt8) {j : Nat} (h : j < 8) : p &&& maskOf j = 0 ↔ p.toNat.testBit j = false := by
  rw [← UInt8.toNat_inj, UInt8.toNat_and, maskOf_toNat h, Nat.and_two_pow]
  cases p.toNat.testBit j <;> simp

theorem testBit_or_maskOf (p : UInt8) {j : Nat} (hj : j < 8) (k : Nat) :
    (p ||| maskOf j).toNat.testBit k = (p.toNat.testBit k || decide (j = k)) := by
  rw [UInt8.toNat_or, maskOf_toNat hj, Nat.testBit_or, Nat.testBit_two_pow]

theorem testBit_and_not_maskOf (p : UInt8) {j k : Nat} (hj : j < 8) (hk : k < 8) :
    (p &&& ~~~maskOf j).toNat.testBit k = (p.toNat.testBit k && !decide (j = k)) := by
  rw [UInt8.toNat_and, Nat.testBit_and, testBit_not _ hk, maskOf_toNat hj, Nat.testBit_two_pow]

/-- A byte other than 0xff has a clear bit. -/
theorem exists_clear {p : UInt8} (h : p ≠ 0xff) : ∃ j < 8, p.toNat.testBit j = false := by
  by_contra hc
  push Not at hc
  apply h
  rw [← UInt8.toNat_inj]
  apply Nat.eq_of_testBit_eq
  intro i
  by_cases hi : i < 8
  · have h1 : p.toNat.testBit i = true := by simpa using hc i hi
    have h2 : ∀ i < 8, Nat.testBit 255 i = true := by decide
    rw [h1]
    exact (h2 i hi).symm
  · have h1 : p.toNat < 2 ^ i :=
      Nat.lt_of_lt_of_le p.toNat_lt (Nat.pow_le_pow_right (by omega) (by omega))
    have h2 : 255 < 2 ^ i :=
      Nat.lt_of_lt_of_le (by omega : 255 < 2 ^ 8) (Nat.pow_le_pow_right (by omega) (by omega))
    rw [Nat.testBit_lt_two_pow h1]
    exact (Nat.testBit_lt_two_pow h2).symm

theorem testBit_ff {j : Nat} (h : j < 8) : (0xff : UInt8).toNat.testBit j = true := by
  have : ∀ j < 8, (0xff : UInt8).toNat.testBit j = true := by decide
  exact this j h

namespace Buf

variable {n : Nat}

theorem bit_set_or (b : Buf n) {i j : Nat} (hi : i < n) (hj : j < 8) (k : Nat) :
    (b.set i (b.get i ||| maskOf j)).bit k = (b.bit k || decide (8 * i + j = k)) := by
  simp only [bit, get_set]
  by_cases h : i = k / 8 ∧ k / 8 < n
  · obtain ⟨rfl, _⟩ := h
    have h1 : (j = k % 8) = (8 * (k / 8) + j = k) := by
      apply propext
      omega
    rw [if_pos ⟨rfl, hi⟩, testBit_or_maskOf _ hj]
    simp only [h1]
  · have h1 : ¬ 8 * i + j = k := by omega
    rw [if_neg h]
    simp [h1]

theorem bit_set_and_not (b : Buf n) {i j : Nat} (hi : i < n) (hj : j < 8) (k : Nat) :
    (b.set i (b.get i &&& ~~~maskOf j)).bit k = (b.bit k && !decide (8 * i + j = k)) := by
  simp only [bit, get_set]
  by_cases h : i = k / 8 ∧ k / 8 < n
  · obtain ⟨rfl, _⟩ := h
    have h1 : (j = k % 8) = (8 * (k / 8) + j = k) := by
      apply propext
      omega
    rw [if_pos ⟨rfl, hi⟩, testBit_and_not_maskOf _ hj (Nat.mod_lt _ (by omega))]
    simp only [h1]
  · have h1 : ¬ 8 * i + j = k := by omega
    rw [if_neg h]
    simp [h1]

/-- Two buffers with the same bits are one. -/
theorem ext_bit {b c : Buf n} (h : ∀ k < 8 * n, b.bit k = c.bit k) : b = c := by
  refine ext_get fun i hi => ?_
  rw [← UInt8.toNat_inj]
  refine Nat.eq_of_testBit_eq fun j => ?_
  by_cases hj : j < 8
  · have hbit := h (8 * i + j) (by omega)
    have e1 : (8 * i + j) / 8 = i := by omega
    have e2 : (8 * i + j) % 8 = j := by omega
    rwa [bit, bit, e1, e2] at hbit
  · have hle : 2 ^ 8 ≤ 2 ^ j := Nat.pow_le_pow_right (by omega) (by omega)
    rw [Nat.testBit_lt_two_pow (Nat.lt_of_lt_of_le (b.get i).toNat_lt hle),
      Nat.testBit_lt_two_pow (Nat.lt_of_lt_of_le (c.get i).toNat_lt hle)]

@[simp] theorem bit_zero (k : Nat) : (zero : Buf n).bit k = false := by
  simp [bit]

end Buf

end Bytes
