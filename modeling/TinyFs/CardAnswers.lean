/-
What the driver makes of the card's answers. The capacity comes from the fields
of the CSD register, as the bits of a 128-bit number; of the older structure the
driver forms the bytes in 32 bits before it divides them into blocks. The answer
to a block written is the data response, and the driver does not look at it.
-/
import TinyFs.MmcAddress

namespace TinyFs

open Bytes

namespace Mmc

variable {card : Card} {s s' : Mmc}

/-! ## The CSD register -/

/-- The first `k` bytes of a register as a number, the first byte the highest. -/
def leading (p : List UInt8) : Nat → Nat
  | 0 => 0
  | k + 1 => leading p k * 256 + (p.getD k 0).toNat

/-- The bits from `hi` down to `lo` of a register of 128 bits. -/
def csdBits (p : List UInt8) (hi lo : Nat) : Nat := leading p 16 / 2 ^ lo % 2 ^ (hi + 1 - lo)

/-- The bytes on a card of structure 0, from `C_SIZE`, `C_SIZE_MULT` and `READ_BL_LEN`. -/
def csdBytesV1 (p : List UInt8) : Nat := (csdBits p 73 62 + 1) * 2 ^ (csdBits p 49 47 + 2) * 2 ^ csdBits p 83 80

/-- The capacity the fields define, in blocks; the structures 2 and 3 are reserved. -/
def csdCapacity (p : List UInt8) : Option Nat :=
  if csdBits p 127 126 = 0 then some (csdBytesV1 p / 512)
  else if csdBits p 127 126 = 1 then some ((csdBits p 69 48 + 1) * 1024)
  else none

/-- The bytes behind the first `k` are shifted out. -/
theorem leading_div (p : List UInt8) (k j : Nat) : leading p (k + j) / 256 ^ j = leading p k := by
  induction j with
  | zero => rw [Nat.add_zero, Nat.pow_zero, Nat.div_one]
  | succ j ih =>
    have hb := (p.getD (k + j) 0).toNat_lt
    have hone : leading p (k + (j + 1)) / 256 = leading p (k + j) := by
      rw [← Nat.add_assoc, leading]
      omega
    rw [Nat.pow_succ, Nat.mul_comm, ← Nat.div_div_eq_div_mul, hone, ih]

/-- A field that ends `l` bits behind the first `k` bytes. -/
theorem csdBits_eq (p : List UInt8) {hi lo k j l : Nat} (hk : k + j = 16) (hl : 8 * j + l = lo) :
    csdBits p hi lo = leading p k / 2 ^ l % 2 ^ (hi + 1 - lo) := by
  have hpow : (2 : Nat) ^ lo = 256 ^ j * 2 ^ l := by
    rw [← hl, Nat.pow_add, Nat.pow_mul]
  rw [csdBits, ← hk, hpow, ← Nat.div_div_eq_div_mul, leading_div]

theorem csdStructure_eq (p : List UInt8) : (csdStructure p).toNat = csdBits p 127 126 := by
  have h0 := (p.getD 0 0).toNat_lt
  have hs : (csdStructure p).toNat = (p.getD 0 0).toNat / 64 := by
    rw [csdStructure, UInt8.toNat_shiftRight, Nat.shiftRight_eq_div_pow]
    rfl
  rw [csdBits_eq p (k := 1) (j := 15) (l := 6) rfl rfl, hs]
  simp only [leading]
  omega

/-- Bits put below others. -/
theorem or_below {x y k : Nat} (h : y < 2 ^ k) : x <<< k ||| y = x * 2 ^ k + y := by
  rw [← Nat.shiftLeft_add_eq_or_of_lt h, Nat.shiftLeft_eq]

/-- A number of three pieces. -/
theorem or_pieces {x y z k l : Nat} (hy : y < 2 ^ k) (hz : z < 2 ^ l) :
    x <<< (k + l) ||| y <<< l ||| z = (x * 2 ^ k + y) * 2 ^ l + z := by
  rw [Nat.shiftLeft_add, ← Nat.shiftLeft_or_distrib, or_below hz, or_below hy]

theorem toNat_and_low (b m : UInt8) (k : Nat) (hm : m.toNat = 2 ^ k - 1) : (b &&& m).toNat = b.toNat % 2 ^ k := by
  rw [UInt8.toNat_and, hm, Nat.and_two_pow_sub_one_eq_mod]

/-- `C_SIZE` of structure 1, put together from three bytes. -/
theorem csdCSize_eq (p : List UInt8) : csdCSize p = csdBits p 69 48 := by
  have h8 := (p.getD 8 0).toNat_lt
  have h9 := (p.getD 9 0).toNat_lt
  have hsize : csdCSize p = ((p.getD 7 0).toNat % 2 ^ 6 * 2 ^ 8 + (p.getD 8 0).toNat) * 2 ^ 8 + (p.getD 9 0).toNat := by
    rw [csdCSize, toNat_and_low _ _ 6 rfl]
    exact or_pieces (k := 8) (l := 8) h8 h9
  rw [csdBits_eq p (k := 10) (j := 6) (l := 0) rfl rfl, hsize]
  simp only [leading]
  omega

/-- `C_SIZE` of structure 0. -/
theorem csdCSizeV1_eq (p : List UInt8) : csdCSizeV1 p = csdBits p 73 62 := by
  have h7 := (p.getD 7 0).toNat_lt
  have h8 := (p.getD 8 0).toNat_lt
  have hlast : (p.getD 8 0 >>> 6).toNat = (p.getD 8 0).toNat / 64 := by
    rw [UInt8.toNat_shiftRight, Nat.shiftRight_eq_div_pow]
    rfl
  have hsize : csdCSizeV1 p = ((p.getD 6 0).toNat % 2 ^ 2 * 2 ^ 8 + (p.getD 7 0).toNat) * 2 ^ 2 +
      (p.getD 8 0).toNat / 64 := by
    rw [csdCSizeV1, hlast, toNat_and_low _ _ 2 rfl]
    exact or_pieces (k := 8) (l := 2) h7 (by omega)
  rw [csdBits_eq p (k := 9) (j := 7) (l := 6) rfl rfl, hsize]
  simp only [leading]
  omega

/-- `C_SIZE_MULT` and `READ_BL_LEN`, added for one shift. -/
theorem csdShift_eq (p : List UInt8) : csdShift p = csdBits p 49 47 + csdBits p 83 80 + 2 := by
  have h10 := (p.getD 10 0).toNat_lt
  have hlow : (p.getD 10 0 >>> 7).toNat = (p.getD 10 0).toNat / 128 := by
    rw [UInt8.toNat_shiftRight, Nat.shiftRight_eq_div_pow]
    rfl
  have hmult : ((p.getD 9 0 &&& 0x03) <<< 1 ||| (p.getD 10 0 >>> 7)).toNat =
      (p.getD 9 0).toNat % 4 * 2 ^ 1 + (p.getD 10 0).toNat / 128 := by
    have hshift : ((p.getD 9 0 &&& 0x03) <<< 1).toNat = ((p.getD 9 0).toNat % 4) <<< 1 := by
      rw [UInt8.toNat_shiftLeft, toNat_and_low _ _ 2 rfl]
      exact Nat.mod_eq_of_lt (by rw [Nat.shiftLeft_eq]; show _ % 2 ^ 2 * 2 ^ 1 < _; omega)
    rw [UInt8.toNat_or, hshift, hlow, or_below (by omega)]
  rw [csdShift, hmult, toNat_and_low _ _ 4 rfl, csdBits_eq p (k := 11) (j := 5) (l := 7) rfl rfl,
    csdBits_eq p (k := 6) (j := 10) (l := 0) rfl rfl]
  simp only [leading]
  omega

/-! ## The capacity -/

/-- A shift cut to 32 bits and divided is the quotient where nothing is cut off, and less elsewhere. -/
theorem blocks_eq_iff (x : Nat) : (x % 2 ^ 32) >>> blocksizeWidth = x / 512 ↔ x < 2 ^ 32 := by
  rw [Nat.shiftRight_eq_div_pow, blocksizeWidth]
  omega

/-- The capacity is decoded: where it has 32 bits, it is the block count. -/
def Decoded (p : List UInt8) (blkCount : Nat) : Prop :=
  ∀ cap, csdCapacity p = some cap → cap < 2 ^ 32 → blkCount = cap

theorem csdBlkCount_decoded (p : List UInt8) :
    Decoded p (csdBlkCount p) ↔ (csdBits p 127 126 = 0 → csdBytesV1 p < 2 ^ 32) := by
  have hone : csdStructure p = 0x01 ↔ csdBits p 127 126 = 1 := by
    rw [← csdStructure_eq, UInt8.ext_iff]
    rfl
  have hbytes : (csdCSizeV1 p + 1) <<< csdShift p = csdBytesV1 p := by
    rw [csdShift_eq, csdCSizeV1_eq, Nat.shiftLeft_eq, csdBytesV1, Nat.mul_assoc, ← Nat.pow_add]
    congr 2
    omega
  have hmax : csdBytesV1 p / 512 < 2 ^ 32 := by
    have hsize : csdBits p 73 62 + 1 ≤ 2 ^ 12 := Nat.mod_lt _ (by decide)
    have hmult : 2 ^ (csdBits p 49 47 + 2) ≤ 2 ^ 9 :=
      Nat.pow_le_pow_right (by decide) (Nat.succ_le_succ (Nat.succ_le_of_lt (Nat.mod_lt _ (by decide))))
    have hlen : 2 ^ csdBits p 83 80 ≤ 2 ^ 15 := Nat.pow_le_pow_right (by decide)
        (Nat.le_of_lt_succ (Nat.mod_lt _ (by decide)))
    have hall : csdBytesV1 p ≤ 2 ^ 12 * 2 ^ 9 * 2 ^ 15 := Nat.mul_le_mul (Nat.mul_le_mul hsize hmult) hlen
    omega
  simp only [Decoded, csdBlkCount, csdCapacity, hone, hbytes]
  by_cases h0 : csdBits p 127 126 = 0
  · simp only [h0, Nat.zero_ne_one, if_false, if_true, Option.some.injEq, forall_eq', forall_const]
    exact ⟨fun h => (blocks_eq_iff _).mp (h hmax), fun h _ => (blocks_eq_iff _).mpr h⟩
  · by_cases h1 : csdBits p 127 126 = 1
    · simp only [h1, Nat.one_ne_zero, if_false, if_true, Option.some.injEq, forall_eq', false_imp_iff, iff_true]
      intro h
      rw [csdCSize_eq, Nat.mod_eq_of_lt h]
    · simp only [h0, h1, if_false, false_imp_iff, iff_true]
      intro cap hcap
      cases hcap

/-- **`get_info` decodes the capacity exactly when** the card is not of structure 0, or its
bytes can be counted in 32 bits. -/
theorem getInfo_decodes (card : Card) (s : Mmc) (h : (getInfo card s).1 = true) :
    Decoded (csdOf (getInfo card s).2.blocks) (getInfo card s).2.blkCount ↔
      (csdBits (csdOf (getInfo card s).2.blocks) 127 126 = 0 → csdBytesV1 (csdOf (getInfo card s).2.blocks) <
        2 ^ 32) := by
  obtain ⟨csd, cid, -, hblocks, hcount⟩ := getInfo_ok h
  have hcsd : csdOf (getInfo card s).2.blocks = csd := by rw [hblocks]; rfl
  rw [hcsd, hcount]
  exact csdBlkCount_decoded csd

/-- A card that answers with a CID register of zeros and this CSD register. -/
def infoCard (csd : List UInt8) : Card := fun i =>
  ([0xff, 0x00, 0xfe] ++ List.replicate 18 0 ++ [0xff, 0x00, 0xfe] ++ csd).getD i 0xff

theorem getInfo_decodes_narrow : Decoded (csdOf (getInfo (infoCard narrowCsd) boot).2.blocks)
    (getInfo (infoCard narrowCsd) boot).2.blkCount ↔
      (csdBits (csdOf (getInfo (infoCard narrowCsd) boot).2.blocks) 127 126 = 0 →
        csdBytesV1 (csdOf (getInfo (infoCard narrowCsd) boot).2.blocks) < 2 ^ 32) :=
  getInfo_decodes (infoCard narrowCsd) boot (by decide +kernel)

/-- A CSD register of structure 0 with blocks of 2048 bytes and the largest size: 4 GiB. -/
def fullCsd : List UInt8 := [0, 0, 0, 0, 0, 11, 3, 0xff, 0xc0, 3, 0x80, 0, 0, 0, 0, 0, 0, 0]

/-- A card of 2^23 blocks gets the block count 0. -/
theorem getInfo_wraps : (getInfo (infoCard fullCsd) boot).1 = true ∧
    csdOf (getInfo (infoCard fullCsd) boot).2.blocks = fullCsd ∧ csdCapacity fullCsd = some (2 ^ 23) ∧
    (getInfo (infoCard fullCsd) boot).2.blkCount = 0 ∧
    ¬ Decoded (csdOf (getInfo (infoCard fullCsd) boot).2.blocks) (getInfo (infoCard fullCsd) boot).2.blkCount := by
  have hcsd : csdOf (getInfo (infoCard fullCsd) boot).2.blocks = fullCsd := by decide +kernel
  have hcount : (getInfo (infoCard fullCsd) boot).2.blkCount = 0 := by decide +kernel
  have hcap : csdCapacity fullCsd = some (2 ^ 23) := by decide +kernel
  refine ⟨by decide +kernel, hcsd, hcap, hcount, fun h => ?_⟩
  rw [hcsd, hcount] at h
  exact absurd (h _ hcap (by decide)) (by decide)

/-! ## The answer to a write -/

/-- The first answer other than `0xff` among `n` bytes of the card, and how many bytes it takes to find it. -/
def answer (card : Card) : Nat → Nat → UInt8
  | _, 0 => 0xff
  | i, n + 1 => if card i = 0xff then answer card (i + 1) n else card i

def answerLen (card : Card) : Nat → Nat → Nat
  | _, 0 => 0
  | i, n + 1 => if card i = 0xff then answerLen card (i + 1) n + 1 else 1

theorem recResponse_eq (n : Nat) (s : Mmc) :
    recResponse card n s = (answer card s.rx n, { s with rx := s.rx + answerLen card s.rx n }) := by
  induction n generalizing s with
  | zero => rfl
  | succ n ih =>
    rw [recResponse, spi_bind, answer, answerLen]
    by_cases h : card s.rx = 0xff
    · have hstep : (spiRecByte card s).1 = 0xff := h
      rw [if_pos hstep, if_pos h, if_pos h, ih]
      have hpos : s.rx + 1 + answerLen card (s.rx + 1) n = s.rx + (answerLen card (s.rx + 1) n + 1) := by omega
      simp only [spiRecByte, hpos]
    · have hstep : ¬ (spiRecByte card s).1 = 0xff := h
      rw [if_neg hstep, if_neg h, if_neg h]
      rfl

/-- The answer to a command sent now, and the byte of the card behind it. -/
def commandAnswer (card : Card) (s : Mmc) : UInt8 := answer card (s.rx + 1) 10
def behindCommand (card : Card) (s : Mmc) : Nat := s.rx + 1 + answerLen card (s.rx + 1) 10

theorem sendCommand_eq (command : UInt8) (arg : Nat) (s : Mmc) :
    (sendCommand card command arg s).1 = commandAnswer card s ∧
      (sendCommand card command arg s).2.rx = behindCommand card s ∧
      (sendCommand card command arg s).2.tfsLastError = s.tfsLastError := by
  have h : sendCommand card command arg s =
      recResponse card 10 { s with rx := s.rx + 1, sent := s.sent ++ [0x40 ||| command] ++
        [UInt8.ofNat (arg >>> 24)] ++ [UInt8.ofNat (arg >>> 16)] ++ [UInt8.ofNat (arg >>> 8)] ++
        [UInt8.ofNat (arg >>> 0)] ++ [commandCrc command] } := rfl
  rw [h, recResponse_eq]
  exact ⟨rfl, rfl, rfl⟩

/-- `wait_byte` finds the value among `n + 1` bytes, or it is not there; no error is set. -/
theorem waitByteLoop_eq (val : UInt8) (n : Nat) (s : Mmc) :
    ((waitByteLoop card val n s).1 = true ↔ ∃ k ≤ n, card (s.rx + k) = val) ∧
      (waitByteLoop card val n s).2.tfsLastError = s.tfsLastError := by
  induction n generalizing s with
  | zero =>
    have h : (waitByteLoop card val 0 s).1 = decide (card s.rx = val) := rfl
    refine ⟨?_, rfl⟩
    rw [h, decide_eq_true_iff]
    refine ⟨fun h => ⟨0, Nat.le_refl 0, h⟩, ?_⟩
    rintro ⟨k, hk, h⟩
    obtain rfl := Nat.le_zero.mp hk
    exact h
  | succ n ih =>
    rw [waitByteLoop, spi_bind]
    by_cases h : card s.rx = val
    · have hstep : (spiRecByte card s).1 = val := h
      rw [if_pos hstep]
      exact ⟨iff_of_true rfl ⟨0, Nat.zero_le _, h⟩, rfl⟩
    · have hstep : ¬ (spiRecByte card s).1 = val := h
      obtain ⟨h1, h2⟩ := ih (spiRecByte card s).2
      rw [if_neg hstep]
      refine ⟨h1.trans ⟨?_, ?_⟩, h2⟩
      · rintro ⟨k, hk, hb⟩
        refine ⟨k + 1, by omega, ?_⟩
        rw [← hb]
        exact congrArg card (by simp only [spiRecByte]; omega)
      · rintro ⟨k, hk, hb⟩
        obtain ⟨j, rfl⟩ : ∃ j, k = j + 1 := ⟨k - 1, by
          rcases Nat.eq_zero_or_pos k with rfl | hpos
          · exact absurd hb h
          · omega⟩
        refine ⟨j, by omega, ?_⟩
        rw [← hb]
        exact congrArg card (by simp only [spiRecByte]; omega)

/-- The card's byte behind the two CRC bytes: one dummy byte is taken before the data is sent. -/
def dataResponse (card : Card) (s : Mmc) : UInt8 := card (behindCommand card s + 1)

/-- The token of a block the card accepted: `xxx00101`. -/
def accepted (token : UInt8) : Prop := token &&& 0x1f = 0x05

/-- A write that leaves no error was accepted by the card. -/
def NoSilentLoss (card : Card) (s : Mmc) (blkno : Nat) (data : Block) : Prop :=
  (driveWriteBlock card blkno data s).2.tfsLastError ≠ .io → accepted (dataResponse card s)

/-- The card refuses the command, or it stays busy for as long as the driver waits. -/
def GivesUp (card : Card) (s : Mmc) : Prop :=
  commandAnswer card s ≠ 0 ∨ ∀ k ≤ timeout, card (behindCommand card s + 1 + k) ≠ 0xff

theorem driveWriteBlock_io (blkno : Nat) (data : Block) (hs : s.tfsLastError ≠ .io) :
    (driveWriteBlock card blkno data s).2.tfsLastError = .io ↔ GivesUp card s := by
  obtain ⟨hresp, hrx, herr⟩ := sendCommand_eq cmdWriteSingleBlock (s.address blkno) s
  have hrun : driveWriteBlock card blkno data s =
      (if (sendCommand card cmdWriteSingleBlock (s.address blkno) s).1 ≠ 0 then ioError
      else do
        let _ ← spiRecByte card
        spiSendByte 0xfe
        spiWriteBlock data blocksize
        spiSendByte 0xff
        spiSendByte 0xff
        if ← waitByte card 0xff then pure () else ioError : Spi Unit)
        (sendCommand card cmdWriteSingleBlock (s.address blkno) s).2 := rfl
  rw [hrun, hresp, GivesUp]
  generalize (sendCommand card cmdWriteSingleBlock (s.address blkno) s).2 = t at hrx herr ⊢
  by_cases h0 : commandAnswer card s = 0
  · rw [if_neg (not_not_intro h0)]
    have hwait : ∃ u : Mmc, u.rx = t.rx + 1 ∧ u.tfsLastError = t.tfsLastError ∧ ((do
        let _ ← spiRecByte card
        spiSendByte 0xfe
        spiWriteBlock data blocksize
        spiSendByte 0xff
        spiSendByte 0xff
        if ← waitByte card 0xff then pure () else ioError : Spi Unit) t).2 =
        ((if (waitByte card 0xff u).1 = true then pure () else ioError : Spi Unit) (waitByte card 0xff u).2).2 :=
      ⟨{ t with
        rx := t.rx + 1
        sent := t.sent ++ [0xfe] ++ data.slice 0 blocksize ++ [0xff] ++ [0xff] }, rfl, rfl, rfl⟩
    obtain ⟨u, hu, huerr, hend⟩ := hwait
    obtain ⟨hfound, hkeep⟩ := waitByteLoop_eq 0xff timeout u
    rw [hend, waitByte]
    rw [hu, hrx] at hfound
    by_cases hw : (waitByteLoop card 0xff timeout u).1 = true
    · rw [if_pos hw]
      obtain ⟨k, hk, hb⟩ := hfound.mp hw
      refine iff_of_false ?_ fun h => h.elim (absurd h0) fun h => h k hk hb
      show (waitByteLoop card 0xff timeout u).2.tfsLastError ≠ _
      rw [hkeep, huerr, herr]
      exact hs
    · rw [if_neg hw]
      exact iff_of_true rfl (.inr fun k hk hb => hw (hfound.mpr ⟨k, hk, hb⟩))
  · rw [if_pos h0]
    exact iff_of_true rfl (.inl h0)

/-- **A write that leaves no error was accepted exactly when** the card accepted the
block, or gave no chance to send it or to end it: the driver never looks at the token. -/
theorem driveWriteBlock_noSilentLoss (card : Card) (s : Mmc) (blkno : Nat) (data : Block) (hs : s.tfsLastError ≠ .io) :
    NoSilentLoss card s blkno data ↔ accepted (dataResponse card s) ∨ GivesUp card s := by
  rw [NoSilentLoss, Ne, driveWriteBlock_io blkno data hs]
  refine ⟨fun h => ?_, fun h hgives => h.resolve_right hgives⟩
  by_cases hgives : GivesUp card s
  · exact .inr hgives
  · exact .inl (h hgives)

/-- A card that takes every command and answers this token to a block. -/
def tokenCard (token : UInt8) : Card := fun i => [0xff, 0x00, 0xff, token].getD i 0xff

theorem driveWriteBlock_noSilentLoss_accepts : NoSilentLoss (tokenCard 0xe5) boot 7 Buf.zero ↔
    accepted (dataResponse (tokenCard 0xe5) boot) ∨ GivesUp (tokenCard 0xe5) boot :=
  driveWriteBlock_noSilentLoss (tokenCard 0xe5) boot 7 Buf.zero (by decide)

/-- The card rejects the block with a CRC error, and the driver reports no error. -/
theorem driveWriteBlock_rejected : dataResponse (tokenCard 0xeb) boot = 0xeb ∧
    (driveWriteBlock (tokenCard 0xeb) 7 Buf.zero boot).2.tfsLastError = .ok ∧
    ¬ NoSilentLoss (tokenCard 0xeb) boot 7 Buf.zero := by
  have htoken : dataResponse (tokenCard 0xeb) boot = 0xeb := by decide +kernel
  have herr : (driveWriteBlock (tokenCard 0xeb) 7 Buf.zero boot).2.tfsLastError = .ok := by decide +kernel
  refine ⟨htoken, herr, fun h => ?_⟩
  have haccepted := h (by rw [herr]; decide)
  rw [accepted, htoken] at haccepted
  exact absurd haccepted (by decide)

end Mmc

end TinyFs
