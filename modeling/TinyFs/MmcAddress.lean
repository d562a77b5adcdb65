/-
Which argument a block number is sent with. `drive_init` takes the addressing
mode from the version check and the OCR register, and the number of blocks
from the CSD register; the two agree only when the card is one that can be
addressed by bytes, or is addressed by blocks.
-/
import TinyFs.Model.Mmc

namespace TinyFs

open Bytes

namespace Mmc

variable {card : Card} {s s' s'' : Mmc} {p q : Spi Bool}

/-! ## What a conversation leaves alone -/

/-- The driver has only talked to the card since `s`: what it knows of the card
and the blocks it received are the same. -/
structure Talk (s s' : Mmc) : Prop where
  type : s'.type = s.type
  blkCount : s'.blkCount = s.blkCount
  blocks : s'.blocks = s.blocks
  sent : ∃ bytes, s'.sent = s.sent ++ bytes

theorem Talk.refl (s : Mmc) : Talk s s := ⟨rfl, rfl, rfl, [], (List.append_nil _).symm⟩

theorem Talk.trans (h : Talk s s') (h' : Talk s' s'') : Talk s s'' := by
  obtain ⟨b, hb⟩ := h.sent
  obtain ⟨b', hb'⟩ := h'.sent
  refine ⟨h'.type.trans h.type, h'.blkCount.trans h.blkCount, h'.blocks.trans h.blocks, b ++ b', ?_⟩
  rw [hb', hb, List.append_assoc]

theorem spi_bind {α β : Type} (x : Spi α) (f : α → Spi β) (s : Mmc) : (x >>= f) s = f (x s).1 (x s).2 := rfl

theorem spiRecByte_talk (card : Card) (s : Mmc) :
    Talk s (spiRecByte card s).2 := ⟨rfl, rfl, rfl, [], (List.append_nil _).symm⟩

theorem recResponse_talk (n : Nat) (s : Mmc) :
    Talk s (recResponse card n s).2 ∧ (recResponse card n s).2.sent = s.sent := by
  induction n generalizing s with
  | zero => exact ⟨Talk.refl s, rfl⟩
  | succ n ih =>
    rw [recResponse, spi_bind]
    by_cases h : (spiRecByte card s).1 = 0xff
    · rw [if_pos h]
      obtain ⟨h1, h2⟩ := ih (spiRecByte card s).2
      exact ⟨(spiRecByte_talk card s).trans h1, h2⟩
    · rw [if_neg h]
      exact ⟨spiRecByte_talk card s, rfl⟩

/-- The four bytes of an argument, the highest first. -/
def argBytes (arg : Nat) : List UInt8 :=
  [UInt8.ofNat (arg >>> 24), UInt8.ofNat (arg >>> 16), UInt8.ofNat (arg >>> 8), UInt8.ofNat (arg >>> 0)]

/-- The bytes of a command. -/
def frame (command : UInt8) (arg : Nat) : List UInt8 := (0x40 ||| command) :: argBytes arg ++ [commandCrc command]

theorem sendCommand_sent (command : UInt8) (arg : Nat) (s : Mmc) :
    (sendCommand card command arg s).2.sent = s.sent ++ frame command arg := by
  have h : (sendCommand card command arg s).2 =
      (recResponse card 10 { s with rx := s.rx + 1, sent := s.sent ++ [0x40 ||| command] ++
        [UInt8.ofNat (arg >>> 24)] ++ [UInt8.ofNat (arg >>> 16)] ++ [UInt8.ofNat (arg >>> 8)] ++
        [UInt8.ofNat (arg >>> 0)] ++ [commandCrc command] }).2 := rfl
  rw [h, (recResponse_talk 10 _).2]
  simp only [frame, argBytes, List.append_assoc, List.cons_append, List.nil_append]

theorem sendCommand_talk (command : UInt8) (arg : Nat) (s : Mmc) : Talk s (sendCommand card command arg s).2 := by
  have h := (@recResponse_talk card 10 { s with rx := s.rx + 1, sent := s.sent ++ [0x40 ||| command] ++
    [UInt8.ofNat (arg >>> 24)] ++ [UInt8.ofNat (arg >>> 16)] ++ [UInt8.ofNat (arg >>> 8)] ++
    [UInt8.ofNat (arg >>> 0)] ++ [commandCrc command] }).1
  exact ⟨h.type, h.blkCount, h.blocks, _, sendCommand_sent command arg s⟩

theorem waitByteLoop_talk (val : UInt8) (n : Nat) (s : Mmc) : Talk s (waitByteLoop card val n s).2 := by
  induction n generalizing s with
  | zero => exact spiRecByte_talk card s
  | succ n ih =>
    rw [waitByteLoop, spi_bind]
    by_cases h : (spiRecByte card s).1 = val
    · rw [if_pos h]
      exact spiRecByte_talk card s
    · rw [if_neg h]
      exact (spiRecByte_talk card s).trans (ih _)

theorem resetLoop_talk (n : Nat) (s : Mmc) : Talk s (resetLoop card n s).2 := by
  induction n generalizing s with
  | zero => exact sendCommand_talk _ _ s
  | succ n ih =>
    rw [resetLoop, spi_bind]
    by_cases h : (sendCommand card cmdGoIdleState 0 s).1 = stateIdleState
    · rw [if_pos h]
      exact sendCommand_talk _ _ s
    · rw [if_neg h]
      exact (sendCommand_talk _ _ s).trans (ih _)

theorem sendOpCond_talk (type : DriveType) (s : Mmc) : Talk s (sendOpCond card type s).2 := by
  rw [sendOpCond]
  split
  · exact sendCommand_talk _ _ s
  · rw [spi_bind]
    split
    · exact (sendCommand_talk _ _ s).trans (sendCommand_talk _ _ _)
    · exact (sendCommand_talk _ _ s).trans (sendCommand_talk _ _ _)

theorem readyLoop_talk (n : Nat) (s : Mmc) : Talk s (readyLoop card n s).2 := by
  induction n generalizing s with
  | zero => exact sendOpCond_talk s.type s
  | succ n ih =>
    have h : (readyLoop card (n + 1) s).2 =
        ((if (sendOpCond card s.type s).1 &&& stateIdleState = 0 then (pure true : Spi Bool)
          else readyLoop card n) (sendOpCond card s.type s).2).2 := rfl
    rw [h]
    split
    · exact sendOpCond_talk s.type s
    · exact (sendOpCond_talk s.type s).trans (ih _)

/-! ## Start-up -/

/-- Neither step failed. -/
theorem orFail_true : (orFail p q s).1 = true ↔ (p s).1 = true ∧ (q (p s).2).1 = true := by
  rw [orFail, spi_bind]
  cases h : (p s).1 with
  | false => simp only [Bool.false_eq_true, if_false, false_and, iff_false]; exact Bool.false_ne_true
  | true => simp only [if_true, true_and]

theorem orFail_state (h : (p s).1 = true) : (orFail p q s).2 = (q (p s).2).2 := by
  rw [orFail, spi_bind, if_pos h]

theorem commandOk_talk (command : UInt8) (arg : Nat) (s : Mmc) : Talk s (commandOk card command arg s).2 :=
  sendCommand_talk command arg s

/-- A register read: its 18 bytes are the latest block, and are in `tmp_buf`. -/
structure Received (s s' : Mmc) (n : Nat) (data : List UInt8) : Prop where
  type : s'.type = s.type
  blkCount : s'.blkCount = s.blkCount
  blocks : s'.blocks = data :: s.blocks
  tmpBuf : ∀ i, i < n → s'.tmpBuf.getD i 0 = data.getD i 0

theorem readTmpBuf_received (len : Nat) (s : Mmc) :
    ∃ data, Received s (readTmpBuf card len s).2 len data := by
  refine ⟨(List.range len).map fun k => card (s.rx + k), rfl, rfl, rfl, ?_⟩
  intro i hi
  have hlen : i < ((List.range len).map fun k => card (s.rx + k)).length := by simpa using hi
  exact List.getD_append _ _ _ _ hlen

theorem Talk.received {n : Nat} {data : List UInt8} (h : Talk s s') (h' : Received s' s'' n data) :
    Received s s'' n data :=
  ⟨h'.type.trans h.type, h'.blkCount.trans h.blkCount, by rw [h'.blocks, h.blocks], h'.tmpBuf⟩

theorem readRegister_ok {command : UInt8} (h : (readRegister card command s).1 = true) :
    ∃ data, Received s (readRegister card command s).2 18 data := by
  rw [readRegister] at h ⊢
  obtain ⟨h1, h2⟩ := orFail_true.mp h
  obtain ⟨h3, _⟩ := orFail_true.mp h2
  rw [orFail_state h1, orFail_state h3]
  obtain ⟨data, hdata⟩ := @readTmpBuf_received card 18
    (waitByte card 0xfe (commandOk card command 0 s).2).2
  exact ⟨data, ((commandOk_talk command 0 s).trans (waitByteLoop_talk 0xfe timeout _)).received hdata⟩

/-- The block count is made of the first 18 bytes. -/
theorem csdBlkCount_congr {p p' : List UInt8} (h : ∀ i, i < 18 → p.getD i 0 = p'.getD i 0) :
    csdBlkCount p = csdBlkCount p' := by
  unfold csdBlkCount csdStructure csdCSize csdCSizeV1 csdShift
  rw [h 0 (by omega), h 5 (by omega), h 6 (by omega), h 7 (by omega), h 8 (by omega), h 9 (by omega),
    h 10 (by omega)]

theorem getInfo_ok (h : (getInfo card s).1 = true) :
    ∃ csd cid, (getInfo card s).2.type = s.type ∧ (getInfo card s).2.blocks = csd :: cid :: s.blocks ∧
      (getInfo card s).2.blkCount = csdBlkCount csd := by
  rw [getInfo] at h ⊢
  obtain ⟨h1, h2⟩ := orFail_true.mp h
  rw [orFail_state h1]
  obtain ⟨cid, hcid⟩ := readRegister_ok h1
  rw [spi_bind] at h2 ⊢
  obtain ⟨h3, _⟩ := orFail_true.mp h2
  rw [orFail_state h3]
  obtain ⟨csd, hcsd⟩ := readRegister_ok h3
  refine ⟨csd, cid, hcsd.type.trans hcid.type, hcsd.blocks.trans (congrArg _ hcid.blocks), ?_⟩
  exact csdBlkCount_congr hcsd.tmpBuf

/-- The version check: a card that knows the command has sent a block. -/
theorem checkVersion_ok (h : (checkVersion card s).1 = true) (hs : s.type = .mmc) :
    (∃ data, (checkVersion card s).2.type = .sdv2 ∧ (checkVersion card s).2.blocks = data :: s.blocks) ∨
      ((checkVersion card s).2.type ≠ .sdv2 ∧ (checkVersion card s).2.type ≠ .sdhc ∧
        (checkVersion card s).2.blocks = s.blocks) := by
  have hcmd := @sendCommand_talk card cmdSendIfCond (0x100 ||| 0xaa) s
  rw [checkVersion, spi_bind] at h ⊢
  generalize hs₁ : (sendCommand card cmdSendIfCond (0x100 ||| 0xaa) s).2 = s₁ at h hcmd ⊢
  by_cases hill : (sendCommand card cmdSendIfCond (0x100 ||| 0xaa) s).1 &&& stateIllCommand = 0
  · left
    rw [if_pos hill] at h ⊢
    obtain ⟨data, hdata⟩ := @readTmpBuf_received card 4 s₁
    rw [spi_bind] at h ⊢
    generalize hs₂ : (readTmpBuf card 4 s₁).2 = s₂ at h hdata ⊢
    simp only [spi_bind] at h ⊢
    split at h
    · exact absurd h Bool.false_ne_true
    · rename_i hv
      rw [if_neg hv]
      split at h
      · exact absurd h Bool.false_ne_true
      · rename_i hp
        rw [if_neg hp]
        exact ⟨data, rfl, hdata.blocks.trans (congrArg _ hcmd.blocks)⟩
  · right
    rw [if_neg hill] at h ⊢
    have happ := hcmd.trans (@sendCommand_talk card cmdApp 0 s₁)
    have hop := happ.trans (@sendCommand_talk card cmdSdSendOpCond 0 _)
    simp only [spi_bind] at h ⊢
    split
    · exact ⟨DriveType.noConfusion, DriveType.noConfusion, hop.blocks⟩
    · refine ⟨?_, ?_, hop.blocks⟩
      · show (sendCommand card cmdSdSendOpCond 0 _).2.type ≠ _
        rw [hop.type, hs]
        exact DriveType.noConfusion
      · show (sendCommand card cmdSdSendOpCond 0 _).2.type ≠ _
        rw [hop.type, hs]
        exact DriveType.noConfusion

/-- The OCR register is read only from a card that knows the version check. -/
theorem readOcr_ok (h : (readOcr card s).1 = true) :
    (readOcr card s).2.blkCount = s.blkCount ∧
      ((s.type ≠ .sdv2 ∧ (readOcr card s).2.type = s.type ∧ (readOcr card s).2.blocks = s.blocks) ∨
        ∃ ocr, s.type = .sdv2 ∧ (readOcr card s).2.blocks = ocr :: s.blocks ∧
          (readOcr card s).2.type = if ocr.getD 0 0 &&& 0x40 ≠ 0 then .sdhc else .sdv2) := by
  have heq : readOcr card s = if s.type = .sdv2 then
      orFail (commandOk card cmdReadOcr 0) (do
        readTmpBuf card 4
        let ocr ← tmpByte 0
        if ocr &&& 0x40 ≠ 0 then setType .sdhc
        pure true) s
      else (true, s) := by
    show (if s.type = .sdv2 then _ else _ : Spi Bool) s = _
    split
    · rfl
    · rfl
  rw [heq] at h ⊢
  by_cases hv2 : s.type = .sdv2
  · rw [if_pos hv2] at h ⊢
    obtain ⟨h1, _⟩ := orFail_true.mp h
    rw [orFail_state h1]
    have htalk := @commandOk_talk card cmdReadOcr 0 s
    generalize (commandOk card cmdReadOcr 0 s).2 = s₁ at htalk ⊢
    obtain ⟨ocr, hocr⟩ := @readTmpBuf_received card 4 s₁
    rw [spi_bind]
    generalize (readTmpBuf card 4 s₁).2 = s₂ at hocr ⊢
    have h0 : (tmpByte 0 s₂).1 = ocr.getD 0 0 := hocr.tmpBuf 0 (by omega)
    rw [spi_bind, h0]
    beta_reduce
    have hocr' := htalk.received hocr
    by_cases hc : ocr.getD 0 0 &&& 0x40 ≠ 0
    · rw [if_pos hc]
      exact ⟨hocr'.blkCount, .inr ⟨ocr, hv2, hocr'.blocks, (if_pos hc).symm⟩⟩
    · rw [if_neg hc]
      exact ⟨hocr'.blkCount, .inr ⟨ocr, hv2, hocr'.blocks, hocr'.type.trans (hv2.trans (if_neg hc).symm)⟩⟩
  · rw [if_neg hv2]
    exact ⟨rfl, .inl ⟨hv2, rfl, rfl⟩⟩

/-- The CSD register, the last block a card sends during start-up. -/
def csdOf (blocks : List (List UInt8)) : List UInt8 := blocks.headD []

/-- The card sent an OCR register, the block in front of CID and CSD, and it has
the capacity bit. -/
def HighCapacity (blocks : List (List UInt8)) : Prop := (blocks.getD 2 []).getD 0 0 &&& 0x40 ≠ 0

/-- What a successful start-up knows of the card, in terms of the blocks it received. -/
theorem identify_ok (hs : s.blocks = []) (ht : s.type = .mmc) (h : (identify card s).1 = true) :
    (identify card s).2.blkCount = csdBlkCount (csdOf (identify card s).2.blocks) ∧
      ((identify card s).2.type = .sdhc ↔ HighCapacity (identify card s).2.blocks) := by
  rw [identify] at h ⊢
  obtain ⟨h1, h⟩ := orFail_true.mp h
  rw [orFail_state h1]
  have hreset := @resetLoop_talk card 0x1ff s
  generalize (resetLoop card 0x1ff s).2 = s₁ at h hreset ⊢
  obtain ⟨h2, h⟩ := orFail_true.mp h
  rw [orFail_state h2]
  have hversion := checkVersion_ok h2 (hreset.type.trans ht)
  generalize (checkVersion card s₁).2 = s₂ at h hversion ⊢
  obtain ⟨h3, h⟩ := orFail_true.mp h
  rw [orFail_state h3]
  have hready := @readyLoop_talk card timeout s₂
  generalize (readyLoop card timeout s₂).2 = s₃ at h hready ⊢
  obtain ⟨h4, h⟩ := orFail_true.mp h
  rw [orFail_state h4]
  obtain ⟨_, hocr⟩ := readOcr_ok h4
  generalize (readOcr card s₃).2 = s₄ at h hocr ⊢
  obtain ⟨h5, h⟩ := orFail_true.mp h
  rw [orFail_state h5]
  have hblocklen := @commandOk_talk card cmdSetBlocklen blocksize s₄
  generalize (commandOk card cmdSetBlocklen blocksize s₄).2 = s₅ at h hblocklen ⊢
  obtain ⟨csd, cid, htype, hblocks, hcount⟩ := getInfo_ok h
  rw [hcount, hblocks, htype, hblocklen.type, hblocklen.blocks]
  refine ⟨rfl, ?_⟩
  have hempty : s₁.blocks = [] := hreset.blocks.trans hs
  rcases hversion with ⟨data, hv2, hdata⟩ | ⟨hv2, hhc, hnone⟩
  · -- the card answered the version check: its OCR decides
    rcases hocr with ⟨hno, _⟩ | ⟨ocr, _, hocr, htype⟩
    · exact absurd (hready.type.trans hv2) hno
    · rw [htype, hocr]
      show _ ↔ ocr.getD 0 0 &&& 0x40 ≠ 0
      split
      · exact ⟨fun _ => by assumption, fun _ => rfl⟩
      · exact ⟨fun h => DriveType.noConfusion h, fun h => absurd h (by assumption)⟩
  · -- no OCR is read, and the card is never taken for SDHC
    rcases hocr with ⟨_, htype, hsame⟩ | ⟨_, hyes, _⟩
    · rw [htype, hsame, hready.type, hready.blocks, hnone, hempty]
      exact ⟨fun h => absurd h hhc, fun h => absurd (show (0 : UInt8) &&& 0x40 = 0 by decide) h⟩
    · exact absurd (hready.type.symm.trans hyes) hv2

theorem driveInit_eq (card : Card) (s : Mmc) :
    (driveInit card s).2 = { (identify card { s with type := .mmc, selected := true }).2 with
      selected := false
      tfsLastError := if (identify card { s with type := .mmc, selected := true }).1 then .ok else .noDev } := by
  rw [driveInit, spi_bind, spi_bind, spi_bind]
  rfl

theorem driveInit_ok (hs : s.blocks = []) (h : (driveInit card s).2.tfsLastError = .ok) :
    (driveInit card s).2.blkCount = csdBlkCount (csdOf (driveInit card s).2.blocks) ∧
      ((driveInit card s).2.type = .sdhc ↔ HighCapacity (driveInit card s).2.blocks) := by
  rw [driveInit_eq] at h ⊢
  have hok : (identify card { s with type := .mmc, selected := true }).1 = true := by
    by_contra hno
    rw [if_neg hno] at h
    exact Err.noConfusion h
  exact identify_ok (s := { s with type := .mmc, selected := true }) hs rfl hok

/-! ## The argument of a transfer -/

/-- A transfer of one block. -/
inductive Transfer
  | read (blkno : Nat) (data : Block)
  | write (blkno : Nat) (data : Block)

namespace Transfer

def blkno : Transfer → Nat
  | .read blkno _ => blkno
  | .write blkno _ => blkno

def exec (card : Card) : Transfer → Spi Unit
  | .read blkno data => do
    let _ ← driveReadBlock card blkno data
    pure ()
  | .write blkno data => driveWriteBlock card blkno data

/-- The bytes a transfer sends. -/
def sends (card : Card) (s : Mmc) (t : Transfer) : List UInt8 := (t.exec card s).2.sent.drop s.sent.length

/-- The argument of the command a transfer starts with: the four bytes behind the command byte. -/
def arg (card : Card) (s : Mmc) (t : Transfer) : List UInt8 := ((t.sends card s).drop 1).take 4

/-- The state after a list of transfers. -/
def run (card : Card) (s : Mmc) (ts : List Transfer) : Mmc := ts.foldl (fun s t => (t.exec card s).2) s

end Transfer

/-! A transfer is a command and steps that send more. -/

/-- Steps that leave the type of the card, and only send more bytes. -/
def Sending {α : Type} (p : Spi α) : Prop :=
  ∀ s, (p s).2.type = s.type ∧ ∃ more, (p s).2.sent = s.sent ++ more

theorem Sending.pure {α : Type} (a : α) : Sending (pure a) := fun s => ⟨rfl, [], (List.append_nil s.sent).symm⟩

theorem Sending.bind {α β : Type} {p : Spi α} {f : α → Spi β} (hp : Sending p) (hf : ∀ a, Sending (f a)) :
    Sending (p >>= f) := by
  intro s
  obtain ⟨ht, b, hb⟩ := hp s
  obtain ⟨ht', b', hb'⟩ := hf (p s).1 (p s).2
  exact ⟨ht'.trans ht, b ++ b', by rw [spi_bind, hb', hb, List.append_assoc]⟩

theorem Sending.ite {α : Type} {c : Prop} [Decidable c] {p q : Spi α} (hp : Sending p) (hq : Sending q) :
    Sending (if c then p else q) := by
  split
  · exact hp
  · exact hq

theorem Sending.of_talk {α : Type} {p : Spi α} (h : ∀ s, Talk s (p s).2) : Sending p :=
  fun s => ⟨(h s).type, (h s).sent⟩

theorem ioError_sending : Sending ioError := fun s => ⟨rfl, [], (List.append_nil s.sent).symm⟩

theorem spiSendByte_sending (b : UInt8) : Sending (spiSendByte b) := fun _ => ⟨rfl, [b], rfl⟩

theorem spiReadBlock_sending (len : Nat) : Sending (spiReadBlock card len) :=
  fun s => ⟨rfl, [], (List.append_nil s.sent).symm⟩

theorem readTmpBuf_sending (len : Nat) : Sending (readTmpBuf card len) :=
  fun s => ⟨rfl, [], (List.append_nil s.sent).symm⟩

theorem waitByte_sending (val : UInt8) : Sending (waitByte card val) := .of_talk (waitByteLoop_talk val timeout)

/-- What a command and the steps behind it send. -/
theorem Sending.behind {α : Type} {k : UInt8 → Spi α} (hk : ∀ resp, Sending (k resp)) (command : UInt8) (arg : Nat)
    (s : Mmc) : ((sendCommand card command arg >>= k) s).2.type = s.type ∧
      ∃ more, ((sendCommand card command arg >>= k) s).2.sent = s.sent ++ (frame command arg ++ more) := by
  have hcmd := @sendCommand_talk card command arg s
  obtain ⟨ht, more, hmore⟩ := hk (sendCommand card command arg s).1 (sendCommand card command arg s).2
  refine ⟨ht.trans hcmd.type, more, ?_⟩
  rw [spi_bind, hmore, sendCommand_sent, List.append_assoc]

/-- A transfer starts with a command for the block, and leaves the type of the card. -/
theorem Transfer.exec_sent (card : Card) (s : Mmc) (t : Transfer) :
    (t.exec card s).2.type = s.type ∧
      ∃ command more, (t.exec card s).2.sent = s.sent ++ (frame command (s.address t.blkno) ++ more) := by
  cases t with
  | read blkno data =>
    have h := @Sending.behind card _ (fun resp => if resp ≠ 0 then do
        ioError
        pure data
      else do
        if ← waitByte card 0xfe then
          let bytes ← spiReadBlock card blocksize
          readTmpBuf card 2
          pure (data.fill 0 (fun k => bytes.getD k 0) blocksize)
        else
          ioError
          pure data) ?_ cmdReadSingleBlock (s.address blkno) s
    · obtain ⟨htype, more, hmore⟩ := h
      exact ⟨htype, cmdReadSingleBlock, more, hmore⟩
    · intro resp
      refine .ite (ioError_sending.bind fun _ => .pure data) ((waitByte_sending 0xfe).bind fun ok => .ite ?_ ?_)
      · exact (spiReadBlock_sending blocksize).bind fun _ => (readTmpBuf_sending 2).bind fun _ => .pure _
      · exact ioError_sending.bind fun _ => .pure data
  | write blkno data =>
    have h := @Sending.behind card _ (fun resp => if resp ≠ 0 then ioError
      else do
        let _ ← spiRecByte card
        spiSendByte 0xfe
        spiWriteBlock data blocksize
        spiSendByte 0xff
        spiSendByte 0xff
        if ← waitByte card 0xff then pure () else ioError) ?_ cmdWriteSingleBlock (s.address blkno) s
    · obtain ⟨htype, more, hmore⟩ := h
      exact ⟨htype, cmdWriteSingleBlock, more, hmore⟩
    · intro resp
      refine .ite ioError_sending ((Sending.of_talk (spiRecByte_talk card)).bind fun _ =>
        (spiSendByte_sending 0xfe).bind fun _ => Sending.bind ?_ fun _ => (spiSendByte_sending 0xff).bind fun _ =>
        (spiSendByte_sending 0xff).bind fun _ => (waitByte_sending 0xff).bind fun _ => .ite (.pure ()) ioError_sending)
      exact fun _ => ⟨rfl, data.slice 0 blocksize, rfl⟩

theorem Transfer.run_type (card : Card) (ts : List Transfer) (s : Mmc) : (Transfer.run card s ts).type = s.type := by
  induction ts generalizing s with
  | nil => rfl
  | cons t ts ih => exact (ih _).trans (Transfer.exec_sent card s t).1

/-- The argument of a transfer is the address of its block. -/
theorem Transfer.arg_eq (card : Card) (s : Mmc) (t : Transfer) : t.arg card s = argBytes (s.address t.blkno) := by
  obtain ⟨_, command, more, hsent⟩ := Transfer.exec_sent card s t
  rw [Transfer.arg, Transfer.sends, hsent, List.drop_left]
  rfl

/-- Different numbers of 32 bits have different bytes. -/
theorem argBytes_inj {a b : Nat} (ha : a < 2 ^ 32) (hb : b < 2 ^ 32) (h : argBytes a = argBytes b) : a = b := by
  have byte : ∀ {x y : Nat}, UInt8.ofNat x = UInt8.ofNat y → x % 256 = y % 256 := by
    intro x y hxy
    have := congrArg UInt8.toNat hxy
    simpa only [UInt8.toNat_ofNat'] using this
  simp only [argBytes, List.cons.injEq, and_true, Nat.shiftRight_eq_div_pow] at h
  obtain ⟨h3, h2, h1, h0⟩ := h
  have h3 := byte h3
  have h2 := byte h2
  have h1 := byte h1
  have h0 := byte h0
  omega

/-- Any two transfers of different blocks below the block count, whatever was
transferred before each, are sent with different arguments. -/
def Addressable (card : Card) (s : Mmc) : Prop :=
  ∀ (before before' : List Transfer) (t t' : Transfer), t.blkno < s.blkCount → t'.blkno < s.blkCount →
    t.blkno ≠ t'.blkno → t.arg card (Transfer.run card s before) ≠ t'.arg card (Transfer.run card s before')

theorem csdBlkCount_lt (p : List UInt8) : csdBlkCount p < 2 ^ 32 := by
  rw [csdBlkCount]
  split
  · omega
  · rw [Nat.shiftRight_eq_div_pow]
    exact lt_of_le_of_lt (Nat.div_le_self _ _) (Nat.mod_lt _ (by omega))

/-- A card is addressable when it is addressed by blocks, or by bytes and every
byte offset has 32 bits. -/
theorem addressable_iff (hcount : s.blkCount < 2 ^ 32) : Addressable card s ↔ s.type = .sdhc ∨ s.blkCount ≤ 2 ^ 23 := by
  constructor
  · intro h
    by_contra hno
    obtain ⟨htype, hmany⟩ := not_or.mp hno
    -- the first block, and the first one whose offset has 33 bits
    refine h [] [] (.read 0 Buf.zero) (.read (2 ^ 23) Buf.zero) ?_ ?_ ?_ ?_
    · show 0 < s.blkCount
      omega
    · show 2 ^ 23 < s.blkCount
      omega
    · show (0 : Nat) ≠ 2 ^ 23
      omega
    · rw [Transfer.arg_eq, Transfer.arg_eq]
      show argBytes (s.address 0) = argBytes (s.address (2 ^ 23))
      rw [Mmc.address, Mmc.address, if_pos htype, if_pos htype]
      rfl
  · intro h before before' t t' ht ht' hne heq
    rw [Transfer.arg_eq, Transfer.arg_eq] at heq
    rw [Mmc.address, Mmc.address, Transfer.run_type, Transfer.run_type] at heq
    by_cases htype : s.type = .sdhc
    · rw [if_neg (not_not_intro htype), if_neg (not_not_intro htype)] at heq
      exact hne (argBytes_inj (by omega) (by omega) heq)
    · rw [if_pos htype, if_pos htype] at heq
      have hfew : s.blkCount ≤ 2 ^ 23 := h.resolve_left htype
      have := argBytes_inj (Nat.mod_lt _ (by omega)) (Nat.mod_lt _ (by omega)) heq
      rw [Nat.shiftLeft_eq, Nat.shiftLeft_eq, blocksizeWidth] at this
      omega

/-! ## Main results -/

/-- Every byte offset a card with this CSD register needs has 32 bits: the older
structure, or a size of at most 2^23 blocks; the largest size wraps to none. -/
def OffsetsFit (csd : List UInt8) : Prop :=
  csdStructure csd ≠ 0x01 ∨ csdCSize csd < 8192 ∨ csdCSize csd = 0x3fffff

theorem csdCSize_lt (p : List UInt8) : csdCSize p < 2 ^ 22 := by
  have h7 : (p.getD 7 0 &&& 0x3f).toNat ≤ 63 := by
    rw [UInt8.toNat_and]
    exact Nat.and_le_right
  have h8 := (p.getD 8 0).toNat_lt
  have h9 := (p.getD 9 0).toNat_lt
  rw [csdCSize]
  refine Nat.or_lt_two_pow (Nat.or_lt_two_pow ?_ ?_) ?_
  · rw [Nat.shiftLeft_eq]
    omega
  · rw [Nat.shiftLeft_eq]
    omega
  · omega

theorem csdBlkCount_le (p : List UInt8) : csdBlkCount p ≤ 2 ^ 23 ↔ OffsetsFit p := by
  have hlt := csdCSize_lt p
  rw [csdBlkCount, OffsetsFit]
  split
  · rename_i h
    simp only [h, ne_eq, not_true, false_or]
    omega
  · rename_i h
    have : (csdCSizeV1 p + 1) <<< csdShift p % 2 ^ 32 < 2 ^ 32 := Nat.mod_lt _ (by omega)
    simp only [h, ne_eq, not_false_iff, true_or, iff_true, Nat.shiftRight_eq_div_pow, blocksizeWidth]
    omega

/-- **Different blocks have different arguments after start-up exactly when**
the card sent an OCR register with the capacity bit, or a CSD register whose
blocks all have a byte offset of 32 bits. -/
theorem driveInit_addressable (card : Card) (s : Mmc) (hs : s.blocks = [])
    (h : (driveInit card s).2.tfsLastError = .ok) :
    Addressable card (driveInit card s).2 ↔
      HighCapacity (driveInit card s).2.blocks ∨ OffsetsFit (csdOf (driveInit card s).2.blocks) := by
  obtain ⟨hcount, htype⟩ := driveInit_ok hs h
  have hlt : (driveInit card s).2.blkCount < 2 ^ 32 := by
    rw [hcount]
    exact csdBlkCount_lt _
  rw [addressable_iff hlt, htype, hcount, csdBlkCount_le]

/-- The answers of an MMC card: to reset, version check, application command and
its operating condition, start of operation and block length, and a CID register. -/
def mmcAnswers : List UInt8 :=
  [0xff, 0x01, 0xff, 0x05, 0xff, 0x05, 0xff, 0x05, 0xff, 0x00, 0xff, 0x00, 0xff, 0x00, 0xfe] ++
    List.replicate 18 0

/-- A card that sends this CSD register. -/
def mmcCard (csd : List UInt8) : Card := fun i => (mmcAnswers ++ [0xff, 0x00, 0xfe] ++ csd).getD i 0xff

/-- A CSD register of structure 1 and 2^24 + 1024 blocks. -/
def wideCsd : List UInt8 := [0x40, 0, 0, 0, 0, 0, 0, 0, 0x40, 0, 0, 0, 0, 0, 0, 0, 0, 0]

/-- A CSD register of structure 0 and 2^21 blocks. -/
def narrowCsd : List UInt8 := [0, 0, 0, 0, 0, 9, 3, 0xff, 0xc0, 3, 0x80, 0, 0, 0, 0, 0, 0, 0]

/-- A card that is addressed by bytes and has more blocks than byte offsets:
start-up succeeds, and blocks 0 and 2^23 are read with the same argument. -/
theorem driveInit_collides :
    (driveInit (mmcCard wideCsd) boot).2.tfsLastError = .ok ∧
      2 ^ 23 < (driveInit (mmcCard wideCsd) boot).2.blkCount ∧
      ¬ Addressable (mmcCard wideCsd) (driveInit (mmcCard wideCsd) boot).2 := by
  have hok : (driveInit (mmcCard wideCsd) boot).2.tfsLastError = .ok := by decide +kernel
  have hcount : (driveInit (mmcCard wideCsd) boot).2.blkCount = 2 ^ 24 + 1024 := by decide +kernel
  have htype : (driveInit (mmcCard wideCsd) boot).2.type = .mmc := by decide +kernel
  refine ⟨hok, by omega, ?_⟩
  rw [addressable_iff (by omega), htype, hcount]
  exact fun h => h.elim DriveType.noConfusion (by omega)

theorem driveInit_addressable_narrow :
    Addressable (mmcCard narrowCsd) (driveInit (mmcCard narrowCsd) boot).2 ↔
      HighCapacity (driveInit (mmcCard narrowCsd) boot).2.blocks ∨
        OffsetsFit (csdOf (driveInit (mmcCard narrowCsd) boot).2.blocks) :=
  driveInit_addressable (mmcCard narrowCsd) boot rfl (by decide +kernel)

end Mmc

end TinyFs
