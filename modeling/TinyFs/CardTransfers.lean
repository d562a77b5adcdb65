/-
The card as a drive. A conversation is what a card with given blocks answers to a
list of uses, at its own pace: so many idle bytes in front of an answer, a start byte
within the time the driver waits, a refusal. Over it the driver is the drive of the
file system, on which the transfers the card refused or timed out on fail, as long as
the card rejects the data of no write: that the driver takes for success. What the
driver sends meanwhile, the card reads back as the requests, for the same blocks.
-/
import TinyFs.CardAnswers

namespace TinyFs

open Bytes

namespace Mmc

variable {card : Card} {mem mem' : Nat → Block} {i j k : Nat} {s : Mmc}

/-! ## The uses of a drive -/

/-- What `filesys.c` does to the drive and to `tfs_last_error` between two starts. -/
inductive Use
  | select | deselect
  | setErr (err : Err)
  | transfer (t : Transfer)

/-- A transfer with the buffer it uses, and what that holds afterwards. -/
def Transfer.onCard (card : Card) : Transfer → Spi Block
  | .read blkno data => driveReadBlock card blkno data
  | .write blkno data => do
    driveWriteBlock card blkno data
    pure data

def Transfer.onDrive (e : Env) : Transfer → M Block
  | .read blkno data => do
    modifyBuf fun _ => data
    TinyFs.driveReadBlock e blkno .blkBuf
    TinyFs.blkBuf
  | .write blkno data => do
    modifyBuf fun _ => data
    TinyFs.driveWriteBlock e blkno .blkBuf
    TinyFs.blkBuf

def Use.onCard (card : Card) : Use → Spi (Option Block)
  | .select => do
    Mmc.driveSelect
    pure none
  | .deselect => do
    Mmc.driveDeselect
    pure none
  | .setErr err => do
    modify fun s => { s with tfsLastError := err }
    pure none
  | .transfer t => do
    let data ← t.onCard card
    pure (some data)

def Use.onDrive (e : Env) : Use → M (Option Block)
  | .select => do
    TinyFs.driveSelect
    pure none
  | .deselect => do
    TinyFs.driveDeselect
    pure none
  | .setErr err => do
    TinyFs.setErr err
    pure none
  | .transfer t => do
    let data ← t.onDrive e
    pure (some data)

/-- A list of uses, and what the file system sees of each: the buffer of a transfer,
and `tfs_last_error`. -/
def runCard (card : Card) : List Use → Spi (List (Option Block × Err))
  | [] => pure []
  | u :: us => do
    let data ← u.onCard card
    let err := (← get).tfsLastError
    let rest ← runCard card us
    pure ((data, err) :: rest)

def runDrive (e : Env) : List Use → M (List (Option Block × Err))
  | [] => pure []
  | u :: us => do
    let data ← u.onDrive e
    let err ← Prog.gets (·.tfsLastError)
    let rest ← runDrive e us
    pure ((data, err) :: rest)

/-! ## A conversation -/

/-- How a transfer ends. A write is `rejected` when the card takes the command and then
not the data; the driver does not see that. -/
inductive Outcome
  | done | refused | timedOut | rejected
  deriving DecidableEq

/-- The answer to a command, and the byte of the card behind it: it comes within ten
bytes, or no byte does. The byte at `i` is the one taken while the line settles. -/
inductive Replies (card : Card) (i : Nat) : UInt8 → Nat → Prop
  | byte {resp : UInt8} {j : Nat} : j < 10 → (∀ m < j, card (i + 1 + m) = 0xff) → card (i + 1 + j) = resp → resp ≠ 0xff →
      Replies card i resp (i + 1 + j + 1)
  | silent : (∀ m < 10, card (i + 1 + m) = 0xff) → Replies card i 0xff (i + 1 + 10)

/-- What a card with these blocks says to a transfer from its byte `i` on. -/
inductive Serves (card : Card) (mem : Nat → Block) (i : Nat) : Transfer → Outcome → Nat → Prop
  | read {blkno : Nat} {data : Block} {j k : Nat} : Replies card i 0 j → k ≤ timeout → (∀ m < k, card (j + m) ≠ 0xfe) →
      card (j + k) = 0xfe → (∀ m < 512, card (j + k + 1 + m) = (mem blkno).get m) →
      Serves card mem i (.read blkno data) .done (j + k + 1 + 512 + 2)
  | write {blkno : Nat} {data : Block} {j k : Nat} : Replies card i 0 j → accepted (card (j + 1)) → k ≤ timeout →
      (∀ m < k, card (j + 1 + m) ≠ 0xff) → card (j + 1 + k) = 0xff →
      Serves card mem i (.write blkno data) .done (j + 1 + k + 1)
  | rejected {blkno : Nat} {data : Block} {j k : Nat} : Replies card i 0 j → ¬ accepted (card (j + 1)) → k ≤ timeout →
      (∀ m < k, card (j + 1 + m) ≠ 0xff) → card (j + 1 + k) = 0xff →
      Serves card mem i (.write blkno data) .rejected (j + 1 + k + 1)
  | refused {t : Transfer} {resp : UInt8} {j : Nat} : Replies card i resp j → resp ≠ 0 → Serves card mem i t .refused j
  | noStart {blkno : Nat} {data : Block} {j : Nat} : Replies card i 0 j → (∀ m ≤ timeout, card (j + m) ≠ 0xfe) →
      Serves card mem i (.read blkno data) .timedOut (j + timeout + 1)
  | busy {blkno : Nat} {data : Block} {j : Nat} : Replies card i 0 j → (∀ m ≤ timeout, card (j + 1 + m) ≠ 0xff) →
      Serves card mem i (.write blkno data) .timedOut (j + 1 + timeout + 1)

/-- The blocks of a card behind a transfer; one it rejected or timed out on is not stored. -/
def Transfer.store (mem : Nat → Block) : Transfer → Outcome → Nat → Block
  | .write blkno data, .done => Function.update mem blkno data
  | _, _ => mem

/-- What a card says to a list of uses, from its byte `i` to its byte `j`: the transfers
among them with how each ends, and the blocks of the card before and behind it. -/
inductive Conversation (card : Card) :
    (Nat → Block) → Nat → List Use → List (Transfer × Outcome) → (Nat → Block) → Nat → Prop
  | nil {mem : Nat → Block} {i : Nat} : Conversation card mem i [] [] mem i
  | quiet {mem mem' : Nat → Block} {i j : Nat} {u : Use} {us : List Use} {ts : List (Transfer × Outcome)} :
      (∀ t, u ≠ .transfer t) → Conversation card mem i us ts mem' j → Conversation card mem i (u :: us) ts mem' j
  | transfer {mem mem' : Nat → Block} {i j k : Nat} {t : Transfer} {o : Outcome} {us : List Use}
      {ts : List (Transfer × Outcome)} :
      Serves card mem i t o j → Conversation card (t.store mem o) j us ts mem' k →
      Conversation card mem i (.transfer t :: us) ((t, o) :: ts) mem' k

/-! ## The driver over a conversation -/

/-- The driver's state when the card's byte `j` is next and it has sent these bytes. -/
def moved (s : Mmc) (j : Nat) (bytes : List UInt8) : Mmc := { s with rx := j, sent := s.sent ++ bytes }

theorem spiRecByte_next (s : Mmc) (m : Nat) : card ((spiRecByte card s).2.rx + m) = card (s.rx + (m + 1)) := by
  show card (s.rx + 1 + m) = _
  rw [Nat.add_assoc, Nat.add_comm 1 m]

theorem recResponse_byte {resp : UInt8} (hidle : ∀ m < j, card (s.rx + m) = 0xff) (h : card (s.rx + j) = resp)
    (hresp : resp ≠ 0xff) (n : Nat) (hn : j < n) :
    recResponse card n s = (resp, { s with rx := s.rx + j + 1 }) := by
  obtain ⟨n, rfl⟩ : ∃ n', n = n' + 1 := ⟨n - 1, by omega⟩
  induction j generalizing n s with
  | zero =>
    have hb : (spiRecByte card s).1 = resp := h
    rw [recResponse, spi_bind, hb, if_neg hresp]
    rfl
  | succ j ih =>
    have hb : (spiRecByte card s).1 = 0xff := hidle 0 (by omega)
    obtain ⟨n, rfl⟩ : ∃ n', n = n' + 1 := ⟨n - 1, by omega⟩
    have hrest := ih (s := (spiRecByte card s).2) (fun m hm => (spiRecByte_next s m).trans (hidle _ (by omega)))
      ((spiRecByte_next s j).trans h) n (by omega)
    rw [recResponse, spi_bind, if_pos hb, hrest, ← Nat.add_assoc s.rx j 1, ← Nat.add_right_comm s.rx 1 j]
    rfl

theorem recResponse_silent (n : Nat) (hidle : ∀ m < n, card (s.rx + m) = 0xff) :
    recResponse card n s = (0xff, { s with rx := s.rx + n }) := by
  induction n generalizing s with
  | zero => rfl
  | succ n ih =>
    have hb : (spiRecByte card s).1 = 0xff := hidle 0 (by omega)
    have hrest := ih (s := (spiRecByte card s).2) fun m hm => (spiRecByte_next s m).trans (hidle _ (by omega))
    rw [recResponse, spi_bind, if_pos hb, hrest, ← Nat.add_assoc s.rx n 1, ← Nat.add_right_comm s.rx 1 n]
    rfl

/-- A command: its frame is sent, and the answer is taken. -/
theorem sendCommand_replies {resp : UInt8} (h : Replies card s.rx resp j) (command : UInt8) (arg : Nat) :
    sendCommand card command arg s = (resp, moved s j (frame command arg)) := by
  have hrun : sendCommand card command arg s =
      recResponse card 10 { s with rx := s.rx + 1, sent := s.sent ++ [0x40 ||| command] ++
        [UInt8.ofNat (arg >>> 24)] ++ [UInt8.ofNat (arg >>> 16)] ++ [UInt8.ofNat (arg >>> 8)] ++
        [UInt8.ofNat (arg >>> 0)] ++ [commandCrc command] } := rfl
  have hsent : s.sent ++ [0x40 ||| command] ++ [UInt8.ofNat (arg >>> 24)] ++ [UInt8.ofNat (arg >>> 16)] ++
      [UInt8.ofNat (arg >>> 8)] ++ [UInt8.ofNat (arg >>> 0)] ++ [commandCrc command] = s.sent ++ frame command arg := by
    simp only [frame, argBytes, List.append_assoc, List.cons_append, List.nil_append]
  rw [hsent] at hrun
  rw [hrun]
  cases h with
  | byte hj hidle hbyte hne => exact recResponse_byte (s := { s with rx := s.rx + 1, sent := _ }) hidle hbyte hne 10 hj
  | silent hidle => exact recResponse_silent (s := { s with rx := s.rx + 1, sent := _ }) 10 hidle

/-- `wait_byte` goes on to the first such byte. -/
theorem waitByteLoop_found {val : UInt8} (hother : ∀ m < k, card (s.rx + m) ≠ val) (h : card (s.rx + k) = val) (n : Nat)
    (hn : k ≤ n) : waitByteLoop card val n s = (true, { s with rx := s.rx + k + 1 }) := by
  induction k generalizing n s with
  | zero =>
    have hb : (spiRecByte card s).1 = val := h
    cases n with
    | zero =>
      rw [waitByteLoop, spi_bind, hb, decide_eq_true rfl]
      rfl
    | succ n =>
      rw [waitByteLoop, spi_bind, if_pos hb]
      rfl
  | succ k ih =>
    obtain ⟨n, rfl⟩ : ∃ n', n = n' + 1 := ⟨n - 1, by omega⟩
    have hb : ¬ (spiRecByte card s).1 = val := hother 0 (by omega)
    have hrest := ih (s := (spiRecByte card s).2)
      (fun m hm heq => hother (m + 1) (by omega) ((spiRecByte_next s m).symm.trans heq))
      ((spiRecByte_next s k).trans h) n (by omega)
    rw [waitByteLoop, spi_bind, if_neg hb, hrest, ← Nat.add_assoc s.rx k 1, ← Nat.add_right_comm s.rx 1 k]
    rfl

theorem waitByteLoop_missing {val : UInt8} (n : Nat) (hother : ∀ m ≤ n, card (s.rx + m) ≠ val) :
    waitByteLoop card val n s = (false, { s with rx := s.rx + n + 1 }) := by
  induction n generalizing s with
  | zero =>
    have hb : ¬ (spiRecByte card s).1 = val := hother 0 (Nat.le_refl 0)
    rw [waitByteLoop, spi_bind, decide_eq_false hb]
    rfl
  | succ n ih =>
    have hb : ¬ (spiRecByte card s).1 = val := hother 0 (Nat.zero_le _)
    have hrest := ih (s := (spiRecByte card s).2) fun m hm heq =>
      hother (m + 1) (by omega) ((spiRecByte_next s m).symm.trans heq)
    rw [waitByteLoop, spi_bind, if_neg hb, hrest, ← Nat.add_assoc s.rx n 1, ← Nat.add_right_comm s.rx 1 n]
    rfl

/-- What the buffer of a transfer holds afterwards. -/
def Transfer.buffer (mem : Nat → Block) : Transfer → Outcome → Block
  | .read blkno _, .done => mem blkno
  | .read _ data, _ => data
  | .write _ data, _ => data

/-- The bytes behind the command of a write: the start byte, the block and its checksum. -/
def blockBytes (data : Block) : List UInt8 := 0xfe :: data.slice 0 blocksize ++ [0xff, 0xff]

/-- The bytes of a transfer: a card that refused a write is not sent the block. -/
def Transfer.packet (address : Nat → Nat) : Transfer → Outcome → List UInt8
  | .read blkno _, _ => frame cmdReadSingleBlock (address blkno)
  | .write blkno _, .refused => frame cmdWriteSingleBlock (address blkno)
  | .write blkno data, _ => frame cmdWriteSingleBlock (address blkno) ++ blockBytes data

/-- `tfs_last_error` after a transfer. -/
def Outcome.err (err : Err) : Outcome → Err
  | .done | .rejected => err
  | .refused => .io
  | .timedOut => .io

/-- The driver has used the line up to the card's byte `j`, has sent these bytes, and
knows the same of the card. -/
structure Moved (s s' : Mmc) (j : Nat) (bytes : List UInt8) : Prop where
  type : s'.type = s.type
  blkCount : s'.blkCount = s.blkCount
  rx : s'.rx = j
  sent : s'.sent = s.sent ++ bytes

theorem fill_block (data b : Block) (bytes : List UInt8) (h : ∀ m < 512, bytes.getD m 0 = b.get m) :
    data.fill 0 (fun k => bytes.getD k 0) blocksize = b := by
  apply Buf.ext_get
  intro m hm
  rw [Buf.get_fill_in _ _ (Nat.zero_le m) (by simpa only [blocksize, Nat.zero_add] using hm) hm, Nat.sub_zero, h m hm]

/-- What a read does once the card has taken the command, and a write. -/
def readRest (card : Card) (data : Block) : Spi Block := do
  if ← waitByte card 0xfe then
    let bytes ← spiReadBlock card blocksize
    readTmpBuf card 2
    pure (data.fill 0 (fun k => bytes.getD k 0) blocksize)
  else
    ioError
    pure data

def writeRest (card : Card) : Spi Unit := do
  if ← waitByte card 0xff then pure () else ioError

theorem driveReadBlock_eq (blkno : Nat) (data : Block) (s : Mmc) : driveReadBlock card blkno data s =
    (if (sendCommand card cmdReadSingleBlock (s.address blkno) s).1 ≠ 0 then do
      ioError
      pure data
    else readRest card data) (sendCommand card cmdReadSingleBlock (s.address blkno) s).2 := rfl

theorem driveWriteBlock_eq (blkno : Nat) (data : Block) (s : Mmc) : driveWriteBlock card blkno data s =
    (if (sendCommand card cmdWriteSingleBlock (s.address blkno) s).1 ≠ 0 then ioError
    else do
      let _ ← spiRecByte card
      spiSendByte 0xfe
      spiWriteBlock data blocksize
      spiSendByte 0xff
      spiSendByte 0xff
      writeRest card) (sendCommand card cmdWriteSingleBlock (s.address blkno) s).2 := rfl

theorem driveReadBlock_refused {resp : UInt8} {blkno : Nat} {data : Block} (h : Replies card s.rx resp j)
    (hresp : resp ≠ 0) : driveReadBlock card blkno data s =
    (data, { moved s j (frame cmdReadSingleBlock (s.address blkno)) with tfsLastError := .io }) := by
  rw [driveReadBlock_eq, sendCommand_replies h, if_pos hresp]
  rfl

/-- A read answered with zero goes on to wait for the start byte. -/
theorem driveReadBlock_answered {blkno : Nat} {data : Block} (h : Replies card s.rx 0 j) :
    driveReadBlock card blkno data s = readRest card data (moved s j (frame cmdReadSingleBlock (s.address blkno))) := by
  rw [driveReadBlock_eq, sendCommand_replies h, if_neg (not_not_intro rfl)]

theorem driveWriteBlock_refused {resp : UInt8} {blkno : Nat} {data : Block} (h : Replies card s.rx resp j)
    (hresp : resp ≠ 0) : driveWriteBlock card blkno data s =
    ((), { moved s j (frame cmdWriteSingleBlock (s.address blkno)) with tfsLastError := .io }) := by
  rw [driveWriteBlock_eq, sendCommand_replies h, if_pos hresp]
  rfl

/-- A write answered with zero sends the block, and waits while the card is busy. -/
theorem driveWriteBlock_answered {blkno : Nat} {data : Block} (h : Replies card s.rx 0 j) :
    driveWriteBlock card blkno data s =
      writeRest card (moved s (j + 1) (frame cmdWriteSingleBlock (s.address blkno) ++ blockBytes data)) := by
  have hmid : moved s (j + 1) (frame cmdWriteSingleBlock (s.address blkno) ++ blockBytes data) =
      { moved s j (frame cmdWriteSingleBlock (s.address blkno)) with
        rx := j + 1
        sent := s.sent ++ frame cmdWriteSingleBlock (s.address blkno) ++ [0xfe] ++ data.slice 0 blocksize ++ [0xff] ++
          [0xff] } := by
    simp only [moved, blockBytes, List.append_assoc, List.cons_append, List.nil_append]
  rw [driveWriteBlock_eq, sendCommand_replies h, if_neg (not_not_intro rfl), hmid]
  rfl

theorem readRest_found (data : Block) {b : Block} (hother : ∀ m < k, card (s.rx + m) ≠ 0xfe)
    (h : card (s.rx + k) = 0xfe) (hk : k ≤ timeout) (hdata : ∀ m < 512, card (s.rx + k + 1 + m) = b.get m) :
    ∃ s', readRest card data s = (b, s') ∧ Moved s s' (s.rx + k + 1 + 512 + 2) [] ∧ s'.tfsLastError = s.tfsLastError := by
  refine ⟨(readTmpBuf card 2 (spiReadBlock card blocksize { s with rx := s.rx + k + 1 }).2).2, ?_,
    ⟨rfl, rfl, rfl, (List.append_nil _).symm⟩, rfl⟩
  rw [readRest, spi_bind, waitByte, waitByteLoop_found hother h timeout hk, if_pos rfl]
  refine Prod.ext ?_ rfl
  refine fill_block data b ((List.range blocksize).map fun m => card (s.rx + k + 1 + m)) fun m hm => ?_
  rw [← hdata m hm, List.getD_eq_getElem _ _ (by rw [List.length_map, List.length_range]; exact hm), List.getElem_map,
    List.getElem_range]

theorem readRest_missing {data : Block} (h : ∀ m ≤ timeout, card (s.rx + m) ≠ 0xfe) :
    readRest card data s = (data, { s with rx := s.rx + timeout + 1, tfsLastError := .io }) := by
  rw [readRest, spi_bind, waitByte, waitByteLoop_missing timeout h, if_neg Bool.false_ne_true]
  rfl

theorem writeRest_found (hother : ∀ m < k, card (s.rx + m) ≠ 0xff) (h : card (s.rx + k) = 0xff) (hk : k ≤ timeout) :
    writeRest card s = ((), { s with rx := s.rx + k + 1 }) := by
  rw [writeRest, spi_bind, waitByte, waitByteLoop_found hother h timeout hk, if_pos rfl]
  rfl

theorem writeRest_missing (h : ∀ m ≤ timeout, card (s.rx + m) ≠ 0xff) :
    writeRest card s = ((), { s with rx := s.rx + timeout + 1, tfsLastError := .io }) := by
  rw [writeRest, spi_bind, waitByte, waitByteLoop_missing timeout h, if_neg Bool.false_ne_true]
  rfl

theorem Transfer.onCard_write (blkno : Nat) (data : Block) (s : Mmc) : (Transfer.write blkno data).onCard card s =
    (data, (driveWriteBlock card blkno data s).2) := rfl

/-- **One transfer**, as the card serves it. -/
theorem Transfer.onCard_serves {t : Transfer} {o : Outcome} (h : Serves card mem s.rx t o j) :
    ∃ s', t.onCard card s = (t.buffer mem o, s') ∧ Moved s s' j (t.packet s.address o) ∧
      s'.tfsLastError = o.err s.tfsLastError := by
  cases h with
  | @read blkno data j k hreply hk hother hstart hdata =>
    obtain ⟨s', hrun, hmoved, herr⟩ := readRest_found (s := moved s j (frame cmdReadSingleBlock (s.address blkno)))
      data hother hstart hk hdata
    refine ⟨s', (driveReadBlock_answered hreply).trans hrun, ⟨hmoved.type, hmoved.blkCount, hmoved.rx, ?_⟩, herr⟩
    rw [hmoved.sent, List.append_nil]
    rfl
  | @write blkno data j k hreply _ hk hother hend =>
    rw [Transfer.onCard_write, driveWriteBlock_answered hreply, writeRest_found hother hend hk]
    exact ⟨_, rfl, ⟨rfl, rfl, rfl, rfl⟩, rfl⟩
  | @rejected blkno data j k hreply _ hk hother hend =>
    rw [Transfer.onCard_write, driveWriteBlock_answered hreply, writeRest_found hother hend hk]
    exact ⟨_, rfl, ⟨rfl, rfl, rfl, rfl⟩, rfl⟩
  | refused hreply hresp =>
    cases t with
    | read blkno data => exact ⟨_, driveReadBlock_refused hreply hresp, ⟨rfl, rfl, rfl, rfl⟩, rfl⟩
    | write blkno data =>
      rw [Transfer.onCard_write, driveWriteBlock_refused hreply hresp]
      exact ⟨_, rfl, ⟨rfl, rfl, rfl, rfl⟩, rfl⟩
  | @noStart blkno data j hreply hother =>
    refine ⟨_, (driveReadBlock_answered hreply).trans (readRest_missing hother), ⟨rfl, rfl, rfl, rfl⟩, rfl⟩
  | @busy blkno data j hreply hother =>
    rw [Transfer.onCard_write, driveWriteBlock_answered hreply, writeRest_missing hother]
    exact ⟨_, rfl, ⟨rfl, rfl, rfl, rfl⟩, rfl⟩

theorem Moved.trans {s' s'' : Mmc} {bytes bytes' : List UInt8} (h : Moved s s' i bytes) (h' : Moved s' s'' j bytes') :
    Moved s s'' j (bytes ++ bytes') :=
  ⟨h'.type.trans h.type, h'.blkCount.trans h.blkCount, h'.rx, by rw [h'.sent, h.sent, List.append_assoc]⟩

/-! ## The drive of the file system -/

variable {e : Env} {d : State} {us : List Use} {ts : List (Transfer × Outcome)}

/-- The file system's state agrees with the driver's over a card with these blocks. -/
structure Alike (s : Mmc) (mem : Nat → Block) (d : State) : Prop where
  dev : d.dev = mem
  err : d.tfsLastError = s.tfsLastError
  blkCount : d.blkCount = s.blkCount

/-- A transfer of the drive, where it fails exactly if it is not done on the card. -/
theorem Transfer.onDrive_ends (hset : e.drive.setsOk = false) {t : Transfer} {o : Outcome} (hkept : o ≠ .rejected)
    (hlt : t.blkno < d.blkCount) (hfails : e.drive.fails d.log.transfers = decide (o ≠ .done)) :
    ∃ d', t.onDrive e d = some (t.buffer d.dev o, d') ∧ d'.dev = t.store d.dev o ∧
      d'.tfsLastError = o.err d.tfsLastError ∧ d'.blkCount = d.blkCount ∧ d'.log.transfers = d.log.transfers + 1 := by
  have hok : ∀ data : Block, transferOk e { d with blkBuf := data } t.blkno = decide (o = .done) := by
    intro data
    rw [transferOk, decide_eq_true (show t.blkno < State.blkCount { d with blkBuf := data } from hlt), Bool.true_and]
    show (!e.drive.fails d.log.transfers) = _
    rw [hfails]
    simp only [ne_eq, decide_not, Bool.not_not]
  have herr : ∀ data : Block, errAfter e { d with blkBuf := data } = d.tfsLastError := fun data => by
    rw [errAfter, hset]
    rfl
  have hrun : ∀ data : Block, ∃ ok, transferOk e { d with blkBuf := data } t.blkno = ok ∧ ok = decide (o = .done) :=
    fun data => ⟨_, rfl, hok data⟩
  cases t with
  | read blkno data =>
    obtain ⟨ok, hok, hok'⟩ := hrun data
    replace hok : transferOk e { d with blkBuf := data } blkno = ok := hok
    have hends : (Transfer.read blkno data).onDrive e d = some (if ok then d.dev blkno else data,
        { d with
          blkBuf := if ok then d.dev blkno else data
          log := d.log.transfer (.read blkno ok)
          tfsLastError := if ok then d.tfsLastError else .io }) := by
      simp only [Transfer.onDrive, modifyBuf, TinyFs.driveReadBlock, TinyFs.blkBuf, Prog.modify_bind, Prog.gets_apply,
        hok]
      cases ok with
      | false => rfl
      | true => rw [if_pos rfl, if_pos rfl, herr]; rfl
    rw [hends, hok']
    cases o with
    | rejected => exact absurd rfl hkept
    | done | refused | timedOut => exact ⟨_, rfl, rfl, rfl, rfl, rfl⟩
  | write blkno data =>
    obtain ⟨ok, hok, hok'⟩ := hrun data
    replace hok : transferOk e { d with blkBuf := data } blkno = ok := hok
    have hends : (Transfer.write blkno data).onDrive e d = some (data,
        { d with
          blkBuf := data
          dev := if ok then Function.update d.dev blkno data else d.dev
          log := d.log.transfer (.write blkno ok)
          tfsLastError := if ok then d.tfsLastError else .io }) := by
      simp only [Transfer.onDrive, modifyBuf, TinyFs.driveWriteBlock, TinyFs.blkBuf, Prog.modify_bind,
        Prog.gets_apply, hok]
      cases ok with
      | false => rfl
      | true => rw [if_pos rfl, if_pos rfl, herr]; rfl
    rw [hends, hok']
    cases o with
    | rejected => exact absurd rfl hkept
    | done | refused | timedOut => exact ⟨_, rfl, rfl, rfl, rfl, rfl⟩

/-- A use that is no transfer does the same to both. -/
theorem Use.quiet_alike {u : Use} (h : ∀ t, u ≠ .transfer t) (hal : Alike s mem d) :
    ∃ s' d', u.onCard card s = (none, s') ∧ u.onDrive e d = some (none, d') ∧ Alike s' mem d' ∧ Moved s s' s.rx [] ∧
      d'.log.transfers = d.log.transfers := by
  cases u with
  | select => exact ⟨_, _, rfl, rfl, ⟨hal.dev, hal.err, hal.blkCount⟩, ⟨rfl, rfl, rfl, (List.append_nil _).symm⟩, rfl⟩
  | deselect => exact ⟨_, _, rfl, rfl, ⟨hal.dev, hal.err, hal.blkCount⟩, ⟨rfl, rfl, rfl, (List.append_nil _).symm⟩, rfl⟩
  | setErr err => exact ⟨_, _, rfl, rfl, ⟨hal.dev, rfl, hal.blkCount⟩, ⟨rfl, rfl, rfl, (List.append_nil _).symm⟩, rfl⟩
  | transfer t => exact absurd rfl (h t)

/-- A transfer does the same to both, unless the card rejects the data of a write. -/
theorem Transfer.alike (hset : e.drive.setsOk = false) {t : Transfer} {o : Outcome} (hserves : Serves card mem s.rx t o j)
    (hkept : o ≠ .rejected) (hal : Alike s mem d) (hlt : t.blkno < s.blkCount)
    (hfails : e.drive.fails d.log.transfers = decide (o ≠ .done)) :
    ∃ data s' d', t.onCard card s = (data, s') ∧ t.onDrive e d = some (data, d') ∧ Alike s' (t.store mem o) d' ∧
      Moved s s' j (t.packet s.address o) ∧ d'.log.transfers = d.log.transfers + 1 := by
  obtain ⟨s', hcard, hmoved, herr⟩ := Transfer.onCard_serves hserves
  obtain ⟨d', hdrive, hdev, herr', hcount, hlog⟩ := Transfer.onDrive_ends hset hkept
      (by rw [hal.blkCount]; exact hlt) hfails
  rw [hal.dev] at hdrive hdev
  refine ⟨_, s', d', hcard, hdrive, ⟨hdev, ?_, ?_⟩, hmoved, hlog⟩
  · rw [herr', herr, hal.err]
  · rw [hcount, hmoved.blkCount, hal.blkCount]

/-- The bytes of the transfers of a run. -/
def wire (address : Nat → Nat) (ts : List (Transfer × Outcome)) : List UInt8 := ts.flatMap fun x => x.1.packet address x.2

theorem Moved.address {bytes : List UInt8} {s' : Mmc} (h : Moved s s' j bytes) : s'.address = s.address := by
  funext blkno
  rw [Mmc.address, Mmc.address, h.type]

theorem runCard_cons {u : Use} {data : Option Block} {seen : List (Option Block × Err)} {s₁ s' : Mmc}
    (h : u.onCard card s = (data, s₁)) (hrest : runCard card us s₁ = (seen, s')) :
    runCard card (u :: us) s = ((data, s₁.tfsLastError) :: seen, s') := by
  rw [runCard, spi_bind, h]
  show (runCard card us >>= fun rest => pure ((data, s₁.tfsLastError) :: rest)) s₁ = _
  rw [spi_bind, hrest]
  rfl

theorem runDrive_cons {u : Use} {data : Option Block} {seen : List (Option Block × Err)} {d₁ d' : State}
    (h : u.onDrive e d = some (data, d₁)) (hrest : runDrive e us d₁ = some (seen, d')) :
    runDrive e (u :: us) d = some ((data, d₁.tfsLastError) :: seen, d') := by
  rw [runDrive, Prog.bind_some h, Prog.gets_bind, Prog.bind_some hrest]
  rfl

theorem Transfer.use_onCard {t : Transfer} {data : Block} {s' : Mmc} (h : t.onCard card s = (data, s')) :
    (Use.transfer t).onCard card s = (some data, s') := by
  rw [Use.onCard, spi_bind, h]
  rfl

theorem Transfer.use_onDrive {t : Transfer} {data : Block} {d' : State} (h : t.onDrive e d = some (data, d')) :
    (Use.transfer t).onDrive e d = some (some data, d') := Prog.bind_some h

/-- A use that is no transfer only sets variables. -/
theorem Use.quiet_moved {u : Use} (h : ∀ t, u ≠ .transfer t) (s : Mmc) :
    ∃ s', u.onCard card s = (none, s') ∧ Moved s s' s.rx [] := by
  cases u with
  | select | deselect | setErr => exact ⟨_, rfl, ⟨rfl, rfl, rfl, (List.append_nil _).symm⟩⟩
  | transfer t => exact absurd rfl (h t)

/-- A run over a conversation sends the bytes of its transfers. -/
theorem runCard_moved (hconv : Conversation card mem i us ts mem' j) (hi : s.rx = i) :
    ∃ seen s', runCard card us s = (seen, s') ∧ Moved s s' j (wire s.address ts) := by
  induction hconv generalizing s with
  | nil => exact ⟨[], s, rfl, rfl, rfl, hi, (List.append_nil _).symm⟩
  | quiet hquiet _ ih =>
    obtain ⟨s₁, hcard, hmoved⟩ := Use.quiet_moved hquiet s
    obtain ⟨seen, s', hcards, hmoved'⟩ := ih (hmoved.rx.trans hi)
    refine ⟨_, s', runCard_cons hcard hcards, ?_⟩
    have hall := hmoved.trans hmoved'
    rw [hmoved.address] at hall
    exact hall
  | transfer hserves _ ih =>
    subst hi
    obtain ⟨s₁, hcard, hmoved, -⟩ := Transfer.onCard_serves hserves
    obtain ⟨seen, s', hcards, hmoved'⟩ := ih hmoved.rx
    refine ⟨_, s', runCard_cons (Transfer.use_onCard hcard) hcards, ?_⟩
    have hall := hmoved.trans hmoved'
    rw [hmoved.address] at hall
    exact hall

/-- A run over a conversation in which no data is rejected: by induction on it, from what
one use does. -/
theorem runCard_alike (hset : e.drive.setsOk = false) (hconv : Conversation card mem i us ts mem' j) (hi : s.rx = i)
    (hal : Alike s mem d) (hkept : ∀ x ∈ ts, x.2 ≠ .rejected) (hlt : ∀ x ∈ ts, x.1.blkno < s.blkCount)
    (hfails : ∀ k x, ts[k]? = some x → e.drive.fails (d.log.transfers + k) = decide (x.2 ≠ .done)) :
    ∃ seen s' d', runCard card us s = (seen, s') ∧ runDrive e us d = some (seen, d') ∧ Alike s' mem' d' := by
  induction hconv generalizing s d with
  | nil => exact ⟨[], s, d, rfl, rfl, hal⟩
  | @quiet mem mem' i j u us ts hquiet hconv ih =>
    obtain ⟨s₁, d₁, hcard, hdrive, hal₁, hmoved, hlog⟩ := Use.quiet_alike hquiet hal
    obtain ⟨seen, s', d', hcards, hdrives, hal'⟩ := ih (hmoved.rx.trans hi) hal₁ hkept
      (by rw [hmoved.blkCount]; exact hlt) (by rw [hlog]; exact hfails)
    refine ⟨(none, s₁.tfsLastError) :: seen, s', d', ?_, ?_, hal'⟩
    · exact runCard_cons hcard hcards
    · rw [hal₁.err.symm]
      exact runDrive_cons hdrive hdrives
  | @transfer mem mem' i j k t o us ts hserves hconv ih =>
    subst hi
    obtain ⟨data, s₁, d₁, hcard, hdrive, hal₁, hmoved, hlog⟩ := Transfer.alike hset hserves
        (hkept _ List.mem_cons_self) hal
      (hlt _ List.mem_cons_self) (hfails 0 _ rfl)
    obtain ⟨seen, s', d', hcards, hdrives, hal'⟩ := ih hmoved.rx hal₁ (fun x hx => hkept x (List.mem_cons_of_mem _ hx))
      (by rw [hmoved.blkCount]; exact fun x hx => hlt x (List.mem_cons_of_mem _ hx)) (fun k x hx => by
        rw [hlog, Nat.add_assoc, Nat.add_comm 1 k]
        exact hfails (k + 1) x hx)
    refine ⟨(some data, s₁.tfsLastError) :: seen, s', d', ?_, ?_, hal'⟩
    · exact runCard_cons (Transfer.use_onCard hcard) hcards
    · rw [hal₁.err.symm]
      exact runDrive_cons (Transfer.use_onDrive hdrive) hdrives

/-! ## What the card reads -/

/-- A request as the card reads it; a write it refused comes without a block. -/
inductive CardRequest
  | read (blkno : Nat)
  | write (blkno : Nat) (data : Option Block)

def Transfer.request : Transfer → Outcome → CardRequest
  | .read blkno _, _ => .read blkno
  | .write blkno _, .refused => .write blkno none
  | .write blkno data, _ => .write blkno (some data)

/-- The number in four bytes, the highest first. -/
def argOf (bytes : List UInt8) : Nat := bytes.foldl (fun n b => n * 256 + b.toNat) 0

/-- The block a card of this type takes an argument for. -/
def blockOf (type : DriveType) (arg : Nat) : Nat := if type ≠ .sdhc then arg / blocksize else arg

/-- Reads at most so many requests. -/
def requestsIn (type : DriveType) : Nat → List UInt8 → List CardRequest
  | 0, _ => []
  | n + 1, bytes =>
    let blkno := blockOf type (argOf ((bytes.drop 1).take 4))
    let body := bytes.drop 7
    if bytes.headD 0 = 0x40 ||| cmdReadSingleBlock then .read blkno :: requestsIn type n (bytes.drop 6)
    else if bytes.headD 0 = 0x40 ||| cmdWriteSingleBlock then
      if (bytes.drop 6).headD 0 = 0xfe then
        .write blkno (some (Buf.zero.fill 0 (fun k => body.getD k 0) blocksize)) :: requestsIn type n (body.drop 514)
      else .write blkno none :: requestsIn type n (bytes.drop 6)
    else []

/-- The requests in what a card is sent. -/
def cardRequests (type : DriveType) (bytes : List UInt8) : List CardRequest := requestsIn type bytes.length bytes

theorem argOf_argBytes {a : Nat} (h : a < 2 ^ 32) : argOf (argBytes a) = a := by
  simp only [argOf, argBytes, List.foldl_cons, List.foldl_nil, UInt8.toNat_ofNat', Nat.shiftRight_eq_div_pow]
  omega

/-- The card finds the block again. -/
theorem blockOf_address {blkno : Nat} (hfit : s.type = .sdhc ∨ s.blkCount ≤ 2 ^ 23) (hcount : s.blkCount < 2 ^ 32)
    (h : blkno < s.blkCount) : blockOf s.type (argOf (argBytes (s.address blkno))) = blkno := by
  rw [Mmc.address, blockOf]
  by_cases htype : s.type = .sdhc
  · rw [if_neg (not_not_intro htype), if_neg (not_not_intro htype), argOf_argBytes (by omega)]
  · have hfew : s.blkCount ≤ 2 ^ 23 := hfit.resolve_left htype
    rw [if_pos htype, if_pos htype, argOf_argBytes (Nat.mod_lt _ (by omega)), Nat.shiftLeft_eq, blocksizeWidth, blocksize]
    omega

theorem requestsIn_read {type : DriveType} {a n : Nat} {rest : List UInt8} :
    requestsIn type (n + 1) (frame cmdReadSingleBlock a ++ rest) =
      .read (blockOf type (argOf (argBytes a))) :: requestsIn type n rest := rfl

theorem requestsIn_refused {type : DriveType} {a n : Nat} {rest : List UInt8} (h : rest.headD 0 ≠ 0xfe) :
    requestsIn type (n + 1) (frame cmdWriteSingleBlock a ++ rest) =
      .write (blockOf type (argOf (argBytes a))) none :: requestsIn type n rest := if_neg h

theorem requestsIn_write {type : DriveType} {a n : Nat} {data : Block} {rest : List UInt8} :
    requestsIn type (n + 1) (frame cmdWriteSingleBlock a ++ blockBytes data ++ rest) =
      .write (blockOf type (argOf (argBytes a))) (some data) :: requestsIn type n rest := by
  have hbody : blockBytes data ++ rest = 0xfe :: (data.slice 0 blocksize ++ (0xff :: 0xff :: rest)) := by
    rw [blockBytes, List.cons_append, List.cons_append, List.append_assoc]
    rfl
  have hdrop : (data.slice 0 blocksize ++ (0xff :: 0xff :: rest)).drop 514 = rest := by
    rw [List.drop_append, List.drop_of_length_le (by rw [Buf.slice_length, blocksize]; omega), Buf.slice_length,
      List.nil_append]
    rfl
  have hblock : Buf.zero.fill 0 (fun k => (data.slice 0 blocksize ++ (0xff :: 0xff :: rest)).getD k 0) blocksize =
      data := by
    refine fill_block _ _ _ fun m hm => ?_
    rw [List.getD_append _ _ _ _ (by rw [Buf.slice_length]; exact hm), List.getD_eq_getElem _ _
      (by rw [Buf.slice_length]; exact hm), Buf.slice_getElem, Nat.zero_add]
  rw [List.append_assoc, hbody]
  show CardRequest.write _
    (some (Buf.zero.fill 0 (fun k => (data.slice 0 blocksize ++ (0xff :: 0xff :: rest)).getD k 0) blocksize)) ::
    requestsIn type n ((data.slice 0 blocksize ++ (0xff :: 0xff :: rest)).drop 514) = _
  rw [hblock, hdrop]
  rfl

/-- A packet never starts with a start byte, so a refused write is told from one with its block. -/
theorem wire_head (address : Nat → Nat) (ts : List (Transfer × Outcome)) : (wire address ts).headD 0 ≠ 0xfe := by
  cases ts with
  | nil => exact (by decide : (0 : UInt8) ≠ 0xfe)
  | cons x ts =>
    obtain ⟨t, o⟩ := x
    cases t with
    | read blkno data => exact (by decide : (0x40 ||| cmdReadSingleBlock : UInt8) ≠ 0xfe)
    | write blkno data => cases o <;> exact (by decide : (0x40 ||| cmdWriteSingleBlock : UInt8) ≠ 0xfe)

theorem requestsIn_wire (hfit : s.type = .sdhc ∨ s.blkCount ≤ 2 ^ 23) (hcount : s.blkCount < 2 ^ 32) (n : Nat)
    (hn : ts.length ≤ n) (hlt : ∀ x ∈ ts, x.1.blkno < s.blkCount) :
    requestsIn s.type n (wire s.address ts) = ts.map fun x => x.1.request x.2 := by
  induction ts generalizing n with
  | nil => cases n <;> rfl
  | cons x ts ih =>
    obtain ⟨n, rfl⟩ : ∃ n', n = n' + 1 := ⟨n - 1, by rw [List.length_cons] at hn; omega⟩
    have hrest := ih n (Nat.le_of_succ_le_succ hn) fun y hy => hlt y (List.mem_cons_of_mem _ hy)
    obtain ⟨t, o⟩ := x
    have hblock : blockOf s.type (argOf (argBytes (s.address t.blkno))) = t.blkno :=
      blockOf_address hfit hcount (hlt _ List.mem_cons_self)
    rw [wire, List.flatMap_cons, ← wire, List.map_cons, ← hrest]
    cases t with
    | read blkno data => exact requestsIn_read.trans (congrArg (fun b => CardRequest.read b :: _) hblock)
    | write blkno data =>
      cases o with
      | refused =>
        exact (requestsIn_refused (wire_head _ ts)).trans (congrArg (fun b => CardRequest.write b none :: _) hblock)
      | done => exact requestsIn_write.trans (congrArg (fun b => CardRequest.write b (some data) :: _) hblock)
      | timedOut | rejected =>
        exact requestsIn_write.trans (congrArg (fun b => CardRequest.write b (some data) :: _) hblock)

theorem packet_ne_nil (address : Nat → Nat) (t : Transfer) (o : Outcome) : 1 ≤ (t.packet address o).length := by
  cases t with
  | read blkno data => exact Nat.le_add_left 1 _
  | write blkno data => cases o <;> exact Nat.le_add_left 1 _

theorem wire_length (address : Nat → Nat) (ts : List (Transfer × Outcome)) : ts.length ≤ (wire address ts).length := by
  induction ts with
  | nil => exact Nat.le_refl 0
  | cons x ts ih =>
    have h := packet_ne_nil address x.1 x.2
    rw [wire, List.flatMap_cons, ← wire, List.length_append, List.length_cons]
    omega

/-! ## Main result -/

/-- The drive a card is to the file system, when the transfers of a run end so. -/
def cardDrive (s : Mmc) (ts : List (Transfer × Outcome)) : Drive where
  blkCount := some s.blkCount
  fails k := decide ((ts.map Prod.snd).getD k .done ≠ .done)
  setsOk := false

theorem cardDrive_fails {x : Transfer × Outcome} (h : ts[k]? = some x) :
    (cardDrive s ts).fails k = decide (x.2 ≠ .done) := by
  show decide ((ts.map Prod.snd).getD k .done ≠ .done) = _
  rw [List.getD_eq_getElem?_getD, List.getElem?_map, h]
  rfl

/-- **After start-up the card is the drive of the file system.** Over any conversation
on blocks of the card, whatever its pace and whichever transfers it refuses, times out on
or rejects the data of, it was sent the requests for the blocks the file system meant.
Where it rejects no data, every use shows the same buffer and the same `tfs_last_error`
as on the drive where the transfers that are not done fail, and both end with the same blocks. -/
theorem driveInit_drives (card : Card) (s : Mmc) (hs : (driveInit card boot).2 = s) (hok : s.tfsLastError = .ok)
    (hfit : HighCapacity s.blocks ∨ OffsetsFit (csdOf s.blocks)) (us : List Use) (ts : List (Transfer × Outcome))
    (j : Nat) (hconv : Conversation card mem s.rx us ts mem' j) (hlt : ∀ x ∈ ts, x.1.blkno < s.blkCount) (e : Env)
    (he : e.drive = cardDrive s ts) :
    ∃ seen s', runCard card us s = (seen, s') ∧
      cardRequests s.type (s'.sent.drop s.sent.length) = (ts.map fun x => x.1.request x.2) ∧
      ((∀ x ∈ ts, x.2 ≠ .rejected) → ∃ d', (do TinyFs.driveInit e; runDrive e us) (State.boot mem) = some (seen, d') ∧
        d'.dev = mem' ∧ d'.tfsLastError = s'.tfsLastError) := by
  subst hs
  obtain ⟨hcount, htype⟩ := driveInit_ok rfl hok
  have hcount32 := csdBlkCount_lt (csdOf (driveInit card boot).2.blocks)
  rw [← hcount] at hcount32
  have hfit' : (driveInit card boot).2.type = .sdhc ∨ (driveInit card boot).2.blkCount ≤ 2 ^ 23 := by
    rw [htype, hcount, csdBlkCount_le]
    exact hfit
  obtain ⟨seen, s', hcard, hmoved⟩ := runCard_moved hconv rfl
  refine ⟨seen, s', hcard, ?_, fun hkept => ?_⟩
  · rw [hmoved.sent, List.drop_left, cardRequests]
    exact requestsIn_wire hfit' hcount32 _ (wire_length _ ts) hlt
  have hset : e.drive.setsOk = false := by rw [he]; rfl
  have hinit : TinyFs.driveInit e (State.boot mem) =
      some ((), { State.boot mem with tfsLastError := .ok, blkCount := (driveInit card boot).2.blkCount }) := by
    rw [TinyFs.driveInit, Prog.modify_apply, he]
    rfl
  obtain ⟨seen', s'', d', hcard', hdrive, hal⟩ := runCard_alike
    (d := { State.boot mem with tfsLastError := .ok, blkCount := (driveInit card boot).2.blkCount }) hset hconv rfl
    ⟨rfl, hok.symm, rfl⟩ hkept hlt (fun k x hx => by
      show e.drive.fails (0 + k) = _
      rw [he, Nat.zero_add, cardDrive_fails hx])
  rw [hcard] at hcard'
  cases hcard'
  exact ⟨d', (Prog.bind_some hinit).trans hdrive, hal.dev, hal.err⟩

/-- A block that starts with a 7. -/
def sevenBlock : Block := Buf.zero.set 0 7

/-- A card of 2^21 blocks that stores a block, sends it back, and refuses one more read. -/
def storingCard : Card := fun i =>
  if i < 62 then (mmcAnswers ++ [0xff, 0x00, 0xfe] ++ narrowCsd ++ [0xff, 0x00, 0xff, 0xe5, 0xff] ++
    [0xff, 0x00, 0xfe]).getD i 0xff
  else if i < 574 then sevenBlock.get (i - 62)
  else [0, 0, 0xff, 0x04].getD (i - 574) 0xff

def storingUses : List Use :=
  [.setErr .ok, .select, .transfer (.write 3 sevenBlock), .transfer (.read 3 Buf.zero), .transfer (.read 4 Buf.zero),
    .deselect]

def storingTransfers : List (Transfer × Outcome) :=
  [(.write 3 sevenBlock, .done), (.read 3 Buf.zero, .done), (.read 4 Buf.zero, .refused)]

def storingEnv : Env where
  drive := cardDrive (driveInit storingCard boot).2 storingTransfers
  filenameCmp := strncmpName
  maxFds := 4
  fuel := 8

theorem storingCard_converses : Conversation storingCard (fun _ => Buf.zero) 54 storingUses storingTransfers
    (Function.update (fun _ => Buf.zero) 3 sevenBlock) 578 := by
  have hwrite : Serves storingCard (fun _ => Buf.zero) 54 (.write 3 sevenBlock) .done 59 :=
    .write (j := 56) (k := 1) (.byte (j := 0) (by decide) (by decide) (by decide +kernel) (by decide))
      (by unfold accepted; decide +kernel) (by decide) (by decide +kernel) (by decide +kernel)
  have hread : Serves storingCard (Function.update (fun _ => Buf.zero) 3 sevenBlock) 59 (.read 3 Buf.zero) .done 576 :=
    .read (j := 61) (k := 0) (.byte (j := 0) (by decide) (by decide) (by decide +kernel) (by decide)) (by decide)
      (by decide) (by decide +kernel) (fun m hm => by
        rw [storingCard, if_neg (by omega), if_pos (by omega), Function.update_self, Nat.add_sub_cancel_left])
  have hrefuse : Serves storingCard (Function.update (fun _ => Buf.zero) 3 sevenBlock) 576
      (.read 4 Buf.zero) .refused 578 :=
    have hreply : Replies storingCard 576 0x04 578 :=
      .byte (j := 0) (by decide) (by decide) (by decide +kernel) (by decide)
    .refused hreply (by decide)
  refine .quiet (fun t h => Use.noConfusion h) (.quiet (fun t h => Use.noConfusion h) (.transfer hwrite (.transfer hread
    (.transfer hrefuse (.quiet (fun t h => Use.noConfusion h) .nil)))))

theorem driveInit_drives_storing :
    ∃ seen s' d', runCard storingCard storingUses (driveInit storingCard boot).2 = (seen, s') ∧
      cardRequests (driveInit storingCard boot).2.type (s'.sent.drop (driveInit storingCard boot).2.sent.length) =
        (storingTransfers.map fun x => x.1.request x.2) ∧
      (do TinyFs.driveInit storingEnv; runDrive storingEnv storingUses) (State.boot fun _ => Buf.zero) = some (seen, d') ∧
      d'.dev = Function.update (fun _ => Buf.zero) 3 sevenBlock ∧ d'.tfsLastError = s'.tfsLastError := by
  have hrx : (driveInit storingCard boot).2.rx = 54 := by decide +kernel
  have hcount : (driveInit storingCard boot).2.blkCount = 2 ^ 21 := by decide +kernel
  have hlt : ∀ x ∈ storingTransfers, x.1.blkno < (driveInit storingCard boot).2.blkCount := by
    rw [hcount]
    intro x hx
    simp only [storingTransfers, List.mem_cons, List.not_mem_nil, or_false] at hx
    rcases hx with rfl | rfl | rfl <;> decide
  have hkept : ∀ x ∈ storingTransfers, x.2 ≠ .rejected := by
    intro x hx
    simp only [storingTransfers, List.mem_cons, List.not_mem_nil, or_false] at hx
    rcases hx with rfl | rfl | rfl <;> decide
  obtain ⟨seen, s', hcard, hreq, hdrive⟩ := driveInit_drives storingCard _ rfl (by decide +kernel)
    (.inr (by unfold OffsetsFit; decide +kernel)) storingUses storingTransfers 578
      (by rw [hrx]; exact storingCard_converses) hlt
    storingEnv rfl
  obtain ⟨d', hrun, hdev, herr⟩ := hdrive hkept
  exact ⟨seen, s', d', hcard, hreq, hrun, hdev, herr⟩

end Mmc

end TinyFs
