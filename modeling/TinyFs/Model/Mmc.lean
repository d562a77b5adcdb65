/-
The SD and MMC driver, `mmc.c`: the start-up conversation with a card, the
registers it reads, and the transfer of one block.

The card is the stream of the bytes it answers with. `spi_rec_byte` and
`spi_read_block` take from it; what the line carries while the driver sends is
dropped by the code and is not part of it. A loop counts its tries, so every
function here returns.
-/
import TinyFs.Model.Types

namespace TinyFs

open Bytes

/-! ## Constants -/

/-- `DRIVE_TYPE_EMU` to `DRIVE_TYPE_SDHC` -/
inductive DriveType
  | emu | mmc | sdv1 | sdv2 | sdhc
  deriving DecidableEq

def cmdGoIdleState : UInt8 := 0x00
def cmdSendOpCond : UInt8 := 0x01
def cmdSendIfCond : UInt8 := 0x08
def cmdSendCsd : UInt8 := 0x09
def cmdSendCid : UInt8 := 0x0a
def cmdSetBlocklen : UInt8 := 0x10
def cmdReadSingleBlock : UInt8 := 0x11
def cmdWriteSingleBlock : UInt8 := 0x18
def cmdSdSendOpCond : UInt8 := 0x29
def cmdApp : UInt8 := 0x37
def cmdReadOcr : UInt8 := 0x3a

/-- `STATE_IDLE_STATE`, `STATE_ILL_COMMAND` -/
def stateIdleState : UInt8 := 0x01
def stateIllCommand : UInt8 := 0x04

/-- `TIMEOUT` -/
def timeout : Nat := 0x7fff

/-- `TFS_BLOCKSIZE_WIDTH`, `TFS_BLOCKSIZE` -/
def blocksizeWidth : Nat := 9
def blocksize : Nat := 512

/-! ## The state -/

/-- The variables of the driver (`tfs_drive_info`, `tmp_buf`, `tfs_last_error`)
and the line: whether the card is selected, how many of its bytes have been
taken, the blocks `spi_read_block` returned, the latest first, and the bytes
sent. -/
structure Mmc where
  type : DriveType
  blkCount : Nat
  model : List UInt8
  serno : List UInt8
  tmpBuf : List UInt8
  tfsLastError : Err
  selected : Bool
  rx : Nat
  blocks : List (List UInt8)
  sent : List UInt8

/-- The bytes a card answers with, in order. -/
abbrev Card := Nat → UInt8

/-- A function of the driver. -/
abbrev Spi := StateM Mmc

/-- The variables before `drive_init`. -/
def Mmc.boot : Mmc :=
  { type := .emu, blkCount := 0, model := [], serno := [], tmpBuf := List.replicate 18 0, tfsLastError := .ok,
    selected := false, rx := 0, blocks := [], sent := [] }

/-! ## The line -/

/-- `spi_rec_byte()` -/
def spiRecByte (card : Card) : Spi UInt8 := fun s => (card s.rx, { s with rx := s.rx + 1 })

/-- `spi_send_byte(b)` -/
def spiSendByte (b : UInt8) : Spi Unit := modify fun s => { s with sent := s.sent ++ [b] }

/-- `spi_read_block(data, len)`, the bytes it stores at `data`. -/
def spiReadBlock (card : Card) (len : Nat) : Spi (List UInt8) := fun s =>
  let data := (List.range len).map fun k => card (s.rx + k)
  (data, { s with rx := s.rx + len, blocks := data :: s.blocks })

/-- `spi_write_block(data, len)` -/
def spiWriteBlock (data : Block) (len : Nat) : Spi Unit := modify fun s =>
  { s with sent := s.sent ++ data.slice 0 len }

/-- `drive_select()` -/
def Mmc.driveSelect : Spi Unit := modify fun s => { s with selected := true }

/-- `drive_deselect()` -/
def Mmc.driveDeselect : Spi Unit := modify fun s => { s with selected := false }

/-- `spi_read_block(tmp_buf, len)` -/
def readTmpBuf (card : Card) (len : Nat) : Spi Unit := do
  let data ← spiReadBlock card len
  modify fun s => { s with tmpBuf := data ++ s.tmpBuf.drop len }

/-- `tmp_buf[i]` -/
def tmpByte (i : Nat) : Spi UInt8 := fun s => (s.tmpBuf.getD i 0, s)

/-- The loop of `wait_byte`; its argument is the variable `timeout`. -/
def waitByteLoop (card : Card) (val : UInt8) : Nat → Spi Bool
  | 0 => do
    let b ← spiRecByte card
    pure (b = val)
  | n + 1 => do
    let b ← spiRecByte card
    if b = val then pure true else waitByteLoop card val n

def waitByte (card : Card) (val : UInt8) : Spi Bool := waitByteLoop card val timeout

/-- The loop of `send_command` that takes the response: at most so many bytes,
up to the first one that is not `0xff`. -/
def recResponse (card : Card) : Nat → Spi UInt8
  | 0 => pure 0xff
  | n + 1 => do
    let resp ← spiRecByte card
    if resp = 0xff then recResponse card n else pure resp

/-- The checksum `send_command` sends. -/
def commandCrc (command : UInt8) : UInt8 :=
  if command = cmdGoIdleState then 0x95
  else if command = cmdSendIfCond then 0x87
  else 0xff

def sendCommand (card : Card) (command : UInt8) (arg : Nat) : Spi UInt8 := do
  let _ ← spiRecByte card
  spiSendByte (0x40 ||| command)
  spiSendByte (UInt8.ofNat (arg >>> 24))
  spiSendByte (UInt8.ofNat (arg >>> 16))
  spiSendByte (UInt8.ofNat (arg >>> 8))
  spiSendByte (UInt8.ofNat (arg >>> 0))
  spiSendByte (commandCrc command)
  recResponse card 10

/-! ## The registers -/

/-- `hex_char`, an ASCII character. -/
def hexChar (val : UInt8) : UInt8 :=
  let v := val &&& 0x0f
  if v ≥ 10 then 65 + v - 10 else 48 + v

/-- `tfs_drive_info.model` from the CID register. -/
def cidModel (p : List UInt8) : List UInt8 :=
  let byte (i : Nat) : UInt8 := p.getD i 0
  [byte 3, byte 4, byte 5, byte 6, byte 7, 32, 77, 70, hexChar (byte 0 >>> 4), hexChar (byte 0),
    32, 82, hexChar (byte 8 >>> 4), hexChar (byte 8),
    32, 77, 68, hexChar (byte 13), hexChar (byte 14 >>> 4), 47, hexChar (byte 14), 0]

/-- `tfs_drive_info.serno` from the CID register. -/
def cidSerno (p : List UInt8) : List UInt8 :=
  let byte (i : Nat) : UInt8 := p.getD i 0
  [hexChar (byte 9 >>> 4), hexChar (byte 9), hexChar (byte 10 >>> 4), hexChar (byte 10),
    hexChar (byte 11 >>> 4), hexChar (byte 11), hexChar (byte 12 >>> 4), hexChar (byte 12), 0]

/-- `csd_structure` -/
def csdStructure (p : List UInt8) : UInt8 := p.getD 0 0 >>> 6

/-- `csd_c_size` of the newer structure, before its increment. -/
def csdCSize (p : List UInt8) : Nat :=
  (p.getD 7 0 &&& 0x3f).toNat <<< 16 ||| (p.getD 8 0).toNat <<< 8 ||| (p.getD 9 0).toNat

/-- `csd_c_size` of the older structure, before its increment. -/
def csdCSizeV1 (p : List UInt8) : Nat :=
  (p.getD 6 0 &&& 0x03).toNat <<< 10 ||| (p.getD 7 0).toNat <<< 2 ||| (p.getD 8 0 >>> 6).toNat

/-- `csd_c_size_mult + csd_read_bl_len + 2` -/
def csdShift (p : List UInt8) : Nat :=
  (((p.getD 9 0 &&& 0x03) <<< 1) ||| (p.getD 10 0 >>> 7)).toNat + (p.getD 5 0 &&& 0x0f).toNat + 2

/-- `tfs_drive_info.blk_count` from the CSD register. -/
def csdBlkCount (p : List UInt8) : Nat :=
  if csdStructure p = 0x01 then (csdCSize p + 1) * 1024 % 2 ^ 32
  else ((csdCSizeV1 p + 1) <<< csdShift p % 2 ^ 32) >>> blocksizeWidth

/-! ## Start-up -/

/-- A step that may `goto fail`, and the steps behind it. -/
def orFail (p q : Spi Bool) : Spi Bool := do
  let ok ← p
  if ok then q else pure false

/-- A command that must be answered with zero. -/
def commandOk (card : Card) (command : UInt8) (arg : Nat) : Spi Bool := do
  let resp ← sendCommand card command arg
  pure (resp = 0)

/-- A register: its command, the start byte, and 18 bytes. -/
def readRegister (card : Card) (command : UInt8) : Spi Bool :=
  orFail (commandOk card command 0) <| orFail (waitByte card 0xfe) do
    readTmpBuf card 18
    pure true

def getInfo (card : Card) : Spi Bool :=
  orFail (readRegister card cmdSendCid) <| do
    modify fun s => { s with model := cidModel s.tmpBuf, serno := cidSerno s.tmpBuf }
    orFail (readRegister card cmdSendCsd) do
      modify fun s => { s with blkCount := csdBlkCount s.tmpBuf }
      pure true

/-- `tfs_drive_info.type = type` -/
def setType (type : DriveType) : Spi Unit := modify fun s => { s with type := type }

/-- The loop of `drive_init` that resets the card; its argument is `0x1ff - i`. -/
def resetLoop (card : Card) : Nat → Spi Bool
  | 0 => do
    let resp ← sendCommand card cmdGoIdleState 0
    pure (resp = stateIdleState)
  | n + 1 => do
    let resp ← sendCommand card cmdGoIdleState 0
    if resp = stateIdleState then pure true else resetLoop card n

/-- The part of `drive_init` that finds the version of the card. -/
def checkVersion (card : Card) : Spi Bool := do
  let resp ← sendCommand card cmdSendIfCond (0x100 ||| 0xaa)
  if resp &&& stateIllCommand = 0 then
    readTmpBuf card 4
    let voltage ← tmpByte 2
    let pattern ← tmpByte 3
    if voltage &&& 0x01 = 0 then pure false
    else if pattern ≠ 0xaa then pure false
    else
      setType .sdv2
      pure true
  else
    let _ ← sendCommand card cmdApp 0
    let resp ← sendCommand card cmdSdSendOpCond 0
    if resp &&& stateIllCommand = 0 then setType .sdv1
    pure true

/-- The command that asks whether a card of this type is ready. -/
def sendOpCond (card : Card) (type : DriveType) : Spi UInt8 :=
  if type = .mmc then sendCommand card cmdSendOpCond 0
  else do
    let _ ← sendCommand card cmdApp 0
    if type = .sdv2 then sendCommand card cmdSdSendOpCond 0x40000000
    else sendCommand card cmdSdSendOpCond 0

/-- The loop of `drive_init` that waits for the card; its argument is `TIMEOUT - i`. -/
def readyLoop (card : Card) : Nat → Spi Bool
  | 0 => do
    let resp ← sendOpCond card (← get).type
    pure (resp &&& stateIdleState = 0)
  | n + 1 => do
    let resp ← sendOpCond card (← get).type
    if resp &&& stateIdleState = 0 then pure true else readyLoop card n

/-- The part of `drive_init` that reads the OCR register. -/
def readOcr (card : Card) : Spi Bool := do
  if (← get).type = .sdv2 then
    orFail (commandOk card cmdReadOcr 0) do
      readTmpBuf card 4
      let ocr ← tmpByte 0
      if ocr &&& 0x40 ≠ 0 then setType .sdhc
      pure true
  else pure true

/-- What `drive_init` does while the card is selected. -/
def identify (card : Card) : Spi Bool :=
  orFail (resetLoop card 0x1ff) <| orFail (checkVersion card) <| orFail (readyLoop card timeout) <|
    orFail (readOcr card) <| orFail (commandOk card cmdSetBlocklen blocksize) <| getInfo card

/-- `drive_init()` -/
def Mmc.driveInit (card : Card) : Spi Unit := do
  setType .mmc
  driveSelect
  let ok ← identify card
  driveDeselect
  modify fun s => { s with tfsLastError := if ok then .ok else .noDev }

/-! ## Blocks -/

/-- The argument for a block: a byte offset if not SDHC. -/
def Mmc.address (s : Mmc) (blkno : Nat) : Nat :=
  if s.type ≠ .sdhc then blkno <<< blocksizeWidth % 2 ^ 32 else blkno

/-- `tfs_last_error = TFS_ERR_IO` -/
def ioError : Spi Unit := modify fun s => { s with tfsLastError := .io }

/-- `drive_read_block(blkno, data)`, and what `data` holds afterwards. -/
def Mmc.driveReadBlock (card : Card) (blkno : Nat) (data : Block) : Spi Block := do
  let resp ← sendCommand card cmdReadSingleBlock ((← get).address blkno)
  if resp ≠ 0 then
    ioError
    pure data
  else if ← waitByte card 0xfe then
    let bytes ← spiReadBlock card blocksize
    readTmpBuf card 2
    pure (data.fill 0 (fun k => bytes.getD k 0) blocksize)
  else
    ioError
    pure data

/-- `drive_write_block(blkno, data)` -/
def Mmc.driveWriteBlock (card : Card) (blkno : Nat) (data : Block) : Spi Unit := do
  let resp ← sendCommand card cmdWriteSingleBlock ((← get).address blkno)
  if resp ≠ 0 then ioError
  else
    let _ ← spiRecByte card
    spiSendByte 0xfe
    spiWriteBlock data blocksize
    spiSendByte 0xff
    spiSendByte 0xff
    if ← waitByte card 0xff then pure () else ioError

end TinyFs
