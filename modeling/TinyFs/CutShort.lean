/-
The two functions that may leave the drive selected. `tfs_write` and `tfs_read`
go on to the next block of the file in the middle of a transfer, and return at
once when it cannot be read. When that happens is read off the medium and the
failures of the drive before the call: `SeekPath` follows the links as `seek`
does, `CutShort` as the loops do. It is the exact condition, for a call that
returns; one that is led in a circle by the links does not.
-/
import TinyFs.BlockFacts
import TinyFs.Bracket

namespace TinyFs

open Bytes

/-- Transfer number `t`, to block `b` of a drive of `n` blocks, succeeds. -/
def TransferOk (e : Env) (n t b : Nat) : Prop := b < n ∧ e.drive.fails t = false

/-- A transfer of `len` bytes is at block `b`, `room` bytes before its end, and the
next drive transfer is number `t`: the link leads to a block that cannot be read,
or from which the transfer is cut short later. When it `writes`, each block is
written before the next one is read. -/
inductive CutShort (e : Env) (n : Nat) (next : Nat → Nat) (writes : Bool) : Nat → Nat → Nat → Nat → Prop
  | mk {t b room len : Nat} : room < len → next b ≠ 0 → (writes = true → TransferOk e n t b) →
      (TransferOk e n (t + writes.toNat) (next b) →
        CutShort e n next writes (t + writes.toNat + 1) (next b) dataLen (len - room)) →
      CutShort e n next writes t b room len

variable {e : Env} {n : Nat} {s s' t : State} {fd pos : Nat} {next : Nat → Nat}

theorem transferOk_iff {b : Nat} : transferOk e s b = true ↔ TransferOk e s.blkCount s.log.transfers b := by
  simp [transferOk, TransferOk]

/-- A transfer with no error pending: it succeeds, or leaves an I/O error. -/
theorem driveReadBlock_cases (herr : s.tfsLastError = .ok) (b : Nat) :
    (TransferOk e s.blkCount s.log.transfers b ∧ driveReadBlock e b .blkBuf s =
      some ((), { s with blkBuf := s.dev b, log := s.log.transfer (.read b true) })) ∨
    (¬ TransferOk e s.blkCount s.log.transfers b ∧ driveReadBlock e b .blkBuf s =
      some ((), { s with tfsLastError := .io, log := s.log.transfer (.read b false) })) := by
  by_cases hok : transferOk e s b = true
  · refine .inl ⟨transferOk_iff.mp hok, ?_⟩
    simp [driveReadBlock, hok, State.setBuf, errAfter, herr]
  · refine .inr ⟨fun h => hok (transferOk_iff.mpr h), ?_⟩
    simp [driveReadBlock, hok]

theorem driveWriteBlock_cases (herr : s.tfsLastError = .ok) (b : Nat) :
    (TransferOk e s.blkCount s.log.transfers b ∧ driveWriteBlock e b .blkBuf s =
      some ((), { s with dev := Function.update s.dev b s.blkBuf, log := s.log.transfer (.write b true) })) ∨
    (¬ TransferOk e s.blkCount s.log.transfers b ∧ driveWriteBlock e b .blkBuf s =
      some ((), { s with tfsLastError := .io, log := s.log.transfer (.write b false) })) := by
  by_cases hok : transferOk e s b = true
  · refine .inl ⟨transferOk_iff.mp hok, ?_⟩
    simp [driveWriteBlock, hok, State.buf, errAfter, herr]
  · refine .inr ⟨fun h => hok (transferOk_iff.mpr h), ?_⟩
    simp [driveWriteBlock, hok]

/-! ## Where a seek ends -/

/-- A block of a file and where its data starts in the file, when the next drive
transfer is number `transfers`. -/
structure FilePos where
  blk : Nat
  pos : Nat
  transfers : Nat

/-- The step of the first loop of `seek`, over the link back, and that of the second. -/
def FilePos.back (dev : Nat → Block) (p : FilePos) : FilePos :=
  { blk := (dev p.blk).prev, pos := (p.pos + 2 ^ 32 - dataLen) % 2 ^ 32, transfers := p.transfers + 1 }

def FilePos.forward (dev : Nat → Block) (p : FilePos) : FilePos :=
  { blk := (dev p.blk).next, pos := (p.pos + dataLen) % 2 ^ 32, transfers := p.transfers + 1 }

/-- The links of a medium of `n` blocks lead from `p` to the block with `pos`, at `q`
when that is read: back while the data starts behind `pos`, then forward. Every block
on the way can be read. -/
inductive SeekPath (e : Env) (n : Nat) (dev : Nat → Block) (pos : Nat) : FilePos → FilePos → Prop
  | here {p : FilePos} : p.blk ≠ 0 → p.pos ≤ pos → pos < p.pos + dataLen → TransferOk e n p.transfers p.blk →
      SeekPath e n dev pos p { p with transfers := p.transfers + 1 }
  | back {p q : FilePos} : p.blk ≠ 0 → pos < p.pos → TransferOk e n p.transfers p.blk → (dev p.blk).prev ≠ 0 →
      SeekPath e n dev pos (p.back dev) q → SeekPath e n dev pos p q
  | forward {p q : FilePos} : p.blk ≠ 0 → p.pos + dataLen ≤ pos → TransferOk e n p.transfers p.blk →
      SeekPath e n dev pos (p.forward dev) q → SeekPath e n dev pos p q

/-- Where the cursor of a handle is. -/
def State.filePos (s : State) (fd : Nat) : FilePos :=
  { blk := (s.handles fd).currBlk, pos := (s.handles fd).currPos, transfers := s.log.transfers }

/-- Where a seek to `pos` starts. -/
def State.seekStart (s : State) (fd pos : Nat) : FilePos :=
  if pos = 0 ∨ (s.handles fd).currBlk = 0 then
    { blk := (s.handles fd).firstBlk, pos := 0, transfers := s.log.transfers }
  else s.filePos fd

variable {dev : Nat → Block} {p q : FilePos}

theorem State.filePos_of {b k x : Nat} {h : Handle} (hh : s.handles fd = { h with currBlk := b, currPos := x })
    (hk : s.log.transfers = k) : s.filePos fd = { blk := b, pos := x, transfers := k } := by
  rw [State.filePos, hh, hk]

theorem SeekPath.blk_ne (h : SeekPath e n dev pos p q) : p.blk ≠ 0 := by
  cases h <;> assumption

theorem SeekPath.readable (h : SeekPath e n dev pos p q) : TransferOk e n p.transfers p.blk := by
  cases h <;> assumption

/-- It ends in the block with `pos`. -/
theorem SeekPath.inside (h : SeekPath e n dev pos p q) : q.pos ≤ pos ∧ pos < q.pos + dataLen := by
  induction h with
  | here _ hle hlt _ => exact ⟨hle, hlt⟩
  | back _ _ _ _ _ ih => exact ih
  | forward _ _ _ _ ih => exact ih

theorem seekPath_back (hb : p.blk ≠ 0) (hlt : pos < p.pos) (hok : TransferOk e n p.transfers p.blk) :
    SeekPath e n dev pos p q ↔ (dev p.blk).prev ≠ 0 ∧ SeekPath e n dev pos (p.back dev) q := by
  constructor
  · intro h
    cases h with
    | here _ hle _ _ => omega
    | back _ _ _ hprev h => exact ⟨hprev, h⟩
    | forward _ hle _ _ => omega
  · rintro ⟨hprev, h⟩
    exact .back hb hlt hok hprev h

theorem seekPath_forward (hb : p.blk ≠ 0) (hle : p.pos + dataLen ≤ pos) (hok : TransferOk e n p.transfers p.blk) :
    SeekPath e n dev pos p q ↔ SeekPath e n dev pos (p.forward dev) q := by
  constructor
  · intro h
    cases h with
    | here _ _ hlt _ => omega
    | back _ hlt _ _ _ => omega
    | forward _ _ _ h => exact h
  · exact fun h => .forward hb hle hok h

theorem seekPath_here (hb : p.blk ≠ 0) (hle : p.pos ≤ pos) (hlt : pos < p.pos + dataLen)
    (hok : TransferOk e n p.transfers p.blk) :
    SeekPath e n dev pos p q ↔ q = { p with transfers := p.transfers + 1 } := by
  constructor
  · intro h
    cases h with
    | here _ _ _ _ => rfl
    | back _ hgt _ _ _ => omega
    | forward _ hge _ _ => omega
  · rintro rfl
    exact .here hb hle hlt hok

/-- Between two states of a seek only blocks were read. -/
structure Sought (s t : State) : Prop where
  err : t.tfsLastError = .ok
  dev : t.dev = s.dev
  blkCount : t.blkCount = s.blkCount

theorem Sought.trans {s₁ : State} (h : Sought s s₁) (h' : Sought s₁ t) : Sought s t :=
  ⟨h'.err, h'.dev.trans h.dev, h'.blkCount.trans h.blkCount⟩

/-- The first loop goes back along the path, or there is none. -/
theorem seekBack_path : ∀ fuel s {ok : Bool}, seekBack e fd pos fuel s = some (ok, t) → s.tfsLastError = .ok →
    (ok = true ∧ Sought s t ∧ ((t.handles fd).currBlk = 0 ∨ (t.handles fd).currPos ≤ pos) ∧
      ∀ q, SeekPath e s.blkCount s.dev pos (s.filePos fd) q ↔ SeekPath e s.blkCount s.dev pos (t.filePos fd) q) ∨
    (ok = false ∧ t.tfsLastError ≠ .ok ∧ ∀ q, ¬ SeekPath e s.blkCount s.dev pos (s.filePos fd) q)
  | 0, _, _, h, _ => by cases h
  | fuel + 1, s, ok, h, herr => by
    unfold seekBack at h
    rw [handle_bind] at h
    by_cases hgo : (s.handles fd).currBlk ≠ 0 ∧ (s.handles fd).currPos > pos
    · rw [if_pos hgo] at h
      have hb : (s.filePos fd).blk ≠ 0 := hgo.1
      rcases driveReadBlock_cases herr (s.handles fd).currBlk with ⟨hread, hrun⟩ | ⟨hread, hrun⟩
      · have hback : ∀ q, SeekPath e s.blkCount s.dev pos (s.filePos fd) q ↔
            (s.dev (s.handles fd).currBlk).prev ≠ 0 ∧ SeekPath e s.blkCount s.dev pos ((s.filePos fd).back s.dev) q :=
          fun q => seekPath_back hb hgo.2 hread
        rw [Prog.bind_some hrun, ifOk_ok (by exact herr), blkBuf_bind] at h
        by_cases hprev : (s.dev (s.handles fd).currBlk).prev = 0
        · rw [if_pos hprev] at h
          cases h
          exact .inr ⟨rfl, Err.noConfusion, fun q hq => ((hback q).mp hq).1 hprev⟩
        · rw [if_neg hprev, modifyHandle_bind] at h
          obtain ⟨s₁, hs₁⟩ : ∃ s₁ : State, s₁ = { s with
            blkBuf := s.dev (s.handles fd).currBlk
            log := s.log.transfer (.read (s.handles fd).currBlk true)
            handles := Function.update s.handles fd { s.handles fd with
              currBlk := (s.dev (s.handles fd).currBlk).prev
              currPos := ((s.handles fd).currPos + 2 ^ 32 - dataLen) % 2 ^ 32 } } := ⟨_, rfl⟩
          rw [← hs₁] at h
          have hsought : Sought s s₁ := by
            rw [hs₁]
            exact ⟨herr, rfl, rfl⟩
          have hpos : s₁.filePos fd = (s.filePos fd).back s.dev := by
            refine State.filePos_of (h := s.handles fd) ?_ (by rw [hs₁]; rfl)
            rw [hs₁]
            exact Function.update_self ..
          have hiff : ∀ q, SeekPath e s.blkCount s.dev pos (s.filePos fd) q ↔ SeekPath e s.blkCount s.dev pos
              (s₁.filePos fd) q := by
            intro q
            rw [hback q, hpos]
            exact and_iff_right hprev
          have ih := seekBack_path fuel s₁ h hsought.err
          rw [hsought.dev, hsought.blkCount] at ih
          rcases ih with ⟨hok, hs, hend, hpath⟩ | ⟨hok, hne, hno⟩
          · exact .inl ⟨hok, hsought.trans hs, hend, fun q => (hiff q).trans (hpath q)⟩
          · exact .inr ⟨hok, hne, fun q hq => hno q ((hiff q).mp hq)⟩
      · rw [Prog.bind_some hrun, ifOk_err (by exact Err.noConfusion)] at h
        cases h
        exact .inr ⟨rfl, Err.noConfusion, fun q hq => hread hq.readable⟩
    · rw [if_neg hgo] at h
      cases h
      exact .inl ⟨rfl, ⟨herr, rfl, rfl⟩, by omega, fun _ => Iff.rfl⟩

/-- The second loop goes forward along the path. -/
theorem seekForward_path : ∀ fuel last s {r : Option (Nat × Nat)}, seekForward e fd pos fuel last s = some (r, t) →
    s.tfsLastError = .ok → ((s.handles fd).currBlk = 0 ∨ (s.handles fd).currPos ≤ pos) →
    ((∃ last, r = some last) ∧ Sought s t ∧
      ((t.handles fd).currBlk = 0 ∨ (t.handles fd).currPos ≤ pos ∧ pos < (t.handles fd).currPos + dataLen) ∧
      ∀ q, SeekPath e s.blkCount s.dev pos (s.filePos fd) q ↔ SeekPath e s.blkCount s.dev pos (t.filePos fd) q) ∨
    (r = none ∧ t.tfsLastError ≠ .ok ∧ ∀ q, ¬ SeekPath e s.blkCount s.dev pos (s.filePos fd) q)
  | 0, _, _, _, h, _, _ => by cases h
  | fuel + 1, last, s, r, h, herr, hle => by
    unfold seekForward at h
    rw [handle_bind] at h
    by_cases hgo : (s.handles fd).currBlk ≠ 0 ∧ (s.handles fd).currPos + dataLen ≤ pos
    · rw [if_pos hgo] at h
      have hb : (s.filePos fd).blk ≠ 0 := hgo.1
      rcases driveReadBlock_cases herr (s.handles fd).currBlk with ⟨hread, hrun⟩ | ⟨hread, hrun⟩
      · have hforward : ∀ q, SeekPath e s.blkCount s.dev pos (s.filePos fd) q ↔
            SeekPath e s.blkCount s.dev pos ((s.filePos fd).forward s.dev) q :=
          fun q => seekPath_forward hb hgo.2 hread
        rw [Prog.bind_some hrun, ifOk_ok (by exact herr), blkBuf_bind, modifyHandle_bind] at h
        obtain ⟨s₁, hs₁⟩ : ∃ s₁ : State, s₁ = { s with
          blkBuf := s.dev (s.handles fd).currBlk
          log := s.log.transfer (.read (s.handles fd).currBlk true)
          handles := Function.update s.handles fd { s.handles fd with
            currBlk := (s.dev (s.handles fd).currBlk).next
            currPos := ((s.handles fd).currPos + dataLen) % 2 ^ 32 } } := ⟨_, rfl⟩
        rw [← hs₁] at h
        have hsought : Sought s s₁ := by
          rw [hs₁]
          exact ⟨herr, rfl, rfl⟩
        have hpos : s₁.filePos fd = (s.filePos fd).forward s.dev := by
          refine State.filePos_of (h := s.handles fd) ?_ (by rw [hs₁]; rfl)
          rw [hs₁]
          exact Function.update_self ..
        have hle₁ : (s₁.handles fd).currPos ≤ pos := by
          have hmod := Nat.mod_le ((s.handles fd).currPos + dataLen) (2 ^ 32)
          rw [hs₁]
          show (Function.update s.handles fd _ fd).currPos ≤ pos
          rw [Function.update_self]
          exact hmod.trans hgo.2
        have ih := seekForward_path fuel _ s₁ h hsought.err (.inr hle₁)
        rw [hsought.dev, hsought.blkCount, hpos] at ih
        rcases ih with ⟨hr, hs, hend, hpath⟩ | ⟨hr, hne, hno⟩
        · exact .inl ⟨hr, hsought.trans hs, hend, fun q => (hforward q).trans (hpath q)⟩
        · exact .inr ⟨hr, hne, fun q hq => hno q ((hforward q).mp hq)⟩
      · rw [Prog.bind_some hrun, ifOk_err (by exact Err.noConfusion)] at h
        cases h
        exact .inr ⟨rfl, Err.noConfusion, fun q hq => hread hq.readable⟩
    · rw [if_neg hgo] at h
      cases h
      exact .inl ⟨⟨last, rfl⟩, ⟨herr, rfl, rfl⟩, by omega, fun _ => Iff.rfl⟩

theorem seekAppend_append : ∀ fuel s {r : Seek}, seekAppend e fd pos fuel s = some (r, t) → t.tfsLastError = .ok →
    r = .append
  | 0, _, _, h, _ => by cases h
  | fuel + 1, s, r, h, herr => by
    unfold seekAppend at h
    rw [handle_bind] at h
    split at h
    · obtain ⟨_, s₁, _, h⟩ := Prog.bind_eq_some.mp h
      rw [modifyBuf_bind] at h
      obtain ⟨_, s₂, _, h⟩ := Prog.bind_eq_some.mp h
      by_cases herr₂ : s₂.tfsLastError = .ok
      · rw [ifOk_ok herr₂] at h
        exact seekAppend_append fuel _ h herr
      · rw [ifOk_err herr₂] at h
        cases h
        exact absurd herr herr₂
    · cases h
      rfl

/-- Behind the end of the file, a seek that ends well asks to append, or is at its end. -/
theorem seekEnd_behind {append : Bool} {last : Nat × Nat} {r : Seek} (h : seekEnd e fd pos append last s = some (r, t))
    (hcur : (s.handles fd).currBlk = 0) (herr : t.tfsLastError = .ok) : r = if append then .append else .eof := by
  unfold seekEnd at h
  rw [handle_bind, if_neg (not_not_intro hcur)] at h
  cases append with
  | false =>
    cases h
    rfl
  | true =>
    rw [if_neg (by exact Bool.false_ne_true)] at h
    split at h
    · obtain ⟨_, s₁, _, h⟩ := Prog.bind_eq_some.mp h
      rw [modifyHandle_bind] at h
      by_cases herr₁ : s₁.tfsLastError = .ok
      · rw [ifOk_ok (by exact herr₁)] at h
        exact seekAppend_append _ _ h herr
      · rw [ifOk_err (by exact herr₁)] at h
        cases h
        exact absurd herr herr₁
    · exact seekAppend_append _ _ h herr

/-- **A seek follows the path:** it ends well inside the file exactly where there is one,
with the block at its end in the buffer. -/
theorem seek_path {append : Bool} {r : Seek} (h : seek e fd pos append s = some (r, t)) (herr : s.tfsLastError = .ok) :
    (r = .ok ∧ Sought s t ∧ t.blkBuf = t.dev (t.handles fd).currBlk ∧
      ∀ q, SeekPath e s.blkCount s.dev pos (s.seekStart fd pos) q ↔ q = t.filePos fd) ∨
    ((t.tfsLastError = .ok → r = if append then .append else .eof) ∧
      ∀ q, ¬ SeekPath e s.blkCount s.dev pos (s.seekStart fd pos) q) := by
  have hwalk : ∀ s₁ : State, Sought s s₁ → s₁.filePos fd = s.seekStart fd pos →
    seekWalk e fd pos append s₁ = some (r, t) →
      (r = .ok ∧ Sought s t ∧ t.blkBuf = t.dev (t.handles fd).currBlk ∧
        ∀ q, SeekPath e s.blkCount s.dev pos (s.seekStart fd pos) q ↔ q = t.filePos fd) ∨
      ((t.tfsLastError = .ok → r = if append then .append else .eof) ∧
        ∀ q, ¬ SeekPath e s.blkCount s.dev pos (s.seekStart fd pos) q) := by
    intro s₁ hs₁ hstart h
    rw [← hstart, ← hs₁.dev, ← hs₁.blkCount]
    obtain ⟨ok, s₂, hback, h⟩ := Prog.bind_eq_some.mp h
    rcases seekBack_path _ _ hback hs₁.err with ⟨rfl, hs₂, hle, hpath⟩ | ⟨rfl, hne, hno⟩
    · obtain ⟨last, s₃, hforward, h⟩ := Prog.bind_eq_some.mp h
      have hfwd := seekForward_path _ _ _ hforward hs₂.err hle
      rw [hs₂.dev, hs₂.blkCount] at hfwd
      rcases hfwd with ⟨⟨last, rfl⟩, hs₃, hend, hpath'⟩ | ⟨rfl, hne, hno⟩
      · have h : seekEnd e fd pos append last s₃ = some (r, t) := h
        have hall : ∀ q, SeekPath e s₁.blkCount s₁.dev pos (s₁.filePos fd) q ↔
            SeekPath e s₁.blkCount s₁.dev pos (s₃.filePos fd) q := fun q => (hpath q).trans (hpath' q)
        by_cases hcur : (s₃.handles fd).currBlk = 0
        · exact .inr ⟨seekEnd_behind h hcur, fun q hq => ((hall q).mp hq).blk_ne hcur⟩
        · have hin := hend.resolve_left hcur
          have hs := (hs₁.trans hs₂).trans hs₃
          unfold seekEnd at h
          rw [handle_bind, if_pos hcur] at h
          have hcount : s₃.blkCount = s₁.blkCount := hs₃.blkCount.trans hs₂.blkCount
          rcases driveReadBlock_cases hs₃.err (s₃.handles fd).currBlk with ⟨hread, hrun⟩ | ⟨hread, hrun⟩
          · rw [Prog.bind_some hrun, ifOk_ok (by exact hs₃.err)] at h
            rw [hcount] at hread
            cases h
            exact .inl ⟨rfl, ⟨hs₃.err, hs.dev, hs.blkCount⟩, rfl,
              fun q => (hall q).trans (seekPath_here hcur hin.1 hin.2 hread)⟩
          · rw [Prog.bind_some hrun, ifOk_err (by exact Err.noConfusion)] at h
            rw [hcount] at hread
            cases h
            exact .inr ⟨nofun, fun q hq => hread ((hall q).mp hq).readable⟩
      · cases h
        exact .inr ⟨fun herr => absurd herr hne, fun q hq => hno q ((hpath q).mp hq)⟩
    · cases h
      exact .inr ⟨fun herr => absurd herr hne, hno⟩
  unfold seek at h
  rw [handle_bind] at h
  by_cases hinit : pos = 0 ∨ (s.handles fd).currBlk = 0
  · rw [if_pos hinit] at h
    refine hwalk _ ?_ ?_ h
    · exact ⟨herr, rfl, rfl⟩
    · rw [State.seekStart, if_pos hinit]
      exact State.filePos_of (h := s.handles fd) (Function.update_self ..) rfl
  · rw [if_neg hinit] at h
    refine hwalk s ⟨herr, rfl, rfl⟩ ?_ h
    rw [State.seekStart, if_neg hinit]

/-! ## The loops -/

/-- A read is left in the middle where it is cut short. -/
theorem readLoop_exit : ∀ fuel blkOs room len data s b {exit : Exit} {out : List UInt8},
    readLoop e fd fuel blkOs room len data s = some ((exit, out), s') → s.tfsLastError = .ok → s.blkCount = n →
    s.blkBuf.next = next b → (∀ x, (s.dev x).next = next x) →
    (exit = .ret ↔ CutShort e n next false s.log.transfers b room len)
  | 0, _, _, _, _, _, _, _, _, h, _, _, _, _ => by cases h
  | fuel + 1, blkOs, room, len, data, s, b, exit, out, h, herr, hn, hb, hdev => by
    unfold readLoop at h
    rw [blkBuf_bind] at h
    by_cases hmore : room < len
    · rw [if_neg (by omega : ¬ room > len), if_neg (by omega : ¬ len - room = 0), modifyHandle_bind] at h
      by_cases hnext : s.blkBuf.next = 0
      · rw [if_pos hnext] at h
        cases h
        refine ⟨Exit.noConfusion, ?_⟩
        rintro ⟨_, hne, _, _⟩
        exact absurd (hb ▸ hnext) hne
      rw [if_neg hnext] at h
      have hne : next b ≠ 0 := hb ▸ hnext
      obtain ⟨s₁, hs₁⟩ : ∃ s₁ : State, s₁ = { s with
        handles := Function.update s.handles fd { s.handles fd with
          currBlk := s.blkBuf.next, currPos := ((s.handles fd).currPos + dataLen) % 2 ^ 32 } } := ⟨_, rfl⟩
      rw [← hs₁] at h
      have herr₁ : s₁.tfsLastError = .ok := by rw [hs₁]; exact herr
      have hok₁ : TransferOk e s₁.blkCount s₁.log.transfers s.blkBuf.next ↔ TransferOk e n s.log.transfers (next b) := by
        rw [hs₁, ← hn, ← hb]
      rcases driveReadBlock_cases herr₁ s.blkBuf.next with ⟨hok, hrun⟩ | ⟨hok, hrun⟩
      · rw [Prog.bind_some hrun, ifOk_ok (by exact herr₁)] at h
        have ih := readLoop_exit fuel 0 dataLen (len - room) _ _ (next b) h herr₁
          (by rw [hs₁]; exact hn) (by rw [← hb, hs₁]; exact hdev _) (by rw [hs₁]; exact hdev)
        have ht : (s₁.log.transfer (.read s.blkBuf.next true)).transfers = s.log.transfers + 1 := by
          rw [hs₁]
          rfl
        rw [ih]
        show CutShort e n next false (s₁.log.transfer (.read s.blkBuf.next true)).transfers _ _ _ ↔ _
        rw [ht]
        constructor
        · exact fun hcut => .mk hmore hne Bool.noConfusion fun _ => hcut
        · rintro ⟨_, _, _, hcut⟩
          exact hcut (hok₁.mp hok)
      · rw [Prog.bind_some hrun, ifOk_err (by exact Err.noConfusion)] at h
        cases h
        refine ⟨fun _ => .mk hmore hne Bool.noConfusion fun h => ?_, fun _ => rfl⟩
        exact absurd (hok₁.mpr h) hok
    · have hlen : len - (if room > len then len else room) = 0 := by
        split <;> omega
      rw [if_pos hlen] at h
      cases h
      refine ⟨Exit.noConfusion, ?_⟩
      rintro ⟨hlt, _, _, _⟩
      exact absurd hlt hmore

/-- The bytes an iteration of `tfs_write` copies. -/
def WriteVars.chunk (w : WriteVars) : Nat := if w.blkLen > w.len then w.len else w.blkLen

/-- The variables of `tfs_write` after they are copied. -/
def WriteVars.copied (w : WriteVars) (append : Bool) : WriteVars :=
  { w with
    data := w.data.drop w.chunk, len := w.len - w.chunk, offset := (w.offset + w.chunk) % 2 ^ 32, append
    ret := (w.ret + w.chunk) % 2 ^ 32 }

/-- The end of an iteration of `tfs_write`, from the write of the block on. -/
def writeStore (e : Env) (fd : Nat) (w : WriteVars) (k : WriteVars → M (Exit × WriteVars)) : M (Exit × WriteVars) := do
  let h ← handle fd
  driveWriteBlock e h.currBlk .blkBuf
  ifOk (.out, w) do
    let grows := w.offset > h.size
    if grows then modifyHandle fd fun h => { h with size := w.offset }
    let w := { w with updateItem := if grows then true else w.updateItem }
    if w.len = 0 then pure (.done, w)
    else writeNext e fd w.append (k { w with blkOs := 0, blkLen := dataLen }) w

theorem writeLoop_succ (fuel : Nat) (w : WriteVars) : writeLoop e fd (fuel + 1) w = (do
    modifyBuf fun b => b.copyData w.blkOs w.data w.chunk
    let b ← blkBuf
    if (w.copied w.append).len > 0 ∧ b.next = 0 then
      let new ← allocBlock e
      modifyBuf fun b => b.setNext new
      writeStore e fd (w.copied true) (writeLoop e fd fuel)
    else writeStore e fd (w.copied w.append) (writeLoop e fd fuel)) := by
  funext s
  rw [writeLoop, modifyBuf_bind, modifyBuf_bind, blkBuf_bind, blkBuf_bind]
  have hchunk : (if w.blkLen > w.len then w.len else w.blkLen) = w.chunk := rfl
  rw [hchunk]
  by_cases hpre : w.len - w.chunk > 0 ∧ (s.blkBuf.copyData w.blkOs w.data w.chunk).next = 0
  · have hpre' : (w.copied w.append).len > 0 ∧ (s.blkBuf.copyData w.blkOs w.data w.chunk).next = 0 := hpre
    rw [if_pos hpre']
    simp only [if_pos hpre]
    rfl
  · have hpre' : ¬ ((w.copied w.append).len > 0 ∧ (s.blkBuf.copyData w.blkOs w.data w.chunk).next = 0) := hpre
    rw [if_neg hpre']
    simp only [if_neg hpre]
    rfl

/-- Behind the end of the file no block is read. -/
theorem writeStore_append {k : WriteVars → M (Exit × WriteVars)} {w out : WriteVars} {exit : Exit} (hw : w.append = true)
    (hk : ∀ w s, w.append = true → k w s = some ((exit, out), s') → exit ≠ .ret)
    (h : writeStore e fd w k s = some ((exit, out), s')) : exit ≠ .ret := by
  have hend : ∀ (u : Bool) (t : State), (if w.len = 0 then pure (.done, { w with updateItem := u })
      else writeNext e fd w.append (k { w with updateItem := u, blkOs := 0, blkLen := dataLen })
        { w with updateItem := u } : M (Exit × WriteVars)) t = some ((exit, out), s') → exit ≠ .ret := by
    intro u t h
    split at h
    · cases h
      exact Exit.noConfusion
    · rw [writeNext, blkBuf_bind, if_pos hw, handle_bind, modifyBuf_bind, modifyHandle_bind] at h
      exact hk { w with updateItem := u, blkOs := 0, blkLen := dataLen } _ hw h
  unfold writeStore at h
  rw [handle_bind] at h
  obtain ⟨_, s₁, _, h⟩ := Prog.bind_eq_some.mp h
  by_cases herr : s₁.tfsLastError = .ok
  · rw [ifOk_ok herr] at h
    by_cases hg : w.offset > (s.handles fd).size
    · simp only [if_pos hg] at h
      rw [modifyHandle_bind] at h
      exact hend _ _ h
    · simp only [if_neg hg] at h
      exact hend _ _ h
  · rw [ifOk_err herr] at h
    cases h
    exact Exit.noConfusion

theorem writeLoop_append : ∀ fuel w s {exit : Exit} {out : WriteVars}, w.append = true →
    writeLoop e fd fuel w s = some ((exit, out), s') → exit ≠ .ret
  | 0, _, _, _, _, _, h => by cases h
  | fuel + 1, w, s, exit, out, hw, h => by
    rw [writeLoop_succ, modifyBuf_bind, blkBuf_bind] at h
    split at h
    · obtain ⟨_, s₁, _, h⟩ := Prog.bind_eq_some.mp h
      rw [modifyBuf_bind] at h
      exact writeStore_append (w := w.copied true) rfl (fun w s hw => writeLoop_append fuel w s hw) h
    · exact writeStore_append (w := w.copied w.append) hw (fun w s hw => writeLoop_append fuel w s hw) h

/-- A write inside the file is left in the middle where it is cut short. -/
theorem writeLoop_exit : ∀ fuel w s b {exit : Exit} {out : WriteVars}, writeLoop e fd fuel w s = some ((exit, out), s') →
    w.append = false → s.tfsLastError = .ok → s.blkCount = n → (s.handles fd).currBlk = b → s.blkBuf.next = next b →
    (∀ x, (s.dev x).next = next x) → (exit = .ret ↔ CutShort e n next true s.log.transfers b w.blkLen w.len)
  | 0, _, _, _, _, _, h, _, _, _, _, _, _ => by cases h
  | fuel + 1, w, s, b, exit, out, h, hw, herr, hn, hcur, hb, hdev => by
    rw [writeLoop_succ, modifyBuf_bind, blkBuf_bind] at h
    simp only [Block.next_copyData] at h
    split at h
    · -- the file ends here, so the rest is appended
      rename_i hpre
      obtain ⟨_, s₁, _, h⟩ := Prog.bind_eq_some.mp h
      rw [modifyBuf_bind] at h
      have hne := writeStore_append (w := w.copied true) rfl (fun w s hw => writeLoop_append fuel w s hw) h
      refine ⟨fun h => absurd h hne, ?_⟩
      rintro ⟨_, hnext, _, _⟩
      exact absurd (hb ▸ hpre.2) hnext
    rename_i hpre
    unfold writeStore at h
    rw [handle_bind] at h
    obtain ⟨v, hv⟩ : ∃ v, v = s.blkBuf.copyData w.blkOs w.data w.chunk := ⟨_, rfl⟩
    have hvn : v.next = next b := by rw [hv, Block.next_copyData, hb]
    obtain ⟨s₁, hs₁⟩ : ∃ s₁ : State, s₁ = { s with blkBuf := v } := ⟨_, rfl⟩
    rw [← hv, ← hs₁] at h
    have herr₁ : s₁.tfsLastError = .ok := by rw [hs₁]; exact herr
    have hcur₁ : (s₁.handles fd).currBlk = b := by rw [hs₁]; exact hcur
    have hok₁ : TransferOk e s₁.blkCount s₁.log.transfers b ↔ TransferOk e n s.log.transfers b := by rw [hs₁, ← hn]
    rw [hcur₁] at h
    rcases driveWriteBlock_cases herr₁ b with ⟨hok, hrun⟩ | ⟨hok, hrun⟩
    · rw [Prog.bind_some hrun, ifOk_ok (by exact herr₁)] at h
      have hdev₁ : ∀ x, (Function.update s₁.dev b s₁.blkBuf x).next = next x := by
        intro x
        by_cases hx : x = b
        · rw [hx, Function.update_self, hs₁]
          exact hvn
        · rw [Function.update_of_ne hx, hs₁]
          exact hdev x
      have hend : ∀ (u : Bool) (hs : Nat → Handle), (if (w.copied w.append).len = 0 then
            pure (.done, { w.copied w.append with updateItem := u })
          else writeNext e fd (w.copied w.append).append
            (writeLoop e fd fuel { w.copied w.append with updateItem := u, blkOs := 0, blkLen := dataLen })
            { w.copied w.append with updateItem := u } : M (Exit × WriteVars)) { s₁ with
              dev := Function.update s₁.dev b s₁.blkBuf, log := s₁.log.transfer (.write b true), handles := hs } =
          some ((exit, out), s') → (exit = .ret ↔ CutShort e n next true s.log.transfers b w.blkLen w.len) := by
        intro u hs h
        by_cases hmore : w.blkLen < w.len
        · have hchunk : w.chunk = w.blkLen := if_neg (by omega)
          have hlen : (w.copied w.append).len = w.len - w.blkLen := by rw [WriteVars.copied, hchunk]
          have hnext : next b ≠ 0 := fun h0 => hpre ⟨by rw [hlen]; omega, by rw [hb, h0]⟩
          rw [if_neg (by rw [hlen]; omega), writeNext, blkBuf_bind, if_neg (by rw [WriteVars.copied, hw]; exact nofun),
            modifyHandle_bind] at h
          obtain ⟨s₂, hs₂⟩ : ∃ s₂ : State, s₂ = { s₁ with
            dev := Function.update s₁.dev b s₁.blkBuf, log := s₁.log.transfer (.write b true)
            handles := Function.update hs fd { hs fd with currBlk := s₁.blkBuf.next } } := ⟨_, rfl⟩
          have hbuf₁ : s₁.blkBuf.next = next b := by rw [hs₁]; exact hvn
          have ht₂ : s₂.log.transfers = s.log.transfers + 1 := by rw [hs₂, hs₁]; rfl
          rw [← hs₂, hbuf₁] at h
          have herr₂ : s₂.tfsLastError = .ok := by rw [hs₂]; exact herr₁
          have hok₂ : TransferOk e s₂.blkCount s₂.log.transfers (next b) ↔ TransferOk e n (s.log.transfers + 1)
              (next b) := by
            rw [ht₂, hs₂, hs₁, ← hn]
          rcases driveReadBlock_cases herr₂ (next b) with ⟨hok', hrun'⟩ | ⟨hok', hrun'⟩
          · rw [Prog.bind_some hrun', ifOk_ok (by exact herr₂), modifyHandle_bind] at h
            have hdev₂ : ∀ x, (s₂.dev x).next = next x := by rw [hs₂]; exact hdev₁
            have ih := writeLoop_exit fuel _ _ (next b) h hw herr₂ (by rw [hs₂, hs₁]; exact hn)
              (by simp [hs₂, hbuf₁]) (hdev₂ _) hdev₂
            rw [ih]
            show CutShort e n next true (s₂.log.transfers + 1) _ _ (w.copied w.append).len ↔ _
            rw [ht₂, hlen]
            constructor
            · exact fun hcut => .mk hmore hnext (fun _ => hok₁.mp hok) fun _ => hcut
            · rintro ⟨_, _, _, hcut⟩
              exact hcut (hok₂.mp hok')
          · rw [Prog.bind_some hrun', ifOk_err (by exact Err.noConfusion)] at h
            cases h
            refine ⟨fun _ => .mk hmore hnext (fun _ => hok₁.mp hok) fun h => ?_, fun _ => rfl⟩
            exact absurd (hok₂.mpr h) hok'
        · have hlen : (w.copied w.append).len = 0 := by
            have hchunk : w.len ≤ w.chunk := by
              unfold WriteVars.chunk
              split <;> omega
            exact Nat.sub_eq_zero_of_le hchunk
          rw [if_pos hlen] at h
          cases h
          refine ⟨Exit.noConfusion, ?_⟩
          rintro ⟨hlt, _, _, _⟩
          exact absurd hlt hmore
      by_cases hg : (w.copied w.append).offset > (s₁.handles fd).size
      · simp only [if_pos hg] at h
        rw [modifyHandle_bind] at h
        exact hend _ _ h
      · simp only [if_neg hg] at h
        exact hend _ _ h
    · rw [Prog.bind_some hrun, ifOk_err (by exact Err.noConfusion)] at h
      cases h
      refine ⟨Exit.noConfusion, ?_⟩
      rintro ⟨_, _, hwrite, _⟩
      exact absurd (hok₁.mpr (hwrite rfl)) hok

/-! ## The public functions -/

/-- A transfer of `len` bytes from `offset` on finds the block of `offset`, and is cut
short in the blocks that follow. -/
def State.CutShort (e : Env) (s : State) (fd : Nat) (writes : Bool) (len offset : Nat) : Prop :=
  ∃ q, SeekPath e s.blkCount s.dev offset (s.seekStart fd offset) q ∧
    TinyFs.CutShort e s.blkCount (fun b => (s.dev b).next) writes q.transfers q.blk (q.pos + dataLen - offset) len

/-- The call is a write or a read that is not refused, and is cut short. -/
def Op.CutShort (e : Env) (s : State) : Op → Prop
  | .write fd _ len offset => s.tfsLastError ≠ .noDev ∧ ¬ invalidFd e s fd ∧ s.CutShort e fd.toNat true len offset
  | .read fd len offset => s.tfsLastError ≠ .noDev ∧ ¬ invalidFd e s fd ∧ offset ≤ (s.handles fd.toNat).size ∧
      s.CutShort e fd.toNat false (min len ((s.handles fd.toNat).size - offset)) offset
  | _ => False

open Prog.Steps (guard)

/-- The drive calls of a run are bracketed. -/
def BracketedRun (s s' : State) : Prop := ∃ cs, CallsBetween s s' cs ∧ Bracketed cs

theorem not_bracketedRun_open (h : Transfers s.started t) : ¬ BracketedRun s t := by
  obtain ⟨cs, hcs, hc⟩ := h
  rintro ⟨ds, hds, hd⟩
  rw [hds.unique (started_calls.trans hcs)] at hd
  exact not_bracketed_open hc hd

theorem bracketedRun_out {α : Type} {p : M α} {a : α} (h : Transfers s.started t) (hp : Transfering p)
    (hrun : out p t = some (a, s')) : BracketedRun s s' := by
  obtain ⟨cs, hcs, hc⟩ := h
  obtain ⟨ds, hds, hd⟩ := out_calls hp hrun
  refine ⟨_, started_calls.trans (hcs.trans hds), ?_⟩
  show Bracketed (.select :: (cs ++ (ds ++ [.deselect])))
  rw [← List.append_assoc]
  refine bracketed_transfers fun c hmem => ?_
  rcases List.mem_append.mp hmem with hmem | hmem
  · exact hc c hmem
  · exact hd c hmem

theorem CutShort.lt {writes : Bool} {k b room len : Nat} (h : CutShort e n next writes k b room len) : room < len := by
  cases h
  assumption

theorem invalidFd_started {fd : Int} : invalidFd e s.started fd ↔ invalidFd e s fd := Iff.rfl

/-- What the code computes for the bytes from `offset` to the end of its block. -/
theorem room_eq {offset p : Nat} (hle : p ≤ offset) (hlt : offset < p + dataLen) :
    (dataLen + 2 ^ 32 - (offset + 2 ^ 32 - p) % 2 ^ 32) % 2 ^ 32 = p + dataLen - offset := by
  have hin : (offset + 2 ^ 32 - p) % 2 ^ 32 = offset - p := by
    rw [dataLen] at hlt
    omega
  rw [hin, dataLen]
  rw [dataLen] at hlt
  omega

/-- Behind a seek that ended well, the transfer is cut short where the medium says so. -/
theorem cutShort_sought {writes : Bool} {len offset : Nat} (hs : Sought s.started t)
    (hpath : ∀ q, SeekPath e s.blkCount s.dev offset (s.seekStart fd offset) q ↔ q = t.filePos fd) :
    s.CutShort e fd writes len offset ↔ CutShort e t.blkCount (fun b => (t.dev b).next) writes t.log.transfers
      (t.handles fd).currBlk ((dataLen + 2 ^ 32 - (offset + 2 ^ 32 - (t.handles fd).currPos) % 2 ^ 32) % 2 ^ 32) len := by
  have hin : (t.handles fd).currPos ≤ offset ∧ offset < (t.handles fd).currPos + dataLen := ((hpath _).mpr rfl).inside
  have hdev : t.dev = s.dev := hs.dev
  have hcount : t.blkCount = s.blkCount := hs.blkCount
  rw [room_eq hin.1 hin.2, hdev, hcount]
  constructor
  · rintro ⟨q, hq, hcut⟩
    rw [(hpath q).mp hq] at hcut
    exact hcut
  · exact fun hcut => ⟨_, (hpath _).mpr rfl, hcut⟩

theorem tfsRead_bracketed {fd : Int} {len offset : Nat} {a : Nat × List UInt8}
    (h : tfsRead e fd len offset s = some (a, s')) : BracketedRun s s' ↔ ¬ (Op.read fd len offset).CutShort e s := by
  unfold tfsRead at h
  by_cases hd : s.tfsLastError = .noDev
  · rw [enter_noDev hd] at h
    cases h
    exact iff_of_true ⟨[], .refl rfl, bracketed_nil⟩ fun hc => hc.1 hd
  rw [enter_run hd] at h
  change (Prog.gets id >>= _) s.started = _ at h
  rw [Prog.gets_bind, id_eq] at h
  by_cases hfd : invalidFd e s fd
  · rw [if_pos (invalidFd_started.mpr hfd)] at h
    exact iff_of_true (bracketedRun_out (.of_log rfl) ((setErr_transfering _).bind fun _ => .pure _) h) fun hc =>
      hc.2.1 hfd
  rw [if_neg (invalidFd_started.not.mpr hfd), handle_bind] at h
  by_cases hsz : offset > (s.handles fd.toNat).size
  · rw [if_pos (by exact hsz)] at h
    exact iff_of_true (bracketedRun_out (.of_log rfl) (.pure _) h) fun hc => absurd hc.2.2.1 (by omega)
  rw [if_neg (by exact hsz)] at h
  obtain ⟨len', hlen'⟩ : ∃ len', len' = if len > (s.handles fd.toNat).size - offset then
    (s.handles fd.toNat).size - offset else len := ⟨_, rfl⟩
  have hmin : min len ((s.handles fd.toNat).size - offset) = len' := by
    rw [hlen']
    split <;> omega
  obtain ⟨res, t, hseek, h⟩ := Prog.bind_eq_some.mp h
  have ht := transfers_of_run (acts_transfering (seek_acts _ _ _)) hseek
  change (if res = .eof ∨ t.tfsLastError ≠ .ok ∨ (if len > (s.handles fd.toNat).size - offset then
    (s.handles fd.toNat).size - offset else len) = 0 then _ else _ : M (Nat × List UInt8)) t = _ at h
  rw [← hlen'] at h
  by_cases hend : res = .eof ∨ t.tfsLastError ≠ .ok ∨ len' = 0
  · rw [if_pos hend] at h
    refine iff_of_true (bracketedRun_out ht (.pure _) h) ?_
    rintro ⟨_, _, _, q, hq, hc⟩
    rw [hmin] at hc
    have hlt := hc.lt
    rcases seek_path hseek rfl with ⟨hok, hs, -, -⟩ | ⟨-, hno⟩
    · rcases hend with hend | hend | hend
      · rw [hok] at hend
        cases hend
      · exact hend hs.err
      · omega
    · exact hno q hq
  rw [if_neg hend, handle_bind] at h
  have herr : t.tfsLastError = .ok := by_contra fun hne => hend (.inr (.inl hne))
  obtain ⟨hs, hbuf, hpath⟩ : Sought s.started t ∧ t.blkBuf = t.dev (t.handles fd.toNat).currBlk ∧
      ∀ q, SeekPath e s.blkCount s.dev offset (s.seekStart fd.toNat offset) q ↔ q = t.filePos fd.toNat := by
    rcases seek_path hseek rfl with ⟨-, hs, hbuf, hpath⟩ | ⟨heof, -⟩
    · exact ⟨hs, hbuf, hpath⟩
    · exact absurd (.inl (heof herr)) hend
  obtain ⟨⟨exit, out⟩, u, hloop, h⟩ := Prog.bind_eq_some.mp h
  have hloop : readLoop e fd.toNat e.fuel ((offset + 2 ^ 32 - (t.handles fd.toNat).currPos) % 2 ^ 32)
      ((dataLen + 2 ^ 32 - (offset + 2 ^ 32 - (t.handles fd.toNat).currPos) % 2 ^ 32) % 2 ^ 32) len' [] t =
      some ((exit, out), u) := by
    rw [hlen']
    exact hloop
  have hexit := readLoop_exit (n := t.blkCount) e.fuel _ _ _ _ t (t.handles fd.toNat).currBlk hloop herr rfl
    (by rw [hbuf]) fun _ => rfl
  have hcut : (Op.read fd len offset).CutShort e s ↔ exit = .ret := by
    rw [hexit, ← cutShort_sought hs hpath]
    constructor
    · rintro ⟨_, _, _, hc⟩
      rwa [hmin] at hc
    · exact fun hc => ⟨hd, hfd, Nat.le_of_not_lt hsz, by rwa [hmin]⟩
  have hu := ht.trans (transfers_of_run (acts_transfering (readLoop_acts _ _ _ _ _ _)) hloop)
  rw [hcut]
  cases exit with
  | ret =>
    cases h
    exact iff_of_false (not_bracketedRun_open hu) fun hne => hne rfl
  | done | out => exact iff_of_true (bracketedRun_out hu (.pure _) h) nofun

theorem tfsWrite_bracketed {fd : Int} {data : List UInt8} {len offset a : Nat}
    (h : tfsWrite e fd data len offset s = some (a, s')) :
    BracketedRun s s' ↔ ¬ (Op.write fd data len offset).CutShort e s := by
  unfold tfsWrite at h
  by_cases hd : s.tfsLastError = .noDev
  · rw [enter_noDev hd] at h
    cases h
    exact iff_of_true ⟨[], .refl rfl, bracketed_nil⟩ fun hc => hc.1 hd
  rw [enter_run hd] at h
  change (Prog.gets id >>= _) s.started = _ at h
  rw [Prog.gets_bind, id_eq] at h
  by_cases hfd : invalidFd e s fd
  · rw [if_pos (invalidFd_started.mpr hfd)] at h
    exact iff_of_true (bracketedRun_out (.of_log rfl) ((setErr_transfering _).bind fun _ => .pure _) h) fun hc =>
      hc.2.1 hfd
  rw [if_neg (invalidFd_started.not.mpr hfd)] at h
  obtain ⟨res, t, hseek, h⟩ := Prog.bind_eq_some.mp h
  have ht := transfers_of_run (acts_transfering (seek_acts _ _ _)) hseek
  rw [Prog.gets_bind, id_eq] at h
  have huncut : (t.tfsLastError ≠ .ok ∨ len = 0) → ¬ (Op.write fd data len offset).CutShort e s := by
    rintro hend ⟨_, _, q, hq, hc⟩
    have hlt := hc.lt
    rcases seek_path hseek rfl with ⟨-, hs, -, -⟩ | ⟨-, hno⟩
    · rcases hend with hend | hend
      · exact hend hs.err
      · omega
    · exact hno q hq
  by_cases herr : t.tfsLastError ≠ .ok
  · rw [if_pos herr] at h
    exact iff_of_true (bracketedRun_out ht (.pure _) h) (huncut (.inl herr))
  rw [if_neg herr] at h
  by_cases hlen : len = 0
  · rw [if_pos hlen] at h
    refine iff_of_true (bracketedRun_out ht ?_ h) (huncut (.inr hlen))
    exact guard (fun _ => acts_transfering (updateDirItem_acts (e := e) _)) fun _ => .pure _
  rw [if_neg hlen, handle_bind] at h
  have herr : t.tfsLastError = .ok := not_not.mp herr
  obtain ⟨⟨exit, w⟩, u, hloop, h⟩ := Prog.bind_eq_some.mp h
  have hcut : (Op.write fd data len offset).CutShort e s ↔ exit = .ret := by
    rcases seek_path hseek rfl with ⟨rfl, hs, hbuf, hpath⟩ | ⟨happ, hno⟩
    · have hexit := writeLoop_exit (n := t.blkCount) e.fuel _ t (t.handles fd.toNat).currBlk hloop rfl herr rfl rfl
        (by rw [hbuf]) fun _ => rfl
      rw [hexit, ← cutShort_sought hs hpath]
      constructor
      · exact fun hc => hc.2.2
      · exact fun hc => ⟨hd, hfd, hc⟩
    · have happ : res = .append := happ herr
      subst happ
      refine iff_of_false ?_ (writeLoop_append _ _ _ rfl hloop)
      rintro ⟨_, _, q, hq, _⟩
      exact hno q hq
  have hu := ht.trans (transfers_of_run (acts_transfering (writeLoop_acts _ _ _)) hloop)
  rw [hcut]
  cases exit with
  | ret =>
    cases h
    exact iff_of_false (not_bracketedRun_open hu) fun hne => hne rfl
  | out => exact iff_of_true (bracketedRun_out hu (.pure _) h) nofun
  | done =>
    refine iff_of_true (bracketedRun_out hu ?_ h) nofun
    exact guard (fun _ => acts_transfering (updateDirItem_acts (e := e) _)) fun _ => .pure _

/-- A call that returns brackets its transfers exactly when it is not cut short. -/
theorem Op.exec_bracketedRun {c : Op} (h : c.exec e s = some ((), s')) : BracketedRun s s' ↔ ¬ c.CutShort e s := by
  have hother : (∀ fd data len offset, c ≠ .write fd data len offset) → (∀ fd len offset, c ≠ .read fd len offset) →
      ¬ c.CutShort e s → (BracketedRun s s' ↔ ¬ c.CutShort e s) := fun hw hr hc =>
    iff_of_true (Op.exec_bracketed hw hr h) hc
  cases c with
  | write fd data len offset =>
    obtain ⟨a, t, hrun, ht⟩ := Prog.bind_eq_some.mp h
    cases ht
    exact tfsWrite_bracketed hrun
  | read fd len offset =>
    obtain ⟨a, t, hrun, ht⟩ := Prog.bind_eq_some.mp h
    cases ht
    exact tfsRead_bracketed hrun
  | _ => exact hother nofun nofun id

/-! ## Calls that return -/

/-- The same build, its loops given other fuel. -/
def Env.withFuel (e : Env) (f : Nat) : Env := { e with fuel := f }

/-- The call returns: some fuel is enough for its loops. On a medium whose links go in a
circle it may follow them for ever. -/
def Op.Returns (e : Env) (s : State) (c : Op) : Prop := ∃ f s', c.exec (e.withFuel f) s = some ((), s')

/-- The call returns with the drive deselected, its transfers bracketed. -/
structure Op.Brackets (e : Env) (s : State) (c : Op) : Prop where
  returns : c.Returns e s
  bracketed : ∀ f s', c.exec (e.withFuel f) s = some ((), s') → BracketedRun s s'

theorem SeekPath.withFuel {f : Nat} (h : SeekPath e n dev pos p q) : SeekPath (e.withFuel f) n dev pos p q := by
  induction h with
  | here hb hle hlt hok => exact .here hb hle hlt hok
  | back hb hlt hok hprev _ ih => exact .back hb hlt hok hprev ih
  | forward hb hle hok _ ih => exact .forward hb hle hok ih

theorem CutShort.withFuel {writes : Bool} {k b room len f : Nat} (h : CutShort e n next writes k b room len) :
    CutShort (e.withFuel f) n next writes k b room len := by
  induction h with
  | mk hlt hnext hwrite _ ih => exact .mk hlt hnext hwrite ih

/-- The fuel has no part in where a call is cut short. -/
theorem Op.CutShort.withFuel {c : Op} {f : Nat} (h : c.CutShort e s) : c.CutShort (e.withFuel f) s := by
  cases c with
  | write fd data len offset =>
    obtain ⟨hd, hfd, q, hq, hcut⟩ := h
    exact ⟨hd, hfd, q, hq.withFuel, hcut.withFuel⟩
  | read fd len offset =>
    obtain ⟨hd, hfd, hsz, q, hq, hcut⟩ := h
    exact ⟨hd, hfd, hsz, q, hq.withFuel, hcut.withFuel⟩
  | _ => exact h

/-- **On any medium and any drive, a call returns with the drive deselected and all its
transfers bracketed** exactly when it returns and is not a write or a read that is cut short. -/
theorem op_bracketed (e : Env) (s : State) (c : Op) : c.Brackets e s ↔ c.Returns e s ∧ ¬ c.CutShort e s := by
  constructor
  · intro h
    obtain ⟨f, s', hrun⟩ := h.returns
    exact ⟨h.returns, fun hc => (Op.exec_bracketedRun hrun).mp (h.bracketed f s' hrun) hc.withFuel⟩
  · rintro ⟨hret, hc⟩
    -- with its own fuel back, the build is the first one
    exact ⟨hret, fun f s' hrun => (Op.exec_bracketedRun hrun).mpr fun hc' => hc (hc'.withFuel (f := e.fuel))⟩

/-- The drive calls of a run, read off its log. -/
def newCalls (s s' : State) : List DriveCall := (s'.log.calls.take (s'.log.calls.length - s.log.calls.length)).reverse

theorem CallsBetween.newCalls_eq {cs : List DriveCall} (h : CallsBetween s s' cs) : newCalls s s' = cs := by
  rw [newCalls, h, List.length_append, Nat.add_sub_cancel, List.take_left, List.reverse_reverse]

/-- A file of 600 bytes, in two blocks, opened on a fresh volume. -/
def openTwoBlocks (e : Env) : M Unit := do
  tfsInit e
  tfsFormat e
  Op.exec e (.writeFile [97] (List.replicate 600 7) 600 false)
  Op.exec e (.openFile [97])

/-- Sixteen blocks, and the transfer number `k` fails. -/
def failingAt (k : Nat) : Env :=
  { Env.linux 16 with drive := { blkCount := some 16, fails := fun j => j == k, setsOk := false } }

theorem readTwoBlocks_run : ∃ s s', openTwoBlocks (failingAt 13) (State.boot fun _ => Buf.zero) = some ((), s) ∧
    (Op.read 0 600 0).exec (failingAt 13) s = some ((), s') ∧ decide (Bracketed (newCalls s s')) = false := by
  have hrun : ((openTwoBlocks (failingAt 13) (State.boot fun _ => Buf.zero)).bind fun p =>
      ((Op.read 0 600 0).exec (failingAt 13) p.2).map fun q => decide (Bracketed (newCalls p.2 q.2))) = some false := by
    decide +kernel
  rw [Option.bind_eq_some_iff] at hrun
  obtain ⟨⟨_, s⟩, hs, hrun⟩ := hrun
  rw [Option.map_eq_some_iff] at hrun
  obtain ⟨⟨_, s'⟩, hs', hb⟩ := hrun
  exact ⟨s, s', hs, hs', hb⟩

/-- The second block cannot be read, and the drive stays selected. -/
theorem tfsRead_left_selected : ∃ s s', openTwoBlocks (failingAt 13) (State.boot fun _ => Buf.zero) = some ((), s) ∧
    (Op.read 0 600 0).exec (failingAt 13) s = some ((), s') ∧ ¬ BracketedRun s s' := by
  obtain ⟨s, s', hs, hs', hb⟩ := readTwoBlocks_run
  refine ⟨s, s', hs, hs', ?_⟩
  rintro ⟨cs, hcs, hc⟩
  rw [hcs.newCalls_eq, decide_eq_false_iff_not] at hb
  exact hb hc

end TinyFs
