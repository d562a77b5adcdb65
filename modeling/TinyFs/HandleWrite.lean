/-
The loop of `tfs_write` on the never-failing drive. An iteration stores into the
block in the buffer, writes it, and makes the next block current: the next one of the
file, or a new one. So the file is overwritten from the position of the call on,
and grows by the blocks that are missing.
-/
import TinyFs.CutShort
import TinyFs.Seek

namespace TinyFs

open Bytes Chains

variable {e : Env} {n : Nat} {s s' s₁ : State} {fd b m k fuel : Nat} {c c' c₁ d r : List Nat} {cs : List (List Nat)}
  {xs : List Nat} {g g' g₁ : Nat → UInt8} {w w' w₁ : WriteVars}

/-- What `memcpy` puts into a data block. -/
theorem Block.data_copyData (v : Block) (data : List UInt8) {os len : Nat} (hk : k < dataLen) :
    (v.copyData os data len).data k = Chunks.overwrite v.data os (fun j => data.getD j 0) len k := by
  simp only [dataLen] at hk
  rw [Block.data, Block.copyData, Chunks.overwrite]
  by_cases hin : os ≤ k ∧ k < os + len
  · rw [if_pos hin, Buf.get_fill_in _ _ (by omega) (by omega) (by omega)]
    congr 1
    omega
  · rw [if_neg hin, Buf.get_fill_out _ _ (by omega)]
    rfl

/-! ## One iteration -/

/-- A part of a transfer: `m` bytes are stored, the file of the blocks `c` with the
bytes `g` becomes that of `c'` with `g'`. -/
structure Copied (fd : Nat) (s s' : State) (c c' : List Nat) (g g' : Nat → UInt8) (w w' : WriteVars) (m : Nat) :
    Prop where
  grown : c <+: c'
  agree : AgreeOff c' s.dev s'.dev
  frame : FdFrame fd s s'
  content : g' = Chunks.overwrite g w.offset (fun j => w.data.getD j 0) m
  data : w'.data = w.data.drop m
  len : w'.len + m = w.len
  offset : w'.offset = (w.offset + m) % 2 ^ 32
  ret : w'.ret = (w.ret + m) % 2 ^ 32
  size : w.offset + m < 2 ^ 32 → (s'.handles fd).size = max (s.handles fd).size (w.offset + m)
  bound : (s.handles fd).size < 2 ^ 32 → (s'.handles fd).size < 2 ^ 32
  update : w.offset + m < 2 ^ 32 → (w'.updateItem = true ↔ w.updateItem = true ∨ (s.handles fd).size < w.offset + m)

theorem getD_drop (data : List UInt8) (m j : Nat) : (data.drop m).getD j 0 = data.getD (m + j) 0 := by
  rw [List.getD_eq_getElem?_getD, List.getD_eq_getElem?_getD, List.getElem?_drop]

/-- One part after the other. -/
theorem Copied.trans {m' : Nat} {s'' : State} {c'' : List Nat} {g'' : Nat → UInt8} {w'' : WriteVars}
    (h : Copied fd s s' c c' g g' w w' m) (h' : Copied fd s' s'' c' c'' g' g'' w' w'' m') (hm : w.offset + m < 2 ^ 32) :
    Copied fd s s'' c c'' g g'' w w'' (m + m') := by
  have hoff : w'.offset = w.offset + m := by rw [h.offset, Nat.mod_eq_of_lt hm]
  refine ⟨h.grown.trans h'.grown, (h.agree.mono fun b hb => h'.grown.subset hb).trans h'.agree,
    h.frame.trans h'.frame, ?_,
    ?_, ?_, ?_, ?_, ?_, h'.bound ∘ h.bound, ?_⟩
  · rw [h'.content, h.content, hoff, h.data]
    simp only [getD_drop]
    exact Chunks.overwrite_overwrite
  · rw [h'.data, h.data, List.drop_drop]
  · have h1 := h.len
    have h2 := h'.len
    omega
  · rw [h'.offset, hoff, Nat.add_assoc]
  · rw [h'.ret, h.ret, Nat.mod_add_mod, Nat.add_assoc]
  · intro hlt
    rw [h'.size (by omega), h.size hm, hoff]
    omega
  · intro hlt
    rw [h'.update (by omega), h.update hm, h.size hm, hoff, or_assoc]
    refine or_congr_right ?_
    omega

/-- The state after a block of the transfer is written. -/
def State.wrote (s : State) (fd b : Nat) (v : Block) (offset : Nat) (l : DriveLog) : State := { s with
  dev := Function.update s.dev b v
  blkBuf := v
  handles := Function.update s.handles fd { s.handles fd with size := max (s.handles fd).size offset }
  log := l }

theorem writeStore_ok (he : e.NeverFails) (herr : s.tfsLastError = .ok) (hb : (s.handles fd).currBlk = b)
    (hlt : b < s.blkCount) (w : WriteVars) (k : WriteVars → M (Exit × WriteVars)) : ∃ u l,
    (u = true ↔ w.updateItem = true ∨ (s.handles fd).size < w.offset) ∧
    writeStore e fd w k s = (if w.len = 0 then
        some ((.done, { w with updateItem := u }), s.wrote fd b s.blkBuf w.offset l)
      else writeNext e fd w.append (k { w with updateItem := u, blkOs := 0, blkLen := dataLen })
        { w with updateItem := u } (s.wrote fd b s.blkBuf w.offset l)) := by
  refine ⟨if w.offset > (s.handles fd).size then true else w.updateItem, s.log.transfer (.write b true), ?_, ?_⟩
  · split
    · rename_i hgt
      exact ⟨fun _ => .inr hgt, fun _ => rfl⟩
    · rename_i hle
      exact ⟨.inl, fun h => h.resolve_right hle⟩
  unfold writeStore
  rw [handle_bind, hb, Prog.bind_some (driveWriteBlock_ok he herr hlt), ifOk_ok (by exact herr)]
  have hstate : ∀ t : State, t = { s with
      dev := Function.update s.dev b s.blkBuf, log := s.log.transfer (.write b true) } →
      (w.offset > (t.handles fd).size → { t with
        handles := Function.update t.handles fd { t.handles fd with size := w.offset } } =
          s.wrote fd b s.blkBuf w.offset (s.log.transfer (.write b true))) ∧
      (¬ w.offset > (t.handles fd).size → t = s.wrote fd b s.blkBuf w.offset (s.log.transfer (.write b true))) := by
    intro t ht
    subst ht
    refine ⟨fun hgt => ?_, fun hle => ?_⟩
    · have hmax : max (s.handles fd).size w.offset = w.offset := Nat.max_eq_right (Nat.le_of_lt hgt)
      rw [State.wrote, hmax]
    · have hmax : max (s.handles fd).size w.offset = (s.handles fd).size := Nat.max_eq_left (Nat.not_lt.mp hle)
      rw [State.wrote, hmax, Function.update_eq_self]
  obtain ⟨t, ht⟩ : ∃ t : State, t = { s with
      dev := Function.update s.dev b s.blkBuf, log := s.log.transfer (.write b true) } := ⟨_, rfl⟩
  obtain ⟨hgrow, hsame⟩ := hstate t ht
  have hsize : (t.handles fd).size = (s.handles fd).size := by rw [ht]
  have hif : ∀ (u : Bool) (t : State), (if w.len = 0 then pure (.done, { w with updateItem := u })
      else writeNext e fd w.append (k { w with updateItem := u, blkOs := 0, blkLen := dataLen })
        { w with updateItem := u } :
        M (Exit × WriteVars)) t = if w.len = 0 then some ((.done, { w with updateItem := u }), t)
      else writeNext e fd w.append (k { w with updateItem := u, blkOs := 0, blkLen := dataLen })
        { w with updateItem := u } t := by
    intro u t
    split <;> rfl
  rw [← ht]
  by_cases hg : w.offset > (s.handles fd).size
  · simp only [if_pos hg]
    rw [modifyHandle_bind, hgrow (hsize ▸ hg)]
    exact hif true _
  · simp only [if_neg hg]
    rw [← hsame (hsize ▸ hg)]
    exact hif w.updateItem _

/-- The bytes of an iteration copied into the buffer. -/
def State.loaded (s : State) (w : WriteVars) : State := { s with blkBuf := s.blkBuf.copyData w.blkOs w.data w.chunk }

theorem writeLoop_run (w : WriteVars) (s : State) : writeLoop e fd (fuel + 1) w s =
    (if (w.copied w.append).len > 0 ∧ (s.loaded w).blkBuf.next = 0 then do
      let new ← allocBlock e
      modifyBuf fun b => b.setNext new
      writeStore e fd (w.copied true) (writeLoop e fd fuel)
    else writeStore e fd (w.copied w.append) (writeLoop e fd fuel)) (s.loaded w) := by
  rw [writeLoop_succ, modifyBuf_bind, blkBuf_bind]
  rfl

theorem Editing.loaded (h : Editing n fd cs xs s d b r) (w : WriteVars) : Editing n fd cs xs (s.loaded w) d b r :=
  ⟨⟨h.mounted, h.cache, h.owned⟩, h.blk, h.pos, h.first, h.linked, by rw [State.loaded, Block.prev_copyData, h.prev],
    by rw [State.loaded, Block.next_copyData, h.next], h.rest⟩

theorem Editing.content_loaded (h : Editing n fd cs xs s d b r) (hoff : w.offset = dataLen * d.length + w.blkOs)
    (hroom : w.blkOs + w.chunk ≤ dataLen) : fileContent (flushed (s.loaded w) b) (d ++ b :: r) =
      Chunks.overwrite (fileContent (flushed s b) (d ++ b :: r)) w.offset (fun j => w.data.getD j 0) w.chunk := by
  obtain ⟨hd, hr⟩ := h.notMem
  rw [hoff]
  refine Chunks.content_store (by decide) hd hr (fun k hk => ?_) (fun x hx => ?_) hroom
  · rw [flushed, Function.update_self, flushed, Function.update_self]
    exact Block.data_copyData _ _ hk
  · rw [flushed, Function.update_of_ne hx, flushed, Function.update_of_ne hx]
    rfl

theorem FdFrame.wrote (s : State) (fd b : Nat) (v : Block) (o : Nat) (l : DriveLog) : FdFrame fd s (s.wrote fd b v o l) :=
  .handle rfl ⟨rfl, rfl, rfl, rfl⟩ rfl ⟨rfl, rfl⟩

theorem FdFrame.loaded (s : State) (fd : Nat) (w : WriteVars) : FdFrame fd s (s.loaded w) :=
  ⟨rfl, rfl, rfl, rfl, fun _ _ => rfl, rfl, rfl, rfl⟩

/-- The file with the current block written. -/
theorem Editing.wrote (h : Editing n fd cs xs s d b r) (o : Nat) (l : DriveLog) :
    FileData n fd cs xs (s.wrote fd b s.blkBuf o l) (d ++ b :: r) := by
  refine h.stored h.prev h.next ?_
  rw [Function.update_self]

/-- The variables after an iteration that stored all it copied. -/
theorem Copied.step {u app : Bool} (hgrown : c <+: c') (hagree : AgreeOff c' s.dev s'.dev) (hframe : FdFrame fd s s')
    (hg : g' = Chunks.overwrite g w.offset (fun j => w.data.getD j 0) w.chunk) (hle : w.chunk ≤ w.len)
    (hsize : (s'.handles fd).size = max (s.handles fd).size (w.copied app).offset)
    (hu : u = true ↔ w.updateItem = true ∨ (s.handles fd).size < (w.copied app).offset)
    (hw : w' = { w.copied app with updateItem := u } ∨
      w' = { w.copied app with updateItem := u, blkOs := 0, blkLen := dataLen }) :
    Copied fd s s' c c' g g' w w' w.chunk := by
  have hoff : w.offset + w.chunk < 2 ^ 32 → (w.copied app).offset = w.offset + w.chunk := Nat.mod_eq_of_lt
  have hfields : w'.data = w.data.drop w.chunk ∧ w'.len = w.len - w.chunk ∧ w'.offset = (w.offset + w.chunk) % 2 ^ 32 ∧
      w'.ret = (w.ret + w.chunk) % 2 ^ 32 ∧ w'.updateItem = u := by
    rcases hw with hw | hw <;> subst hw <;> exact ⟨rfl, rfl, rfl, rfl, rfl⟩
  obtain ⟨h1, h2, h3, h4, h5⟩ := hfields
  have hmod : (w.copied app).offset < 2 ^ 32 := Nat.mod_lt _ (by decide)
  refine ⟨hgrown, hagree, hframe, hg, h1, by omega, h3, h4, fun hlt => ?_, fun hlt => by omega, fun hlt => ?_⟩
  · rw [hsize, hoff hlt]
  · rw [h5, hu, hoff hlt]

@[simp] theorem State.wrote_handle (s : State) (fd b : Nat) (v : Block) (o : Nat) (l : DriveLog) :
    (s.wrote fd b v o l).handles fd = { s.handles fd with size := max (s.handles fd).size o } := Function.update_self ..

/-- Between two iterations: the block in the buffer is the one the transfer is at. -/
structure Writing (n fd : Nat) (cs : List (List Nat)) (xs : List Nat) (s : State) (w : WriteVars) (d : List Nat) (b : Nat)
    (r : List Nat) : Prop extends Editing n fd cs xs s d b r where
  err : s.tfsLastError = .ok
  offset : w.offset = dataLen * d.length + w.blkOs
  inside : w.blkOs < dataLen
  room : w.blkOs + w.blkLen = dataLen
  append : w.append = true → r = []

theorem WriteVars.chunk_of_le (h : w.len ≤ w.blkLen) : w.chunk = w.len := by
  rw [WriteVars.chunk]
  split <;> omega

theorem WriteVars.chunk_of_lt (h : w.blkLen < w.len) : w.chunk = w.blkLen := by
  rw [WriteVars.chunk, if_neg (by omega)]

/-- The last iteration. -/
theorem writeLoop_last (he : e.NeverFails) (h : Writing n fd cs xs s w d b r) (hlen : w.len ≤ w.blkLen) :
    ∃ w' s', writeLoop e fd (fuel + 1) w s = some ((.done, w'), s') ∧ FileData n fd cs xs s' (d ++ b :: r) ∧
      s'.tfsLastError = .ok ∧ (s'.handles fd).currBlk = b ∧ (s'.handles fd).currPos = dataLen * d.length ∧
      Copied fd s s' (d ++ b :: r) (d ++ b :: r) (fileContent (flushed s b) (d ++ b :: r))
        (fileContent s'.dev (d ++ b :: r)) w w' w.len := by
  have hchunk := WriteVars.chunk_of_le hlen
  have hzero : (w.copied w.append).len = 0 := by
    show w.len - w.chunk = 0
    omega
  have hroom := h.room
  have h₁ := h.loaded w
  obtain ⟨u, l, hu, hrun⟩ := writeStore_ok he (s := s.loaded w) (by exact h.err) h₁.blk h₁.range.1 (w.copied w.append)
    (writeLoop e fd fuel)
  rw [if_pos hzero] at hrun
  refine ⟨{ w.copied w.append with updateItem := u },
    (s.loaded w).wrote fd b (s.loaded w).blkBuf (w.copied w.append).offset l, ?_, h₁.wrote _ l, h.err, ?_, ?_, ?_⟩
  · rw [writeLoop_run, if_neg (by omega)]
    exact hrun
  · rw [State.wrote_handle]
    exact h.blk
  · rw [State.wrote_handle]
    exact h.pos
  · have hag : AgreeOff (d ++ b :: r) s.dev ((s.loaded w).wrote fd b (s.loaded w).blkBuf
      (w.copied w.append).offset l).dev :=
      .update (by simp) _
    have hcop := Copied.step (s := s) (List.prefix_refl (d ++ b :: r)) hag ((FdFrame.loaded s fd w).trans
        (.wrote (s.loaded w) fd b _ _ l))
      (h.content_loaded h.offset (by omega)) (by omega) (by rw [State.wrote_handle]; rfl) hu (.inl rfl)
    rw [hchunk] at hcop
    exact hcop

/-- The next block of the file made current: it is read. -/
theorem writeNext_read (he : e.NeverFails) (herr : s.tfsLastError = .ok) (h : FileData n fd cs xs s c)
    (hc : c = d ++ b :: r) (hb : s.blkBuf.next = b) (hp : (s.handles fd).currPos + dataLen = dataLen * d.length)
    (h32 : dataLen * d.length < 2 ^ 32) (k : M (Exit × WriteVars)) (w : WriteVars) : ∃ l,
    writeNext e fd false k w s = k (s.seekTo fd b (dataLen * d.length) (s.dev b) l) := by
  have hlt : b < s.blkCount := (h.blocks b (by simp [hc])).1
  refine ⟨s.log.transfer (.read b true), ?_⟩
  rw [writeNext, blkBuf_bind, if_neg (by simp), modifyHandle_bind, hb, Prog.bind_some
    (driveReadBlock_ok he (by exact herr) (by exact hlt)),
    ifOk_ok (by exact herr), modifyHandle_bind]
  simp only [Function.update_self, Function.update_idem, hp, Nat.mod_eq_of_lt h32, State.seekTo]

/-- An iteration that goes on with the next block of the file. -/
theorem writeLoop_inPlace (he : e.NeverFails) {b' : Nat} (h : Writing n fd cs xs s w d b (b' :: r))
    (hlen : w.blkLen < w.len)
    (h32 : dataLen * (d.length + 1) < 2 ^ 32) : ∃ w₁ s₁, writeLoop e fd (fuel + 1) w s = writeLoop e fd fuel w₁ s₁ ∧
      Writing n fd cs xs s₁ w₁ (d ++ [b]) b' r ∧ w₁.blkOs = 0 ∧ Copied fd s s₁ (d ++ b :: b' :: r) (d ++ b :: b' :: r)
        (fileContent (flushed s b) (d ++ b :: b' :: r)) (fileContent (flushed s₁ b') (d ++ b :: b' :: r)) w w₁
          w.chunk := by
  have hchunk := WriteVars.chunk_of_lt hlen
  have hroom := h.room
  have happ : w.append = false := by
    cases hw : w.append with
    | false => rfl
    | true => exact absurd (h.append hw) (by simp)
  have h₁ := h.loaded w
  have hnext : (s.loaded w).blkBuf.next = b' := h₁.next
  have hb' : b' ≠ 0 := ne_zero_of_mod (h.owned.range b' (by simp)).2
  have hpos : (w.copied w.append).len ≠ 0 := by
    show w.len - w.chunk ≠ 0
    omega
  obtain ⟨u, l, hu, hrun⟩ := writeStore_ok he (s := s.loaded w) (by exact h.err) h₁.blk h₁.range.1 (w.copied w.append)
    (writeLoop e fd fuel)
  rw [if_neg hpos] at hrun
  have hstored := h₁.wrote (w.copied w.append).offset l
  obtain ⟨s₂, hs₂⟩ : ∃ s₂, s₂ = (s.loaded w).wrote fd b (s.loaded w).blkBuf (w.copied w.append).offset l := ⟨_, rfl⟩
  rw [← hs₂] at hrun hstored
  have hlist : d ++ b :: b' :: r = d ++ [b] ++ b' :: r := by simp
  have hlength : (d ++ [b]).length = d.length + 1 := by simp
  have hhandle : s₂.handles fd = { s.handles fd with size := max (s.handles fd).size (w.copied w.append).offset } := by
    rw [hs₂, State.wrote_handle]
    rfl
  obtain ⟨l', hread⟩ := writeNext_read he (by rw [hs₂]; exact h.err) hstored hlist (by rw [hs₂]; exact hnext)
    (by rw [hhandle, h.pos, hlength, Nat.mul_succ]) (by rw [hlength]; exact h32)
    (writeLoop e fd fuel { w.copied w.append with updateItem := u, blkOs := 0, blkLen := dataLen })
    { w.copied w.append with updateItem := u }
  refine ⟨{ w.copied w.append with updateItem := u, blkOs := 0, blkLen := dataLen },
    s₂.seekTo fd b' (dataLen * (d ++ [b]).length) (s₂.dev b') l', ?_, ?_, rfl, ?_⟩
  · rw [writeLoop_run, if_neg (fun hp => hb' (hnext.symm.trans hp.2))]
    refine hrun.trans ?_
    rw [← hread, happ]
    rfl
  · refine ⟨hstored.editing hlist l', by rw [hs₂]; exact h.err, ?_, (by decide : 0 < dataLen),
      Nat.zero_add _, fun hw => absurd hw (by simp [WriteVars.copied, happ])⟩
    show (w.offset + w.chunk) % 2 ^ 32 = _
    rw [h.offset, hlength, Nat.add_zero, Nat.mul_succ, Nat.mod_eq_of_lt (by simp only [dataLen] at *; omega)]
    omega
  · have hflush : flushed (s₂.seekTo fd b' (dataLen * (d ++ [b]).length) (s₂.dev b') l') b' = s₂.dev := by
      rw [flushed]
      exact Function.update_eq_self b' s₂.dev
    rw [hflush]
    have hframe : FdFrame fd s s₂ := hs₂ ▸ (FdFrame.loaded s fd w).trans (.wrote (s.loaded w) fd b _ _ l)
    refine Copied.step (List.prefix_refl _) ?_ (hframe.trans (.handle rfl ⟨rfl, rfl, rfl, rfl⟩ rfl ⟨rfl, rfl⟩)) ?_
      (by omega) ?_ hu (.inr rfl)
    · show AgreeOff _ s.dev s₂.dev
      rw [hs₂]
      exact AgreeOff.update (by simp) _
    · rw [hs₂]
      exact h.content_loaded h.offset (by omega)
    · rw [State.seekTo_handle, hhandle]

/-- An iteration that goes on with a new block. -/
theorem writeLoop_push (he : e.NeverFails) {b' : Nat} {s₁ : State} (h : Writing n fd cs xs s w d b [])
    (hlen : w.blkLen < w.len) (h32 : dataLen * (d.length + 1) < 2 ^ 32)
    (ha : Alloc e n (s.loaded w) cs (d ++ [b] ++ xs) b' s₁) :
    ∃ w₁ s₂, writeLoop e fd (fuel + 1) w s = writeLoop e fd fuel w₁ s₂ ∧ Writing n fd cs xs s₂ w₁ (d ++ [b]) b' [] ∧
      w₁.blkOs = 0 ∧ Copied fd s s₂ (d ++ [b]) (d ++ [b] ++ [b']) (fileContent (flushed s b) (d ++ [b]))
        (fileContent (flushed s₂ b') (d ++ [b] ++ [b'])) w w₁ w.chunk := by
  have hchunk := WriteVars.chunk_of_lt hlen
  have hroom := h.room
  have h₁ := h.loaded w
  have hlength : (d ++ [b]).length = d.length + 1 := by simp
  have hb' : b' % 2 ^ 32 = b' := Nat.mod_eq_of_lt (Nat.lt_trans (ha.ready.owned.range b' (by simp)).1 h.mounted.lt)
  have hb32 : b < 2 ^ 32 := by
    have := h.range.2.2
    omega
  have hpos : (w.copied true).len ≠ 0 := by
    show w.len - w.chunk ≠ 0
    omega
  have hpre : (w.copied w.append).len > 0 ∧ (s.loaded w).blkBuf.next = 0 := ⟨Nat.pos_of_ne_zero hpos, h₁.next⟩
  obtain ⟨s₃, hs₃⟩ : ∃ s₃ : State, s₃ = { s₁ with blkBuf := s₁.blkBuf.setNext b' } := ⟨_, rfl⟩
  have hh₃ : s₃.handles = s.handles := by
    rw [hs₃]
    exact ha.kept.handles
  obtain ⟨u, l, hu, hrun⟩ := writeStore_ok he (s := s₃) (b := b) (by rw [hs₃]; exact ha.err) (by rw [hh₃]; exact h.blk)
    (by rw [hs₃]; exact ha.kept.blkCount ▸ h₁.range.1) (w.copied true) (writeLoop e fd fuel)
  rw [if_neg hpos] at hrun
  obtain ⟨v, hv⟩ : ∃ v, v = (((s₁.blkBuf.setNext b').setPrev b).setNext 0).clearData := ⟨_, rfl⟩
  obtain ⟨H, hH⟩ : ∃ H, H = Function.update s.handles fd { s.handles fd with
    size := max (s.handles fd).size (w.copied true).offset, currBlk := b', currPos := dataLen * (d.length + 1) } :=
      ⟨_, rfl⟩
  have hHfd : H fd = { s.handles fd with
      size := max (s.handles fd).size (w.copied true).offset, currBlk := b', currPos := dataLen * (d.length + 1) } := by
    rw [hH, Function.update_self]
  obtain ⟨hed, hcont, hag⟩ := h₁.push (w := v) (H := H) (l := l) ha
    ⟨by rw [hv]; simpa using hb32, by rw [hv]; simp, fun k hk => by rw [hv]; exact Block.data_clearData _ hk⟩
    (by rw [hHfd]; exact ⟨rfl, rfl, rfl⟩)
  have hnext : writeNext e fd true
      (writeLoop e fd fuel { w.copied true with updateItem := u, blkOs := 0, blkLen := dataLen })
      { w.copied true with updateItem := u } (s₃.wrote fd b s₃.blkBuf (w.copied true).offset l) =
      writeLoop e fd fuel { w.copied true with updateItem := u, blkOs := 0, blkLen := dataLen } { s₁ with
        dev := Function.update s₁.dev b (s₁.blkBuf.setNext b'), blkBuf := v, handles := H, log := l } := by
    have hcur : (s.handles fd).currPos + dataLen = dataLen * (d.length + 1) := by rw [h.pos, Nat.mul_succ]
    rw [writeNext, blkBuf_bind, if_pos rfl, handle_bind, modifyBuf_bind, modifyHandle_bind]
    simp only [State.wrote, hs₃, ha.kept.handles, Function.update_self, Function.update_idem, Block.next_setNext, hb',
      hv, hH]
    simp only [State.loaded, hcur, Nat.mod_eq_of_lt h32, h.blk]
  refine ⟨{ w.copied true with updateItem := u, blkOs := 0, blkLen := dataLen }, { s₁ with
      dev := Function.update s₁.dev b (s₁.blkBuf.setNext b'), blkBuf := v, handles := H, log := l }, ?_, ?_, rfl, ?_⟩
  · rw [writeLoop_run, if_pos hpre, Prog.bind_some ha.run, modifyBuf_bind, ← hs₃, hrun]
    exact hnext
  · refine ⟨hed, ha.err, ?_, (by decide : 0 < dataLen), Nat.zero_add _, fun _ => rfl⟩
    show (w.offset + w.chunk) % 2 ^ 32 = _
    rw [h.offset, hlength, Nat.add_zero, Nat.mul_succ, Nat.mod_eq_of_lt (by simp only [dataLen] at *; omega)]
    omega
  · have hframe : FdFrame fd s s₁ := (FdFrame.loaded s fd w).trans
      (Frame.fdFrame ⟨ha.kept.blkCount, ha.kept.lastBlk, ha.kept.lastLen, ha.kept.cur, ha.kept.handles⟩)
    refine Copied.step (List.prefix_append _ _) ?_ (hframe.trans (.handle (x := H fd) ?_ ⟨rfl, rfl, rfl, rfl⟩ ?_ ?_)) ?_
      (by omega) ?_ ?_ (.inr rfl)
    · exact hag.mono (by simp)
    · show H = _
      rw [hHfd, hH, ha.kept.handles]
      rfl
    · rw [hHfd, ha.kept.handles]
      rfl
    · rw [hHfd, ha.kept.handles]
      exact ⟨rfl, rfl⟩
    · exact hcont.trans (h.content_loaded h.offset (by omega))
    · show (H fd).size = _
      rw [hHfd]
    · rw [hh₃] at hu
      exact hu

/-! ## Past a full disk -/

theorem writeStore_wiped (he : e.NeverFails) (hsets : e.drive.setsOk = true) (hlt : (s.handles fd).currBlk < s.blkCount)
    (w : WriteVars) (k : WriteVars → M (Exit × WriteVars)) (err : Err) :
    writeStore e fd w k { s with tfsLastError := err } = writeStore e fd w k { s with tfsLastError := .ok } := by
  have herr : ∀ t : State, errAfter e t = .ok := fun t => by rw [errAfter, hsets]; rfl
  unfold writeStore
  rw [handle_bind, handle_bind, Prog.bind_some (driveWriteBlock_any he (by exact hlt)),
    Prog.bind_some (driveWriteBlock_any he (by exact hlt)), herr, herr]

/-- On block 0, the bytes of an iteration are stored there. -/
theorem Astray.copied {s₀ : State} {u app : Bool} (h : Astray fd s₀ s) (h0 : (s'.handles fd) = { s.handles fd with
      size := max (s.handles fd).size (w.copied app).offset, currBlk := (s'.handles fd).currBlk
      currPos := (s'.handles fd).currPos }) (hframe : FdFrame fd s s') (hdev : ∀ b, b ≠ 0 → s'.dev b = s.dev b)
    (hle : w.chunk ≤ w.len) (hu : u = true ↔ w.updateItem = true ∨ (s.handles fd).size < (w.copied app).offset)
    (hw : w' = { w.copied app with updateItem := u } ∨
      w' = { w.copied app with updateItem := u, blkOs := 0, blkLen := dataLen })
    (hinval : s'.loadedBitmapBlk = s.loadedBitmapBlk) (herr : s'.tfsLastError = .ok) (hblk : (s'.handles fd).currBlk = 0)
    (hnext : s'.blkBuf.next = 0) : Astray fd s₀ s' ∧
      Copied fd s s' c c g (Chunks.overwrite g w.offset (fun j => w.data.getD j 0) w.chunk) w w' w.chunk := by
  refine ⟨⟨hinval.trans h.inval, herr, hblk, ?_, hnext, fun b hb => (hdev b hb).trans (h.dev b hb), h.frame.trans hframe⟩,
    .step (List.prefix_refl _) (fun b hm _ => hdev b (ne_zero_of_mod hm)) hframe rfl hle (by rw [h0]) hu hw⟩
  rw [h0]
  exact h.first

/-- The rest of the transfer goes to block 0, without an error. -/
theorem writeLoop_astray (he : e.NeverFails) (hsets : e.drive.setsOk = true) {s₀ : State} (hcount : 0 < s₀.blkCount)
    (fuel : Nat) : ∀ s w g c, Astray fd s₀ s → 0 < w.blkLen → w.len < fuel → ∃ w' s',
      writeLoop e fd fuel w s = some ((.done, w'), s') ∧ Astray fd s₀ s' ∧ w'.ret = (w.ret + w.len) % 2 ^ 32 ∧
      ((s.handles fd).size < 2 ^ 32 → (s'.handles fd).size < 2 ^ 32) ∧
      (w.offset + w.len < 2 ^ 32 → ∃ g', Copied fd s s' c c g g' w w' w.len) := by
  induction fuel with
  | zero =>
    intro s w g c h hblk hf
    omega
  | succ fuel ih =>
    intro s w g c h hblk hf
    have hlt : ∀ t : State, t.blkCount = s.blkCount → 0 < t.blkCount := fun t ht => by
      rw [ht, h.frame.blkCount]
      exact hcount
    have hnext : (s.loaded w).blkBuf.next = 0 := (Block.next_copyData _ _ _ _).trans h.next
    by_cases hlen : w.blkLen < w.len
    · have hchunk := WriteVars.chunk_of_lt hlen
      have hpos : (w.copied true).len ≠ 0 := by
        show w.len - w.chunk ≠ 0
        omega
      have hpre : (w.copied w.append).len > 0 ∧ (s.loaded w).blkBuf.next = 0 := ⟨Nat.pos_of_ne_zero hpos, hnext⟩
      obtain ⟨s₁, hs₁⟩ : ∃ s₁ : State, s₁ = { s.loaded w with blkBuf := (s.loaded w).blkBuf.setNext 0 } := ⟨_, rfl⟩
      have hh₁ : s₁.handles = s.handles := by
        rw [hs₁]
        rfl
      have herr₁ : s₁.tfsLastError = .ok := by
        rw [hs₁]
        exact h.err
      have hok : ({ s₁ with tfsLastError := .ok } : State) = s₁ := by rw [← herr₁]
      have hb₁ : (s₁.handles fd).currBlk = 0 := by rw [hh₁, h.blk]
      have hlt₁ : 0 < s₁.blkCount := hlt _ (by rw [hs₁]; rfl)
      obtain ⟨u, l, hu, hrun⟩ := writeStore_ok he herr₁ hb₁ hlt₁ (w.copied true) (writeLoop e fd fuel)
      rw [if_neg hpos] at hrun
      obtain ⟨w₁, hw₁⟩ : ∃ w₁, w₁ = { w.copied true with updateItem := u, blkOs := 0, blkLen := dataLen } := ⟨_, rfl⟩
      obtain ⟨s₂, hs₂⟩ : ∃ s₂, s₂ = s₁.wrote fd 0 s₁.blkBuf (w.copied true).offset l := ⟨_, rfl⟩
      obtain ⟨s₃, hs₃⟩ : ∃ s₃ : State, s₃ = { s₂ with
        blkBuf := ((s₂.blkBuf.setPrev (s₂.handles fd).currBlk).setNext 0).clearData
        handles := Function.update s₂.handles fd { s₂.handles fd with
          currBlk := s₂.blkBuf.next, currPos := ((s₂.handles fd).currPos + dataLen) % 2 ^ 32 } } := ⟨_, rfl⟩
      have hh₂ : s₂.handles fd = { s.handles fd with size := max (s.handles fd).size (w.copied true).offset } := by
        rw [hs₂, State.wrote_handle, hh₁]
      have hnext₂ : s₂.blkBuf.next = 0 := by
        rw [hs₂, hs₁]
        exact (Block.next_setNext _ _).trans rfl
      have hh₃ : s₃.handles fd = { s₂.handles fd with
          currBlk := 0, currPos := ((s₂.handles fd).currPos + dataLen) % 2 ^ 32 } := by
        rw [hs₃, hnext₂]
        exact Function.update_self ..
      have hstep : writeLoop e fd (fuel + 1) w s = writeLoop e fd fuel w₁ s₃ := by
        rw [writeLoop_run, if_pos hpre, Prog.bind_some (allocBlock_inval (s := s.loaded w) (by exact h.inval)),
          modifyBuf_bind]
        have hstate : ({ s.loaded w with tfsLastError := .diskFull, blkBuf := (s.loaded w).blkBuf.setNext 0 } : State) =
            { s₁ with tfsLastError := .diskFull } := by rw [hs₁]
        rw [hstate, writeStore_wiped he hsets (by rw [hb₁]; exact hlt₁)]
        rw [hok, hrun, ← hw₁, ← hs₂]
        show writeNext e fd true _ _ s₂ = _
        rw [writeNext, blkBuf_bind, if_pos rfl, handle_bind, modifyBuf_bind, modifyHandle_bind, hs₃]
      have hdev : ∀ b, b ≠ 0 → s₃.dev b = s.dev b := by
        intro b hb
        rw [hs₃, hs₂, hs₁]
        exact Function.update_of_ne hb _ _
      have hframe : FdFrame fd s s₃ := by
        have h12 : FdFrame fd s s₂ := by
          rw [hs₂, hs₁]
          exact (FdFrame.loaded s fd w).trans (.trans ⟨rfl, rfl, rfl, rfl, fun _ _ => rfl, rfl, rfl, rfl⟩
            (.wrote _ fd 0 _ _ l))
        exact h12.trans (.handle (x := s₃.handles fd) (by rw [hh₃, hs₃, hnext₂]) (by rw [hs₃]; exact ⟨rfl, rfl, rfl, rfl⟩)
          (by rw [hh₃]) (by rw [hh₃]; exact ⟨rfl, rfl⟩))
      rw [hh₁] at hu
      obtain ⟨h₃, hcop⟩ := h.copied (g := g) (c := c) (by rw [hh₃, hh₂]) hframe hdev (by omega) hu (.inr hw₁)
        (by rw [hs₃, hs₂, hs₁]; rfl) (by rw [hs₃, hs₂]; exact herr₁) (by rw [hh₃]) (by rw [hs₃]; simp)
      have hsum := hcop.len
      obtain ⟨w', s', hrun', h', hret, hbound, hcop'⟩ :=
          ih s₃ w₁ _ c h₃ (by rw [hw₁]; exact (by decide : 0 < dataLen)) (by omega)
      refine ⟨w', s', hstep.trans hrun', h', ?_, hbound ∘ hcop.bound, fun h32 => ?_⟩
      · rw [hret, hcop.ret, Nat.mod_add_mod, Nat.add_assoc, show w.chunk + w₁.len = w.len by omega]
      have hoff : w₁.offset = w.offset + w.chunk := by rw [hcop.offset, Nat.mod_eq_of_lt (by omega)]
      obtain ⟨g', hcop'⟩ := hcop' (by omega)
      have htrans := hcop.trans hcop' (by omega)
      rw [show w.chunk + w₁.len = w.len by omega] at htrans
      exact ⟨g', htrans⟩
    · have hchunk := WriteVars.chunk_of_le (w := w) (by omega)
      have hzero : (w.copied w.append).len = 0 := by
        show w.len - w.chunk = 0
        omega
      obtain ⟨u, l, hu, hrun⟩ := writeStore_ok he (s := s.loaded w) (by exact h.err) h.blk (hlt _ rfl) (w.copied w.append)
        (writeLoop e fd fuel)
      rw [if_pos hzero] at hrun
      obtain ⟨s₁, hs₁⟩ : ∃ s₁, s₁ = (s.loaded w).wrote fd 0 (s.loaded w).blkBuf (w.copied w.append).offset l := ⟨_, rfl⟩
      have hh₁ : s₁.handles fd = { s.handles fd with size := max (s.handles fd).size (w.copied w.append).offset } := by
        rw [hs₁, State.wrote_handle]
        rfl
      have hdev : ∀ b, b ≠ 0 → s₁.dev b = s.dev b := by
        intro b hb
        rw [hs₁]
        exact Function.update_of_ne hb _ _
      obtain ⟨h₁, hcop⟩ := h.copied (g := g) (c := c) (by rw [hh₁])
        (by rw [hs₁]; exact (FdFrame.loaded s fd w).trans (.wrote _ fd 0 _ _ l)) hdev (by omega) hu (.inl rfl)
        (by rw [hs₁]; rfl) (by rw [hs₁]; exact h.err) (by rw [hh₁]; exact h.blk) (by rw [hs₁]; exact hnext)
      refine ⟨{ w.copied w.append with updateItem := u }, s₁, ?_, h₁, hchunk ▸ hcop.ret, hcop.bound, fun _ =>
        ⟨_, hchunk ▸ hcop⟩⟩
      rw [writeLoop_run, if_neg (by omega), hs₁]
      exact hrun

/-! ## The loop -/

/-- The cursor on block number `k` of the file. -/
structure OnBlock (h : Handle) (c : List Nat) (k : Nat) : Prop where
  inside : k < c.length
  lt : dataLen * k < 2 ^ 32
  blk : h.currBlk = c.getD k 0
  pos : h.currPos = dataLen * k

theorem OnBlock.cursor {h : Handle} (hon : OnBlock h c k) : Cursor h c := .inr ⟨k, hon.inside, hon.blk, hon.pos, hon.lt⟩

/-- The number of the block the transfer ends in. -/
def WriteVars.lastIdx (w : WriteVars) : Nat := (w.offset + w.len - 1) / dataLen

/-- How the loop ends: all bytes are stored, or the disk is full, and the bytes up to
the end of the last block are; then the call ends, or it goes astray. -/
inductive WriteEnd (e : Env) (n fd : Nat) (cs : List (List Nat)) (xs : List Nat) (s : State) (c : List Nat)
    (g : Nat → UInt8) (w : WriteVars) : Exit → WriteVars → State → Prop
  | done {s' : State} {c' : List Nat} {w' : WriteVars} : FileData n fd cs xs s' c' → s'.tfsLastError = .ok →
      OnBlock (s'.handles fd) c' w.lastIdx → c'.length = max c.length (w.lastIdx + 1) →
      Copied fd s s' c c' g (fileContent s'.dev c') w w' w.len → WriteEnd e n fd cs xs s c g w .done w' s'
  | full {s' : State} {c' : List Nat} {w' : WriteVars} : e.drive.setsOk = false → FileData n fd cs xs s' c' →
      s'.tfsLastError = .diskFull → OnBlock (s'.handles fd) c' (c'.length - 1) → Full n s'.dev →
      w.offset < dataLen * c'.length → dataLen * c'.length < w.offset + w.len → c <+: c' → AgreeOff c' s.dev s'.dev →
      FdFrame fd s s' →
      fileContent s'.dev c' =
        Chunks.overwrite g w.offset (fun j => w.data.getD j 0) (dataLen * c'.length - w.offset) →
      w'.ret = (w.ret + (dataLen * c'.length - w.offset)) % 2 ^ 32 →
      (s'.handles fd).size = max (s.handles fd).size
        (if w.offset < dataLen * (c'.length - 1) then dataLen * (c'.length - 1) else 0) →
      WriteEnd e n fd cs xs s c g w .out w' s'
  | astray {s₁ s' : State} {c' : List Nat} {w' : WriteVars} : e.drive.setsOk = true → FileData n fd cs xs s₁ c' →
      c' ≠ [] → c <+: c' → c'.length ≤ w.lastIdx → Full n s₁.dev → AgreeOff c' s.dev s₁.dev → FdFrame fd s s₁ →
      Astray fd s₁ s' → w'.ret = (w.ret + w.len) % 2 ^ 32 →
      ((s.handles fd).size < 2 ^ 32 → (s'.handles fd).size < 2 ^ 32) →
      (w.offset + w.len < 2 ^ 32 → (s'.handles fd).size = max (s.handles fd).size (w.offset + w.len) ∧
        (w'.updateItem = true ↔ w.updateItem = true ∨ (s.handles fd).size < w.offset + w.len)) →
      WriteEnd e n fd cs xs s c g w .done w' s'

/-- The end of the loop, seen from before an iteration that fills its block. -/
theorem WriteEnd.after {x : Exit} {j : Nat} (h : Copied fd s s₁ c c₁ g g₁ w w₁ m) (hm : 0 < m)
    (hj : w.offset + m = dataLen * j) (h32 : dataLen * j < 2 ^ 32)
    (hlen : max c₁.length (w₁.lastIdx + 1) = max c.length (w₁.lastIdx + 1))
    (h' : WriteEnd e n fd cs xs s₁ c₁ g₁ w₁ x w' s') : WriteEnd e n fd cs xs s c g w x w' s' := by
  have hoff : w₁.offset = w.offset + m := by rw [h.offset, Nat.mod_eq_of_lt (by omega)]
  have hsum := h.len
  have hlast : w₁.lastIdx = w.lastIdx := by
    rw [WriteVars.lastIdx, WriteVars.lastIdx, hoff]
    congr 2
    omega
  cases h' with
  | done hf herr hon hc hcop =>
    rw [hlast] at hlen hon hc
    have htrans := h.trans hcop (by omega)
    rw [show m + w₁.len = w.len by omega] at htrans
    exact .done hf herr hon (hc.trans hlen) htrans
  | @full s' c' w' hsets hf herr hon hfull hlt hend hpre hag hfr hcont hret hsize =>
    have hjlt : j < c'.length := by
      rw [hoff, hj] at hlt
      exact Nat.lt_of_mul_lt_mul_left hlt
    refine .full hsets hf herr hon hfull (by omega) (by omega) (h.grown.trans hpre)
      ((h.agree.mono fun b hb => hpre.subset hb).trans hag) (h.frame.trans hfr) ?_ ?_ ?_
    · rw [hcont, h.content, hoff, h.data]
      simp only [getD_drop]
      rw [Chunks.overwrite_overwrite]
      congr 1
      omega
    · rw [hret, h.ret, Nat.mod_add_mod, Nat.add_assoc]
      congr 2
      omega
    · rw [hsize, h.size (by omega), hoff]
      have hle : dataLen * j ≤ dataLen * (c'.length - 1) := Nat.mul_le_mul_left _ (by omega)
      split <;> split <;> omega
  | @astray s₂ s' c' w' hsets hf hne hpre hshort hfull hag hfr hastray hret hbound hend =>
    refine .astray hsets hf hne (h.grown.trans hpre) (hlast ▸ hshort) hfull
      ((h.agree.mono fun b hb => hpre.subset hb).trans hag)
      (h.frame.trans hfr) hastray ?_ (hbound ∘ h.bound) fun hlt => ?_
    · rw [hret, h.ret, Nat.mod_add_mod, Nat.add_assoc, Nat.add_comm m, hsum]
    obtain ⟨hsize, hupd⟩ := hend (by omega)
    rw [hsize, hupd, h.size (by omega), h.update (by omega), hoff, or_assoc]
    refine ⟨by omega, or_congr_right ?_⟩
    omega

/-- The iteration in which the disk is found full: the block is written, as the last one. -/
theorem writeLoop_full (he : e.NeverFails) {s₁ : State} (h : Writing n fd cs xs s w d b []) (hlen : w.blkLen < w.len)
    (h32 : dataLen * d.length < 2 ^ 32) (hsets : e.drive.setsOk = false)
    (ha : AllocFull e n (s.loaded w) cs (d ++ [b] ++ xs) s₁) : ∃ w' s',
    writeLoop e fd (fuel + 1) w s = some ((.out, w'), s') ∧
    WriteEnd e n fd cs xs s (d ++ [b]) (fileContent (flushed s b) (d ++ [b])) w .out w' s' := by
  have hchunk := WriteVars.chunk_of_lt hlen
  have hroom := h.room
  have hoff := h.offset
  have hinside := h.inside
  have hfill : dataLen * (d ++ [b]).length - w.offset = w.chunk := by
    rw [List.length_append, List.length_singleton, Nat.mul_succ]
    omega
  have hpre : (w.copied w.append).len > 0 ∧ (s.loaded w).blkBuf.next = 0 := by
    refine ⟨?_, (h.loaded w).next⟩
    show 0 < w.len - w.chunk
    omega
  have h₁ : Editing n fd cs xs s₁ d b [] := (h.loaded w).kept ha.ready ha.kept (by rw [ha.dev]; exact .refl)
  have hh₁ : s₁.handles = s.handles := ha.kept.handles
  obtain ⟨s₂, hs₂⟩ : ∃ s₂ : State, s₂ = { s₁ with blkBuf := s₁.blkBuf.setNext 0 } := ⟨_, rfl⟩
  have herr₂ : errAfter e s₂ = .diskFull := by
    rw [errAfter, hsets, hs₂]
    exact ha.err
  have hst := h₁.stored (v := s₂.blkBuf) (w := s₂.blkBuf) (H := s₂.handles) (x := errAfter e s₂)
    (l := s₂.log.transfer (.write b true)) (by rw [hs₂]; simp [h₁.prev]) (by rw [hs₂]; simp) (by rw [hs₂])
  refine ⟨w.copied true, { s₂ with
    tfsLastError := errAfter e s₂, dev := Function.update s₂.dev b s₂.blkBuf
    log := s₂.log.transfer (.write b true) }, ?_, ?_⟩
  · rw [writeLoop_run, if_pos hpre, Prog.bind_some ha.run, modifyBuf_bind, ← hs₂]
    have hb : (s₂.handles fd).currBlk = b := by
      rw [hs₂]
      exact h₁.blk
    have hlt : b < s₂.blkCount := by
      rw [hs₂]
      exact h₁.range.1
    rw [writeStore, handle_bind, hb, Prog.bind_some (driveWriteBlock_any he hlt),
      ifOk_err (by show errAfter e s₂ ≠ .ok; rw [herr₂]; exact Err.noConfusion)]
  · subst hs₂
    refine .full hsets hst herr₂ ⟨by simp, ?_, ?_, ?_⟩ ?_ ?_ ?_ (List.prefix_refl _) ?_ ?_ ?_ ?_ ?_
    · rw [List.length_append, List.length_singleton, Nat.add_sub_cancel]
      exact h32
    · exact h₁.blk.trans (by simp)
    · exact h₁.pos.trans (by simp)
    · intro x hx
      show Used (Function.update s₁.dev b _) x
      rw [used_update h.range.2.1, ha.dev]
      exact ha.full x hx
    · rw [List.length_append, List.length_singleton, Nat.mul_succ]
      omega
    · rw [List.length_append, List.length_singleton, Nat.mul_succ]
      omega
    · show AgreeOff _ s.dev (Function.update s₁.dev b _)
      rw [ha.dev]
      exact AgreeOff.update (by simp) _
    · exact (FdFrame.loaded s fd w).trans (Frame.fdFrame ⟨ha.kept.blkCount, ha.kept.lastBlk, ha.kept.lastLen,
        ha.kept.cur, ha.kept.handles⟩)
    · rw [hfill, ← h.content_loaded hoff (by omega)]
      refine fileContent_same (b := b) (fun x _ hx => ?_) fun k _ => ?_
      · show Function.update s₁.dev b _ x = _
        rw [Function.update_of_ne hx, flushed, Function.update_of_ne hx, ha.dev]
      · show (Function.update s₁.dev b _ b).data k = _
        rw [Function.update_self, flushed, Function.update_self, Block.data_setNext, ha.kept.buf]
    · rw [hfill]
      rfl
    · show (s₁.handles fd).size = _
      rw [hh₁, List.length_append, List.length_singleton, Nat.add_sub_cancel, if_neg (by omega)]
      omega

/-- The iteration in which the error of a full disk is lost: the block is written, as the
last one of the file, and the next one is block 0. -/
theorem writeLoop_stray (he : e.NeverFails) (hf : n ≤ e.fuel) (hsets : e.drive.setsOk = true) {s₁ : State}
    (h : Writing n fd cs xs s w d b []) (hlen : w.blkLen < w.len) (hfuel : w.len < fuel + 1)
    (ha : AllocFull e n (s.loaded w) cs (d ++ [b] ++ xs) s₁) : ∃ w' s',
    writeLoop e fd (fuel + 1) w s = some ((.done, w'), s') ∧
    WriteEnd e n fd cs xs s (d ++ [b]) (fileContent (flushed s b) (d ++ [b])) w .done w' s' := by
  have hchunk := WriteVars.chunk_of_lt hlen
  have hroom := h.room
  have hoff := h.offset
  have hinside := h.inside
  have h₁ : Editing n fd cs xs s₁ d b [] := (h.loaded w).kept ha.ready ha.kept (by rw [ha.dev]; exact .refl)
  have hpos : (w.copied true).len ≠ 0 := by
    show w.len - w.chunk ≠ 0
    omega
  have hpre : (w.copied w.append).len > 0 ∧ (s.loaded w).blkBuf.next = 0 := ⟨Nat.pos_of_ne_zero hpos, (h.loaded w).next⟩
  obtain ⟨s₂, hs₂⟩ : ∃ s₂ : State, s₂ = { s₁ with tfsLastError := .ok, blkBuf := s₁.blkBuf.setNext 0 } := ⟨_, rfl⟩
  have h₂ : Editing n fd cs xs s₂ d b [] := by
    rw [hs₂]
    exact ⟨⟨h₁.mounted, h₁.cache, h₁.owned⟩, h₁.blk, h₁.pos, h₁.first, h₁.linked, by simp [h₁.prev], by simp, trivial⟩
  have herr₂ : s₂.tfsLastError = .ok := by rw [hs₂]
  have hh₂ : s₂.handles = s.handles := by
    rw [hs₂]
    exact ha.kept.handles
  have hdev₂ : s₂.dev = s.dev := by
    rw [hs₂]
    exact ha.dev
  obtain ⟨u, l, hu, hrun⟩ := writeStore_ok he herr₂ h₂.blk h₂.range.1 (w.copied true) (writeLoop e fd fuel)
  rw [if_neg hpos] at hrun
  rw [hh₂] at hu
  obtain ⟨w₁, hw₁⟩ : ∃ w₁, w₁ = { w.copied true with updateItem := u, blkOs := 0, blkLen := dataLen } := ⟨_, rfl⟩
  have h₃ := h₂.wrote (w.copied true).offset l
  obtain ⟨s₃, hs₃⟩ : ∃ s₃, s₃ = s₂.wrote fd b s₂.blkBuf (w.copied true).offset l := ⟨_, rfl⟩
  rw [← hs₃] at h₃
  obtain ⟨s₄, hs₄⟩ : ∃ s₄ : State, s₄ = { s₃ with
    blkBuf := ((s₃.blkBuf.setPrev (s₃.handles fd).currBlk).setNext 0).clearData
    handles := Function.update s₃.handles fd { s₃.handles fd with
      currBlk := s₃.blkBuf.next, currPos := ((s₃.handles fd).currPos + dataLen) % 2 ^ 32 } } := ⟨_, rfl⟩
  have hh₃ : s₃.handles fd = { s.handles fd with size := max (s.handles fd).size (w.copied true).offset } := by
    rw [hs₃, State.wrote_handle, hh₂]
  have hnext₃ : s₃.blkBuf.next = 0 := by
    rw [hs₃]
    exact h₂.next
  have hh₄ : s₄.handles fd = { s₃.handles fd with
      currBlk := 0, currPos := ((s₃.handles fd).currPos + dataLen) % 2 ^ 32 } := by
    rw [hs₄, hnext₃]
    exact Function.update_self ..
  have hdev₃ : s₃.dev = Function.update s.dev b s₂.blkBuf := by rw [hs₃, ← hdev₂]; rfl
  have hfr₃ : FdFrame fd s s₃ := by
    rw [hs₃]
    refine .trans (.trans (FdFrame.loaded s fd w) (Frame.fdFrame ?_)) (.wrote s₂ fd b _ _ l)
    rw [hs₂]
    exact ⟨ha.kept.blkCount, ha.kept.lastBlk, ha.kept.lastLen, ha.kept.cur, ha.kept.handles⟩
  have hfr₄ : FdFrame fd s₃ s₄ := .handle (x := s₄.handles fd) (by rw [hh₄, hs₄, hnext₃])
      (by rw [hs₄]; exact ⟨rfl, rfl, rfl, rfl⟩)
    (by rw [hh₄]) (by rw [hh₄]; exact ⟨rfl, rfl⟩)
  have hastray : Astray fd s₃ s₄ := by
    refine ⟨?_, by rw [hs₄, hs₃]; exact herr₂, by rw [hh₄], by rw [hh₄], by rw [hs₄]; simp, fun x _ => by rw [hs₄], hfr₄⟩
    rw [hs₄, hs₃, hs₂]
    exact ha.inval (h.loaded w).toReady he hf (by exact h.err)
  have hagree : AgreeOff (d ++ [b]) s.dev s₃.dev := by
    rw [hdev₃]
    exact AgreeOff.update (by simp) _
  have hcop : Copied fd s s₄ (d ++ [b]) (d ++ [b]) (fileContent (flushed s b) (d ++ [b])) _ w w₁ w.chunk :=
    .step (List.prefix_refl _) (by rw [hs₄]; exact hagree) (hfr₃.trans hfr₄) rfl (by omega) (by rw [hh₄, hh₃]) hu
      (.inr hw₁)
  have hsum := hcop.len
  obtain ⟨w', s', hrun', h', hret, hbound, hcop'⟩ := writeLoop_astray he hsets
      (by rw [h₃.mounted.count]; exact h.mounted.pos) fuel s₄ w₁
    _ (d ++ [b]) hastray (by rw [hw₁]; exact (by decide : 0 < dataLen)) (by omega)
  refine ⟨w', s', ?_, .astray hsets h₃ (by simp) (List.prefix_refl _) ?_ ?_ hagree hfr₃ h' ?_
    (hbound ∘ hcop.bound) fun h32 => ?_⟩
  · refine Eq.trans ?_ hrun'
    rw [writeLoop_run, if_pos hpre, Prog.bind_some ha.run, modifyBuf_bind]
    have hstate : ({ s₁ with blkBuf := s₁.blkBuf.setNext 0 } : State) = { s₂ with tfsLastError := .diskFull } := by
      rw [hs₂, ← ha.err]
    have hok : ({ s₂ with tfsLastError := .ok } : State) = s₂ := by rw [← herr₂]
    rw [hstate, writeStore_wiped he hsets (by rw [h₂.blk]; exact h₂.range.1), hok, hrun, ← hw₁, ← hs₃]
    show writeNext e fd true _ _ s₃ = _
    rw [writeNext, blkBuf_bind, if_pos rfl, handle_bind, modifyBuf_bind, modifyHandle_bind, hs₄]
  · rw [List.length_append, List.length_singleton]
    refine (Nat.le_div_iff_mul_le (by decide)).mpr ?_
    rw [Nat.mul_comm, Nat.mul_succ]
    omega
  · intro x hx
    rw [hdev₃, used_update h.range.2.1]
    exact ha.full x hx
  · rw [hret, hcop.ret, Nat.mod_add_mod, Nat.add_assoc, Nat.add_comm w.chunk, hsum]
  · have hoff₁ : w₁.offset = w.offset + w.chunk := by rw [hcop.offset, Nat.mod_eq_of_lt (by omega)]
    obtain ⟨g', hcop'⟩ := hcop' (by omega)
    have htrans := hcop.trans hcop' (by omega)
    rw [show w.chunk + w₁.len = w.len by omega] at htrans
    exact ⟨htrans.size h32, htrans.update h32⟩

/-- **The loop of `tfs_write`**, from a block in the buffer on. -/
theorem writeLoop_ok (he : e.NeverFails) (hf : n ≤ e.fuel) (fuel : Nat) : ∀ d b r w s, n ≤ fuel + d.length →
    Writing n fd cs xs s w d b r → 0 < w.len →
    dataLen * min w.lastIdx ((d ++ b :: r).length + freeCount n s.dev - 1) < 2 ^ 32 →
    (e.drive.setsOk = false ∨ w.lastIdx + 1 ≤ (d ++ b :: r).length + freeCount n s.dev ∨ w.len < fuel) →
    ∃ x w' s', writeLoop e fd fuel w s = some ((x, w'), s') ∧
      WriteEnd e n fd cs xs s (d ++ b :: r) (fileContent (flushed s b) (d ++ b :: r)) w x w' s' := by
  induction fuel with
  | zero =>
    intro d b r w s hn h
    have := h.length_lt
    omega
  | succ fuel ih =>
    intro d b r w s hn h hpos h32 hroom
    have hblk := h.room
    have hoff := h.offset
    have hinside := h.inside
    by_cases hlen : w.blkLen < w.len
    · have hchunk := WriteVars.chunk_of_lt hlen
      have hidx : d.length + 1 ≤ w.lastIdx := by
        refine (Nat.le_div_iff_mul_le (by decide)).mpr ?_
        rw [Nat.mul_comm, Nat.mul_succ]
        omega
      have hle : ∀ k, k ≤ w.lastIdx → k + 1 ≤ (d ++ b :: r).length + freeCount n s.dev →
          dataLen * k < 2 ^ 32 := fun k h1 h2 =>
        Nat.lt_of_le_of_lt (Nat.mul_le_mul_left _ (by omega)) h32
      have hj : w.offset + w.chunk = dataLen * (d.length + 1) := by
        rw [Nat.mul_succ]
        omega
      have hpos' : 0 < w.chunk := by omega
      have hlength : (d ++ [b]).length = d.length + 1 := by simp
      -- what is left to do after the iteration
      have hrest : ∀ {w₁ s₁ c₁ g₁}, Copied fd s s₁ (d ++ b :: r) c₁
        (fileContent (flushed s b) (d ++ b :: r)) g₁ w w₁ w.chunk →
          dataLen * (d.length + 1) < 2 ^ 32 → w₁.lastIdx = w.lastIdx ∧ 0 < w₁.len := by
        intro w₁ s₁ c₁ g₁ hcop hlt
        have hsum := hcop.len
        have ho := hcop.offset
        rw [Nat.mod_eq_of_lt (by omega)] at ho
        refine ⟨?_, by omega⟩
        rw [WriteVars.lastIdx, WriteVars.lastIdx, ho]
        congr 2
        omega
      cases r with
      | cons b' r =>
        have hj32 := hle (d.length + 1) hidx (by simp only [List.length_append, List.length_cons]; omega)
        obtain ⟨w₁, s₁, hrun, h₁, -, hcop⟩ := writeLoop_inPlace he h hlen hj32
        obtain ⟨hlast, hpos₁⟩ := hrest hcop hj32
        have hlist : d ++ b :: b' :: r = d ++ [b] ++ b' :: r := by simp
        have hfree : freeCount n s.dev = freeCount n s₁.dev := by
          have hadd := h.owned.freeCount_add h₁.owned
          rw [hlist] at hadd
          omega
        obtain ⟨x, w', s', hrun', hend⟩ := ih (d ++ [b]) b' r w₁ s₁ (by omega) h₁ hpos₁
          (by rw [hlast, ← hlist, ← hfree]; exact h32)
          (by rw [hlast, ← hlist, ← hfree]; exact hroom.imp_right (.imp_right fun _ => by have := hcop.len; omega))
        rw [← hlist] at hend
        exact ⟨x, w', s', hrun.trans hrun', .after hcop hpos' hj hj32 rfl hend⟩
      | nil =>
        rcases (h.loaded w).toReady.alloc he hf (by exact h.err) with ⟨b', s₁, ha⟩ | ⟨s₁, ha⟩
        · have hone : 1 ≤ freeCount n s.dev := by
            have hadd := h.owned.freeCount_add ha.ready.owned
            simp only [List.length_append, List.length_cons, List.length_nil] at hadd
            omega
          have hj32 := hle (d.length + 1) hidx (by simp only [List.length_append, List.length_cons]; omega)
          obtain ⟨w₁, s₂, hrun, h₂, -, hcop⟩ := writeLoop_push he h hlen hj32 ha
          obtain ⟨hlast, hpos₁⟩ := hrest hcop hj32
          have hfree : freeCount n s.dev = freeCount n s₂.dev + 1 := by
            have hadd := h.owned.freeCount_add h₂.owned
            simp only [List.length_append, List.length_cons, List.length_nil] at hadd
            omega
          have htotal : (d ++ [b] ++ [b']).length + freeCount n s₂.dev = (d ++ [b]).length + freeCount n s.dev := by
            simp only [List.length_append, List.length_cons, List.length_nil]
            omega
          obtain ⟨x, w', s', hrun', hend⟩ := ih (d ++ [b]) b' [] w₁ s₂ (by omega) h₂ hpos₁
            (by rw [hlast, htotal]; exact h32)
            (by rw [hlast, htotal]; exact hroom.imp_right (.imp_right fun _ => by have := hcop.len; omega))
          refine ⟨x, w', s', hrun.trans hrun', .after hcop hpos' hj hj32 ?_ hend⟩
          rw [hlast]
          simp only [List.length_append, List.length_cons, List.length_nil]
          omega
        · cases hsets : e.drive.setsOk with
          | false =>
            obtain ⟨w', s', hrun, hend⟩ := writeLoop_full he h hlen
              (hle d.length (by omega) (by simp only [List.length_append, List.length_cons]; omega)) hsets ha
            exact ⟨.out, w', s', hrun, hend⟩
          | true =>
            have hfuel : w.len < fuel + 1 := by
              rcases hroom with hno | hroom | hfuel
              · rw [hsets] at hno
                cases hno
              · have hzero : freeCount n s.dev = 0 := freeCount_eq_zero.mpr ha.full
                simp only [List.length_append, List.length_cons, List.length_nil] at hroom
                omega
              · exact hfuel
            obtain ⟨w', s', hrun, hend⟩ := writeLoop_stray he hf hsets h hlen hfuel ha
            exact ⟨.done, w', s', hrun, hend⟩
    · obtain ⟨w', s', hrun, hfile, herr, hcur, hpos', hcop⟩ := writeLoop_last he h (by omega)
      have hlast : w.lastIdx = d.length := by
        have hlo : d.length ≤ w.lastIdx := (Nat.le_div_iff_mul_le (by decide)).mpr (by rw [Nat.mul_comm]; omega)
        have hhi : w.lastIdx < d.length + 1 := (Nat.div_lt_iff_lt_mul (by decide)).mpr
            (by rw [Nat.mul_comm, Nat.mul_succ]; omega)
        omega
      have h32' : dataLen * w.lastIdx < 2 ^ 32 := by
        refine Nat.lt_of_le_of_lt (Nat.mul_le_mul_left _ (Nat.le_min.mpr ⟨Nat.le_refl _, ?_⟩)) h32
        simp only [List.length_append, List.length_cons]
        omega
      refine ⟨.done, w', s', hrun, .done hfile herr ⟨?_, h32', ?_, ?_⟩ ?_ hcop⟩
      · rw [hlast]
        simp
      · rw [hlast, hcur]
        simp
      · rw [hlast, hpos']
      · rw [hlast]
        simp only [List.length_append, List.length_cons]
        omega

end TinyFs
