/-
`tfs_read`, `tfs_write` and `tfs_trunc` on the never-failing drive, for a handle whose
file is linked and whose cursor is on it or nowhere.
-/
import TinyFs.HandleWrite
import TinyFs.System

namespace TinyFs

open Bytes Chains

variable {e : Env} {n : Nat} {s s' : State} {fd b m k fuel len offset size : Nat} {c c' d r : List Nat}
  {cs : List (List Nat)}
  {xs : List Nat} {data : List UInt8}

/-! ## Reading -/

theorem fileContent_lt {dev : Nat → Block} (hk : k < dataLen) :
    fileContent dev (d ++ b :: r) (dataLen * d.length + k) = (dev b).data k := by
  have hdiv : (dataLen * d.length + k) / dataLen = d.length := by
    rw [Nat.mul_add_div (by decide), Nat.div_eq_of_lt hk, Nat.add_zero]
  have hmod : (dataLen * d.length + k) % dataLen = k := by
    rw [Nat.mul_add_mod, Nat.mod_eq_of_lt hk]
  rw [fileContent, Chunks.content, hdiv, hmod, List.getElem?_append_right (Nat.le_refl _), Nat.sub_self,
    List.getElem?_cons_zero]

/-- The bytes of a file from a position on. -/
def fileBytes (dev : Nat → Block) (c : List Nat) (offset m : Nat) : List UInt8 :=
  (List.range m).map fun k => fileContent dev c (offset + k)

theorem fileBytes_add (dev : Nat → Block) (c : List Nat) (offset m m' : Nat) :
    fileBytes dev c offset (m + m') = fileBytes dev c offset m ++ fileBytes dev c (offset + m) m' := by
  rw [fileBytes, fileBytes, fileBytes, map_range_add]
  simp only [Nat.add_assoc]

/-- The loop of `tfs_read` at the block behind `d`: the bytes up to the end of the file. -/
theorem readLoop_ok (he : e.NeverFails) (r : List Nat) : ∀ fuel d b blkOs blkLen len data s, r.length < fuel →
    FileChain e fd s (d ++ b :: r) → s.tfsLastError = .ok → s.blkBuf = s.dev b → (s.handles fd).currBlk = b →
    (s.handles fd).currPos = dataLen * d.length → blkOs + blkLen = dataLen → blkOs < dataLen → 0 < len →
    dataLen * d.length + blkOs + len ≤ 2 ^ 32 → ∃ b' p' v l, readLoop e fd fuel blkOs blkLen len data s =
      some ((.done, data ++ fileBytes s.dev (d ++ b :: r) (dataLen * d.length + blkOs)
        (min len (dataLen * (r.length + 1) - blkOs))), s.seekTo fd b' p' v l) ∧
      Cursor { s.handles fd with currBlk := b', currPos := p' } (d ++ b :: r) := by
  induction r with
  | nil =>
    intro fuel d b blkOs blkLen len data s hf h herr hbuf hb hp hroom hin hlen h32
    obtain ⟨fuel, rfl⟩ : ∃ k, fuel = k + 1 := ⟨fuel - 1, by simp at hf; omega⟩
    rw [readLoop, blkBuf_bind]
    have hnext : s.blkBuf.next = 0 := by
      rw [hbuf]
      exact (linked_append.mp h.linked).2.2.1
    have hbytes : ∀ m, m ≤ blkLen → (List.range m).map (fun k => s.blkBuf.data (blkOs + k)) =
        fileBytes s.dev (d ++ [b]) (dataLen * d.length + blkOs) m := fun m hm => List.map_congr_left fun k hk => by
      have hk : k < m := List.mem_range.mp hk
      rw [Nat.add_assoc, fileContent_lt (by omega), hbuf]
    have hchunk : (if blkLen > len then len else blkLen) = min len (dataLen * (([] : List Nat).length + 1) - blkOs) := by
      rw [List.length_nil, Nat.zero_add, Nat.mul_one]
      split <;> omega
    rw [hchunk, hbytes _ (by rw [List.length_nil, Nat.zero_add, Nat.mul_one]; omega)]
    by_cases hdone : len - min len (dataLen * (([] : List Nat).length + 1) - blkOs) = 0
    · rw [if_pos hdone]
      refine ⟨b, dataLen * d.length, s.blkBuf, s.log, ?_, .inr ⟨d.length, by simp, by simp, rfl, by omega⟩⟩
      rw [State.seekTo_self hb hp]
      rfl
    · rw [if_neg hdone, modifyHandle_bind, if_pos hnext]
      exact ⟨_, _, s.blkBuf, s.log, rfl, .inl hnext⟩
  | cons b' r ih =>
    intro fuel d b blkOs blkLen len data s hf h herr hbuf hb hp hroom hin hlen h32
    obtain ⟨fuel, rfl⟩ : ∃ k, fuel = k + 1 := ⟨fuel - 1, by simp at hf; omega⟩
    rw [readLoop, blkBuf_bind]
    have hnext : s.blkBuf.next = b' := by
      rw [hbuf]
      exact (linked_append.mp h.linked).2.2.1
    have hbytes : ∀ m, m ≤ blkLen → (List.range m).map (fun k => s.blkBuf.data (blkOs + k)) =
        fileBytes s.dev (d ++ b :: b' :: r) (dataLen * d.length + blkOs) m := fun m hm =>
          List.map_congr_left fun k hk => by
      have hk : k < m := List.mem_range.mp hk
      rw [Nat.add_assoc, fileContent_lt (by omega), hbuf]
    have hchunk : (if blkLen > len then len else blkLen) = min len blkLen := by
      split <;> omega
    have hmore : dataLen * ((b' :: r).length + 1) - blkOs = blkLen + dataLen * (r.length + 1) := by
      rw [List.length_cons, Nat.mul_succ]
      omega
    rw [hchunk, hbytes _ (Nat.min_le_right _ _), hmore]
    by_cases hdone : len - min len blkLen = 0
    · rw [if_pos hdone, show min len (blkLen + dataLen * (r.length + 1)) = min len blkLen by omega]
      refine ⟨b, dataLen * d.length, s.blkBuf, s.log, ?_, .inr ⟨d.length, by simp, by simp, rfl, by omega⟩⟩
      rw [State.seekTo_self hb hp]
      rfl
    · obtain ⟨hlt, hne⟩ := h.blocks b' (by simp)
      have hlist : d ++ b :: b' :: r = d ++ [b] ++ b' :: r := by simp
      have hlength : (d ++ [b]).length = d.length + 1 := by simp
      have hpos : dataLen * d.length + blkOs + blkLen = dataLen * (d ++ [b]).length + 0 := by
        rw [hlength, Nat.mul_succ]
        omega
      obtain ⟨x, hx⟩ : ∃ x, x = s.seekTo fd b' (dataLen * (d ++ [b]).length) (s.dev b')
          (s.log.transfer (.read b' true)) := ⟨_, rfl⟩
      have hstate : (({ (s.seekTo fd b' (dataLen * (d ++ [b]).length) s.blkBuf s.log) with
          blkBuf := s.dev b', log := s.log.transfer (.read b' true) }) : State) = x := by
        rw [hx]
        rfl
      have h32' : (dataLen * d.length + dataLen) % 2 ^ 32 = dataLen * (d ++ [b]).length := by
        rw [hlength, Nat.mod_eq_of_lt (by omega), Nat.mul_succ]
      rw [if_neg hdone, modifyHandle_bind, hnext, if_neg hne]
      simp only [hp, h32']
      have hread := driveReadBlock_ok he (s := s.seekTo fd b' (dataLen * (d ++ [b]).length) s.blkBuf s.log) (b := b')
        (by exact herr) (by exact hlt)
      rw [show s.seekTo fd b' (dataLen * (d ++ [b]).length) s.blkBuf s.log = { s with
        handles := Function.update s.handles fd { s.handles fd with
          currBlk := b', currPos := dataLen * (d ++ [b]).length } } from rfl] at hread
      rw [Prog.bind_some hread, ifOk_ok (by exact herr)]
      have hdata : FileChain e fd x (d ++ [b] ++ b' :: r) := by
        rw [← hlist, hx]
        exact ⟨h.blocks, h.linked, by rw [State.seekTo_handle]; exact h.first, h.short⟩
      obtain ⟨b'', p', v, l, hrun, hcur⟩ := ih fuel (d ++ [b]) b' 0 dataLen (len - min len blkLen)
        (data ++ fileBytes s.dev (d ++ b :: b' :: r) (dataLen * d.length + blkOs) (min len blkLen)) x
          (by simpa using hf) hdata
        (by rw [hx]; exact herr) (by rw [hx]; rfl) (by rw [hx, State.seekTo_handle]) (by rw [hx, State.seekTo_handle])
        (Nat.zero_add _) (by decide) (by omega) (by omega)
      refine ⟨b'', p', v, l, ?_, ?_⟩
      · rw [hx] at hrun
        refine Eq.trans ?_ (hrun.trans ?_)
        · rfl
        · rw [State.seekTo_seekTo, List.append_assoc, Nat.sub_zero, ← hlist, ← hpos, show min len blkLen =
            blkLen by omega,
            show min (len - blkLen) (dataLen * (r.length + 1)) = min len
              (blkLen + dataLen * (r.length + 1)) - blkLen by omega]
          show some ((Exit.done, data ++ (fileBytes s.dev _ _ blkLen ++ fileBytes s.dev _ _ _)), _) = _
          rw [← fileBytes_add, show blkLen + (min len (blkLen + dataLen * (r.length + 1)) - blkLen) =
            min len (blkLen + dataLen * (r.length + 1)) by omega]
      · rw [hx, State.seekTo_handle, ← hlist] at hcur
        exact hcur

/-! ## An open handle -/

/-- Between two calls: handle `fd` is in use on a file with the blocks `c`, and its
entry is in one of the other chains. -/
structure Opened (n fd : Nat) (cs : List (List Nat)) (xs : List Nat) (s : State) (c : List Nat) : Prop
    extends FileData n fd cs xs s c where
  dev : s.tfsLastError ≠ .noDev
  usage : (s.handles fd).usageCount ≠ 0
  cursor : Cursor (s.handles fd) c
  size : (s.handles fd).size < 2 ^ 32
  entry : ∃ d ∈ cs, (s.handles fd).dirBlk ∈ d

theorem not_invalidFd (hfd : fd < e.maxFds) (hu : (s.handles fd).usageCount ≠ 0) : ¬ invalidFd e s fd := by
  intro hinv
  rcases hinv with hneg | hge | hzero
  · omega
  · omega
  · exact hu hzero

/-- What `tfs_read` needs: the blocks of the file, and the cursor on it. -/
structure Readable (e : Env) (fd : Nat) (s : State) (c : List Nat) : Prop extends FileChain e fd s c where
  dev : s.tfsLastError ≠ .noDev
  usage : (s.handles fd).usageCount ≠ 0
  cursor : Cursor (s.handles fd) c
  size : (s.handles fd).size < 2 ^ 32

theorem Opened.readable (h : Opened n fd cs xs s c) (hf : n ≤ e.fuel) : Readable e fd s c :=
  ⟨h.fileChain hf, h.dev, h.usage, h.cursor, h.size⟩

/-- A call that leaves the medium and only moves the cursor. -/
theorem Opened.moved (h : Opened n fd cs xs s c) {p : Nat} {v : Block} {l : DriveLog} {err : Err} (herr : err ≠ .noDev)
    (hcur : Cursor { s.handles fd with currBlk := b, currPos := p } c) :
    Opened n fd cs xs { s.seekTo fd b p v l with tfsLastError := err } c := by
  have hh : (s.seekTo fd b p v l).handles fd = _ := State.seekTo_handle ..
  refine ⟨⟨⟨h.mounted, h.cache, h.owned⟩, h.linked, ?_⟩, herr, ?_, ?_, ?_, ?_⟩
  · exact (congrArg Handle.firstBlk hh).trans h.first
  · exact fun hz => h.usage ((congrArg Handle.usageCount hh).symm.trans hz)
  · show Cursor ((s.seekTo fd b p v l).handles fd) c
    rw [hh]
    exact hcur
  · exact (congrArg Handle.size hh).trans_lt h.size
  · obtain ⟨d, hd, hmem⟩ := h.entry
    exact ⟨d, hd, (congrArg Handle.dirBlk hh).symm ▸ hmem⟩

/-- Where the loops of `tfs_read` and `tfs_write` start in the current block. -/
theorem start_ok (hp : k = dataLen * (offset / dataLen)) :
    (offset + 2 ^ 32 - k) % 2 ^ 32 = offset % dataLen ∧
      (dataLen + 2 ^ 32 - offset % dataLen) % 2 ^ 32 = dataLen - offset % dataLen := by
  have hdiv := Nat.div_add_mod offset dataLen
  have hmod : offset % dataLen < dataLen := Nat.mod_lt _ (by decide)
  simp only [dataLen] at hdiv hmod hp ⊢
  omega

theorem FileChain.started (h : FileChain e fd s c) : FileChain e fd s.started c := ⟨h.blocks, h.linked, h.first, h.short⟩

theorem FileData.started (h : FileData n fd cs xs s c) : FileData n fd cs xs s.started c :=
  ⟨⟨h.mounted, h.cache, h.owned⟩, h.linked, h.first⟩

theorem FdFrame.started : FdFrame fd s s.started := ⟨rfl, rfl, rfl, rfl, fun _ _ => rfl, rfl, rfl, rfl⟩

theorem FdFrame.call (h : FdFrame fd s s') (x : DriveCall) : FdFrame fd s (s'.call x) :=
  h.trans ⟨rfl, rfl, rfl, rfl, fun _ _ => rfl, rfl, rfl, rfl⟩

theorem Opened.call (h : Opened n fd cs xs s c) (x : DriveCall) : Opened n fd cs xs (s.call x) c :=
  ⟨⟨⟨h.mounted, h.cache, h.owned⟩, h.linked, h.first⟩, h.dev, h.usage, h.cursor, h.size, h.entry⟩

theorem fileBytes_zero (dev : Nat → Block) (c : List Nat) (offset : Nat) : fileBytes dev c offset 0 = [] := rfl

/-- **`tfs_read`** returns the bytes of the file from the offset on: as many as are
asked for, up to the size of the file and the end of its blocks. -/
theorem tfsRead_ok (he : e.NeverFails) (h : Readable e fd s c) (hfd : fd < e.maxFds)
    (h32 : offset < 2 ^ 32)
    (hm : m = min (min len ((s.handles fd).size - offset)) (dataLen * c.length - offset)) :
    ∃ b p v l, tfsRead e fd len offset s = some ((m, fileBytes s.dev c offset m),
      { s.seekTo fd b p v l with tfsLastError := .ok }) ∧ Cursor { s.handles fd with currBlk := b, currPos := p } c := by
  have hsize := h.size
  have hrun : tfsRead e fd len offset s = _ := enter_run h.dev
  rw [hrun, show ({ s with tfsLastError := .ok, log := s.log.call .select } : State) = s.started from rfl]
  have hvalid : ¬ invalidFd e s.started fd := not_invalidFd hfd h.usage
  rw [Prog.gets_bind, id, if_neg hvalid, Int.toNat_natCast, handle_bind, show s.started.handles = s.handles from rfl]
  have hsame : s.started = s.started.seekTo fd (s.handles fd).currBlk (s.handles fd).currPos s.blkBuf s.started.log :=
    (State.seekTo_self rfl rfl).symm
  by_cases hover : offset > (s.handles fd).size
  · rw [if_pos hover, show m = 0 by omega, out_run]
    exact ⟨_, _, _, _, by rw [hsame]; rfl, h.cursor⟩
  rw [if_neg hover]
  have hlen : (if len > (s.handles fd).size - offset then (s.handles fd).size - offset else len) =
      min len ((s.handles fd).size - offset) := by
    split <;> omega
  simp only [hlen]
  have hdiv := Nat.div_add_mod offset dataLen
  have hmod : offset % dataLen < dataLen := Nat.mod_lt _ (by decide)
  by_cases hend : c.length ≤ offset / dataLen
  · have hmul : dataLen * c.length ≤ dataLen * (offset / dataLen) := Nat.mul_le_mul_left _ hend
    obtain ⟨v, l, hseek⟩ := seek_eof he h.toFileChain.started h.cursor rfl h32 hend
    refine ⟨0, dataLen * c.length, v, l.call .deselect, ?_, .inl rfl⟩
    rw [show m = 0 by omega, fileBytes_zero]
    refine (Prog.bind_some hseek).trans ?_
    rw [Prog.gets_bind, if_pos (.inl rfl), out_run]
    rfl
  · have hlt : offset / dataLen < c.length := by omega
    obtain ⟨l, hseek⟩ := seek_found he h.toFileChain.started h.cursor rfl h32 false hlt
    obtain ⟨s₂, hs₂⟩ : ∃ s₂, s₂ = s.started.seekTo fd (c.getD (offset / dataLen) 0) (dataLen * (offset / dataLen))
      (s.started.dev (c.getD (offset / dataLen) 0)) l := ⟨_, rfl⟩
    have hh₂ : s₂.handles fd = { s.handles fd with
        currBlk := c.getD (offset / dataLen) 0, currPos := dataLen * (offset / dataLen) } := by
      rw [hs₂, State.seekTo_handle]
      rfl
    have hon : Cursor (s₂.handles fd) c := by
      rw [hh₂]
      exact .inr ⟨offset / dataLen, hlt, rfl, rfl, by omega⟩
    rw [← hs₂] at hseek
    have herr₂ : s₂.tfsLastError = .ok := by rw [hs₂]; rfl
    by_cases hzero : min len ((s.handles fd).size - offset) = 0
    · refine ⟨_, _, s.dev (c.getD (offset / dataLen) 0), l.call .deselect, ?_, hh₂ ▸ hon⟩
      rw [show m = 0 by omega, fileBytes_zero]
      refine (Prog.bind_some hseek).trans ?_
      rw [Prog.gets_bind, if_pos (.inr (.inr hzero)), out_run, hs₂]
      rfl
    · have hsplit : c = c.take (offset / dataLen) ++ c.getD (offset / dataLen) 0 :: c.drop (offset / dataLen + 1) := by
        rw [List.getD_eq_getElem _ _ hlt, ← List.drop_eq_getElem_cons hlt, List.take_append_drop]
      have htake : (c.take (offset / dataLen)).length = offset / dataLen := by
        rw [List.length_take]
        omega
      have hdrop : (c.drop (offset / dataLen + 1)).length = c.length - (offset / dataLen + 1) := List.length_drop
      have hdata : FileChain e fd s₂ (c.take (offset / dataLen) ++ c.getD (offset / dataLen) 0 :: c.drop
          (offset / dataLen + 1)) := by
        rw [← hsplit, hs₂]
        exact ⟨h.blocks, h.linked, by rw [State.seekTo_handle]; exact h.first, h.short⟩
      obtain ⟨hos, hroom⟩ := start_ok (k := (s₂.handles fd).currPos) (by rw [hh₂])
      obtain ⟨b, p, v, l', hloop, hcur⟩ := readLoop_ok he (c.drop (offset / dataLen + 1)) e.fuel
          (c.take (offset / dataLen))
        (c.getD (offset / dataLen) 0) (offset % dataLen) (dataLen - offset % dataLen)
        (min len ((s.handles fd).size - offset)) [] s₂
        (by have := h.short; omega) hdata herr₂ (by rw [hs₂]; rfl) (by rw [hh₂]) (by rw [hh₂, htake])
        (by omega) hmod (by omega) (by rw [htake]; omega)
      refine ⟨b, p, v, l'.call .deselect, ?_, ?_⟩
      · refine (Prog.bind_some hseek).trans ?_
        rw [Prog.gets_bind, if_neg (by simp [herr₂, hzero]), handle_bind, hos, hroom, Prog.bind_some hloop]
        have hm' : min (min len ((s.handles fd).size - offset))
          (dataLen * ((c.drop (offset / dataLen + 1)).length + 1) - offset % dataLen) =
            m := by
          rw [hdrop, hm]
          have hmul : dataLen * c.length = dataLen * (offset / dataLen) +
              dataLen * (c.length - (offset / dataLen + 1) + 1) := by
            rw [← Nat.mul_add]
            congr 1
            omega
          omega
        rw [htake, hdiv, hm', ← hsplit, List.nil_append]
        have hlength : (fileBytes s₂.dev c offset m).length % 2 ^ 32 = m := by
          rw [fileBytes, List.length_map, List.length_range, Nat.mod_eq_of_lt (by omega)]
        show out (pure ((fileBytes s₂.dev c offset m).length % 2 ^ 32, fileBytes s₂.dev c offset m)) _ = _
        rw [hlength, out_run, hs₂, State.seekTo_seekTo]
        rfl
      · rw [← hsplit, hh₂] at hcur
        exact hcur

/-! ## The entry -/

/-- A directory block with the entry of a handle brought up to date. -/
def Handle.entryIn (h : Handle) (v : Block) : Block :=
  (v.setItemBlk (h.dirItem.getD 0) h.firstBlk).setItemSize (h.dirItem.getD 0) h.size

/-- The state with the entry of a handle brought up to date on the medium. -/
def State.entryStored (s : State) (fd : Nat) (l : DriveLog) : State := { s with
  dev := Function.update s.dev (s.handles fd).dirBlk ((s.handles fd).entryIn (s.dev (s.handles fd).dirBlk))
  blkBuf := (s.handles fd).entryIn (s.dev (s.handles fd).dirBlk), log := l }

theorem FdFrame.entryStored (h : FdFrame fd s s') (l : DriveLog) : FdFrame fd s (s'.entryStored fd l) :=
  h.trans ⟨rfl, rfl, rfl, rfl, fun _ _ => rfl, rfl, rfl, rfl⟩

theorem updateDirItem_ok (he : e.NeverFails) (herr : s.tfsLastError = .ok) (hlt : (s.handles fd).dirBlk < s.blkCount) :
    ∃ l, updateDirItem e fd s = some ((), s.entryStored fd l) := by
  refine ⟨(s.log.transfer (.read (s.handles fd).dirBlk true)).transfer (.write (s.handles fd).dirBlk true), ?_⟩
  rw [updateDirItem, handle_bind, Prog.bind_some (driveReadBlock_ok he herr hlt), ifOk_ok (by exact herr), modifyBuf_bind,
    driveWriteBlock_ok he (by exact herr) (by exact hlt)]
  rfl

/-- The entry of a file is in a block of another chain. -/
theorem FileData.entry_ok (h : FileData n fd cs xs s c) (hd : ∃ d ∈ cs, (s.handles fd).dirBlk ∈ d) :
    (s.handles fd).dirBlk < s.blkCount ∧ (s.handles fd).dirBlk % 4096 ≠ 0 ∧ (s.handles fd).dirBlk ∉ c := by
  obtain ⟨d, hd, hmem⟩ := hd
  refine ⟨h.mem_lt hd hmem, h.owned.mem_mod hd hmem, fun hc => ?_⟩
  have hnd := (List.nodup_append.mp h.owned.nodup).2.2
  exact hnd _ (List.mem_append_left _ hc) _ (List.mem_flatten.mpr ⟨d, hd, hmem⟩) rfl

/-- The file with its entry brought up to date: only that block changes. -/
theorem Opened.entryStored (h : Opened n fd cs xs s c) (l : DriveLog) :
    Opened n fd cs xs (s.entryStored fd l) c ∧ fileContent (s.entryStored fd l).dev c = fileContent s.dev c := by
  obtain ⟨-, hmod, hnot⟩ := h.entry_ok h.entry
  have hR := h.storeLinks hmod (v := (s.handles fd).entryIn (s.dev (s.handles fd).dirBlk)) (by simp [Handle.entryIn])
    (by simp [Handle.entryIn]) l
  have hfile : FileData n fd cs xs (s.entryStored fd l) c :=
    ⟨⟨hR.mounted, hR.cache, hR.owned⟩, h.linked.update_notMem hnot _, h.first⟩
  refine ⟨⟨hfile, h.dev, h.usage, h.cursor, h.size, h.entry⟩, fileContent_congr fun b hb => ?_⟩
  exact Function.update_of_ne (ne_of_mem_of_not_mem hb hnot) _ _

/-- What a call on a handle did to the entry: nothing, and then (`exact`) it did not
have to, or it was brought up to date last. -/
inductive EntryWrite (fd : Nat) (s : State) (dev₁ : Nat → Block) (exact : Prop) (s' : State) : Prop
  | kept : s'.dev = dev₁ → (exact → (s'.handles fd).firstBlk = (s.handles fd).firstBlk ∧
      (s'.handles fd).size = (s.handles fd).size) → EntryWrite fd s dev₁ exact s'
  | stored : s'.dev = Function.update dev₁ (s'.handles fd).dirBlk
    ((s'.handles fd).entryIn (dev₁ (s'.handles fd).dirBlk)) →
      EntryWrite fd s dev₁ exact s'

/-! ## Writing -/

/-- How `tfs_write` ends: all bytes are in the file, or the disk is full, and those up
to the end of its last block are. The value returned tells them apart, but where the
drive hides the error. -/
inductive WroteFile (e : Env) (n fd : Nat) (cs : List (List Nat)) (xs : List Nat) (s : State) (c : List Nat)
    (data : List UInt8) (len offset : Nat) : Nat → State → Prop
  | done {s' : State} {c' : List Nat} {dev₁ : Nat → Block} : Opened n fd cs xs s' c' → s'.tfsLastError = .ok →
      OnBlock (s'.handles fd) c' ((offset + len - 1) / dataLen) → c <+: c' →
      c'.length = max c.length ((offset + len - 1) / dataLen + 1) → AgreeOff c' s.dev dev₁ → FdFrame fd s s' →
      EntryWrite fd s dev₁ (offset + len < 2 ^ 32) s' →
      fileContent s'.dev c' = Chunks.overwrite (fileContent s.dev c) offset (fun j => data.getD j 0) len →
      (offset + len < 2 ^ 32 → (s'.handles fd).size = max (s.handles fd).size (offset + len)) →
      WroteFile e n fd cs xs s c data len offset (len % 2 ^ 32) s'
  | full {s' : State} {c' : List Nat} : (c' ≠ [] → e.drive.setsOk = false) → Opened n fd cs xs s' c' →
      s'.tfsLastError = .diskFull → c <+: c' → dataLen * c'.length < offset + len →
      Full n s'.dev → AgreeOff c' s.dev s'.dev → FdFrame fd s s' →
      fileContent s'.dev c' =
        Chunks.overwrite (fileContent s.dev c) offset (fun j => data.getD j 0) (dataLen * c'.length - offset) →
      (s'.handles fd).size = max (s.handles fd).size
        (if offset < dataLen * (c'.length - 1) then dataLen * (c'.length - 1) else 0) →
      WroteFile e n fd cs xs s c data len offset ((dataLen * c'.length - offset) % 2 ^ 32) s'
  | astray {s' : State} {c' : List Nat} : e.drive.setsOk = true → Readable e fd s' c' → c' ≠ [] → c <+: c' →
      c'.length = c.length + freeCount n s.dev → dataLen * c'.length < offset + len → s'.tfsLastError = .ok →
        FdFrame fd s s' →
      (offset + len < 2 ^ 32 → (s'.handles fd).size = max (s.handles fd).size (offset + len)) →
      WroteFile e n fd cs xs s c data len offset (len % 2 ^ 32) s'

theorem Opened.after (h : Opened n fd cs xs s c) (h' : FileData n fd cs xs s' c') (hfr : FdFrame fd s s')
    (herr : s'.tfsLastError ≠ .noDev) (hcur : Cursor (s'.handles fd) c') (hsize : (s'.handles fd).size < 2 ^ 32) :
    Opened n fd cs xs s' c' :=
  ⟨h', herr, by rw [hfr.usage]; exact h.usage, hcur, hsize, by rw [hfr.entry.1]; exact h.entry⟩

/-- The end of a call that went astray. -/
theorem astrayEnd_ok {α : Type} (he : e.NeverFails) (hf : n ≤ e.fuel) (h : Opened n fd cs xs s c) {s₁ s₂ : State}
    (hfile : FileData n fd cs xs s₁ c') (hfr : FdFrame fd s s₁) (hastray : Astray fd s₁ s₂)
    (hsize : (s₂.handles fd).size < 2 ^ 32) (u : Bool) (a : α) : ∃ s', (out do
      if u then updateDirItem e fd
      pure a) s₂ = some (a, s') ∧ Readable e fd s' c' ∧ s'.tfsLastError = .ok ∧ FdFrame fd s s' ∧
      (s'.handles fd).size = (s₂.handles fd).size ∧ s'.dev 0 = s₂.dev 0 ∧ s'.handles = s₂.handles ∧
      (u = true → s'.dev = Function.update s₂.dev (s₁.handles fd).dirBlk
        ((s₂.handles fd).entryIn (s₂.dev (s₁.handles fd).dirBlk))) := by
  have hentry : ∃ d ∈ cs, (s₁.handles fd).dirBlk ∈ d := by
    rw [hfr.entry.1]
    exact h.entry
  obtain ⟨hlt, hmod, hnot⟩ := hfile.entry_ok hentry
  have hblk : (s₂.handles fd).dirBlk = (s₁.handles fd).dirBlk := hastray.frame.entry.1
  -- the file in a state that differs in the entry
  have hend : ∀ s' : State, s'.tfsLastError = .ok → s'.handles = s₂.handles → s'.blkCount = s₂.blkCount →
      (∀ b, b ≠ (s₁.handles fd).dirBlk → s'.dev b = s₂.dev b) → Readable e fd s' c' := by
    intro s' herr hh hcount hdev
    have hsame : ∀ b ∈ c', s'.dev b = s₁.dev b := fun b hb =>
      (hdev b (ne_of_mem_of_not_mem hb hnot)).trans (hastray.dev b (hfile.blocks b hb).2)
    refine ⟨⟨fun b hb => ?_, ?_, ?_, Nat.lt_of_lt_of_le hfile.length_lt hf⟩, by rw [herr]; exact Err.noConfusion, ?_,
      .inl ?_, ?_⟩
    · rw [hcount, hastray.frame.blkCount]
      exact hfile.blocks b hb
    · exact hfile.linked.congr (fun b hb => by rw [hsame b hb]) (fun b hb => by rw [hsame b hb])
    · rw [hh, hastray.first, hfile.first]
    · rw [hh, hastray.frame.usage, hfr.usage]
      exact h.usage
    · rw [hh, hastray.blk]
    · rw [hh]
      exact hsize
  cases u with
  | true =>
    obtain ⟨l, hupdate⟩ := updateDirItem_ok he hastray.err (by rw [hblk, hastray.frame.blkCount]; exact hlt)
    have hother : ∀ b, b ≠ (s₁.handles fd).dirBlk → (s₂.entryStored fd l).dev b = s₂.dev b := fun b hb => by
      rw [← hblk] at hb
      exact Function.update_of_ne hb _ _
    refine ⟨(s₂.entryStored fd l).call .deselect, ?_, hend _ hastray.err rfl rfl hother, hastray.err,
      ((hfr.trans hastray.frame).entryStored l).call _, rfl, hother 0 (ne_zero_of_mod hmod).symm, rfl, fun _ => ?_⟩
    · rw [out_run, if_pos rfl, Prog.bind_some hupdate]
      rfl
    · rw [← hblk]
      rfl
  | false =>
    refine ⟨s₂.call .deselect, ?_, hend _ hastray.err rfl rfl (fun _ _ => rfl), hastray.err,
      (hfr.trans hastray.frame).call _, rfl, rfl, rfl, nofun⟩
    rw [out_run, if_neg (by simp)]
    rfl

/-- The blocks a file has when the disk is full. -/
theorem FileData.length_full (h : FileData n fd cs xs s c) {s₁ : State} (h' : FileData n fd cs xs s₁ c')
    (hfull : Full n s₁.dev) : c'.length = c.length + freeCount n s.dev := by
  have hadd := h.owned.freeCount_add h'.owned
  rw [freeCount_eq_zero.mpr hfull] at hadd
  simp only [List.length_append] at hadd
  omega

/-- The part of `tfs_write` behind its `seek`. -/
def writeRest (e : Env) (fd : Nat) (w : WriteVars) : M Nat := do
  let (exit, w) ← writeLoop e fd e.fuel w
  match exit with
  | .ret => pure 0
  | .out => out (pure w.ret)
  | .done => out do
    if w.updateItem then updateDirItem e fd
    pure w.ret

/-- The variables the loop of `tfs_write` starts with. -/
def WriteVars.start (h : Handle) (data : List UInt8) (len offset : Nat) (append : Bool) : WriteVars where
  blkOs := (offset + 2 ^ 32 - h.currPos) % 2 ^ 32
  blkLen := (dataLen + 2 ^ 32 - (offset + 2 ^ 32 - h.currPos) % 2 ^ 32) % 2 ^ 32
  data := data
  len := len
  offset := offset
  append := append
  updateItem := append
  ret := 0

/-- The loop has put all bytes into the file, with the blocks `c'` in `s₃`; it had the blocks `c` in the state `s` before
the call. -/
structure WroteAll (n fd : Nat) (cs : List (List Nat)) (xs : List Nat) (s : State) (c : List Nat) (w w' : WriteVars)
    (s₃ : State) (c' : List Nat) : Prop extends FileData n fd cs xs s₃ c' where
  err : s₃.tfsLastError = .ok
  on : OnBlock (s₃.handles fd) c' w.lastIdx
  grown : c <+: c'
  length : c'.length = max c.length (w.lastIdx + 1)
  agree : AgreeOff c' s.dev s₃.dev
  frame : FdFrame fd s s₃
  content : fileContent s₃.dev c' =
    Chunks.overwrite (fileContent s.dev c) w.offset (fun j => w.data.getD j 0) w.len
  ret : w'.ret = w.len % 2 ^ 32
  size : w.offset + w.len < 2 ^ 32 → (s₃.handles fd).size = max (s.handles fd).size (w.offset + w.len)
  bound : (s₃.handles fd).size < 2 ^ 32
  kept : w.offset + w.len < 2 ^ 32 → w'.updateItem = false →
    (s₃.handles fd).firstBlk = (s.handles fd).firstBlk ∧ (s₃.handles fd).size = (s.handles fd).size

theorem WroteAll.opened (h : Opened n fd cs xs s c) {s₃ : State} {w w' : WriteVars}
    (hall : WroteAll n fd cs xs s c w w' s₃ c') : Opened n fd cs xs s₃ c' := by
  refine h.after hall.toFileData hall.frame ?_ hall.on.cursor hall.bound
  rw [hall.err]
  exact Err.noConfusion

/-- Its entry has changed, and is stored. -/
theorem WroteAll.stores (he : e.NeverFails) (h : Opened n fd cs xs s c) {s₃ : State} {w w' : WriteVars}
    (hall : WroteAll n fd cs xs s c w w' s₃ c') (hu : w'.updateItem = true) :
    ∃ s', (out do
      if w'.updateItem then updateDirItem e fd
      pure w'.ret) s₃ = some (w'.ret, s') ∧ WroteFile e n fd cs xs s c w.data w.len w.offset w'.ret s' := by
  have hopen := hall.opened h
  obtain ⟨l, hupdate⟩ := updateDirItem_ok he hall.err (hopen.entry_ok hopen.entry).1
  obtain ⟨hopen', hcont⟩ := hopen.entryStored l
  refine ⟨(s₃.entryStored fd l).call .deselect, ?_, ?_⟩
  · rw [out_run, if_pos hu, Prog.bind_some hupdate]
    rfl
  · rw [hall.ret]
    exact .done (hopen'.call _) hall.err hall.on hall.grown hall.length hall.agree ((hall.frame.entryStored l).call _)
      (.stored rfl) (hcont.trans hall.content) hall.size

/-- Its entry is as it was. -/
theorem WroteAll.leaves (h : Opened n fd cs xs s c) {s₃ : State} {w w' : WriteVars}
    (hall : WroteAll n fd cs xs s c w w' s₃ c') (hu : w'.updateItem = false) :
    ∃ s', (out do
      if w'.updateItem then updateDirItem e fd
      pure w'.ret) s₃ = some (w'.ret, s') ∧ WroteFile e n fd cs xs s c w.data w.len w.offset w'.ret s' := by
  refine ⟨s₃.call .deselect, ?_, ?_⟩
  · rw [out_run, if_neg (by simp [hu])]
    rfl
  · rw [hall.ret]
    exact .done ((hall.opened h).call _) hall.err hall.on hall.grown hall.length hall.agree (hall.frame.call _)
      (.kept rfl fun hex => hall.kept hex hu) hall.content hall.size

/-- The blocks of `c` are in place for the transfer: the current one is in the buffer. -/
theorem writeRest_ok (he : e.NeverFails) (hf : n ≤ e.fuel) (h : Opened n fd cs xs s c) {s₂ : State} {w : WriteVars}
    (hw : Writing n fd cs xs s₂ w d b r) (hpos : 0 < w.len)
    (h32 : dataLen * min w.lastIdx ((d ++ b :: r).length + freeCount n s₂.dev - 1) < 2 ^ 32)
    (hroom : e.drive.setsOk = false ∨ w.lastIdx + 1 ≤ (d ++ b :: r).length + freeCount n s₂.dev ∨ w.len < e.fuel)
    (hidx : (d ++ b :: r).length ≤ max c.length (w.lastIdx + 1)) (hc : c <+: d ++ b :: r)
    (hag : AgreeOff (d ++ b :: r) s.dev s₂.dev) (hfr : FdFrame fd s s₂)
    (hsize : (s₂.handles fd).size = (s.handles fd).size)
    (hg : fileContent (flushed s₂ b) (d ++ b :: r) = fileContent s.dev c) (hret : w.ret = 0)
    (hupd : w.updateItem = false → c ≠ []) :
    ∃ k s', writeRest e fd w s₂ = some (k, s') ∧ WroteFile e n fd cs xs s c w.data w.len w.offset k s' := by
  obtain ⟨x, w', s₃, hrun, hend⟩ := writeLoop_ok he hf e.fuel d b r w s₂ (by omega) hw hpos h32 hroom
  rw [writeRest, Prog.bind_some hrun]
  rw [hg] at hend
  cases hend with
  | astray hsets hfile hne hpre hshort hfull hag' hfr' hastray hret' hbound hsize' =>
    rename_i s₁ c'
    rw [hsize] at hbound hsize'
    obtain ⟨s', hend, hread, herr, hfr'', hsize'', -⟩ := astrayEnd_ok he hf h hfile (hfr.trans hfr') hastray
      (hbound h.size) w'.updateItem w'.ret
    refine ⟨w'.ret, s', hend, ?_⟩
    rw [hret', hret, Nat.zero_add]
    refine .astray hsets hread hne (hc.trans hpre) (h.length_full hfile hfull) ?_ herr hfr'' fun h32 => ?_
    · have hmul := (Nat.le_div_iff_mul_le (by decide)).mp hshort
      rw [Nat.mul_comm] at hmul
      omega
    · rw [hsize'', (hsize' h32).1]
  | full hsets hfile herr hon hfull hlt hend hpre hag' hfr' hcont hret' hsize' =>
    rename_i c'
    rw [hret, Nat.zero_add] at hret'
    rw [hsize] at hsize'
    have hopen : Opened n fd cs xs s₃ c' := by
      refine h.after hfile (hfr.trans hfr') ?_ hon.cursor ?_
      · rw [herr]
        exact Err.noConfusion
      · have hbound := h.size
        have := hon.lt
        rw [hsize']
        split <;> omega
    refine ⟨_, s₃.call .deselect, rfl, ?_⟩
    rw [hret']
    exact .full (fun _ => hsets) (hopen.call _) herr (hc.trans hpre) hend hfull
      ((hag.mono fun b hb => hpre.subset hb).trans hag') ((hfr.trans hfr').call _) hcont hsize'
  | done hfile herr hon hlen hcop =>
    rename_i c'
    have hsize' : w.offset + w.len < 2 ^ 32 → (s₃.handles fd).size = max (s.handles fd).size (w.offset + w.len) := by
      rw [← hsize]
      exact hcop.size
    have hall : WroteAll n fd cs xs s c w w' s₃ c' := by
      refine ⟨hfile, herr, hon, hc.trans hcop.grown, ?_, (hag.mono fun b hb => hcop.grown.subset hb).trans hcop.agree,
        hfr.trans hcop.frame, hcop.content, by rw [hcop.ret, hret, Nat.zero_add], hsize',
        hcop.bound (by rw [hsize]; exact h.size), fun hex hu => ⟨?_, ?_⟩⟩
      · have := hc.length_le
        omega
      · have hno := mt (hcop.update hex).mpr (by simp [hu])
        have hne : c ≠ [] := hupd (by
          cases hwu : w.updateItem with
          | false => rfl
          | true => exact absurd (.inl hwu) hno)
        obtain ⟨t, ht⟩ := hc.trans hcop.grown
        rw [hfile.first, ← ht, firstBlk_append hne, h.first]
      · have hno := mt (hcop.update hex).mpr (by simp [hu])
        have hle : w.offset + w.len ≤ (s₂.handles fd).size := by
          by_contra hlt
          exact hno (.inr (by omega))
        rw [hsize' hex]
        omega
    cases hu : w'.updateItem with
    | true =>
      obtain ⟨s', hrun', hwrote⟩ := hall.stores he h hu
      exact ⟨w'.ret, s', hrun', hwrote⟩
    | false =>
      obtain ⟨s', hrun', hwrote⟩ := hall.leaves h hu
      exact ⟨w'.ret, s', hrun', hwrote⟩

/-- The blocks of `d ++ b :: r` are there, and the offset is in `b`. -/
theorem writeFrom_ok (he : e.NeverFails) (hf : n ≤ e.fuel) (h : Opened n fd cs xs s c) {s₂ : State} (data : List UInt8)
    (app : Bool) (hed : Editing n fd cs xs s₂ d b r) (herr : s₂.tfsLastError = .ok) (hpos : 0 < len)
    (h32 : dataLen * min ((offset + len - 1) / dataLen) (c.length + freeCount n s.dev - 1) < 2 ^ 32)
    (hroom : e.drive.setsOk = false ∨ (offset + len - 1) / dataLen + 1 ≤ c.length + freeCount n s.dev ∨
      offset + len < e.fuel) (hd : d.length = offset / dataLen)
    (hlen : (d ++ b :: r).length ≤ max c.length (offset / dataLen + 1)) (hc : c <+: d ++ b :: r)
    (happ : app = true → r = []) (hag : AgreeOff (d ++ b :: r) s.dev s₂.dev) (hfr : FdFrame fd s s₂)
    (hsize : (s₂.handles fd).size = (s.handles fd).size)
    (hg : fileContent (flushed s₂ b) (d ++ b :: r) = fileContent s.dev c) (hne : app = false → c ≠ [])
    (htotal : (d ++ b :: r).length + freeCount n s₂.dev = c.length + freeCount n s.dev) :
    ∃ k s', (handle fd >>= fun h => writeRest e fd (.start h data len offset app)) s₂ = some (k, s') ∧
      WroteFile e n fd cs xs s c data len offset k s' := by
  have hdiv := Nat.div_add_mod offset dataLen
  have hmod : offset % dataLen < dataLen := Nat.mod_lt _ (by decide)
  have hidx : offset / dataLen ≤ (offset + len - 1) / dataLen := Nat.div_le_div_right (by omega)
  obtain ⟨hos, hblk⟩ := start_ok (k := (s₂.handles fd).currPos) (by rw [hed.pos, hd])
  rw [handle_bind, WriteVars.start, hos, hblk]
  refine writeRest_ok he hf h ⟨hed, herr, ?_, hmod, ?_, happ⟩ hpos (by rw [htotal]; exact h32)
    (by rw [htotal]; exact hroom.imp_right (.imp_right fun hfuel => Nat.lt_of_le_of_lt (Nat.le_add_left _ _) hfuel)) ?_ hc
    hag hfr hsize hg rfl hne
  · rw [hd, hdiv]
  · show offset % dataLen + (dataLen - offset % dataLen) = dataLen
    omega
  · show _ ≤ max c.length ((offset + len - 1) / dataLen + 1)
    omega

/-- `seek` has gone astray: the file ends with the disk, and the bytes get into block 0. -/
theorem writeStray_ok (he : e.NeverFails) (hf : n ≤ e.fuel) (h : Opened n fd cs xs s c) {s₁ s₂ : State}
    (data : List UInt8) (hsets : e.drive.setsOk = true) (hfile : FileData n fd cs xs s₁ c') (hne : c' ≠ [])
    (hc : c <+: c') (hlen : c'.length ≤ offset / dataLen) (hfull : Full n s₁.dev) (hfr : FdFrame fd s s₁)
    (hastray : Astray fd s₁ s₂) (hstart : (s₂.handles fd).currPos = dataLen * (offset / dataLen))
    (hsize : (s₂.handles fd).size = (s.handles fd).size) (hpos : 0 < len)
    (hroom : e.drive.setsOk = false ∨ (offset + len - 1) / dataLen + 1 ≤ c.length + freeCount n s.dev ∨
      offset + len < e.fuel) :
    ∃ k s', (handle fd >>= fun h => writeRest e fd (.start h data len offset true)) s₂ = some (k, s') ∧
      WroteFile e n fd cs xs s c data len offset k s' := by
  have hdiv := Nat.div_add_mod offset dataLen
  have hmod : offset % dataLen < dataLen := Nat.mod_lt _ (by decide)
  have hidx : offset / dataLen ≤ (offset + len - 1) / dataLen := Nat.div_le_div_right (by omega)
  have hmul : dataLen * c'.length ≤ dataLen * (offset / dataLen) := Nat.mul_le_mul_left _ hlen
  have hlength := h.length_full hfile hfull
  obtain ⟨hos, hblk⟩ := start_ok hstart
  obtain ⟨w, hw⟩ : ∃ w, w = WriteVars.start (s₂.handles fd) data len offset true := ⟨_, rfl⟩
  have hwlen : w.len = len := by rw [hw]; rfl
  have hwoff : w.offset = offset := by rw [hw]; rfl
  have hwblk : 0 < w.blkLen := by
    rw [hw, WriteVars.start, hos, hblk]
    show 0 < dataLen - offset % dataLen
    omega
  have hfuel : w.len < e.fuel := by
    rcases hroom with hno | hroom | hfuel
    · rw [hsets] at hno
      cases hno
    · omega
    · omega
  obtain ⟨w', s₃, hrun, h₃, hret, hbound, hcop⟩ := writeLoop_astray he hsets
    (by rw [hfile.mounted.count]; exact h.mounted.pos) e.fuel s₂ w (fun _ => 0) [] hastray hwblk hfuel
  obtain ⟨s', hend, hread, herr, hfr', hsize', -⟩ := astrayEnd_ok he hf h hfile hfr h₃
    (hbound (by rw [hsize]; exact h.size)) w'.updateItem w'.ret
  refine ⟨w'.ret, s', ?_, ?_⟩
  · rw [handle_bind, ← hw, writeRest, Prog.bind_some hrun]
    exact hend
  · have hret' : w'.ret = len % 2 ^ 32 := by
      rw [hret, hwlen, hw]
      exact congrArg (· % 2 ^ 32) (Nat.zero_add len)
    rw [hret']
    refine .astray hsets hread hne hc hlength (by omega) herr hfr' fun h32 => ?_
    obtain ⟨g', hcop⟩ := hcop (by rw [hwoff, hwlen]; exact h32)
    rw [hsize', hcop.size (by rw [hwoff, hwlen]; exact h32), hsize, hwoff, hwlen]

/-- **`tfs_write`** of some bytes overwrites the file from the offset on, as far as the disk has room. -/
theorem tfsWrite_ok (he : e.NeverFails) (hf : n ≤ e.fuel) (h : Opened n fd cs xs s c) (hfd : fd < e.maxFds)
    (data : List UInt8) (hpos : 0 < len) (ho : offset < 2 ^ 32)
    (h32 : dataLen * min ((offset + len - 1) / dataLen) (c.length + freeCount n s.dev - 1) < 2 ^ 32)
    (hroom : e.drive.setsOk = false ∨ (offset + len - 1) / dataLen + 1 ≤ c.length + freeCount n s.dev ∨
    offset + len < e.fuel) :
    ∃ k s', tfsWrite e fd data len offset s = some (k, s') ∧ WroteFile e n fd cs xs s c data len offset k s' := by
  have hrun : tfsWrite e fd data len offset s = _ := enter_run h.dev
  have hvalid : ¬ invalidFd e s.started fd := not_invalidFd hfd h.usage
  have hstart : FdFrame fd s s.started := .started
  rw [hrun, show ({ s with tfsLastError := .ok, log := s.log.call .select } : State) = s.started from rfl,
      Prog.gets_bind, id,
    if_neg hvalid, Int.toNat_natCast]
  have hzero : ¬ len = 0 := by omega
  by_cases hq : offset / dataLen < c.length
  · obtain ⟨l, hseek⟩ := seek_found he (h.started.fileChain hf) h.cursor rfl ho true hq
    have hed := h.started.split hq l
    have hsplit : c = c.take (offset / dataLen) ++ c.getD (offset / dataLen) 0 :: c.drop (offset / dataLen + 1) := by
      rw [List.getD_eq_getElem _ _ hq, ← List.drop_eq_getElem_cons hq, List.take_append_drop]
    have hflush : flushed (s.started.seekTo fd (c.getD (offset / dataLen) 0) (dataLen * (offset / dataLen))
        (s.started.dev (c.getD (offset / dataLen) 0)) l) (c.getD (offset / dataLen) 0) = s.dev :=
      Function.update_eq_self _ s.dev
    obtain ⟨k, s', hrest, hwrote⟩ := writeFrom_ok he hf h data false hed rfl hpos h32 hroom
      (by rw [List.length_take]; omega) (by rw [← hsplit]; omega) (by rw [← hsplit]) (by simp) .refl
      (hstart.trans (.handle rfl ⟨rfl, rfl, rfl, rfl⟩ rfl ⟨rfl, rfl⟩)) (by rw [State.seekTo_handle]; rfl)
      (by rw [hflush, ← hsplit]) (fun _ hc => by simp [hc] at hq) (by rw [← hsplit]; rfl)
    refine ⟨k, s', ?_, hwrote⟩
    rw [Prog.bind_some hseek, Prog.gets_bind, id]
    rw [if_neg (by simp [State.seekTo, State.started]), if_neg hzero]
    exact hrest
  · have hidx : offset / dataLen ≤ (offset + len - 1) / dataLen := Nat.div_le_div_right (by omega)
    obtain ⟨res, s₂, hseek, hext⟩ := seek_extend he hf h.started h.cursor rfl ho (by omega)
      (hroom.imp_right (.imp (fun hroom => Nat.le_trans (by omega) hroom) fun hfuel =>
        Nat.lt_of_le_of_lt ((Nat.div_le_self _ _).trans (Nat.le_add_right _ _)) hfuel))
    rw [Prog.bind_some hseek, Prog.gets_bind, id]
    cases hext with
    | append hed herr hc hd hg hag hfr hsize _hfill =>
      rename_i d b
      have hlength : (d ++ [b]).length = d.length + 1 := by simp
      have htotal : (d ++ [b]).length + freeCount n s₂.dev = c.length + freeCount n s.dev := by
        have hadd := h.owned.freeCount_add hed.owned
        rw [List.length_append, List.length_append, List.length_append, List.length_append] at hadd
        omega
      obtain ⟨k, s', hrest, hwrote⟩ := writeFrom_ok he hf h data true hed herr hpos h32 hroom hd
        (by rw [hlength]; omega) hc (fun _ => rfl) hag (hstart.trans hfr) hsize hg Bool.noConfusion htotal
      refine ⟨k, s', ?_, hwrote⟩
      rw [if_neg (by simp [herr]), if_neg hzero]
      exact hrest
    | astray hsets hfile hne hc hlen hfull hg hag hfr hsize hastray hpos' hsize' _hbuf _hstay _hblank _hfill =>
      obtain ⟨k, s', hrest, hwrote⟩ := writeStray_ok he hf h data hsets hfile hne hc hlen hfull
        (hstart.trans hfr) hastray hpos' (hsize'.trans hsize) hpos hroom
      refine ⟨k, s', ?_, hwrote⟩
      rw [if_neg (by simp [hastray.err]), if_neg hzero]
      exact hrest
    | full hsets hfile hcur herr hc hlen hfull hg hag hfr hsize _hfill _hstay =>
      rename_i c'
      have hmul : dataLen * c'.length ≤ dataLen * (offset / dataLen) := Nat.mul_le_mul_left _ hlen
      have hdiv := Nat.div_add_mod offset dataLen
      have hnone : dataLen * c'.length - offset = 0 := by omega
      have hopen : Opened n fd cs xs s₂ c' := by
        refine h.after hfile (hstart.trans hfr) ?_ hcur (hsize.trans_lt h.size)
        rw [herr]
        exact Err.noConfusion
      refine ⟨(dataLen * c'.length - offset) % 2 ^ 32, s₂.call .deselect, ?_,
        .full hsets (hopen.call _) herr hc (by omega) hfull hag ((hstart.trans hfr).call _) ?_ ?_⟩
      · rw [if_pos (by simp [herr]), out_run, hnone]
        rfl
      · rw [hnone, Chunks.overwrite_zero]
        exact hg
      · have hpred : dataLen * (c'.length - 1) ≤ dataLen * c'.length := Nat.mul_le_mul_left _ (by omega)
        rw [if_neg (by omega), Nat.max_zero]
        exact hsize

/-! ## Truncating -/

/-- The medium of `s'` is the one of `s` but for block 0. -/
structure ButBlock0 (s s' : State) : Prop where
  dev : ∀ b, b ≠ 0 → s'.dev b = s.dev b
  blkCount : s'.blkCount = s.blkCount

/-- How `tfs_trunc` ends. The file has the blocks for the new size, with its old bytes in
them and zeros behind those; the size in the handle and in the entry is the old one. Gone
astray, it has overwritten block 0; but for that the volume is in the state `s₁`. -/
inductive TruncDone (e : Env) (n fd : Nat) (cs : List (List Nat)) (xs : List Nat) (s : State) (c : List Nat)
    (size : Nat) : State → Prop
  | done {s' : State} {c' : List Nat} {dev₁ : Nat → Block} : Opened n fd cs xs s' c' → s'.tfsLastError = .ok →
      c'.length = (if size = 0 then 0 else size / dataLen + 1) → c' <+: c ∨ c <+: c' →
      (∀ b ∈ c, b ∉ c' → ¬ Used s'.dev b) → AgreeOff c' s.dev dev₁ → FdFrame fd s s' →
      s'.dev = Function.update dev₁ (s'.handles fd).dirBlk ((s'.handles fd).entryIn (dev₁ (s'.handles fd).dirBlk)) →
      (∀ p < dataLen * c'.length, fileContent s'.dev c' p = fileContent s.dev c p) →
      (s'.handles fd).size = (s.handles fd).size → TruncDone e n fd cs xs s c size s'
  | full {s' : State} {c' : List Nat} : (c' ≠ [] → e.drive.setsOk = false) → size ≠ 0 → Opened n fd cs xs s' c' →
      s'.tfsLastError = .diskFull → c <+: c' → c'.length ≤ size / dataLen → Full n s'.dev → AgreeOff c' s.dev s'.dev →
      FdFrame fd s s' → fileContent s'.dev c' = fileContent s.dev c → (s'.handles fd).size = (s.handles fd).size →
      TruncDone e n fd cs xs s c size s'
  | astray {s₁ s' : State} {c' : List Nat} {dev₁ : Nat → Block} : e.drive.setsOk = true → size ≠ 0 → Readable e fd s' c' →
      c' ≠ [] → c <+: c' → c'.length = c.length + freeCount n s.dev → c'.length ≤ size / dataLen → s'.tfsLastError = .ok →
      FdFrame fd s s₁ → (s'.handles fd).size = (s.handles fd).size → BlankTo n (s'.dev 0) → Opened n fd cs xs s₁ c' →
      ButBlock0 s₁ s' → s'.handles = s₁.handles → AgreeOff c' s.dev dev₁ →
      s₁.dev = Function.update dev₁ (s₁.handles fd).dirBlk ((s₁.handles fd).entryIn (dev₁ (s₁.handles fd).dirBlk)) →
      fileContent s₁.dev c' = fileContent s.dev c → TruncDone e n fd cs xs s c size s'

/-- The end of `tfs_trunc`: the entry is brought up to date. -/
theorem truncUpdate_ok (he : e.NeverFails) (h : Opened n fd cs xs s c) {s₂ : State} (hfile : FileData n fd cs xs s₂ c')
    (herr : s₂.tfsLastError = .ok) (hlen : c'.length = if size = 0 then 0 else size / dataLen + 1)
    (hpre : c' <+: c ∨ c <+: c') (hfreed : ∀ b ∈ c, b ∉ c' → ¬ Used s₂.dev b) (hag : AgreeOff c' s.dev s₂.dev)
    (hfr : FdFrame fd s s₂) (hcont : ∀ p < dataLen * c'.length, fileContent s₂.dev c' p = fileContent s.dev c p)
    (hsize : (s₂.handles fd).size = (s.handles fd).size) (hcur : Cursor (s₂.handles fd) c') :
    ∃ s', updateDirItem e fd s₂ = some ((), s') ∧ TruncDone e n fd cs xs s c size (s'.call .deselect) := by
  have hopen : Opened n fd cs xs s₂ c' := by
    refine h.after hfile hfr ?_ hcur (hsize.trans_lt h.size)
    rw [herr]
    exact Err.noConfusion
  obtain ⟨hlt, hmod, -⟩ := hopen.entry_ok hopen.entry
  obtain ⟨l, hupdate⟩ := updateDirItem_ok he herr hlt
  obtain ⟨hopen', hcont'⟩ := hopen.entryStored l
  refine ⟨s₂.entryStored fd l, hupdate, .done (hopen'.call _) herr hlen hpre ?_ hag ((hfr.entryStored l).call _) rfl ?_
    hsize⟩
  · intro b hb hnot
    show ¬ Used (Function.update s₂.dev (s₂.handles fd).dirBlk _) b
    rw [used_update hmod]
    exact hfreed b hb hnot
  · intro p hp
    exact (congrFun hcont' p).trans (hcont p hp)

theorem FdFrame.of_frame {s'' : State} (h : FdFrame fd s s') (h' : Frame s' s'') : FdFrame fd s s'' := h.trans h'.fdFrame

/-- The bytes of a file are those of its first blocks and of the others. -/
theorem fileContent_prefix {dev : Nat → Block} (h : c' <+: c) : ∀ p < dataLen * c'.length,
    fileContent dev c' p = fileContent dev c p := by
  intro p hp
  obtain ⟨t, ht⟩ := h
  rw [← ht, fileContent, Chunks.content, fileContent, Chunks.content, List.getElem?_append_left (Nat.div_lt_of_lt_mul hp)]

/-- The blocks behind a place in the file are freed. -/
theorem freeRest_ok (he : e.NeverFails) {p : Nat} (hf : r.length < e.fuel) (hl : LinkedOn s.dev p r 0)
    (h : Ready n s cs (r ++ xs)) (herr : s.tfsLastError = .ok) : ∃ s', freeFileBlocks e (firstBlk r) s = some ((), s') ∧
      Ready n s' cs xs ∧ s'.tfsLastError = .ok ∧ Frame s s' ∧ AgreeOff [] s.dev s'.dev ∧ ∀ b ∈ r, ¬ Used s'.dev b := by
  obtain ⟨s', hrun, h', herr', hframe, -, hag⟩ := freeFileBlocksLoop_ok he r e.fuel p s hf hl h herr
  exact ⟨s', hrun, h', herr', hframe, hag, h.not_used h'⟩

/-- `tfs_trunc` to size 0 frees all blocks. -/
theorem truncZero_ok (he : e.NeverFails) (hf : n ≤ e.fuel) (h : Opened n fd cs xs s c) : ∃ s', (do
    let h ← handle fd
    freeFileBlocks e h.firstBlk
    ifOk () do
      modifyHandle fd fun h => { h with firstBlk := 0 }
      initPos fd
      updateDirItem e fd : M Unit) s.started = some ((), s') ∧ TruncDone e n fd cs xs s c 0 (s'.call .deselect) := by
  have h₁ := h.started
  have hlen := h.length_lt
  obtain ⟨s₂, hfree, h₂, herr₂, hframe, hag, hnot⟩ := freeRest_ok he (by omega) h₁.linked h₁.toReady rfl
  obtain ⟨s₃, hs₃⟩ : ∃ s₃ : State, s₃ = { s₂ with
    handles := Function.update s₂.handles fd { s₂.handles fd with firstBlk := 0, currBlk := 0, currPos := 0 } } :=
      ⟨_, rfl⟩
  have hh₃ : s₃.handles fd = { s₂.handles fd with firstBlk := 0, currBlk := 0, currPos := 0 } := by
    rw [hs₃]
    exact Function.update_self ..
  have hstart : FdFrame fd s s.started := .started
  have hreset : FdFrame fd s₂ s₃ := .handle (x := s₃.handles fd) (by rw [hh₃, hs₃])
      (by rw [hs₃]; exact ⟨rfl, rfl, rfl, rfl⟩)
    (by rw [hh₃]) (by rw [hh₃]; exact ⟨rfl, rfl⟩)
  have hfr₃ : FdFrame fd s s₃ := (hstart.of_frame hframe).trans hreset
  have hdev₃ : s₃.dev = s₂.dev := by rw [hs₃]
  have hfile₃ : FileData n fd cs xs s₃ [] :=
    ⟨by rw [hs₃]; exact ⟨h₂.mounted, h₂.cache, h₂.owned⟩, trivial, by rw [hh₃]; rfl⟩
  obtain ⟨s', hupdate, hdone⟩ := truncUpdate_ok he h hfile₃ (by rw [hs₃]; exact herr₂)
    (show [].length = if 0 = 0 then 0 else 0 / dataLen + 1 from rfl) (.inl List.nil_prefix)
    (fun b hb _ => by rw [hdev₃]; exact hnot b hb) (by rw [hdev₃]; exact hag) hfr₃ nofun
    (by rw [hh₃, hframe.handles]; rfl) (by rw [hh₃]; exact .inl rfl)
  refine ⟨s', ?_, hdone⟩
  have hfirst : (s.started.handles fd).firstBlk = firstBlk c := h.first
  rw [handle_bind, hfirst, Prog.bind_some hfree, ifOk_ok herr₂, modifyHandle_bind, initPos, modifyHandle_bind]
  simp only [Function.update_self, Function.update_idem]
  rw [← hs₃]
  exact hupdate

/-- The end of a file cut off: the blocks behind the current one are freed. -/
theorem truncCut_ok (he : e.NeverFails) (hf : n ≤ e.fuel) {s₂ : State} (h : Editing n fd cs xs s₂ d b r)
    (herr : s₂.tfsLastError = .ok) (hbuf : s₂.blkBuf = s₂.dev b) : ∃ s₃, (if firstBlk r ≠ 0 then do
      let h ← handle fd
      driveWriteBlock e h.currBlk .blkBuf
      ifOk () (do
        freeFileBlocks e (firstBlk r)
        ifOk () (updateDirItem e fd))
    else do
      freeFileBlocks e (firstBlk r)
      ifOk () (updateDirItem e fd) : M Unit) { s₂ with blkBuf := s₂.blkBuf.setNext 0 } = updateDirItem e fd s₃ ∧
    FileData n fd cs xs s₃ (d ++ [b]) ∧ s₃.tfsLastError = .ok ∧ s₃.handles = s₂.handles ∧ FdFrame fd s₂ s₃ ∧
    (∀ x ∈ r, ¬ Used s₃.dev x) ∧ AgreeOff (d ++ [b]) s₂.dev s₃.dev ∧
    fileContent s₃.dev (d ++ [b]) = fileContent s₂.dev (d ++ [b]) := by
  have hlen := h.length_lt
  by_cases hr : r = []
  · subst hr
    obtain ⟨s₃, hs₃⟩ : ∃ s₃ : State, s₃ = { s₂ with blkBuf := s₂.blkBuf.setNext 0 } := ⟨_, rfl⟩
    refine ⟨s₃, ?_, ?_, by rw [hs₃]; exact herr, by rw [hs₃], ?_, nofun, by rw [hs₃]; exact .refl, by rw [hs₃]⟩
    · rw [if_neg (by simp), ← hs₃, firstBlk_nil, Prog.bind_some (freeFileBlocks_zero (by omega)), ifOk_ok
        (by rw [hs₃]; exact herr)]
    · rw [hs₃]
      refine ⟨⟨h.mounted, h.cache, h.owned⟩, ?_, h.first⟩
      exact linked_append.mpr ⟨h.linked, hbuf ▸ h.prev, hbuf ▸ h.next, trivial⟩
    · rw [hs₃]
      exact ⟨rfl, rfl, rfl, rfl, fun _ _ => rfl, rfl, rfl, rfl⟩
  · have hne : firstBlk r ≠ 0 := ne_zero_of_mod (h.owned.range _ (by simp [firstBlk_mem hr])).2
    obtain ⟨v, hv⟩ : ∃ v, v = s₂.blkBuf.setNext 0 := ⟨_, rfl⟩
    obtain ⟨hR, hl, hrest⟩ := h.write (v := v) (x := 0) (by rw [hv]; simp [h.prev]) (by rw [hv]; simp)
      (s₂.log.transfer (.write b true))
    obtain ⟨s₃, hs₃⟩ : ∃ s₃ : State, s₃ = { s₂ with
      dev := Function.update s₂.dev b v, blkBuf := v, log := s₂.log.transfer (.write b true) } := ⟨_, rfl⟩
    have hperm : (d ++ b :: r ++ xs).Perm (r ++ (d ++ [b] ++ xs)) := by
      rw [show d ++ b :: r ++ xs = d ++ [b] ++ (r ++ xs) by simp]
      exact List.perm_append_comm_assoc _ _ _
    have hR₃ : Ready n s₃ cs (r ++ (d ++ [b] ++ xs)) := by
      rw [hs₃]
      exact ⟨hR.mounted, hR.cache, hR.owned.perm (.refl _) hperm⟩
    have hdev₃ : s₃.dev = Function.update s₂.dev b v := by rw [hs₃]
    obtain ⟨s₄, hfree, h₄, herr₄, hframe, hag, hnot⟩ := freeRest_ok he (by omega) (by rw [hdev₃]; exact hrest) hR₃
      (by rw [hs₃]; exact herr)
    have hsame : ∀ x ∈ d ++ [b], s₄.dev x = s₃.dev x := fun x hx =>
      hag x (h₄.owned.single_mod (List.mem_append_left _ hx)) List.not_mem_nil
    have hh₃ : s₃.handles = s₂.handles := by rw [hs₃]
    have hfr₃ : FdFrame fd s₂ s₃ := by
      rw [hs₃]
      exact ⟨rfl, rfl, rfl, rfl, fun _ _ => rfl, rfl, rfl, rfl⟩
    refine ⟨s₄, ?_, ⟨⟨h₄.mounted, h₄.cache, h₄.owned⟩, ?_, ?_⟩, herr₄, hframe.handles.trans hh₃, hfr₃.of_frame hframe,
      hnot, ?_, ?_⟩
    · rw [if_pos hne, handle_bind, ← hv, show ({ s₂ with blkBuf := v } : State).handles = s₂.handles from rfl, h.blk,
        Prog.bind_some (driveWriteBlock_ok he (by exact herr) (by exact h.range.1)), ifOk_ok (by exact herr), ← hs₃,
        Prog.bind_some hfree, ifOk_ok herr₄]
    · rw [← hdev₃] at hl
      exact hl.congr (fun x hx => by rw [hsame x hx]) (fun x hx => by rw [hsame x hx])
    · rw [hframe.handles, hh₃]
      exact h.first
    · refine AgreeOff.trans ?_ (hag.mono nofun)
      rw [hdev₃]
      exact AgreeOff.update (by simp) _
    · refine fileContent_same (b := b) (fun x hx hxb => ?_) fun k _ => ?_
      · rw [hsame x hx, hdev₃, Function.update_of_ne hxb]
      · rw [hsame b (by simp), hdev₃, Function.update_self, hv, Block.data_setNext, hbuf]

/-- The part of `tfs_trunc` behind its `seek`. -/
def truncRest (e : Env) (fd : Nat) (seekRes : Seek) : M Unit := ifOk () do
  let b ← blkBuf
  let freeFrom := if seekRes = .ok then b.next else 0
  if seekRes = .ok then modifyBuf fun b => b.setNext 0
  let rest : M Unit := do
    freeFileBlocks e freeFrom
    ifOk () (updateDirItem e fd)
  if seekRes = .append ∨ freeFrom ≠ 0 then
    let h ← handle fd
    driveWriteBlock e h.currBlk .blkBuf
    ifOk () rest
  else rest

/-- Behind the end of the file, the current block is written, and the entry. -/
theorem truncRest_append (herr : s.tfsLastError = .ok) : truncRest e fd .append s = (do
    let h ← handle fd
    driveWriteBlock e h.currBlk .blkBuf
    ifOk () do
      freeFileBlocks e 0
      ifOk () (updateDirItem e fd)) s := by
  rw [truncRest, ifOk_ok herr, blkBuf_bind]
  simp only [reduceCtorEq, if_false, ne_eq, not_true_eq_false, or_false, if_true]

/-- A size inside the file: the blocks behind its last one are freed. -/
theorem truncInside_ok (he : e.NeverFails) (hf : n ≤ e.fuel) (h : Opened n fd cs xs s c) (h32 : size < 2 ^ 32)
    (hzero : size ≠ 0)
    (hq : size / dataLen < c.length) : ∃ s', (seek e fd size true >>= truncRest e fd) s.started = some ((), s') ∧
      TruncDone e n fd cs xs s c size (s'.call .deselect) := by
  have hstart : FdFrame fd s s.started := .started
  have hdiv := Nat.div_add_mod size dataLen
  obtain ⟨l, hseek⟩ := seek_found he (h.started.fileChain hf) h.cursor rfl h32 true hq
  have hed := h.started.split hq l
  obtain ⟨s₂, hs₂⟩ : ∃ s₂, s₂ = s.started.seekTo fd (c.getD (size / dataLen) 0) (dataLen * (size / dataLen))
    (s.started.dev (c.getD (size / dataLen) 0)) l := ⟨_, rfl⟩
  obtain ⟨b, hb⟩ : ∃ b, b = c.getD (size / dataLen) 0 := ⟨_, rfl⟩
  obtain ⟨d, hd⟩ : ∃ d, d = c.take (size / dataLen) := ⟨_, rfl⟩
  obtain ⟨r, hr⟩ : ∃ r, r = c.drop (size / dataLen + 1) := ⟨_, rfl⟩
  have hsplit : c = d ++ b :: r := by
    rw [hd, hb, hr, List.getD_eq_getElem _ _ hq, ← List.drop_eq_getElem_cons hq, List.take_append_drop]
  have hdlen : d.length = size / dataLen := by
    rw [hd, List.length_take]
    omega
  rw [← hs₂] at hseek hed
  rw [← hb, ← hd, ← hr] at hed
  have hdev₂ : s₂.dev = s.dev := by rw [hs₂]; rfl
  have hh₂ : s₂.handles fd = { s.handles fd with currBlk := b, currPos := dataLen * (size / dataLen) } := by
    rw [hs₂, hb, State.seekTo_handle]
    rfl
  have hfr₂ : FdFrame fd s s₂ := by
    rw [hs₂]
    exact hstart.trans (.handle rfl ⟨rfl, rfl, rfl, rfl⟩ rfl ⟨rfl, rfl⟩)
  have herr₂ : s₂.tfsLastError = .ok := by rw [hs₂]; rfl
  have hnext : s₂.blkBuf.next = firstBlk r := hed.next
  obtain ⟨s₃, hrun, hfile, herr₃, hh₃, hfr₃, hnot, hag, hcont⟩ := truncCut_ok he hf hed herr₂ (by rw [hs₂, hb]; rfl)
  have hfree : d ++ [b] <+: c := ⟨r, by rw [hsplit, List.append_assoc, List.singleton_append]⟩
  obtain ⟨s', hupdate, hdone⟩ := truncUpdate_ok he h hfile herr₃
    (by rw [if_neg hzero, List.length_append, List.length_singleton, hdlen]) (.inl hfree)
    (fun x hx hnotmem => hnot x (by
      rw [hsplit, List.append_cons, List.mem_append] at hx
      exact hx.resolve_left hnotmem)) (by rw [← hdev₂]; exact hag) (hfr₂.trans hfr₃)
    (by rw [hcont, hdev₂]; exact fileContent_prefix hfree) (by rw [hh₃, hh₂])
    (by rw [hh₃, hh₂]; exact .inr ⟨d.length, by simp, by simp, by rw [hdlen], by rw [hdlen]; omega⟩)
  refine ⟨s', ?_, hdone⟩
  rw [Prog.bind_some hseek, truncRest, ifOk_ok herr₂, blkBuf_bind]
  simp only [if_true, hnext]
  rw [modifyBuf_bind]
  simp only [reduceCtorEq, false_or]
  exact hrun.trans hupdate

/-- A size behind the file, which has grown to it. -/
theorem truncAppended_ok (he : e.NeverFails) (hf : n ≤ e.fuel) (h : Opened n fd cs xs s c) (h32 : size < 2 ^ 32)
    (hzero : size ≠ 0) {s₂ : State}
    (hed : Editing n fd cs xs s₂ d b []) (herr : s₂.tfsLastError = .ok) (hc : c <+: d ++ [b])
    (hd : d.length = size / dataLen)
    (hg : fileContent (flushed s₂ b) (d ++ [b]) = fileContent s.dev c) (hag : AgreeOff (d ++ [b]) s.dev s₂.dev)
    (hfr : FdFrame fd s s₂) (hsize : (s₂.handles fd).size = (s.handles fd).size) :
    ∃ s', truncRest e fd .append s₂ = some ((), s') ∧ TruncDone e n fd cs xs s c size (s'.call .deselect) := by
  have hdiv := Nat.div_add_mod size dataLen
  have hlt := hed.range.1
  obtain ⟨s₃, hs₃⟩ : ∃ s₃ : State, s₃ = { s₂ with
    dev := Function.update s₂.dev b s₂.blkBuf, log := s₂.log.transfer (.write b true) } := ⟨_, rfl⟩
  have hfile : FileData n fd cs xs s₃ (d ++ [b]) := by
    rw [hs₃]
    exact hed.stored hed.prev hed.next rfl
  have hpos : 0 < e.fuel := by
    have := h.length_lt
    omega
  obtain ⟨s', hupdate, hdone⟩ := truncUpdate_ok he h hfile (by rw [hs₃]; exact herr)
    (by rw [if_neg hzero, List.length_append, List.length_singleton, hd]) (.inr hc)
    (fun x hx hnot => absurd (hc.subset hx) hnot)
    (by rw [hs₃]; exact hag.trans (AgreeOff.update (by simp) _))
    (hfr.trans (by rw [hs₃]; exact ⟨rfl, rfl, rfl, rfl, fun _ _ => rfl, rfl, rfl, rfl⟩))
    (fun p _ => by rw [hs₃]; exact congrFun hg p) (by rw [hs₃]; exact hsize)
    (by
      rw [hs₃]
      exact .inr ⟨d.length, by simp, by simp [hed.blk], hed.pos, by rw [hd]; omega⟩)
  refine ⟨s', ?_, hdone⟩
  rw [truncRest_append herr, handle_bind, hed.blk, Prog.bind_some (driveWriteBlock_ok he herr hlt), ifOk_ok
    (by exact herr), ← hs₃, Prog.bind_some (freeFileBlocks_zero hpos), ifOk_ok (by rw [hs₃]; exact herr)]
  exact hupdate

/-- Gone astray, the file ends with the disk, and block 0 is written in place of the next. -/
theorem truncAstray_ok (he : e.NeverFails) (hf : n ≤ e.fuel) (h : Opened n fd cs xs s c) (hsets : e.drive.setsOk = true)
    (hzero : size ≠ 0) {s₁ s₂ : State} (hfile : FileData n fd cs xs s₁ c') (hne : c' ≠ []) (hc : c <+: c')
    (hlen : c'.length ≤ size / dataLen) (hfull : Full n s₁.dev) (hg : fileContent s₁.dev c' = fileContent s.dev c)
    (hag : AgreeOff c' s.dev s₁.dev) (hfr : FdFrame fd s s₁) (hsize : (s₂.handles fd).size = (s.handles fd).size)
    (hastray : Astray fd s₁ s₂) (hbuf : BlankTo n s₂.blkBuf) :
    ∃ s', truncRest e fd .append s₂ = some ((), s') ∧ TruncDone e n fd cs xs s c size (s'.call .deselect) := by
  have hlt : 0 < s₂.blkCount := by
    rw [hastray.frame.blkCount, hfile.mounted.count]
    exact h.mounted.pos
  have hpos : 0 < e.fuel := by
    have := h.length_lt
    omega
  obtain ⟨s₃, hs₃⟩ : ∃ s₃ : State, s₃ = { s₂ with
    dev := Function.update s₂.dev 0 s₂.blkBuf, log := s₂.log.transfer (.write 0 true) } := ⟨_, rfl⟩
  have hh₃ : s₃.handles = s₂.handles := by rw [hs₃]
  have hastray₃ : Astray fd s₁ s₃ := by
    rw [hs₃]
    exact ⟨hastray.inval, hastray.err, hastray.blk, hastray.first, hastray.next,
      fun b hb => (Function.update_of_ne hb _ _).trans (hastray.dev b hb),
      hastray.frame.trans ⟨rfl, rfl, rfl, rfl, fun _ _ => rfl, rfl, rfl, rfl⟩⟩
  have hsize₃ : (s₃.handles fd).size = (s.handles fd).size := by rw [hh₃, hsize]
  obtain ⟨s', hend, hread, herr, hfr', hsize', hzero', hh', hdev'⟩ := astrayEnd_ok he hf h hfile hfr hastray₃
    (by rw [hsize₃]; exact h.size) true ()
  rw [out_run, if_pos rfl, Option.map_eq_some_iff] at hend
  obtain ⟨⟨_, s₄⟩, hupdate, heq⟩ := hend
  obtain ⟨_, s₅, hupdate', hpure⟩ := Prog.bind_eq_some.mp hupdate
  cases hpure
  cases heq
  -- the volume as it would be with its bitmap: the file and its entry are in order
  obtain ⟨s₅, hs₅⟩ : ∃ s₅ : State, s₅ = { s₁ with tfsLastError := .ok, handles := s₃.handles } := ⟨_, rfl⟩
  have hh₅ : s₅.handles = s₃.handles := by rw [hs₅]
  have hdev₅ : s₅.dev = s₁.dev := by rw [hs₅]
  have hfr₅ : FdFrame fd s s₅ := by
    rw [hs₅]
    exact hfr.trans ⟨rfl, rfl, rfl, rfl, hastray₃.frame.others, hastray₃.frame.usage, hastray₃.frame.entry⟩
  have hopen₅ : Opened n fd cs xs s₅ c' := by
    refine h.after ?_ hfr₅ ?_ (.inl ?_) ?_
    · rw [hs₅]
      exact ⟨⟨hfile.mounted, hfile.cache, hfile.owned⟩, hfile.linked, hastray₃.first.trans hfile.first⟩
    · rw [hs₅]
      exact Err.noConfusion
    · rw [hh₅]
      exact hastray₃.blk
    · rw [hh₅, hsize₃]
      exact h.size
  obtain ⟨hopen₆, hcont₆⟩ := hopen₅.entryStored s₅.log
  have hblk : (s₅.handles fd).dirBlk = (s₁.handles fd).dirBlk := by rw [hh₅, hastray₃.frame.entry.1]
  have hbut : ButBlock0 (s₅.entryStored fd s₅.log) (s₄.call .deselect) := by
    refine ⟨fun x hx => ?_, by rw [hfr'.blkCount, (hfr₅.entryStored s₅.log).blkCount]⟩
    show _ = Function.update s₅.dev (s₅.handles fd).dirBlk _ x
    rw [hdev' rfl, hblk, hh₅, hdev₅]
    by_cases hxb : x = (s₁.handles fd).dirBlk
    · rw [hxb, Function.update_self, Function.update_self, hastray₃.dev _ (hxb ▸ hx)]
    · rw [Function.update_of_ne hxb, Function.update_of_ne hxb]
      exact hastray₃.dev x hx
  refine ⟨s₄, ?_, .astray hsets hzero hread hne hc (h.length_full hfile hfull) hlen herr (hfr₅.entryStored s₅.log)
    (hsize'.trans hsize₃) ?_ hopen₆ hbut (hh'.trans hh₅.symm) hag (by rw [← hdev₅]; rfl)
    (hcont₆.trans (by rw [hdev₅]; exact hg))⟩
  · rw [truncRest_append hastray.err, handle_bind, hastray.blk, Prog.bind_some (driveWriteBlock_ok he hastray.err hlt),
      ifOk_ok (by exact hastray.err), ← hs₃, Prog.bind_some (freeFileBlocks_zero hpos), ifOk_ok hastray₃.err]
    exact hupdate'
  · have hdev₃ : s₃.dev 0 = s₂.blkBuf := by
      have hdev : s₃.dev = Function.update s₂.dev 0 s₂.blkBuf := by rw [hs₃]
      rw [hdev, Function.update_self]
    rw [hzero', hdev₃]
    exact hbuf

/-- **`tfs_trunc`** gives the file the blocks for its new size, as far as the disk has room. -/
theorem tfsTrunc_ok (he : e.NeverFails) (hf : n ≤ e.fuel) (h : Opened n fd cs xs s c) (hfd : fd < e.maxFds)
    (h32 : size < 2 ^ 32)
    (hroom : e.drive.setsOk = false ∨ size = 0 ∨ size / dataLen + 1 ≤ c.length + freeCount n s.dev ∨
    size / dataLen < e.fuel) :
    ∃ s', tfsTrunc e fd size s = some ((), s') ∧ TruncDone e n fd cs xs s c size s' := by
  have hvalid : ¬ invalidFd e s.started fd := not_invalidFd hfd h.usage
  have hstart : FdFrame fd s s.started := .started
  -- the body of the function
  have hbody : ∀ {p : M Unit}, (∃ t, p s.started = some ((), t) ∧ TruncDone e n fd cs xs s c size (t.call .deselect)) →
      tfsTrunc e fd size = enter () (out p) → ∃ s', tfsTrunc e fd size s = some ((), s') ∧
        TruncDone e n fd cs xs s c size s' := by
    intro p ⟨t, hrun, hdone⟩ heq
    exact ⟨t.call .deselect, by rw [heq]; exact enter_out h.dev hrun, hdone⟩
  refine hbody ?_ rfl
  rw [Prog.gets_bind, id, if_neg hvalid, Int.toNat_natCast]
  by_cases hzero : size = 0
  · subst hzero
    rw [if_pos rfl]
    exact truncZero_ok he hf h
  rw [if_neg hzero]
  show ∃ t, (seek e fd size true >>= truncRest e fd) s.started = some ((), t) ∧ _
  by_cases hq : size / dataLen < c.length
  · exact truncInside_ok he hf h h32 hzero hq
  obtain ⟨res, s₂, hseek, hext⟩ := seek_extend he hf h.started h.cursor rfl h32 (by omega)
      (hroom.imp_right (·.resolve_left hzero))
  rw [Prog.bind_some hseek]
  cases hext with
  | append hed herr hc hd hg hag hfr hsize _hfill =>
    exact truncAppended_ok he hf h h32 hzero hed herr hc hd hg hag (hstart.trans hfr) hsize
  | astray hsets hfile hne hc hlen hfull hg hag hfr hsize hastray _hpos hsize' hbuf _hstay _hblank _hfill =>
    exact truncAstray_ok he hf h hsets hzero hfile hne hc hlen hfull hg hag (hstart.trans hfr)
      (hsize'.trans hsize) hastray hbuf
  | full hsets hfile hcur herr hc hlen hfull hg hag hfr hsize _hfill _hstay =>
    rename_i c'
    have hfile' : FileData n fd cs xs (s₂.call .deselect) c' := ⟨⟨hfile.mounted, hfile.cache, hfile.owned⟩,
        hfile.linked, hfile.first⟩
    have hfr' : FdFrame fd s (s₂.call .deselect) := (hstart.trans hfr).trans ⟨rfl, rfl, rfl, rfl, fun _ _ => rfl, rfl,
        rfl, rfl⟩
    refine ⟨s₂, ifOk_err (by rw [herr]; exact Err.noConfusion), .full hsets hzero
      (h.after hfile' hfr' ?_ hcur ?_) herr hc hlen hfull hag hfr' hg hsize⟩
    · show s₂.tfsLastError ≠ .noDev
      rw [herr]
      exact Err.noConfusion
    · exact hsize.trans_lt h.size

end TinyFs
