/-
`tfs_write` of no bytes. It seeks to the offset, and `seek` extends the file on its way:
the last block it appends is in the buffer only, and only a write of some bytes would store it.
-/
import Mathlib.Data.List.Find
import TinyFs.FileBytes

namespace TinyFs

open Bytes Chains

variable {e : Env} {n : Nat} {s s' : State} {L : Layout} {fd b k offset : Nat} {c c' C d : List Nat} {q : Nat × Nat}
  {cs : List (List Nat)} {xs : List Nat} {data : List UInt8} {name : List UInt8}

/-! ## A blank bitmap block -/

/-- A bitmap block overwritten with a blank data block marks one of its blocks as free. -/
theorem BlankTo.hole {v : Block} (h : BlankTo n v) : ∃ x < n, x < 4096 ∧ v.bit x = false := by
  by_cases hlt : v.prev < 32
  · refine ⟨v.prev, h.prev, by omega, ?_⟩
    have hbyte : v.get (v.prev / 8) = Buf.byteOf v.prev (v.prev / 8) := by
      have hof : Buf.byteOf v.prev (v.prev / 8) = v.get (0 + v.prev / 8) := Buf.byteOf_u32 v 0 (by omega)
      rw [hof, Nat.zero_add]
    have hall : ∀ x < 32, (Buf.byteOf x (x / 8)).toNat.testBit (x % 8) = false := by decide
    rw [Buf.bit, hbyte]
    exact hall _ hlt
  · have hn := h.prev
    refine ⟨32, by omega, by omega, ?_⟩
    have hbyte : Buf.byteOf v.next 0 = v.get 4 := Buf.byteOf_u32 v 4 (by omega)
    rw [Buf.bit, ← hbyte, h.next]
    decide

/-- A block of the volume is not marked where the first bitmap block is blank. -/
theorem BlankTo.unused {dev dev' : Nat → Block} (h : BlankTo n (dev' 0)) (hfull : Full n dev) (ho : Owned n dev cs xs) :
    ∃ x < n, (x % 4096 = 0 ∨ x ∈ xs ++ cs.flatten) ∧ ¬ Used dev' x := by
  obtain ⟨x, hx, hlt, hbit⟩ := h.hole
  refine ⟨x, hx, (ho.used x hx).mp (hfull x hx), ?_⟩
  have hzero : getBitmapBlk x = 0 := by
    simp only [getBitmapBlk]
    omega
  rw [Used, hzero, Nat.mod_eq_of_lt hlt, hbit]
  decide

/-! ## The call -/

/-- How `tfs_write` of no bytes ends. -/
inductive WroteNone (e : Env) (n fd : Nat) (cs : List (List Nat)) (xs : List Nat) (s : State) (c : List Nat)
    (offset : Nat) : State → Prop
  | moved {b p : Nat} {v : Block} {l : DriveLog} : offset / dataLen < c.length →
      Cursor { s.handles fd with currBlk := b, currPos := p } c →
      WroteNone e n fd cs xs s c offset { s.seekTo fd b p v l with tfsLastError := .ok }
  | unwritten {s' : State} {b : Nat} : c.length ≤ offset / dataLen → offset / dataLen + 1 ≤ c.length + freeCount n s.dev →
      b ∈ s'.fileOf n fd → b ∉ c → ¬ Wrote b s s' → WroteNone e n fd cs xs s c offset s'
  | full {s' : State} {c' : List Nat} : (c' ≠ [] → e.drive.setsOk = false) → c.length + freeCount n s.dev ≤
      offset / dataLen →
      Opened n fd cs xs s' c' → c <+: c' → c'.length = c.length + freeCount n s.dev → AgreeOff c' s.dev s'.dev →
        FdFrame fd s s' →
      fileContent s'.dev c' = fileContent s.dev c → (s'.handles fd).size = (s.handles fd).size →
        (∀ b ∈ c', b ∈ c ∨ Wrote b s s') →
      (c' = [] → s'.dev = s.dev) → WroteNone e n fd cs xs s c offset s'
  | stored {s' : State} {c' : List Nat} {dev₁ : Nat → Block} : e.drive.setsOk = true →
      c.length + freeCount n s.dev = offset / dataLen → c' ≠ [] → Opened n fd cs xs s' c' → c <+: c' →
      AgreeOff c' s.dev dev₁ → FdFrame fd s s' →
      s'.dev = Function.update dev₁ (s'.handles fd).dirBlk ((s'.handles fd).entryIn (dev₁ (s'.handles fd).dirBlk)) →
      fileContent s'.dev c' = fileContent s.dev c → (s'.handles fd).size = (s.handles fd).size →
        (∀ b ∈ c', b ∈ c ∨ Wrote b s s') →
      WroteNone e n fd cs xs s c offset s'
  | blank {s' : State} {c' : List Nat} : e.drive.setsOk = true → c.length + freeCount n s.dev < offset / dataLen →
      c.length + freeCount n s.dev ≠ 0 → s'.fileOf n fd = c' → (∃ x < n, (x % 4096 = 0 ∨ x ∈ c' ++ xs ++ cs.flatten) ∧
        ¬ Used s'.dev x) →
      WroteNone e n fd cs xs s c offset s'

/-- The block behind linked ones is on the walk. -/
theorem mem_follow {dev : Nat → Block} (p : Nat) (hl : LinkedOn dev p d b) (h0 : ∀ x ∈ d, x ≠ 0) (hb : b ≠ 0)
    (hlen : d.length < k) : b ∈ follow dev k (firstBlk (d ++ [b])) := by
  induction d generalizing k p with
  | nil =>
    obtain ⟨k, rfl⟩ : ∃ m, k = m + 1 := ⟨k - 1, by omega⟩
    rw [List.nil_append, firstBlk_cons, follow, if_neg hb]
    simp
  | cons x d ih =>
    obtain ⟨k, rfl⟩ : ∃ m, k = m + 1 := ⟨k - 1, by omega⟩
    obtain ⟨-, hnext, hl⟩ := hl
    have hnext : (dev x).next = firstBlk (d ++ [b]) := by
      rw [show (dev x).next = d.headD b from hnext]
      cases d <;> rfl
    rw [List.cons_append, firstBlk_cons, follow, if_neg (h0 x (by simp)), hnext]
    exact List.mem_cons_of_mem _ (ih x hl (fun y hy => h0 y (by simp [hy])) (by simpa using hlen))

/-- Selecting and deselecting write nothing. -/
theorem WritesIn.started : WritesIn (· % 4096 = 0) s s.started := .call (x := .select) rfl fun _ _ h => by cases h

theorem WritesIn.deselected : WritesIn (· % 4096 = 0) s (s.call .deselect) :=
  .call (x := .deselect) rfl fun _ _ h => by cases h

/-- The entry is stored at the end of the call. -/
theorem noneEnd_ok (he : e.NeverFails) {s₂ : State} (herr : s₂.tfsLastError = .ok)
    (hlt : (s₂.handles fd).dirBlk < s₂.blkCount) :
    ∃ l, out (do
        if (Seek.append = .append) then updateDirItem e fd
        pure 0 : M Nat) s₂ = some (0, s₂.entryStored fd l) ∧
      WritesIn (· = (s₂.handles fd).dirBlk) s₂ (s₂.entryStored fd l) := by
  obtain ⟨l, hupdate⟩ := updateDirItem_ok he herr hlt
  have hw := updateDirItem_writes hupdate
  refine ⟨l.call .deselect, ?_, hw.trans (.call (x := .deselect) rfl nofun)⟩
  rw [out_run, if_pos rfl, Prog.bind_some hupdate]
  rfl

/-- The file has grown up to the block the offset is in, which stays in the buffer. -/
theorem noneUnwritten_ok (he : e.NeverFails) (h : Opened n fd cs xs s c) {s₂ : State} (hq : c.length ≤ offset / dataLen)
    (hed : Editing n fd cs xs s₂ d b []) (herr : s₂.tfsLastError = .ok) (hc : c <+: d ++ [b])
    (hd : d.length = offset / dataLen) (hfr : FdFrame fd s s₂) (hfill : Filled c d s.started s₂) :
    ∃ s', out (do
        if (Seek.append = .append) then updateDirItem e fd
        pure 0 : M Nat) s₂ = some (0, s') ∧ WroteNone e n fd cs xs s c offset s' := by
  have hentry : ∃ d ∈ cs, (s₂.handles fd).dirBlk ∈ d := by
    rw [hfr.entry.1]
    exact h.entry
  obtain ⟨D, hD, hmem⟩ := hentry
  have hnot : (s₂.handles fd).dirBlk ∉ d ++ [b] := fun hx => (List.nodup_append.mp hed.owned.nodup).2.2 _
    (List.mem_append_left _ hx) _ (List.mem_flatten.mpr ⟨D, hD, hmem⟩) rfl
  obtain ⟨l, hend, hw⟩ := noneEnd_ok he herr (hed.mem_lt hD hmem)
  have hold : ∀ x ∈ c, x ∈ d := fun x hx =>
    (List.prefix_of_prefix_length_le hc (List.prefix_append d [b]) (by omega)).subset hx
  have hadd := h.owned.freeCount_add hed.owned
  simp only [List.length_append, List.length_cons, List.length_nil] at hadd
  refine ⟨s₂.entryStored fd l, hend, .unwritten (b := b) hq (by omega) ?_ (fun hb => hed.notMem.1 (hold b hb)) ?_⟩
  · have hd0 : ∀ x ∈ d, x ≠ 0 := fun x hx => ne_zero_of_mod (hed.owned.single_mod (by simp [hx]))
    have hlen := hed.length_lt
    show b ∈ follow (Function.update s₂.dev (s₂.handles fd).dirBlk _) n (s₂.handles fd).firstBlk
    rw [hed.first]
    refine mem_follow 0 (hed.linked.update_notMem (fun hx => hnot (List.mem_append_left _ hx)) _) hd0
      (ne_zero_of_mod hed.range.2.1) (by omega)
  · have hall := (WritesIn.started.mono fun x hx =>
        (.inl (.inl hx) : (x % 4096 = 0 ∨ x ∈ d) ∨ x = (s₂.handles fd).dirBlk)).trans
      ((hfill.only.mono fun x hx => .inl hx).trans (hw.mono fun x hx => .inr hx))
    refine hall.not_wrote ?_
    rintro ((hmod | hx) | hx)
    · exact hed.range.2.1 hmod
    · exact hed.notMem.1 hx
    · exact hnot (by simp [← hx])

/-- The disk is full where the file has all blocks in front of the offset, and the drive has hidden it. -/
theorem noneStored_ok (he : e.NeverFails) (h : Opened n fd cs xs s c) {s₁ s₂ : State} (hsets : e.drive.setsOk = true)
    (hfile : FileData n fd cs xs s₁ c') (hne : c' ≠ []) (hc : c <+: c') (hlast : c'.length = offset / dataLen)
    (hfull : Full n s₁.dev) (hg : fileContent s₁.dev c' = fileContent s.dev c) (hag : AgreeOff c' s.dev s₁.dev)
    (hfr : FdFrame fd s s₁) (hastray : Astray fd s₁ s₂) (hsize : (s₂.handles fd).size = (s.handles fd).size)
    (hdev : s₂.dev = s₁.dev) (hfill : Filled c c' s.started s₂) :
    ∃ s', out (do
        if (Seek.append = .append) then updateDirItem e fd
        pure 0 : M Nat) s₂ = some (0, s') ∧ WroteNone e n fd cs xs s c offset s' := by
  have hlength := h.length_full hfile hfull
  have hopen : Opened n fd cs xs s₂ c' := by
    have hm := hfile.mounted
    refine h.after ⟨⟨?_, .full hastray.inval (by rw [hdev]; exact hfull), by rw [hdev]; exact hfile.owned⟩,
      by rw [hdev]; exact hfile.linked, hastray.first.trans hfile.first⟩ (hfr.trans hastray.frame) ?_ (.inl hastray.blk)
      (hsize.trans_lt h.size)
    · exact ⟨hm.pos, hm.lt, hastray.frame.blkCount.trans hm.count, hastray.frame.lastBlk.trans hm.lastBlk,
        hastray.frame.lastLen.trans hm.lastLen⟩
    · rw [hastray.err]
      exact Err.noConfusion
  obtain ⟨l, hend, hw⟩ := noneEnd_ok he hastray.err (hopen.entry_ok hopen.entry).1
  obtain ⟨hopen', hcont⟩ := hopen.entryStored l
  refine ⟨s₂.entryStored fd l, hend, .stored hsets (by omega) hne hopen' hc (hdev ▸ hag)
    ((hfr.trans hastray.frame).entryStored l) rfl (hcont.trans (by rw [hdev]; exact hg)) hsize fun b hb => ?_⟩
  exact (hfill.all b hb).imp_right fun hx => (hx.right .started).left hw

/-- **`tfs_write` of no bytes.** -/
theorem tfsWrite_none (he : e.NeverFails) (hf : n ≤ e.fuel) (h : Opened n fd cs xs s c) (hfd : fd < e.maxFds)
    (data : List UInt8) (ho : offset < 2 ^ 32) (hroom : e.drive.setsOk = false ∨ offset < e.fuel) :
    ∃ s', tfsWrite e fd data 0 offset s = some (0, s') ∧ WroteNone e n fd cs xs s c offset s' := by
  have hrun : tfsWrite e fd data 0 offset s = _ := enter_run h.dev
  have hvalid : ¬ invalidFd e s.started fd := not_invalidFd hfd h.usage
  have hstart : FdFrame fd s s.started := .started
  rw [hrun, show ({ s with tfsLastError := .ok, log := s.log.call .select } : State) = s.started from rfl,
      Prog.gets_bind, id,
    if_neg hvalid, Int.toNat_natCast]
  by_cases hq : offset / dataLen < c.length
  · obtain ⟨l, hseek⟩ := seek_found he (h.started.fileChain hf) h.cursor rfl ho true hq
    refine ⟨{ s.seekTo fd (c.getD (offset / dataLen) 0) (dataLen * (offset / dataLen))
      (s.dev (c.getD (offset / dataLen) 0)) (l.call .deselect) with tfsLastError := .ok }, ?_, .moved hq ?_⟩
    · rw [Prog.bind_some hseek, Prog.gets_bind, id]
      rw [if_neg (by simp [State.seekTo, State.started]), if_pos rfl, out_run]
      rfl
    · have hdiv := Nat.div_add_mod offset dataLen
      exact .inr ⟨offset / dataLen, hq, rfl, rfl, by omega⟩
  · obtain ⟨res, s₂, hseek, hext⟩ := seek_extend he hf h.started h.cursor rfl ho (by omega)
      (hroom.imp_right fun hfuel => .inr (Nat.lt_of_le_of_lt (Nat.div_le_self _ _) hfuel))
    rw [Prog.bind_some hseek, Prog.gets_bind, id]
    cases hext with
    | append hed herr hc hd hg hag hfr hsize hfill =>
      rw [if_neg (by simp [herr]), if_pos rfl]
      exact noneUnwritten_ok he h (by omega) hed herr hc hd (hstart.trans hfr) hfill
    | astray hsets hfile hne hc hlen hfull hg hag hfr hsize hastray _hpos hsize' _hbuf hstay hblank hfill =>
      rename_i s₁ c'
      have hlength := h.length_full hfile hfull
      have hsize₂ : (s₂.handles fd).size = (s.handles fd).size := hsize'.trans hsize
      rw [if_neg (by simp [hastray.err]), if_pos rfl]
      by_cases hlast : c'.length = offset / dataLen
      · exact noneStored_ok he h hsets hfile hne hc hlast hfull hg hag (hstart.trans hfr) hastray hsize₂ (hstay hlast)
          hfill
      · obtain ⟨s', hend, hread, -, -, -, hzero, -⟩ := astrayEnd_ok he hf h hfile (hstart.trans hfr) hastray
          (hsize₂.trans_lt h.size) true 0
        have hpos := List.length_pos_of_ne_nil hne
        have hfollow : s'.fileOf n fd = c' := by
          rw [State.fileOf, hread.first]
          exact follow_linked n 0 hread.linked (fun b hb => (hread.blocks b hb).2) (Nat.le_of_lt hfile.length_lt)
        refine ⟨s', hend, .blank hsets (by omega) (by omega) hfollow ?_⟩
        exact BlankTo.unused (by rw [hzero]; exact hblank (by omega)) hfull hfile.owned
    | full hsets hfile hcur herr hc hlen hfull hg hag hfr hsize hfill hstay =>
      rename_i c'
      have hlength := h.length_full hfile hfull
      have hopen : Opened n fd cs xs s₂ c' := by
        refine h.after hfile (hstart.trans hfr) ?_ hcur (hsize.trans_lt h.size)
        rw [herr]
        exact Err.noConfusion
      refine ⟨s₂.call .deselect, ?_, .full hsets (by omega) (hopen.call _) hc hlength hag ((hstart.trans hfr).call _) hg
        hsize ?_ hstay⟩
      · rw [if_pos (by simp [herr]), out_run]
        rfl
      · exact fun b hb => (hfill.all b hb).imp_right fun hw => (hw.right .started).left .deselected

/-! ## tfs_read_file behind the call -/

/-- The state with another current directory. -/
def State.cd (s : State) (C : List Nat) : State := { s with currentDirBlk := firstBlk C }

/-- On a never-failing drive the loop of `tfs_read_file` depends on the medium only. -/
theorem readFileLoop_congr (he : e.NeverFails) (fuel : Nat) : ∀ pos rem l (s₁ s₂ : State), s₂.dev = s₁.dev →
    s₂.blkCount = s₁.blkCount →
    s₁.tfsLastError = .ok → s₂.tfsLastError = .ok →
    (readFileLoop e fuel pos rem l s₂).map Prod.fst = (readFileLoop e fuel pos rem l s₁).map Prod.fst := by
  induction fuel with
  | zero => exact fun _ _ _ _ _ _ _ _ _ => rfl
  | succ fuel ih =>
    intro pos rem l s₁ s₂ hdev hcount h₁ h₂
    rw [readFileLoop]
    by_cases hlt : pos < s₁.blkCount
    · rw [Prog.bind_some (driveReadBlock_ok he h₁ hlt), Prog.bind_some
        (driveReadBlock_ok he h₂ (by rw [hcount]; exact hlt)),
        ifOk_ok (by exact h₂), ifOk_ok (by exact h₁), blkBuf_bind, blkBuf_bind]
      simp only [hdev]
      by_cases hnext : (s₁.dev pos).next = 0
      · rw [if_pos hnext]
        by_cases hrem : (if rem > dataLen then rem - dataLen else 0) > 0
        · rw [if_pos hrem]
          rfl
        · rw [if_neg hrem]
          rfl
      · rw [if_neg hnext]
        exact ih _ _ _ _ _ rfl (by exact hcount) (by exact h₁) (by exact h₂)
    · have hbad : ∀ t : State, t.blkCount = s₁.blkCount → (readFileLoop e (fuel + 1) pos rem l t).map Prod.fst =
        some l := by
        intro t ht
        have hok : transferOk e t pos = false := by simp [transferOk, ht, hlt]
        have hread : driveReadBlock e pos .blkBuf t = some ((), { t with
            log := t.log.transfer (.read pos false), tfsLastError := .io }) := by
          rw [driveReadBlock, Prog.modify_apply, hok]
          rfl
        rw [readFileLoop, Prog.bind_some hread, ifOk_err (by exact Err.noConfusion)]
        rfl
      have hall := (hbad s₂ hcount).trans (hbad s₁ rfl).symm
      rwa [readFileLoop] at hall

/-- Nothing is read for no bytes. -/
theorem readFileLoop_none (fuel : Nat) : ∀ pos (s : State) {r : List UInt8 × State}, readFileLoop e fuel pos 0
    [] s = some r → r.1 = [] := by
  induction fuel with
  | zero =>
    intro pos s r h
    cases h
  | succ fuel ih =>
    intro pos s r h
    rw [readFileLoop] at h
    obtain ⟨_, s₁, -, hrest⟩ := Prog.bind_eq_some.mp h
    by_cases herr : s₁.tfsLastError = .ok
    · rw [ifOk_ok herr, blkBuf_bind] at hrest
      simp only [gt_iff_lt, Nat.not_lt_zero, if_false, List.range_zero, List.map_nil, List.append_nil] at hrest
      by_cases hnext : s₁.blkBuf.next = 0
      · rw [if_pos hnext] at hrest
        cases hrest
        rfl
      · rw [if_neg hnext] at hrest
        exact ih s₁.blkBuf.next s₁ hrest
    · rw [ifOk_err herr] at hrest
      cases hrest
      rfl

/-- `tfs_read_file` is its loop. -/
theorem tfsReadFile_loop (he : e.NeverFails) (hf : n ≤ e.fuel) (hs : Sys n s L) (hname : name.headD 0 ≠ 0)
    (hq : s.lookup e n name = some q) (ht : (itemAt s.dev q).type = itemFile) : ∃ s₁ : State, s₁.dev = s.dev ∧
      s₁.blkCount = s.blkCount ∧ s₁.tfsLastError = .ok ∧ ∀ maxLen, (tfsReadFile e name maxLen s).map Prod.fst =
        (readFileLoop e e.fuel (itemAt s.dev q).blk (min (itemAt s.dev q).size maxLen) [] s₁).map fun p =>
          (min (itemAt s.dev q).size maxLen, p.1) := by
  obtain ⟨C, D, h⟩ := hs.current_enter
  have hfollow : follow s.dev n s.currentDirBlk = C := h.follow_eq
  rw [State.lookup, hfollow] at hq
  rcases findFile_lookup he hf h.toInDir hname with ⟨p, l, hp, hfind⟩ | ⟨hnone, -⟩
  · obtain rfl : p = q := Option.some.inj (Eq.trans (Eq.symm hp) hq)
    refine ⟨{ s with tfsLastError := .ok, blkBuf := s.dev p.1, loadedDirBlk := p.1, log := l }, rfl, rfl,
      rfl, fun maxLen => ?_⟩
    have hmin : ∀ a b : Nat, (if a > b then b else a) = min a b := fun a b => by
      split <;> omega
    have htype : (s.dev p.1).itemType p.2 = itemFile := ht
    rw [tfsReadFile, enter_run hs.dev, out_run, Prog.bind_some (hfind false), ifOk_ok (by exact h.err), blkBuf_bind]
    simp only [htype, ne_eq, not_true_eq_false, if_false, hmin]
    rw [Prog.bind_apply, Option.map_map, Option.map_bind]
    show Option.bind (readFileLoop e e.fuel (itemAt s.dev p).blk (min (itemAt s.dev p).size maxLen) [] _) _ = _
    cases readFileLoop e e.fuel (itemAt s.dev p).blk (min (itemAt s.dev p).size maxLen) []
        { s with tfsLastError := .ok, blkBuf := s.dev p.1, loadedDirBlk := p.1, log := l } with
    | none => rfl
    | some r => rfl
  · cases Eq.trans (Eq.symm hnone) hq

/-! ## The file behind the call -/

/-- The blocks of the other chains stay. -/
theorem OpenFile.apart (h : OpenFile n s L fd C q c) {dev₁ : Nat → Block}
    (ho : Opened n fd (L.chains.erase c) L.leaked s' c')
    (hag : AgreeOff c' s.dev dev₁) (hb : b ∈ C) : dev₁ b = s.dev b :=
  hag b (ho.owned.mem_mod h.dir_mem hb) fun hb' => (List.nodup_append.mp ho.owned.nodup).2.2 _
    (List.mem_append_left _ hb') _ (List.mem_flatten.mpr ⟨C, h.dir_mem, hb⟩) rfl

/-- A name in the directory of the file stands for the same slot. -/
theorem OpenFile.lookup_eq (h : OpenFile n s L fd C q c) {dev₁ : Nat → Block}
    (ho : Opened n fd (L.chains.erase c) L.leaked s' c') (hag : AgreeOff c' s.dev dev₁) (hfr : FdFrame fd s s')
    (hdev : s'.dev = Function.update dev₁ (s'.handles fd).dirBlk ((s'.handles fd).entryIn (dev₁ (s'.handles fd).dirBlk)))
    (name : List UInt8) : (s'.cd C).lookup e n name = (s.cd C).lookup e n name := by
  have h' := h.updated ho hag hfr hdev
  have hfollow : follow s.dev n (firstBlk C) = C := h.volume.owned.follow_eq (List.mem_append_left _ h.dir)
  have hfollow' : follow s'.dev n (firstBlk C) = C := h'.volume.owned.follow_eq (List.mem_append_left _ h'.dir)
  obtain ⟨hq, hi⟩ := mem_slots.mp h.slot
  have hblk : (s'.handles fd).dirBlk = q.1 := hfr.entry.1.trans h.dirBlk
  have hitem : (s'.handles fd).dirItem = some q.2 := hfr.entry.2.trans h.dirItem
  rw [hblk, h.apart ho hag hq] at hdev
  have hits_eq : ∀ p ∈ slots C, hits e name (itemAt s'.dev p) = hits e name (itemAt s.dev p) := by
    intro p hp
    have hp1 := (mem_slots.mp hp).1
    by_cases hbq : p.1 = q.1
    · have hv : itemAt s'.dev p = ((s'.handles fd).entryIn
        (s.dev q.1)).item p.2 := by rw [itemAt, hdev, hbq, Function.update_self]
      by_cases hslot : p.2 = q.2
      · rw [hv, hslot, Handle.entryIn_item _ _ hitem hi, itemAt, hbq, hslot]
        rfl
      · have hstore := (s'.handles fd).entryIn_store (s.dev q.1)
        rw [hitem] at hstore
        rw [hv, hstore.item _ hslot, itemAt, hbq]
    · rw [itemAt, hdev, Function.update_of_ne hbq, h.apart ho hag hp1]
      rfl
  rw [State.lookup, State.lookup]
  show (slots (follow s'.dev n (firstBlk C))).find? _ = (slots (follow s.dev n (firstBlk C))).find? _
  rw [hfollow, hfollow']
  exact List.find?_congr hits_eq

/-- The call left the volume well formed, and the file as it was. -/
structure Unharmed (e : Env) (n : Nat) (L : Layout) (fd : Nat) (C : List Nat) (q : Nat × Nat) (s s' : State) : Prop where
  file : ∃ c', OpenFile n s' (L.refile C (s.fileOf n fd) c') fd C q c'
  /-- Every new block of the file was written. -/
  written : ∀ b ∈ s'.fileOf n fd, b ∈ s.fileOf n fd ∨ Wrote b s s'
  size : (s'.handles fd).size = (s.handles fd).size
  read : Reads e fd s' (s.bytes n fd)
  readFile : ∀ name maxLen r, name.headD 0 ≠ 0 → (s.cd C).lookup e n name = some q →
    (tfsReadFile e name maxLen (s.cd C)).map Prod.fst = some r → (tfsReadFile e name maxLen (s'.cd C)).map Prod.fst =
      some r

theorem OpenFile.cd (h : OpenFile n s L fd C q c) : Sys n (s.cd C) L :=
  ⟨h.mounted, h.cache, h.volume, firstBlk_mem_heads h.dir, h.dev⟩

theorem fileByte_eq {dev : Nat → Block} {p : Nat} (hp : p < dataLen * c.length) :
    fileByte dev c p = fileContent dev c p := by
  have hlt : p / dataLen < c.length := Nat.div_lt_of_lt_mul hp
  rw [fileContent, Chunks.content_of_lt hlt, fileByte, List.getD_eq_getElem _ _ hlt]

/-- `tfs_read_file` of a file whose blocks cover its size. -/
theorem OpenFile.readFile (he : e.NeverFails) (hf : n ≤ e.fuel) (h : OpenFile n s L fd C q c) (hc : c ≠ [])
    (hcover : (s.handles fd).size ≤ dataLen * c.length) (hname : name.headD 0 ≠ 0)
    (hq : (s.cd C).lookup e n name = some q) (maxLen : Nat) : (tfsReadFile e name maxLen (s.cd C)).map Prod.fst =
      some (min (s.handles fd).size maxLen, fileBytes s.dev c 0 (min (s.handles fd).size maxLen)) := by
  have hblk : (itemAt s.dev q).blk = firstBlk c := h.blk.trans h.first
  have hne : (itemAt s.dev q).blk ≠ 0 := by
    rw [hblk]
    exact (h.opened.blocks _ (firstBlk_mem hc)).2
  have hfollow : follow (s.cd C).dev n (itemAt (s.cd C).dev q).blk = c := by
    show follow s.dev n (itemAt s.dev q).blk = c
    rw [h.blk]
    exact h.opened.fileOf
  obtain ⟨t, hrun, -⟩ := tfsReadFile_ok he hf h.cd hname hq h.type hne maxLen hfollow rfl
  have hsize : (itemAt (s.cd C).dev q).size = (s.handles fd).size := h.size
  rw [hrun, hsize, Option.map_some, Nat.min_eq_left (b := dataLen * c.length) (by omega), fileBytes]
  refine congrArg (fun l => some (_, l)) (List.map_congr_left fun p hp => ?_)
  have hp := List.mem_range.mp hp
  rw [Nat.zero_add]
  exact fileByte_eq (by omega)

/-- A file of no bytes reads as none. -/
theorem OpenFile.readFile_none (he : e.NeverFails) (hf : n ≤ e.fuel) (h : OpenFile n s L fd C q c)
    (hzero : (s.handles fd).size = 0)
    (hname : name.headD 0 ≠ 0) (hq : (s.cd C).lookup e n name = some q) {maxLen : Nat} {r : Nat × List UInt8}
    (hrun : (tfsReadFile e name maxLen (s.cd C)).map Prod.fst = some r) : r = (0, []) := by
  obtain ⟨s₁, -, -, -, hloop⟩ := tfsReadFile_loop he hf h.cd hname hq h.type
  have hsize : (itemAt (s.cd C).dev q).size = 0 := h.size.trans hzero
  rw [hloop, hsize, Nat.zero_min, Option.map_eq_some_iff] at hrun
  obtain ⟨p, hp, rfl⟩ := hrun
  rw [readFileLoop_none _ _ _ hp]

/-- A call that gave the file the blocks `c'`, with its bytes in them, is harmless. -/
theorem OpenFile.unharmed (he : e.NeverFails) (hf : n ≤ e.fuel) (h : OpenFile n s L fd C q c) (hfd : fd < e.maxFds)
    (hcover : (s.handles fd).size ≤ dataLen * c.length) {dev₁ : Nat → Block}
    (ho : Opened n fd (L.chains.erase c) L.leaked s' c') (hpre : c <+: c') (hag : AgreeOff c' s.dev dev₁)
    (hfr : FdFrame fd s s')
    (hdev : s'.dev = Function.update dev₁ (s'.handles fd).dirBlk ((s'.handles fd).entryIn (dev₁ (s'.handles fd).dirBlk)))
    (hcont : fileContent s'.dev c' = fileContent s.dev c) (hsize : (s'.handles fd).size = (s.handles fd).size)
    (hwrote : ∀ b ∈ c', b ∈ c ∨ Wrote b s s') (hstay : c' = [] → s'.dev = s.dev) : Unharmed e n L fd C q s s' := by
  have h' := h.updated ho hag hfr hdev
  have hlen : dataLen * c.length ≤ dataLen * c'.length := Nat.mul_le_mul_left _ hpre.length_le
  have hbytes : ∀ m, fileBytes s'.dev c' 0 m = fileBytes s.dev c 0 m := fun m => fileBytes_congr fun k _ => by rw [hcont]
  refine ⟨⟨c', by rw [h.opened.fileOf]; exact h'⟩, ?_, hsize, ?_, fun name maxLen r hname hq hr => ?_⟩
  · rw [ho.fileOf, h.opened.fileOf]
    exact hwrote
  · have hread := (ho.readable hf).reads he hfd (by omega)
    rwa [hsize, hbytes, ← h.opened.fileOf, ← State.bytes] at hread
  · have hq' : (s'.cd C).lookup e n name = some q := by rw [h.lookup_eq ho hag hfr hdev, hq]
    by_cases hc : c = []
    · have hzero : (s.handles fd).size = 0 := by
        rw [hc] at hcover
        exact Nat.le_zero.mp hcover
      obtain rfl := h.readFile_none he hf hzero hname hq hr
      by_cases hc' : c' = []
      · -- nothing has changed
        obtain ⟨s₁, hdev₁, hcount₁, herr₁, hloop₁⟩ := tfsReadFile_loop he hf h.cd hname hq h.type
        obtain ⟨s₂, hdev₂, hcount₂, herr₂, hloop₂⟩ := tfsReadFile_loop he hf h'.cd hname hq' h'.type
        have hitem : itemAt (s'.cd C).dev q = itemAt (s.cd C).dev q := by
          show itemAt s'.dev q = itemAt s.dev q
          rw [hstay hc']
        have hcong := readFileLoop_congr he e.fuel (itemAt (s.cd C).dev q).blk
            (min (itemAt (s.cd C).dev q).size maxLen) [] s₁ s₂
          (by rw [hdev₁, hdev₂]; exact hstay hc') (by rw [hcount₁, hcount₂]; exact hfr.blkCount) herr₁ herr₂
        rw [hloop₁, ← Function.comp_def, ← Option.map_map, ← hcong, Option.map_map] at hr
        rw [hloop₂, hitem]
        exact hr
      · rw [h'.readFile he hf hc' (by omega) hname hq', hsize, hzero, Nat.zero_min, fileBytes_zero]
    · have hc' : c' ≠ [] := fun hnil => hc (List.prefix_nil.mp (hnil ▸ hpre))
      rw [h.readFile he hf hc hcover hname hq] at hr
      rw [h'.readFile he hf hc' (by omega) hname hq', hsize, hbytes]
      exact hr

/-- Where a write of no bytes is harmless: in front of the end of the file's blocks; or on a full
disk, where it ends with the error and no block was taken for a file without one; or, where
the drive hides the error, with as many blocks as there are in front of the offset. -/
def Harmless (e : Env) (n fd offset : Nat) (s : State) : Prop :=
  offset / dataLen < (s.fileOf n fd).length ∨
    e.drive.setsOk = false ∧ s.capacity n fd ≤ offset / dataLen ∧ (s.fileOf n fd ≠ [] ∨ freeCount n s.dev = 0) ∨
    e.drive.setsOk = true ∧ (s.capacity n fd = offset / dataLen ∨ s.capacity n fd = 0)

/-- A marked block that is free again on the medium is no block of a volume with the file. -/
theorem OpenFile.not_unharmed (h : OpenFile n s L fd C q c) (hfile : s'.fileOf n fd = c')
    (hhole : ∃ x < n, (x % 4096 = 0 ∨ x ∈ c' ++ L.leaked ++ (L.chains.erase c).flatten) ∧ ¬ Used s'.dev x) :
    ¬ Unharmed e n L fd C q s s' := by
  intro hun
  obtain ⟨d, hd⟩ := hun.file
  have hdc : d = c' := hd.opened.fileOf.symm.trans hfile
  rw [hdc, h.opened.fileOf] at hd
  obtain ⟨x, hx, hmem, hfree⟩ := hhole
  refine hfree ((hd.volume.owned.used x hx).mpr (hmem.imp_right fun hmem => ?_))
  have hflat : ((L.refile C c c').chains.flatten).Perm (c' ++ (L.chains.erase c).flatten) := by
    refine (h.refile_perm c').symm.flatten.trans ?_
    rw [List.flatten_append, fileChains]
    split
    · rename_i hnil
      rw [hnil]
      exact .refl _
    · rw [List.flatten_singleton]
  rw [List.mem_append, List.mem_append] at hmem
  rw [List.mem_append, hflat.mem_iff, List.mem_append]
  rcases hmem with (hmem | hmem) | hmem
  · exact .inr (.inl hmem)
  · exact .inl hmem
  · exact .inr (.inr hmem)

/-- **A write of no bytes** leaves the volume well formed and the file as it was exactly where it is harmless. -/
theorem empty_write (he : e.NeverFails) (hf : n ≤ e.fuel) (h : OpenFile n s L fd C q c) (hfd : fd < e.maxFds)
    (hcover : (s.handles fd).size ≤ dataLen * c.length) (data : List UInt8) (ho : offset < 2 ^ 32)
    (hfuel : offset < e.fuel) :
    ∃ s', tfsWrite e fd data 0 offset s = some (0, s') ∧ (Unharmed e n L fd C q s s' ↔ Harmless e n fd offset s) := by
  obtain ⟨s', hrun, hend⟩ := tfsWrite_none he hf h.opened hfd data ho (.inr hfuel)
  refine ⟨s', hrun, ?_⟩
  rw [Harmless, State.capacity, h.opened.fileOf]
  cases hend with
  | moved hlt hcur =>
    rename_i b p v l
    refine ⟨fun _ => .inl hlt, fun _ => ?_⟩
    have hh : (s.seekTo fd b p v l).handles fd = _ := State.seekTo_handle ..
    obtain ⟨t, ht⟩ : ∃ t, t = { s.seekTo fd b p v l with tfsLastError := .ok } := ⟨_, rfl⟩
    have ho := h.opened.moved (v := v) (l := l) (show Err.ok ≠ .noDev from Err.noConfusion) hcur
    have hfr : FdFrame fd s { s.seekTo fd b p v l with tfsLastError := .ok } :=
      .handle (x := { s.handles fd with currBlk := b, currPos := p }) rfl ⟨rfl, rfl, rfl, rfl⟩ rfl ⟨rfl, rfl⟩
    have hhandle : t.handles fd = { s.handles fd with currBlk := b, currPos := p } := by
      rw [ht]
      exact hh
    have hdevt : t.dev = s.dev := by
      rw [ht]
      rfl
    rw [← ht] at ho hfr ⊢
    have hdev := h.stored ho .refl hfr (.kept hdevt fun _ => by rw [hhandle]; exact ⟨rfl, rfl⟩) True.intro
    exact h.unharmed he hf hfd hcover ho (List.prefix_refl c) .refl hfr hdev (by rw [hdevt]) (by rw [hhandle])
      (fun b hb => .inl hb) fun _ => hdevt
  | unwritten hle hroom hmem hnot hno =>
    refine ⟨fun hun => ?_, fun hcond => by omega⟩
    rcases hun.written _ hmem with hold | hwrote
    · rw [h.opened.fileOf] at hold
      exact absurd hold hnot
    · exact absurd hwrote hno
  | full hsets hcap hopen hpre hlen hag hfr hcont hsize hwrote hstay =>
    rename_i c'
    have hgrow : c'.length = 0 → c' = [] := List.eq_nil_of_length_eq_zero
    have hunharmed : firstBlk c' = firstBlk c → Unharmed e n L fd C q s s' := fun hfirst => by
      have hdev := h.stored hopen hag hfr (.kept rfl fun _ => ⟨by rw [hopen.first, h.first, hfirst], hsize⟩) True.intro
      exact h.unharmed he hf hfd hcover hopen hpre hag hfr hdev hcont hsize hwrote hstay
    by_cases hc : c = []
    · by_cases hfree : freeCount n s.dev = 0
      · have hc' : c' = [] := hgrow (by rw [hlen, hc, hfree]; rfl)
        refine ⟨fun _ => ?_, fun _ => hunharmed (by rw [hc, hc'])⟩
        cases hs : e.drive.setsOk with
        | false => exact .inr (.inl ⟨rfl, hcap, .inr hfree⟩)
        | true => exact .inr (.inr ⟨rfl, .inr (by rw [hc, hfree]; rfl)⟩)
      · have hne : c' ≠ [] := fun hnil => by
          rw [hnil, List.length_nil] at hlen
          omega
        have hno := hsets hne
        refine ⟨fun hun => ?_, fun hcond => ?_⟩
        · -- the blocks are in no entry
          obtain ⟨d, hd⟩ := hun.file
          have hsame : s'.dev q.1 = s.dev q.1 := h.apart hopen hag (mem_slots.mp h.slot).1
          have hblk : (itemAt s'.dev q).blk = (itemAt s.dev q).blk := by rw [itemAt, itemAt, hsame]
          have hzero : firstBlk c' = 0 := by rw [← hopen.first, ← hd.blk, hblk, h.blk, h.first, hc, firstBlk_nil]
          exact absurd hzero (hopen.blocks _ (firstBlk_mem hne)).2
        · simp only [hno, hc, hfree, ne_eq, not_true_eq_false, or_self, and_false, List.length_nil,
            Bool.false_eq_true, false_and,
            or_false] at hcond
          omega
    · obtain ⟨t, ht⟩ := hpre
      refine ⟨fun _ => ?_, fun _ => hunharmed (by rw [← ht, firstBlk_append hc])⟩
      have hne : c' ≠ [] := by
        rw [← ht]
        simp [hc]
      exact .inr (.inl ⟨hsets hne, hcap, .inl hc⟩)
  | stored hsets hcap hne hopen hpre hag hfr hdev hcont hsize hwrote =>
    exact ⟨fun _ => .inr (.inr ⟨hsets, .inl hcap⟩), fun _ =>
      h.unharmed he hf hfd hcover hopen hpre hag hfr hdev hcont hsize hwrote fun hnil => absurd hnil hne⟩
  | blank hsets hcap hne hfile hhole =>
    refine ⟨fun hun => absurd hun (h.not_unharmed hfile hhole), fun hcond => ?_⟩
    rw [hsets] at hcond
    simp only [Bool.true_eq_false, false_and, false_or, true_and] at hcond
    omega

/-- An empty file takes a block that is not written. -/
theorem empty_write_sixteen : ∃ s s' t L C q, withEmptyFile (Env.linux 16) (State.boot fun _ => Buf.zero) = some ((), s) ∧
    tfsOpen (Env.linux 16) [97] s = some (((0 : Nat) : Int), s') ∧ OpenFile 16 s' L 0 C q [] ∧
    tfsWrite (Env.linux 16) 0 [] 0 0 s' = some (0, t) ∧ ¬ Unharmed (Env.linux 16) 16 L 0 C q s' t := by
  have he := Env.linux_neverFails 16
  obtain ⟨s, s', L, hrun, hs, hopen, hnew, hempty⟩ := openEmpty_sixteen
  obtain ⟨C, q, c, hfile, -⟩ := tfsOpen_ok he (by decide) hs hopen hnew
  have hc : s'.fileOf 16 0 = [] := by
    rw [State.fileOf, hempty.2]
    rfl
  obtain rfl : c = [] := hfile.opened.fileOf.symm.trans hc
  have hcap : ((withEmptyFile (Env.linux 16) (State.boot fun _ => Buf.zero)).bind fun p =>
      (tfsOpen (Env.linux 16) [97] p.2).map fun o => freeCount 16 o.2.dev) = some 14 := by decide +kernel
  rw [hrun, Option.bind_some, hopen, Option.map_some, Option.some.injEq] at hcap
  obtain ⟨t, hwrite, hiff⟩ := empty_write he (by decide) hfile (by decide) (by rw [hempty.1]; exact Nat.zero_le _) []
    (show 0 < 2 ^ 32 by decide) (by decide)
  refine ⟨s, s', t, L, C, q, hrun, hopen, hfile, hwrite, fun hun => ?_⟩
  have hno := hiff.mp hun
  rw [Harmless, State.capacity, hc, hcap] at hno
  simp at hno

/-- On a medium that held links before it was formatted, the file ends in a circle. -/
theorem empty_write_circle : ∃ s s₁ s₂, withEmptyFile (Env.linux 16) (State.boot fun _ => Block.setNext Buf.zero 2) =
    some ((), s) ∧
    tfsOpen (Env.linux 16) [97] s = some (((0 : Nat) : Int), s₁) ∧ (itemAt s₁.dev (1, 0)).blk = 0 ∧
    tfsWrite (Env.linux 16) 0 [] 0 0 s₁ = some (0, s₂) ∧ s₂.tfsLastError = .ok ∧ (itemAt s₂.dev (1, 0)).blk = 2 ∧
    ¬ ∃ c, Chain s₂.dev c ∧ firstBlk c = 2 := by
  have hrun : ((withEmptyFile (Env.linux 16) (State.boot fun _ => Block.setNext Buf.zero 2)).bind fun p =>
      (tfsOpen (Env.linux 16) [97] p.2).bind fun o =>
      (tfsWrite (Env.linux 16) 0 [] 0 0 o.2).map fun w => (o.1, w.1, w.2.tfsLastError,
        [(itemAt o.2.dev (1, 0)).blk, (itemAt w.2.dev (1, 0)).blk, (w.2.dev 2).prev, (w.2.dev 2).next])) =
      some (0, 0, .ok, [0, 2, 0, 2]) := by decide +kernel
  rw [Option.bind_eq_some_iff] at hrun
  obtain ⟨⟨_, s⟩, hs, hrun⟩ := hrun
  rw [Option.bind_eq_some_iff] at hrun
  obtain ⟨⟨fd, s₁⟩, hs₁, hrun⟩ := hrun
  rw [Option.map_eq_some_iff] at hrun
  obtain ⟨⟨k, s₂⟩, hs₂, hrun⟩ := hrun
  simp only [Prod.mk.injEq, List.cons.injEq, and_true] at hrun
  obtain ⟨rfl, rfl, herr, hold, hnew, hprev, hnext⟩ := hrun
  refine ⟨s, s₁, s₂, hs, hs₁, hold, hs₂, herr, hnew, ?_⟩
  rintro ⟨c, ⟨hne, hl⟩, hfirst⟩
  cases c with
  | nil => exact hne rfl
  | cons b r =>
    have hb : b = 2 := hfirst
    subst hb
    obtain ⟨-, hlink, hl⟩ := hl
    rw [hnext] at hlink
    cases r with
    | nil => cases hlink
    | cons x r =>
      -- the second block of the chain would have to point back to the first
      have hx : x = 2 := hlink.symm
      subst hx
      have hback : (s₂.dev 2).prev = 2 := hl.1
      rw [hprev] at hback
      cases hback

end TinyFs
