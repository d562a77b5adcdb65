/-
What `tfs_write_file` stores, `tfs_read_file` reads back. The writer stops with an
error only where the error of `alloc_block` is still pending after the block it
writes; a drive that sets `tfs_last_error` to `TFS_ERR_OK` wipes that error out,
so there the call ends well with a part of the data.
-/
import TinyFs.DirMap

namespace TinyFs

open Bytes Chains

variable {e : Env} {n : Nat} {s s' : State} {L : Layout} {C : List Nat} {D dirs files : List (List Nat)}
  {name data : List UInt8} {len pos : Nat} {ov : Bool} {q : Nat × Nat}

/-! ## Reading a file -/

/-- `tfs_read_file` on an entry with data: the bytes asked for, as far as the chain goes.
It needs no more of the medium than the chains of the directory and of the file. -/
theorem tfsReadFile_chains (he : e.NeverFails) (hd : s.tfsLastError ≠ .noDev) {c : List Nat} (hC : ChainOn e s C)
    (hcur : s.currentDirBlk = firstBlk C) (hc : ChainOn e s c) (hname : name.headD 0 ≠ 0)
    (hq : ((slots C).find? fun p => hits e name (itemAt s.dev p)) = some q) (ht : (itemAt s.dev q).type = itemFile)
    (hb : (itemAt s.dev q).blk = firstBlk c) (maxLen : Nat) {m : Nat} (hm : m = min (itemAt s.dev q).size maxLen) :
    ∃ s', tfsReadFile e name maxLen s =
        some ((m, (List.range (min m (dataLen * c.length))).map (fileByte s.dev c)), s') ∧
      s'.tfsLastError = if m ≤ dataLen * c.length then .ok else .unexpEof := by
  have hC' : ChainOn e { s with tfsLastError := .ok, log := s.log.call .select } C :=
      ⟨hC.ne, hC.linked, hC.blocks, hC.short⟩
  rcases hC'.findFile he hcur rfl hname with ⟨p, l, hp, hrun⟩ | ⟨hnone, _⟩
  · have hp : ((slots C).find? fun p => hits e name (itemAt s.dev p)) = some p := hp
    obtain rfl : p = q := Option.some.inj (hp.symm.trans hq)
    obtain ⟨b, l', hread⟩ := readFileLoop_ok (e := e) he c e.fuel 0 m []
      { s with tfsLastError := .ok, blkBuf := s.dev p.1, loadedDirBlk := p.1, log := l } hc.ne hc.short hc.linked
        hc.blocks rfl
    refine ⟨_, enter_out (s := s) hd (t := { s with
      tfsLastError := if m ≤ dataLen * c.length then .ok else .unexpEof
      blkBuf := b, loadedDirBlk := p.1, log := l' }) ?_, rfl⟩
    rw [Prog.bind_some (hrun false), ifOk_ok (by rfl), blkBuf_bind]
    have htype : (s.dev p.1).itemType p.2 = itemFile := ht
    have hblk : (s.dev p.1).itemBlk p.2 = firstBlk c := hb
    have hmin : (if (s.dev p.1).itemSize p.2 > maxLen then maxLen else (s.dev p.1).itemSize p.2) = m := by
      rw [hm]
      show _ = min ((s.dev p.1).itemSize p.2) maxLen
      split <;> omega
    simp only [htype, ne_eq, not_true_eq_false, if_false]
    show (readFileLoop e e.fuel ((s.dev p.1).itemBlk p.2) (if (s.dev p.1).itemSize p.2 > maxLen then maxLen else
      (s.dev p.1).itemSize p.2) [] >>= fun data => pure (if (s.dev p.1).itemSize p.2 > maxLen then maxLen else
      (s.dev p.1).itemSize p.2, data) : M (Nat × List UInt8)) { s with
        tfsLastError := .ok, blkBuf := s.dev p.1, loadedDirBlk := p.1, log := l } = _
    rw [hmin, hblk, Prog.bind_some hread, List.nil_append]
    rfl
  · have hnone : ((slots C).find? fun p => hits e name (itemAt s.dev p)) = none := hnone
    rw [hq] at hnone
    cases hnone

/-- On a well-formed volume, of a name that stands for a file with data. -/
theorem tfsReadFile_ok (he : e.NeverFails) (hf : n ≤ e.fuel) (hs : Sys n s L) (hname : name.headD 0 ≠ 0)
    (hq : s.lookup e n name = some q) (ht : (itemAt s.dev q).type = itemFile) (hb : (itemAt s.dev q).blk ≠ 0)
    (maxLen : Nat) {c : List Nat} (hc : follow s.dev n (itemAt s.dev q).blk = c) {m : Nat}
    (hm : m = min (itemAt s.dev q).size maxLen) :
    ∃ s', tfsReadFile e name maxLen s =
        some ((m, (List.range (min m (dataLen * c.length))).map (fileByte s.dev c)), s') ∧
      s'.tfsLastError = if m ≤ dataLen * c.length then .ok else .unexpEof := by
  obtain ⟨C, D, h⟩ := hs.current_enter
  have hq : ((slots C).find? fun p => hits e name (itemAt s.dev p)) = some q := by
    have hfollow : follow s.dev n s.currentDirBlk = C := h.follow_eq
    rwa [State.lookup, hfollow] at hq
  obtain ⟨P, Q, hfd⟩ := found_of_find hq
  have hx : itemAt s.dev q ∈ entries s.dev C := by
    rw [hfd.entries]
    simp
  obtain ⟨d, hd, hhead⟩ := mem_heads (hs.volume.mem_files h.mem hx ht hb)
  have hd' : d ∈ L.chains := by simp [Layout.chains, hd]
  obtain rfl : d = c := by rw [← hc, ← hhead, hs.volume.owned.follow_eq hd']
  have hs' : Ready n s L.chains L.leaked := ⟨hs.mounted, hs.cache, hs.volume.owned⟩
  have hC : C ∈ L.chains := List.mem_append_left _ h.mem
  exact tfsReadFile_chains he hs.dev (hs'.chainOn hf hC) h.cur (hs'.chainOn hf hd') hname hq ht hhead.symm maxLen hm

/-! ## The entry of a written file -/

/-- The lookup finds the first of the live items that answers to the name. -/
theorem State.lookup_item (e : Env) (n : Nat) (s : State) (name : List UInt8) :
    (s.lookup e n name).map (itemAt s.dev) = (s.listing n).find? fun x => e.filenameCmp name x.name := by
  rw [State.listing, entries, liveAt, List.find?_filter, List.find?_map, State.lookup]
  congr 2
  funext p
  simp [hits]

/-- What `tfs_write_file` brings, it puts in front of all entries with the name. -/
theorem DirStep.write_before {cmp : List UInt8 → List UInt8 → Bool} {held : Prop} {err : Err} {A old B : List DirItem}
    {x : DirItem} (h : DirStep cmp held (.writeFile name data len ov) err A old [x] B) : Miss cmp name A := by
  cases h with
  | writeNew _ hm _ => exact fun y hy => hm y (List.mem_append_left _ hy)
  | writeOver _ hx _ _ => exact hx.before

theorem padName_hit (name : List UInt8) : strncmpName name (Block.padName name) = true :=
  (strncmpName_iff name _).mpr (nameKey_padName name).symm

/-- After `tfs_write_file`, the lookup finds the new entry. -/
theorem DirDone.lookup (hcmp : e.filenameCmp = strncmpName)
    (h : DirDone e n L (.writeFile name data len ov) s s' [newFile name len pos]) :
    ∃ q, s'.lookup e n name = some q ∧ itemAt s'.dev q = newFile name len pos := by
  obtain ⟨L', C, C', A, old, B, h⟩ := h
  have hlist := h.sys.listing_eq h.mem' (h.head'.trans h.frame.cur.symm)
  have hmiss : Miss strncmpName name A := hcmp ▸ h.step.write_before
  have hfind : (s'.listing n).find? (fun x => e.filenameCmp name x.name) = some (newFile name len pos) := by
    rw [hlist, h.after, List.append_assoc, List.find?_append,
      List.find?_eq_none.mpr fun y hy => by simp [hcmp, hmiss y hy]]
    rw [Option.none_or, List.singleton_append, List.find?_cons_of_pos]
    rw [hcmp]
    exact padName_hit name
  rw [← State.lookup_item, Option.map_eq_some_iff] at hfind
  exact hfind

/-! ## The round trip -/

/-- The file reads back, its chain is as long as the data needs, and what is left
of the chain it had is free. -/
structure ReadsBack (e : Env) (n : Nat) (s s' : State) (name data : List UInt8) (len maxLen : Nat) : Prop where
  read : ∃ t, tfsReadFile e name maxLen s' = some ((min len maxLen, data.take (min len maxLen)), t) ∧
    t.tfsLastError = .ok
  blocks : ∃ q, s'.lookup e n name = some q ∧
    (follow s'.dev n (itemAt s'.dev q).blk).length = blocksFor len ∧
    ∀ p, s.lookup e n name = some p → ∀ b ∈ follow s.dev n (itemAt s.dev p).blk,
      b ∉ follow s'.dev n (itemAt s'.dev q).blk → ¬ Used s'.dev b

/-- The disk runs full behind the first block of the data. -/
def State.CutOff (e : Env) (n : Nat) (s : State) (name : List UInt8) (len : Nat) (ov : Bool) : Prop :=
  s.Accepts e n name ov ∧ 0 < s.room e n name ∧ s.room e n name < blocksFor len

theorem le_blocksFor (len : Nat) : len ≤ dataLen * blocksFor len := by
  simp only [dataLen, blocksFor]
  omega

theorem take_eq_map (data : List UInt8) {m : Nat} (h : m ≤ data.length) :
    data.take m = (List.range m).map fun p => data.getD p 0 := by
  refine List.ext_getElem (by simp [h]) fun p h1 h2 => ?_
  have hp : p < m := by simpa using h2
  rw [List.getElem_take, List.getElem_map, List.getElem_range, List.getD_eq_getElem _ _ (by omega)]

/-- A file with all its data reads back. -/
theorem Stored.readsBack (he : e.NeverFails) (hf : n ≤ e.fuel) (hcmp : e.filenameCmp = strncmpName)
    (h : Stored e n s s' name data len pos) (hd : DirDone e n L (.writeFile name data len ov) s s' [newFile name len pos])
    (hname : name.headD 0 ≠ 0) (hdata : data.length = len) (hlen : 0 < len) (h32 : len < 2 ^ 32)
    (hall : (follow s'.dev n pos).length = blocksFor len) (maxLen : Nat) : ReadsBack e n s s' name data len maxLen := by
  obtain ⟨q, hq, hitem⟩ := hd.lookup hcmp
  obtain ⟨L', C, C', A, old, B, hop⟩ := hd
  have hblk : (itemAt s'.dev q).blk = pos := by rw [hitem, newFile]
  have hsize : (itemAt s'.dev q).size = len := by rw [hitem, newFile, Nat.mod_eq_of_lt h32]
  obtain ⟨t, hread, herr⟩ := tfsReadFile_ok he hf hop.sys hname hq (by rw [hitem, newFile]) (hblk ▸ h.pos_ne hlen)
    maxLen rfl (m := min len maxLen) (by rw [hsize])
  have hroom : min len maxLen ≤ dataLen * (follow s'.dev n (itemAt s'.dev q).blk).length := by
    rw [hblk, hall]
    exact Nat.le_trans (Nat.min_le_left _ _) (le_blocksFor len)
  refine ⟨⟨t, ?_, herr.trans (if_pos hroom)⟩, q, hq, by rw [hblk, hall], by rw [hblk]; exact h.dropped⟩
  have hbytes : (List.range (min len maxLen)).map (fileByte s'.dev (follow s'.dev n (itemAt s'.dev q).blk)) =
      data.take (min len maxLen) := by
    rw [take_eq_map data (by rw [hdata]; exact Nat.min_le_left _ _)]
    refine List.map_congr_left fun p hp => ?_
    have hp : p < min len maxLen := List.mem_range.mp hp
    rw [hblk] at hroom ⊢
    exact h.holds p (by omega) (by omega)
  rw [hread, Nat.min_eq_left hroom, hbytes]

theorem follow_length_pos {dev : Nat → Block} {b : Nat} (hn : 0 < n) (hb : b ≠ 0) : 0 < (follow dev n b).length := by
  obtain ⟨k, rfl⟩ : ∃ k, n = k + 1 := ⟨n - 1, by omega⟩
  rw [follow, if_neg hb, List.length_cons]
  omega

/-- Where the disk runs full behind the first block, the entry is stored with a part of the data. -/
theorem WriteFileEnd.cut (h : WriteFileEnd e n L s s' name data len ov) (hcut : s.CutOff e n name len ov) :
    ∃ pos, DirDone e n L (.writeFile name data len ov) s s' [newFile name len pos] ∧
      s'.tfsLastError = (if e.drive.setsOk then .ok else .diskFull) ∧ 0 < (follow s'.dev n pos).length ∧
      (follow s'.dev n pos).length < blocksFor len := by
  obtain ⟨hacc, hroom, hneed⟩ := hcut
  cases h with
  | refused _ _ hno => exact absurd hacc hno
  | noSpace _ _ hzero => omega
  | stored pos hd _ hst =>
    have hspace := hst.space
    rcases hst.written with ⟨_, hall⟩ | ⟨herr, hfull, hpart⟩
    · omega
    · rw [freeCount_eq_zero.mpr hfull] at hspace
      exact ⟨pos, hd, herr, by omega, hpart⟩

/-- Where it does not, all data is stored, or none. -/
theorem WriteFileEnd.whole (h : WriteFileEnd e n L s s' name data len ov) (hn : 0 < n)
    (hcut : ¬ s.CutOff e n name len ov) :
    (DirDone e n L (.writeFile name data len ov) s s' [] ∧ s'.tfsLastError ≠ .ok) ∨
    ∃ pos, DirDone e n L (.writeFile name data len ov) s s' [newFile name len pos] ∧ Stored e n s s' name data len pos ∧
      (follow s'.dev n pos).length = blocksFor len := by
  cases h with
  | refused hd herr _ => exact .inl ⟨hd, herr⟩
  | noSpace hd herr _ =>
    refine .inl ⟨hd, ?_⟩
    rw [herr]
    exact Err.noConfusion
  | stored pos hd hacc hst =>
    refine .inr ⟨pos, hd, hst, ?_⟩
    rcases hst.written with ⟨_, hall⟩ | ⟨_, hfull, hpart⟩
    · exact hall
    · have hspace := hst.space
      rw [freeCount_eq_zero.mpr hfull, Nat.zero_add] at hspace
      have hlen : 0 < len := by
        simp only [blocksFor] at hpart
        omega
      have hpos : 0 < (follow s'.dev n pos).length := follow_length_pos hn (hst.pos_ne hlen)
      exact absurd ⟨hacc, by omega, by omega⟩ hcut

/-- A part of the data does not read back. -/
theorem DirDone.not_readsBack (hcmp : e.filenameCmp = strncmpName)
    (hd : DirDone e n L (.writeFile name data len ov) s s' [newFile name len pos])
    (hpart : (follow s'.dev n pos).length < blocksFor len) {maxLen : Nat} :
    ¬ ReadsBack e n s s' name data len maxLen := by
  intro hback
  obtain ⟨q, hq, hitem⟩ := hd.lookup hcmp
  obtain ⟨q', hq', hlen, -⟩ := hback.blocks
  obtain rfl : q = q' := Option.some.inj (hq.symm.trans hq')
  have hblk : (itemAt s'.dev q).blk = pos := by rw [hitem, newFile]
  rw [hblk] at hlen
  omega

/-- On a well-formed volume and a drive that never fails, `tfs_write_file` returns;
and what it stored without an error reads back, but where the drive sets
`tfs_last_error` to `TFS_ERR_OK` and the disk runs full behind the first block. -/
theorem writeFile_readsBack (he : e.NeverFails) (hf : n ≤ e.fuel) (hcmp : e.filenameCmp = strncmpName)
    (hs : AtRest n s dirs files) (hname : name.headD 0 ≠ 0) (hdata : data.length = len) (hlen : 0 < len)
    (h32 : len < 2 ^ 32) (ov : Bool) (maxLen : Nat) :
    ∃ s', tfsWriteFile e name data len ov s = some ((), s') ∧
      ((s'.tfsLastError = .ok → ReadsBack e n s s' name data len maxLen) ↔
        ¬ (e.drive.setsOk = true ∧ s.CutOff e n name len ov)) := by
  obtain ⟨s', hrun, hend⟩ := tfsWriteFile_end he hf hs.sys name data len ov
  refine ⟨s', hrun, ?_⟩
  by_cases hcut : s.CutOff e n name len ov
  · obtain ⟨pos, hd, herr, -, hpart⟩ := hend.cut hcut
    have hback : ¬ ReadsBack e n s s' name data len maxLen := hd.not_readsBack hcmp hpart
    by_cases hsets : e.drive.setsOk = true
    · rw [if_pos hsets] at herr
      exact ⟨fun h => absurd (h herr) hback, fun h => absurd ⟨hsets, hcut⟩ h⟩
    · rw [if_neg hsets] at herr
      refine ⟨fun _ h => hsets h.1, fun _ hok => ?_⟩
      rw [herr] at hok
      cases hok
  · refine ⟨fun _ h => hcut h.2, fun _ hok => ?_⟩
    rcases hend.whole hs.mounted.pos hcut with ⟨_, herr⟩ | ⟨pos, hd, hst, hall⟩
    · exact absurd hok herr
    · exact hst.readsBack he hf hcmp hd hname hdata hlen h32 hall maxLen

/-- A file of 1000 bytes in a freshly formatted volume of sixteen blocks. -/
theorem writeFile_readsBack_fresh : ∃ s, formatted (Env.linux 16) (State.boot fun _ => Buf.zero) = some ((), s) ∧
    ∃ s', tfsWriteFile (Env.linux 16) [97] (List.replicate 1000 65) 1000 false s = some ((), s') ∧
      ((s'.tfsLastError = .ok → ReadsBack (Env.linux 16) 16 s s' [97] (List.replicate 1000 65) 1000 600) ↔
        ¬ ((Env.linux 16).drive.setsOk = true ∧ s.CutOff (Env.linux 16) 16 [97] 1000 false)) := by
  have he := Env.linux_neverFails 16
  obtain ⟨s, hrun, hs, -⟩ := formatted_ok he rfl (by omega) (by omega) (by decide) (State.boot fun _ => Buf.zero)
  exact ⟨s, hrun, writeFile_readsBack he (by decide) rfl (hs.atRest Layout.fresh_tight) (by decide)
    (List.length_replicate ..) (by omega) (by omega) false 600⟩

/-- The Linux build on a drive of `n` blocks that sets `tfs_last_error` after each
transfer, as the documentation asks. -/
def Env.documented (n : Nat) : Env :=
  { Env.linux n with drive := { blkCount := some n, fails := fun _ => false, setsOk := true } }

/-- On a volume of four blocks, a file of 1500 bytes is written without an error
and cannot be read. -/
theorem writeFile_cutOff : ∃ s s' dirs files, AtRest 4 s dirs files ∧
    tfsWriteFile (Env.documented 4) [97] (List.replicate 1500 65) 1500 false s = some ((), s') ∧
    s'.tfsLastError = .ok ∧ ¬ ReadsBack (Env.documented 4) 4 s s' [97] (List.replicate 1500 65) 1500 1500 := by
  obtain ⟨s, hrun, hs, -⟩ := formatted_ok (e := Env.documented 4) (n := 4) (fun _ => rfl) rfl (by omega) (by omega)
    (by decide) (State.boot fun _ => Buf.zero)
  obtain ⟨s', hwrite, hend⟩ := tfsWriteFile_end (e := Env.documented 4) (fun _ => rfl) (by decide) hs [97]
    (List.replicate 1500 65) 1500 false
  have hroom : (formatted (Env.documented 4) (State.boot fun _ => Buf.zero)).map
      (fun p => (p.2.room (Env.documented 4) 4 [97], p.2.lookup (Env.documented 4) 4 [97])) = some (2, none) := by
    decide +kernel
  rw [hrun, Option.map_some, Option.some.injEq, Prod.mk.injEq] at hroom
  have hacc : s.Accepts (Env.documented 4) 4 [97] false :=
    ⟨by decide, fun q hq => absurd (hroom.2 ▸ hq) nofun⟩
  obtain ⟨pos, hd, herr, -, hpart⟩ := hend.cut ⟨hacc, by rw [hroom.1]; decide, by rw [hroom.1]; decide⟩
  exact ⟨s, s', _, _, hs.atRest Layout.fresh_tight, hwrite, herr, hd.not_readsBack rfl hpart⟩

end TinyFs
