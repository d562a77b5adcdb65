/-
The size of a truncated file. `tfs_trunc` gives the file the blocks for its new size,
cut off or appended, and brings the entry up to date; but the size in the handle, and
so the one in the entry, is never set. So it does what its name says only where the
file has that size already.
-/
import TinyFs.UsageCount
import TinyFs.EmptyWrite

namespace TinyFs

open Bytes Chains

variable {e : Env} {n : Nat} {s s' t : State} {L : Layout} {fd size : Nat} {c c' C : List Nat} {q : Nat × Nat}
  {l : List UInt8}
  {name : List UInt8}

/-- The bytes of a file truncated to `size`: cut off, or zeros put behind them. -/
def resize (l : List UInt8) (size : Nat) : List UInt8 := l.take size ++ List.replicate (size - l.length) 0

@[simp] theorem resize_length (l : List UInt8) (size : Nat) : (resize l size).length = size := by
  rw [resize, List.length_append, List.length_take, List.length_replicate]
  omega

theorem resize_self (h : l.length = size) : resize l size = l := by
  rw [resize, List.take_of_length_le (by omega), h, Nat.sub_self]
  exact List.append_nil l

/-- The file behind the handle, and in its directory `C` behind the names of the slot `q`,
has the bytes `l`; the blocks it has lost are free. -/
structure Resized (e : Env) (n fd : Nat) (C : List Nat) (q : Nat × Nat) (s : State) (l : List UInt8) (s' : State) :
    Prop where
  size : (s'.handles fd).size = l.length
  entry : (itemAt s'.dev q).size = l.length
  read : Reads e fd s' l
  /-- Closed, it is read by name. -/
  readFile : 0 < l.length → ∃ t, tfsClose e fd s' = some ((), t) ∧ ∀ name maxLen, name.headD 0 ≠ 0 →
    (s.cd C).lookup e n name = some q → (tfsReadFile e name maxLen (t.cd C)).map Prod.fst = some (min maxLen l.length,
      l.take maxLen)
  freed : ∀ b ∈ s.fileOf n fd, b ∉ s'.fileOf n fd → ¬ Used s'.dev b

theorem ChainOn.butBlock0 (h : ChainOn e s c) (hbut : ButBlock0 s t) : ChainOn e t c :=
  ⟨h.ne, h.linked.congr (fun b hb => by rw [hbut.dev b (h.blocks b hb).2])
    (fun b hb => by rw [hbut.dev b (h.blocks b hb).2]),
    fun b hb => ⟨hbut.blkCount ▸ (h.blocks b hb).1, (h.blocks b hb).2⟩, h.short⟩

/-- A file of a well-formed volume is read by name wherever its medium is that of the
volume, up to block 0. -/
theorem OpenFile.readFile_butBlock0 (he : e.NeverFails) (hf : n ≤ e.fuel) (h : OpenFile n s L fd C q c)
    (hcover : (s.handles fd).size ≤ dataLen * c.length) (hpos : 0 < (s.handles fd).size) (hbut : ButBlock0 s t)
    (hd : t.tfsLastError ≠ .noDev) (hname : name.headD 0 ≠ 0) (hq : (s.cd C).lookup e n name = some q) (maxLen : Nat) :
    (tfsReadFile e name maxLen (t.cd C)).map Prod.fst =
      some (min maxLen (s.handles fd).size, (fileBytes s.dev c 0 (s.handles fd).size).take maxLen) := by
  have hready : Ready n s L.chains L.leaked := ⟨h.mounted, h.cache, h.volume.owned⟩
  have hCmem : C ∈ L.chains := List.mem_append_left _ h.dir
  have hC : ChainOn e s C := hready.chainOn hf hCmem
  have hc : ChainOn e s c := by
    rcases h.file with hc | rfl
    · exact hready.chainOn hf (List.mem_append_right _ (List.mem_append_left _ hc))
    · rw [List.length_nil] at hcover
      omega
  -- no directory and no file has block 0
  have hslots : ∀ p ∈ slots C, itemAt t.dev p = itemAt s.dev p := by
    intro p hp
    rw [itemAt, itemAt, hbut.dev p.1 (hC.blocks _ (mem_slots.mp hp).1).2]
  have hitem := hslots q h.slot
  have hfound : ((slots C).find? fun p => hits e name (itemAt t.dev p)) = some q := by
    have hfollow : follow s.dev n (firstBlk C) = C := h.volume.owned.follow_eq hCmem
    rw [State.lookup, show (s.cd C).dev = s.dev from rfl, show (s.cd C).currentDirBlk = firstBlk C from rfl,
      hfollow] at hq
    rw [← hq]
    exact List.find?_congr fun p hp => by rw [hslots p hp]
  have hon : ∀ d, ChainOn e t d → ChainOn e (t.cd C) d := fun _ hd => ⟨hd.ne, hd.linked, hd.blocks, hd.short⟩
  obtain ⟨u, hrun, -⟩ := tfsReadFile_chains he (s := t.cd C) hd (hon _ (hC.butBlock0 hbut)) rfl
      (hon _ (hc.butBlock0 hbut)) hname
    hfound (by show (itemAt t.dev q).type = itemFile; rw [hitem]; exact h.type)
    (by show (itemAt t.dev q).blk = firstBlk c; rw [hitem]; exact h.blk.trans h.first) maxLen
    (m := min maxLen (s.handles fd).size) (by show _ = min (itemAt t.dev q).size maxLen; rw [hitem, h.size, Nat.min_comm])
  have hmin : min maxLen (s.handles fd).size ≤ dataLen * c.length := Nat.le_trans (Nat.min_le_right _ _) hcover
  rw [hrun, Nat.min_eq_left hmin, Option.map_some, fileBytes_take, fileBytes]
  refine congrArg (fun l => some (_, l)) (List.map_congr_left fun p hp => ?_)
  have hp := List.mem_range.mp hp
  rw [Nat.zero_add, fileByte_eq (by omega)]
  exact congrFun (fileContent_congr fun b hb => hbut.dev b (hc.blocks b hb).2) p

/-- A file with the bytes `l`, in the state `s'` or but for block 0 in it, and its blocks
cover them: it is the file of the size asked for. -/
theorem OpenFile.resized (he : e.NeverFails) (hf : n ≤ e.fuel) (hfd : fd < e.maxFds) {L' : Layout} {s₁ : State}
    (h₁ : OpenFile n s₁ L' fd C q c') (hread : Readable e fd s' c') (hbut : ButBlock0 s₁ s')
    (hh : s'.handles = s₁.handles)
    (hcover : (s₁.handles fd).size ≤ dataLen * c'.length) (hl : fileBytes s₁.dev c' 0 (s₁.handles fd).size = l)
    (hlookup : ∀ name, (s₁.cd C).lookup e n name = (s.cd C).lookup e n name)
    (hfree : ∀ b ∈ s.fileOf n fd, b ∉ c' → ¬ Used s'.dev b) : Resized e n fd C q s l s' := by
  have hlen : l.length = (s₁.handles fd).size := by rw [← hl, fileBytes_length]
  have hsize : (s'.handles fd).size = (s₁.handles fd).size := by rw [hh]
  have hentry : itemAt s'.dev q = itemAt s₁.dev q := by
    rw [itemAt, itemAt, hbut.dev]
    exact ne_zero_of_mod (h₁.volume.owned.mem_mod (List.mem_append_left _ h₁.dir) (mem_slots.mp h₁.slot).1)
  have hbytes : fileBytes s'.dev c' 0 (s'.handles fd).size = l := by
    rw [← hl, hsize]
    exact fileBytes_congr fun k _ => congrFun (fileContent_congr fun b hb => hbut.dev b (hread.blocks b hb).2) _
  refine ⟨?_, ?_, ?_, fun hpos => ?_, ?_⟩
  · rw [hsize, hlen]
  · rw [hentry, h₁.size, hlen]
  · rw [← hbytes]
    exact hread.reads he hfd (by rw [hsize]; exact hcover)
  · obtain ⟨t, hclose⟩ := tfsClose_returns e fd s'
    have hkeeps : Untouched s' (t.withTable s'.handles) := (tfsClose_cases hclose).1
    have hbut' : ButBlock0 s₁ t :=
      ⟨fun b hb => (congrFun hkeeps.dev b).trans (hbut.dev b hb), hkeeps.blkCount.trans hbut.blkCount⟩
    refine ⟨t, hclose, fun name maxLen hname hq => ?_⟩
    rw [hlen] at hpos ⊢
    rw [← hl]
    exact h₁.readFile_butBlock0 he hf hcover hpos hbut' (hkeeps.present hread.dev) hname ((hlookup name).trans hq) maxLen
  · have hfile : s'.fileOf n fd = c' := by
      rw [State.fileOf, hread.first]
      exact follow_linked n 0 hread.linked (fun b hb => (hread.blocks b hb).2) (Nat.le_of_lt h₁.opened.length_lt)
    rw [hfile]
    exact hfree

/-- The disk has room for the blocks of a file of the size. -/
def State.RoomFor (n : Nat) (s : State) (fd size : Nat) : Prop := size = 0 ∨ size / dataLen + 1 ≤ s.capacity n fd

/-- `tfs_trunc` ends well: there is room, or the drive sets `tfs_last_error` and the
error of the full disk is lost. -/
def State.TruncEnds (e : Env) (n : Nat) (s : State) (fd size : Nat) : Prop :=
  s.RoomFor n fd size ∨ (e.drive.setsOk = true ∧ 0 < s.capacity n fd)

/-- **`tfs_trunc` resizes the file** exactly where it has the size already, and the disk the blocks for it, or the call
ends with an error. -/
theorem trunc_resizes (he : e.NeverFails) (hf : n ≤ e.fuel) (h : OpenFile n s L fd C q c) (hfd : fd < e.maxFds)
    (h32 : size < 2 ^ 32) (hfuel : e.drive.setsOk = true → size / dataLen < e.fuel) :
    ∃ s', tfsTrunc e fd size s = some ((), s') ∧
      ((s'.tfsLastError = .ok → Resized e n fd C q s (resize (s.bytes n fd) size) s') ↔
        size = (s.handles fd).size ∧ size ≤ dataLen * s.capacity n fd ∨ ¬ s.TruncEnds e n fd size) := by
  have hfileOf : s.fileOf n fd = c := h.opened.fileOf
  have hcap : s.capacity n fd = c.length + freeCount n s.dev := by rw [State.capacity, hfileOf]
  have hbytes : s.bytes n fd = fileBytes s.dev c 0 (s.handles fd).size := by rw [State.bytes, hfileOf]
  -- the size in the handle stays
  have hkept : ∀ s' : State, (s'.handles fd).size = (s.handles fd).size →
      Resized e n fd C q s (resize (s.bytes n fd) size) s' → size = (s.handles fd).size := by
    intro s' hsize hres
    have hnew := hres.size
    rw [resize_length] at hnew
    exact hnew.symm.trans hsize
  have hroom : e.drive.setsOk = false ∨ size = 0 ∨ size / dataLen + 1 ≤ c.length + freeCount n s.dev ∨
      size / dataLen < e.fuel := by
    cases hsets : e.drive.setsOk with
    | false => exact .inl rfl
    | true => exact .inr (.inr (.inr (hfuel hsets)))
  have hdiv := Nat.div_add_mod size dataLen
  have hmod := Nat.mod_lt size (show 0 < dataLen by decide)
  obtain ⟨s', hrun, hdone⟩ := tfsTrunc_ok he hf h.opened hfd h32 hroom
  refine ⟨s', hrun, ?_⟩
  cases hdone with
  | done hopen herr hlen hpre hfree hag hfr hdev hcont hsize =>
    rename_i c' dev₁
    have hcover : size ≤ dataLen * c'.length := by
      rw [hlen]
      split
      · omega
      · rw [Nat.mul_succ]
        omega
    have hle : c'.length ≤ c.length + freeCount n s.dev := by
      have hadd := h.opened.owned.freeCount_add hopen.owned
      simp only [List.length_append] at hadd
      rcases hpre with hpre | hpre
      · have := hpre.length_le
        omega
      · omega
    have hcapacity : size ≤ dataLen * s.capacity n fd := by
      rw [hcap]
      exact Nat.le_trans hcover (Nat.mul_le_mul_left _ hle)
    have hends : s.TruncEnds e n fd size := by
      refine .inl ?_
      rw [State.RoomFor, hcap]
      by_cases hzero : size = 0
      · exact .inl hzero
      · rw [if_neg hzero] at hlen
        exact .inr (hlen ▸ hle)
    refine ⟨fun hall => .inl ⟨hkept s' hsize (hall herr), hcapacity⟩, fun hcond _ => ?_⟩
    have hsame : size = (s.handles fd).size := (hcond.resolve_right (not_not_intro hends)).1
    refine (h.updated hopen hag hfr hdev).resized he hf hfd (hopen.readable hf) ⟨fun _ _ => rfl, rfl⟩ rfl ?_ ?_
      (h.lookup_eq hopen hag hfr hdev) (by rw [hfileOf]; exact hfree)
    · rw [hsize, ← hsame]
      exact hcover
    · rw [hbytes, resize_self (by rw [fileBytes_length, hsame]), hsize]
      exact fileBytes_congr fun k hk => hcont _ (by omega)
  | full hsets hne hopen herr hc hlen hfull hag hfr hcont hsize =>
    rename_i c'
    have hlen' : c'.length = c.length + freeCount n s.dev := h.opened.length_full hopen.toFileData hfull
    refine iff_of_true (fun hok => ?_) (.inr ?_)
    · rw [herr] at hok
      cases hok
    · rw [State.TruncEnds, State.RoomFor, hcap]
      rintro ((hzero | hroom) | ⟨hsets', hpos⟩)
      · exact hne hzero
      · omega
      · have hno := hsets (List.ne_nil_of_length_pos (by omega))
        rw [hsets'] at hno
        cases hno
  | astray hsets hne hread hc' hc hlen hshort herr hfr hsize hblank hopen hbut hh hag hdev hcont =>
    rename_i s₁ c' dev₁
    have hpos := List.length_pos_of_ne_nil hc'
    have hends : s.TruncEnds e n fd size := .inr ⟨hsets, by omega⟩
    have hsize₁ : (s₁.handles fd).size = (s.handles fd).size := by rw [← hh, hsize]
    rw [hcap, ← hlen]
    refine ⟨fun hall => .inl ?_, fun hcond _ => ?_⟩
    · -- a file that ends before its size does not read as one of that size
      have hres := hall herr
      have hsame := hkept s' hsize hres
      refine ⟨hsame, Nat.le_of_not_lt fun hlt => ?_⟩
      exact hread.not_reads he hfd (by rw [hsize, ← hsame]; exact hlt) (by rw [resize_length, hsize, hsame]) hres.read
    · obtain ⟨hsame, hcover⟩ := hcond.resolve_right (not_not_intro hends)
      refine (h.updated hopen hag hfr hdev).resized he hf hfd hread hbut hh ?_ ?_ (h.lookup_eq hopen hag hfr hdev)
        (by rw [hfileOf]; exact fun b hb hnot => absurd (hc.subset hb) hnot)
      · rw [hsize₁, ← hsame]
        exact hcover
      · rw [hbytes, resize_self (by rw [fileBytes_length, hsame]), hsize₁]
        exact fileBytes_congr fun k _ => congrFun hcont _

/-- Four blocks, all of them in use, with a file that fills two. -/
theorem openFull_documented : ∃ s s' t L, furnished (Env.documented 4)
      [.onDir (.writeFile [97] (List.replicate 1008 7) 1008 false)] (State.boot fun _ => Buf.zero) = some ((), s) ∧
        Sys 4 s L ∧
    tfsOpen (Env.documented 4) [97] s = some (((0 : Nat) : Int), s') ∧ (s.handles 0).usageCount = 0 ∧
    (s'.handles 0).size = 1008 ∧ s'.fileOf 4 0 = [2, 3] ∧ freeCount 4 s'.dev = 0 ∧
    tfsTrunc (Env.documented 4) 0 1008 s' = some ((), t) ∧ t.tfsLastError = .ok ∧ t.dev 0 ≠ s'.dev 0 := by
  obtain ⟨s, L, hrun, hs, -⟩ := furnished_ok (e := Env.documented 4) (fun _ => rfl) rfl (by omega) (by omega) (by decide)
    [.onDir (.writeFile [97] (List.replicate 1008 7) 1008 false)] (State.boot fun _ => Buf.zero)
  have hopen : ((furnished (Env.documented 4) [.onDir (.writeFile [97] (List.replicate 1008 7) 1008 false)]
      (State.boot fun _ => Buf.zero)).bind fun p => (tfsOpen (Env.documented 4) [97] p.2).bind fun o =>
      (tfsTrunc (Env.documented 4) 0 1008 o.2).map fun u => ((o.1, (p.2.handles 0).usageCount, (o.2.handles 0).size),
        (o.2.fileOf 4 0, freeCount 4 o.2.dev), u.2.tfsLastError, decide (u.2.dev 0 = o.2.dev 0))) =
      some ((0, 0, 1008), ([2, 3], 0), .ok, false) := by decide +kernel
  rw [hrun, Option.bind_some, Option.bind_eq_some_iff] at hopen
  obtain ⟨⟨fd, s'⟩, hopen, htrunc⟩ := hopen
  obtain ⟨⟨_, t⟩, htrunc, hfacts⟩ := Option.map_eq_some_iff.mp htrunc
  simp only [Prod.mk.injEq] at hfacts
  obtain ⟨⟨rfl, hfree, hsize⟩, ⟨hfile, hfull⟩, herr, hzero⟩ := hfacts
  exact ⟨s, s', t, L, hrun, hs, hopen, hfree, hsize, hfile, hfull, htrunc, herr, of_decide_eq_false hzero⟩

/-- Truncated to the size it has, that file reads as before, and block 0 is overwritten. -/
theorem trunc_resizes_full : ∃ s s' t C q, furnished (Env.documented 4)
      [.onDir (.writeFile [97] (List.replicate 1008 7) 1008 false)] (State.boot fun _ => Buf.zero) = some ((), s) ∧
    tfsOpen (Env.documented 4) [97] s = some (((0 : Nat) : Int), s') ∧ s'.fileOf 4 0 = [2, 3] ∧
    tfsTrunc (Env.documented 4) 0 1008 s' = some ((), t) ∧ t.dev 0 ≠ s'.dev 0 ∧
    Resized (Env.documented 4) 4 0 C q s' (resize (s'.bytes 4 0) 1008) t := by
  have he : (Env.documented 4).NeverFails := fun _ => rfl
  obtain ⟨s, s', t, L, hrun, hs, hopen, hnew, hsize, hblocks, hfull, htrunc, herr, hzero⟩ := openFull_documented
  obtain ⟨C, q, c, hfile, -⟩ := tfsOpen_ok he (by decide) hs hopen hnew
  obtain ⟨t', htrunc', hiff⟩ := trunc_resizes he (by decide) hfile (by decide) (show 1008 < 2 ^ 32 by decide)
      (fun _ => by decide)
  obtain rfl : t = t' := congrArg Prod.snd (Option.some.inj (htrunc.symm.trans htrunc'))
  exact ⟨s, s', t, C, q, hrun, hopen, hblocks, htrunc, hzero,
    hiff.mpr (.inl ⟨hsize.symm, by rw [State.capacity, hblocks, hfull]; decide⟩) herr⟩

/-- The empty file of a volume of sixteen blocks has no byte after it is truncated to ten. -/
theorem trunc_keepsSize : ∃ s s' t C q, withEmptyFile (Env.linux 16) (State.boot fun _ => Buf.zero) = some ((), s) ∧
    tfsOpen (Env.linux 16) [97] s = some (((0 : Nat) : Int), s') ∧ (∃ L c, OpenFile 16 s' L 0 C q c) ∧
    tfsTrunc (Env.linux 16) 0 10 s' = some ((), t) ∧ t.tfsLastError = .ok ∧ (t.handles 0).size = 0 ∧
    ¬ Resized (Env.linux 16) 16 0 C q s' (resize (s'.bytes 16 0) 10) t := by
  obtain ⟨s, s', L, hrun, hs, hopen, hnew, -⟩ := openEmpty_sixteen
  obtain ⟨C, q, c, hfile, -⟩ := tfsOpen_ok (Env.linux_neverFails 16) (by decide) hs hopen hnew
  have htrunc : ((withEmptyFile (Env.linux 16) (State.boot fun _ => Buf.zero)).bind fun p =>
      (tfsOpen (Env.linux 16) [97] p.2).bind fun o =>
      (tfsTrunc (Env.linux 16) 0 10 o.2).map fun t => (t.2.tfsLastError, (t.2.handles 0).size)) =
        some (.ok, 0) := by decide +kernel
  rw [hrun, Option.bind_some, hopen, Option.bind_some, Option.map_eq_some_iff] at htrunc
  obtain ⟨⟨_, t⟩, htrunc, hend⟩ := htrunc
  simp only [Prod.mk.injEq] at hend
  obtain ⟨herr, hsize⟩ := hend
  refine ⟨s, s', t, C, q, hrun, hopen, ⟨_, c, hfile⟩, htrunc, herr, hsize, fun h => ?_⟩
  have hnew := h.size
  rw [resize_length, hsize] at hnew
  omega

end TinyFs
