/-
The two readers of a file. `tfs_read_file` streams the whole chain; `tfs_read` goes
through a handle, whose size and first block are those of the entry and whose cursor
may stand anywhere on the file. Of a file whose blocks cover its size both return the
same bytes, and so do any consecutive reads through the handle; but for the file whose
count wraps when it is opened once more.
-/
import TinyFs.UsageCount
import TinyFs.EmptyWrite

namespace TinyFs

open Bytes Chains

variable {e : Env} {n fd : Nat} {s s' t : State} {L : Layout} {c : List Nat} {q : Nat × Nat} {name : List UInt8}
  {maxLen len offset total : Nat}

/-! ## Reading through a handle -/

/-- A file that can be read through handle `fd`, with its blocks and its size. -/
structure ReadsFile (e : Env) (fd : Nat) (c : List Nat) (total : Nat) (s : State) : Prop extends Readable e fd s c where
  lt : fd < e.maxFds
  holds : (s.handles fd).size = total
  cover : total ≤ dataLen * c.length

/-- One read returns the bytes of its range, and leaves the file to be read. -/
theorem ReadsFile.read (he : e.NeverFails) (h : ReadsFile e fd c total s) (h32 : offset < 2 ^ 32) :
    ∃ s', tfsRead e fd len offset s =
        some ((min len (total - offset), fileBytes s.dev c offset (min len (total - offset))), s') ∧
      s'.tfsLastError = .ok ∧ s'.dev = s.dev ∧ ReadsFile e fd c total s' := by
  obtain ⟨b, p, v, l, hrun, hcur⟩ := tfsRead_ok (m := min len (total - offset)) he h.toReadable h.lt h32
      (show _ = min (min len _) _ by
    have := h.cover
    rw [h.holds]
    omega)
  have hh : (s.seekTo fd b p v l).handles fd = { s.handles fd with currBlk := b, currPos := p } :=
      State.seekTo_handle s fd b p v l
  refine ⟨{ s.seekTo fd b p v l with tfsLastError := .ok }, hrun, rfl, rfl,
    ⟨⟨⟨h.blocks, h.linked, ?_, h.short⟩, Err.noConfusion, ?_, ?_, ?_⟩,
    h.lt, ?_, h.cover⟩⟩
  · exact (congrArg Handle.firstBlk hh).trans h.first
  · exact fun hzero => h.usage ((congrArg Handle.usageCount hh).symm.trans hzero)
  · show Cursor ((s.seekTo fd b p v l).handles fd) c
    rw [hh]
    exact hcur
  · exact lt_of_eq_of_lt (congrArg Handle.size hh) h.size
  · exact (congrArg Handle.size hh).trans h.holds

/-! ## Reading in pieces -/

/-- `tfs_read` once for each offset and length: the bytes put together. -/
def readPieces (e : Env) (fd : Int) : List (UInt32 × UInt32) → M (List UInt8)
  | [] => pure []
  | p :: ps => do
    let r ← tfsRead e fd p.2.toNat p.1.toNat
    let rest ← readPieces e fd ps
    pure (r.2 ++ rest)

/-- Each piece starts where the one before it ends, the first one at `o`. -/
def Consecutive : Nat → List (UInt32 × UInt32) → Prop
  | _, [] => True
  | o, p :: ps => p.1.toNat = o ∧ Consecutive (o + p.2.toNat) ps

/-- Where consecutive pieces from `o` on end. -/
def piecesEnd : Nat → List (UInt32 × UInt32) → Nat
  | o, [] => o
  | o, p :: ps => piecesEnd (o + p.2.toNat) ps

theorem le_piecesEnd (ps : List (UInt32 × UInt32)) (o : Nat) : o ≤ piecesEnd o ps := by
  induction ps generalizing o with
  | nil => exact Nat.le_refl o
  | cons p ps ih => exact Nat.le_trans (Nat.le_add_right _ _) (ih _)

/-- Consecutive reads return what one read of them all does. -/
theorem ReadsFile.readPieces (he : e.NeverFails) (h : ReadsFile e fd c total s) {ps : List (UInt32 × UInt32)} {o : Nat}
    (hps : Consecutive o ps) :
    ∃ s', readPieces e fd ps s = some (fileBytes s.dev c o (min (piecesEnd o ps) total - o), s') := by
  induction ps generalizing o s with
  | nil =>
    refine ⟨s, ?_⟩
    rw [show min (piecesEnd o []) total - o = 0 by simp only [piecesEnd]; omega, fileBytes_zero]
    rfl
  | cons p ps ih =>
    obtain ⟨rfl, hps⟩ := hps
    obtain ⟨s₁, hread, -, hdev, h₁⟩ := h.read he p.1.toNat_lt
    obtain ⟨s₂, hrest⟩ := ih h₁ hps
    refine ⟨s₂, ?_⟩
    rw [TinyFs.readPieces, Prog.bind_some hread, Prog.bind_some hrest, hdev]
    have hend := le_piecesEnd ps (p.1.toNat + p.2.toNat)
    have hbytes : fileBytes s.dev c p.1.toNat (min p.2.toNat (total - p.1.toNat)) ++
        fileBytes s.dev c (p.1.toNat + p.2.toNat)
          (min (piecesEnd (p.1.toNat + p.2.toNat) ps) total - (p.1.toNat + p.2.toNat)) =
        fileBytes s.dev c p.1.toNat (min (piecesEnd p.1.toNat (p :: ps)) total - p.1.toNat) := by
      show _ = fileBytes s.dev c p.1.toNat (min (piecesEnd (p.1.toNat + p.2.toNat) ps) total - p.1.toNat)
      by_cases hover : p.1.toNat + p.2.toNat ≤ total
      · rw [show min (piecesEnd (p.1.toNat + p.2.toNat) ps) total - p.1.toNat =
          p.2.toNat + (min (piecesEnd (p.1.toNat + p.2.toNat) ps) total - (p.1.toNat +
            p.2.toNat)) by omega, fileBytes_add,
          Nat.min_eq_left (by omega)]
      · rw [show min (piecesEnd (p.1.toNat + p.2.toNat) ps) total - (p.1.toNat + p.2.toNat) = 0 by omega, fileBytes_zero,
          List.append_nil]
        congr 1
        omega
    rw [← hbytes]
    rfl

/-! ## Opening -/

/-- The file of the entry at slot `q` and its blocks `c`: the entry is one of a file with
bytes in it, and its blocks cover them. The handles in use on it agree with the entry. -/
structure NamedFile (e : Env) (n : Nat) (s : State) (name : List UInt8) (q : Nat × Nat) (c : List Nat) : Prop where
  named : name.headD 0 ≠ 0
  lookup : s.lookup e n name = some q
  file : (itemAt s.dev q).type = itemFile
  chain : follow s.dev n (itemAt s.dev q).blk = c
  nonempty : 0 < (itemAt s.dev q).size
  cover : (itemAt s.dev q).size ≤ dataLen * c.length
  handles : ∀ fd < e.maxFds, InUseOn s.handles (q.1, some q.2) fd →
    (s.handles fd).firstBlk = (itemAt s.dev q).blk ∧ (s.handles fd).size = (itemAt s.dev q).size ∧ Cursor (s.handles fd) c

/-- The handle `tfs_open` would count up is at its highest count. -/
def AtMaxCount (m : Nat) (H : Nat → Handle) (p : Nat × Option Nat) : Prop :=
  ∃ fd < m, InUseOn H p fd ∧ (∀ g < fd, ¬ InUseOn H p g) ∧ ((H fd).usageCount + 1) % 256 = 0

/-- The blocks of the file. -/
theorem NamedFile.blocks (h : NamedFile e n s name q c) (hs : Sys n s L) :
    c ∈ L.chains ∧ firstBlk c = (itemAt s.dev q).blk := by
  obtain ⟨C, D, hcur⟩ := hs.current_enter
  have hfollow : follow s.dev n s.currentDirBlk = C := hcur.follow_eq
  have hq := h.lookup
  rw [State.lookup, hfollow] at hq
  obtain ⟨P, Q, hfd⟩ := found_of_find hq
  have hx : itemAt s.dev q ∈ entries s.dev C := by
    rw [hfd.entries]
    simp
  have hblk : (itemAt s.dev q).blk ≠ 0 := by
    intro hzero
    have hc := h.chain
    rw [hzero, follow_zero] at hc
    have := h.nonempty
    have := h.cover
    rw [← hc, List.length_nil] at this
    omega
  obtain ⟨d, hd, hhead⟩ := mem_heads (hs.volume.mem_files hcur.mem hx h.file hblk)
  have hd' : d ∈ L.chains := by simp [Layout.chains, hd]
  obtain rfl : d = c := by rw [← h.chain, ← hhead, hs.volume.owned.follow_eq hd']
  exact ⟨hd', hhead⟩

/-- What `tfs_write_file` stored whole is such a file, where no handle is in use on its entry. -/
theorem DirDone.namedFile {data : List UInt8} {ov : Bool} {pos : Nat} (hcmp : e.filenameCmp = strncmpName)
    (hd : DirDone e n L (.writeFile name data len ov) s s' [newFile name len pos])
    (hname : name.headD 0 ≠ 0) (hlen : 0 < len) (h32 : len < 2 ^ 32) (hall : (follow s'.dev n pos).length = blocksFor len)
    (hfree : ∀ fd < e.maxFds, (s.handles fd).usageCount = 0) :
    ∃ L' q, Sys n s' L' ∧ NamedFile e n s' name q (follow s'.dev n pos) ∧ (itemAt s'.dev q).size = len ∧
      ∀ fd < e.maxFds, (s'.handles fd).usageCount = 0 := by
  obtain ⟨q, hq, hitem⟩ := hd.lookup hcmp
  obtain ⟨L', C, C', A, old, B, hop⟩ := hd
  have hsize : (itemAt s'.dev q).size = len := by rw [hitem, newFile, Nat.mod_eq_of_lt h32]
  have hzero : ∀ fd < e.maxFds, (s'.handles fd).usageCount = 0 := fun fd hfd => by rw [hop.frame.handles, hfree fd hfd]
  refine ⟨L', q, hop.sys,
    ⟨hname, hq, by rw [hitem, newFile], by rw [hitem, newFile], by rw [hsize]; exact hlen, ?_, ?_⟩, hsize, hzero⟩
  · rw [hsize, hall]
    exact le_blocksFor len
  · intro fd hfd huse
    have := huse.used
    rw [hzero fd hfd] at this
    omega

/-- And so is a file in use with handle `fd`, where no other handle is in use on its entry. -/
theorem OpenFile.namedFile {C : List Nat} (h : OpenFile n s L fd C q c) (hname : name.headD 0 ≠ 0)
    (hlookup : s.lookup e n name = some q) (hpos : 0 < (s.handles fd).size)
    (hcover : (s.handles fd).size ≤ dataLen * c.length)
    (honly : ∀ g < e.maxFds, InUseOn s.handles (q.1, some q.2) g → g = fd) : NamedFile e n s name q c := by
  refine ⟨hname, hlookup, h.type, ?_, by rw [h.size]; exact hpos, by rw [h.size]; exact hcover, fun g hg huse => ?_⟩
  · rw [h.blk]
    exact h.opened.fileOf
  · rw [honly g hg huse]
    exact ⟨h.blk.symm, h.size.symm, h.cursor⟩

/-- A handle opened on the file agrees with its entry. -/
theorem NamedFile.opened (hs : Sys n s L) (h : NamedFile e n s name q c) (hbuf : t.blkBuf = s.dev q.1) :
    (t.opened q.2).firstBlk = (itemAt s.dev q).blk ∧ (t.opened q.2).size = (itemAt s.dev q).size ∧
    Cursor (t.opened q.2) c := by
  obtain ⟨hmem, hhead⟩ := h.blocks hs
  have hne : c ≠ [] := (hs.volume.owned.chain c hmem).1
  have hblk : t.blkBuf.itemBlk q.2 = (itemAt s.dev q).blk := by rw [hbuf]; rfl
  refine ⟨hblk, ?_, .inr ⟨0, List.length_pos_of_ne_nil hne, ?_, rfl, by decide⟩⟩
  · show t.blkBuf.itemSize q.2 = _
    rw [hbuf]
    rfl
  · show t.blkBuf.itemBlk q.2 = _
    rw [hblk, ← hhead]
    cases c with
    | nil => exact absurd rfl hne
    | cons b c => rfl

theorem NamedFile.open (he : e.NeverFails) (hf : n ≤ e.fuel) (hs : Sys n s L) (h : NamedFile e n s name q c)
    (hfree : ∃ g < e.maxFds, (s.handles g).usageCount = 0) :
    ∃ fd s', tfsOpen e name s = some (((fd : Nat) : Int), s') ∧ s'.dev = s.dev ∧
      (¬ AtMaxCount e.maxFds s.handles (q.1, some q.2) → ReadsFile e fd c (itemAt s.dev q).size s') ∧
      (AtMaxCount e.maxFds s.handles (q.1, some q.2) → s'.tfsLastError ≠ .noDev ∧ (s'.handles fd).usageCount = 0) := by
  obtain ⟨hmem, hhead⟩ := h.blocks hs
  have hne : c ≠ [] := (hs.volume.owned.chain c hmem).1
  obtain ⟨t, hfinds, hplace, hbuf⟩ := hs.findsFile he hf h.named h.lookup h.file
  obtain ⟨r, s', hrun, hstep, hkeeps⟩ := hfinds.open
  have hu : Untouched s (s'.withTable s.handles) := hkeeps
  have hready : ∀ fd, fd < e.maxFds → (s'.handles fd).usageCount ≠ 0 → (s'.handles fd).firstBlk = (itemAt s.dev q).blk →
      (s'.handles fd).size = (itemAt s.dev q).size → Cursor (s'.handles fd) c → ReadsFile e fd c
        (itemAt s.dev q).size s' := by
    intro fd hfd husage hfirst hsize hcursor
    have hlinked : LinkedOn s'.dev 0 c 0 := by
      rw [hkeeps.dev]
      exact (hs.volume.owned.chain c hmem).2
    refine ⟨⟨⟨fun b hb => ?_, hlinked, hfirst.trans hhead.symm, ?_⟩, hu.present hs.dev, husage, hcursor, ?_⟩, hfd,
      hsize, h.cover⟩
    · rw [show s'.blkCount = s.blkCount from hu.blkCount, hs.mounted.count]
      exact ⟨hs.volume.owned.mem_lt hmem hb, hs.volume.ne_zero hmem b hb⟩
    · have := hs.volume.owned.length_lt hmem
      omega
    · rw [hsize]
      exact Block.itemSize_lt _ _
  have hdev := hkeeps.dev
  generalize s'.tfsLastError = err at hstep
  generalize hH : s'.handles = H at hstep
  obtain ⟨g, hg, hzero⟩ := hfree
  cases hstep with
  | @shared fd hfd huse hfirst =>
    rw [hplace] at huse hfirst
    obtain ⟨hblk, hsize, hcursor⟩ := h.handles fd hfd huse
    have hfd' : s'.handles fd = { s.handles fd with usageCount := ((s.handles fd).usageCount + 1) % 256 } := by
      rw [hH, Function.update_self]
    refine ⟨fd, s', hrun, hdev, fun hno => hready fd hfd ?_ ?_ ?_ ?_, fun hmax => ⟨hu.present hs.dev, ?_⟩⟩
    · rw [hfd']
      exact fun hwrap => hno ⟨fd, hfd, huse, hfirst, hwrap⟩
    · rw [hfd', hblk]
    · rw [hfd', hsize]
    · rw [hfd']
      exact hcursor
    · obtain ⟨fd', hfd'', huse', hfirst', hwrap⟩ := hmax
      have heq : fd' = fd := by
        rcases Nat.lt_trichotomy fd' fd with hlt | heq | hlt
        · exact absurd huse' (hfirst fd' hlt)
        · exact heq
        · exact absurd huse (hfirst' fd hlt)
      rw [hfd', ← heq]
      exact hwrap
  | full hused _ =>
    have := hused g (Nat.le_of_lt hg)
    omega
  | @fresh fd hle _ hfirst hnone =>
    have hfd : fd < e.maxFds := by
      by_contra hge
      have := hfirst g (by omega)
      omega
    rw [hplace] at hnone
    have hfd' : s'.handles fd = t.opened q.2 := by rw [hH, Function.update_self]
    obtain ⟨hfirstBlk, hsize, hcursor⟩ := h.opened hs hbuf
    refine ⟨fd, s', hrun, hdev, fun _ => hready fd hfd ?_ ?_ ?_ ?_, fun ⟨fd', hlt, huse, _⟩ => absurd huse
      (hnone fd' hlt)⟩
    · rw [hfd']
      exact Nat.one_ne_zero
    · rw [hfd']
      exact hfirstBlk
    · rw [hfd']
      exact hsize
    · rw [hfd']
      exact hcursor

/-! ## The readers compared -/

/-- Both readers end well and return the same, whatever the length asked for; and so do
consecutive reads through the handle that cover as much of the `total` bytes. -/
def ReadersAgree (e : Env) (s : State) (name : List UInt8) (total : Nat) : Prop :=
  ∀ maxLen, ∃ r data s₁ fd s₂ s₃ s₄, tfsReadFile e name maxLen s = some ((r, data), s₁) ∧ s₁.tfsLastError = .ok ∧
    tfsOpen e name s = some (fd, s₂) ∧ tfsRead e fd maxLen 0 s₂ = some ((r, data), s₃) ∧ s₃.tfsLastError = .ok ∧
    tfsClose e fd s₃ = some ((), s₄) ∧ ∀ ps, Consecutive 0 ps → min (piecesEnd 0 ps) total = min maxLen total →
      ∃ s₅, readPieces e fd ps s₂ = some (data, s₅)

/-- `tfs_read_file` of such a file. -/
theorem NamedFile.readFile (he : e.NeverFails) (hf : n ≤ e.fuel) (hs : Sys n s L) (h : NamedFile e n s name q c)
    (maxLen : Nat) :
    ∃ s', tfsReadFile e name maxLen s = some ((min maxLen (itemAt s.dev q).size,
      fileBytes s.dev c 0 (min maxLen (itemAt s.dev q).size)), s') ∧ s'.tfsLastError = .ok := by
  obtain ⟨hmem, hhead⟩ := h.blocks hs
  have hblk : (itemAt s.dev q).blk ≠ 0 := by
    rw [← hhead]
    exact hs.volume.ne_zero hmem _ (firstBlk_mem (hs.volume.owned.chain c hmem).1)
  have hcover : min maxLen (itemAt s.dev q).size ≤ dataLen * c.length := Nat.le_trans (Nat.min_le_right _ _) h.cover
  obtain ⟨s', hrun, herr⟩ := tfsReadFile_ok he hf hs h.named h.lookup h.file hblk maxLen h.chain
    (Nat.min_comm maxLen (itemAt s.dev q).size)
  rw [Nat.min_eq_left hcover] at hrun
  refine ⟨s', hrun.trans ?_, by rw [herr, if_pos hcover]⟩
  refine congrArg (fun l => some ((_, l), s')) (List.map_congr_left fun p hp => ?_)
  have hp := List.mem_range.mp hp
  rw [Nat.zero_add]
  exact fileByte_eq (by omega)

/-- A file at its highest count is read by one of them only. -/
theorem NamedFile.disagree (he : e.NeverFails) (hf : n ≤ e.fuel) (hs : Sys n s L) (h : NamedFile e n s name q c)
    (hfree : ∃ g < e.maxFds, (s.handles g).usageCount = 0) (hmax : AtMaxCount e.maxFds s.handles (q.1, some q.2)) :
    ¬ ReadersAgree e s name (itemAt s.dev q).size := by
  intro hagree
  obtain ⟨fd, s₂, hopen, -, -, hwraps⟩ := h.open he hf hs hfree
  obtain ⟨hready, hzero⟩ := hwraps hmax
  obtain ⟨r, data, s₁, fd', s₂', s₃, s₄, hfile, -, hopen', hread, -⟩ := hagree 1
  obtain ⟨s₁', hfile', -⟩ := h.readFile he hf hs 1
  have hinvalid : invalidFd e s₂ fd := .inr (.inr hzero)
  rw [hopen] at hopen'
  cases hopen'
  rw [hfile] at hfile'
  rw [tfsRead, enter_run hready, show ({ s₂ with tfsLastError := .ok, log := s₂.log.call .select } : State) =
      s₂.started from rfl,
    Prog.gets_bind, id, if_pos (show invalidFd e s₂.started fd from hinvalid)] at hread
  have hr : r = 0 := (congrArg (·.1.1) (Option.some.inj hread)).symm
  have hr' : r = min 1 (itemAt s.dev q).size := congrArg (·.1.1) (Option.some.inj hfile')
  have := h.nonempty
  omega

/-- **The two readers of a file agree** exactly where opening it does not wrap its count. -/
theorem readers_agree (he : e.NeverFails) (hf : n ≤ e.fuel) (hs : Sys n s L) (h : NamedFile e n s name q c)
    (hfree : ∃ g < e.maxFds, (s.handles g).usageCount = 0) :
    ReadersAgree e s name (itemAt s.dev q).size ↔ ¬ AtMaxCount e.maxFds s.handles (q.1, some q.2) := by
  refine ⟨fun hagree hmax => h.disagree he hf hs hfree hmax hagree, fun hno maxLen => ?_⟩
  obtain ⟨fd, s₂, hopen, hdev, hreads, -⟩ := h.open he hf hs hfree
  have hfile := hreads hno
  obtain ⟨s₁, hread, herr⟩ := h.readFile he hf hs maxLen
  obtain ⟨s₃, hread', herr', -, -⟩ := hfile.read he (show 0 < 2 ^ 32 by decide)
  obtain ⟨s₄, hclose⟩ := tfsClose_returns e fd s₃
  rw [Nat.sub_zero, hdev] at hread'
  refine ⟨_, _, s₁, fd, s₂, s₃, s₄, hread, herr, hopen, hread', herr', hclose, fun ps hps hcover => ?_⟩
  obtain ⟨s₅, hpieces⟩ := hfile.readPieces he hps
  rw [hcover, Nat.sub_zero, hdev] at hpieces
  exact ⟨s₅, hpieces⟩

/-- A formatted volume with a file of one byte. -/
def withOneByte (e : Env) : M Unit := do
  formatted e
  tfsWriteFile e [97] [7] 1 false

theorem withOneByte_ok : ∃ s L q c, withOneByte (Env.linux 16) (State.boot fun _ => Buf.zero) = some ((), s) ∧
    Sys 16 s L ∧
    NamedFile (Env.linux 16) 16 s [97] q c ∧ ∀ fd < 32, (s.handles fd).usageCount = 0 := by
  have he := Env.linux_neverFails 16
  obtain ⟨s₀, hformat, hs₀, hh₀, -⟩ := formatted_ok he rfl (by omega) (by omega) (by decide)
      (State.boot fun _ => Buf.zero)
  obtain ⟨s, hwrite, hend⟩ := tfsWriteFile_end he (by decide) hs₀ [97] [7] 1 false
  have hrun : withOneByte (Env.linux 16) (State.boot fun _ => Buf.zero) = some ((), s) := by
    rw [withOneByte, Prog.bind_some hformat]
    exact hwrite
  have herr : (withOneByte (Env.linux 16) (State.boot fun _ => Buf.zero)).map (fun p => p.2.tfsLastError) = some .ok := by
    decide +kernel
  rw [hrun, Option.map_some, Option.some.injEq] at herr
  have hcut : ¬ s₀.CutOff (Env.linux 16) 16 [97] 1 false := by
    rintro ⟨-, hpos, hlt⟩
    rw [show blocksFor 1 = 1 from rfl] at hlt
    omega
  rcases hend.whole (by decide) hcut with ⟨-, hno⟩ | ⟨pos, hd, -, hall⟩
  · exact absurd herr hno
  · obtain ⟨L, q, hs, hfile, -, hfree⟩ := hd.namedFile rfl (by decide) (by decide) (by decide) hall
      fun fd hfd => congrArg Handle.usageCount (hh₀ fd hfd)
    exact ⟨s, L, q, _, hrun, hs, hfile, hfree⟩

/-- A file of two blocks is read alike. -/
theorem readers_agree_smallTree : ∃ s, furnished (Env.linux 16) smallTree (State.boot fun _ => Buf.zero) = some ((), s) ∧
    NamedFile (Env.linux 16) 16 s [97] (1, 0) [2, 3] ∧ (itemAt s.dev (1, 0)).size = 600 ∧
    ReadersAgree (Env.linux 16) s [97] (itemAt s.dev (1, 0)).size := by
  have he := Env.linux_neverFails 16
  obtain ⟨s, L, hrun, hs, -⟩ := furnished_ok he rfl (by omega) (by omega) (by decide) smallTree
      (State.boot fun _ => Buf.zero)
  have hfacts : (furnished (Env.linux 16) smallTree (State.boot fun _ => Buf.zero)).map (fun p =>
      ((p.2.lookup (Env.linux 16) 16 [97], (itemAt p.2.dev (1, 0)).type, (itemAt p.2.dev (1, 0)).size),
        follow p.2.dev 16 (itemAt p.2.dev (1, 0)).blk, (List.range 32).all fun fd => (p.2.handles fd).usageCount = 0)) =
      some ((some (1, 0), itemFile, 600), [2, 3], true) := by decide +kernel
  rw [hrun, Option.map_some, Option.some.injEq] at hfacts
  simp only [Prod.mk.injEq] at hfacts
  obtain ⟨⟨hlookup, htype, hsize⟩, hchain, hall⟩ := hfacts
  have hfree : ∀ g < 32, (s.handles g).usageCount = 0 := fun g hg =>
    of_decide_eq_true (List.all_eq_true.mp hall g (List.mem_range.mpr hg))
  have hunused : ∀ fd < 32, ¬ InUseOn s.handles (1, some 0) fd := by
    intro fd hfd huse
    have := huse.used
    rw [hfree fd hfd] at this
    omega
  have hfile : NamedFile (Env.linux 16) 16 s [97] (1, 0) [2, 3] :=
    ⟨by decide, hlookup, htype, hchain, by rw [hsize]; decide, by rw [hsize]; decide, fun fd hfd huse =>
      absurd huse (hunused fd hfd)⟩
  refine ⟨s, hrun, hfile, hsize, ?_⟩
  refine (readers_agree he (by decide) hs hfile ⟨0, by decide, hfree 0 (by decide)⟩).mpr ?_
  rintro ⟨fd, hfd, huse, -⟩
  exact hunused fd hfd huse

/-- After 255 opens it is not, with 31 handles free. -/
theorem readers_disagree : ∃ s t q c, withOneByte (Env.linux 16) (State.boot fun _ => Buf.zero) = some ((), s) ∧
    openTimes (Env.linux 16) [97] 255 s = some (List.replicate 255 0, t) ∧ NamedFile (Env.linux 16) 16 t [97] q c ∧
    (∀ g < 32, g ≠ 0 → (t.handles g).usageCount = 0) ∧ ¬ ReadersAgree (Env.linux 16) t [97] (itemAt t.dev q).size := by
  have he := Env.linux_neverFails 16
  obtain ⟨s, L, q, c, hrun, hs, hfile, hfree⟩ := withOneByte_ok
  obtain ⟨t₁, hfinds, hplace, hbuf⟩ := hs.findsFile he (by decide) hfile.named hfile.lookup hfile.file
  obtain ⟨r, s₁, hopen, hstep, hkeeps⟩ := hfinds.open
  obtain ⟨rfl, hh₁⟩ := hstep.only (by decide) hfree
  have hopened : OpenedTimes (Env.linux 16) 16 [97] q L 1 s₁ := by
    refine ⟨hkeeps.sys hs, hkeeps.lookup.trans hfile.lookup, hkeeps.dev ▸ hfile.file, ?_, ?_⟩
    · rw [hh₁, Function.update_self]
      exact hplace
    · rw [hh₁, Function.update_self]
      rfl
  obtain ⟨t, hopens, ht, hdev, hh⟩ := openTimes_count (k := 254) he (by decide) (by decide) hfile.named hopened
    (by decide) (by decide) (by decide)
  have hdev' : t.dev = s.dev := hdev.trans hkeeps.dev
  have hzero : t.handles 0 = { t₁.opened q.2 with usageCount := 255 } := by
    rw [hh, hh₁, Function.update_self, Function.update_self]
  have hothers : ∀ g < 32, g ≠ 0 → (t.handles g).usageCount = 0 := by
    intro g hg hne
    rw [hh, hh₁, Function.update_of_ne hne, Function.update_of_ne hne, hfree g hg]
  have huse : InUseOn t.handles (q.1, some q.2) 0 := ⟨by rw [ht.count]; decide, ht.place⟩
  have hnamed : NamedFile (Env.linux 16) 16 t [97] q c := by
    obtain ⟨hblk, hsize, hcursor⟩ := hfile.opened hs hbuf
    refine ⟨hfile.named, ht.lookup, ht.file, by rw [hdev']; exact hfile.chain, by rw [hdev']; exact hfile.nonempty,
      by rw [hdev']; exact hfile.cover, fun g hg hg' => ?_⟩
    obtain rfl : g = 0 := by
      by_contra hne
      have := hg'.used
      rw [hothers g hg hne] at this
      omega
    rw [hzero, hdev']
    exact ⟨hblk, hsize, hcursor⟩
  refine ⟨s, t, q, c, hrun, ?_, hnamed, hothers, ?_⟩
  · rw [openTimes, Prog.bind_some hopen, Prog.bind_some hopens]
    rfl
  · refine hnamed.disagree he (by decide) ht.toSys ⟨1, by decide, hothers 1 (by decide) (by decide)⟩
      ⟨0, by decide, huse, ?_, ?_⟩
    · exact fun g hg => absurd hg (Nat.not_lt_zero g)
    · rw [ht.count]

end TinyFs
