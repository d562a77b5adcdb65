/-
An open file as an array of bytes. `tfs_read` returns a range of it, and `tfs_write`
replaces one: the bytes in front of the offset and behind the data stay. What a write
behind the end leaves in the gap is what the last block holds there.
-/
import TinyFs.OpenFile
import TinyFs.ReadBack

namespace TinyFs

open Bytes Chains

variable {e : Env} {n : Nat} {s s' : State} {L : Layout} {fd len offset size : Nat} {c c' C : List Nat} {q : Nat × Nat}
  {cs : List (List Nat)} {xs : List Nat} {data l : List UInt8} {dev dev' : Nat → Block}

/-- The bytes of the file behind a handle. -/
def State.bytes (n : Nat) (s : State) (fd : Nat) : List UInt8 := fileBytes s.dev (s.fileOf n fd) 0 (s.handles fd).size

/-- Every `tfs_read` returns what the bytes `l` are in its range. -/
def Reads (e : Env) (fd : Nat) (s : State) (l : List UInt8) : Prop := ∀ len offset, offset < 2 ^ 32 →
  ∃ s', tfsRead e fd len offset s = some ((min len (l.length - offset), (l.drop offset).take len), s') ∧
    s'.tfsLastError = .ok

/-! ## Lists of bytes -/

@[simp] theorem fileBytes_length (dev : Nat → Block) (c : List Nat) (o m : Nat) : (fileBytes dev c o m).length = m := by
  rw [fileBytes, List.length_map, List.length_range]

theorem fileBytes_drop (dev : Nat → Block) (c : List Nat) (o m k : Nat) :
    (fileBytes dev c o m).drop k = fileBytes dev c (o + k) (m - k) := by
  by_cases hk : k ≤ m
  · have hsplit := fileBytes_add dev c o k (m - k)
    rw [Nat.add_sub_cancel' hk] at hsplit
    rw [hsplit, List.drop_append_of_le_length (by simp), List.drop_eq_nil_of_le (by simp), List.nil_append]
  · rw [List.drop_eq_nil_of_le (by rw [fileBytes_length]; omega), show m - k = 0 by omega, fileBytes_zero]

theorem fileBytes_take (dev : Nat → Block) (c : List Nat) (o m k : Nat) :
    (fileBytes dev c o m).take k = fileBytes dev c o (min k m) := by
  by_cases hk : k ≤ m
  · have hsplit := fileBytes_add dev c o k (m - k)
    rw [Nat.add_sub_cancel' hk] at hsplit
    rw [hsplit, List.take_append_of_le_length (by simp), List.take_of_length_le (by simp), Nat.min_eq_left hk]
  · rw [List.take_of_length_le (by rw [fileBytes_length]; omega), Nat.min_eq_right (by omega)]

theorem fileBytes_congr {o m : Nat}
    (h : ∀ k < m, fileContent dev' c' (o + k) = fileContent dev c (o + k)) :
    fileBytes dev' c' o m = fileBytes dev c o m :=
  List.map_congr_left fun k hk => h k (List.mem_range.mp hk)

/-! ## Reading -/

/-- A file whose blocks cover its size. -/
theorem Readable.reads (he : e.NeverFails) (h : Readable e fd s c) (hfd : fd < e.maxFds)
    (hcover : (s.handles fd).size ≤ dataLen * c.length) : Reads e fd s (fileBytes s.dev c 0 (s.handles fd).size) := by
  intro len offset h32
  obtain ⟨b, p, v, lg, hrun, -⟩ := tfsRead_ok (m := min len ((s.handles fd).size - offset)) he h hfd h32
    (show _ = min (min len _) _ by omega)
  refine ⟨{ s.seekTo fd b p v lg with tfsLastError := .ok }, ?_, rfl⟩
  rw [hrun, fileBytes_length, fileBytes_drop, fileBytes_take, Nat.zero_add, Nat.min_comm]

/-- A file that ends before its size does not read as one of that size. -/
theorem Readable.not_reads (he : e.NeverFails) (h : Readable e fd s c) (hfd : fd < e.maxFds)
    (hshort : dataLen * c.length < (s.handles fd).size) (hl : l.length = (s.handles fd).size) : ¬ Reads e fd s l := by
  intro hread
  obtain ⟨s₁, hrun₁, -⟩ := hread (s.handles fd).size 0 (by decide)
  obtain ⟨b, p, v, lg, hrun₂, -⟩ := tfsRead_ok (m := dataLen * c.length) he h hfd
    (by decide : 0 < 2 ^ 32) (show _ = min (min (s.handles fd).size _) _ by omega)
  rw [hrun₁, Option.some.injEq, Prod.mk.injEq, Prod.mk.injEq] at hrun₂
  omega

/-- A file reads as one list of bytes only. -/
theorem Reads.unique {l' : List UInt8} (h : Reads e fd s l) (h' : Reads e fd s l') (hlen : l.length = l'.length) :
    l = l' := by
  obtain ⟨s₁, hrun₁, -⟩ := h l.length 0 (by decide)
  obtain ⟨s₂, hrun₂, -⟩ := h' l.length 0 (by decide)
  rw [hrun₁, Option.some.injEq, Prod.mk.injEq, Prod.mk.injEq] at hrun₂
  have heq := hrun₂.1.2
  rwa [List.drop_zero, List.drop_zero, List.take_of_length_le (Nat.le_refl _), List.take_of_length_le (by omega)] at heq

/-! ## Writing -/

/-- The bytes `data` put in at `offset`, with zeros where the list is too short for it. -/
def splice (l data : List UInt8) (offset : Nat) : List UInt8 :=
  l.take offset ++ List.replicate (offset - l.length) 0 ++ data ++ l.drop (offset + data.length)

theorem fileBytes_overwrite (h : fileContent dev' c' = Chunks.overwrite (fileContent dev c) offset
    (fun j => data.getD j 0) len) (hdata : data.length = len) : fileBytes dev' c' 0 (max size (offset + len)) =
      fileBytes dev c 0 offset ++ data ++ fileBytes dev c (offset + len) (size - (offset + len)) := by
  have hfront : fileBytes dev' c' 0 offset = fileBytes dev c 0 offset := fileBytes_congr fun k hk => by
    rw [h, Chunks.overwrite_out (by omega)]
  have hmid : fileBytes dev' c' offset len = data := by
    have hall := take_eq_map data (Nat.le_of_eq hdata.symm)
    rw [List.take_of_length_le (Nat.le_of_eq hdata)] at hall
    rw [hall, fileBytes]
    refine List.map_congr_left fun k hk => ?_
    have hk : k < len := List.mem_range.mp hk
    rw [h, Chunks.overwrite_in (by omega) (by omega), Nat.add_sub_cancel_left]
  have hback : fileBytes dev' c' (offset + len) (size - (offset + len)) = fileBytes dev c (offset + len)
      (size - (offset + len)) :=
    fileBytes_congr fun k hk => by rw [h, Chunks.overwrite_out (by omega)]
  have hsplit : max size (offset + len) = offset + len + (size - (offset + len)) := by omega
  rw [hsplit, fileBytes_add, fileBytes_add, Nat.zero_add, Nat.zero_add, hfront, hmid, hback]

/-- The bytes in front of a write, and those behind it. -/
theorem splice_fileBytes (hdata : data.length = len) (hgap : ∀ p, size ≤ p → p < offset → fileContent dev c p = 0) :
    splice (fileBytes dev c 0 size) data offset =
      fileBytes dev c 0 offset ++ data ++ fileBytes dev c (offset + len) (size - (offset + len)) := by
  have hfront : (fileBytes dev c 0 size).take offset ++ List.replicate (offset - size) 0 = fileBytes dev c 0 offset := by
    rw [fileBytes_take]
    by_cases ho : offset ≤ size
    · rw [Nat.sub_eq_zero_of_le ho, Nat.min_eq_left ho]
      exact List.append_nil _
    · have hzero : fileBytes dev c size (offset - size) = List.replicate (offset - size) 0 := by
        refine List.eq_replicate_iff.mpr ⟨fileBytes_length .., fun x hx => ?_⟩
        obtain ⟨k, hk, rfl⟩ := List.mem_map.mp hx
        have hk := List.mem_range.mp hk
        exact hgap _ (by omega) (by omega)
      have hsplit := fileBytes_add dev c 0 size (offset - size)
      rw [Nat.zero_add, Nat.add_sub_cancel' (by omega)] at hsplit
      rw [Nat.min_eq_right (by omega), ← hzero, hsplit]
  rw [splice, fileBytes_length, hfront, hdata, fileBytes_drop, Nat.zero_add]

/-- The blocks the disk has for the file: its own and the free ones. -/
def State.capacity (n : Nat) (s : State) (fd : Nat) : Nat := (s.fileOf n fd).length + freeCount n s.dev

theorem lastIdx_lt {k : Nat} (hpos : 0 < len) : (offset + len - 1) / dataLen + 1 ≤ k ↔ offset + len ≤ dataLen * k := by
  rw [Nat.succ_le_iff, Nat.div_lt_iff_lt_mul (by decide), Nat.mul_comm]
  omega

/-- The blocks of a file that grew cover its size. -/
theorem covered_max {k : Nat} (hcover : size ≤ dataLen * k) (hpos : 0 < len) :
    max size (offset + len) ≤ dataLen * max k ((offset + len - 1) / dataLen + 1) := by
  have hmul : dataLen * max k ((offset + len - 1) / dataLen + 1) =
      max (dataLen * k) (dataLen * ((offset + len - 1) / dataLen + 1)) := Nat.mul_max_mul_left _ _ _ |>.symm
  have hnew := (lastIdx_lt (k := (offset + len - 1) / dataLen + 1) hpos).mp (Nat.le_refl _)
  rw [hmul]
  omega

/-- `tfs_write` where the disk has room, and what it leaves alone. -/
theorem OpenFile.stores (he : e.NeverFails) (hf : n ≤ e.fuel) (h : OpenFile n s L fd C q c)
    (hfd : fd < e.maxFds) (hpos : 0 < len) (h32 : offset + len < 2 ^ 32) (hdata : data.length = len)
    (hroom : offset + len ≤ dataLen * s.capacity n fd) :
    ∃ s' c', tfsWrite e fd data len offset s = some (len, s') ∧ s'.tfsLastError = .ok ∧
    OpenFile n s' (L.refile C c c') fd C q c' ∧
      FdFrame fd s s' ∧ OthersKept s s' L (L.refile C c c') c q ∧ c'.length = max c.length
        ((offset + len - 1) / dataLen + 1) ∧
      c'.length + freeCount n s'.dev = c.length + freeCount n s.dev ∧
      (s'.handles fd).size = max (s.handles fd).size (offset + len) ∧
      s'.bytes n fd = fileBytes s.dev c 0 offset ++ data ++
        fileBytes s.dev c (offset + len) ((s.handles fd).size - (offset + len)) := by
  rw [State.capacity, h.opened.fileOf] at hroom
  have hblocks := (lastIdx_lt hpos).mpr hroom
  have hidx : dataLen * ((offset + len - 1) / dataLen) ≤ offset + len - 1 := Nat.mul_div_le _ _
  have hmin : dataLen * min ((offset + len - 1) / dataLen) (c.length + freeCount n s.dev - 1) ≤
      dataLen * ((offset + len - 1) / dataLen) := Nat.mul_le_mul_left _ (Nat.min_le_left _ _)
  obtain ⟨k, s', hrun, hwrote⟩ := tfsWrite_ok he hf h.opened hfd data hpos (by omega) (by omega) (.inr (.inl hblocks))
  cases hwrote with
  | done hopen herr _hon hpre hlen hag hfr hw hcont hsize =>
    rename_i c' dev₁
    have hdev := h.stored hopen hag hfr hw h32
    have hsize := hsize h32
    have hadd := h.opened.owned.freeCount_add hopen.owned
    simp only [List.length_append] at hadd
    rw [Nat.mod_eq_of_lt (by omega)] at hrun
    refine ⟨s', c', hrun, herr, h.updated hopen hag hfr hdev, hfr, h.others hopen hag hfr hdev, hlen, by omega, hsize, ?_⟩
    rw [State.bytes, hopen.fileOf, hsize, fileBytes_overwrite hcont hdata]
  | full _ hopen _ _ hshort hfull =>
    have := h.opened.length_full hopen.toFileData hfull
    rw [this] at hshort
    omega
  | astray _ _ _ _ hlen hshort =>
    rw [hlen] at hshort
    omega

theorem OpenFile.written (he : e.NeverFails) (hf : n ≤ e.fuel) (h : OpenFile n s L fd C q c) (hfd : fd < e.maxFds)
    (hcover : (s.handles fd).size ≤ dataLen * c.length) (hpos : 0 < len) (h32 : offset + len < 2 ^ 32)
    (hdata : data.length = len) (hroom : offset + len ≤ dataLen * s.capacity n fd) :
    ∃ s' c', tfsWrite e fd data len offset s = some (len, s') ∧ s'.tfsLastError = .ok ∧
    OpenFile n s' (L.refile C c c') fd C q c' ∧
      (s'.handles fd).size = max (s.handles fd).size (offset + len) ∧ (s'.handles fd).size ≤ dataLen * c'.length ∧
      s'.bytes n fd = fileBytes s.dev c 0 offset ++ data ++
        fileBytes s.dev c (offset + len) ((s.handles fd).size - (offset + len)) := by
  obtain ⟨s', c', hrun, herr, hfile, -, -, hlen, -, hsize, hnew⟩ := h.stores he hf hfd hpos h32 hdata hroom
  refine ⟨s', c', hrun, herr, hfile, hsize, ?_, hnew⟩
  rw [hsize, hlen]
  exact covered_max hcover hpos

/-- `tfs_write` on a full disk: it says so, or, on a drive that sets `tfs_last_error`,
ends well with a file that is shorter than its size. -/
theorem OpenFile.overfull (he : e.NeverFails) (hf : n ≤ e.fuel) (h : OpenFile n s L fd C q c) (hfd : fd < e.maxFds)
    (hpos : 0 < len) (h32 : offset + len < 2 ^ 32) (hfuel : e.drive.setsOk = false ∨ offset + len < e.fuel)
    (hfull : dataLen * s.capacity n fd < offset + len) : ∃ k s', tfsWrite e fd data len offset s = some (k, s') ∧
      ((e.drive.setsOk = false ∨ s.capacity n fd = 0) ∧ s'.tfsLastError = .diskFull ∨
        ¬ (e.drive.setsOk = false ∨ s.capacity n fd = 0) ∧ s'.tfsLastError = .ok ∧
        (s'.handles fd).size = max (s.handles fd).size (offset + len) ∧
        ∃ c', Readable e fd s' c' ∧ dataLen * c'.length < offset + len) := by
  rw [State.capacity, h.opened.fileOf] at hfull ⊢
  have hidx : dataLen * ((offset + len - 1) / dataLen) ≤ offset + len - 1 := Nat.mul_div_le _ _
  have hmin : dataLen * min ((offset + len - 1) / dataLen) (c.length + freeCount n s.dev - 1) ≤
      dataLen * ((offset + len - 1) / dataLen) := Nat.mul_le_mul_left _ (Nat.min_le_left _ _)
  obtain ⟨k, s', hrun, hwrote⟩ := tfsWrite_ok he hf h.opened hfd data hpos (by omega) (by omega) (hfuel.imp_right .inr)
  cases hwrote with
  | done hopen _ _ _ hlen _ _ _ _ _ =>
    rename_i c' dev₁
    have hadd := h.opened.owned.freeCount_add hopen.owned
    simp only [List.length_append] at hadd
    have hle : (offset + len - 1) / dataLen + 1 ≤ c.length + freeCount n s.dev := by omega
    have := (lastIdx_lt hpos).mp hle
    omega
  | full hsets hopen herr _ _ hfull' =>
    have hlen := h.opened.length_full hopen.toFileData hfull'
    refine ⟨_, s', hrun, .inl ⟨?_, herr⟩⟩
    by_cases hzero : c.length + freeCount n s.dev = 0
    · exact .inr hzero
    · refine .inl (hsets fun hnil => ?_)
      rw [hnil, List.length_nil] at hlen
      omega
  | astray hsets hread hne _ hlen hshort herr _ hsize =>
    refine ⟨_, s', hrun, .inr ⟨?_, herr, hsize h32, _, hread, hshort⟩⟩
    rintro (hno | hzero)
    · rw [hsets] at hno
      cases hno
    · exact hne (List.eq_nil_of_length_eq_zero (by omega))

/-! ## A write behind the end -/

/-- The last block of the file holds zeros from its end to `offset`. -/
def GapClear (n : Nat) (s : State) (fd offset : Nat) : Prop :=
  ∀ p, (s.handles fd).size ≤ p → p < offset → fileContent s.dev (s.fileOf n fd) p = 0

/-- **The gap in front of a write behind the end** reads as zeros exactly where the last block of the file
holds zeros there, or the write ends with an error. -/
theorem gap_zeros (he : e.NeverFails) (hf : n ≤ e.fuel) (h : OpenFile n s L fd C q c) (hfd : fd < e.maxFds)
    (hcover : (s.handles fd).size ≤ dataLen * c.length) (hgap : (s.handles fd).size < offset) (hpos : 0 < len)
    (h32 : offset + len < 2 ^ 32) (hfuel : offset + len < e.fuel) (hdata : data.length = len) :
    ∃ k s', tfsWrite e fd data len offset s = some (k, s') ∧
      ((s'.tfsLastError = .ok →
          Reads e fd s' (s.bytes n fd ++ List.replicate (offset - (s.handles fd).size) 0 ++ data)) ↔
        (offset + len ≤ dataLen * s.capacity n fd → GapClear n s fd offset) ∧
        (dataLen * s.capacity n fd < offset + len → e.drive.setsOk = false ∨ s.capacity n fd = 0)) := by
  have hbytes : s.bytes n fd = fileBytes s.dev c 0 (s.handles fd).size := by rw [State.bytes, h.opened.fileOf]
  have hlength : (s.bytes n fd ++ List.replicate (offset - (s.handles fd).size) 0 ++ data).length = offset + len := by
    rw [hbytes, List.length_append, List.length_append, fileBytes_length, List.length_replicate, hdata]
    omega
  by_cases hroom : offset + len ≤ dataLen * s.capacity n fd
  · obtain ⟨s', c', hrun, herr, hfile, hsize, hcover', hnew⟩ := h.written he hf hfd hcover hpos h32 hdata hroom
    rw [show (s.handles fd).size - (offset + len) = 0 by omega, fileBytes_zero, List.append_nil] at hnew
    have hread := (hfile.opened.readable hf).reads he hfd hcover'
    rw [← hfile.opened.fileOf, ← State.bytes, hnew] at hread
    refine ⟨len, s', hrun, ⟨fun hall => ⟨fun _ p hlo hhi => ?_, fun hlt => absurd hroom (by omega)⟩, fun hcond _ => ?_⟩⟩
    · have heq := hread.unique (hall herr) (by rw [hlength, List.length_append, fileBytes_length, hdata])
      have hget := congrArg (fun l => l[p]?) (List.append_cancel_right heq)
      rw [h.opened.fileOf]
      simp only [hbytes] at hget
      rw [List.getElem?_append_right (by rw [fileBytes_length]; omega), fileBytes_length, List.getElem?_replicate,
        if_pos (by omega),
        fileBytes, List.getElem?_map, List.getElem?_range hhi, Option.map_some, Option.some.injEq, Nat.zero_add] at hget
      exact hget
    · have hclear := hcond.1 hroom
      rw [GapClear, h.opened.fileOf] at hclear
      have hsplice := splice_fileBytes hdata hclear
      rw [splice, fileBytes_length, fileBytes_take, Nat.min_eq_right (by omega), List.drop_eq_nil_of_le
        (by rw [fileBytes_length]; omega), List.append_nil, show (s.handles fd).size - (offset + len) =
          0 by omega, fileBytes_zero, List.append_nil] at hsplice
      rw [hbytes, hsplice]
      exact hread
  · have hfull : dataLen * s.capacity n fd < offset + len := by omega
    obtain ⟨k, s', hrun, ⟨hcond, herr⟩ | ⟨hcond, herr, hsize, c', hread, hshort⟩⟩ :=
      h.overfull he hf hfd hpos h32 (.inr hfuel) hfull
    · refine ⟨k, s', hrun, ⟨fun _ => ⟨fun hle => absurd hle hroom, fun _ => hcond⟩, fun _ hok => ?_⟩⟩
      rw [herr] at hok
      cases hok
    · refine ⟨k, s', hrun, ⟨fun hall => ?_, fun hall => absurd (hall.2 hfull) hcond⟩⟩
      exact absurd (hall herr) (hread.not_reads he hfd (by omega) (by omega))

/-- One byte behind a gap in an empty file. -/
theorem gap_zeros_empty : ∃ s s' k t, withEmptyFile (Env.linux 16) (State.boot fun _ => Buf.zero) = some ((), s) ∧
    tfsOpen (Env.linux 16) [97] s = some (((0 : Nat) : Int), s') ∧
    tfsWrite (Env.linux 16) 0 [7] 1 10 s' = some (k, t) ∧
    (t.tfsLastError = .ok → Reads (Env.linux 16) 0 t (List.replicate 10 0 ++ [7])) := by
  have he := Env.linux_neverFails 16
  obtain ⟨s, s', L, hrun, hs, hopen, hnew, hempty⟩ := openEmpty_sixteen
  obtain ⟨C, q, c, hfile, -⟩ := tfsOpen_ok he (by decide) hs hopen hnew
  have hbytes : s'.bytes 16 0 = [] := by
    rw [State.bytes, hempty.1, fileBytes_zero]
  have hc : s'.fileOf 16 0 = [] := by
    rw [State.fileOf, hempty.2]
    rfl
  obtain ⟨k, t, hwrite, hiff⟩ := gap_zeros he (by decide) hfile (by decide) (by rw [hempty.1]; exact Nat.zero_le _)
    (show _ < 10 by rw [hempty.1]; decide) (by decide) (by decide) (by decide) (show [(7 : UInt8)].length = 1 from rfl)
  refine ⟨s, s', k, t, hrun, hopen, hwrite, ?_⟩
  rw [hbytes, hempty.1] at hiff
  refine hiff.mpr ⟨fun _ p _ _ => ?_, fun _ => .inl rfl⟩
  rw [hc]
  exact Chunks.content_of_le (by decide) (Nat.zero_le _)

/-- A file of one byte, written right behind its directory: the gap holds bytes of that. -/
theorem gap_holds_entries : ∃ s s₁ s₂ s₃ s₄ m, formatted (Env.linux 16) (State.boot fun _ => Buf.zero) = some ((), s) ∧
    tfsWriteFile (Env.linux 16) [97] [1] 1 false s = some (m, s₁) ∧
    tfsOpen (Env.linux 16) [97] s₁ = some (((0 : Nat) : Int), s₂) ∧ (s₂.handles 0).size = 1 ∧
    tfsWrite (Env.linux 16) 0 [7] 1 30 s₂ = some (1, s₃) ∧ s₃.tfsLastError = .ok ∧ tfsRead (Env.linux 16) 0 31 0 s₃ =
      some ((31, [1, 0, 0, 0, 2, 0, 0, 0, 1, 0, 0, 0, 2, 97] ++ List.replicate 16 0 ++ [7]), s₄) ∧
    ¬ Reads (Env.linux 16) 0 s₃ ([1] ++ List.replicate 29 0 ++ [7]) := by
  have hrun : ((formatted (Env.linux 16) (State.boot fun _ => Buf.zero)).bind fun p =>
      (tfsWriteFile (Env.linux 16) [97] [1] 1 false p.2).bind fun a =>
      (tfsOpen (Env.linux 16) [97] a.2).bind fun o =>
      (tfsWrite (Env.linux 16) 0 [7] 1 30 o.2).bind fun w =>
      (tfsRead (Env.linux 16) 0 31 0 w.2).map fun r =>
      (o.1, ((o.2.handles 0).size, w.1), w.2.tfsLastError, r.1)) = some (0, (1, 1), .ok,
        (31, [1, 0, 0, 0, 2, 0, 0, 0, 1, 0, 0, 0, 2, 97] ++ List.replicate 16 0 ++ [7])) := by
    decide +kernel
  rw [Option.bind_eq_some_iff] at hrun
  obtain ⟨⟨_, s⟩, hs, hrun⟩ := hrun
  rw [Option.bind_eq_some_iff] at hrun
  obtain ⟨⟨m, s₁⟩, hs₁, hrun⟩ := hrun
  rw [Option.bind_eq_some_iff] at hrun
  obtain ⟨⟨fd, s₂⟩, hs₂, hrun⟩ := hrun
  rw [Option.bind_eq_some_iff] at hrun
  obtain ⟨⟨k, s₃⟩, hs₃, hrun⟩ := hrun
  rw [Option.map_eq_some_iff] at hrun
  obtain ⟨⟨r, s₄⟩, hs₄, hrun⟩ := hrun
  simp only [Prod.mk.injEq] at hrun
  obtain ⟨rfl, ⟨hsize, rfl⟩, herr, rfl⟩ := hrun
  refine ⟨s, s₁, s₂, s₃, s₄, m, hs, hs₁, hs₂, hsize, hs₃, herr, hs₄, fun hread => ?_⟩
  obtain ⟨s₅, hread, -⟩ := hread 31 0 (by decide)
  have hbytes := hs₄.symm.trans hread
  rw [Option.some.injEq, Prod.mk.injEq, Prod.mk.injEq] at hbytes
  exact absurd hbytes.1.2 (by decide)

/-! ## Runs of reads and writes -/

/-- The calls that read and write an open file. -/
inductive IoCall
  | read (len offset : UInt32)
  | write (data : List UInt8) (len offset : UInt32)

/-- A call with what it returns: a count, and the bytes read. -/
def IoCall.exec (e : Env) (fd : Nat) : IoCall → M (Nat × List UInt8)
  | .read len offset => tfsRead e fd len.toNat offset.toNat
  | .write data len offset => do
    let k ← tfsWrite e fd data len.toNat offset.toNat
    pure (k, [])

/-- What the call does to an array of bytes. -/
def IoCall.onBytes (l : List UInt8) : IoCall → (Nat × List UInt8) × List UInt8
  | .read len offset => ((min len.toNat (l.length - offset.toNat), (l.drop offset.toNat).take len.toNat), l)
  | .write data len offset => ((len.toNat, []), l.take offset.toNat ++ data ++ l.drop (offset.toNat + len.toNat))

/-- Some bytes at or in front of the end of the file, in a call that ends well. -/
def IoCall.Admitted (e : Env) (fd : Nat) : IoCall → State → Prop
  | .read _ _, _ => True
  | .write data len offset, s => 0 < len.toNat ∧ offset.toNat ≤ (s.handles fd).size ∧ offset.toNat + len.toNat < 2 ^ 32 ∧
    data.length = len.toNat ∧ ∀ k s', tfsWrite e fd data len.toNat offset.toNat s = some (k, s') → s'.tfsLastError = .ok

/-- On a drive that sets `tfs_last_error`: the disk has room for the bytes. -/
def IoCall.Roomy (e : Env) (n fd : Nat) : IoCall → State → Prop
  | .read _ _, _ => True
  | .write _ len offset, s => e.drive.setsOk = true → offset.toNat + len.toNat ≤ dataLen * s.capacity n fd

/-- The file with the entry `q` is an array of bytes: its entry has the first block and the size of the handle, and
the calls do to its bytes what they do to an array. -/
structure ByteArrayFile (e : Env) (n fd : Nat) (q : Nat × Nat) (s : State) : Prop where
  blk : (itemAt s.dev q).blk = (s.handles fd).firstBlk
  size : (itemAt s.dev q).size = (s.handles fd).size
  call : ∀ call : IoCall, call.Admitted e fd s → call.Roomy e n fd s → ∃ s', call.exec e fd s =
    some ((call.onBytes (s.bytes n fd)).1, s') ∧ s'.tfsLastError = .ok ∧ s'.bytes n fd = (call.onBytes (s.bytes n fd)).2

/-- A file whose blocks cover its size. -/
def CoveredFile (n fd : Nat) (C : List Nat) (q : Nat × Nat) (s : State) : Prop :=
  ∃ L c, OpenFile n s L fd C q c ∧ (s.handles fd).size ≤ dataLen * c.length

/-- The bytes a call that ends well writes fit. -/
theorem OpenFile.roomy (he : e.NeverFails) (hf : n ≤ e.fuel) (h : OpenFile n s L fd C q c) (hfd : fd < e.maxFds)
    (hpos : 0 < len) (h32 : offset + len < 2 ^ 32)
    (hok : ∀ k s', tfsWrite e fd data len offset s = some (k, s') → s'.tfsLastError = .ok)
    (hroom : e.drive.setsOk = true → offset + len ≤ dataLen * s.capacity n fd) :
    offset + len ≤ dataLen * s.capacity n fd := by
  cases hsets : e.drive.setsOk with
  | true => exact hroom hsets
  | false =>
    by_contra hfull
    obtain ⟨k, s', hrun, ⟨-, herr⟩ | ⟨hno, -⟩⟩ := h.overfull he hf hfd hpos h32 (.inl hsets) (by omega)
    · have := hok k s' hrun
      rw [herr] at this
      cases this
    · exact hno (.inl hsets)

/-- **One call.** It does to the bytes of the file what it does to an array, and the blocks cover the size again. -/
theorem OpenFile.ioCall (he : e.NeverFails) (hf : n ≤ e.fuel) (h : OpenFile n s L fd C q c) (hfd : fd < e.maxFds)
    (hcover : (s.handles fd).size ≤ dataLen * c.length) {call : IoCall} (hadm : call.Admitted e fd s)
    (hroom : call.Roomy e n fd s) :
    ∃ s', call.exec e fd s = some ((call.onBytes (s.bytes n fd)).1, s') ∧ s'.tfsLastError = .ok ∧
      s'.bytes n fd = (call.onBytes (s.bytes n fd)).2 ∧ CoveredFile n fd C q s' := by
  have hbytes : s.bytes n fd = fileBytes s.dev c 0 (s.handles fd).size := by rw [State.bytes, h.opened.fileOf]
  cases call with
  | read len offset =>
    obtain ⟨b, p, v, lg, hrun, hcur⟩ := tfsRead_ok he (h.opened.readable hf) hfd offset.toNat_lt rfl
    have hh : (s.seekTo fd b p v lg).handles fd = _ := State.seekTo_handle ..
    have hsize := congrArg Handle.size hh
    have hfile := h.moved (v := v) (l := lg) (show Err.ok ≠ .noDev from Err.noConfusion) hcur
    obtain ⟨s', hs'⟩ : ∃ s', s' = { s.seekTo fd b p v lg with tfsLastError := .ok } := ⟨_, rfl⟩
    rw [← hs'] at hrun hfile
    have hdev : s'.dev = s.dev := by rw [hs']; rfl
    have hsize' : (s'.handles fd).size = (s.handles fd).size := by rw [hs']; exact hsize
    refine ⟨s', ?_, by rw [hs'], ?_, _, c, hfile, hsize'.trans_le hcover⟩
    · show tfsRead e fd len.toNat offset.toNat s = _
      rw [hrun, hbytes, Nat.min_eq_left (a := min len.toNat _) (by omega)]
      show _ = some ((min len.toNat (List.length _ - _), List.take _ (List.drop _ _)), s')
      rw [fileBytes_length, fileBytes_drop, fileBytes_take, Nat.zero_add, Nat.min_comm len.toNat]
    · show _ = s.bytes n fd
      rw [hbytes, State.bytes, hfile.opened.fileOf, hdev, hsize']
  | write data len offset =>
    obtain ⟨hpos, hin, h32, hdata, hok⟩ := hadm
    obtain ⟨s', c', hrun, herr, hfile, -, hcover', hnew⟩ :=
      h.written he hf hfd hcover hpos h32 hdata (h.roomy he hf hfd hpos h32 hok hroom)
    refine ⟨s', (Prog.bind_some hrun).trans rfl, herr, ?_, _, c', hfile, hcover'⟩
    rw [hnew, hbytes]
    show _ = List.take _ _ ++ _ ++ List.drop _ _
    rw [fileBytes_take, fileBytes_drop, Nat.min_eq_left hin, Nat.zero_add]

/-- **In every run** of calls that end well and find room, a file whose blocks cover its size is an array of bytes. -/
theorem handle_bytes (he : e.NeverFails) (hf : n ≤ e.fuel) (hfd : fd < e.maxFds) (h : OpenFile n s L fd C q c)
    (hcover : (s.handles fd).size ≤ dataLen * c.length) {t : State}
    (hrun : Prog.GuardedRun (fun call : IoCall => call.exec e fd >>= fun _ => pure ())
      (fun call s => call.Admitted e fd s ∧ call.Roomy e n fd s) s t) :
    ByteArrayFile e n fd q t := by
  obtain ⟨L', c', h', hcover'⟩ : CoveredFile n fd C q t := by
    refine hrun.keeps (I := CoveredFile n fd C q) (fun call s₁ s₂ hI hok hstep => ?_) ⟨L, c, h, hcover⟩
    obtain ⟨L₁, c₁, h₁, hcover₁⟩ := hI
    obtain ⟨s', hcall, -, -, hcov⟩ := h₁.ioCall he hf hfd hcover₁ hok.1 hok.2
    rw [Prog.bind_some hcall] at hstep
    cases hstep
    exact hcov
  refine ⟨h'.blk, h'.size, fun call hadm hroom => ?_⟩
  obtain ⟨s', hcall, herr, hbytes, -⟩ := h'.ioCall he hf hfd hcover' hadm hroom
  exact ⟨s', hcall, herr, hbytes⟩

/-- Two blocks are written to an empty file, read across the border between them, and overwritten and continued
at their end. -/
theorem handle_bytes_blocks : ∃ s s' q t₁ t₂ t, withEmptyFile (Env.linux 16) (State.boot fun _ => Buf.zero) =
    some ((), s) ∧
    tfsOpen (Env.linux 16) [97] s = some (((0 : Nat) : Int), s') ∧
    (IoCall.write (List.replicate 600 7) 600 0).exec (Env.linux 16) 0 s' = some ((600, []), t₁) ∧
    (IoCall.read 100 450).exec (Env.linux 16) 0 t₁ = some ((100, List.replicate 100 7), t₂) ∧
    (IoCall.write (List.replicate 20 8) 20 590).exec (Env.linux 16) 0 t₂ = some ((20, []), t) ∧
    t.bytes 16 0 = List.replicate 590 7 ++ List.replicate 20 8 ∧ ByteArrayFile (Env.linux 16) 16 0 q t := by
  have he := Env.linux_neverFails 16
  obtain ⟨s, s', L, hrun, hs, hopen, hnew, hempty⟩ := openEmpty_sixteen
  obtain ⟨C, q, c, hfile, -⟩ := tfsOpen_ok he (by decide) hs hopen hnew
  have hcalls : ((withEmptyFile (Env.linux 16) (State.boot fun _ => Buf.zero)).bind fun p =>
      (tfsOpen (Env.linux 16) [97] p.2).bind fun o =>
      (tfsWrite (Env.linux 16) 0 (List.replicate 600 7) 600 0 o.2).bind fun w₁ =>
      (tfsRead (Env.linux 16) 0 100 450 w₁.2).bind fun r =>
      (tfsWrite (Env.linux 16) 0 (List.replicate 20 8) 20 590 r.2).map fun w₂ =>
        ((w₁.1, w₁.2.tfsLastError), (r.1, (r.2.handles 0).size), (w₂.1, w₂.2.tfsLastError), w₂.2.bytes 16 0)) =
      some ((600, .ok), ((100, List.replicate 100 7), 600), (20, .ok), List.replicate 590 7 ++ List.replicate 20 8) := by
    decide +kernel
  rw [hrun, Option.bind_some, hopen, Option.bind_some, Option.bind_eq_some_iff] at hcalls
  obtain ⟨⟨k₁, t₁⟩, hwrite₁, hcalls⟩ := hcalls
  obtain ⟨⟨r, t₂⟩, hread, hcalls⟩ := Option.bind_eq_some_iff.mp hcalls
  obtain ⟨⟨k₂, t⟩, hwrite₂, hend⟩ := Option.map_eq_some_iff.mp hcalls
  simp only [Prod.mk.injEq] at hend
  obtain ⟨⟨rfl, herr₁⟩, ⟨rfl, hsize⟩, ⟨rfl, herr₂⟩, hbytes⟩ := hend
  have hcall₁ : (IoCall.write (List.replicate 600 7) 600 0).exec (Env.linux 16) 0 s' = some ((600, []), t₁) :=
    (Prog.bind_some hwrite₁).trans rfl
  have hcall₂ : (IoCall.write (List.replicate 20 8) 20 590).exec (Env.linux 16) 0 t₂ = some ((20, []), t) :=
    (Prog.bind_some hwrite₂).trans rfl
  have hadm₁ : (IoCall.write (List.replicate 600 7) 600 0).Admitted (Env.linux 16) 0 s' := by
    refine ⟨by decide, Nat.zero_le _, by decide, List.length_replicate, fun k t' ht => ?_⟩
    have heq : t₁ = t' := congrArg Prod.snd (Option.some.inj (hwrite₁.symm.trans ht))
    rw [← heq, herr₁]
  have hadm₂ : (IoCall.write (List.replicate 20 8) 20 590).Admitted (Env.linux 16) 0 t₂ := by
    refine ⟨by decide, by rw [hsize]; decide, by decide, List.length_replicate, fun k t' ht => ?_⟩
    have heq : t = t' := congrArg Prod.snd (Option.some.inj (hwrite₂.symm.trans ht))
    rw [← heq, herr₂]
  refine ⟨s, s', q, t₁, t₂, t, hrun, hopen, hcall₁, hread, hcall₂, hbytes, ?_⟩
  refine handle_bytes he (by decide) (by decide) hfile (by rw [hempty.1]; exact Nat.zero_le _) ?_
  have hcall : (IoCall.read 100 450).exec (Env.linux 16) 0 t₁ = some ((100, List.replicate 100 7), t₂) := hread
  have hadm : (IoCall.read 100 450).Admitted (Env.linux 16) 0 t₁ ∧ (IoCall.read 100 450).Roomy (Env.linux 16) 16 0 t₁ :=
    ⟨trivial, trivial⟩
  exact .cons ⟨hadm₁, nofun⟩ ((Prog.bind_some hcall₁).trans rfl) (.cons hadm ((Prog.bind_some hcall).trans rfl)
    (.cons ⟨hadm₂, nofun⟩ ((Prog.bind_some hcall₂).trans rfl) .nil))

/-- On a full drive of three blocks that sets `tfs_last_error`, a byte written behind the only block of the file
counts, but does not read back. -/
theorem write_not_stored : ∃ s s₁ s₂ s₃ s₄ s₅ s₆ r, withEmptyFile (Env.documented 3) (State.boot fun _ => Buf.zero) =
    some ((), s) ∧
    tfsOpen (Env.documented 3) [97] s = some (((0 : Nat) : Int), s₁) ∧
    tfsWrite (Env.documented 3) 0 [7] 1 503 s₁ = some (1, s₂) ∧ tfsClose (Env.documented 3) 0 s₂ = some ((), s₃) ∧
    tfsOpen (Env.documented 3) [97] s₃ = some (((0 : Nat) : Int), s₄) ∧
    (s₄.handles 0).size = 504 ∧ (s₄.fileOf 3 0).length = 1 ∧
    tfsWrite (Env.documented 3) 0 [7] 1 504 s₄ = some (1, s₅) ∧ s₅.tfsLastError = .ok ∧
    tfsRead (Env.documented 3) 0 1 504 s₅ = some (r, s₆) ∧ s₆.tfsLastError = .ok ∧ r.1 = 0 := by
  have hrun : ((withEmptyFile (Env.documented 3) (State.boot fun _ => Buf.zero)).bind fun p =>
      (tfsOpen (Env.documented 3) [97] p.2).bind fun o₁ =>
      (tfsWrite (Env.documented 3) 0 [7] 1 503 o₁.2).bind fun w₁ =>
      (tfsClose (Env.documented 3) 0 w₁.2).bind fun x =>
      (tfsOpen (Env.documented 3) [97] x.2).bind fun o₂ =>
      (tfsWrite (Env.documented 3) 0 [7] 1 504 o₂.2).bind fun w₂ =>
      (tfsRead (Env.documented 3) 0 1 504 w₂.2).map fun r => ([o₁.1, o₂.1],
        [w₁.1, (o₂.2.handles 0).size, (o₂.2.fileOf 3 0).length, w₂.1, r.1.1], [w₂.2.tfsLastError, r.2.tfsLastError])) =
      some ([0, 0], [1, 504, 1, 1, 0], [.ok, .ok]) := by
    decide +kernel
  rw [Option.bind_eq_some_iff] at hrun
  obtain ⟨⟨_, s⟩, hs, hrun⟩ := hrun
  rw [Option.bind_eq_some_iff] at hrun
  obtain ⟨⟨fd₁, s₁⟩, hs₁, hrun⟩ := hrun
  rw [Option.bind_eq_some_iff] at hrun
  obtain ⟨⟨k₁, s₂⟩, hs₂, hrun⟩ := hrun
  rw [Option.bind_eq_some_iff] at hrun
  obtain ⟨⟨_, s₃⟩, hs₃, hrun⟩ := hrun
  rw [Option.bind_eq_some_iff] at hrun
  obtain ⟨⟨fd₂, s₄⟩, hs₄, hrun⟩ := hrun
  rw [Option.bind_eq_some_iff] at hrun
  obtain ⟨⟨k₂, s₅⟩, hs₅, hrun⟩ := hrun
  rw [Option.map_eq_some_iff] at hrun
  obtain ⟨⟨r, s₆⟩, hs₆, hrun⟩ := hrun
  simp only [Prod.mk.injEq, List.cons.injEq, and_true] at hrun
  obtain ⟨⟨rfl, rfl⟩, ⟨rfl, hsize, hlen, rfl, hr⟩, herr₅, herr₆⟩ := hrun
  exact ⟨s, s₁, s₂, s₃, s₄, s₅, s₆, r, hs, hs₁, hs₂, hs₃, hs₄, hsize, hlen, hs₅, herr₅, hs₆, herr₆, hr⟩

end TinyFs
