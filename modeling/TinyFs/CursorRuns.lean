/-
The cursor of a handle over whole runs. Wherever the calls on a handle leave it, it is
on a block of the file or nowhere, and a later `seek` ends as it would from the start
of the file. The calls that go wrong are those that write on after a failed allocation,
on a drive that sets `tfs_last_error`, and those that reach the 32-bit end of the positions.
-/
import TinyFs.OpenFile

namespace TinyFs

open Bytes Chains

variable {e : Env} {n : Nat} {s s' : State} {L : Layout} {fd : Nat} {c : List Nat} {cs : List (List Nat)} {xs : List Nat}
  {name : List UInt8}

/-! ## The calls on a handle -/

/-- The calls on an open file. -/
inductive FileCall
  | read (len offset : UInt32)
  | write (data : List UInt8) (len offset : UInt32)
  | trunc (size : UInt32)

def FileCall.exec (e : Env) (fd : Nat) : FileCall → M Unit
  | .read len offset => do
    let _ ← tfsRead e fd len.toNat offset.toNat
    pure ()
  | .write data len offset => do
    let _ ← tfsWrite e fd data len.toNat offset.toNat
    pure ()
  | .trunc size => tfsTrunc e fd size.toNat

/-- The disk has room for the file to have `need` blocks, or `alloc_block` can report that it has not. -/
def Room (e : Env) (n fd : Nat) (s : State) (need : Nat) : Prop :=
  e.drive.setsOk = false ∨ need ≤ (s.fileOf n fd).length + freeCount n s.dev

/-- The calls that leave the cursor right: those that write some bytes, where the disk
has room for them or the drive leaves `tfs_last_error`, and the blocks written start
below position 2 ^ 32; and all others with room. -/
def FileCall.Fits (e : Env) (n fd : Nat) : FileCall → State → Prop
  | .read _ _, _ => True
  | .write _ len offset, s => 0 < len.toNat ∧ Room e n fd s ((offset.toNat + len.toNat - 1) / dataLen + 1) ∧
    dataLen * min ((offset.toNat + len.toNat - 1) / dataLen) ((s.fileOf n fd).length + freeCount n s.dev - 1) < 2 ^ 32
  | .trunc size, s => size.toNat ≠ 0 → Room e n fd s (size.toNat / dataLen + 1)

/-- A handle that is not there: the call ends with an error. -/
theorem FileCall.exec_invalid (h : Opened n fd cs xs s c) (hfd : ¬ fd < e.maxFds) (call : FileCall) :
    ∃ s', call.exec e fd s = some ((), s') ∧ Opened n fd cs xs s' c := by
  have hinv : invalidFd e s.started fd := .inr (.inl (by omega))
  have hopen : Opened n fd cs xs ({ s.started with tfsLastError := .invalFd }.call .deselect) c :=
    ⟨⟨⟨h.mounted, h.cache, h.owned⟩, h.linked, h.first⟩, Err.noConfusion, h.usage, h.cursor, h.size, h.entry⟩
  have hrun : ∀ {α : Type} {a : α} {p : M α},
      p s.started = some (a, { s.started with tfsLastError := .invalFd }.call .deselect) →
      (enter a p >>= fun _ => (pure () : M Unit)) s =
        some ((), { s.started with tfsLastError := .invalFd }.call .deselect) := by
    intro α a p hp
    exact (Prog.bind_some ((enter_run h.dev).trans hp)).trans rfl
  refine ⟨{ s.started with tfsLastError := .invalFd }.call .deselect, ?_, hopen⟩
  cases call with
  | read len offset =>
    refine hrun ?_
    rw [Prog.gets_bind, id, if_pos hinv, out_run]
    rfl
  | write data len offset =>
    refine hrun ?_
    rw [Prog.gets_bind, id, if_pos hinv, out_run]
    rfl
  | trunc size =>
    show tfsTrunc e fd size.toNat s = _
    rw [tfsTrunc, enter_run h.dev, out_run]
    rw [show ({ s with tfsLastError := .ok, log := s.log.call .select } : State) = s.started from rfl, Prog.gets_bind,
        id, if_pos hinv]
    rfl

/-- **One call.** It returns, and leaves the cursor on the file. -/
theorem FileCall.exec_ok (he : e.NeverFails) (hf : n ≤ e.fuel) (h : Opened n fd cs xs s c) {call : FileCall}
    (hok : call.Fits e n fd s) : ∃ s' c', call.exec e fd s = some ((), s') ∧ Opened n fd cs xs s' c' := by
  by_cases hfd : fd < e.maxFds
  · cases call with
    | read len offset =>
      obtain ⟨b, p, v, l, hrun, hcur⟩ := tfsRead_ok he (h.readable hf) hfd offset.toNat_lt rfl
      exact ⟨_, c, (Prog.bind_some hrun).trans rfl, h.moved Err.noConfusion hcur⟩
    | write data len offset =>
      obtain ⟨hpos, hroom, h32⟩ := hok
      rw [Room, h.fileOf] at hroom
      rw [h.fileOf] at h32
      obtain ⟨k, s', hrun, hwrote⟩ := tfsWrite_ok he hf h hfd data hpos offset.toNat_lt h32 (hroom.imp_right .inl)
      cases hwrote with
      | astray hsets _ _ _ hlen hshort =>
        rcases hroom with hno | hroom
        · rw [hsets] at hno
          cases hno
        · rw [← hlen] at hroom
          exact absurd ((Nat.div_lt_iff_lt_mul (by decide)).mp hroom) (by rw [Nat.mul_comm]; omega)
      | done hopen => exact ⟨s', _, (Prog.bind_some hrun).trans rfl, hopen⟩
      | full _ hopen => exact ⟨s', _, (Prog.bind_some hrun).trans rfl, hopen⟩
    | trunc size =>
      have hroom : e.drive.setsOk = false ∨ size.toNat = 0 ∨ size.toNat / dataLen + 1 ≤ c.length + freeCount n s.dev := by
        by_cases hzero : size.toNat = 0
        · exact .inr (.inl hzero)
        · have hroom := hok hzero
          rw [Room, h.fileOf] at hroom
          exact hroom.imp_right .inr
      obtain ⟨s', hrun, hdone⟩ := tfsTrunc_ok he hf h hfd size.toNat_lt (hroom.imp_right (.imp_right .inl))
      cases hdone with
      | astray hsets hzero _ _ _ hlen hshort =>
        rcases hroom with hno | hno | hroom
        · rw [hsets] at hno
          cases hno
        · exact absurd hno hzero
        · omega
      | done hopen => exact ⟨s', _, hrun, hopen⟩
      | full _ _ hopen => exact ⟨s', _, hrun, hopen⟩
  · obtain ⟨s', hrun, hopen⟩ := FileCall.exec_invalid h hfd call
    exact ⟨s', c, hrun, hopen⟩

/-! ## Seeking from the cursor -/

/-- The cursor at the start of the file. -/
def State.rewound (s : State) (fd : Nat) : State :=
  { s with handles := Function.update s.handles fd { s.handles fd with
    currBlk := (s.handles fd).firstBlk, currPos := 0 } }

/-- Where `seek` ends: on the block `pos` is in, with its content in the buffer, or behind the file. -/
def SeekEnds (s : State) (fd pos : Nat) (c : List Nat) (r : Seek) (s' : State) : Prop :=
  r = .ok ∧ pos / dataLen < c.length ∧ (s'.handles fd).currBlk = c.getD (pos / dataLen) 0 ∧
    s'.blkBuf = s.dev (c.getD (pos / dataLen) 0) ∨ r = .eof ∧ c.length ≤ pos / dataLen

/-- The cursor is on the file, or nowhere, and every `seek` ends as from the start of the file. -/
structure CursorTransparent (e : Env) (n fd : Nat) (s : State) : Prop where
  cursor : Cursor (s.handles fd) (s.fileOf n fd)
  seek : ∀ pos < 2 ^ 32, ∃ r s₁ s₂, seek e fd pos false s.started = some (r, s₁) ∧
    TinyFs.seek e fd pos false (s.rewound fd).started = some (r, s₂) ∧
    SeekEnds s fd pos (s.fileOf n fd) r s₁ ∧ SeekEnds s fd pos (s.fileOf n fd) r s₂

theorem seek_ends (he : e.NeverFails) (hf : n ≤ e.fuel) (h : FileData n fd cs xs s c) (hcur : Cursor (s.handles fd) c)
    {pos : Nat} (h32 : pos < 2 ^ 32) :
    ∃ s', seek e fd pos false s.started = some (if pos / dataLen < c.length then .ok else .eof, s') ∧
      SeekEnds s fd pos c (if pos / dataLen < c.length then .ok else .eof) s' := by
  by_cases hq : pos / dataLen < c.length
  · obtain ⟨l, hrun⟩ := seek_found he (h.started.fileChain hf) hcur rfl h32 false hq
    rw [if_pos hq]
    exact ⟨_, hrun, .inl ⟨rfl, hq, by rw [State.seekTo_handle], rfl⟩⟩
  · obtain ⟨v, l, hrun⟩ := seek_eof he (h.started.fileChain hf) hcur rfl h32 (by omega)
    rw [if_neg hq]
    exact ⟨_, hrun, .inr ⟨rfl, by omega⟩⟩

theorem Cursor.start {h : Handle} (hb : h.currBlk = firstBlk c) (hp : h.currPos = 0) : Cursor h c := by
  by_cases hc : c = []
  · exact .inl (by rw [hb, hc, firstBlk_nil])
  · refine .inr ⟨0, List.length_pos_of_ne_nil hc, ?_, hp, by decide⟩
    rw [hb]
    cases c with
    | nil => exact absurd rfl hc
    | cons b c => rfl

theorem Opened.transparent (he : e.NeverFails) (hf : n ≤ e.fuel) (h : Opened n fd cs xs s c) :
    CursorTransparent e n fd s := by
  have hh : (s.rewound fd).handles fd = { s.handles fd with currBlk := (s.handles fd).firstBlk, currPos := 0 } :=
    Function.update_self ..
  have hrew : FileData n fd cs xs (s.rewound fd) c := ⟨⟨h.mounted, h.cache, h.owned⟩, h.linked, by rw [hh]; exact h.first⟩
  refine ⟨by rw [h.fileOf]; exact h.cursor, fun pos h32 => ?_⟩
  rw [h.fileOf]
  obtain ⟨s₁, hrun₁, hend₁⟩ := seek_ends he hf h.toFileData h.cursor h32
  obtain ⟨s₂, hrun₂, hend₂⟩ := seek_ends he hf hrew (.start (by rw [hh]; exact h.first) (by rw [hh])) h32
  exact ⟨_, s₁, s₂, hrun₁, hrun₂, hend₁, hend₂⟩

/-! ## Runs -/

/-- **In every run of calls that fit**, from `tfs_open` on, the cursor is on the file or
nowhere, and `seek` ends as from the start of the file; and every further call returns. -/
theorem cursor_transparent (he : e.NeverFails) (hf : n ≤ e.fuel) (hs : Sys n s L)
    (hopen : tfsOpen e name s = some ((fd : Int), s')) (hnew : (s.handles fd).usageCount = 0) {t : State}
    (hrun : Prog.GuardedRun (FileCall.exec e fd) (FileCall.Fits e n fd) s' t) :
    CursorTransparent e n fd t ∧ ∀ call : FileCall, call.Fits e n fd t → ∃ t', call.exec e fd t = some ((), t') := by
  obtain ⟨C, q, c, hfile, -⟩ := tfsOpen_ok he hf hs hopen hnew
  obtain ⟨c', h⟩ : ∃ c', Opened n fd (L.chains.erase c) L.leaked t c' := by
    refine hrun.keeps (I := fun t => ∃ c', Opened n fd (L.chains.erase c) L.leaked t c')
      (fun call s₁ s₂ hI hok hstep => ?_) ⟨c, hfile.opened⟩
    obtain ⟨c₁, h₁⟩ := hI
    obtain ⟨s₃, c₂, hrun, h₂⟩ := FileCall.exec_ok he hf h₁ hok
    rw [hstep] at hrun
    cases hrun
    exact ⟨c₂, h₂⟩
  refine ⟨h.transparent he hf, fun call hok => ?_⟩
  obtain ⟨t', -, hrun, -⟩ := FileCall.exec_ok he hf h hok
  exact ⟨t', hrun⟩

/-- A byte written behind a gap on a volume of sixteen blocks. -/
theorem cursor_transparent_gap : ∃ s s' t, withEmptyFile (Env.linux 16) (State.boot fun _ => Buf.zero) = some ((), s) ∧
    tfsOpen (Env.linux 16) [97] s = some (((0 : Nat) : Int), s') ∧
    (FileCall.write [7] 1 1000).exec (Env.linux 16) 0 s' = some ((), t) ∧ CursorTransparent (Env.linux 16) 16 0 t := by
  have he := Env.linux_neverFails 16
  obtain ⟨s, s', L, hrun, hs, hopen, hnew, -⟩ := openEmpty_sixteen
  have hfit : FileCall.Fits (Env.linux 16) 16 0 (.write [7] 1 1000) s' := by
    refine ⟨by decide, .inl rfl, ?_⟩
    have h : dataLen * min ((1000 + 1 - 1) / dataLen) ((s'.fileOf 16 0).length + freeCount 16 s'.dev - 1) ≤ dataLen * 1 :=
      Nat.mul_le_mul_left _ (Nat.le_trans (Nat.min_le_left _ _) (by decide))
    exact Nat.lt_of_le_of_lt h (by decide)
  obtain ⟨C, q, c, hfile, -⟩ := tfsOpen_ok he (by decide) hs hopen hnew
  obtain ⟨t, -, hwrite, -⟩ := FileCall.exec_ok he (by decide) hfile.opened hfit
  exact ⟨s, s', t, hrun, hopen, hwrite, (cursor_transparent he (by decide) hs hopen hnew (.cons hfit hwrite .nil)).1⟩

/-- On a drive of four blocks that sets `tfs_last_error`, a gap that does not fit is written
over the bitmap; after a truncation the block of the file is allocated once more, and
the cursor is on it as on its second block. -/
theorem cursor_not_transparent : ∃ s s' t₁ t₂ t, withEmptyFile (Env.documented 4) (State.boot fun _ => Buf.zero) =
    some ((), s) ∧
    tfsOpen (Env.documented 4) [97] s = some (((0 : Nat) : Int), s') ∧
    (FileCall.write [7] 1 1008).exec (Env.documented 4) 0 s' = some ((), t₁) ∧ t₁.tfsLastError = .ok ∧
    (FileCall.trunc 503).exec (Env.documented 4) 0 t₁ = some ((), t₂) ∧ t₂.tfsLastError = .ok ∧
    (FileCall.write [7] 1 504).exec (Env.documented 4) 0 t₂ = some ((), t) ∧ t.tfsLastError = .ok ∧
    ¬ Cursor (t.handles 0) (t.fileOf 4 0) := by
  have hrun : ((withEmptyFile (Env.documented 4) (State.boot fun _ => Buf.zero)).bind fun p =>
      (tfsOpen (Env.documented 4) [97] p.2).bind fun o =>
      ((FileCall.write [7] 1 1008).exec (Env.documented 4) 0 o.2).bind fun a =>
      ((FileCall.trunc 503).exec (Env.documented 4) 0 a.2).bind fun b =>
      ((FileCall.write [7] 1 504).exec (Env.documented 4) 0 b.2).map fun t =>
      (o.1, [a.2.tfsLastError, b.2.tfsLastError, t.2.tfsLastError], [(t.2.handles 0).currBlk, (t.2.handles 0).currPos],
        t.2.fileOf 4 0)) = some (0, [.ok, .ok, .ok], [2, 504], [2]) := by
    decide +kernel
  rw [Option.bind_eq_some_iff] at hrun
  obtain ⟨⟨_, s⟩, hs, hrun⟩ := hrun
  rw [Option.bind_eq_some_iff] at hrun
  obtain ⟨⟨fd, s'⟩, hs', hrun⟩ := hrun
  rw [Option.bind_eq_some_iff] at hrun
  obtain ⟨⟨_, t₁⟩, ht₁, hrun⟩ := hrun
  rw [Option.bind_eq_some_iff] at hrun
  obtain ⟨⟨_, t₂⟩, ht₂, hrun⟩ := hrun
  rw [Option.map_eq_some_iff] at hrun
  obtain ⟨⟨_, t⟩, ht, hrun⟩ := hrun
  simp only [Prod.mk.injEq, List.cons.injEq, and_true] at hrun
  obtain ⟨rfl, ⟨herr₁, herr₂, herr⟩, ⟨hblk, hpos⟩, hfile⟩ := hrun
  refine ⟨s, s', t₁, t₂, t, hs, hs', ht₁, herr₁, ht₂, herr₂, ht, herr, ?_⟩
  rw [hfile]
  rintro (hzero | ⟨i, hi, -, hp, -⟩)
  · rw [hblk] at hzero
    cases hzero
  · simp only [List.length_singleton] at hi
    rw [hpos] at hp
    simp only [dataLen] at hp
    omega

end TinyFs
