/-
Which blocks a run writes, read off the calls of the drive. The walks of `seek` write
none, and `alloc_block` only bitmap blocks.
-/
import TinyFs.Bracket
import TinyFs.Ready

namespace TinyFs

variable {e : Env} {α : Type} {n b : Nat} {s s₁ s' : State} {P Q : Nat → Prop} {c c' d : List Nat}

/-- Only blocks with `P` are written between two states. -/
def WritesIn (P : Nat → Prop) (s s' : State) : Prop := ∃ cs, CallsBetween s s' cs ∧ ∀ b ok, .write b ok ∈ cs → P b

/-- Block `b` is written between two states. -/
def Wrote (b : Nat) (s s' : State) : Prop := ∃ cs, CallsBetween s s' cs ∧ .write b true ∈ cs

theorem WritesIn.of_log (h : s'.log = s.log) : WritesIn P s s' := ⟨[], .refl h, by simp⟩

theorem WritesIn.call {x : DriveCall} (h : s'.log.calls = x :: s.log.calls) (hx : ∀ b ok, x = .write b ok → P b) :
    WritesIn P s s' :=
  ⟨[x], h, fun b ok hmem => hx b ok (List.mem_singleton.mp hmem).symm⟩

theorem WritesIn.trans (h : WritesIn P s s₁) (h' : WritesIn P s₁ s') : WritesIn P s s' := by
  obtain ⟨cs, hcs, hc⟩ := h
  obtain ⟨ds, hds, hd⟩ := h'
  refine ⟨cs ++ ds, hcs.trans hds, fun b ok hmem => ?_⟩
  rcases List.mem_append.mp hmem with hmem | hmem
  · exact hc b ok hmem
  · exact hd b ok hmem

theorem WritesIn.mono (h : WritesIn P s s') (hPQ : ∀ b, P b → Q b) : WritesIn Q s s' := by
  obtain ⟨cs, hcs, hc⟩ := h
  exact ⟨cs, hcs, fun b ok hmem => hPQ b (hc b ok hmem)⟩

/-- A block outside the footprint is not written. -/
theorem WritesIn.not_wrote (h : WritesIn P s s') (hb : ¬ P b) : ¬ Wrote b s s' := by
  obtain ⟨cs, hcs, hc⟩ := h
  rintro ⟨ds, hds, hmem⟩
  rw [← hcs.unique hds] at hmem
  exact hb (hc b true hmem)

theorem Wrote.left (h : Wrote b s s₁) (h' : WritesIn P s₁ s') : Wrote b s s' := by
  obtain ⟨cs, hcs, hmem⟩ := h
  obtain ⟨ds, hds, -⟩ := h'
  exact ⟨cs ++ ds, hcs.trans hds, List.mem_append_left _ hmem⟩

theorem Wrote.right (h : WritesIn P s s₁) (h' : Wrote b s₁ s') : Wrote b s s' := by
  obtain ⟨cs, hcs, -⟩ := h
  obtain ⟨ds, hds, hmem⟩ := h'
  exact ⟨cs ++ ds, hcs.trans hds, List.mem_append_right _ hmem⟩

/-! ## Functions -/

theorem driveReadBlock_writes {sel : BufSel} (h : driveReadBlock e b sel s = some ((), s')) : WritesIn P s s' := by
  simp only [driveReadBlock, Prog.modify_apply, Option.some.injEq, Prod.mk.injEq, true_and] at h
  subst h
  refine .call (x := .read b (transferOk e s b)) ?_ fun _ _ h => by cases h
  cases sel <;> by_cases hok : transferOk e s b = true <;> simp [hok, State.setBuf, DriveLog.transfer]

theorem driveWriteBlock_writes {sel : BufSel} (h : driveWriteBlock e b sel s = some ((), s')) (hb : P b) :
    WritesIn P s s' := by
  simp only [driveWriteBlock, Prog.modify_apply, Option.some.injEq, Prod.mk.injEq, true_and] at h
  subst h
  refine .call (x := .write b (transferOk e s b)) ?_ fun x ok hx => ?_
  · by_cases hok : transferOk e s b = true <;> simp [hok, DriveLog.transfer]
  · cases hx
    exact hb

theorem Move.writes (h : Move e s s') : WritesIn P s s' := by
  cases h with
  | look h =>
    cases h with
    | read h => exact driveReadBlock_writes h
    | buf | dirBlk | eof => exact .of_log rfl
  | handle => exact .of_log rfl

/-- What only reads and moves a handle writes nothing. -/
theorem writes_of_moves {p : M α} (hp : Moves e p) {a : α} (h : p s = some (a, s')) : WritesIn P s s' :=
  hp.lift (fun _ => .of_log rfl) (fun _ _ _ h1 h2 => h1.trans h2.writes) h

theorem loadBitmap_writes {u : Unit} (h : loadBitmap e b s = some (u, s')) :
    WritesIn P s s' ∧ (s'.tfsLastError = .ok → s'.loadedBitmapBlk = b) := by
  obtain ⟨_, s₁, hread, hrest⟩ := Prog.bind_eq_some.mp h
  have hw : WritesIn P s s₁ := driveReadBlock_writes hread
  simp only [Prog.modify_apply, Option.some.injEq, Prod.mk.injEq, true_and] at hrest
  by_cases herr : s₁.tfsLastError = .ok
  · rw [if_neg (by simp [herr])] at hrest
    subst hrest
    exact ⟨hw.trans (.of_log rfl), fun _ => rfl⟩
  · rw [if_pos herr] at hrest
    subst hrest
    exact ⟨hw.trans (.of_log rfl), fun hok => absurd hok herr⟩

theorem allocLoop_writes (start : Nat) : ∀ fuel pos {b s s'}, pos % 4096 = 0 → s.loadedBitmapBlk = pos →
    allocLoop e start fuel pos s = some (b, s') → WritesIn (· % 4096 = 0) s s' := by
  intro fuel
  induction fuel with
  | zero =>
    intro pos b s s' _ _ h
    cases h
  | succ fuel ih =>
    intro pos b s s' hpos hload h
    have hnext : nextBitmap e start pos (allocLoop e start fuel) s = some (b, s') → WritesIn (· % 4096 = 0) s s' := by
      intro h
      rw [nextBitmap] at h
      simp only [Prog.gets_bind, id_eq] at h
      obtain ⟨p, hp⟩ : ∃ p, p = if pos = s.lastBitmapBlk then firstBitmapBlk else (pos + bitmapBlkCount) % 2 ^ 32 :=
          ⟨_, rfl⟩
      have hp0 : p % 4096 = 0 := by
        rw [hp]
        simp only [firstBitmapBlk, bitmapBlkCount]
        split <;> omega
      rw [← hp] at h
      by_cases hclosed : p = start
      · rw [if_pos hclosed] at h
        cases h
        exact .of_log rfl
      · rw [if_neg hclosed] at h
        obtain ⟨_, s₁, hl, hrest⟩ := Prog.bind_eq_some.mp h
        obtain ⟨hw, hok⟩ := loadBitmap_writes (P := (· % 4096 = 0)) hl
        by_cases herr : s₁.tfsLastError = .ok
        · rw [ifOk_ok herr] at hrest
          exact hw.trans (ih p hp0 (hok herr) hrest)
        · rw [ifOk_err herr] at hrest
          cases hrest
          exact hw
    rw [allocLoop, allocStep] at h
    simp only [Prog.gets_bind, id_eq] at h
    cases hsearch : searchBitmap s.bitmapBlk (List.range 512) with
    | none =>
      rw [hsearch] at h
      exact hnext h
    | some p =>
      obtain ⟨i, j⟩ := p
      rw [hsearch] at h
      simp only at h
      by_cases hend : pos + 8 * i + j ≥ s.blkCount
      · rw [if_pos hend] at h
        exact hnext h
      · rw [if_neg hend, Prog.modify_bind] at h
        obtain ⟨_, s₁, hwrite, hrest⟩ := Prog.bind_eq_some.mp h
        have hw := driveWriteBlock_writes (P := (· % 4096 = 0)) hwrite (by rw [hload]; exact hpos)
        refine WritesIn.trans (WritesIn.trans (.of_log rfl) hw) ?_
        by_cases herr : s₁.tfsLastError = .ok
        · rw [ifOk_ok herr] at hrest
          cases hrest
          exact .of_log rfl
        · rw [ifOk_err herr] at hrest
          cases hrest
          exact .of_log rfl

/-- `alloc_block` writes bitmap blocks only. -/
theorem allocBlock_writes (hc : s.CacheOk n) (h : allocBlock e s = some (b, s')) : WritesIn (· % 4096 = 0) s s' := by
  rw [allocBlock, Prog.gets_bind, id] at h
  rcases hc with ⟨hinval, -⟩ | ⟨hmod, -, -⟩
  · rw [if_pos hinval] at h
    cases h
    exact .of_log rfl
  · rw [if_neg (ne_inval hmod)] at h
    exact allocLoop_writes _ _ _ hmod rfl h

theorem updateDirItem_writes {u : Unit} {fd : Nat} (h : updateDirItem e fd s = some (u, s')) :
    WritesIn (· = (s.handles fd).dirBlk) s s' := by
  rw [updateDirItem, handle_bind] at h
  obtain ⟨_, s₁, hread, hrest⟩ := Prog.bind_eq_some.mp h
  have hw := driveReadBlock_writes (P := (· = (s.handles fd).dirBlk)) hread
  by_cases herr : s₁.tfsLastError = .ok
  · rw [ifOk_ok herr, modifyBuf_bind] at hrest
    have hw' := driveWriteBlock_writes (P := (· = (s.handles fd).dirBlk)) hrest rfl
    exact hw.trans (WritesIn.trans (.of_log rfl) hw')
  · rw [ifOk_err herr] at hrest
    cases hrest
    exact hw

/-! ## Filling a chain -/

/-- Between two states the blocks `d` of a file that had the blocks `c` were written, as far
as they are new; and besides only bitmap blocks. -/
structure Filled (c d : List Nat) (s s' : State) : Prop where
  only : WritesIn (fun b => b % 4096 = 0 ∨ b ∈ d) s s'
  all : ∀ b ∈ d, b ∈ c ∨ Wrote b s s'

theorem Filled.start (h : WritesIn (fun _ => False) s s') (hd : ∀ b ∈ d, b ∈ c) : Filled c d s s' :=
  ⟨h.mono fun _ hb => hb.elim, fun b hb => .inl (hd b hb)⟩

theorem Filled.trans (h : Filled c d s s₁) (h' : WritesIn (· % 4096 = 0) s₁ s') : Filled c d s s' :=
  ⟨h.only.trans (h'.mono fun _ => .inl), fun b hb => (h.all b hb).imp_right fun hw => hw.left h'⟩

/-- The next block is written. -/
theorem Filled.snoc (h : Filled c d s s₁) (hlog : s'.log.calls = .write b true :: s₁.log.calls) :
    Filled c (d ++ [b]) s s' := by
  have hw : WritesIn (· = b) s₁ s' := .call hlog fun x ok hx => by
    cases hx
    rfl
  refine ⟨(h.only.mono fun x hx => hx.imp_right fun hx => List.mem_append_left _ hx).trans
    (hw.mono fun x hx => .inr (by simp [hx])), fun x hx => ?_⟩
  rcases List.mem_append.mp hx with hx | hx
  · exact (h.all x hx).imp_right fun hx => hx.left hw
  · rw [List.mem_singleton.mp hx]
    exact .inr (.right h.only ⟨[.write b true], hlog, by simp⟩)

end TinyFs
