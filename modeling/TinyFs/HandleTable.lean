/-
The handle table. `tfs_open` shares the handle that is in use on its item, or takes
the first free one; `tfs_close` counts down and leaves the place of the handle where it
was. So at any time the handles on a place are those closed, behind the one in use, if
there is one: what `item_usage_count` finds first is the count. The search for a free
handle looks behind a full table.
-/
import TinyFs.OpenFile
import TinyFs.Refusal

namespace TinyFs

open Bytes

variable {e : Env} {s s' t : State} {name : List UInt8} {m fd i : Nat} {H H' : Nat → Handle} {p : Nat × Option Nat}
  {o : Handle}

/-- The item a handle stands for: its directory block and its index there. -/
def Handle.place (h : Handle) : Nat × Option Nat := (h.dirBlk, h.dirItem)

/-- Handle `fd` is the one in use on a place. -/
structure InUseOn (H : Nat → Handle) (p : Nat × Option Nat) (fd : Nat) : Prop where
  used : 0 < (H fd).usageCount
  place : (H fd).place = p

/-! ## The searches -/

/-- The search finds the first handle in use on the item. -/
theorem sharedHandle_first {item : Nat} {fds : List Nat} (h : sharedHandle s item fds = some fd)
    (hsorted : fds.Pairwise (· < ·)) : fd ∈ fds ∧ InUseOn s.handles (s.loadedDirBlk, some item) fd ∧
    ∀ g ∈ fds, g < fd → ¬ InUseOn s.handles (s.loadedDirBlk, some item) g := by
  induction fds with
  | nil => cases h
  | cons f fds ih =>
    rw [List.pairwise_cons] at hsorted
    rw [sharedHandle] at h
    split at h
    · rename_i hf
      cases h
      refine ⟨by simp, ⟨hf.2.2, by rw [Handle.place, hf.1, hf.2.1]⟩, fun g hg hlt => ?_⟩
      rcases List.mem_cons.mp hg with rfl | hg
      · exact absurd hlt (Nat.lt_irrefl g)
      · exact absurd hlt (Nat.not_lt.mpr (Nat.le_of_lt (hsorted.1 g hg)))
    · rename_i hf
      obtain ⟨hmem, hplace, hfirst⟩ := ih h hsorted.2
      refine ⟨List.mem_cons_of_mem _ hmem, hplace, fun g hg hlt hh => ?_⟩
      rcases List.mem_cons.mp hg with rfl | hg
      · have heq := hh.place
        simp only [Handle.place, Prod.mk.injEq] at heq
        exact hf ⟨heq.1, heq.2, hh.used⟩
      · exact hfirst g hg hlt hh

theorem sharedHandle_none {item : Nat} {fds : List Nat} (h : sharedHandle s item fds = none) :
    ∀ fd ∈ fds, ¬ InUseOn s.handles (s.loadedDirBlk, some item) fd := by
  induction fds with
  | nil => simp
  | cons f fds ih =>
    rw [sharedHandle] at h
    split at h
    · cases h
    · rename_i hf
      intro fd hfd hh
      rcases List.mem_cons.mp hfd with rfl | hfd
      · have hplace := hh.place
        simp only [Handle.place, Prod.mk.injEq] at hplace
        exact hf ⟨hplace.1, hplace.2, hh.used⟩
      · exact ih h fd hfd hh

/-- The search from slot `fd` on ends at the first free slot, or behind slot `m`. -/
theorem freeHandle_some {k f : Nat} (h : freeHandle s m k fd = some f) (hk : fd + k = m) :
    fd ≤ f ∧ f ≤ m ∧ (s.handles f).usageCount = 0 ∧ ∀ g, fd ≤ g → g < f → 0 < (s.handles g).usageCount := by
  induction k generalizing fd with
  | zero =>
    rw [freeHandle] at h
    split at h
    · cases h
    · cases h
      exact ⟨Nat.le_refl _, by omega, by omega, fun g h1 h2 => by omega⟩
  | succ k ih =>
    rw [freeHandle] at h
    split at h
    · rename_i hused
      rw [if_neg (by omega)] at h
      obtain ⟨h1, h2, h3, h4⟩ := ih h (by omega)
      refine ⟨by omega, h2, h3, fun g hg hgf => ?_⟩
      by_cases hgfd : g = fd
      · exact hgfd ▸ hused
      · exact h4 g (by omega) hgf
    · cases h
      exact ⟨Nat.le_refl _, by omega, by omega, fun g h1 h2 => by omega⟩

theorem freeHandle_none {k : Nat} (h : freeHandle s m k fd = none) (hk : fd + k = m) :
    ∀ g, fd ≤ g → g ≤ m → 0 < (s.handles g).usageCount := by
  induction k generalizing fd with
  | zero =>
    rw [freeHandle] at h
    split at h
    · rename_i hused
      intro g h1 h2
      obtain rfl : g = fd := by omega
      exact hused
    · cases h
  | succ k ih =>
    rw [freeHandle] at h
    split at h
    · rename_i hused
      rw [if_neg (by omega)] at h
      intro g h1 h2
      by_cases hgfd : g = fd
      · exact hgfd ▸ hused
      · exact ih h (by omega) g (by omega) h2
    · cases h

/-! ## tfs_open -/

/-- The lookup of `tfs_open` ends well at the file item `i` of a directory block. -/
structure FindsFile (e : Env) (name : List UInt8) (s t : State) (i : Nat) : Prop where
  present : s.tfsLastError ≠ .noDev
  run : findFile e name false s.started = some (some i, t)
  err : t.tfsLastError = .ok
  file : t.blkBuf.itemType i = itemFile

/-- The handle `tfs_open` sets up for the item it found. -/
abbrev State.opened (t : State) (i : Nat) : Handle := openedHandle t.loadedDirBlk i t.blkBuf

/-- On a drive that works, the lookup of a file in a directory of the volume. -/
theorem Sys.findsFile {n : Nat} {L : Layout} {q : Nat × Nat} (he : e.NeverFails) (hf : n ≤ e.fuel) (hs : Sys n s L)
    (hname : name.headD 0 ≠ 0) (hq : s.lookup e n name = some q) (ht : (itemAt s.dev q).type = itemFile) :
    ∃ t, FindsFile e name s t q.2 ∧ (t.opened q.2).place = (q.1, some q.2) ∧ t.blkBuf = s.dev q.1 := by
  obtain ⟨C, D, hcur⟩ := hs.current_enter
  have hfollow : follow s.dev n s.currentDirBlk = C := hcur.follow_eq
  rw [State.lookup, hfollow] at hq
  rcases findFile_lookup he hf hcur.toInDir hname with ⟨p, l, hp, hfind⟩ | ⟨hnone, _⟩
  · have hp : ((slots C).find? fun p => hits e name (itemAt s.dev p)) = some p := hp
    obtain rfl : p = q := Option.some.inj (hp.symm.trans hq)
    exact ⟨_, ⟨hs.dev, hfind false, rfl, ht⟩, rfl, rfl⟩
  · have hnone : ((slots C).find? fun p => hits e name (itemAt s.dev p)) = none := hnone
    rw [hq] at hnone
    cases hnone

/-- What `tfs_open` of the file with the handle `o` returns, its error, and the table it
leaves: the first handle in use on the file is shared, or else the first free one set up. -/
inductive OpenStep (m : Nat) (o : Handle) (H : Nat → Handle) : Int → Err → (Nat → Handle) → Prop
  | shared {fd : Nat} : fd < m → InUseOn H o.place fd → (∀ g < fd, ¬ InUseOn H o.place g) →
      OpenStep m o H fd .ok (Function.update H fd { H fd with usageCount := ((H fd).usageCount + 1) % 256 })
  | full : (∀ g ≤ m, 0 < (H g).usageCount) → (∀ g < m, ¬ InUseOn H o.place g) → OpenStep m o H (-1) .noFreeFd H
  | fresh {fd : Nat} : fd ≤ m → (H fd).usageCount = 0 → (∀ g < fd, 0 < (H g).usageCount) →
      (∀ g < m, ¬ InUseOn H o.place g) → OpenStep m o H fd .ok (Function.update H fd o)

/-- The state with another table. -/
def State.withTable (H : Nat → Handle) (s : State) : State := { s with handles := H }

/-- A call that wrote nothing but the table. -/
def OpenKeeps (s s' : State) : Prop := Untouched s (s'.withTable s.handles)

theorem OpenKeeps.refl : OpenKeeps s s := Untouched.refl

theorem OpenKeeps.dev (h : OpenKeeps s s') : s'.dev = s.dev := (show Untouched s (s'.withTable s.handles) from h).dev

theorem OpenKeeps.cur (h : OpenKeeps s s') : s'.currentDirBlk = s.currentDirBlk :=
    (show Untouched s (s'.withTable s.handles) from h).cur

/-- What ends a call after its lookup: the table, and an error. -/
theorem Untouched.openKeeps (h : Untouched s.started t) {err : Err} (herr : err ≠ .noDev) (H : Nat → Handle) :
    OpenKeeps s (State.call { t with tfsLastError := err, handles := H } .deselect) := by
  have hu := h.bracket
  exact ⟨hu.dev, hu.bitmap, hu.loadedBitmap, hu.blkCount, hu.lastBlk, hu.lastLen, hu.cur, rfl, fun _ => herr, hu.calls⟩

theorem FindsFile.open (h : FindsFile e name s t i) : ∃ r s', tfsOpen e name s = some (r, s') ∧
    OpenStep e.maxFds (t.opened i) s.handles r s'.tfsLastError s'.handles ∧ OpenKeeps s s' := by
  have hu := untouched_of_run (findFile_quiet name) h.run
  have hh : t.handles = s.handles := hu.handles
  have hok : ∀ H, OpenKeeps s (State.call { t with handles := H } .deselect) := fun H =>
    hu.openKeeps (by rw [h.err]; exact Err.noConfusion) H
  rw [tfsOpen, enter_started h.present, Prog.bind_some h.run, ifOk_ok h.err, blkBuf_bind]
  simp only [h.file, ne_eq, not_true_eq_false, if_false, Prog.gets_bind, id_eq]
  cases hshare : sharedHandle t i (List.range e.maxFds) with
  | some fd =>
    obtain ⟨hfd, hplace, hfirst⟩ := sharedHandle_first hshare List.pairwise_lt_range
    rw [hh] at hplace hfirst
    replace hfd := List.mem_range.mp hfd
    refine ⟨fd, { t with
      handles := Function.update t.handles fd { t.handles fd with usageCount := ((t.handles fd).usageCount + 1) % 256 }
      }.call .deselect, rfl, ?_, hok _⟩
    show OpenStep _ _ _ _ t.tfsLastError (Function.update t.handles fd _)
    rw [h.err, hh]
    exact .shared hfd hplace fun g hg => hfirst g (List.mem_range.mpr (hg.trans hfd)) hg
  | none =>
    have hnone := sharedHandle_none hshare
    rw [hh] at hnone
    replace hnone : ∀ g < e.maxFds, ¬ InUseOn s.handles (t.loadedDirBlk, some i) g := fun g hg => hnone g
      (List.mem_range.mpr hg)
    cases hfree : freeHandle t e.maxFds e.maxFds 0 with
    | none =>
      have hfull := freeHandle_none hfree (Nat.zero_add _)
      rw [hh] at hfull
      refine ⟨-1, { t with tfsLastError := .noFreeFd }.call .deselect, rfl, ?_, hu.openKeeps Err.noConfusion _⟩
      show OpenStep _ _ _ _ _ t.handles
      rw [hh]
      exact .full (fun g hg => hfull g (Nat.zero_le g) hg) hnone
    | some fd =>
      obtain ⟨-, hle, hzero, hfirst⟩ := freeHandle_some hfree (Nat.zero_add _)
      rw [hh] at hzero hfirst
      refine ⟨fd, { t with handles := Function.update t.handles fd (openedHandle t.loadedDirBlk i t.blkBuf) }.call
        .deselect,
        ?_, ?_, hok _⟩
      · simp only [initPos, modifyHandle_bind, Function.update_self, Function.update_idem]
        rfl
      · show OpenStep _ _ _ _ t.tfsLastError (Function.update t.handles fd _)
        rw [h.err, hh]
        exact .fresh hle hzero (fun g hg => hfirst g (Nat.zero_le g) hg) hnone

/-- A call of `tfs_open` finds no file and leaves the table, or does a step on it. -/
theorem tfsOpen_cases {r : Int} (h : tfsOpen e name s = some (r, s')) :
    (r = -1 ∧ s'.handles = s.handles ∧ OpenKeeps s s') ∨ ∃ t i, FindsFile e name s t i ∧
      OpenStep e.maxFds (t.opened i) s.handles r s'.tfsLastError s'.handles ∧ OpenKeeps s s' := by
  by_cases hpresent : s.tfsLastError = .noDev
  · rw [tfsOpen, enter_noDev hpresent] at h
    cases h
    exact .inl ⟨rfl, rfl, .refl⟩
  have hrun := h
  rw [tfsOpen, enter_started hpresent, Option.map_eq_some_iff] at hrun
  obtain ⟨⟨a, u⟩, hrun, heq⟩ := hrun
  simp only [Prod.mk.injEq] at heq
  obtain ⟨rfl, rfl⟩ := heq
  obtain ⟨item, t, hfind, hrun⟩ := Prog.bind_eq_some.mp hrun
  have hu := untouched_of_run (findFile_quiet name) hfind
  by_cases herr : t.tfsLastError = .ok
  · have hno : (setErr .notExist >>= fun _ => (pure (-1) : M Int)) t = some (a, u) →
        a = -1 ∧ (u.call .deselect).handles = s.handles ∧ OpenKeeps s (u.call .deselect) := by
      intro hrun
      rw [setErr_bind] at hrun
      cases hrun
      exact ⟨rfl, hu.handles, hu.openKeeps Err.noConfusion _⟩
    rw [ifOk_ok herr, blkBuf_bind] at hrun
    cases item with
    | none => exact .inl (hno hrun)
    | some i =>
      by_cases hfile : t.blkBuf.itemType i = itemFile
      · have hfinds : FindsFile e name s t i := ⟨hpresent, hfind, herr, hfile⟩
        obtain ⟨r, s', hopen, hstep, hkeeps⟩ := hfinds.open
        rw [h] at hopen
        cases hopen
        exact .inr ⟨t, i, hfinds, hstep, hkeeps⟩
      · simp only [ne_eq, hfile, not_false_eq_true, if_true] at hrun
        exact .inl (hno hrun)
  · rw [ifOk_err herr] at hrun
    cases hrun
    exact .inl ⟨rfl, hu.handles, hu.openKeeps (hu.present Err.noConfusion) _⟩

/-! ## Behind the table -/

theorem ifOk_commutes {α : Type} {r : α} {k : M α} (hk : Prog.Commutes (State.withTable H) k) :
    Prog.Commutes (State.withTable H) (ifOk r k) := by
  intro s
  by_cases herr : s.tfsLastError = .ok
  · rw [ifOk_ok herr, ifOk_ok (s := s.withTable H) herr]
    exact hk s
  · rw [ifOk_err herr, ifOk_err (s := s.withTable H) herr]
    rfl

theorem driveReadBlock_commutes (b : Nat) : Prog.Commutes (State.withTable H) (driveReadBlock e b .blkBuf) := by
  refine .modify fun s => ?_
  have hok : transferOk e (s.withTable H) b = transferOk e s b := rfl
  simp only [hok]
  split
  · rfl
  · rfl

theorem findWalk_commutes (fuel pos : Nat) (free : Option (Nat × Nat)) :
    Prog.Commutes (State.withTable H) (findWalk e name fuel pos free) := by
  induction fuel generalizing pos free with
  | zero => exact .noFuel
  | succ k ih =>
    refine (driveReadBlock_commutes pos).bind fun _ => ifOk_commutes (.bind (.modify fun _ => rfl) fun _ => ?_)
    refine .reads (fun _ => rfl) fun b => ?_
    cases scanItems e name b pos (List.range dirBlkItems) free with
    | inl i => exact .pure _
    | inr free => exact .ite (.pure _) (ih b.next free)

/-- The lookup does not see the handles. -/
theorem findFile_commutes : Prog.Commutes (State.withTable H) (findFile e name false) := by
  unfold findFile
  refine .ite (.bind (.modify fun _ => rfl) fun _ => .pure _) ?_
  intro s
  refine Prog.Commutes.bind (findWalk_commutes _ _ _) (fun w => ?_) s
  cases w with
  | error | found _ | missing _ => exact .pure _

theorem FindsFile.withTable (h : FindsFile e name s t i) : FindsFile e name (s.withTable H) (t.withTable H) i :=
  ⟨h.present, findFile_commutes.some h.run, h.err, h.file⟩

/-- A call that finds no file. -/
theorem tfsOpen_misses {r : Int} (h : tfsOpen e name s = some (r, s')) (hno : ∀ t i, ¬ FindsFile e name s t i) :
    r = -1 ∧ s'.tfsLastError ≠ .ok ∧ s'.handles = s.handles ∧ tfsOpen e name (s.withTable H) =
    some (-1, s'.withTable H) := by
  by_cases hpresent : s.tfsLastError = .noDev
  · rw [tfsOpen, enter_noDev hpresent] at h
    cases h
    refine ⟨rfl, by rw [hpresent]; exact Err.noConfusion, rfl, ?_⟩
    rw [tfsOpen, enter_noDev (s := s.withTable H) hpresent]
  rw [tfsOpen, enter_started hpresent, Option.map_eq_some_iff] at h
  obtain ⟨⟨a, u⟩, hrun, heq⟩ := h
  simp only [Prod.mk.injEq] at heq
  obtain ⟨rfl, rfl⟩ := heq
  obtain ⟨item, t, hfind, hrun⟩ := Prog.bind_eq_some.mp hrun
  have hh : t.handles = s.handles := (untouched_of_run (findFile_quiet name) hfind).handles
  have hfind' : findFile e name false (s.withTable H).started = some (item, t.withTable H) := findFile_commutes.some hfind
  rw [tfsOpen, enter_started (s := s.withTable H) hpresent, Prog.bind_some hfind']
  by_cases herr : t.tfsLastError = .ok
  · have hmiss : (setErr .notExist >>= fun _ => (pure (-1) : M Int)) t = some (a, u) →
        a = -1 ∧ u = { t with tfsLastError := .notExist } := by
      intro hrun
      rw [setErr_bind] at hrun
      cases hrun
      exact ⟨rfl, rfl⟩
    rw [ifOk_ok herr, blkBuf_bind] at hrun
    rw [ifOk_ok (s := t.withTable H) herr, blkBuf_bind]
    cases item with
    | none =>
      obtain ⟨rfl, rfl⟩ := hmiss hrun
      exact ⟨rfl, Err.noConfusion, hh, rfl⟩
    | some i =>
      have hfile : t.blkBuf.itemType i ≠ itemFile := fun hfile => hno t i ⟨hpresent, hfind, herr, hfile⟩
      simp only [ne_eq, hfile, not_false_eq_true, if_true] at hrun
      obtain ⟨rfl, rfl⟩ := hmiss hrun
      refine ⟨rfl, Err.noConfusion, hh, ?_⟩
      show Option.map _ ((if (t.withTable H).blkBuf.itemType i ≠ itemFile then (_ : M Int) else _) (t.withTable H)) = _
      rw [if_pos (show (t.withTable H).blkBuf.itemType i ≠ itemFile from hfile)]
      rfl
  · rw [ifOk_err herr] at hrun
    rw [ifOk_err (s := t.withTable H) herr]
    cases hrun
    exact ⟨rfl, herr, hh, rfl⟩

/-- Every handle is in use, and none is on the place. -/
def Exhausted (m : Nat) (H : Nat → Handle) (p : Nat × Option Nat) : Prop :=
  (∀ g < m, 0 < (H g).usageCount) ∧ ∀ g < m, ¬ InUseOn H p g

/-- The call of `tfs_open` that returns `r` with the error `err`, and leaves the table
`K`: whatever lies behind the table, it does the same and leaves that; a descriptor it
returns is one of the table; and a file no handle of a full table is on is rejected. -/
structure OpenWithin (e : Env) (name : List UInt8) (s : State) (r : Int) (err : Err) (K : Nat → Handle) : Prop where
  stays : ∀ H, (∀ g < e.maxFds, H g = s.handles g) → ∃ s', tfsOpen e name (s.withTable H) = some (r, s') ∧
    s'.tfsLastError = err ∧ (∀ g < e.maxFds, s'.handles g = K g) ∧ ∀ g, e.maxFds ≤ g → s'.handles g = H g
  inRange : err = .ok → 0 ≤ r ∧ r < e.maxFds
  full : ∀ t i, FindsFile e name s t i → Exhausted e.maxFds s.handles (t.loadedDirBlk, some i) →
    r = -1 ∧ err = .noFreeFd ∧ ∀ g < e.maxFds, K g = s.handles g

theorem inUseOn_congr (heq : H' fd = H fd) : InUseOn H' p fd ↔ InUseOn H p fd :=
  ⟨fun h => ⟨heq ▸ h.used, heq ▸ h.place⟩, fun h => ⟨heq ▸ h.used, heq ▸ h.place⟩⟩

theorem update_within {K : Nat → Handle} {h' : Handle} (hfd : fd < m) (hK : ∀ g < m, K g = H g) :
    (∀ g < m, Function.update K fd h' g = Function.update H fd h' g) ∧ ∀ g, m ≤ g → Function.update K fd h' g = K g := by
  refine ⟨fun g hg => ?_, fun g hg => Function.update_of_ne (by omega) _ _⟩
  by_cases hgfd : g = fd
  · rw [hgfd, Function.update_self, Function.update_self]
  · rw [Function.update_of_ne hgfd, Function.update_of_ne hgfd, hK g hg]

/-- A step on a table with room stays on it, and two tables that agree there take the
same step. -/
theorem OpenStep.within {r : Int} {err : Err} (h : OpenStep m o H r err H') (hroom : ¬ Exhausted m H o.place) :
    err = .ok ∧ (0 ≤ r ∧ r < m) ∧ ∀ {K K' : Nat → Handle} {r' : Int} {err' : Err}, (∀ g < m, K g = H g) →
      OpenStep m o K r' err' K' → r' = r ∧ err' = err ∧ (∀ g < m, K' g = H' g) ∧ ∀ g, m ≤ g → K' g = K g := by
  cases h with
  | @shared fd hfd hplace hfirst =>
    refine ⟨rfl, ⟨by omega, by omega⟩, fun {K K' r' err'} hK h' => ?_⟩
    have hKfd := (inUseOn_congr (hK fd hfd)).mpr hplace
    cases h' with
    | @shared fd' hfd' hplace' hfirst' =>
      have heq : fd' = fd := by
        rcases Nat.lt_trichotomy fd' fd with hlt | heq | hlt
        · exact absurd ((inUseOn_congr (hK fd' hfd')).mp hplace') (hfirst fd' hlt)
        · exact heq
        · exact absurd hKfd (hfirst' fd hlt)
      subst heq
      rw [hK fd' hfd]
      exact ⟨rfl, rfl, update_within hfd hK⟩
    | full _ hnone => exact absurd hKfd (hnone fd hfd)
    | fresh _ _ _ hnone => exact absurd hKfd (hnone fd hfd)
  | full hused hnone => exact absurd ⟨fun g hg => hused g (Nat.le_of_lt hg), hnone⟩ hroom
  | @fresh fd hle hzero hfirst hnone =>
    have hfd : fd < m := by
      by_contra hge
      exact hroom ⟨fun g hg => hfirst g (by omega), hnone⟩
    refine ⟨rfl, ⟨by omega, by omega⟩, fun {K K' r' err'} hK h' => ?_⟩
    cases h' with
    | @shared fd' hfd' hplace' _ => exact absurd ((inUseOn_congr (hK fd' hfd')).mp hplace') (hnone fd' hfd')
    | full hused _ =>
      have := hused fd hle
      rw [hK fd hfd] at this
      omega
    | @fresh fd' hle' hzero' hfirst' _ =>
      have heq : fd' = fd := by
        rcases Nat.lt_trichotomy fd' fd with hlt | heq | hlt
        · rw [hK fd' (by omega)] at hzero'
          have := hfirst fd' hlt
          omega
        · exact heq
        · have := hfirst' fd hlt
          rw [hK fd hfd] at this
          omega
      subst heq
      exact ⟨rfl, rfl, update_within hfd hK⟩

theorem FindsFile.unique {t' : State} {i' : Nat} (h : FindsFile e name s t i) (h' : FindsFile e name s t' i') :
    t' = t ∧ i' = i := by
  have heq := h'.run
  rw [h.run] at heq
  cases heq
  exact ⟨rfl, rfl⟩

/-- The search of a full table takes the handle behind it when that is free. -/
theorem OpenStep.behind {r : Int} {err : Err} (h : OpenStep m o H r err H') (hfull : Exhausted m H o.place)
    (hzero : (H m).usageCount = 0) : r = m ∧ err = .ok := by
  cases h with
  | @shared fd hfd hplace _ => exact absurd hplace (hfull.2 fd hfd)
  | full hused _ =>
    have := hused m (Nat.le_refl m)
    omega
  | @fresh fd hle _ _ _ =>
    rcases Nat.lt_or_eq_of_le hle with hlt | rfl
    · have := hfull.1 fd hlt
      omega
    · exact ⟨rfl, rfl⟩

/-- **`tfs_open` stays within the table exactly where a handle of the table is free or
already on the file.** This is about tables of at most 127 handles, `Env.maxFds_lt`. -/
theorem tfsOpen_within (hret : (tfsOpen e name s).isSome) : (∃ r err K, OpenWithin e name s r err K) ↔
    ∀ t i, FindsFile e name s t i → ¬ Exhausted e.maxFds s.handles (t.loadedDirBlk, some i) := by
  obtain ⟨⟨r, s'⟩, hrun⟩ := Option.isSome_iff_exists.mp hret
  constructor
  · rintro ⟨r, err, K, h⟩ t i hfinds hfull
    -- a free handle behind the table
    obtain ⟨t', hrun', rfl, -, -⟩ := h.stays (Function.update s.handles e.maxFds Handle.zero) fun g hg =>
      Function.update_of_ne (Nat.ne_of_lt hg) _ _
    obtain ⟨r', t'', hrun'', hstep, -⟩ := (hfinds.withTable (H := Function.update s.handles e.maxFds Handle.zero)).open
    rw [hrun'] at hrun''
    cases hrun''
    have hfull' : Exhausted e.maxFds (Function.update s.handles e.maxFds Handle.zero) (t.opened i).place := by
      refine ⟨fun g hg => ?_, fun g hg hh => hfull.2 g hg
        ((inUseOn_congr (Function.update_of_ne (Nat.ne_of_lt hg) _ _)).mp hh)⟩
      rw [Function.update_of_ne (Nat.ne_of_lt hg)]
      exact hfull.1 g hg
    have hzero : (Function.update s.handles e.maxFds Handle.zero e.maxFds).usageCount = 0 := by
      rw [Function.update_self]
      rfl
    obtain ⟨rfl, herr⟩ := hstep.behind hfull' hzero
    exact absurd (h.inRange herr).2 (Int.lt_irrefl _)
  · intro hroom
    by_cases hfinds : ∃ t i, FindsFile e name s t i
    · obtain ⟨t, i, hfinds⟩ := hfinds
      obtain ⟨r, s', hrun, hstep, -⟩ := hfinds.open
      obtain ⟨herr, hrange, hsame⟩ := hstep.within (hroom t i hfinds)
      refine ⟨r, s'.tfsLastError, s'.handles, fun K hK => ?_, fun _ => hrange, fun t' i' h' hfull => absurd hfull
        (hroom t' i' h')⟩
      obtain ⟨r', t', hrun', hstep', -⟩ := (hfinds.withTable (H := K)).open
      obtain ⟨rfl, herr', hbelow, hbehind⟩ := hsame hK hstep'
      exact ⟨t', hrun', herr', hbelow, hbehind⟩
    · simp only [not_exists] at hfinds
      obtain ⟨rfl, herr, hh, -⟩ := tfsOpen_misses (H := s.handles) hrun hfinds
      refine ⟨-1, s'.tfsLastError, s'.handles, fun K hK => ?_, fun herr' => absurd herr' herr, fun t' i' h' =>
        absurd h' (hfinds t' i')⟩
      exact ⟨s'.withTable K, (tfsOpen_misses hrun hfinds).2.2.2,
        rfl, fun g hg => by rw [hh]; exact hK g hg, fun g _ => rfl⟩

/-- A build with one handle. -/
def oneHandle : Env := { Env.linux 16 with maxFds := 1, maxFds_lt := by decide }

/-- A volume with two files, the first of them open. -/
def withOneOpen : M Unit := Prog.runAll (Op.exec oneHandle) [.init, .format, .touch [97], .touch [98], .openFile [97]]

/-- The only handle is in use, and the second file is given the one behind it. -/
theorem tfsOpen_behindTable : ∃ s s' t i, withOneOpen (State.boot fun _ => Buf.zero) = some ((), s) ∧
    FindsFile oneHandle [98] s t i ∧ Exhausted 1 s.handles (t.loadedDirBlk, some i) ∧ tfsOpen oneHandle
    [98] s = some (1, s') ∧
    s'.tfsLastError = .ok ∧ s'.handles 1 ≠ s.handles 1 ∧ ∀ r err K, ¬ OpenWithin oneHandle [98] s r err K := by
  have hrun : ((withOneOpen (State.boot fun _ => Buf.zero)).bind fun p => (tfsOpen oneHandle [98] p.2).map fun o =>
      (o.1, o.2.tfsLastError, [(p.2.handles 1).usageCount, (o.2.handles 1).usageCount])) = some (1, .ok, [0, 1]) := by
    decide +kernel
  rw [Option.bind_eq_some_iff] at hrun
  obtain ⟨⟨_, s⟩, hs, hrun⟩ := hrun
  rw [Option.map_eq_some_iff] at hrun
  obtain ⟨⟨r, s'⟩, hopen, heq⟩ := hrun
  simp only [Prod.mk.injEq, List.cons.injEq, and_true] at heq
  obtain ⟨rfl, herr, hbefore, hafter⟩ := heq
  have hno : ∀ r err K, ¬ OpenWithin oneHandle [98] s r err K := by
    intro r err K h
    obtain ⟨u, hu, herr', -, -⟩ := h.stays s.handles fun _ _ => rfl
    rw [show s.withTable s.handles = s from rfl, hopen] at hu
    cases hu
    exact absurd (h.inRange (herr'.symm.trans herr)).2 (by decide)
  rcases tfsOpen_cases hopen with ⟨hr, -⟩ | ⟨t, i, hfinds, hstep, -⟩
  · cases hr
  generalize hH : s'.handles = H at hstep
  rw [herr] at hstep
  generalize hr : (1 : Int) = r at hstep
  cases hstep with
  | @shared fd hfd _ _ =>
    have hfd : fd < 1 := hfd
    omega
  | @fresh fd _ _ hfirst hnone =>
    obtain rfl : fd = 1 := by omega
    refine ⟨s, s', t, i, hs, hfinds, ⟨hfirst, hnone⟩, hopen, herr, fun heq => ?_, hno⟩
    rw [heq, hbefore] at hafter
    cases hafter

/-- The first file of that volume, whose handle is shared. -/
theorem tfsOpen_within_shared : ∃ s, withOneOpen (State.boot fun _ => Buf.zero) = some ((), s) ∧
    ((∃ r err K, OpenWithin oneHandle [97] s r err K) ↔
      ∀ t i, FindsFile oneHandle [97] s t i → ¬ Exhausted 1 s.handles (t.loadedDirBlk, some i)) := by
  have hrun : ((withOneOpen (State.boot fun _ => Buf.zero)).bind fun p => (tfsOpen oneHandle [97] p.2).map fun o =>
      o.1) = some 0 := by
    decide +kernel
  rw [Option.bind_eq_some_iff] at hrun
  obtain ⟨⟨_, s⟩, hs, hrun⟩ := hrun
  rw [Option.map_eq_some_iff] at hrun
  obtain ⟨⟨r, s'⟩, hopen, -⟩ := hrun
  exact ⟨s, hs, tfsOpen_within (e := oneHandle) (by rw [hopen]; rfl)⟩

/-! ## tfs_close -/

/-- `tfs_close` counts a handle in use down, or leaves the table. -/
theorem tfsClose_cases {fd : Int} (h : tfsClose e fd s = some ((), s')) : OpenKeeps s s' ∧
    (s'.handles = s.handles ∨ ∃ k : Nat, fd = k ∧ k < e.maxFds ∧ 0 < (s.handles k).usageCount ∧ s'.tfsLastError = .ok ∧
      s'.handles = Function.update s.handles k { s.handles k with usageCount := (s.handles k).usageCount - 1 }) := by
  unfold tfsClose at h
  by_cases hpresent : s.tfsLastError = .noDev
  · rw [if_pos hpresent] at h
    cases h
    exact ⟨.refl, .inl rfl⟩
  have hkeep : ∀ {err : Err} (_ : err ≠ .noDev) (H : Nat → Handle), OpenKeeps s
      { s with tfsLastError := err, handles := H } :=
    fun herr H => ⟨rfl, rfl, rfl, rfl, rfl, rfl, rfl, rfl, fun _ => herr, [], .refl rfl, by simp⟩
  rw [if_neg hpresent, setErr_bind, Prog.gets_bind, id_eq] at h
  split at h
  · cases h
    exact ⟨hkeep Err.noConfusion _, .inl rfl⟩
  · rename_i hvalid
    simp only [invalidFd, not_or, not_lt, ge_iff_le, not_le] at hvalid
    obtain ⟨hpos, hlt, hused⟩ := hvalid
    cases h
    exact ⟨hkeep Err.noConfusion _,
      .inr ⟨fd.toNat, (Int.toNat_of_nonneg hpos).symm, by omega, Nat.pos_of_ne_zero hused, rfl, rfl⟩⟩

theorem tfsClose_returns (e : Env) (fd : Int) (s : State) : ∃ s', tfsClose e fd s = some ((), s') := by
  unfold tfsClose
  split
  · exact ⟨s, rfl⟩
  · rw [setErr_bind, Prog.gets_bind]
    split
    · exact ⟨{ s with tfsLastError := .invalFd }, rfl⟩
    · exact ⟨_, rfl⟩

/-! ## What the table keeps -/

/-- The places of a table of `m` handles: where one is in use, every other handle on its
place is free and stands behind it. -/
def TableOk (m : Nat) (H : Nat → Handle) : Prop :=
  ∀ f g, f < m → g < m → f ≠ g → 0 < (H g).usageCount → (H f).place = (H g).place → (H f).usageCount = 0 ∧ g < f

theorem TableOk.of_free (h : ∀ g < m, (H g).usageCount = 0) : TableOk m H := fun f g _ hg _ hused _ => by
  rw [h g hg] at hused
  exact absurd hused (Nat.lt_irrefl 0)

/-- No two handles in use are on one place. -/
theorem TableOk.unique {g : Nat} (h : TableOk m H) (hfd : fd < m) (hg : g < m)
    (hx : InUseOn H p fd) (hy : InUseOn H p g) : fd = g := by
  by_contra hne
  have hzero := (h fd g hfd hg hne hy.used (hx.place.trans hy.place.symm)).1
  have := hx.used
  omega

/-- Handles with the places and counts they had. -/
theorem TableOk.congr {K : Nat → Handle} (h : TableOk m H) (hplace : ∀ g, (K g).place = (H g).place)
    (hcount : ∀ g, (K g).usageCount = (H g).usageCount) : TableOk m K := by
  intro f g hf hg hne hpos heq
  rw [hcount] at hpos ⊢
  rw [hplace, hplace] at heq
  exact h f g hf hg hne hpos heq

/-- A handle keeps its place, and is in use at most where it was. -/
theorem TableOk.counted (h : TableOk m H) {u : Nat} (hu : 0 < u → 0 < (H fd).usageCount) :
    TableOk m (Function.update H fd { H fd with usageCount := u }) := by
  have hplace : ∀ g, (Function.update H fd { H fd with usageCount := u } g).place = (H g).place := by
    intro g
    by_cases hg : g = fd
    · subst hg
      rw [Function.update_self]
      rfl
    · rw [Function.update_of_ne hg]
  have hused : ∀ g, 0 < (Function.update H fd { H fd with usageCount := u } g).usageCount → 0 < (H g).usageCount := by
    intro g hg
    by_cases hgfd : g = fd
    · subst hgfd
      rw [Function.update_self] at hg
      exact hu hg
    · rwa [Function.update_of_ne hgfd] at hg
  intro f g hf hg hne hpos heq
  rw [hplace, hplace] at heq
  obtain ⟨hzero, hlt⟩ := h f g hf hg hne (hused g hpos) heq
  refine ⟨?_, hlt⟩
  by_contra hpos'
  have := hused f (Nat.pos_of_ne_zero hpos')
  omega

/-- The first free handle goes to a place no handle in use is on. -/
theorem TableOk.fresh {h' : Handle} (h : TableOk m H) (hfirst : ∀ g < fd, 0 < (H g).usageCount)
    (hnone : ∀ g < m, ¬ InUseOn H h'.place g) : TableOk m (Function.update H fd h') := by
  intro f g hf hg hne hpos heq
  by_cases hgfd : g = fd
  · subst hgfd
    rw [Function.update_self, Function.update_of_ne hne] at heq
    rw [Function.update_of_ne hne]
    have hzero : (H f).usageCount = 0 := by
      by_contra hused
      exact hnone f hf ⟨Nat.pos_of_ne_zero hused, heq⟩
    refine ⟨hzero, ?_⟩
    by_contra hle
    have := hfirst f (by omega)
    omega
  · rw [Function.update_of_ne hgfd] at hpos heq
    by_cases hffd : f = fd
    · subst hffd
      rw [Function.update_self] at heq
      exact absurd ⟨hpos, heq.symm⟩ (hnone g hg)
    · rw [Function.update_of_ne hffd] at heq ⊢
      exact h f g hf hg hne hpos heq

theorem OpenStep.tableOk {r : Int} {err : Err} (h : OpenStep m o H r err H') (ht : TableOk m H) : TableOk m H' := by
  cases h with
  | shared _ hplace _ => exact ht.counted fun _ => hplace.used
  | full _ _ => exact ht
  | fresh _ _ hfirst hnone => exact ht.fresh hfirst hnone

/-! ## The count of an item -/

/-- `item_usage_count` on a table: the count of the first handle on the place. -/
theorem itemUsageCountLoop_of_notMem {fds : List Nat} {item : Nat}
    (h : ∀ g ∈ fds, (s.handles g).place = (s.loadedDirBlk, some item) → (s.handles g).usageCount = 0) :
    itemUsageCountLoop s item fds = 0 := by
  induction fds with
  | nil => rfl
  | cons g fds ih =>
    rw [itemUsageCountLoop]
    split
    · rename_i hg
      exact h g (by simp) (by rw [Handle.place, hg.1, hg.2])
    · exact ih fun k hk => h k (by simp [hk])

theorem itemUsageCountLoop_of_holds {fds : List Nat} {item : Nat} (hmem : fd ∈ fds)
    (hplace : (s.handles fd).place = (s.loadedDirBlk, some item)) (hsorted : fds.Pairwise (· < ·))
    (hfirst : ∀ g ∈ fds, g < fd → (s.handles g).place ≠ (s.loadedDirBlk, some item)) :
    itemUsageCountLoop s item fds = (s.handles fd).usageCount := by
  induction fds with
  | nil => simp at hmem
  | cons g fds ih =>
    rw [List.pairwise_cons] at hsorted
    rw [itemUsageCountLoop]
    rcases List.mem_cons.mp hmem with rfl | hmem
    · simp only [Handle.place, Prod.mk.injEq] at hplace
      rw [if_pos hplace]
    · rw [if_neg, ih hmem hsorted.2 fun k hk => hfirst k (by simp [hk])]
      intro hg
      exact hfirst g (by simp) (hsorted.1 fd hmem) (by rw [Handle.place, hg.1, hg.2])

/-- What `item_usage_count` returns for the item at a place. -/
def usageOf (s : State) (m : Nat) (p : Nat × Nat) : Nat :=
  itemUsageCountLoop { s with loadedDirBlk := p.1 } p.2 (List.range m)

/-- The handles are in order: at most one in use on a place, no free one in front of it,
and `item_usage_count` returns its count, or 0 where there is none. -/
structure TableInOrder (m : Nat) (s : State) : Prop where
  unique : ∀ f g, f < m → g < m → 0 < (s.handles f).usageCount → 0 < (s.handles g).usageCount →
    (s.handles f).place = (s.handles g).place → f = g
  behind : ∀ f g, f < m → g < m → (s.handles f).usageCount = 0 → 0 < (s.handles g).usageCount →
    (s.handles f).place = (s.handles g).place → g < f
  live : ∀ b i fd, fd < m → InUseOn s.handles (b, some i) fd → usageOf s m (b, i) = (s.handles fd).usageCount
  none : ∀ b i, (∀ fd < m, ¬ InUseOn s.handles (b, some i) fd) → usageOf s m (b, i) = 0

theorem TableOk.inOrder (h : TableOk m s.handles) : TableInOrder m s := by
  refine ⟨fun f g hf hg hposf hposg heq => ?_, fun f g hf hg hzero hpos heq => ?_, fun b i fd hfd hh =>
    ?_, fun b i hnone => ?_⟩
  · exact h.unique hf hg ⟨hposf, rfl⟩ ⟨hposg, heq.symm⟩
  · have hne : f ≠ g := by
      rintro rfl
      omega
    exact (h f g hf hg hne hpos heq).2
  · refine itemUsageCountLoop_of_holds (List.mem_range.mpr hfd) hh.place (List.pairwise_lt_range) fun g hg hlt heq => ?_
    have hgt := (h g fd (List.mem_range.mp hg) hfd (Nat.ne_of_lt hlt) hh.used (heq.trans hh.place.symm)).2
    omega
  · refine itemUsageCountLoop_of_notMem fun g hg heq => ?_
    by_contra hused
    exact hnone g (List.mem_range.mp hg) ⟨Nat.pos_of_ne_zero hused, heq⟩

/-! ## Runs -/

/-- The calls on the table, and the moves between directories they may need. -/
def Op.onTable : Op → Bool
  | .openFile _ | .close _ | .changeDirRoot | .changeDirParent | .changeDir _ => true
  | _ => false

/-- A program that leaves the handles. -/
abbrev LeavesHandles {α : Type} (p : M α) : Prop := Prog.Steps (fun s s' : State => s'.handles = s.handles) p

theorem Quiet.leavesHandles {α : Type} {p : M α} (h : Quiet p) : LeavesHandles p := h.mono fun _ _ => Untouched.handles

theorem LeavesHandles.enter {α : Type} {r a : α} {p : M α} (hp : LeavesHandles p) (h : enter r (out p) s = some (a, s')) :
    s'.handles = s.handles := by
  by_cases hd : s.tfsLastError = .noDev
  · rw [enter_noDev hd] at h
    cases h
    rfl
  · rw [enter_run hd, out_run, Option.map_eq_some_iff] at h
    obtain ⟨⟨a', t⟩, hrun, heq⟩ := h
    cases heq
    have hkeep := hp.lift (Q := fun s s' => s'.handles = s.handles) (fun _ => rfl) (fun _ _ _ h1 h2 => h2.trans h1) hrun
    exact hkeep

theorem changeDir_handles (h : tfsChangeDir e name s = some ((), s')) : s'.handles = s.handles := by
  refine LeavesHandles.enter ((findFile_quiet name).leavesHandles.bind fun item => ifOk_steps ?_) h
  refine Prog.Steps.bind (.gets _) fun b => ?_
  cases item with
  | none => exact (setErr_quiet _ Err.noConfusion).leavesHandles
  | some i => exact .ite (fun _ => (setErr_quiet _ Err.noConfusion).leavesHandles) fun _ => Prog.Steps.modify fun _ => rfl

theorem changeDirParent_handles (h : tfsChangeDirParent e s = some ((), s')) : s'.handles = s.handles := by
  refine LeavesHandles.enter (Prog.Steps.bind (.gets _) fun t => ?_) h
  refine (looks_quiet (driveReadBlock_looks (e := e) _)).leavesHandles.bind fun _ => ifOk_steps ?_
  refine Prog.Steps.bind (.gets _) fun b => .ite (fun _ => (setErr_quiet _ Err.noConfusion).leavesHandles) fun _ => ?_
  exact Prog.Steps.modify fun _ => rfl

/-- One call keeps the table in order. -/
theorem TableOk.step (ht : TableOk e.maxFds s.handles) {c : Op} (hc : c.onTable = true) (h : c.exec e s = some ((), s')) :
    TableOk e.maxFds s'.handles := by
  obtain ⟨a, h⟩ := drop_eq_some h
  cases c with
  | openFile name =>
    rcases tfsOpen_cases h with ⟨-, hh, -⟩ | ⟨t, i, -, hstep, -⟩
    · exact hh ▸ ht
    · exact hstep.tableOk ht
  | close fd =>
    rcases (tfsClose_cases h).2 with hh | ⟨k, -, -, hused, -, hh⟩
    · exact hh ▸ ht
    · rw [hh]
      exact ht.counted fun _ => hused
  | changeDirRoot =>
    have h : tfsChangeDirRoot s = some ((), s') := h
    cases h
    exact ht
  | changeDirParent => exact changeDirParent_handles h ▸ ht
  | changeDir name => exact changeDir_handles h ▸ ht
  | init | format | getUsed | readDir _ | createDir _ | writeFile _ _ _ _ | readFile _ _ | delete _ _ | rename _ _
  | stat _ | touch _ | trunc _ _ | write _ _ _ _ | read _ _ _ => cases hc

/-- **In every table a run of opens and closes leads to**, from one with no handle in
use, the handles are in order, and `item_usage_count` returns the count of the one in use. -/
theorem table_inOrder (hfree : ∀ fd < e.maxFds, (s.handles fd).usageCount = 0) {ops : List Op}
    (hops : ∀ c ∈ ops, c.onTable = true) (hrun : Prog.runAll (Op.exec e) ops s = some ((), s')) :
    TableInOrder e.maxFds s' := by
  have ht : TableOk e.maxFds s'.handles := Prog.runAll_keeps (I := fun t => TableOk e.maxFds t.handles)
    (fun c hc t t' ht h => ht.step (hops c hc) h) hrun (.of_free hfree)
  exact ht.inOrder

/-- A file opened twice and closed on a volume of sixteen blocks. -/
theorem table_inOrder_shared : ∃ s s', withEmptyFile (Env.linux 16) (State.boot fun _ => Buf.zero) = some ((), s) ∧
    Prog.runAll (Op.exec (Env.linux 16)) [.openFile [97], .openFile [97], .close 0] s = some ((), s') ∧
    TableInOrder 32 s' := by
  have hrun : ((withEmptyFile (Env.linux 16) (State.boot fun _ => Buf.zero)).bind fun p =>
      (Prog.runAll (Op.exec (Env.linux 16)) [.openFile [97], .openFile [97], .close 0] p.2).map fun q =>
        ((List.range 32).map fun fd => (p.2.handles fd).usageCount, (q.2.handles 0).usageCount)) =
      some (List.replicate 32 0, 1) := by decide +kernel
  rw [Option.bind_eq_some_iff] at hrun
  obtain ⟨⟨_, s⟩, hs, hrun⟩ := hrun
  rw [Option.map_eq_some_iff] at hrun
  obtain ⟨⟨_, s'⟩, hs', heq⟩ := hrun
  simp only [Prod.mk.injEq] at heq
  have hfree : ∀ fd < 32, (s.handles fd).usageCount = 0 := by
    intro fd hfd
    have hmem : (s.handles fd).usageCount ∈ (List.range 32).map fun fd => (s.handles fd).usageCount :=
      List.mem_map_of_mem (List.mem_range.mpr hfd)
    rw [heq.1] at hmem
    exact List.eq_of_mem_replicate hmem
  exact ⟨s, s', hs, hs', table_inOrder (e := Env.linux 16) hfree (by decide) hs'⟩

end TinyFs
