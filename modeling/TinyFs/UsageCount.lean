/-
The count of a handle. `usage_count` has eight bits: as long as it stays below 255
before each open of the file, it is at least the number of opens that have not been
closed, and a handle opened more often than closed stays the one on its file. The
256th open brings it back to 0, which every function reads as a free handle.
-/
import TinyFs.HandleTable
import TinyFs.ParentLinks

namespace TinyFs

open Bytes

variable {e : Env} {s s' t : State} {name : List UInt8} {m fd i n k : Nat} {H H' : Nat → Handle}
  {p : Nat × Option Nat} {o : Handle}

/-! ## Runs of opens and closes -/

/-- Room for one more open of the file at a place: its count is below 255, and it has a
handle or finds a free one. -/
structure HasRoom (m : Nat) (H : Nat → Handle) (p : Nat × Option Nat) : Prop where
  count : ∀ g < m, InUseOn H p g → (H g).usageCount < 255
  handle : ¬ Exhausted m H p

/-- A run of `tfs_open` and `tfs_close` in which the file at place `p` was opened `n`
times and its descriptor `fd` closed `k` times, every open of it with room for one more;
other files are opened and closed as well. -/
inductive Counted (e : Env) (p : Nat × Option Nat) (fd : Nat) (s : State) : Nat → Nat → State → Prop
  | start : Counted e p fd s 0 0 s
  | opens {n k i : Nat} {t t' u : State} {name : List UInt8} {r : Int} : Counted e p fd s n k t → FindsFile e name t u i →
      (u.opened i).place = p → HasRoom e.maxFds t.handles p → tfsOpen e name t = some (r, t') → (k = n → r = fd) →
      Counted e p fd s (n + 1) k t'
  | closes {n k : Nat} {t t' : State} : Counted e p fd s n k t → k < n → tfsClose e fd t = some ((), t') →
      Counted e p fd s n (k + 1) t'
  | opensOther {n k : Nat} {t t' : State} {name : List UInt8} {r : Int} : Counted e p fd s n k t →
      (∀ u i, FindsFile e name t u i → (u.opened i).place ≠ p) → tfsOpen e name t = some (r, t') → Counted e p fd s n k t'
  | closesOther {n k : Nat} {t t' : State} {g : Int} : Counted e p fd s n k t → g ≠ fd → tfsClose e g t = some ((), t') →
      Counted e p fd s n k t'

/-- What such a run keeps of the table. -/
structure StaysOpen (m : Nat) (p : Nat × Option Nat) (fd n k : Nat) (H : Nat → Handle) : Prop where
  table : TableOk m H
  le : k ≤ n
  handle : k < n → fd < m ∧ (H fd).place = p ∧ n ≤ k + (H fd).usageCount

theorem StaysOpen.inUseOn (h : StaysOpen m p fd n k H) (hk : k < n) : InUseOn H p fd := by
  obtain ⟨-, hplace, hcount⟩ := h.handle hk
  exact ⟨by omega, hplace⟩

/-- One more open of the file. -/
theorem StaysOpen.opens {r : Int} {err : Err} (h : StaysOpen m p fd n k H) (hstep : OpenStep m o H r err H')
    (hplace : o.place = p)
    (hone : o.usageCount = 1) (hroom : HasRoom m H p) (hfirst : k = n → r = fd) : StaysOpen m p fd (n + 1) k H' := by
  have hle := h.le
  refine ⟨hstep.tableOk h.table, by omega, fun _ => ?_⟩
  subst hplace
  obtain ⟨-, ⟨-, hlt⟩, -⟩ := hstep.within hroom.handle
  cases hstep with
  | @shared f hf huse _ =>
    have hcount := hroom.count f hf huse
    have hf' : f = fd := by
      rcases Nat.lt_or_eq_of_le hle with hk | hk
      · exact h.table.unique hf (h.handle hk).1 huse (h.inUseOn hk)
      · exact Int.ofNat.inj (hfirst hk)
    subst hf'
    rw [Function.update_self]
    refine ⟨hf, huse.place, ?_⟩
    show n + 1 ≤ k + ((H f).usageCount + 1) % 256
    rw [Nat.mod_eq_of_lt (by omega)]
    rcases Nat.lt_or_eq_of_le hle with hk | hk
    · have := (h.handle hk).2.2
      omega
    · omega
  | full hused hnone => exact absurd ⟨fun g hg => hused g (Nat.le_of_lt hg), hnone⟩ hroom.handle
  | @fresh f _ _ _ hnone =>
    rcases Nat.lt_or_eq_of_le hle with hk | hk
    · exact absurd (h.inUseOn hk) (hnone fd (h.handle hk).1)
    · obtain rfl : f = fd := Int.ofNat.inj (hfirst hk)
      rw [Function.update_self]
      exact ⟨by omega, rfl, by omega⟩

/-- An open of another file. -/
theorem StaysOpen.opensOther {r : Int} {err : Err} (h : StaysOpen m p fd n k H) (hstep : OpenStep m o H r err H')
    (hplace : o.place ≠ p) : StaysOpen m p fd n k H' ∧ (k < n → r ≠ fd ∧ H' fd = H fd) := by
  have hsame : k < n → r ≠ fd ∧ H' fd = H fd := by
    intro hk
    have huse := h.inUseOn hk
    cases hstep with
    | @shared f hf huse' _ =>
      have hne : fd ≠ f := by
        rintro rfl
        exact hplace (huse'.place.symm.trans huse.place)
      exact ⟨by omega, Function.update_of_ne hne _ _⟩
    | full _ _ => exact ⟨by omega, rfl⟩
    | @fresh f _ hzero _ _ =>
      have hne : fd ≠ f := by
        rintro rfl
        have := huse.used
        omega
      exact ⟨by omega, Function.update_of_ne hne _ _⟩
  refine ⟨⟨hstep.tableOk h.table, h.le, fun hk => ?_⟩, hsame⟩
  rw [(hsame hk).2]
  exact h.handle hk

/-- The count of one handle goes down. -/
theorem StaysOpen.counted {g : Nat} (h : StaysOpen m p fd n k H) :
    TableOk m (Function.update H g { H g with usageCount := (H g).usageCount - 1 }) :=
  h.table.counted fun hpos => by omega

theorem StaysOpen.closes {t : State} (h : StaysOpen e.maxFds p fd n k s.handles) (hk : k < n)
    (hclose : tfsClose e fd s = some ((), t)) : StaysOpen e.maxFds p fd n (k + 1) t.handles := by
  rcases (tfsClose_cases hclose).2 with hh | ⟨g, heq, -, -, -, hh⟩
  · rw [hh]
    refine ⟨h.table, hk, fun hk' => ?_⟩
    obtain ⟨hfd, hplace, hcount⟩ := h.handle hk
    exact ⟨hfd, hplace, by omega⟩
  · obtain rfl : fd = g := Int.ofNat.inj heq
    rw [hh]
    refine ⟨h.counted, hk, fun hk' => ?_⟩
    obtain ⟨hfd, hplace, hcount⟩ := h.handle hk
    rw [Function.update_self]
    refine ⟨hfd, hplace, ?_⟩
    show n ≤ k + 1 + ((s.handles fd).usageCount - 1)
    omega

theorem StaysOpen.closesOther {t : State} {g : Int} (h : StaysOpen e.maxFds p fd n k s.handles) (hg : g ≠ fd)
    (hclose : tfsClose e g s = some ((), t)) : StaysOpen e.maxFds p fd n k t.handles := by
  rcases (tfsClose_cases hclose).2 with hh | ⟨f, heq, -, -, -, hh⟩
  · rw [hh]
    exact h
  · rw [hh]
    refine ⟨h.counted, h.le, fun hk => ?_⟩
    rw [Function.update_of_ne (by rintro rfl; exact hg heq)]
    exact h.handle hk

theorem Counted.staysOpen (h : Counted e p fd s n k t) (htable : TableOk e.maxFds s.handles) :
    StaysOpen e.maxFds p fd n k t.handles := by
  induction h with
  | start => exact ⟨htable, Nat.le_refl 0, fun h => absurd h (Nat.lt_irrefl 0)⟩
  | opens _ hfinds hplace hroom hopen hfirst ih =>
    obtain ⟨r', t'', hrun, hstep, -⟩ := hfinds.open
    rw [hopen] at hrun
    cases hrun
    exact ih.opens hstep hplace rfl hroom hfirst
  | closes _ hk hclose ih => exact ih.closes hk hclose
  | opensOther _ hother hopen ih =>
    rcases tfsOpen_cases hopen with ⟨-, hh, -⟩ | ⟨u, i, hfinds, hstep, -⟩
    · rw [hh]
      exact ih
    · exact (ih.opensOther hstep (hother u i hfinds)).1
  | closesOther _ hg hclose ih => exact ih.closesOther hg hclose

/-! ## A handle in use -/

/-- A call on a valid descriptor does not end with the error for an invalid one. -/
theorem validFd_err {α : Type} {r a b : α} {g : Int} {q : M α} (hvalid : ¬ invalidFd e s g) (hq : Lates e q)
    (h : enter r (do
      let s ← Prog.gets id
      if invalidFd e s g then out do
        setErr .invalFd
        pure b
      else q) s = some (a, s')) : s'.tfsLastError ≠ .invalFd := by
  by_cases hd : s.tfsLastError = .noDev
  · rw [enter_noDev hd] at h
    cases h
    rw [hd]
    exact Err.noConfusion
  · rw [enter_run hd, Prog.gets_bind] at h
    split at h
    · rename_i hinvalid
      exact absurd hinvalid hvalid
    · intro herr
      have hfirm := unrefused_of_run (lates_firm hq) h rfl
      rw [herr] at hfirm
      cases hfirm

/-- A lookup that finds the item does not look for a free one. -/
theorem findFile_anyWant {want : Bool} (h : findFile e name false s = some (some i, t)) :
    findFile e name want s = some (some i, t) := by
  unfold findFile at h ⊢
  split at h
  · cases h
  · rename_i hname
    rw [if_neg hname]
    rw [Prog.gets_bind] at h ⊢
    obtain ⟨w, u, hwalk, h⟩ := Prog.bind_eq_some.mp h
    rw [Prog.bind_some hwalk]
    cases w with
    | error => cases h
    | found j => exact h
    | missing free => cases h

/-- What holds of the handle of a file that is open: calls through it are not rejected, the
file is busy, and other files get other handles. -/
structure InUse (e : Env) (p : Nat × Option Nat) (fd : Nat) (s : State) : Prop where
  lt : fd < e.maxFds
  used : InUseOn s.handles p fd
  read : ∀ len offset a s', tfsRead e fd len offset s = some (a, s') → s'.tfsLastError ≠ .invalFd
  write : ∀ data len offset a s', tfsWrite e fd data len offset s = some (a, s') → s'.tfsLastError ≠ .invalFd
  delete : ∀ name type t i, FindsFile e name s t i → (t.opened i).place = p → type = 0 ∨ type = itemFile →
    ∃ s', tfsDelete e name type s = some ((), s') ∧ s'.tfsLastError = .fileBusy
  writeFile : ∀ name data len overwrite t i, FindsFile e name s t i → (t.opened i).place = p →
    ∃ s', tfsWriteFile e name data len overwrite s = some ((), s') ∧
      s'.tfsLastError = if overwrite then .fileBusy else .fileExist
  kept : ∀ name r s', (∀ t i, FindsFile e name s t i → (t.opened i).place ≠ p) → tfsOpen e name s = some (r, s') →
    r ≠ fd ∧ s'.handles fd = s.handles fd

theorem StaysOpen.usage (h : StaysOpen e.maxFds p fd n k s.handles) (hk : k < n) (hfinds : FindsFile e name s t i)
    (hplace : (t.opened i).place = p) : 0 < itemUsageCountLoop t i (List.range e.maxFds) := by
  have huse := h.inUseOn hk
  have hh : t.handles = s.handles := (untouched_of_run (findFile_quiet name) hfinds.run).handles
  have hat : (t.handles fd).place = (t.loadedDirBlk, some i) := by
    rw [hh, huse.place, ← hplace]
    rfl
  rw [itemUsageCountLoop_of_holds (List.mem_range.mpr (h.handle hk).1) hat List.pairwise_lt_range fun g hg hlt heq =>
    ?_, hh]
  · exact huse.used
  · rw [hh] at heq hat
    have := (h.table g fd (List.mem_range.mp hg) (h.handle hk).1 (Nat.ne_of_lt hlt) huse.used (heq.trans hat.symm)).2
    omega

theorem StaysOpen.delete {type : UInt8} (h : StaysOpen e.maxFds p fd n k s.handles) (hk : k < n)
    (hfinds : FindsFile e name s t i) (hplace : (t.opened i).place = p) (htype : type = 0 ∨ type = itemFile) :
    ∃ s', tfsDelete e name type s = some ((), s') ∧ s'.tfsLastError = .fileBusy := by
  have hnone : ¬ (type ≠ 0 ∧ t.blkBuf.itemType i ≠ type) := by
    rintro ⟨h0, hne⟩
    rcases htype with rfl | rfl
    · exact h0 rfl
    · exact hne hfinds.file
  rw [tfsDelete, enter_started hfinds.present, Prog.bind_some hfinds.run, ifOk_ok hfinds.err, blkBuf_bind]
  simp only [hnone, if_false, itemUsageCount, Prog.gets_bind, gt_iff_lt, h.usage hk hfinds hplace, if_true]
  exact ⟨{ t with tfsLastError := .fileBusy }.call .deselect, rfl, rfl⟩

theorem StaysOpen.writeFile {data : List UInt8} {len : Nat} {overwrite : Bool} (h : StaysOpen e.maxFds p fd n k s.handles)
    (hk : k < n) (hfinds : FindsFile e name s t i) (hplace : (t.opened i).place = p) :
    ∃ s', tfsWriteFile e name data len overwrite s = some ((), s') ∧
      s'.tfsLastError = if overwrite then .fileBusy else .fileExist := by
  have hlive : ¬ itemFile = itemFree := by decide
  rw [tfsWriteFile, enter_started hfinds.present, Prog.bind_some (findFile_anyWant hfinds.run), ifOk_ok hfinds.err]
  simp only [Option.getD_some, blkBuf_bind, ne_eq, hfinds.file, hlive, not_false_eq_true, if_true, not_true_eq_false,
    or_false]
  cases overwrite with
  | false => exact ⟨{ t with tfsLastError := .fileExist }.call .deselect, rfl, rfl⟩
  | true =>
    simp only [Bool.not_true, Bool.false_eq_true, if_false, itemUsageCount, Prog.gets_bind, gt_iff_lt,
      h.usage hk hfinds hplace, if_true]
    exact ⟨{ t with tfsLastError := .fileBusy }.call .deselect, rfl, rfl⟩

/-- **A handle opened more often than closed is in use,** as long as every open of the
file found its count below 255 and room in the table. -/
theorem Counted.inUse (htable : TableOk e.maxFds s.handles) (h : Counted e p fd s n k t) (hk : k < n) :
    InUse e p fd t := by
  have hopen := h.staysOpen htable
  have hlt := (hopen.handle hk).1
  have huse := hopen.inUseOn hk
  have hvalid : ¬ invalidFd e t fd := by
    have := huse.used
    simp only [invalidFd, Int.toNat_natCast]
    omega
  refine ⟨hlt, huse, ?_, ?_, ?_, ?_, ?_⟩
  · intro len offset a t' h
    exact validFd_err hvalid (readBody_lates fd len offset) h
  · intro data len offset a t' h
    exact validFd_err hvalid (writeBody_lates fd data len offset) h
  · intro name type u i hfinds hplace htype
    exact hopen.delete hk hfinds hplace htype
  · intro name data len overwrite u i hfinds hplace
    exact hopen.writeFile hk hfinds hplace
  · intro name r t' hother h
    rcases tfsOpen_cases h with ⟨rfl, hh, -⟩ | ⟨u, i, hfinds, hstep, -⟩
    · exact ⟨by omega, by rw [hh]⟩
    · exact (hopen.opensOther hstep (hother u i hfinds)).2 hk

/-! ## The 256th open -/

/-- `tfs_open`, `k` times: the descriptors. -/
def openTimes (e : Env) (name : List UInt8) : Nat → M (List Int)
  | 0 => pure []
  | k + 1 => do
    let r ← tfsOpen e name
    let rs ← openTimes e name k
    pure (r :: rs)

/-- The file of the entry at slot `q` is in use with handle 0, and counted `u` times. -/
structure OpenedTimes (e : Env) (n : Nat) (name : List UInt8) (q : Nat × Nat) (L : Layout) (u : Nat) (s : State) : Prop
    extends Sys n s L where
  lookup : s.lookup e n name = some q
  file : (itemAt s.dev q).type = itemFile
  place : (s.handles 0).place = (q.1, some q.2)
  count : (s.handles 0).usageCount = u

theorem OpenKeeps.sys {L : Layout} (h : OpenKeeps s s') (hs : Sys n s L) : Sys n s' L := by
  have hs' := Untouched.sys h hs
  exact ⟨⟨hs'.mounted.pos, hs'.mounted.lt, hs'.mounted.count, hs'.mounted.lastBlk, hs'.mounted.lastLen⟩, hs'.cache,
    hs'.volume,
    hs'.cur, hs'.dev⟩

theorem OpenKeeps.lookup (h : OpenKeeps s s') : s'.lookup e n name = s.lookup e n name := by
  rw [State.lookup, State.lookup, h.dev, h.cur]

/-- One more open counts handle 0 up, and is all that happens to the table and the device. -/
theorem OpenedTimes.open {q : Nat × Nat} {L : Layout} {u : Nat} (he : e.NeverFails) (hf : n ≤ e.fuel) (hm : 0 < e.maxFds)
    (hname : name.headD 0 ≠ 0) (h : OpenedTimes e n name q L u s) (hu : 0 < u) :
    ∃ s', tfsOpen e name s = some (0, s') ∧ OpenedTimes e n name q L ((u + 1) % 256) s' ∧ s'.dev = s.dev ∧
      s'.handles = Function.update s.handles 0 { s.handles 0 with usageCount := (u + 1) % 256 } := by
  obtain ⟨t, hfinds, hplace, -⟩ := h.toSys.findsFile he hf hname h.lookup h.file
  obtain ⟨r, s₁, hopen, hstep, hkeeps⟩ := hfinds.open
  have huse : InUseOn s.handles (t.opened q.2).place 0 := ⟨by rw [h.count]; exact hu, h.place.trans hplace.symm⟩
  have hstep' : r = 0 ∧ s₁.handles = Function.update s.handles 0 { s.handles 0 with usageCount := (u + 1) % 256 } := by
    rw [← h.count]
    generalize s₁.tfsLastError = err at hstep
    generalize s₁.handles = H at hstep
    cases hstep with
    | @shared fd _ _ hfirst =>
      obtain rfl : fd = 0 := by
        by_contra hne
        exact hfirst 0 (Nat.pos_of_ne_zero hne) huse
      exact ⟨rfl, rfl⟩
    | full _ hnone => exact absurd huse (hnone 0 hm)
    | fresh _ _ _ hnone => exact absurd huse (hnone 0 hm)
  obtain ⟨rfl, hh⟩ := hstep'
  refine ⟨s₁, hopen, ⟨hkeeps.sys h.toSys, hkeeps.lookup.trans h.lookup, hkeeps.dev ▸ h.file, ?_, ?_⟩, hkeeps.dev, hh⟩
  · rw [hh, Function.update_self]
    exact h.place
  · rw [hh, Function.update_self]

theorem openTimes_count {q : Nat × Nat} {L : Layout} {u : Nat} (he : e.NeverFails) (hf : n ≤ e.fuel) (hm : 0 < e.maxFds)
    (hname : name.headD 0 ≠ 0) (h : OpenedTimes e n name q L u s) (hu : 0 < u) (hlt : u < 256) (hk : u + k ≤ 256) :
    ∃ s', openTimes e name k s = some (List.replicate k 0, s') ∧ OpenedTimes e n name q L ((u + k) % 256) s' ∧
    s'.dev = s.dev ∧
      s'.handles = Function.update s.handles 0 { s.handles 0 with usageCount := (u + k) % 256 } := by
  induction k generalizing s u with
  | zero =>
    rw [Nat.add_zero, Nat.mod_eq_of_lt hlt]
    refine ⟨s, rfl, h, rfl, ?_⟩
    rw [← h.count]
    exact (Function.update_eq_self 0 s.handles).symm
  | succ k ih =>
    obtain ⟨s₁, hopen, h₁, hdev, hh⟩ := h.open he hf hm hname hu
    have hcons : ∀ {rs : List Int} {s' : State}, openTimes e name k s₁ = some (rs, s') →
        openTimes e name (k + 1) s = some (0 :: rs, s') := by
      intro rs s' hrun
      rw [openTimes, Prog.bind_some hopen, Prog.bind_some hrun]
      rfl
    cases k with
    | zero => exact ⟨s₁, hcons rfl, h₁, hdev, hh⟩
    | succ k =>
      rw [Nat.mod_eq_of_lt (by omega)] at h₁
      obtain ⟨s', hrun, h', hdev', hh'⟩ := ih h₁ (by omega) (by omega) (by omega)
      rw [show u + 1 + (k + 1) = u + (k + 1 + 1) by omega] at h' hh'
      refine ⟨s', hcons hrun, h', hdev'.trans hdev, ?_⟩
      rw [hh', hh, Function.update_idem, Function.update_self]

/-- The first open of all takes handle 0. -/
theorem OpenStep.only {m : Nat} {o : Handle} {H H' : Nat → Handle} {r : Int} {err : Err} (h : OpenStep m o H r err H')
    (hm : 0 < m) (hfree : ∀ fd < m, (H fd).usageCount = 0) : r = 0 ∧ H' = Function.update H 0 o := by
  cases h with
  | @shared fd hfd huse _ =>
    have := huse.used
    rw [hfree fd hfd] at this
    omega
  | full hused _ =>
    have := hused 0 (Nat.zero_le _)
    rw [hfree 0 hm] at this
    omega
  | @fresh fd _ _ hfirst _ =>
    obtain rfl : fd = 0 := by
      by_contra hne
      have := hfirst 0 (Nat.pos_of_ne_zero hne)
      rw [hfree 0 hm] at this
      omega
    exact ⟨rfl, rfl⟩

/-- The empty file of a volume of sixteen blocks, opened for the first time. -/
theorem openedOnce_sixteen : ∃ s s₁ t L, withEmptyFile (Env.linux 16) (State.boot fun _ => Buf.zero) = some ((), s) ∧
    (∀ fd < 32, (s.handles fd).usageCount = 0) ∧ FindsFile (Env.linux 16) [97] s t 0 ∧ (t.opened 0).place = (1, some 0) ∧
    tfsOpen (Env.linux 16) [97] s = some (0, s₁) ∧ s₁.handles = Function.update s.handles 0 (t.opened 0) ∧
    OpenedTimes (Env.linux 16) 16 [97] (1, 0) L 1 s₁ := by
  have hrun : (withEmptyFile (Env.linux 16) (State.boot fun _ => Buf.zero)).map (fun p =>
      (List.range 32).map fun fd => (p.2.handles fd).usageCount) = some (List.replicate 32 0) := by decide +kernel
  obtain ⟨s, dirs, files, hs, hrest, hlook, hitem⟩ := withEmptyFile_ok
  rw [hs, Option.map_some, Option.some.injEq] at hrun
  have hfree : ∀ fd < 32, (s.handles fd).usageCount = 0 := by
    intro fd hfd
    have hmem : (s.handles fd).usageCount ∈ (List.range 32).map fun fd => (s.handles fd).usageCount :=
      List.mem_map_of_mem (List.mem_range.mpr hfd)
    rw [hrun] at hmem
    exact List.eq_of_mem_replicate hmem
  have hfile : (itemAt s.dev (1, 0)).type = itemFile := by rw [hitem]
  obtain ⟨t, hfinds, hplace, -⟩ := hrest.sys.findsFile (Env.linux_neverFails 16) (by decide) (by decide) hlook hfile
  obtain ⟨r, s₁, hopen, hstep, hkeeps⟩ := hfinds.open
  obtain ⟨rfl, hh⟩ := hstep.only (by decide) hfree
  refine ⟨s, s₁, t, _, hs, hfree, hfinds, hplace, hopen, hh, hkeeps.sys hrest.sys, hkeeps.lookup.trans hlook,
    hkeeps.dev ▸ hfile, ?_, ?_⟩
  · rw [hh, Function.update_self]
    exact hplace
  · rw [hh, Function.update_self]
    rfl

/-- The 256th open takes the descriptor back: reading through it is rejected. -/
theorem usageCount_wraps : ∃ s s' t, withEmptyFile (Env.linux 16) (State.boot fun _ => Buf.zero) = some ((), s) ∧
    openTimes (Env.linux 16) [97] 256 s = some (List.replicate 256 0, s') ∧
    tfsRead (Env.linux 16) 0 1 0 s' = some ((0, []), t) ∧ t.tfsLastError = .invalFd := by
  obtain ⟨s, s₁, -, L, hs, -, -, -, hopen, -, h₁⟩ := openedOnce_sixteen
  obtain ⟨s', hrun, h', -⟩ := openTimes_count (k := 255) (Env.linux_neverFails 16) (by decide) (by decide) (by decide) h₁
    (by decide) (by decide) (by decide)
  have hinvalid : invalidFd (Env.linux 16) s' 0 := .inr (.inr h'.count)
  refine ⟨s, s', { s'.started with tfsLastError := .invalFd }.call .deselect, hs, ?_, ?_, rfl⟩
  · rw [openTimes, Prog.bind_some hopen, Prog.bind_some hrun]
    rfl
  · rw [tfsRead, enter_run h'.dev, Prog.gets_bind]
    exact if_pos hinvalid ▸ rfl

/-- A file opened twice and closed once on that volume. -/
theorem Counted.inUse_twice : ∃ s t, withEmptyFile (Env.linux 16) (State.boot fun _ => Buf.zero) = some ((), s) ∧
    Counted (Env.linux 16) (1, some 0) 0 s 2 1 t ∧ InUse (Env.linux 16) (1, some 0) 0 t := by
  obtain ⟨s, s₁, t, L, hs, hfree, hfinds, hplace, hopen, hh, h₁⟩ := openedOnce_sixteen
  obtain ⟨t₁, hfinds₁, hplace₁, -⟩ := h₁.toSys.findsFile (Env.linux_neverFails 16) (by decide)
      (by decide) h₁.lookup h₁.file
  obtain ⟨s₂, hopen₂, -⟩ := h₁.open (Env.linux_neverFails 16) (by decide) (by decide) (by decide) (by decide)
  obtain ⟨s₃, hclose⟩ := tfsClose_returns (Env.linux 16) (0 : Nat) s₂
  have hroom : HasRoom 32 s.handles (1, some 0) := by
    refine ⟨fun g hg huse => ?_, fun hfull => ?_⟩
    · rw [hfree g hg]
      decide
    · have := hfull.1 0 (by decide)
      rw [hfree 0 (by decide)] at this
      omega
  have hroom₁ : HasRoom 32 s₁.handles (1, some 0) := by
    refine ⟨fun g hg huse => ?_, fun hfull => hfull.2 0 (by decide) ⟨by rw [h₁.count]; decide, h₁.place⟩⟩
    by_cases hg0 : g = 0
    · rw [hg0, h₁.count]
      decide
    · rw [hh, Function.update_of_ne hg0, hfree g hg]
      decide
  have hcounted : Counted (Env.linux 16) (1, some 0) 0 s 2 1 s₃ :=
    .closes (.opens (.opens .start hfinds hplace hroom hopen fun _ => rfl) hfinds₁ hplace₁ hroom₁
      hopen₂ fun h => by cases h)
      (by decide) hclose
  exact ⟨s, s₃, hs, hcounted, Counted.inUse (.of_free hfree) hcounted (by decide)⟩

end TinyFs
