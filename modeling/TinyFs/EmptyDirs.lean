/-
The deletion of a directory. `tfs_delete` looks at the first block of a directory
and at its link only, so it is right where a directory of several blocks always
holds an entry. No block is appended to a directory but where all its blocks hold
entries, and the clean-up takes out a block that lost its last one: at most one
block of a directory is without an entry (`Compact`), on every volume the basic
API leaves.
-/
import TinyFs.ParentLinks

namespace TinyFs

open Bytes Chains

variable {e : Env} {n : Nat} {s s' : State} {L L' : Layout} {C C' : List Nat} {D : List (List Nat)}
  {A old new B : List DirItem} {name : List UInt8}

/-- Every directory is compact. -/
def Layout.Compact (dev : Nat → Block) (L : Layout) : Prop := ∀ d ∈ L.dirs, TinyFs.Compact dev d

theorem DirOp.compact_dirs {c : DirCall} (h : DirOp e n L c s s' L' C C' A old new B) (hc : L.Compact s.dev) :
    L'.Compact s'.dev := by
  intro d hd
  by_cases hcur : firstBlk d = s.currentDirBlk
  · have hdC : d = C' := by
      have h1 := h.sys.volume.owned.follow_eq (c := d) (List.mem_append_left _ hd)
      have h2 := h.sys.volume.owned.follow_eq (c := C') (List.mem_append_left _ h.mem')
      rw [← h1, hcur, ← h.head', h2]
    exact hdC ▸ h.compact (hc C h.mem)
  · rcases h.dirs_from d hd hcur with ⟨hd', hsame⟩ | ⟨-, hone⟩
    · refine (hc d hd').mono fun b hb hne => ?_
      rw [entries_single (b := b) fun i _ => by rw [hsame b hb]]
      exact hne
    · exact Nat.le_trans (emptyBlks_le d) (Nat.le_of_eq hone)

theorem BasicStep.compact (h : BasicStep e n s s' L L') (hc : L.Compact s.dev) : L'.Compact s'.dev := by
  cases h with
  | stays hdev => exact hdev ▸ hc
  | formatted =>
    intro d hd
    obtain rfl := List.mem_singleton.mp hd
    exact .single _
  | edited h => exact h.compact_dirs hc

/-- What the basic API keeps: a tight volume of compact directories, no handle in use. -/
structure Tidy (e : Env) (n : Nat) (s : State) (L : Layout) : Prop where
  sys : Sys n s L
  tight : L.Tight
  upLinks : L.upLinks
  compact : L.Compact s.dev
  idle : ¬ Held e s

theorem Tidy.step (he : e.NeverFails) (hd : e.drive.blkCount = some n) (hn : 2 ≤ n) (hf : n ≤ e.fuel) (hs : Tidy e n s L)
    {c : Op} (hc : c.basic = true) (h : c.exec e s = some ((), s')) : ∃ L', Tidy e n s' L' := by
  obtain ⟨L', hs', hstep, hhandles⟩ := Op.basicStep he hd hn hf hs.sys hs.upLinks hc h
  refine ⟨L', hs', hstep.tight hs.tight, hstep.upLinks hs.upLinks, hstep.compact hs.compact, ?_⟩
  rintro ⟨fd, hfd, hne⟩
  rcases hhandles with hh | hh
  · exact hs.idle ⟨fd, hfd, hh ▸ hne⟩
  · exact hne (by rw [hh fd hfd]; rfl)

/-! ## The deletion -/

/-- The name is that of a subdirectory, its entry in slot `q`, and the type asked for allows it. -/
structure State.Subdir (e : Env) (n : Nat) (s : State) (name : List UInt8) (type : UInt8) (q : Nat × Nat) : Prop where
  named : name.headD 0 ≠ 0
  found : s.lookup e n name = some q
  dir : (itemAt s.dev q).type = itemDir
  asked : type = 0 ∨ type = itemDir

/-- With no handle in use, no entry is. -/
theorem usage_idle (h : ¬ Held e s) (item : Nat) : ¬ itemUsageCountLoop s item (List.range e.maxFds) > 0 :=
  fun hu => h (held_of_usage hu)

/-- `tfs_delete` behind its lookup. -/
def deleteItem (e : Env) (type : UInt8) (item : Option Nat) : M Unit := do
  let b ← blkBuf
  match item with
  | none => setErr .notExist
  | some i => do
    if type ≠ 0 ∧ b.itemType i ≠ type then setErr .notExist
    else if (← itemUsageCount e i) > 0 then setErr .fileBusy
    else if b.itemType i = itemFile then deleteFile e i
    else if b.itemType i = itemDir then deleteDir e i
    else setErr .notExist

theorem tfsDelete_subdir (he : e.NeverFails) (hf : n ≤ e.fuel) (hs : Sys n s L) (hidle : ¬ Held e s) {type : UInt8}
    {q : Nat × Nat} (hq : s.Subdir e n name type q) :
    ∃ s', tfsDelete e name type s = some ((), s') ∧
      ∃ d ∈ L.dirs, firstBlk d = (itemAt s.dev q).blk ∧ DirDeleted s s' d := by
  obtain ⟨C, D, h⟩ := hs.current_enter
  have hlook : State.lookup e n { s with tfsLastError := .ok, log := s.log.call .select } name = some q := hq.found
  have hbody := looking (R := fun t => ∃ d ∈ L.dirs, firstBlk d = (itemAt s.dev q).blk ∧ DirDeleted s t d)
    (k := deleteItem e type) he hf h name
    (fun h0 => absurd h0 hq.named) (fun p P Q l hname hfd => ?_) (fun b l _ hmiss => ?_)
  · obtain ⟨t, hrun, d, hd, hhead, hdel⟩ := hbody
    refine ⟨_, enter_out hs.dev hrun, d, hd, hhead, ?_⟩
    cases hdel with
    | gone hone hnil herr hfree => exact .gone hone hnil herr hfree
    | kept hmore herr => exact .kept hmore herr
  · obtain rfl : p = q := Option.some.inj ((h.lookup_some hfd).symm.trans hlook)
    have htype : (s.dev p.1).itemType p.2 = itemDir := hq.dir
    have hask : ¬ (type ≠ 0 ∧ itemDir ≠ type) := fun hboth => hq.asked.elim hboth.1 fun h2 => hboth.2 h2.symm
    have hfile : (itemDir : UInt8) ≠ itemFile := by decide
    have hbusy := usage_idle (s := { s with
      tfsLastError := .ok, blkBuf := s.dev p.1, loadedDirBlk := p.1, log := l }) (e := e) hidle p.2
    obtain ⟨t, hrun, -, d, hd, hhead, hdel⟩ := deleteDir_ok he h hname hfd
      (hq.asked.imp_right fun h0 => hq.dir.trans h0.symm) hq.dir l
    refine ⟨t, ?_, d, hd, hhead, ?_⟩
    · simp only [deleteItem, blkBuf_bind, htype, if_neg hask, itemUsageCount, Prog.gets_bind]
      rw [if_neg hbusy, if_neg hfile, if_pos trivial]
      exact hrun
    · cases hdel with
      | gone hone hnil herr hfree => exact .gone hone hnil herr hfree
      | kept hmore herr => exact .kept hmore herr
  · rw [h.lookup_none hmiss] at hlook
    cases hlook

/-- The deletion of the subdirectory in slot `q` ends well where it has no entry, and
gives all its blocks back; it is refused where it has one. -/
structure DeletesEmpty (e : Env) (n : Nat) (s : State) (name : List UInt8) (type : UInt8) (q : Nat × Nat) : Prop where
  /-- The blocks of the subdirectory are a chain of the volume. -/
  chain : Chain s.dev (follow s.dev n (itemAt s.dev q).blk)
  ends : ∃ s', tfsDelete e name type s = some ((), s') ∧
    (s'.tfsLastError = .ok ↔ entries s.dev (follow s.dev n (itemAt s.dev q).blk) = []) ∧
    (s'.tfsLastError = .notEmpty ↔ entries s.dev (follow s.dev n (itemAt s.dev q).blk) ≠ []) ∧
    (s'.tfsLastError = .ok → ∀ b ∈ follow s.dev n (itemAt s.dev q).blk, ¬ Used s'.dev b)

theorem Tidy.deletes (he : e.NeverFails) (hf : n ≤ e.fuel) (hs : Tidy e n s L) {type : UInt8} {q : Nat × Nat}
    (hq : s.Subdir e n name type q) : DeletesEmpty e n s name type q := by
  obtain ⟨s', hrun, d, hd, hhead, hdel⟩ := tfsDelete_subdir he hf hs.sys hs.idle hq
  have hfollow : follow s.dev n (itemAt s.dev q).blk = d := by
    rw [← hhead]
    exact hs.sys.volume.owned.follow_eq (List.mem_append_left _ hd)
  rw [← hfollow] at hdel
  refine ⟨hfollow ▸ hs.sys.volume.owned.chain d (List.mem_append_left _ hd), s', hrun, ?_⟩
  cases hdel with
  | gone hone hnil herr hfree =>
    refine ⟨iff_of_true herr hnil, iff_of_false ?_ (not_not_intro hnil), fun _ => hfree⟩
    rw [herr]
    exact Err.noConfusion
  | kept hmore herr =>
    have hne : entries s.dev (follow s.dev n (itemAt s.dev q).blk) ≠ [] := by
      intro hnil
      have hle := (hs.compact d hd).length_le (hfollow ▸ hnil)
      have hpos := List.length_pos_of_ne_nil (hs.sys.volume.owned.chain d (List.mem_append_left _ hd)).1
      exact hmore (by rw [hfollow]; omega) hnil
    have hok : s'.tfsLastError ≠ .ok := by
      rw [herr]
      exact Err.noConfusion
    exact ⟨iff_of_false hok hne, iff_of_true herr hne, fun h => absurd h hok⟩

/-- On a drive that never fails, in every state a run of the basic API on a freshly
formatted volume ends in, `tfs_delete` of a subdirectory ends well exactly where the
subdirectory has no entry, with its blocks free, and is refused otherwise. -/
theorem run_deletes_empty (he : e.NeverFails) (hd : e.drive.blkCount = some n) (hn : 2 ≤ n) (hlt : n < 2 ^ 32)
    (hf : n ≤ e.fuel) (s : State) : ∃ s₀, formatted e s = some ((), s₀) ∧ ∀ (ops : List Op) (s' : State),
      (∀ c ∈ ops, c.basic = true) → Prog.runAll (Op.exec e) ops s₀ = some ((), s') →
      ∀ name type q, s'.Subdir e n name type q → DeletesEmpty e n s' name type q := by
  obtain ⟨s₀, hrun, hs, hh, -⟩ := formatted_ok he hd hn hlt hf s
  refine ⟨s₀, hrun, fun ops s' hops hruns name type q hq => ?_⟩
  have hidle : ¬ Held e s₀ := fun ⟨fd, hfd, hne⟩ => hne (by rw [hh fd hfd]; rfl)
  have hfresh : Layout.fresh.Compact s₀.dev := fun d hd => List.mem_singleton.mp hd ▸ .single rootDirBlk
  obtain ⟨L, ht⟩ : ∃ L, Tidy e n s' L := Prog.runAll_keeps (I := fun t => ∃ L, Tidy e n t L)
    (fun c hc t t' ⟨_, ht⟩ h => ht.step he hd hn hf (hops c hc) h) hruns
    ⟨_, hs, Layout.fresh_tight, trivial, hfresh, hidle⟩
  exact ht.deletes he hf hq

/-- Sixteen blocks. -/
theorem run_deletes_empty_sixteen : ∃ s₀, formatted (Env.linux 16) (State.boot fun _ => Buf.zero) = some ((), s₀) ∧
    ∀ (ops : List Op) (s' : State), (∀ c ∈ ops, c.basic = true) → Prog.runAll (Op.exec (Env.linux 16)) ops s₀ =
    some ((), s') →
      ∀ name type q, s'.Subdir (Env.linux 16) 16 name type q → DeletesEmpty (Env.linux 16) 16 s' name type q :=
  run_deletes_empty (Env.linux_neverFails 16) rfl (by omega) (by omega) (by decide) _

end TinyFs
