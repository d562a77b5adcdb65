/-
The calls that look a name up and may add an entry. `inserting` runs the lookup
they share: it leaves each of them the entry it found, or a free slot.
`tfs_create_dir` and `tfs_touch` are done here.
-/
import TinyFs.System

namespace TinyFs

open Bytes Chains

variable {e : Env} {n : Nat} {s s' : State} {L : Layout} {c : DirCall} {name : List UInt8} {C : List Nat}
  {D cs : List (List Nat)} {xs : List Nat} {dev : Nat → Block}

/-! ## Lookups as steps of the abstract directory -/

/-- The slot `q` between `P` and `Q` holds the first entry with the name. -/
structure Found (e : Env) (dev : Nat → Block) (C : List Nat) (name : List UInt8) (q : Nat × Nat)
    (P Q : List (Nat × Nat)) : Prop where
  slots : slots C = P ++ q :: Q
  live : (itemAt dev q).live = true
  hit : Hit e.filenameCmp name (liveAt dev P) (itemAt dev q)

theorem found_of_find {q : Nat × Nat} (h : ((slots C).find? fun p => hits e name (itemAt dev p)) = some q) :
    ∃ P Q, Found e dev C name q P Q := by
  rw [List.find?_eq_some_iff_append] at h
  obtain ⟨hq, P, Q, hs, hP⟩ := h
  simp only [hits, Bool.and_eq_true] at hq
  refine ⟨P, Q, hs, hq.1, ⟨fun x hx => ?_, hq.2⟩⟩
  simp only [liveAt, List.mem_filter, List.mem_map] at hx
  obtain ⟨⟨p, hp, rfl⟩, hl⟩ := hx
  simpa [hits, hl] using hP p hp

theorem miss_of_find (h : ((slots C).find? fun p => hits e name (itemAt dev p)) = none) :
    Miss e.filenameCmp name (entries dev C) := by
  intro x hx
  simp only [entries, liveAt, List.mem_filter, List.mem_map] at hx
  obtain ⟨⟨p, hp, rfl⟩, hl⟩ := hx
  simpa [hits, hl] using List.find?_eq_none.mp h p hp

theorem Found.find {q : Nat × Nat} {P Q : List (Nat × Nat)} (h : Found e dev C name q P Q) :
    ((TinyFs.slots C).find? fun p => hits e name (itemAt dev p)) = some q := by
  rw [List.find?_eq_some_iff_append]
  refine ⟨by simp [hits, h.live, h.hit.hit], P, Q, h.slots, fun p hp => ?_⟩
  by_cases hl : (itemAt dev p).live = true
  · have hmem : itemAt dev p ∈ liveAt dev P := List.mem_filter.mpr ⟨List.mem_map_of_mem hp, hl⟩
    simp [hits, h.hit.before _ hmem]
  · simp [hits, hl]

theorem find_of_miss (h : Miss e.filenameCmp name (entries dev C)) :
    ((slots C).find? fun p => hits e name (itemAt dev p)) = none := by
  refine List.find?_eq_none.mpr fun p hp => ?_
  by_cases hl : (itemAt dev p).live = true
  · have hmem : itemAt dev p ∈ entries dev C := List.mem_filter.mpr ⟨List.mem_map_of_mem hp, hl⟩
    simp [hits, h _ hmem]
  · simp [hits, hl]

theorem Found.entries {q : Nat × Nat} {P Q : List (Nat × Nat)} (h : Found e dev C name q P Q) :
    entries dev C = liveAt dev P ++ itemAt dev q :: liveAt dev Q := by
  rw [entries_around h.slots, List.filter_cons_of_pos h.live]
  simp

theorem Found.mem {q : Nat × Nat} {P Q : List (Nat × Nat)} (h : Found e dev C name q P Q) : q ∈ TinyFs.slots C := by
  rw [h.slots]
  simp

/-- The current directory of a well-formed volume. -/
structure Cur (n : Nat) (s : State) (L : Layout) (C : List Nat) (D : List (List Nat)) : Prop
    extends InDir n s C (D ++ (L.files ++ L.loose)) L.leaked where
  sys : Sys n s L
  dirs : L.dirs.Perm (C :: D)

/-- The current directory is what its first block leads to. -/
theorem Cur.follow_eq (h : Cur n s L C D) : follow s.dev n s.currentDirBlk = C :=
  h.cur ▸ h.owned.follow_eq (by simp)

theorem Cur.mem (h : Cur n s L C D) : C ∈ L.dirs := h.dirs.mem_iff.mpr (by simp)

theorem Sys.current (hs : Sys n s L) (herr : s.tfsLastError = .ok) : ∃ C D, Cur n s L C D := by
  obtain ⟨C, D, hp, h⟩ := hs.inDir herr
  exact ⟨C, D, h, hs, hp⟩

theorem Sys.current_enter (hs : Sys n s L) :
    ∃ C D, Cur n { s with tfsLastError := .ok, log := s.log.call .select } L C D := hs.enter.current rfl

/-- A step that leaves every block as it is. -/
theorem Cur.same {t : State} (h : Cur n s L C D) (hf : Frame s t) (hd : t.dev = s.dev) (hc : t.CacheOk n)
    (herr : Ended n t) {A B : List DirItem} (hE : entries s.dev C = A ++ B)
    (hstep : DirStep e.filenameCmp (Held e s) c t.tfsLastError A [] [] B) : DirDone e n L c s t [] :=
  ⟨L, C, C, A, [], B, ⟨.same h.sys hf hd hc herr, h.mem, h.mem, h.cur.symm, h.cur.symm, by simpa using hE,
    by simpa [hd] using hE, fun hcm => hd ▸ hcm, hstep⟩⟩

/-- The buffer has changed and nothing else. -/
theorem Cur.looked (h : Cur n s L C D) (b : Nat) (l : DriveLog) (err : Err) {A B : List DirItem}
    (hE : entries s.dev C = A ++ B) (hdev : err ≠ .noDev) (hfull : err ≠ .diskFull)
    (hstep : DirStep e.filenameCmp (Held e s) c err A [] [] B) :
    DirDone e n L c s { s with blkBuf := s.dev b, loadedDirBlk := b, log := l, tfsLastError := err } [] :=
  h.same ⟨rfl, rfl, rfl, rfl, rfl⟩ rfl h.cache (.of_ne hdev hfull) hE hstep

/-- A step that edits the current directory: the entries `old` between `A` and `B`
become `new`, the chains `gone` and `goneF` are given back, `born` and `bornF`
are new, and only blocks of the directory and of these are written. -/
theorem Cur.edited (h : Cur n s L C D) (gone born goneF bornF : List (List Nat)) (old new : List DirItem)
    {C' : List Nat} {G F : List (List Nat)} {A B : List DirItem} (hf : Frame s s') (herr : Ended n s')
    (hdirs : L.dirs.Perm (C :: (gone ++ G))) (hfiles : L.files.Perm (goneF ++ F))
    (hr : Ready n s' (L.edit C' born G bornF F).chains L.leaked) (hhead : firstBlk C' = firstBlk C)
    (hA : entries s.dev C = A ++ old ++ B) (hB : entries s'.dev C' = A ++ new ++ B)
    (hdh : (heads gone ++ new.flatMap (·.dirHead)).Perm (old.flatMap (·.dirHead) ++ heads born))
    (hfh : (heads goneF ++ new.flatMap (·.fileHead)).Perm (old.flatMap (·.fileHead) ++ heads bornF))
    (hge : ∀ d ∈ gone, entries s.dev d = []) (hbe : ∀ d ∈ born, entries s'.dev d = [] ∧ d.length = 1)
    (hbf : ∀ d ∈ born, firstBlk d ∉ heads L.dirs) (hcm : Compact s.dev C → Compact s'.dev C')
    (hag : AgreeOff (C ++ C' ++ (born.flatten ++ bornF.flatten)) s.dev s'.dev)
    (hpar : ∀ par, (∀ b ∈ C, (s.dev b).parent = par) → ∀ b ∈ C', (s'.dev b).parent = par)
    (hbp : ∀ d ∈ born, ∀ b ∈ d, (s'.dev b).parent = firstBlk C)
    (hfrom : ∀ x ∈ new, x.type = itemDir → x.blk ∈ heads born ∨ ∃ y ∈ old, y.type = itemDir ∧ y.blk = x.blk)
    (hgone : heads gone ++ heads goneF = c.dropped old)
    (hstep : DirStep e.filenameCmp (Held e s) c s'.tfsLastError A old new B) : DirDone e n L c s s' new := by
  have hold : ∀ d ∈ G ++ F, d ∈ gone ++ G ++ (L.files ++ L.loose) := by
    intro d hd
    rcases List.mem_append.mp hd with hd | hd
    · simp [hd]
    · simp [hfiles.mem_iff, hd]
  have howned : Owned n s.dev (C :: (gone ++ G ++ (L.files ++ L.loose))) L.leaked :=
    h.sys.volume.owned.perm (hdirs.append_right _) (.refl _)
  have hnew : Owned n s'.dev (C' :: (born ++ bornF ++ (G ++ (F ++ L.loose)))) L.leaked := by
    refine hr.owned.perm ?_ (.refl _)
    simp only [Layout.edit, Layout.chains, List.cons_append, List.append_assoc]
    refine .cons _ (.append_left _ ?_)
    exact (List.perm_append_comm_assoc ..)
  have hedit : Edit s.dev s'.dev L C C' gone born G goneF bornF F old new := {
    dirs := hdirs
    files := hfiles
    head := hhead
    entries := ⟨A, B, hA, hB⟩
    dirHeads := hdh
    fileHeads := hfh
    gone_empty := hge
    born_empty := fun d hd => (hbe d hd).1
    born_single := fun d hd => (hbe d hd).2
    born_fresh := hbf
    frame := fun d hd b hb => by
      have hd' := hold d hd
      refine hag b (howned.mem_mod (List.mem_cons_of_mem _ hd') hb) fun hmem => ?_
      rcases List.mem_append.mp hmem with hmem | hmem
      · rcases List.mem_append.mp hmem with hmem | hmem
        · exact howned.apart hd' hb hmem
        · refine hnew.apart (d := d) ?_ hb hmem
          rcases List.mem_append.mp hd with hd | hd <;> simp [hd]
      · rw [← List.flatten_append] at hmem
        have hnd := (List.nodup_append.mp hnew.nodup).2.1
        rw [List.flatten_cons, List.flatten_append, List.nodup_append, List.nodup_append] at hnd
        refine hnd.2.1.2.2 b hmem b (List.mem_flatten.mpr ⟨d, ?_, hb⟩) rfl
        rcases List.mem_append.mp hd with hd | hd <;> simp [hd]
    parents := fun hup => hpar _ (h.sys.volume.parents hup C h.mem)
    born_parents := hbp
    dirs_from := hfrom }
  exact ⟨_, C, C', A, old, B, ⟨hgone ▸ Changed.edit h.sys hf h.cur hedit hr herr, h.mem, by simp [Layout.edit],
    h.cur.symm, hhead.trans h.cur.symm, hA, hB, hcm, hstep⟩⟩

/-- The current directory has grown by a block, or nothing has changed. -/
theorem Cur.grown {C' : List Nat} (h : Cur n s L C D) (hf : Frame s s')
    (hr : Ready n s' (C' :: (D ++ (L.files ++ L.loose))) L.leaked) (herr : Ended n s')
    (hhead : firstBlk C' = firstBlk C) (hE : entries s'.dev C' = entries s.dev C)
    (hpar : ∀ par, (∀ b ∈ C, (s.dev b).parent = par) → ∀ b ∈ C', (s'.dev b).parent = par)
    (hcm : Compact s.dev C → Compact s'.dev C') (hag : AgreeOff C' s.dev s'.dev)
    (hstep : DirStep e.filenameCmp (Held e s) c s'.tfsLastError (entries s.dev C) [] [] []) :
    DirDone e n L c s s' [] :=
  h.edited [] [] [] [] [] [] (G := D) (F := L.files) (A := entries s.dev C) (B := []) hf herr h.dirs (.refl _)
    hr hhead (by simp) (by simpa using hE) (.refl _) (.refl _)
    (by simp) (by simp) (by simp) hcm (hag.mono fun b hb => by simp [hb]) hpar (by simp) (by simp) (by simp) hstep

/-- A step that stores an entry in a free slot, with the chain it stands for. -/
theorem Cur.inserted {s₁ t : State} {C' : List Nat} {q : Nat × Nat} (h : Cur n s L C D) (born bornF : List (List Nat))
    (hs₁ : FreeSlot n s s₁ C C' (D ++ (L.files ++ L.loose)) L.leaked q) {v : Block} {x : DirItem}
    (hv : Block.SlotStore v (s₁.dev q.1) q.2) (hx : v.item q.2 = x) (hl : x.live = true)
    (hf : Frame s₁ t) (herr : Ended n t) (hr : Ready n t (L.edit C' born D bornF L.files).chains L.leaked)
    (hdev : ∀ b ∈ C', t.dev b = Function.update s₁.dev q.1 v b)
    (hag : AgreeOff (C' ++ (born.flatten ++ bornF.flatten)) s₁.dev t.dev) (hdh : x.dirHead = heads born)
    (hfh : x.fileHead = heads bornF) (hbe : ∀ d ∈ born, entries t.dev d = [] ∧ d.length = 1)
    (hbf : ∀ d ∈ born, firstBlk d ∉ heads L.dirs) (hbp : ∀ d ∈ born, ∀ b ∈ d, (t.dev b).parent = firstBlk C)
    (hstep : ∀ A B, entries s.dev C = A ++ B → DirStep e.filenameCmp (Held e s) c t.tfsLastError A [] [x] B) :
    DirDone e n L c s t [x] := by
  obtain ⟨P, Q, hslots⟩ := List.append_of_mem hs₁.mem
  have hA : entries s.dev C = liveAt s₁.dev P ++ liveAt s₁.dev Q := by
    rw [← hs₁.entries, entries_around hslots, List.filter_cons_of_neg (by simp [hs₁.free])]
    simp
  have hB : entries t.dev C' = liveAt s₁.dev P ++ [x] ++ liveAt s₁.dev Q := by
    rw [entries_congr fun b hb i _ => by rw [hdev b hb],
      entries_store hslots (hs₁.owned.chain_nodup (by simp)) hv.item, hx, List.filter_cons_of_pos hl]
    rfl
  have hdir : ∀ b ∈ C', (t.dev b).parent = (s₁.dev b).parent := by
    intro b hb
    rw [hdev b hb]
    by_cases hbq : b = q.1
    · rw [hbq, Function.update_self, hv.parent]
    · rw [Function.update_of_ne hbq]
  refine h.edited [] born [] bornF [] [x] (hs₁.frame.trans hf) herr h.dirs (.refl _) hr
    hs₁.head (by simpa using hA) hB (.of_eq ?_) (.of_eq ?_) (by simp) hbe hbf (fun hcm => ?_) ?_ ?_ hbp ?_ (by simp)
    (hstep _ _ hA)
  · simpa using hdh
  · simpa using hfh
  · exact (hs₁.compact hcm).stored hdev (mem_slots.mp hs₁.mem).2 (hx ▸ hl)
  · refine (hs₁.agree.mono fun b hb => ?_).trans (hag.mono fun b hb => ?_)
    · simp [hb]
    · rcases List.mem_append.mp hb with hb | hb
      · simp [hb]
      · exact List.mem_append_right _ hb
  · intro par hpar b hb
    rw [hdir b hb]
    exact hs₁.parents par hpar b hb
  · intro y hy ht
    obtain rfl := List.mem_singleton.mp hy
    left
    rw [← hdh, DirItem.dirHead, if_pos ht]
    simp

/-- The lookup of a call that may add an entry, with what it leaves of the directory. -/
theorem placing (he : e.NeverFails) (hf : n ≤ e.fuel) (h : Cur n s L C D) (name : List UInt8) {k : Option Nat → M Unit}
    {R : State → Prop} (hno : name.headD 0 = 0 → R { s with tfsLastError := .noName })
    (hfound : ∀ q P Q l, name.headD 0 ≠ 0 → Found e s.dev C name q P Q →
      ∃ s', k (some q.2) { s with blkBuf := s.dev q.1, loadedDirBlk := q.1, log := l } = some ((), s') ∧ R s')
    (hfree : ∀ C' q s₁, name.headD 0 ≠ 0 → Miss e.filenameCmp name (entries s.dev C) →
      FreeSlot n s s₁ C C' (D ++ (L.files ++ L.loose)) L.leaked q → C'.length = C.length + growth s.dev C →
      ∃ s', k (some q.2) s₁ = some ((), s') ∧ R s')
    (hfull : ∀ s₁, name.headD 0 ≠ 0 → Miss e.filenameCmp name (entries s.dev C) →
      NoSpace n s s₁ (C :: (D ++ (L.files ++ L.loose))) L.leaked → growth s.dev C = 1 → R s₁) :
    ∃ s', (findFile e name true >>= fun item => ifOk () (k item)) s = some ((), s') ∧ R s' := by
  by_cases hname : name.headD 0 = 0
  · refine ⟨_, ?_, hno hname⟩
    rw [Prog.bind_some (findFile_noName hname true), ifOk_err (by exact Err.noConfusion)]
  rcases findFile_lookup he hf h.toInDir hname with ⟨q, l, hq, hrun⟩ | ⟨hmiss, _⟩
  · obtain ⟨P, Q, hfd⟩ := found_of_find hq
    obtain ⟨s', hk, hok⟩ := hfound q P Q l hname hfd
    exact ⟨s', by rw [Prog.bind_some (hrun true), ifOk_ok (by exact h.err), hk], hok⟩
  · have hm := miss_of_find hmiss
    rcases findFile_free he hf h.toInDir hname hmiss with ⟨C', q, s₁, hrun, hs₁, hgrow⟩ | ⟨s₁, hrun, hs₁, hgrow⟩
    · obtain ⟨s', hk, hok⟩ := hfree C' q s₁ hname hm hs₁ hgrow
      exact ⟨s', by rw [Prog.bind_some hrun, ifOk_ok hs₁.err, hk], hok⟩
    · have herr : s₁.tfsLastError ≠ .ok := by
        rw [hs₁.err]
        exact Err.noConfusion
      exact ⟨s₁, by rw [Prog.bind_some hrun, ifOk_err herr], hfull s₁ hname hm hs₁ hgrow⟩

theorem Cur.noName (h : Cur n s L C D) (hname : c.name.headD 0 = 0) :
    DirDone e n L c s { s with tfsLastError := .noName } [] :=
  h.same ⟨rfl, rfl, rfl, rfl, rfl⟩ rfl h.cache (.of_ne Err.noConfusion Err.noConfusion) (A := entries s.dev C) (B := [])
    (by simp)
    (.noName hname)

/-- No room for a block the directory would have to grow by. -/
theorem Cur.noSpace {t : State} (h : Cur n s L C D) (ht : NoSpace n s t (C :: (D ++ (L.files ++ L.loose))) L.leaked)
    (hc : c.inserts = true) (hname : c.name.headD 0 ≠ 0) (hmiss : Miss e.filenameCmp c.name (entries s.dev C)) :
    DirDone e n L c s t [] := by
  refine h.same ht.frame ht.dev ht.cache ht.ended (A := entries s.dev C) (B := []) (by simp) ?_
  rw [ht.err]
  exact .full hc hname (by simpa using hmiss)

/-- A call that may add an entry does a step of the directory, where it does so
with the entry found and with the free slot. -/
theorem inserting (he : e.NeverFails) (hf : n ≤ e.fuel) (h : Cur n s L C D) (hc : c.inserts = true)
    {k : Option Nat → M Unit}
    (hfound : ∀ q P Q l, c.name.headD 0 ≠ 0 → Found e s.dev C c.name q P Q →
      ∃ s', k (some q.2) { s with blkBuf := s.dev q.1, loadedDirBlk := q.1, log := l } = some ((), s') ∧
        DirOk e n L c s s')
    (hfree : ∀ C' q s₁, c.name.headD 0 ≠ 0 → Miss e.filenameCmp c.name (entries s.dev C) →
      FreeSlot n s s₁ C C' (D ++ (L.files ++ L.loose)) L.leaked q →
      ∃ s', k (some q.2) s₁ = some ((), s') ∧ DirOk e n L c s s') :
    ∃ s', (findFile e c.name true >>= fun item => ifOk () (k item)) s = some ((), s') ∧ DirOk e n L c s s' :=
  placing he hf h c.name (fun hname => (h.noName hname).ok) hfound
    (fun C' q s₁ hname hmiss hs₁ _ => hfree C' q s₁ hname hmiss hs₁)
    (fun _ hname hmiss hs₁ _ => (h.noSpace hs₁ hc hname hmiss).ok)

/-- The lookup of a call that adds no entry. -/
theorem looking (he : e.NeverFails) (hf : n ≤ e.fuel) (h : Cur n s L C D) (name : List UInt8) {k : Option Nat → M Unit}
    {R : State → Prop} (hno : name.headD 0 = 0 → R { s with tfsLastError := .noName })
    (hfound : ∀ q P Q l, name.headD 0 ≠ 0 → Found e s.dev C name q P Q →
      ∃ s', k (some q.2) { s with blkBuf := s.dev q.1, loadedDirBlk := q.1, log := l } = some ((), s') ∧ R s')
    (hmiss : ∀ b l, name.headD 0 ≠ 0 → Miss e.filenameCmp name (entries s.dev C) →
      ∃ s', k none { s with blkBuf := s.dev b, loadedDirBlk := b, log := l } = some ((), s') ∧ R s') :
    ∃ s', (findFile e name false >>= fun item => ifOk () (k item)) s = some ((), s') ∧ R s' := by
  by_cases hname : name.headD 0 = 0
  · refine ⟨_, ?_, hno hname⟩
    rw [Prog.bind_some (findFile_noName hname false), ifOk_err (by exact Err.noConfusion)]
  rcases findFile_lookup he hf h.toInDir hname with ⟨q, l, hq, hrun⟩ | ⟨hnone, l, hrun⟩
  · obtain ⟨P, Q, hfd⟩ := found_of_find hq
    obtain ⟨s', hk, hok⟩ := hfound q P Q l hname hfd
    exact ⟨s', by rw [Prog.bind_some (hrun false), ifOk_ok (by exact h.err), hk], hok⟩
  · obtain ⟨s', hk, hok⟩ := hmiss _ l hname (miss_of_find hnone)
    exact ⟨s', by rw [Prog.bind_some hrun, ifOk_ok (by exact h.err), hk], hok⟩

theorem Cur.look (h : Cur n s L C D) (b : Nat) (l : DriveLog) :
    Cur n { s with blkBuf := s.dev b, loadedDirBlk := b, log := l } L C D :=
  ⟨h.toInDir.look b l, ⟨h.sys.mounted, h.sys.cache, h.sys.volume, h.sys.cur, h.sys.dev⟩, h.dirs⟩

/-- A step that stores a new entry in the place of another, and may exchange the
data chain it stands for. -/
theorem Cur.replaced {name : List UInt8} {q : Nat × Nat} {P Q : List (Nat × Nat)} {t : State} (h : Cur n s L C D)
    (goneF bornF : List (List Nat)) (hfd : Found e s.dev C name q P Q) {v : Block} {x : DirItem} {F : List (List Nat)}
    (hv : Block.SlotStore v (s.dev q.1) q.2) (hx : v.item q.2 = x) (hl : x.live = true) (hf : Frame s t)
    (herr : Ended n t) (hfiles : L.files.Perm (goneF ++ F))
    (hr : Ready n t (L.edit C [] D bornF F).chains L.leaked) (hdev : ∀ b ∈ C, t.dev b = Function.update s.dev q.1 v b)
    (hag : AgreeOff (C ++ bornF.flatten) s.dev t.dev) (hdh : x.dirHead = (itemAt s.dev q).dirHead)
    (hfh : (heads goneF ++ x.fileHead).Perm ((itemAt s.dev q).fileHead ++ heads bornF))
    (hgone : heads goneF = c.dropped [itemAt s.dev q])
    (hstep : DirStep e.filenameCmp (Held e s) c t.tfsLastError (liveAt s.dev P) [itemAt s.dev q] [x] (liveAt s.dev Q)) :
    DirDone e n L c s t [x] := by
  have hB : entries t.dev C = liveAt s.dev P ++ [x] ++ liveAt s.dev Q := by
    rw [entries_congr fun b hb i _ => by rw [hdev b hb],
      entries_store hfd.slots (h.owned.chain_nodup (by simp)) hv.item, hx, List.filter_cons_of_pos hl]
    rfl
  refine h.edited [] [] goneF bornF [itemAt s.dev q] [x] (G := D) hf herr h.dirs hfiles hr rfl
    (by simpa using hfd.entries) hB
    (.of_eq ?_) ?_ (by simp) (by simp) (by simp) (fun hcm => hcm.stored hdev (mem_slots.mp hfd.mem).2 (hx ▸ hl))
    (hag.mono fun b hb => ?_) ?_ (by simp) ?_ hgone hstep
  · simpa using hdh
  · simpa using hfh
  · rcases List.mem_append.mp hb with hb | hb
    · simp [hb]
    · exact List.mem_append_right _ hb
  · intro par hpar b hb
    rw [hdev b hb]
    by_cases hbq : b = q.1
    · rw [hbq, Function.update_self, hv.parent]
      exact hpar _ (hbq ▸ hb)
    · rw [Function.update_of_ne hbq]
      exact hpar b hb
  · intro y hy ht
    obtain rfl := List.mem_singleton.mp hy
    right
    have hmem : y.blk ∈ (itemAt s.dev q).dirHead := by
      rw [← hdh, DirItem.dirHead, if_pos ht]
      simp
    rw [DirItem.dirHead] at hmem
    split at hmem
    · rename_i ht'
      exact ⟨_, by simp, ht', (List.mem_singleton.mp hmem).symm⟩
    · simp at hmem

/-- A step that takes an entry out: the directory as if its slot were freed,
cleaned, and then the chain it stood for given back. -/
theorem Cur.removed {name : List UInt8} {q : Nat × Nat} {P Q : List (Nat × Nat)} (h : Cur n s L C D)
    (gone goneF : List (List Nat)) (hfd : Found e s.dev C name q P Q) {v : Block} {s₁ : State} {C' : List Nat}
    {G F : List (List Nat)} (hv : Block.SlotStore v (s.dev q.1) q.2) (hfree : v.itemType q.2 = itemFree)
    (hclean : Cleaned (Function.update s.dev q.1 v) s₁.dev C C') (hcm : Compact s.dev C → Compact s₁.dev C')
    (hag : AgreeOff C s.dev s₁.dev)
    (hag' : AgreeOff [] s₁.dev s'.dev) (hf : Frame s s') (herr : Ended n s')
    (hdirs : L.dirs.Perm (C :: (gone ++ G))) (hfiles : L.files.Perm (goneF ++ F))
    (hr : Ready n s' (L.edit C' [] G [] F).chains L.leaked) (hdh : heads gone = (itemAt s.dev q).dirHead)
    (hfh : heads goneF = (itemAt s.dev q).fileHead) (hge : ∀ d ∈ gone, entries s.dev d = [])
    (hgone : heads gone ++ heads goneF = c.dropped [itemAt s.dev q])
    (hstep : DirStep e.filenameCmp (Held e s) c s'.tfsLastError (liveAt s.dev P) [itemAt s.dev q] [] (liveAt s.dev Q)) :
    DirDone e n L c s s' [] := by
  have hmod : ∀ b ∈ C', b % 4096 ≠ 0 := fun b hb => h.owned.mem_mod (c := C) (by simp) (hclean.subset b hb)
  have hsame : ∀ b ∈ C', s'.dev b = s₁.dev b := fun b hb => hag' b (hmod b hb) (by simp)
  have hB : entries s'.dev C' = liveAt s.dev P ++ [] ++ liveAt s.dev Q := by
    rw [entries_congr fun b hb i _ => by rw [hsame b hb], hclean.entries,
      entries_store hfd.slots (h.owned.chain_nodup (by simp)) hv.item, List.filter_cons_of_neg]
    · rfl
    · simp [live_of_free (x := v.item q.2) hfree]
  refine h.edited gone [] goneF [] [itemAt s.dev q] [] hf herr hdirs hfiles hr hclean.firstBlk
    (by simpa using hfd.entries) hB
    (.of_eq ?_) (.of_eq ?_) hge (by simp) (by simp) (fun h0 => (hcm h0).mono fun b hb => ?_) ?_ ?_ (by simp) (by simp)
    hgone hstep
  · simpa using hdh
  · simpa using hfh
  · intro hne
    rw [entries_single (b := b) fun i _ => by rw [hsame b hb]]
    exact hne
  · exact (hag.mono fun b hb => by simp [hb]).trans (hag'.mono (by simp))
  · intro par hpar b hb
    rw [hsame b hb]
    refine hclean.parents (fun x hx => ?_) b hb
    by_cases hxq : x = q.1
    · rw [hxq, Function.update_self, hv.parent]
      exact hpar _ (hxq ▸ hx)
    · rw [Function.update_of_ne hxq]
      exact hpar x hx

end TinyFs
