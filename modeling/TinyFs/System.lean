/-
The calls that work on the entries of the current directory, and what they may
do: `DirStep` is the abstract directory, a list of entries in which a call adds,
takes out or replaces one entry or ends with an error; `DirOp` says that the code
did such a step to the current directory of a well-formed volume, left a
well-formed volume, and changed no block of any other directory or file.
-/
import TinyFs.FileBlocks

namespace TinyFs

open Bytes Chains

/-! ## The abstract directory -/

/-- The calls on the entries of the current directory. -/
inductive DirCall
  | createDir (name : List UInt8)
  | writeFile (name data : List UInt8) (len : Nat) (overwrite : Bool)
  | touch (name : List UInt8)
  | delete (name : List UInt8) (type : UInt8)
  | rename (fromName toName : List UInt8)

def DirCall.exec (e : Env) : DirCall → M Unit
  | .createDir name => tfsCreateDir e name
  | .writeFile name data len overwrite => tfsWriteFile e name data len overwrite
  | .touch name => tfsTouch e name
  | .delete name type => tfsDelete e name type
  | .rename fromName toName => tfsRename e fromName toName

/-- The name a call looks up first. -/
def DirCall.name : DirCall → List UInt8
  | .createDir name => name
  | .writeFile name _ _ _ => name
  | .touch name => name
  | .delete name _ => name
  | .rename _ toName => toName

/-- The calls that may need a slot for a new entry. -/
def DirCall.inserts : DirCall → Bool
  | .createDir _ | .writeFile _ _ _ _ | .touch _ => true
  | .delete _ _ | .rename _ _ => false

/-- The chains a call drops, by their first blocks, when it takes out the entries `old`. -/
def DirCall.dropped (c : DirCall) (old : List DirItem) : List Nat :=
  match c with
  | .rename _ _ => []
  | _ => old.flatMap fun x => x.dirHead ++ x.fileHead

@[simp] theorem DirCall.dropped_nil (c : DirCall) : c.dropped [] = [] := by
  cases c <;> rfl

/-- No entry answers to the name. -/
def Miss (cmp : List UInt8 → List UInt8 → Bool) (name : List UInt8) (E : List DirItem) : Prop :=
  ∀ x ∈ E, cmp name x.name = false

/-- Behind the entries `A`, `x` is the first that answers to the name. -/
structure Hit (cmp : List UInt8 → List UInt8 → Bool) (name : List UInt8) (A : List DirItem) (x : DirItem) : Prop where
  before : Miss cmp name A
  hit : cmp name x.name = true

/-- The entry of a new file. -/
def newFile (name : List UInt8) (len pos : Nat) : DirItem :=
  { blk := pos, size := len % 2 ^ 32, type := itemFile, name := Block.padName name }

/-- The entry of a new directory. -/
def newDir (name : List UInt8) (b : Nat) : DirItem :=
  { blk := b, size := 0, type := itemDir, name := Block.padName name }

/-- A call on a directory with the entries `A ++ old ++ B` ends with an error (or
`ok`) and leaves `A ++ new ++ B`. `held`: some handle is in use. -/
inductive DirStep (cmp : List UInt8 → List UInt8 → Bool) (held : Prop) :
    DirCall → Err → List DirItem → List DirItem → List DirItem → List DirItem → Prop
  | noName {c A B} : c.name.headD 0 = 0 → DirStep cmp held c .noName A [] [] B
  | full {c A B} : c.inserts = true → c.name.headD 0 ≠ 0 → Miss cmp c.name (A ++ B) → DirStep cmp held c .diskFull A
    [] [] B
  | createDir {name b A B} : name.headD 0 ≠ 0 → Miss cmp name (A ++ B) →
      DirStep cmp held (.createDir name) .ok A [] [newDir name b] B
  | createDirExist {name x A B} : name.headD 0 ≠ 0 → Hit cmp name A x →
      DirStep cmp held (.createDir name) .fileExist A [] [] (x :: B)
  | touch {name A B} : name.headD 0 ≠ 0 → Miss cmp name (A ++ B) →
      DirStep cmp held (.touch name) .ok A [] [newFile name 0 0] B
  | touchPresent {name x A B} : name.headD 0 ≠ 0 → Hit cmp name A x →
      DirStep cmp held (.touch name) .ok A [] [] (x :: B)
  | writeNew {name data len ov pos err A B} : name.headD 0 ≠ 0 → Miss cmp name (A ++ B) → err = .ok ∨ err = .diskFull →
      DirStep cmp held (.writeFile name data len ov) err A [] [newFile name len pos] B
  | writeOver {name data len pos x err A B} : name.headD 0 ≠ 0 → Hit cmp name A x → x.type = itemFile →
      err = .ok ∨ err = .diskFull →
      DirStep cmp held (.writeFile name data len true) err A [x] [newFile name len pos] B
  | writeOverFull {name data len x A B} : name.headD 0 ≠ 0 → Hit cmp name A x → x.type = itemFile → x.blk = 0 →
      DirStep cmp held (.writeFile name data len true) .diskFull A [] [] (x :: B)
  | writeExist {name data len ov x A B} : name.headD 0 ≠ 0 → Hit cmp name A x → ov = false ∨ x.type ≠ itemFile →
      DirStep cmp held (.writeFile name data len ov) .fileExist A [] [] (x :: B)
  | writeBusy {name data len x A B} : name.headD 0 ≠ 0 → Hit cmp name A x → x.type = itemFile → held →
      DirStep cmp held (.writeFile name data len true) .fileBusy A [] [] (x :: B)
  | delete {name type x A B} : name.headD 0 ≠ 0 → Hit cmp name A x → type = 0 ∨ x.type = type →
      x.type = itemFile ∨ x.type = itemDir → DirStep cmp held (.delete name type) .ok A [x] [] B
  | deleteMiss {name type A B} : name.headD 0 ≠ 0 → Miss cmp name (A ++ B) →
      DirStep cmp held (.delete name type) .notExist A [] [] B
  | deleteType {name type x A B} : name.headD 0 ≠ 0 → Hit cmp name A x →
      (type ≠ 0 ∧ x.type ≠ type) ∨ (x.type ≠ itemFile ∧ x.type ≠ itemDir) →
      DirStep cmp held (.delete name type) .notExist A [] [] (x :: B)
  | deleteBusy {name type x A B} : name.headD 0 ≠ 0 → Hit cmp name A x → type = 0 ∨ x.type = type → held →
      DirStep cmp held (.delete name type) .fileBusy A [] [] (x :: B)
  | deleteNotEmpty {name type x A B} : name.headD 0 ≠ 0 → Hit cmp name A x → type = 0 ∨ x.type = type →
      x.type = itemDir → DirStep cmp held (.delete name type) .notEmpty A [] [] (x :: B)
  | rename {fromName toName x A B} : toName.headD 0 ≠ 0 → fromName.headD 0 ≠ 0 → Miss cmp toName (A ++ x :: B) →
      Hit cmp fromName A x →
      DirStep cmp held (.rename fromName toName) .ok A [x] [{ x with name := Block.padName toName }] B
  | renameExist {fromName toName x A B} : toName.headD 0 ≠ 0 → Hit cmp toName A x →
      DirStep cmp held (.rename fromName toName) .fileExist A [] [] (x :: B)
  | renameMiss {fromName toName A B} : toName.headD 0 ≠ 0 → fromName.headD 0 ≠ 0 → Miss cmp toName (A ++ B) →
      Miss cmp fromName (A ++ B) → DirStep cmp held (.rename fromName toName) .notExist A [] [] B
  | renameNoName {fromName toName A B} : toName.headD 0 ≠ 0 → fromName.headD 0 = 0 → Miss cmp toName (A ++ B) →
      DirStep cmp held (.rename fromName toName) .noName A [] [] B

/-! ## The system -/

/-- Between two calls: the mount, the cache and the volume are right, and the
current directory is one of the volume's. -/
structure Sys (n : Nat) (s : State) (L : Layout) : Prop where
  mounted : s.Mounted n
  cache : s.CacheOk n
  volume : Volume n s.dev L
  cur : s.currentDirBlk ∈ heads L.dirs
  dev : s.tfsLastError ≠ .noDev

/-- The live items of the current directory. -/
def State.listing (n : Nat) (s : State) : List DirItem := entries s.dev (follow s.dev n s.currentDirBlk)

theorem Sys.listing_eq {n : Nat} {s : State} {L : Layout} {C : List Nat} (hs : Sys n s L) (hC : C ∈ L.dirs)
    (hcur : firstBlk C = s.currentDirBlk) : s.listing n = entries s.dev C := by
  rw [State.listing, ← hcur, hs.volume.owned.follow_eq (List.mem_append_left _ hC)]

/-- Some handle is in use. -/
def Held (e : Env) (s : State) : Prop := ∃ fd < e.maxFds, (s.handles fd).usageCount ≠ 0

/-- How a call may end: the device is there, and where the disk was full, no block is free. -/
structure Ended (n : Nat) (s : State) : Prop where
  dev : s.tfsLastError ≠ .noDev
  full : s.tfsLastError = .diskFull → Full n s.dev

theorem Ended.of_ne {n : Nat} {s : State} (hdev : s.tfsLastError ≠ .noDev) (hfull : s.tfsLastError ≠ .diskFull) :
    Ended n s :=
  ⟨hdev, fun h => absurd h hfull⟩

theorem Ended.ok {n : Nat} {s : State} (h : s.tfsLastError = .ok) : Ended n s :=
  .of_ne (by rw [h]; exact Err.noConfusion) (by rw [h]; exact Err.noConfusion)

theorem NoSpace.ended {n : Nat} {s s' : State} {cs : List (List Nat)} {xs : List Nat} (h : NoSpace n s s' cs xs) :
    Ended n s' :=
  ⟨by rw [h.err]; exact Err.noConfusion, fun _ => h.dev ▸ h.full⟩

/-- What a call leaves of the volume: every directory but the current one and
every file is as it was, but for the chains `gone`. -/
structure Changed (n : Nat) (s s' : State) (L L' : Layout) (gone : List Nat) : Prop where
  sys : Sys n s' L'
  full : s'.tfsLastError = .diskFull → Full n s'.dev
  frame : Frame s s'
  loose : L'.loose = L.loose
  leaked : L'.leaked = L.leaked
  upLinks : L'.upLinks = L.upLinks
  dirs : ∀ d ∈ L.dirs, firstBlk d ≠ s.currentDirBlk → firstBlk d ∉ gone →
    d ∈ L'.dirs ∧ ∀ b ∈ d, s'.dev b = s.dev b
  files : ∀ c ∈ L.files, firstBlk c ∉ gone → c ∈ L'.files ∧ ∀ b ∈ c, s'.dev b = s.dev b
  /-- Every directory but the current one was there, or is new, of one block and empty. -/
  dirs_from : ∀ d ∈ L'.dirs, firstBlk d ≠ s.currentDirBlk →
    (d ∈ L.dirs ∧ ∀ b ∈ d, s'.dev b = s.dev b) ∨ (entries s'.dev d = [] ∧ d.length = 1)

/-- The call did one step to the current directory `C`, now `C'`. -/
structure DirOp (e : Env) (n : Nat) (L : Layout) (c : DirCall) (s s' : State) (L' : Layout) (C C' : List Nat)
    (A old new B : List DirItem) : Prop extends Changed n s s' L L' (c.dropped old) where
  mem : C ∈ L.dirs
  mem' : C' ∈ L'.dirs
  head : firstBlk C = s.currentDirBlk
  head' : firstBlk C' = s.currentDirBlk
  before : entries s.dev C = A ++ old ++ B
  after : entries s'.dev C' = A ++ new ++ B
  compact : Compact s.dev C → Compact s'.dev C'
  step : DirStep e.filenameCmp (Held e s) c s'.tfsLastError A old new B

/-- The call does some step. -/
def DirOk (e : Env) (n : Nat) (L : Layout) (c : DirCall) (s s' : State) : Prop :=
  ∃ L' C C' A old new B, DirOp e n L c s s' L' C C' A old new B

/-- The call does a step that brings the entries `new`. -/
def DirDone (e : Env) (n : Nat) (L : Layout) (c : DirCall) (s s' : State) (new : List DirItem) : Prop :=
  ∃ L' C C' A old B, DirOp e n L c s s' L' C C' A old new B

variable {e : Env} {n : Nat} {s s' : State} {L L' : Layout} {gone : List Nat} {c : DirCall}

theorem DirDone.ok {new : List DirItem} (h : DirDone e n L c s s' new) : DirOk e n L c s s' :=
  let ⟨L', C, C', A, old, B, h⟩ := h
  ⟨L', C, C', A, old, new, B, h⟩

/-- A call is its body between the selection and the deselection of the drive. -/
theorem enter_out {α : Type} {r a : α} {body : M α} {t : State} (hs : s.tfsLastError ≠ .noDev)
    (h : body { s with tfsLastError := .ok, log := s.log.call .select } = some (a, t)) :
    enter r (out body) s = some (a, t.call .deselect) := by
  rw [enter_run hs, out_run, h]
  rfl

theorem Sys.enter (hs : Sys n s L) : Sys n { s with tfsLastError := .ok, log := s.log.call .select } L :=
  ⟨hs.mounted, hs.cache, hs.volume, hs.cur, Err.noConfusion⟩

theorem DirOp.leave {t' : State} {C C' : List Nat} {A old new B : List DirItem}
    (h : DirOp e n L c { s with tfsLastError := .ok, log := s.log.call .select } t' L' C C' A old new B) :
    DirOp e n L c s (t'.call .deselect) L' C C' A old new B :=
  ⟨⟨⟨h.sys.mounted, h.sys.cache, h.sys.volume, h.sys.cur, h.sys.dev⟩, h.full,
    ⟨h.frame.1, h.frame.2, h.frame.3, h.frame.4, h.frame.5⟩, h.loose, h.leaked, h.upLinks, h.dirs, h.files,
      h.dirs_from⟩, h.mem,
    h.mem', h.head, h.head', h.before, h.after, h.compact, h.step⟩

/-- A directory call is its body, after the error is cleared and before the drive is deselected. -/
theorem DirOk.bracket {body : M Unit} (hs : Sys n s L)
    (h : ∀ t : State, Sys n t L → t.tfsLastError = .ok → t.handles = s.handles → t.dev = s.dev →
      ∃ t', body t = some ((), t') ∧ DirOk e n L c t t') :
    ∃ s', enter () (out body) s = some ((), s') ∧ DirOk e n L c s s' := by
  obtain ⟨t', hrun, L', C, C', A, old, new, B, h'⟩ := h { s with tfsLastError := .ok, log := s.log.call .select }
    hs.enter rfl rfl rfl
  exact ⟨t'.call .deselect, enter_out hs.dev hrun, L', C, C', A, old, new, B, h'.leave⟩

/-- The current directory among the chains. -/
theorem Sys.inDir (hs : Sys n s L) (herr : s.tfsLastError = .ok) :
    ∃ C D, L.dirs.Perm (C :: D) ∧ InDir n s C (D ++ (L.files ++ L.loose)) L.leaked := by
  obtain ⟨C, hC, hhead⟩ := mem_heads hs.cur
  obtain ⟨D₁, D₂, hsplit⟩ := List.append_of_mem hC
  have hp : L.dirs.Perm (C :: (D₁ ++ D₂)) := hsplit ▸ List.perm_middle
  refine ⟨C, D₁ ++ D₂, hp, ⟨hs.mounted, hs.cache, ?_⟩, herr, hhead.symm⟩
  exact hs.volume.owned.perm (hp.append_right _) (.refl _)

/-- A call that changed no block. -/
theorem Changed.same (hs : Sys n s L) (hf : Frame s s') (hd : s'.dev = s.dev) (hc : s'.CacheOk n)
    (herr : Ended n s') : Changed n s s' L L gone :=
  ⟨⟨hf.mounted hs.mounted, hc, hd ▸ hs.volume, hf.cur ▸ hs.cur, herr.dev⟩, herr.full, hf, rfl, rfl, rfl,
    fun _ h _ _ => ⟨h, fun b _ => by rw [hd]⟩, fun _ h _ => ⟨h, fun b _ => by rw [hd]⟩,
    fun _ h _ => .inl ⟨h, fun b _ => by rw [hd]⟩⟩

/-- A call that did an edit. -/
theorem Changed.edit {C C' : List Nat} {gone born D goneF bornF F : List (List Nat)} {old new : List DirItem}
    (hs : Sys n s L) (hf : Frame s s') (hcur : s.currentDirBlk = firstBlk C)
    (h : Edit s.dev s'.dev L C C' gone born D goneF bornF F old new)
    (hr : Ready n s' (L.edit C' born D bornF F).chains L.leaked) (herr : Ended n s') :
    Changed n s s' L (L.edit C' born D bornF F) (heads gone ++ heads goneF) := by
  refine ⟨⟨hr.mounted, hr.cache, hs.volume.edit h hr.owned, ?_, herr.dev⟩, herr.full, hf, rfl, rfl, rfl, ?_, ?_, ?_⟩
  · rw [hf.cur, hcur, ← h.head]
    simp [Layout.edit]
  · intro d hd hne hg
    have hmem := h.dirs.mem_iff.mp hd
    simp only [List.mem_cons, List.mem_append] at hmem
    rcases hmem with rfl | hmem | hmem
    · exact absurd hcur.symm hne
    · exact absurd (List.mem_append_left _ (firstBlk_mem_heads hmem)) hg
    · exact ⟨by simp [Layout.edit, hmem], h.frame d (by simp [hmem])⟩
  · intro c hc hg
    rcases List.mem_append.mp (h.files.mem_iff.mp hc) with hmem | hmem
    · exact absurd (List.mem_append_right _ (firstBlk_mem_heads hmem)) hg
    · exact ⟨by simp [Layout.edit, hmem], h.frame c (by simp [hmem])⟩
  · intro d hd hne
    simp only [Layout.edit, List.mem_cons, List.mem_append] at hd
    rcases hd with rfl | hd | hd
    · exact absurd (h.head.trans hcur.symm) hne
    · exact .inr ⟨h.born_empty d hd, h.born_single d hd⟩
    · exact .inl ⟨h.dirs.mem_iff.mpr (by simp [hd]), h.frame d (by simp [hd])⟩

end TinyFs
