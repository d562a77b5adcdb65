/-
Several open files. Each descriptor in use stands for a file, and each file is an
array of bytes: a call on a descriptor reads or writes the array of its file, and
touches no other. Two opens of a file share its descriptor, which is free again when
it is closed as often.
-/
import Mathlib.Data.List.Find
import TinyFs.FileBytes
import TinyFs.UsageCount
import TinyFs.VolumeTree

namespace TinyFs

open Bytes Chains

/-! ## Files and descriptors -/

/-- The calls on open files. -/
inductive FdCall
  | openFile (name : List UInt8)
  | close (fd : Nat)
  | read (fd len offset : Nat)
  | write (fd : Nat) (data : List UInt8) (offset : Nat)

/-- What a call returns. -/
inductive FdReply
  | descriptor (fd : Int)
  | closed
  | bytes (k : Nat) (data : List UInt8)
  | count (k : Nat)

def FdCall.exec (e : Env) : FdCall → M FdReply
  | .openFile name => do
    let fd ← tfsOpen e name
    pure (.descriptor fd)
  | .close fd => do
    tfsClose e fd
    pure .closed
  | .read fd len offset => do
    let r ← tfsRead e fd len offset
    pure (.bytes r.1 r.2)
  | .write fd data offset => do
    let k ← tfsWrite e fd data data.length offset
    pure (.count k)

/-- Calls one after another, with what they return and their errors. -/
def runReplies (e : Env) : List FdCall → M (List (FdReply × Err))
  | [] => pure []
  | c :: cs => do
    let r ← c.exec e
    let s ← Prog.gets id
    let rs ← runReplies e cs
    pure ((r, s.tfsLastError) :: rs)

/-- The files at the places `Loc`, each with its bytes and the number of its blocks, the
free blocks, and the descriptors in use, each with its file and the number of its opens. -/
structure OpenFiles (Loc : Type) where
  find : List UInt8 → Option Loc
  bytes : Loc → List UInt8
  blocks : Loc → Nat
  free : Nat
  desc : Nat → Option (Loc × Nat)

section
variable {Loc : Type} [DecidableEq Loc]

/-- The blocks of the file at `p` once it reaches to `stop`. -/
def OpenFiles.grown (A : OpenFiles Loc) (p : Loc) (stop : Nat) : Nat := max (A.blocks p) ((stop - 1) / dataLen + 1)

/-- The bytes `data` put in at `offset`. -/
def OpenFiles.write (A : OpenFiles Loc) (p : Loc) (data : List UInt8) (offset : Nat) : OpenFiles Loc :=
  { A with
    bytes := Function.update A.bytes p ((A.bytes p).take offset ++ data ++ (A.bytes p).drop (offset + data.length))
    blocks := Function.update A.blocks p (A.grown p (offset + data.length))
    free := A.blocks p + A.free - A.grown p (offset + data.length) }

@[simp] theorem OpenFiles.bytes_write (A : OpenFiles Loc) (p : Loc) (data : List UInt8) (offset : Nat) :
    (A.write p data offset).bytes =
      Function.update A.bytes p ((A.bytes p).take offset ++ data ++ (A.bytes p).drop (offset + data.length)) := rfl

@[simp] theorem OpenFiles.desc_write (A : OpenFiles Loc) (p : Loc) (data : List UInt8) (offset : Nat) :
    (A.write p data offset).desc = A.desc := rfl

/-- What a call does, with `m` descriptors, and the error it ends with. A file is opened
on the descriptor it has, or else the first free one; a write starts within the file and
finds room; and a name of no file and a descriptor not in use are refused. -/
inductive OpenFiles.Step (m : Nat) (A : OpenFiles Loc) : FdCall → FdReply × Err → OpenFiles Loc → Prop
  -- the opens of a file are counted in a byte
  | share {name : List UInt8} {p : Loc} {fd k : Nat} : name.headD 0 ≠ 0 → A.find name = some p →
      A.desc fd = some (p, k) → k < 255 →
      A.Step m (.openFile name) (.descriptor fd, .ok) { A with desc := Function.update A.desc fd (some (p, k + 1)) }
  | fresh {name : List UInt8} {p : Loc} {fd : Nat} : name.headD 0 ≠ 0 → A.find name = some p →
      (∀ g k, A.desc g ≠ some (p, k)) → fd < m → A.desc fd = none → (∀ g < fd, A.desc g ≠ none) →
      A.Step m (.openFile name) (.descriptor fd, .ok) { A with desc := Function.update A.desc fd (some (p, 1)) }
  | nameless {name : List UInt8} : name.headD 0 = 0 → A.Step m (.openFile name) (.descriptor (-1), .noName) A
  | missing {name : List UInt8} : name.headD 0 ≠ 0 → A.find name = none →
      A.Step m (.openFile name) (.descriptor (-1), .notExist) A
  | close {p : Loc} {fd k : Nat} : A.desc fd = some (p, k + 1) →
      A.Step m (.close fd) (.closed, .ok)
        { A with desc := Function.update A.desc fd (if k = 0 then none else some (p, k)) }
  | closed {fd : Nat} : A.desc fd = none → A.Step m (.close fd) (.closed, .invalFd) A
  | read {p : Loc} {fd k len offset : Nat} : A.desc fd = some (p, k) → offset < 2 ^ 32 →
      A.Step m (.read fd len offset)
        (.bytes (min len ((A.bytes p).length - offset)) (((A.bytes p).drop offset).take len), .ok) A
  | readClosed {fd len offset : Nat} : A.desc fd = none → A.Step m (.read fd len offset) (.bytes 0 [], .invalFd) A
  | write {p : Loc} {fd k offset : Nat} {data : List UInt8} : A.desc fd = some (p, k) → data ≠ [] →
      offset ≤ (A.bytes p).length → offset + data.length < 2 ^ 32 →
      offset + data.length ≤ dataLen * (A.blocks p + A.free) →
      A.Step m (.write fd data offset) (.count data.length, .ok) (A.write p data offset)
  | writeClosed {fd offset : Nat} {data : List UInt8} : A.desc fd = none →
      A.Step m (.write fd data offset) (.count 0, .invalFd) A

inductive OpenFiles.Run (m : Nat) : OpenFiles Loc → List FdCall → List (FdReply × Err) → OpenFiles Loc → Prop
  | nil {A : OpenFiles Loc} : Run m A [] [] A
  | cons {A A₁ A' : OpenFiles Loc} {c : FdCall} {r : FdReply × Err} {cs : List FdCall} {rs : List (FdReply × Err)} :
      A.Step m c r A₁ → Run m A₁ cs rs A' → Run m A (c :: cs) (r :: rs) A'

end

variable {e : Env} {n fd g u : Nat} {s s' : State} {L L' : Layout} {C c c' f : List Nat} {p q : Nat × Nat}
  {dev : Nat → Block}
  {A : OpenFiles (Nat × Nat)}

/-! ## The file at a slot -/

def State.bytesAt (n : Nat) (s : State) (p : Nat × Nat) : List UInt8 :=
  fileBytes s.dev (follow s.dev n (itemAt s.dev p).blk) 0 (itemAt s.dev p).size

def State.blocksAt (n : Nat) (s : State) (p : Nat × Nat) : Nat := (follow s.dev n (itemAt s.dev p).blk).length

/-- The slot of the file of a name in the current directory. -/
def State.fileNamed (e : Env) (n : Nat) (s : State) (name : List UInt8) : Option (Nat × Nat) :=
  (s.lookup e n name).filter fun p => (itemAt s.dev p).type = itemFile

theorem Volume.follow_file (h : Volume n dev L) (hf : f ∈ L.files ∨ f = []) : follow dev n (firstBlk f) = f := by
  rcases hf with hf | rfl
  · exact h.owned.follow_eq (by simp [Layout.chains, hf])
  · rw [firstBlk_nil, follow_zero]

theorem flatMap_liveAt (dev : Nat → Block) (P : List (Nat × Nat)) :
    (liveAt dev P).flatMap (fun x => x.dirHead ++ x.fileHead) =
      P.flatMap fun p => (itemAt dev p).dirHead ++ (itemAt dev p).fileHead := by
  induction P with
  | nil => rfl
  | cons p P ih =>
    rw [List.flatMap_cons, ← ih, liveAt, List.map_cons]
    by_cases hl : (itemAt dev p).live = true
    · rw [List.filter_cons_of_pos hl]
      rfl
    · have hfree : (itemAt dev p).type = itemFree := by
        by_contra hne
        exact hl (live_of_ne_free hne)
      rw [List.filter_cons_of_neg hl, DirItem.dirHead, DirItem.fileHead, hfree]
      rfl

/-- A chain is that of one slot only. -/
theorem Volume.slot_unique (h : Volume n dev L) (hp : FileSlot dev L p) (hq : FileSlot dev L q) (hf : f ∈ L.files)
    (hpf : (itemAt dev p).blk = firstBlk f) (hqf : (itemAt dev q).blk = firstBlk f) : p = q := by
  have hnd := h.starts_nodup
  have hflat : (L.entries dev).flatMap (fun x => x.dirHead ++ x.fileHead) =
      (L.dirs.flatMap slots).flatMap fun p => (itemAt dev p).dirHead ++ (itemAt dev p).fileHead := by
    rw [Layout.entries, List.flatMap_assoc, List.flatMap_assoc]
    exact List.flatMap_congr fun d _ => flatMap_liveAt dev (slots d)
  rw [hflat] at hnd
  have hpair := (List.nodup_flatMap.mp hnd).2
  have hsymm : Std.Symm (Function.onFun List.Disjoint fun p => (itemAt dev p).dirHead ++ (itemAt dev p).fileHead) :=
    ⟨fun _ _ h => h.symm⟩
  have hne : firstBlk f ≠ 0 :=
    h.ne_zero (by simp [Layout.chains, hf]) _ (firstBlk_mem (h.chain_ne_nil (by simp [Layout.chains, hf])))
  have hmem : ∀ {p}, FileSlot dev L p → p ∈ L.dirs.flatMap slots := fun hp => List.mem_flatMap.mpr hp.dir
  by_contra hpq
  refine hpair.forall (hmem hp) (hmem hq) hpq (mem_fileHead hp.type (hpf ▸ hne)) ?_
  rw [hpf, ← hqf]
  exact mem_fileHead hq.type (hqf ▸ hne)

theorem OpenFile.fileSlot (h : OpenFile n s L fd C q c) : FileSlot s.dev L q := ⟨⟨C, h.dir, h.slot⟩, h.type⟩

theorem OpenFile.bytesAt (h : OpenFile n s L fd C q c) : s.bytesAt n q = s.bytes n fd := by
  rw [State.bytesAt, h.blk, h.size]
  rfl

theorem OpenFile.blocksAt (h : OpenFile n s L fd C q c) : s.blocksAt n q = c.length := by
  rw [State.blocksAt, h.blk, h.first, h.volume.follow_file h.file]

/-! ## A call on one file -/

/-- Another file keeps its entry, its bytes and its blocks. -/
theorem OthersKept.file (h : OthersKept s s' L L' c q) (hv : Volume n s.dev L) (hv' : Volume n s'.dev L')
    (hq : FileSlot s.dev L q) (hc : firstBlk c = (itemAt s.dev q).blk) (hp : FileSlot s.dev L p) (hne : p ≠ q) :
    itemAt s'.dev p = itemAt s.dev p ∧ s'.bytesAt n p = s.bytesAt n p ∧ s'.blocksAt n p = s.blocksAt n p := by
  obtain ⟨d, hd, hpd⟩ := hp.dir
  have hitem := h.items d hd p hpd hne
  obtain ⟨f, hf, hhead⟩ := hv.slotChain hp
  have hkept : (f ∈ L'.files ∨ f = []) ∧ ∀ b ∈ f, s'.dev b = s.dev b := by
    rcases hf with hf | rfl
    · have hfc : f ≠ c := fun heq => hne (hv.slot_unique hp hq hf hhead.symm (heq ▸ hc.symm))
      obtain ⟨hf', hsame⟩ := h.files f hf hfc
      exact ⟨.inl hf', hsame⟩
    · exact ⟨.inr rfl, fun b hb => absurd hb List.not_mem_nil⟩
  have hfollow : follow s'.dev n (itemAt s.dev p).blk = f := by rw [← hhead, hv'.follow_file hkept.1]
  have hfollow₀ : follow s.dev n (itemAt s.dev p).blk = f := by rw [← hhead, hv.follow_file hf]
  refine ⟨hitem, ?_, ?_⟩
  · rw [State.bytesAt, State.bytesAt, hitem, hfollow, hfollow₀, fileBytes, fileBytes, fileContent_congr hkept.2]
  · rw [State.blocksAt, State.blocksAt, hitem, hfollow, hfollow₀]

/-- A handle stays on its file while the entry and the blocks do; the count may change. -/
theorem OpenFile.carried (h : OpenFile n s L fd C q c) (hs' : Sys n s' L') (hdir : C ∈ L'.dirs)
    (hfile : c ∈ L'.files ∨ c = [])
    (hitem : itemAt s'.dev q = itemAt s.dev q) (hh : s'.handles fd = { s.handles fd with usageCount := u }) (hu : u ≠ 0) :
    OpenFile n s' L' fd C q c := by
  refine ⟨hs', hdir, h.slot, hfile, ?_, ?_, ?_, ?_, ?_, ?_, ?_, ?_⟩
  · rw [hh]
    exact hu
  · rw [hh]
    exact h.dirBlk
  · rw [hh]
    exact h.dirItem
  · rw [hitem]
    exact h.type
  · rw [hitem, hh]
    exact h.blk
  · rw [hitem, hh]
    exact h.size
  · rw [hh]
    exact h.first
  · rw [hh]
    exact h.cursor

theorem OthersKept.openFile (h : OthersKept s s' L L' c q) (hs' : Sys n s' L') (hq : FileSlot s.dev L q)
    (hc : firstBlk c = (itemAt s.dev q).blk) (hg : OpenFile n s L g C p c') (hne : p ≠ q)
    (hh : s'.handles g = s.handles g) : OpenFile n s' L' g C p c' := by
  have hfile : c' ∈ L'.files ∨ c' = [] := hg.file.imp_left fun hf =>
    (h.files c' hf fun heq => hne (hg.volume.slot_unique hg.fileSlot hq hf (hg.blk.trans hg.first) (heq ▸ hc.symm))).1
  exact hg.carried hs' ((h.dirs C).mpr hg.dir) hfile (h.items C hg.dir p hg.slot hne)
    (u := (s.handles g).usageCount) hh hg.usage

/-- What is looked up is found where it was. -/
theorem OthersKept.lookup {name : List UInt8} (h : OthersKept s s' L L' c q) (hs : Sys n s L) (hs' : Sys n s' L')
    (hcur : s'.currentDirBlk = s.currentDirBlk) : s'.lookup e n name = s.lookup e n name := by
  obtain ⟨C, hC, hhead⟩ := mem_heads hs.cur
  rw [State.lookup, State.lookup, hcur, ← hhead, hs.volume.follow_dir hC, hs'.volume.follow_dir ((h.dirs C).mpr hC)]
  refine List.find?_congr fun p hp => ?_
  by_cases hpq : p = q
  · rw [hpq, hits, hits, DirItem.live, DirItem.live, h.type, h.name]
  · rw [h.items C hC p hp hpq]

theorem OthersKept.found {name : List UInt8} (h : OthersKept s s' L L' c q) (hs : Sys n s L) (hs' : Sys n s' L')
    (hcur : s'.currentDirBlk = s.currentDirBlk) : s'.fileNamed e n name = s.fileNamed e n name := by
  obtain ⟨C, hC, hhead⟩ := mem_heads hs.cur
  rw [State.fileNamed, State.fileNamed, h.lookup hs hs' hcur]
  rcases hlook : s.lookup e n name with - | p
  · rfl
  · have hp := List.mem_of_find?_eq_some hlook
    rw [← hhead, hs.volume.follow_dir hC] at hp
    have htype : (itemAt s'.dev p).type = (itemAt s.dev p).type := by
      by_cases hpq : p = q
      · rw [hpq, h.type]
      · rw [h.items C hC p hp hpq]
    rw [Option.filter_some, Option.filter_some, htype]

/-! ## The state of the program -/

/-- The program's state presents the files and descriptors: each file on the volume has
the bytes and blocks, and each descriptor is a handle on its file. -/
structure Presents (e : Env) (n : Nat) (s : State) (L : Layout) (A : OpenFiles (Nat × Nat)) : Prop extends Sys n s L where
  table : TableOk e.maxFds s.handles
  find : A.find = s.fileNamed e n
  bytes : ∀ p, FileSlot s.dev L p → A.bytes p = s.bytesAt n p
  blocks : ∀ p, FileSlot s.dev L p → A.blocks p = s.blocksAt n p
  cover : ∀ p, FileSlot s.dev L p → (itemAt s.dev p).size ≤ dataLen * s.blocksAt n p
  free : A.free = freeCount n s.dev
  used : ∀ fd p k, A.desc fd = some (p, k) →
    fd < e.maxFds ∧ (s.handles fd).usageCount = k ∧ ∃ C c, OpenFile n s L fd C p c
  unused : ∀ fd < e.maxFds, A.desc fd = none → (s.handles fd).usageCount = 0

/-- The handle in use on a file is its descriptor. -/
theorem Presents.desc_of_inUse (h : Presents e n s L A) (hfd : fd < e.maxFds)
    (hin : InUseOn s.handles (p.1, some p.2) fd) :
    ∃ k, A.desc fd = some (p, k) := by
  rcases hdesc : A.desc fd with - | ⟨q, k⟩
  · exact absurd hin.used (by rw [h.unused fd hfd hdesc]; exact Nat.lt_irrefl 0)
  · obtain ⟨-, -, C, c, hopen⟩ := h.used fd q k hdesc
    have hplace := hin.place
    rw [Handle.place, hopen.dirBlk, hopen.dirItem, Prod.mk.injEq, Option.some.injEq] at hplace
    exact ⟨k, by rw [← Prod.ext hplace.1 hplace.2]⟩

theorem Presents.onPlace (h : Presents e n s L A) {k : Nat} (hfd : A.desc fd = some (p, k)) :
    InUseOn s.handles (p.1, some p.2) fd := by
  obtain ⟨-, -, C, c, hopen⟩ := h.used fd p k hfd
  exact ⟨Nat.pos_of_ne_zero hopen.usage, by rw [Handle.place, hopen.dirBlk, hopen.dirItem]⟩

theorem Presents.desc_unique (h : Presents e n s L A) {k j : Nat} (hfd : A.desc fd = some (p, k))
    (hg : A.desc g = some (p, j)) : fd = g :=
  h.table.unique (h.used fd p k hfd).1 (h.used g p j hg).1 (h.onPlace hfd) (h.onPlace hg)

theorem OpenFile.recounted (h : OpenFile n s L fd C q c) (hs' : Sys n s' L) (hdev : s'.dev = s.dev)
    (hh : s'.handles fd = { s.handles fd with usageCount := u }) (hu : u ≠ 0) : OpenFile n s' L fd C q c :=
  h.carried hs' h.dir h.file (by rw [hdev]) hh hu

/-! ## The table -/

/-- A call that wrote nothing but the table. -/
theorem Presents.keeps (h : Presents e n s L A) (hk : OpenKeeps s s') (ht : TableOk e.maxFds s'.handles)
    {D : Nat → Option ((Nat × Nat) × Nat)} (hused : ∀ g p k, D g = some (p, k) →
      g < e.maxFds ∧ (s'.handles g).usageCount = k ∧ ∃ C c, OpenFile n s' L g C p c)
    (hunused : ∀ g < e.maxFds, D g = none → (s'.handles g).usageCount = 0) : Presents e n s' L { A with desc := D } := by
  have hdev := hk.dev
  refine ⟨hk.sys h.toSys, ht, ?_, fun p hp => ?_, fun p hp => ?_, fun p hp => ?_, ?_, hused, hunused⟩
  · refine h.find.trans (funext fun name => ?_)
    rw [State.fileNamed, State.fileNamed, hk.lookup, hdev]
  · rw [hdev] at hp
    rw [State.bytesAt, hdev]
    exact h.bytes p hp
  · rw [hdev] at hp
    rw [State.blocksAt, hdev]
    exact h.blocks p hp
  · rw [hdev] at hp
    rw [State.blocksAt, hdev]
    exact h.cover p hp
  · rw [hdev]
    exact h.free

/-- A handle the call did not write. -/
theorem Presents.used_same (h : Presents e n s L A) (hk : OpenKeeps s s') (hh : s'.handles g = s.handles g) {k : Nat}
    (hg : A.desc g = some (p, k)) : g < e.maxFds ∧ (s'.handles g).usageCount = k ∧ ∃ C c, OpenFile n s' L g C p c := by
  obtain ⟨hlt, hu, C, c, hopen⟩ := h.used g p k hg
  exact ⟨hlt, by rw [hh, hu], C, c, hopen.recounted (hk.sys h.toSys) hk.dev
    (u := (s.handles g).usageCount) hh hopen.usage⟩

theorem Presents.setHandle (h : Presents e n s L A) (hk : OpenKeeps s s') (ht : TableOk e.maxFds s'.handles) {x : Handle}
    (hh : s'.handles = Function.update s.handles fd x) {v : Option ((Nat × Nat) × Nat)} (hfd : fd < e.maxFds)
    (hsome : ∀ p k, v = some (p, k) → x.usageCount = k ∧ ∃ C c, OpenFile n s' L fd C p c)
    (hnone : v = none → x.usageCount = 0) : Presents e n s' L { A with desc := Function.update A.desc fd v } := by
  refine h.keeps hk ht (fun g p k hg => ?_) fun g hlt hg => ?_
  · by_cases hgfd : g = fd
    · subst hgfd
      rw [Function.update_self] at hg
      rw [hh, Function.update_self]
      exact ⟨hfd, hsome p k hg⟩
    · rw [Function.update_of_ne hgfd] at hg
      exact h.used_same hk (by rw [hh, Function.update_of_ne hgfd]) hg
  · by_cases hgfd : g = fd
    · subst hgfd
      rw [Function.update_self] at hg
      rw [hh, Function.update_self]
      exact hnone hg
    · rw [Function.update_of_ne hgfd] at hg
      rw [hh, Function.update_of_ne hgfd]
      exact h.unused g hlt hg

/-! ## Refused calls -/

theorem Presents.refused (h : Presents e n s L A) (hk : OpenKeeps s s') (hh : s'.handles = s.handles) :
    Presents e n s' L A :=
  h.keeps hk (hh ▸ h.table) (fun _ _ _ hg => h.used_same hk (congrFun hh _) hg) fun g hlt hg => by
    rw [hh]
    exact h.unused g hlt hg

theorem Presents.invalid (h : Presents e n s L A) (hfd : A.desc fd = none) (t : State) (ht : t.handles = s.handles) :
    invalidFd e t fd := by
  by_cases hlt : fd < e.maxFds
  · refine .inr (.inr ?_)
    rw [Int.toNat_natCast, ht]
    exact h.unused fd hlt hfd
  · exact .inr (.inl (by omega))

theorem Presents.nameless (h : Presents e n s L A) {name : List UInt8} (hname : name.headD 0 = 0) :
    ∃ s', (FdCall.openFile name).exec e s = some (.descriptor (-1), s') ∧ s'.tfsLastError = .noName ∧
    Presents e n s' L A := by
  have hrun : tfsOpen e name s = some (-1, State.call { s.started with tfsLastError := .noName } .deselect) := by
    rw [tfsOpen, enter_started h.dev, Prog.bind_some (findFile_noName hname false), ifOk_err (by exact Err.noConfusion)]
    rfl
  exact ⟨_, (Prog.bind_some hrun).trans rfl, rfl, h.refused (Untouched.refl.openKeeps Err.noConfusion s.handles) rfl⟩

theorem Presents.missing (he : e.NeverFails) (hf : n ≤ e.fuel) (h : Presents e n s L A) {name : List UInt8}
    (hname : name.headD 0 ≠ 0) (hfind : A.find name = none) :
    ∃ s', (FdCall.openFile name).exec e s = some (.descriptor (-1), s') ∧ s'.tfsLastError = .notExist ∧
    Presents e n s' L A := by
  obtain ⟨C, D, hcur⟩ := h.toSys.current_enter
  have hfollow : follow s.dev n s.currentDirBlk = C := hcur.follow_eq
  have hlook := congrFun h.find name
  rw [hfind, State.fileNamed, State.lookup, hfollow] at hlook
  obtain ⟨t, r, hlookup, hrun⟩ : ∃ t r, findFile e name false s.started = some (r, t) ∧
      tfsOpen e name s = some (-1, State.call { t with tfsLastError := .notExist } .deselect) := by
    rw [tfsOpen, enter_started h.dev]
    rcases findFile_lookup he hf hcur.toInDir hname with ⟨q, l, hq, hfound⟩ | ⟨-, l, hfound⟩
    · have hq : ((slots C).find? fun p => hits e name (itemAt s.dev p)) = some q := hq
      have htype : (itemAt s.dev q).type ≠ itemFile := by
        intro htype
        rw [hq, Option.filter_some, if_pos (decide_eq_true htype)] at hlook
        cases hlook
      obtain ⟨t, ht⟩ : ∃ t : State, t = { s.started with blkBuf := s.dev q.1, loadedDirBlk := q.1, log := l } := ⟨_, rfl⟩
      have hfound : findFile e name false s.started = some (some q.2, t) := ht ▸ hfound false
      refine ⟨t, some q.2, hfound, ?_⟩
      have hbuf : t.blkBuf.itemType q.2 ≠ itemFile := by
        rw [ht]
        exact htype
      rw [Prog.bind_some hfound, ifOk_ok (by rw [ht]; rfl), blkBuf_bind]
      simp only [ne_eq, hbuf, not_false_eq_true, if_true]
      rfl
    · obtain ⟨t, ht⟩ : ∃ t : State, t = { s.started with
        blkBuf := s.dev (C.getLastD 0), loadedDirBlk := C.getLastD 0, log := l } :=
        ⟨_, rfl⟩
      have hfound : findFile e name false s.started = some (none, t) := ht ▸ hfound
      refine ⟨t, none, hfound, ?_⟩
      rw [Prog.bind_some hfound, ifOk_ok (by rw [ht]; rfl), blkBuf_bind]
      rfl
  have hu := untouched_of_run (findFile_quiet name) hlookup
  exact ⟨_, (Prog.bind_some hrun).trans rfl, rfl, h.refused (hu.openKeeps Err.noConfusion t.handles) hu.handles⟩

theorem Presents.closed (h : Presents e n s L A) (hfd : A.desc fd = none) :
    ∃ s', (FdCall.close fd).exec e s = some (.closed, s') ∧ s'.tfsLastError = .invalFd ∧ Presents e n s' L A := by
  have hrun : tfsClose e fd s = some ((), { s with tfsLastError := .invalFd }) := by
    unfold tfsClose
    rw [if_neg h.dev, setErr_bind, Prog.gets_bind, id_eq, if_pos (h.invalid hfd _ (by rfl))]
    rfl
  refine ⟨_, (Prog.bind_some hrun).trans rfl, rfl, h.refused ?_ rfl⟩
  exact ⟨rfl, rfl, rfl, rfl, rfl, rfl, rfl, rfl, fun _ => Err.noConfusion, [], .refl rfl, by simp⟩

theorem Presents.readClosed (h : Presents e n s L A) (hfd : A.desc fd = none) (len offset : Nat) :
    ∃ s', (FdCall.read fd len offset).exec e s = some (.bytes 0 [], s') ∧ s'.tfsLastError = .invalFd ∧
    Presents e n s' L A := by
  have hrun : tfsRead e fd len offset s = some ((0, []), State.call
      { s.started with tfsLastError := .invalFd } .deselect) := by
    rw [tfsRead, enter_run h.dev, Prog.gets_bind, id, if_pos (h.invalid hfd _ (by rfl))]
    rfl
  exact ⟨_, (Prog.bind_some hrun).trans rfl, rfl, h.refused (Untouched.refl.openKeeps Err.noConfusion s.handles) rfl⟩

theorem Presents.writeClosed (h : Presents e n s L A) (hfd : A.desc fd = none) (data : List UInt8) (offset : Nat) :
    ∃ s', (FdCall.write fd data offset).exec e s = some (.count 0, s') ∧ s'.tfsLastError = .invalFd ∧
    Presents e n s' L A := by
  have hrun : tfsWrite e fd data data.length offset s = some (0, State.call
      { s.started with tfsLastError := .invalFd } .deselect) := by
    rw [tfsWrite, enter_run h.dev, Prog.gets_bind, id, if_pos (h.invalid hfd _ (by rfl))]
    rfl
  exact ⟨_, (Prog.bind_some hrun).trans rfl, rfl, h.refused (Untouched.refl.openKeeps Err.noConfusion s.handles) rfl⟩

/-! ## Opening and closing -/

/-- `tfs_open` of a file there is. -/
theorem Presents.opens (he : e.NeverFails) (hf : n ≤ e.fuel) (h : Presents e n s L A) {name : List UInt8}
    (hname : name.headD 0 ≠ 0)
    (hfind : A.find name = some q) : FileSlot s.dev L q ∧ ∃ r s', tfsOpen e name s = some (r, s') ∧ OpenKeeps s s' ∧
      OpenStep e.maxFds (openedHandle q.1 q.2 (s.dev q.1)) s.handles r s'.tfsLastError s'.handles := by
  have hlook := congrFun h.find name
  rw [hfind, eq_comm, State.fileNamed, Option.filter_eq_some_iff, decide_eq_true_iff] at hlook
  obtain ⟨hq, ht⟩ := hlook
  obtain ⟨C, hC, hhead⟩ := mem_heads h.cur
  have hmem := List.mem_of_find?_eq_some hq
  rw [← hhead, h.volume.follow_dir hC] at hmem
  obtain ⟨t, hfinds, hplace, hbuf⟩ := h.toSys.findsFile he hf hname hq ht
  obtain ⟨r, s', hrun, hstep, hk⟩ := hfinds.open
  have hdir : t.loadedDirBlk = q.1 := congrArg Prod.fst hplace
  rw [State.opened, hdir, hbuf] at hstep
  exact ⟨⟨⟨C, hC, hmem⟩, ht⟩, r, s', hrun, hk, hstep⟩

theorem Presents.share (he : e.NeverFails) (hf : n ≤ e.fuel) (h : Presents e n s L A) {name : List UInt8} {k : Nat}
    (hname : name.headD 0 ≠ 0) (hfind : A.find name = some q) (hfd : A.desc fd = some (q, k)) (hk : k < 255) :
    ∃ s', (FdCall.openFile name).exec e s = some (.descriptor fd, s') ∧ s'.tfsLastError = .ok ∧
      Presents e n s' L { A with desc := Function.update A.desc fd (some (q, k + 1)) } := by
  obtain ⟨-, r, s', hrun, hkeeps, hstep⟩ := h.opens he hf hname hfind
  obtain ⟨hlt, hu, C, c, hopen⟩ := h.used fd q k hfd
  have hin := h.onPlace hfd
  have ht := hstep.tableOk h.table
  generalize herr : s'.tfsLastError = err at hstep
  generalize hh : s'.handles = K at hstep
  cases hstep with
  | @shared g hg hplace _ =>
    obtain rfl := h.table.unique hg hlt hplace hin
    rw [hu, Nat.mod_eq_of_lt (by omega)] at hh
    refine ⟨s', (Prog.bind_some hrun).trans rfl, herr, h.setHandle hkeeps ht hh hlt
      (fun p j hv => ?_) fun hv => by cases hv⟩
    cases hv
    exact ⟨rfl, C, c, hopen.recounted (hkeeps.sys h.toSys) hkeeps.dev (by rw [hh, Function.update_self])
      (Nat.succ_ne_zero k)⟩
  | full _ hnone => exact absurd hin (hnone fd hlt)
  | fresh _ _ _ hnone => exact absurd hin (hnone fd hlt)

theorem Presents.fresh (he : e.NeverFails) (hf : n ≤ e.fuel) (h : Presents e n s L A) {name : List UInt8}
    (hname : name.headD 0 ≠ 0) (hfind : A.find name = some q) (hnone : ∀ g k, A.desc g ≠ some (q, k))
    (hlt : fd < e.maxFds) (hfd : A.desc fd = none) (hfirst : ∀ g < fd, A.desc g ≠ none) :
    ∃ s', (FdCall.openFile name).exec e s = some (.descriptor fd, s') ∧ s'.tfsLastError = .ok ∧
      Presents e n s' L { A with desc := Function.update A.desc fd (some (q, 1)) } := by
  obtain ⟨hq, r, s', hrun, hkeeps, hstep⟩ := h.opens he hf hname hfind
  have ht := hstep.tableOk h.table
  have hfree := h.unused fd hlt hfd
  generalize herr : s'.tfsLastError = err at hstep
  generalize hh : s'.handles = K at hstep
  cases hstep with
  | @shared g hg hplace _ =>
    obtain ⟨k, hdesc⟩ := h.desc_of_inUse hg hplace
    exact absurd hdesc (hnone g k)
  | full hused _ =>
    have := hused fd (Nat.le_of_lt hlt)
    omega
  | @fresh g hle hzero hbelow _ =>
    obtain rfl : g = fd := by
      rcases Nat.lt_trichotomy g fd with hgfd | heq | hgfd
      · rcases hdesc : A.desc g with - | ⟨p, k⟩
        · exact absurd hdesc (hfirst g hgfd)
        · exact absurd hzero (Nat.ne_of_gt (h.onPlace hdesc).used)
      · exact heq
      · have := hbelow fd hgfd
        omega
    obtain ⟨C, hC, hslot⟩ := hq.dir
    have hs' := hkeeps.sys h.toSys
    have hset : s'.handles g = openedHandle q.1 q.2 (s'.dev q.1) := by rw [hh, Function.update_self, hkeeps.dev]
    obtain ⟨c, hopen, -⟩ := hs'.openFile hC hslot (by rw [hkeeps.dev]; exact hq.type) hset
    refine ⟨s', (Prog.bind_some hrun).trans rfl, herr, h.setHandle hkeeps ht hh hlt
      (fun p j hv => ?_) fun hv => by cases hv⟩
    cases hv
    exact ⟨rfl, C, c, hopen⟩

theorem Presents.close (h : Presents e n s L A) {k : Nat} (hfd : A.desc fd = some (q, k + 1)) :
    ∃ s', (FdCall.close fd).exec e s = some (.closed, s') ∧ s'.tfsLastError = .ok ∧
      Presents e n s' L { A with desc := Function.update A.desc fd (if k = 0 then none else some (q, k)) } := by
  obtain ⟨hlt, hu, C, c, hopen⟩ := h.used fd q _ hfd
  obtain ⟨s', hs'⟩ : ∃ s', s' = { s with
    tfsLastError := .ok, handles := Function.update s.handles fd { s.handles fd with usageCount := k } } := ⟨_, rfl⟩
  have hrun : tfsClose e fd s = some ((), s') := by
    unfold tfsClose
    rw [if_neg hopen.dev, setErr_bind, Prog.gets_bind, id_eq, if_neg (not_invalidFd hlt (by exact hopen.usage)), hs']
    have hcount : (s.handles fd).usageCount - 1 = k := by rw [hu, Nat.add_sub_cancel]
    rw [Int.toNat_natCast, ← hcount]
    rfl
  have hk : OpenKeeps s s' := by
    rw [hs']
    exact ⟨rfl, rfl, rfl, rfl, rfl, rfl, rfl, rfl, fun _ => Err.noConfusion, [], .refl rfl, by simp⟩
  have hh : s'.handles = Function.update s.handles fd { s.handles fd with usageCount := k } := by rw [hs']
  have ht : TableOk e.maxFds s'.handles := hh ▸ h.table.counted fun _ => (h.onPlace hfd).used
  refine ⟨s', (Prog.bind_some hrun).trans rfl, by rw [hs'], h.setHandle hk ht hh hlt (fun p j hv => ?_) fun hv => ?_⟩
  · by_cases hzero : k = 0
    · rw [if_pos hzero] at hv
      cases hv
    · rw [if_neg hzero] at hv
      cases hv
      exact ⟨rfl, C, c, hopen.recounted (hk.sys h.toSys) hk.dev (by rw [hh, Function.update_self]) hzero⟩
  · by_contra hzero
    rw [if_neg hzero] at hv
    cases hv

/-! ## Reading and writing -/

/-- The file of a descriptor. -/
theorem Presents.bytes_of_desc (h : Presents e n s L A) (hopen : OpenFile n s L fd C q c) :
    A.bytes q = fileBytes s.dev c 0 (s.handles fd).size ∧ A.blocks q = c.length ∧
    (s.handles fd).size ≤ dataLen * c.length := by
  have hcover := h.cover q hopen.fileSlot
  rw [hopen.blocksAt, hopen.size] at hcover
  refine ⟨?_, (h.blocks q hopen.fileSlot).trans hopen.blocksAt, hcover⟩
  rw [h.bytes q hopen.fileSlot, hopen.bytesAt, State.bytes, hopen.opened.fileOf]

theorem Presents.read (he : e.NeverFails) (hf : n ≤ e.fuel) (h : Presents e n s L A) {k len offset : Nat}
    (hfd : A.desc fd = some (q, k)) (h32 : offset < 2 ^ 32) : ∃ s', (FdCall.read fd len offset).exec e s =
        some (.bytes (min len ((A.bytes q).length - offset)) (((A.bytes q).drop offset).take len), s') ∧
      s'.tfsLastError = .ok ∧ Presents e n s' L A := by
  obtain ⟨hlt, hu, C, c, hopen⟩ := h.used fd q k hfd
  obtain ⟨hbytes, -, hcover⟩ := h.bytes_of_desc hopen
  obtain ⟨b, pos, v, l, hrun, hcur⟩ := tfsRead_ok (m := min len ((s.handles fd).size - offset)) he
      (hopen.opened.readable hf) hlt h32
    (show _ = min (min len _) _ by omega)
  have hfile := hopen.moved (v := v) (l := l) (show Err.ok ≠ .noDev from Err.noConfusion) hcur
  refine ⟨{ s.seekTo fd b pos v l with tfsLastError := .ok }, ?_, rfl,
    ⟨hfile.toSys, ?_, h.find, h.bytes, h.blocks, h.cover, h.free, fun g p j hg => ?_, fun g hglt hg => ?_⟩⟩
  · refine (Prog.bind_some hrun).trans ?_
    rw [hbytes, fileBytes_length, fileBytes_drop, fileBytes_take, Nat.zero_add, Nat.min_comm len]
    rfl
  · refine h.table.congr (fun g => ?_) fun g => ?_
    · by_cases hg : g = fd
      · subst hg
        have hsame := congrArg Handle.place (State.seekTo_handle s g b pos v l)
        exact hsame
      · exact congrArg Handle.place (Function.update_of_ne hg ..)
    · by_cases hg : g = fd
      · subst hg
        have hsame := congrArg Handle.usageCount (State.seekTo_handle s g b pos v l)
        exact hsame
      · exact congrArg Handle.usageCount (Function.update_of_ne hg ..)
  · obtain ⟨hglt, hgu, C', c', hg'⟩ := h.used g p j hg
    by_cases hgfd : g = fd
    · subst hgfd
      rw [hfd] at hg
      cases hg
      exact ⟨hlt, (congrArg Handle.usageCount (State.seekTo_handle s g b pos v l)).trans hu, C, c, hfile⟩
    · have hsame : (s.seekTo fd b pos v l).handles g = s.handles g := Function.update_of_ne hgfd ..
      exact ⟨hglt, (congrArg Handle.usageCount hsame).trans hgu, C', c',
        hg'.recounted hfile.toSys rfl (u := (s.handles g).usageCount) hsame hg'.usage⟩
  · have hgfd : g ≠ fd := by
      rintro rfl
      rw [hfd] at hg
      cases hg
    exact (congrArg Handle.usageCount (Function.update_of_ne hgfd ..)).trans (h.unused g hglt hg)

/-- What is written goes to the file of the descriptor, and to no other. -/
theorem Presents.write (he : e.NeverFails) (hf : n ≤ e.fuel) (h : Presents e n s L A) {k offset : Nat} {data : List UInt8}
    (hfd : A.desc fd = some (q, k)) (hdata : data ≠ []) (hin : offset ≤ (A.bytes q).length)
    (h32 : offset + data.length < 2 ^ 32) (hroom : offset + data.length ≤ dataLen * (A.blocks q + A.free)) :
    ∃ s' L', (FdCall.write fd data offset).exec e s = some (.count data.length, s') ∧ s'.tfsLastError = .ok ∧
      Presents e n s' L' (A.write q data offset) := by
  obtain ⟨hlt, hu, C, c, hopen⟩ := h.used fd q k hfd
  obtain ⟨hbytes, hblocks, hcover⟩ := h.bytes_of_desc hopen
  have hpos : 0 < data.length := List.length_pos_of_ne_nil hdata
  rw [hbytes, fileBytes_length] at hin
  rw [hblocks, h.free] at hroom
  obtain ⟨s', c', hrun, herr, hopen', hfr, hothers, hlen, hfree, hsize, hnew⟩ := hopen.stores he hf hlt hpos h32 rfl
    (by rw [State.capacity, hopen.opened.fileOf]; exact hroom)
  have hq := hopen.fileSlot
  have hchain : firstBlk c = (itemAt s.dev q).blk := (hopen.blk.trans hopen.first).symm
  have hother : ∀ {p}, FileSlot s'.dev (L.refile C c c') p → p ≠ q → FileSlot s.dev L p ∧
    itemAt s'.dev p = itemAt s.dev p ∧
      s'.bytesAt n p = s.bytesAt n p ∧ s'.blocksAt n p = s.blocksAt n p := by
    intro p hp hne
    obtain ⟨d, hd, hpd⟩ := hp.dir
    have hd' := (hothers.dirs d).mp hd
    have hp' : FileSlot s.dev L p := ⟨⟨d, hd', hpd⟩, hothers.items d hd' p hpd hne ▸ hp.type⟩
    exact ⟨hp', hothers.file h.volume hopen'.volume hq hchain hp' hne⟩
  have hgrown : A.grown q (offset + data.length) = c'.length := by rw [OpenFiles.grown, hblocks, hlen]
  refine ⟨s', L.refile C c c', (Prog.bind_some hrun).trans rfl, herr,
    ⟨hopen'.toSys, ?_, ?_, fun p hp => ?_, fun p hp => ?_, fun p hp => ?_, ?_, fun g p j hg => ?_, fun g hglt hg => ?_⟩⟩
  · refine h.table.congr (fun g => ?_) fun g => ?_
    · by_cases hg : g = fd
      · rw [hg, Handle.place, Handle.place, hfr.entry.1, hfr.entry.2]
      · rw [hfr.others g hg]
    · by_cases hg : g = fd
      · rw [hg, hfr.usage]
      · rw [hfr.others g hg]
  · exact h.find.trans (funext fun name => (hothers.found h.toSys hopen'.toSys hfr.cur).symm)
  · by_cases hpq : p = q
    · show Function.update A.bytes q _ p = _
      rw [hpq, Function.update_self, hopen'.bytesAt, hnew, hbytes, fileBytes_take, fileBytes_drop,
        Nat.min_eq_left hin, Nat.zero_add]
    · obtain ⟨hp', -, hsame, -⟩ := hother hp hpq
      show Function.update A.bytes q _ p = _
      rw [Function.update_of_ne hpq, hsame, h.bytes p hp']
  · by_cases hpq : p = q
    · show Function.update A.blocks q _ p = _
      rw [hpq, Function.update_self, hopen'.blocksAt, hgrown]
    · obtain ⟨hp', -, -, hsame⟩ := hother hp hpq
      show Function.update A.blocks q _ p = _
      rw [Function.update_of_ne hpq, hsame, h.blocks p hp']
  · by_cases hpq : p = q
    · rw [hpq, hopen'.blocksAt, hopen'.size, hsize, hlen]
      exact covered_max hcover hpos
    · obtain ⟨hp', hitem, -, hsame⟩ := hother hp hpq
      rw [hitem, hsame]
      exact h.cover p hp'
  · show A.blocks q + A.free - A.grown q _ = _
    rw [hgrown, hblocks, h.free]
    omega
  · obtain ⟨hglt, hgu, C', d, hg'⟩ := h.used g p j hg
    by_cases hgfd : g = fd
    · subst hgfd
      have hg : A.desc g = some (p, j) := hg
      rw [hfd] at hg
      cases hg
      exact ⟨hlt, hfr.usage.trans hu, C, c', hopen'⟩
    · have hpq : p ≠ q := by
        rintro rfl
        exact hgfd (h.desc_unique hg hfd)
      exact ⟨hglt, by rw [hfr.others g hgfd, hgu], C', d, hothers.openFile hopen'.toSys hq hchain hg' hpq
        (hfr.others g hgfd)⟩
  · have hgfd : g ≠ fd := by
      rintro rfl
      have hg : A.desc g = none := hg
      rw [hfd] at hg
      cases hg
    rw [hfr.others g hgfd]
    exact h.unused g hglt hg

/-! ## Runs -/

/-- One call. -/
theorem Presents.step (he : e.NeverFails) (hf : n ≤ e.fuel) (h : Presents e n s L A) {call : FdCall} {r : FdReply × Err}
    {A' : OpenFiles (Nat × Nat)} (hstep : A.Step e.maxFds call r A') :
    ∃ s' L', call.exec e s = some (r.1, s') ∧ s'.tfsLastError = r.2 ∧ Presents e n s' L' A' := by
  have hsame : ∀ {a : FdReply} {err : Err} {B}, (∃ s', call.exec e s = some (a, s') ∧ s'.tfsLastError = err ∧
    Presents e n s' L B) →
      ∃ s' L', call.exec e s = some (a, s') ∧ s'.tfsLastError = err ∧ Presents e n s' L' B := by
    rintro a err B ⟨s', hs'⟩
    exact ⟨s', L, hs'⟩
  cases hstep with
  | share hname hfind hfd hk => exact hsame (h.share he hf hname hfind hfd hk)
  | fresh hname hfind hnone hlt hfd hfirst => exact hsame (h.fresh he hf hname hfind hnone hlt hfd hfirst)
  | nameless hname => exact hsame (h.nameless hname)
  | missing hname hfind => exact hsame (h.missing he hf hname hfind)
  | close hfd => exact hsame (h.close hfd)
  | closed hfd => exact hsame (h.closed hfd)
  | read hfd h32 => exact hsame (h.read he hf hfd h32)
  | readClosed hfd => exact hsame (h.readClosed hfd _ _)
  | write hfd hdata hin h32 hroom => exact h.write he hf hfd hdata hin h32 hroom
  | writeClosed hfd => exact hsame (h.writeClosed hfd _ _)

theorem Presents.run (he : e.NeverFails) (hf : n ≤ e.fuel) (h : Presents e n s L A) {calls : List FdCall}
    {rs : List (FdReply × Err)} {A' : OpenFiles (Nat × Nat)} (hrun : OpenFiles.Run e.maxFds A calls rs A') :
    ∃ s' L', runReplies e calls s = some (rs, s') ∧ Presents e n s' L' A' := by
  induction hrun generalizing s L with
  | nil => exact ⟨s, L, rfl, h⟩
  | cons hstep _ ih =>
    obtain ⟨s₁, L₁, hcall, herr, h₁⟩ := h.step he hf hstep
    obtain ⟨s', L', hcalls, h'⟩ := ih h₁
    refine ⟨s', L', ?_, h'⟩
    rw [runReplies, Prog.bind_some hcall, Prog.gets_bind, id, Prog.bind_some hcalls, herr]
    rfl

/-- The files of a volume, none of them open. -/
def State.filesOf (e : Env) (n : Nat) (s : State) : OpenFiles (Nat × Nat) where
  find := s.fileNamed e n
  bytes := s.bytesAt n
  blocks := s.blocksAt n
  free := freeCount n s.dev
  desc _ := none

/-- **Open files are separate arrays of bytes.** On a volume whose files have blocks for their sizes, with no handle
in use, every run of opens, closes, reads and writes that open files and descriptors can make returns what it returns
there, and every call leaves the error it leaves there; the volume then has the bytes of that run. -/
theorem run_openFiles (he : e.NeverFails) (hf : n ≤ e.fuel) (hs : Sys n s L)
    (hcover : ∀ d ∈ L.dirs, ∀ p ∈ slots d, (itemAt s.dev p).type = itemFile →
    (itemAt s.dev p).size ≤ dataLen * s.blocksAt n p)
    (hfree : ∀ fd < e.maxFds, (s.handles fd).usageCount = 0) {calls : List FdCall} {rs : List (FdReply × Err)}
    {A : OpenFiles (Nat × Nat)} (hrun : OpenFiles.Run e.maxFds (s.filesOf e n) calls rs A) :
    ∃ s' L', runReplies e calls s = some (rs, s') ∧ Presents e n s' L' A := by
  refine Presents.run he hf ⟨hs, .of_free hfree, rfl, fun p _ => rfl, fun p _ => rfl, fun p hp => ?_, rfl,
    fun _ _ _ hfd => absurd hfd.symm (Option.some_ne_none _), fun fd hfd _ => hfree fd hfd⟩ hrun
  obtain ⟨d, hd, hpd⟩ := hp.dir
  exact hcover d hd p hpd hp.type

/-- A formatted volume with two empty files in it. -/
def withTwoFiles (e : Env) : M Unit := do
  withEmptyFile e
  tfsTouch e [98]

theorem withTwoFiles_ok : ∃ s L, withTwoFiles (Env.linux 16) (State.boot fun _ => Buf.zero) = some ((), s) ∧ Sys 16 s L ∧
    s.fileNamed (Env.linux 16) 16 [97] = some (1, 0) ∧ s.fileNamed (Env.linux 16) 16 [98] = some (1, 1) ∧
    s.bytesAt 16 (1, 0) = [] ∧ s.bytesAt 16 (1, 1) = [] ∧ 0 < freeCount 16 s.dev ∧
    (∀ fd < 32, (s.handles fd).usageCount = 0) ∧
    ∀ b < 16, b ≠ 0 → ∀ i < dirBlkItems, (itemAt s.dev (b, i)).size = 0 := by
  obtain ⟨s₁, dirs, files, hrun, hrest, -⟩ := withEmptyFile_ok
  obtain ⟨s, htouch, L', _, _, _, _, _, _, h⟩ := tfsTouch_ok (Env.linux_neverFails 16) (by decide) hrest.sys [98]
  have hrun : withTwoFiles (Env.linux 16) (State.boot fun _ => Buf.zero) = some ((), s) := by
    rw [withTwoFiles, Prog.bind_some hrun]
    exact htouch
  have hfiles : (withTwoFiles (Env.linux 16) (State.boot fun _ => Buf.zero)).map (fun p =>
      (p.2.fileNamed (Env.linux 16) 16 [97], p.2.fileNamed (Env.linux 16) 16 [98], p.2.bytesAt 16 (1, 0),
        p.2.bytesAt 16 (1, 1))) =
      some (some (1, 0), some (1, 1), [], []) := by decide +kernel
  have hfacts : (withTwoFiles (Env.linux 16) (State.boot fun _ => Buf.zero)).map (fun p =>
      (decide (0 < freeCount 16 p.2.dev), (List.range 32).all fun fd => (p.2.handles fd).usageCount = 0,
        (List.range' 1 15).all fun b => (List.range dirBlkItems).all fun i => (itemAt p.2.dev (b, i)).size = 0)) =
      some (true, true, true) := by decide +kernel
  rw [hrun, Option.map_some, Option.some.injEq] at hfiles hfacts
  simp only [Prod.mk.injEq] at hfiles
  simp only [Prod.mk.injEq, decide_eq_true_iff, List.all_eq_true, List.mem_range, List.mem_range'_1] at hfacts
  obtain ⟨hfa, hfb, hba, hbb⟩ := hfiles
  obtain ⟨hfree, hused, hsize⟩ := hfacts
  exact ⟨s, L', hrun, h.sys, hfa, hfb, hba, hbb, hfree, hused, fun b hb h0 i hi => hsize b (by omega) i hi⟩

/-- Both files opened; a byte written to the second is read there, and not in the first. -/
theorem run_openFiles_two : ∃ s s' L' A, withTwoFiles (Env.linux 16) (State.boot fun _ => Buf.zero) = some ((), s) ∧
    runReplies (Env.linux 16) [.openFile [97], .openFile [98], .write 1 [7] 0, .read 0 1 0, .read 1 1 0, .close 0,
    .read 0 1 0] s =
      some ([(.descriptor 0, .ok), (.descriptor 1, .ok), (.count 1, .ok), (.bytes 0 [], .ok), (.bytes 1 [7], .ok),
        (.closed, .ok), (.bytes 0 [], .invalFd)], s') ∧
    Presents (Env.linux 16) 16 s' L' A := by
  obtain ⟨s, L, hrun, hs, hfa, hfb, hba, hbb, hfree, hused, hsize⟩ := withTwoFiles_ok
  obtain ⟨A₀, hA₀⟩ : ∃ A₀, A₀ = s.filesOf (Env.linux 16) 16 := ⟨_, rfl⟩
  have hdesc : A₀.desc = fun _ => none := by rw [hA₀]; rfl
  have hba : A₀.bytes (1, 0) = [] := by rw [hA₀]; exact hba
  have hbb : A₀.bytes (1, 1) = [] := by rw [hA₀]; exact hbb
  have hroom : 1 ≤ dataLen * (A₀.blocks (1, 1) + A₀.free) := by
    have hpos : 0 < A₀.free := by rw [hA₀]; exact hfree
    exact Nat.mul_pos (by decide) (by omega)
  obtain ⟨A₁, hA₁⟩ : ∃ A₁, A₁ = { A₀ with desc := Function.update A₀.desc 0 (some ((1, 0), 1)) } := ⟨_, rfl⟩
  have h₁ : A₀.Step 32 (.openFile [97]) (.descriptor (0 : Nat), .ok) A₁ := by
    rw [hA₁]
    refine .fresh (by decide) (by rw [hA₀]; exact hfa) (fun g k => ?_) (by decide) (by rw [hdesc]) fun g hg =>
      absurd hg (Nat.not_lt_zero g)
    rw [hdesc]
    exact (Option.some_ne_none _).symm
  have hopen : A₁.desc = Function.update A₀.desc 0 (some ((1, 0), 1)) := by rw [hA₁]
  obtain ⟨A₂, hA₂⟩ : ∃ A₂, A₂ = { A₁ with desc := Function.update A₁.desc 1 (some ((1, 1), 1)) } := ⟨_, rfl⟩
  have h₂ : A₁.Step 32 (.openFile [98]) (.descriptor (1 : Nat), .ok) A₂ := by
    rw [hA₂]
    refine .fresh (by decide) (by rw [hA₁, hA₀]; exact hfb) (fun g k => ?_) (by decide) ?_ fun g hg => ?_
    · rw [hopen, hdesc]
      by_cases hg : g = 0
      · simp [hg]
      · simp [hg]
    · simp [hopen, hdesc]
    · obtain rfl : g = 0 := by omega
      simp [hopen]
  have hdesc₀ : A₂.desc 0 = some ((1, 0), 1) := by
    rw [hA₂]
    simp [hopen]
  have hdesc₁ : A₂.desc 1 = some ((1, 1), 1) := by
    rw [hA₂]
    simp
  have hbytes : A₂.bytes = A₀.bytes ∧ A₂.blocks = A₀.blocks ∧ A₂.free = A₀.free := by
    rw [hA₂, hA₁]
    exact ⟨rfl, rfl, rfl⟩
  obtain ⟨A₃, hA₃⟩ : ∃ A₃, A₃ = A₂.write (1, 1) [7] 0 := ⟨_, rfl⟩
  have h₃ : A₂.Step 32 (.write 1 [7] 0) (.count 1, .ok) A₃ :=
    hA₃ ▸ .write hdesc₁ (by decide) (Nat.zero_le _) (by decide) (by rw [hbytes.2.1, hbytes.2.2]; exact hroom)
  have hdesc₃ : A₃.desc = A₂.desc := by rw [hA₃, OpenFiles.desc_write]
  have hfirst : A₃.bytes (1, 0) = [] := by
    rw [hA₃, OpenFiles.bytes_write, Function.update_of_ne (by decide), hbytes.1, hba]
  have hsecond : A₃.bytes (1, 1) = [7] := by
    rw [hA₃, OpenFiles.bytes_write, Function.update_self, hbytes.1, hbb]
    rfl
  have h₄ : A₃.Step 32 (.read 0 1 0) (.bytes 0 [], .ok) A₃ := by
    have hread : A₃.Step 32 (.read 0 1 0) _ A₃ := .read (hdesc₃ ▸ hdesc₀) (by decide)
    rwa [hfirst] at hread
  have h₅ : A₃.Step 32 (.read 1 1 0) (.bytes 1 [7], .ok) A₃ := by
    have hread : A₃.Step 32 (.read 1 1 0) _ A₃ := .read (hdesc₃ ▸ hdesc₁) (by decide)
    rwa [hsecond] at hread
  obtain ⟨A₄, hA₄⟩ : ∃ A₄, A₄ = { A₃ with desc := Function.update A₃.desc 0 none } := ⟨_, rfl⟩
  have h₆ : A₃.Step 32 (.close 0) (.closed, .ok) A₄ := hA₄ ▸ .close (k := 0) (hdesc₃ ▸ hdesc₀)
  have h₇ : A₄.Step 32 (.read 0 1 0) (.bytes 0 [], .invalFd) A₄ := .readClosed (by rw [hA₄]; simp)
  have hruns : OpenFiles.Run 32 A₀ _ _ _ :=
      .cons h₁ (.cons h₂ (.cons h₃ (.cons h₄ (.cons h₅ (.cons h₆ (.cons h₇ .nil))))))
  rw [hA₀] at hruns
  have hcover : ∀ d ∈ L.dirs, ∀ p ∈ slots d, (itemAt s.dev p).type = itemFile →
      (itemAt s.dev p).size ≤ dataLen * s.blocksAt 16 p := by
    intro d hd p hp _
    obtain ⟨hb, hi⟩ := mem_slots.mp hp
    have hd : d ∈ L.chains := List.mem_append_left _ hd
    rw [hsize p.1 (hs.volume.owned.mem_lt hd hb) (hs.volume.ne_zero hd _ hb) p.2 hi]
    exact Nat.zero_le _
  obtain ⟨s', L', hrun', hs'⟩ := run_openFiles (Env.linux_neverFails 16) (by decide) hs hcover hused hruns
  exact ⟨s, s', L', _, hrun, hrun', hs'⟩

end TinyFs
