/-
The basic API over whole runs. `WellFormed` states what a volume has to be in
terms of the medium alone: the blocks reached from the root directory along
`next` and the live entries form chains that are apart, and the bitmap marks
them and itself. Every call keeps the layout of a volume tight, so every run
from a freshly formatted volume ends in a well-formed one.
-/
import TinyFs.Format
import TinyFs.Navigate
import TinyFs.WriteOps

namespace TinyFs

open Bytes Chains

/-! ## The volume a medium holds -/

/-- The directory blocks, from the root along `next` and the directory entries. -/
inductive DirReached (dev : Nat → Block) : Nat → Prop
  | root : DirReached dev rootDirBlk
  | next {b : Nat} : DirReached dev b → (dev b).next ≠ 0 → DirReached dev (dev b).next
  | entry {b i : Nat} : DirReached dev b → i < dirBlkItems → (dev b).itemType i = itemDir →
      DirReached dev ((dev b).itemBlk i)

/-- The data blocks, from the file entries along `next`. -/
inductive FileReached (dev : Nat → Block) : Nat → Prop
  | entry {b i : Nat} : DirReached dev b → i < dirBlkItems → (dev b).itemType i = itemFile → (dev b).itemBlk i ≠ 0 →
      FileReached dev ((dev b).itemBlk i)
  | next {b : Nat} : FileReached dev b → (dev b).next ≠ 0 → FileReached dev (dev b).next

/-- The chains `dirs` and `files` are the volume on a medium of `n` blocks. -/
structure WellFormed (n : Nat) (dev : Nat → Block) (dirs files : List (List Nat)) : Prop where
  /-- Every chain ends, with `prev` the inverse of `next` and 0 at the head. -/
  chain : ∀ c ∈ dirs ++ files, Chain dev c
  /-- One directory chain starts at the root, one at each directory entry. -/
  dirHeads : (heads dirs).Perm (rootDirBlk :: (dirs.flatMap (entries dev)).flatMap (·.dirHead))
  /-- One data chain starts at each file entry with a block. -/
  fileHeads : (heads files).Perm ((dirs.flatMap (entries dev)).flatMap (·.fileHead))
  /-- No block is in two chains, or twice in one. -/
  nodup : (dirs ++ files).flatten.Nodup
  /-- The chains are what is reached from the root. -/
  dirs_reached : ∀ b, b ∈ dirs.flatten ↔ DirReached dev b
  files_reached : ∀ b, b ∈ files.flatten ↔ FileReached dev b
  range : ∀ b, DirReached dev b ∨ FileReached dev b → b < n ∧ b % 4096 ≠ 0
  used : ∀ b < n, Used dev b ↔ b % 4096 = 0 ∨ DirReached dev b ∨ FileReached dev b

variable {e : Env} {n : Nat} {s s' : State} {L : Layout} {dev : Nat → Block} {c d : List Nat} {b : Nat}

/-- A chain is closed under `next`. -/
theorem Chain.next_mem (h : Chain dev c) (hb : b ∈ c) (hne : (dev b).next ≠ 0) : (dev b).next ∈ c := by
  obtain ⟨c₁, c₂, rfl⟩ := List.append_of_mem hb
  have hnext : (dev b).next = c₂.headD 0 := (linked_append.mp h.2).2.2.1
  cases c₂ with
  | nil => exact absurd hnext hne
  | cons x c₂ =>
    have hx : (dev b).next = x := hnext
    simp [hx]

/-- What holds of the first of some linked blocks, and goes from a block to the
next one, holds of them all. -/
theorem linked_all {R : Nat → Prop} {p : Nat} (h : LinkedOn dev p c 0) (hr : ∀ b ∈ c, b ≠ 0) (hhead : R (firstBlk c))
    (hnext : ∀ b, R b → (dev b).next ≠ 0 → R (dev b).next) : ∀ b ∈ c, R b := by
  induction c generalizing p with
  | nil => simp
  | cons x c ih =>
    obtain ⟨-, hx, hl⟩ := h
    have hx : (dev x).next = firstBlk c := hx
    intro b hb
    rcases List.mem_cons.mp hb with rfl | hb
    · exact hhead
    · have hne : firstBlk c ≠ 0 := hr _ (List.mem_cons_of_mem _ (firstBlk_mem (List.ne_nil_of_mem hb)))
      exact ih hl (fun b hb => hr b (List.mem_cons_of_mem _ hb)) (hx ▸ hnext x hhead (hx ▸ hne)) b hb

/-- An entry of a chain sits in one of its blocks. -/
theorem item_mem_entries {i : Nat} (hb : b ∈ c) (hi : i < dirBlkItems) (hl : ((dev b).item i).live = true) :
    (dev b).item i ∈ entries dev c := mem_entries.mpr ⟨b, hb, i, hi, rfl, hl⟩

/-- What is reached as a directory block is a block of a directory. -/
theorem Volume.mem_of_dirReached (h : Volume n dev L) (hb : DirReached dev b) : b ∈ L.dirs.flatten := by
  induction hb with
  | root =>
    obtain ⟨d, hd, hhead⟩ := mem_heads h.root_mem
    have hmem := firstBlk_mem (h.chain_ne_nil (c := d) (List.mem_append_left _ hd))
    exact List.mem_flatten.mpr ⟨d, hd, hhead ▸ hmem⟩
  | next _ hne ih =>
    obtain ⟨d, hd, hb⟩ := List.mem_flatten.mp ih
    exact List.mem_flatten.mpr ⟨d, hd, (h.owned.chain d (List.mem_append_left _ hd)).next_mem hb hne⟩
  | @entry b i _ hi ht ih =>
    obtain ⟨d, hd, hb⟩ := List.mem_flatten.mp ih
    have hx := item_mem_entries hb hi (live_of_ne_free (x := (dev b).item i) (by rw [Block.item_type, ht]; decide))
    obtain ⟨d', hd', hhead⟩ := mem_heads (h.mem_dirs hd hx ht)
    have hmem := firstBlk_mem (h.chain_ne_nil (c := d') (List.mem_append_left _ hd'))
    rw [hhead] at hmem
    exact List.mem_flatten.mpr ⟨d', hd', hmem⟩

theorem Volume.mem_of_fileReached (h : Volume n dev L) (hb : FileReached dev b) : b ∈ L.files.flatten := by
  induction hb with
  | @entry b i hb hi ht hne =>
    obtain ⟨d, hd, hb⟩ := List.mem_flatten.mp (h.mem_of_dirReached hb)
    have hx := item_mem_entries hb hi (live_of_ne_free (x := (dev b).item i) (by rw [Block.item_type, ht]; decide))
    obtain ⟨c, hc, hhead⟩ := mem_heads (h.mem_files hd hx ht hne)
    have hmem := firstBlk_mem (h.chain_ne_nil (c := c) (by simp [Layout.chains, hc]))
    rw [hhead] at hmem
    exact List.mem_flatten.mpr ⟨c, hc, hmem⟩
  | next _ hne ih =>
    obtain ⟨c, hc, hb⟩ := List.mem_flatten.mp ih
    exact List.mem_flatten.mpr ⟨c, hc, (h.owned.chain c (by simp [Layout.chains, hc])).next_mem hb hne⟩

/-- Every directory is reached, by induction on its depth. -/
theorem Volume.dirReached (h : Volume n dev L) (hd : d ∈ L.dirs) : ∀ b ∈ d, DirReached dev b := by
  induction hk : L.depth (firstBlk d) using Nat.strong_induction_on generalizing d with
  | _ k ih =>
    have hc : d ∈ L.chains := List.mem_append_left _ hd
    refine linked_all (h.owned.chain d hc).2 (h.ne_zero hc) ?_ fun b => .next
    rcases h.head_cases hd with hroot | ⟨d', hd', x, hx, ht, hhead⟩
    · exact hroot ▸ .root
    · have hdepth := (h.tree d' hd' x hx ht).2
      rw [hhead, hk] at hdepth
      obtain ⟨b, hb, i, hi, rfl, -⟩ := mem_entries.mp hx
      exact hhead ▸ .entry (ih _ hdepth hd' rfl b hb) hi ht

theorem Volume.fileReached (h : Volume n dev L) (hc : c ∈ L.files) : ∀ b ∈ c, FileReached dev b := by
  have hc' : c ∈ L.chains := by simp [Layout.chains, hc]
  refine linked_all (h.owned.chain c hc').2 (h.ne_zero hc') ?_ fun b => .next
  obtain ⟨x, hx, hhead⟩ := List.mem_flatMap.mp (h.fileHeads.mem_iff.mp (firstBlk_mem_heads hc))
  obtain ⟨d, hd, hx⟩ := List.mem_flatMap.mp hx
  rw [DirItem.fileHead] at hhead
  split at hhead
  · rename_i ht
    obtain ⟨b, hb, i, hi, rfl, -⟩ := mem_entries.mp hx
    rw [List.mem_singleton.mp hhead]
    exact .entry (h.dirReached hd b hb) hi ht.1 ht.2
  · simp at hhead

/-- A tight layout is a well-formed volume. -/
theorem Volume.wellFormed (h : Volume n dev L) (ht : L.Tight) : WellFormed n dev L.dirs L.files := by
  have hdirs : ∀ b, b ∈ L.dirs.flatten ↔ DirReached dev b := fun b =>
    ⟨fun hb => let ⟨d, hd, hb⟩ := List.mem_flatten.mp hb; h.dirReached hd b hb, h.mem_of_dirReached⟩
  have hfiles : ∀ b, b ∈ L.files.flatten ↔ FileReached dev b := fun b =>
    ⟨fun hb => let ⟨c, hc, hb⟩ := List.mem_flatten.mp hb; h.fileReached hc b hb, h.mem_of_fileReached⟩
  have ho := h.owned
  rw [Layout.chains, ht.loose, List.append_nil, ht.leaked] at ho
  have hmem : ∀ b, b ∈ [] ++ (L.dirs ++ L.files).flatten ↔ DirReached dev b ∨ FileReached dev b := fun b => by
    rw [List.nil_append, List.flatten_append, List.mem_append, hdirs, hfiles]
  exact ⟨ho.chain, h.dirHeads, h.fileHeads, ho.nodup, hdirs, hfiles, fun b hb => ho.range b ((hmem b).mpr hb),
    fun b hb => (ho.used b hb).trans (or_congr_right (hmem b))⟩

/-! ## Runs -/

/-- The calls of the basic API. -/
inductive Call
  | onDir (c : DirCall)
  | changeDir (name : List UInt8)
  | changeDirParent
  | changeDirRoot
  | readDir (handler : List DirItem → Bool)
  | getUsed

def Call.exec (e : Env) : Call → M Unit
  | .onDir c => c.exec e
  | .changeDir name => tfsChangeDir e name
  | .changeDirParent => tfsChangeDirParent e
  | .changeDirRoot => tfsChangeDirRoot
  | .readDir handler => do
    let _ ← tfsReadDir e handler
    pure ()
  | .getUsed => do
    let _ ← tfsGetUsed e
    pure ()

/-- Every call returns, and keeps the volume and what is not in it. -/
theorem Call.exec_ok (he : e.NeverFails) (hf : n ≤ e.fuel) (hs : Sys n s L) (hup : L.upLinks) (c : Call) :
    ∃ s' L', c.exec e s = some ((), s') ∧ Sys n s' L' ∧ L'.loose = L.loose ∧ L'.leaked = L.leaked ∧ L'.upLinks := by
  cases c with
  | onDir c =>
    obtain ⟨s', hrun, L', C, C', A, old, new, B, h⟩ := DirCall.exec_ok he hf hs c
    exact ⟨s', L', hrun, h.sys, h.loose, h.leaked, h.upLinks ▸ hup⟩
  | changeDir name =>
    obtain ⟨s', hrun, h, -⟩ := tfsChangeDir_ok he hf hs name
    exact ⟨s', L, hrun, h.sys, rfl, rfl, hup⟩
  | changeDirParent =>
    obtain ⟨s', hrun, h, -⟩ := tfsChangeDirParent_ok he hs hup
    exact ⟨s', L, hrun, h.sys, rfl, rfl, hup⟩
  | changeDirRoot =>
    obtain ⟨s', hrun, h⟩ := tfsChangeDirRoot_ok hs
    exact ⟨s', L, hrun, h.sys, rfl, rfl, hup⟩
  | readDir handler =>
    obtain ⟨C, hC, hcur⟩ := mem_heads hs.cur
    obtain ⟨s', hrun, h⟩ := tfsReadDir_ok he hf hs hC hcur handler
    exact ⟨s', L, Prog.bind_some hrun, h.sys, rfl, rfl, hup⟩
  | getUsed =>
    obtain ⟨s', hrun, h⟩ := tfsGetUsed_stays he hf hs
    exact ⟨s', L, Prog.bind_some hrun, h.sys, rfl, rfl, hup⟩

/-- A freshly formatted volume. -/
def formatted (e : Env) : M Unit := do
  tfsInit e
  tfsFormat e

theorem formatted_ok (he : e.NeverFails) (hd : e.drive.blkCount = some n) (hn : 2 ≤ n) (hlt : n < 2 ^ 32)
    (hf : n ≤ e.fuel) (s : State) : ∃ s', formatted e s = some ((), s') ∧ Sys n s' Layout.fresh ∧
      (∀ fd < e.maxFds, s'.handles fd = Handle.zero) ∧ s'.dev rootDirBlk = Buf.zero := by
  obtain ⟨l, hinit⟩ := tfsInit_ok he hd (by omega) hlt s
  obtain ⟨s₁, hinit, hmt, herr, hh₁⟩ : ∃ s₁, tfsInit e s = some ((), s₁) ∧ s₁.Mounted n ∧ s₁.tfsLastError = .ok ∧
      ∀ fd < e.maxFds, s₁.handles fd = Handle.zero :=
    ⟨_, hinit, ⟨by omega, hlt, rfl, rfl, rfl⟩, rfl, fun fd hfd => if_pos hfd⟩
  have hnd : s₁.tfsLastError ≠ .noDev := by
    rw [herr]
    exact Err.noConfusion
  obtain ⟨s', hrun, hs, hh, hroot⟩ := tfsFormat_ok he hf hn hmt hnd
  exact ⟨s', (Prog.bind_some hinit).trans hrun, hs, fun fd hfd => hh ▸ hh₁ fd hfd, hroot⟩

/-- A run of the basic API on a volume that leaks nothing. -/
theorem Sys.runAll (he : e.NeverFails) (hf : n ≤ e.fuel) (hs : Sys n s L) (htight : L.Tight) (hup : L.upLinks)
    (calls : List Call) : ∃ s' L', Prog.runAll (Call.exec e) calls s = some ((), s') ∧ Sys n s' L' ∧ L'.Tight ∧
    L'.upLinks := by
  have hstep : ∀ (c : Call) (t : State), (∃ L, Sys n t L ∧ L.Tight ∧ L.upLinks) →
      ∃ t', c.exec e t = some ((), t') ∧ ∃ L, Sys n t' L ∧ L.Tight ∧ L.upLinks := by
    rintro c t ⟨L, ht, htight, hup⟩
    obtain ⟨t', L', hrun, ht', hloose, hleaked, hup'⟩ := Call.exec_ok he hf ht hup c
    exact ⟨t', hrun, L', ht', ⟨hloose.trans htight.loose, hleaked.trans htight.leaked⟩, hup'⟩
  obtain ⟨s', hruns, L', hs', htight', hup'⟩ := Prog.runAll_total hstep calls ⟨L, hs, htight, hup⟩
  exact ⟨s', L', hruns, hs', htight', hup'⟩

/-- A freshly formatted volume with what the calls put in it. -/
def furnished (e : Env) (calls : List Call) : M Unit := do
  formatted e
  Prog.runAll (Call.exec e) calls

theorem furnished_ok (he : e.NeverFails) (hd : e.drive.blkCount = some n) (hn : 2 ≤ n) (hlt : n < 2 ^ 32)
    (hf : n ≤ e.fuel) (calls : List Call) (s : State) :
    ∃ s' L, furnished e calls s = some ((), s') ∧ Sys n s' L ∧ L.Tight ∧ L.upLinks := by
  obtain ⟨s₀, hrun, hs, -⟩ := formatted_ok he hd hn hlt hf s
  obtain ⟨s', L, hruns, hend⟩ := hs.runAll he hf Layout.fresh_tight trivial calls
  exact ⟨s', L, (Prog.bind_some hrun).trans hruns, hend⟩

/-- The file `a` of two blocks, and the directory `d` with the empty file `b`. -/
def smallTree : List Call :=
  [.onDir (.writeFile [97] (List.replicate 600 7) 600 false), .onDir (.createDir [100]), .changeDir [100],
    .onDir (.touch [98]), .changeDirRoot]

/-- On a drive that never fails, every run of the basic API on a freshly formatted
volume returns and leaves a well-formed volume. -/
theorem run_wellFormed (he : e.NeverFails) (hd : e.drive.blkCount = some n) (hn : 2 ≤ n) (hlt : n < 2 ^ 32)
    (hf : n ≤ e.fuel) (s : State) : ∃ s₀, formatted e s = some ((), s₀) ∧ ∀ calls : List Call,
      ∃ s', Prog.runAll (Call.exec e) calls s₀ = some ((), s') ∧ ∃ dirs files, WellFormed n s'.dev dirs files := by
  obtain ⟨s₀, hrun, hs, -⟩ := formatted_ok he hd hn hlt hf s
  refine ⟨s₀, hrun, fun calls => ?_⟩
  obtain ⟨s', L, hruns, hs', htight, -⟩ := hs.runAll he hf Layout.fresh_tight trivial calls
  exact ⟨s', hruns, L.dirs, L.files, hs'.volume.wellFormed htight⟩

/-- Sixteen blocks. -/
theorem run_wellFormed_sixteen : ∃ s₀, formatted (Env.linux 16) (State.boot fun _ => Buf.zero) = some ((), s₀) ∧
    ∀ calls : List Call, ∃ s', Prog.runAll (Call.exec (Env.linux 16)) calls s₀ = some ((), s') ∧
      ∃ dirs files, WellFormed 16 s'.dev dirs files :=
  run_wellFormed (Env.linux_neverFails 16) rfl (by omega) (by omega) (by decide) _

end TinyFs
