/-
A start-up that fails. When the block read of `tfs_init` fails, the error is
gone with the next call, and `current_dir_blk` is left as it was: 0, the first
bitmap block. Which directories a run may write through is read off the media
it went through. A run that starts with `tfs_change_dir_root` writes through
those alone, as long as it follows no entry of a directory without a block, and
one that does not may write an entry into the bitmap.
-/
import TinyFs.ReadBack
import TinyFs.Refusal

namespace TinyFs

open Bytes

variable {e : Env} {n : Nat} {α : Type} {s s' s₀ : State} {dev : Nat → Block} {ops pre : List Op} {op : Op} {b c : Nat}

/-! ## Directories of a run -/

/-- A block of the chain that starts at `c`. -/
inductive ChainBlock (dev : Nat → Block) (c : Nat) : Nat → Prop
  | head : ChainBlock dev c c
  | next {b : Nat} : ChainBlock dev c b → (dev b).next ≠ 0 → ChainBlock dev c (dev b).next

/-- The directory at `c` names `b` as one: by an entry, or as the directory above. Block
0 is never named: there the field says that there is no block. -/
inductive Names (dev : Nat → Block) (c : Nat) : Nat → Prop
  | entry {b i : Nat} : ChainBlock dev c b → i < dirBlkItems → (dev b).itemType i = itemDir → (dev b).itemBlk i ≠ 0 →
      Names dev c ((dev b).itemBlk i)
  | parent : (dev c).parent ≠ 0 → Names dev c (dev c).parent

/-- The head blocks of the directories a run has seen: the root, and what such a
directory named on the medium of some moment of the run. -/
inductive DirHead (e : Env) (s₀ : State) (ops : List Op) : Nat → Prop
  | root : DirHead e s₀ ops rootDirBlk
  | named {pre : List Op} {s : State} {c b : Nat} : pre <+: ops → Prog.runAll (Op.exec e) pre s₀ = some ((), s) →
      DirHead e s₀ ops c → Names s.dev c b → DirHead e s₀ ops b

theorem DirHead.mono (h : DirHead e s₀ pre b) (hpre : pre <+: ops) : DirHead e s₀ ops b := by
  induction h with
  | root => exact .root
  | named h1 h2 _ h4 ih => exact .named (h1.trans hpre) h2 ih h4

theorem Names.ne_zero (h : Names dev c b) : b ≠ 0 := by
  cases h <;> assumption

/-- The bitmap in block 0 is no directory. -/
theorem DirHead.ne_zero (h : DirHead e s₀ ops b) : b ≠ 0 := by
  cases h with
  | root => decide
  | named _ _ _ hnames => exact hnames.ne_zero

/-- A call wrote to the device, or tried to. -/
def Writes (s s' : State) : Prop := ∃ cs, CallsBetween s s' cs ∧ ∃ c ∈ cs, c.isWrite = true

def Op.remounts : Op → Bool
  | .init | .format => true
  | _ => false

/-- The calls that may write, open a handle or move from the current directory. -/
def Op.usesDir : Op → Bool
  | .changeDirParent | .changeDir _ | .createDir _ | .writeFile .. | .delete .. | .rename .. | .touch _
  | .openFile _ => true
  | _ => false

/-- No such call stands before the first `tfs_change_dir_root`. -/
def rootFirst : List Op → Bool
  | [] => true
  | .changeDirRoot :: _ => true
  | op :: ops => !op.usesDir && rootFirst ops

/-- The entry a lookup of the name finds, from the block `b` of a directory on. -/
inductive FirstHit (e : Env) (dev : Nat → Block) (name : List UInt8) : Nat → DirItem → Prop
  | here {b i : Nat} : ((List.range dirBlkItems).find? fun i => hits e name ((dev b).item i)) = some i →
      FirstHit e dev name b ((dev b).item i)
  | next {b : Nat} {x : DirItem} : ((List.range dirBlkItems).find? fun i => hits e name ((dev b).item i)) = none →
      (dev b).next ≠ 0 → FirstHit e dev name (dev b).next x → FirstHit e dev name b x

/-- If the call is a `tfs_change_dir` that finds a directory, that has a block. -/
def Op.FindsBlock (e : Env) (s : State) : Op → Prop
  | .changeDir name => name.headD 0 ≠ 0 → ∀ x, FirstHit e s.dev name s.currentDirBlk x → x.type = itemDir → x.blk ≠ 0
  | _ => True

/-- Every call of a run does so in the state before it. -/
def FindsBlocks (e : Env) : List Op → State → Prop
  | [], _ => True
  | op :: ops, s => op.FindsBlock e s ∧ ∀ s', op.exec e s = some ((), s') → FindsBlocks e ops s'

/-! ## How the current directory changes -/

theorem driveReadBlock_cur {sel : BufSel} (h : driveReadBlock e b sel s = some ((), s')) :
    s'.currentDirBlk = s.currentDirBlk := by
  simp only [driveReadBlock, Prog.modify_apply, Option.some.injEq, Prod.mk.injEq, true_and] at h
  subst h
  cases sel <;> by_cases hok : transferOk e s b = true <;> simp [hok, State.setBuf]

theorem driveWriteBlock_cur {sel : BufSel} (h : driveWriteBlock e b sel s = some ((), s')) :
    s'.currentDirBlk = s.currentDirBlk := by
  simp only [driveWriteBlock, Prog.modify_apply, Option.some.injEq, Prod.mk.injEq, true_and] at h
  subst h
  by_cases hok : transferOk e s b = true <;> simp [hok]

theorem Act.cur (h : Act e s s') : s'.currentDirBlk = s.currentDirBlk := by
  cases h with
  | look h =>
    cases h with
    | read h => exact driveReadBlock_cur h
    | buf | dirBlk | eof => rfl
  | readBitmap h => exact driveReadBlock_cur h
  | write h => exact driveWriteBlock_cur h
  | bitmap | full | handle => rfl

/-- A program that stays in the current directory. -/
theorem steps_cur {R : State → State → Prop} {p : M α} (hR : ∀ s s', R s s' → s'.currentDirBlk = s.currentDirBlk)
    (hp : Prog.Steps R p) {a : α} (h : p s = some (a, s')) : s'.currentDirBlk = s.currentDirBlk :=
  hp.lift (Q := fun s s' => s'.currentDirBlk = s.currentDirBlk) (fun _ => rfl) (fun _ _ _ h1 h2 => (hR _ _ h2).trans h1) h

/-- A bracketed function, in terms of its body. -/
theorem enter_out_body {r a : α} {p : M α} (h : enter r (out p) s = some (a, s')) :
    (s.tfsLastError = .noDev ∧ s' = s) ∨ (s.tfsLastError ≠ .noDev ∧ ∃ t, p s.started = some (a, t) ∧
    s' = t.call .deselect) := by
  by_cases hd : s.tfsLastError = .noDev
  · rw [enter_noDev hd] at h
    cases h
    exact .inl ⟨hd, rfl⟩
  · rw [enter_run hd, out_run, Option.map_eq_some_iff] at h
    obtain ⟨⟨a', t⟩, hrun, heq⟩ := h
    cases heq
    exact .inr ⟨hd, t, hrun, rfl⟩

/-- A successful read of a block. -/
theorem driveReadBlock_got (h : driveReadBlock e b .blkBuf s = some ((), s')) (herr : s'.tfsLastError = .ok) :
    s'.blkBuf = s.dev b ∧ s'.dev = s.dev := by
  simp only [driveReadBlock, Prog.modify_apply, Option.some.injEq, Prod.mk.injEq, true_and] at h
  subst h
  by_cases hok : transferOk e s b = true
  · simp only [hok, if_true, State.setBuf, and_self]
  · simp only [hok, if_false, Bool.false_eq_true] at herr
    cases herr

theorem scanItems_found {name : List UInt8} {blk : Block} {pos i : Nat} {is : List Nat} {free : Option (Nat × Nat)}
    (h : scanItems e name blk pos is free = .inl i) : (is.find? fun i => hits e name (blk.item i)) = some i := by
  rw [scanItems_eq] at h
  cases hfind : is.find? fun i => hits e name (blk.item i) with
  | none =>
    rw [hfind] at h
    cases h
  | some j =>
    rw [hfind] at h
    cases h
    rfl

theorem scanItems_missed {name : List UInt8} {blk : Block} {pos : Nat} {is : List Nat} {free free' : Option (Nat × Nat)}
    (h : scanItems e name blk pos is free = .inr free') : (is.find? fun i => hits e name (blk.item i)) = none := by
  rw [scanItems_eq] at h
  cases hfind : is.find? fun i => hits e name (blk.item i) with
  | none => rfl
  | some j =>
    rw [hfind] at h
    cases h

/-- The walk ends at an item of a block of the chain, and that block is in the buffer. -/
theorem findWalk_found {name : List UInt8} {fuel pos i : Nat} {free : Option (Nat × Nat)}
    (h : findWalk e name fuel pos free s = some (.found i, s')) :
    i < dirBlkItems ∧ ∃ b, ChainBlock s.dev pos b ∧ s'.blkBuf = s.dev b ∧ FirstHit e s.dev name pos
    ((s.dev b).item i) := by
  induction fuel generalizing s pos free with
  | zero => cases h
  | succ fuel ih =>
    rw [findWalk] at h
    obtain ⟨_, s₁, hread, h⟩ := Prog.bind_eq_some.mp h
    by_cases herr : s₁.tfsLastError = .ok
    · rw [ifOk_ok herr, Prog.modify_bind, blkBuf, Prog.gets_bind] at h
      obtain ⟨hbuf, hdev⟩ := driveReadBlock_got hread herr
      have hbuf : s₁.blkBuf = s.dev pos := hbuf
      dsimp only at h
      rw [hbuf] at h
      cases hscan : scanItems e name (s.dev pos) pos (List.range dirBlkItems) free with
      | inl j =>
        rw [hscan] at h
        cases h
        have hfind := scanItems_found hscan
        exact ⟨List.mem_range.mp (List.mem_of_find?_eq_some hfind), pos, .head, rfl, .here hfind⟩
      | inr free =>
        rw [hscan] at h
        dsimp only at h
        split at h
        · cases h
        · rename_i hnext
          obtain ⟨hi, x, hx, hxb, hhit⟩ := ih h
          rw [show ({ s₁ with loadedDirBlk := pos } : State).dev = s.dev from hdev] at hx hxb hhit
          have hchain : ∀ y, ChainBlock s.dev (s.dev pos).next y → ChainBlock s.dev pos y := by
            intro y hy
            induction hy with
            | head => exact .next .head hnext
            | next _ h2 ih => exact .next ih h2
          exact ⟨hi, x, hchain x hx, hxb, .next (scanItems_missed hscan) hnext hhit⟩
    · rw [ifOk_err herr] at h
      cases h

theorem findFile_found {name : List UInt8} {i : Nat} (h : findFile e name false s = some (some i, s')) :
    name.headD 0 ≠ 0 ∧ i < dirBlkItems ∧ ∃ b, ChainBlock s.dev s.currentDirBlk b ∧ s'.blkBuf = s.dev b ∧
      FirstHit e s.dev name s.currentDirBlk ((s.dev b).item i) := by
  rw [findFile] at h
  split at h
  · cases h
  · rename_i hname
    rw [Prog.gets_bind] at h
    obtain ⟨w, s₁, hwalk, h⟩ := Prog.bind_eq_some.mp h
    cases w with
    | error => cases h
    | found j =>
      cases h
      exact ⟨hname, findWalk_found hwalk⟩
    | missing free => cases h

/-- `tfs_change_dir_parent` stays, or goes to the directory above. -/
theorem tfsChangeDirParent_cur (h : tfsChangeDirParent e s = some ((), s')) :
    s'.currentDirBlk = s.currentDirBlk ∨ Names s.dev s.currentDirBlk s'.currentDirBlk := by
  rcases enter_out_body h with ⟨_, rfl⟩ | ⟨_, t, hrun, rfl⟩
  · exact .inl rfl
  rw [Prog.gets_bind] at hrun
  obtain ⟨_, s₁, hread, hrun⟩ := Prog.bind_eq_some.mp hrun
  have hcur : s₁.currentDirBlk = s.currentDirBlk := driveReadBlock_cur (s := s.started) hread
  by_cases herr : s₁.tfsLastError = .ok
  · rw [ifOk_ok herr, blkBuf, Prog.gets_bind] at hrun
    have hbuf : s₁.blkBuf = s.dev s.currentDirBlk := (driveReadBlock_got hread herr).1
    rw [hbuf] at hrun
    split at hrun
    · cases hrun
      exact .inl hcur
    · rename_i hpar
      cases hrun
      exact .inr (.parent hpar)
  · rw [ifOk_err herr] at hrun
    cases hrun
    exact .inl hcur

/-- `tfs_change_dir` stays, or goes to the directory of an entry. -/
theorem tfsChangeDir_cur {name : List UInt8} (hfinds : (Op.changeDir name).FindsBlock e s)
    (h : tfsChangeDir e name s = some ((), s')) :
    s'.currentDirBlk = s.currentDirBlk ∨ Names s.dev s.currentDirBlk s'.currentDirBlk := by
  rcases enter_out_body h with ⟨_, rfl⟩ | ⟨_, t, hrun, rfl⟩
  · exact .inl rfl
  obtain ⟨item, s₁, hfind, hrun⟩ := Prog.bind_eq_some.mp hrun
  have hcur : s₁.currentDirBlk = s.currentDirBlk := (untouched_of_run (findFile_quiet name) hfind).cur
  by_cases herr : s₁.tfsLastError = .ok
  · rw [ifOk_ok herr, blkBuf, Prog.gets_bind] at hrun
    cases item with
    | none =>
      cases hrun
      exact .inl hcur
    | some i =>
      obtain ⟨hname, hi, x, hx, hbuf, hhit⟩ := findFile_found hfind
      have hbuf : s₁.blkBuf = s.dev x := hbuf
      have hx : ChainBlock s.dev s.currentDirBlk x := hx
      have hhit : FirstHit e s.dev name s.currentDirBlk ((s.dev x).item i) := hhit
      dsimp only at hrun
      rw [hbuf] at hrun
      split at hrun
      · cases hrun
        exact .inl hcur
      · rename_i htype
        cases hrun
        have htype := not_not.mp htype
        exact .inr (.entry hx hi htype (hfinds hname _ hhit htype))
  · rw [ifOk_err herr] at hrun
    cases hrun
    exact .inl hcur

/-- Where a call may lead. -/
theorem Op.exec_cur (hop : op.remounts = false) (hfinds : op.FindsBlock e s) (h : op.exec e s = some ((), s')) :
    s'.currentDirBlk = s.currentDirBlk ∨ s'.currentDirBlk = rootDirBlk ∨
    Names s.dev s.currentDirBlk s'.currentDirBlk := by
  have hplain : op.plain = true → op.moves = false → s'.currentDirBlk = s.currentDirBlk := by
    intro hplain hmoves
    obtain ⟨_, _, _, _, hp, h⟩ := Op.plain_body hplain h
    rw [hmoves] at hp
    rcases enter_out_body h with ⟨_, rfl⟩ | ⟨_, t, hrun, rfl⟩
    · rfl
    · have hcur : t.currentDirBlk = s.started.currentDirBlk := by
        refine steps_cur (fun t t' hd => ?_) hp hrun
        cases hd with
        | act h => exact h.cur
        | err => rfl
        | move _ h => cases h
      exact hcur
  have hlate : ∀ {α : Type} {r a b : α} {fd : Int} {q : M α}, Lates e q → (enter r do
      let s ← Prog.gets id
      if invalidFd e s fd then out do
        setErr .invalFd
        pure b
      else q) s = some (a, s') → s'.currentDirBlk = s.currentDirBlk := by
    intro α r a b fd q hq h
    by_cases hd : s.tfsLastError = .noDev
    · rw [enter_noDev hd] at h
      cases h
      rfl
    · rw [enter_run hd, Prog.gets_bind] at h
      split at h
      · cases h
        rfl
      · refine steps_cur (s := s.started) (fun t t' hl => ?_) hq h
        cases hl with
        | act h => exact h.cur
        | deselect => rfl
  obtain ⟨a, h⟩ := drop_eq_some h
  cases op with
  | init | format => cases hop
  | changeDirRoot =>
    cases h
    exact .inr (.inl rfl)
  | changeDirParent => exact (tfsChangeDirParent_cur h).imp_right .inr
  | changeDir name => exact (tfsChangeDir_cur hfinds h).imp_right .inr
  | close fd =>
    refine .inl ?_
    have h : tfsClose e fd s = some ((), s') := h
    rw [tfsClose] at h
    split at h
    · cases h
      rfl
    · rw [setErr_bind, Prog.gets_bind] at h
      split at h
      · cases h
        rfl
      · cases h
        rfl
  | write fd data len offset =>
    exact .inl (hlate (writeBody_lates fd.toNat data len offset) h)
  | read fd len offset =>
    exact .inl (hlate (readBody_lates fd.toNat len offset) h)
  | _ => exact .inl (hplain rfl rfl)

/-- A run stays in directories once it is in one. -/
theorem DirHead.exec (h : DirHead e s₀ pre s.currentDirBlk) (hrun : Prog.runAll (Op.exec e) pre s₀ = some ((), s))
    (hop : op.remounts = false) (hfinds : op.FindsBlock e s) (hexec : op.exec e s = some ((), s')) :
    DirHead e s₀ (pre ++ [op]) s'.currentDirBlk := by
  have hpre : pre <+: pre ++ [op] := List.prefix_append pre [op]
  rcases Op.exec_cur hop hfinds hexec with hcur | hcur | hnames
  · rw [hcur]
    exact h.mono hpre
  · rw [hcur]
    exact .root
  · exact .named hpre hrun (h.mono hpre) hnames

/-! ## Before the first change to the root -/

/-- No handle is in use. -/
def NoHandles (s : State) : Prop := ∀ fd, (s.handles fd).usageCount = 0

/-- The call wrote nothing, and left the handles. -/
structure Gentle (s s' : State) : Prop where
  handles : s'.handles = s.handles
  calls : ∃ cs, CallsBetween s s' cs ∧ ∀ c ∈ cs, c.isWrite = false

theorem Gentle.of_log (hh : s'.handles = s.handles) (hlog : s'.log = s.log) : Gentle s s' :=
  ⟨hh, [], .refl hlog, by simp⟩

theorem Gentle.trans {s₁ : State} (h : Gentle s s₁) (h' : Gentle s₁ s') : Gentle s s' := by
  obtain ⟨cs, hcs, hc⟩ := h.calls
  obtain ⟨ds, hds, hd⟩ := h'.calls
  refine ⟨h'.handles.trans h.handles, cs ++ ds, hcs.trans hds, fun c hmem => ?_⟩
  rcases List.mem_append.mp hmem with hmem | hmem
  · exact hc c hmem
  · exact hd c hmem

theorem Untouched.gentle (h : Untouched s s') : Gentle s s' := ⟨h.handles, h.calls⟩

theorem Gentle.not_writes (h : Gentle s s') : ¬ Writes s s' := by
  intro ⟨cs, hcs, c, hc, hw⟩
  obtain ⟨ds, hds, hd⟩ := h.calls
  rw [hcs.unique hds] at hc
  rw [hd c hc] at hw
  cases hw

theorem driveReadBlock_gentle (b : Nat) (sel : BufSel) : Prog.Steps Gentle (driveReadBlock e b sel) := by
  intro s a s' h
  refine .single ?_
  simp only [driveReadBlock, Prog.modify_apply, Option.some.injEq, Prod.mk.injEq, true_and] at h
  subst h
  by_cases hok : transferOk e s b = true
  · rw [if_pos hok]
    cases sel <;> exact ⟨rfl, [.read b _], rfl, by simp [DriveCall.isWrite]⟩
  · rw [if_neg hok]
    exact ⟨rfl, [.read b _], rfl, by simp [DriveCall.isWrite]⟩

theorem loadBitmap_gentle (b : Nat) : Prog.Steps Gentle (loadBitmap e b) :=
  (driveReadBlock_gentle b .bitmapBlk).bind fun _ => Prog.Steps.modify fun s => by
    split <;> exact .of_log rfl rfl

theorem getUsedLoop_gentle : ∀ fuel pos used, Prog.Steps Gentle (getUsedLoop e fuel pos used)
  | 0, _, _ => .noFuel
  | fuel + 1, pos, used => by
    unfold getUsedLoop
    refine (loadBitmap_gentle _).bind fun _ => ifOk_steps (Prog.Steps.bind (.gets _) fun s => .ite
      (fun _ => ?_) fun _ => ?_)
    · exact (loadBitmap_gentle _).bind fun _ => .pure _
    · exact getUsedLoop_gentle fuel _ _

/-- A bracketed function whose body is gentle. -/
theorem Gentle.enter {r a : α} {p : M α} (hp : Prog.Steps Gentle p) (h : enter r (out p) s = some (a, s')) :
    Gentle s s' := by
  rcases enter_out_body h with ⟨_, rfl⟩ | ⟨_, t, hrun, rfl⟩
  · exact .of_log rfl rfl
  · have hsel : Gentle s s.started := ⟨rfl, [.select], started_calls, by simp [DriveCall.isWrite]⟩
    have hdes : Gentle t (t.call .deselect) := ⟨rfl, [.deselect], call_calls _, by simp [DriveCall.isWrite]⟩
    exact (hsel.trans (hp.lift (fun s => .of_log rfl rfl) (fun _ _ _ => .trans) hrun)).trans hdes

/-- With no handle in use, a call that does not use the current directory is gentle. -/
theorem Op.exec_gentle (hop : op.remounts = false) (huses : op.usesDir = false) (hs : NoHandles s)
    (h : op.exec e s = some ((), s')) : Gentle s s' := by
  have hfd : ∀ (t : State) (fd : Int), t.handles = s.handles → invalidFd e t fd := by
    intro t fd ht
    refine .inr (.inr ?_)
    rw [ht]
    exact hs fd.toNat
  have hinvalid : ∀ {α : Type} {r a b : α} {fd : Int} {q : M α}, (enter r do
      let s ← Prog.gets id
      if invalidFd e s fd then out do
        setErr .invalFd
        pure b
      else q) s = some (a, s') → Gentle s s' := by
    intro α r a b fd q h
    have h' : enter r (out do
        setErr .invalFd
        pure b) s = some (a, s') := by
      by_cases hd : s.tfsLastError = .noDev
      · rw [enter_noDev hd] at h ⊢
        exact h
      · rw [enter_run hd, Prog.gets_bind, id_eq,
          if_pos (hfd { s with tfsLastError := .ok, log := s.log.call .select } fd rfl)] at h
        rw [enter_run hd]
        exact h
    exact (Quiet.enter ((setErr_quiet _ Err.noConfusion).bind fun _ => .pure _) h').gentle
  obtain ⟨a, h⟩ := drop_eq_some h
  cases op with
  | init | format => cases hop
  | changeDirParent | changeDir | createDir | writeFile | delete | rename | touch | openFile => cases huses
  | changeDirRoot =>
    cases h
    exact .of_log rfl rfl
  | getUsed =>
    exact Gentle.enter ((getUsedLoop_gentle _ _ _).bind fun _ => .pure _) h
  | readDir handler =>
    exact (Quiet.enter (Prog.Steps.bind (.gets _) fun s => looks_quiet (readDirLoop_looks handler _ _ _)) h).gentle
  | readFile name maxLen =>
    exact (Quiet.enter ((findFile_quiet name).bind fun item => ifOk_steps (readFileBody_quiet item maxLen)) h).gentle
  | stat name =>
    exact (Quiet.enter (findFile_quiet name) h).gentle
  | close fd =>
    have h : tfsClose e fd s = some ((), s') := h
    rw [tfsClose] at h
    split at h
    · cases h
      exact .of_log rfl rfl
    · rw [setErr_bind, Prog.gets_bind, id_eq, if_pos (hfd { s with tfsLastError := .ok } fd rfl)] at h
      cases h
      exact .of_log rfl rfl
  | trunc fd size =>
    have h : tfsTrunc e fd size s = some ((), s') := h
    have h' : enter () (out (setErr .invalFd)) s = some ((), s') := by
      rw [tfsTrunc] at h
      by_cases hd : s.tfsLastError = .noDev
      · rw [enter_noDev hd] at h ⊢
        exact h
      · rw [enter_run hd, out_run, Prog.gets_bind, id_eq,
          if_pos (hfd { s with tfsLastError := .ok, log := s.log.call .select } fd rfl)] at h
        rw [enter_run hd, out_run]
        exact h
    exact (Quiet.enter (setErr_quiet _ Err.noConfusion) h').gentle
  | write fd data len offset =>
    exact hinvalid h
  | read fd len offset =>
    exact hinvalid h

/-! ## A drive that is not there -/

/-- Without a device no call does anything but go to the root. -/
theorem Op.exec_noDev (hop : op.remounts = false) (hd : s.tfsLastError = .noDev) (h : op.exec e s = some ((), s')) :
    s'.tfsLastError = .noDev ∧ Gentle s s' := by
  have hsame : s' = s → s'.tfsLastError = .noDev ∧ Gentle s s' := by
    intro heq
    rw [heq]
    exact ⟨hd, .of_log rfl rfl⟩
  have hplain : op.plain = true → s' = s := by
    intro hplain
    obtain ⟨_, _, _, _, _, h⟩ := Op.plain_body hplain h
    rw [enter_noDev hd] at h
    cases h
    rfl
  obtain ⟨a, h⟩ := drop_eq_some h
  cases op with
  | init => cases hop
  | changeDirRoot =>
    cases h
    exact ⟨hd, .of_log rfl rfl⟩
  | close fd =>
    have h : tfsClose e fd s = some ((), s') := h
    rw [tfsClose, if_pos hd] at h
    cases h
    exact hsame rfl
  | write fd data len offset =>
    have h : tfsWrite e fd data len offset s = some (a, s') := h
    rw [tfsWrite, enter_noDev hd] at h
    cases h
    exact hsame rfl
  | read fd len offset =>
    have h : tfsRead e fd len offset s = some (a, s') := h
    rw [tfsRead, enter_noDev hd] at h
    cases h
    exact hsame rfl
  | _ => exact hsame (hplain rfl)

/-! ## Runs -/

/-- What a run knows of its state: it is in a directory, or it has done nothing
yet, and goes to the root first, or there is no device. -/
inductive Prepared (e : Env) (s₀ : State) (pre : List Op) (s : State) (rest : List Op) : Prop
  | inside : DirHead e s₀ pre s.currentDirBlk → FindsBlocks e rest s → Prepared e s₀ pre s rest
  | outside : NoHandles s → rootFirst rest = true → FindsBlocks e rest s → Prepared e s₀ pre s rest
  | gone : s.tfsLastError = .noDev → Prepared e s₀ pre s rest

theorem Prepared.step {rest : List Op} (h : Prepared e s₀ pre s (op :: rest))
    (hrun : Prog.runAll (Op.exec e) pre s₀ = some ((), s)) (hop : op.remounts = false)
    (hexec : op.exec e s = some ((), s')) :
    (Writes s s' → DirHead e s₀ pre s.currentDirBlk) ∧ Prepared e s₀ (pre ++ [op]) s' rest := by
  cases h with
  | inside h hfinds => exact ⟨fun _ => h, .inside (h.exec hrun hop hfinds.1 hexec) (hfinds.2 s' hexec)⟩
  | gone hd =>
    obtain ⟨hd', hgentle⟩ := Op.exec_noDev hop hd hexec
    exact ⟨fun hw => absurd hw hgentle.not_writes, .gone hd'⟩
  | outside hh hrest hfinds =>
    have hfinds' := hfinds.2 s' hexec
    by_cases hroot : op = .changeDirRoot
    · subst hroot
      have hgentle := Op.exec_gentle rfl rfl hh hexec
      cases hexec
      exact ⟨fun hw => absurd hw hgentle.not_writes, .inside .root hfinds'⟩
    · have hrest : op.usesDir = false ∧ rootFirst rest = true := by
        rw [rootFirst] at hrest
        · simpa using hrest
        · exact hroot
      have hgentle := Op.exec_gentle hop hrest.1 hh hexec
      refine ⟨fun hw => absurd hw hgentle.not_writes, .outside (fun fd => ?_) hrest.2 hfinds'⟩
      rw [hgentle.handles]
      exact hh fd

theorem Prepared.run {rest : List Op} (h : Prepared e s₀ pre s rest)
    (hrun : Prog.runAll (Op.exec e) pre s₀ = some ((), s)) (hops : ∀ op ∈ rest, op.remounts = false) :
    ∀ mid op post t t', rest = mid ++ op :: post → Prog.runAll (Op.exec e) mid s = some ((), t) →
      op.exec e t = some ((), t') → Writes t t' → DirHead e s₀ (pre ++ mid) t.currentDirBlk := by
  induction rest generalizing pre s with
  | nil =>
    intro mid op post t t' heq
    simp at heq
  | cons o rest ih =>
    intro mid op post t t' heq hmid hexec hw
    cases mid with
    | nil =>
      cases heq
      cases hmid
      rw [List.append_nil]
      exact (h.step hrun (hops o List.mem_cons_self) hexec).1 hw
    | cons o' mid =>
      cases heq
      rw [Prog.runAll_cons, Option.bind_eq_some_iff] at hmid
      obtain ⟨⟨_, s₁⟩, h1, h2⟩ := hmid
      have hrun₁ : Prog.runAll (Op.exec e) (pre ++ [o]) s₀ = some ((), s₁) := by
        rw [Prog.runAll_append, hrun]
        show Prog.runAll (Op.exec e) [o] s = some ((), s₁)
        rw [Prog.runAll_cons, h1]
        rfl
      have := ih (h.step hrun (hops o List.mem_cons_self) h1).2 hrun₁ (fun op hop => hops op (List.mem_cons_of_mem _ hop))
        mid op post t t' rfl h2 hexec hw
      rwa [List.append_assoc] at this

/-! ## Main results -/

theorem tfsInit_noHandles (h : tfsInit e (State.boot dev) = some ((), s)) : NoHandles s := by
  have hrest : Prog.Steps (fun s s' : State => s'.handles = s.handles) (do
      setErr .ok
      driveInit e
      ifOk () do
        driveSelect
        Prog.modify fun s =>
          let last := (s.blkCount + 2 ^ 32 - 1) % 2 ^ 32
          { s with lastBitmapLen := last % bitmapBlkCount + 1, lastBitmapBlk := getBitmapBlk last }
        out do
          loadBitmap e firstBitmapBlk
          ifOk () do
            Prog.modify fun s => { s with currentDirBlk := rootDirBlk, loadedDirBlk := 0 }) := by
    refine Prog.Steps.bind (Prog.Steps.modify fun _ => rfl) fun _ => Prog.Steps.bind
      (Prog.Steps.modify fun s => ?_) fun _ => ifOk_steps ?_
    · cases e.drive.blkCount <;> rfl
    · refine Prog.Steps.bind (Prog.Steps.modify fun _ => rfl) fun _ => Prog.Steps.bind
        (Prog.Steps.modify fun _ => rfl) fun _ => ?_
      refine Prog.Steps.bind ?_ fun _ => Prog.Steps.bind (Prog.Steps.modify fun _ => rfl) fun _ => .pure _
      exact ((loadBitmap_gentle _).mono fun _ _ h => h.handles).bind fun _ => ifOk_steps (Prog.Steps.modify fun _ => rfl)
  rw [tfsInit, Prog.modify_bind] at h
  have hh := hrest.lift (Q := fun s s' => s'.handles = s.handles) (fun _ => rfl) (fun _ _ _ h1 h2 => h2.trans h1) h
  intro fd
  rw [hh]
  show (if fd < e.maxFds then Handle.zero else Handle.zero).usageCount = 0
  split <;> rfl

end TinyFs
