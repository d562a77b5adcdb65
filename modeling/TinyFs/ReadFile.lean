/-
Reading a file whole, on any medium and any drive. `tfs_read_file` fixes its length
before the loop, and the loop follows the chain to its end: the blocks up to the
length decide whether that many bytes are copied, the blocks behind it whether the
call ends well.
-/
import TinyFs.HandleTable

namespace TinyFs

open Bytes

variable {e : Env} {n T T' b k f i : Nat} {dev : Nat → Block} {s s' t : State} {name : List UInt8} {maxLen rem : Nat}

/-! ## Chains on any medium -/

/-- The first `k` blocks of the chain from block `b` can be read, where the next
drive transfer is number `T`. -/
def ReadsTo (e : Env) (n : Nat) (dev : Nat → Block) : Nat → Nat → Nat → Prop
  | 0, _, _ => True
  | k + 1, T, b => TransferOk e n T b ∧ (k = 0 ∨ (dev b).next ≠ 0) ∧ ReadsTo e n dev k (T + 1) (dev b).next

/-- The chain from block `b` ends, and can be read to its end. -/
inductive ReadsOut (e : Env) (n : Nat) (dev : Nat → Block) : Nat → Nat → Prop
  | last {T b : Nat} : TransferOk e n T b → (dev b).next = 0 → ReadsOut e n dev T b
  | more {T b : Nat} : TransferOk e n T b → (dev b).next ≠ 0 → ReadsOut e n dev (T + 1) (dev b).next →
    ReadsOut e n dev T b

theorem ReadsTo.mono {k' : Nat} (h : ReadsTo e n dev k T b) (hle : k' ≤ k) : ReadsTo e n dev k' T b := by
  induction k' generalizing k T b with
  | zero => trivial
  | succ k' ih =>
    cases k with
    | zero => omega
    | succ k =>
      obtain ⟨hok, hnext, hrest⟩ := h
      refine ⟨hok, ?_, ih hrest (by omega)⟩
      rcases hnext with rfl | hnext
      · exact .inl (by omega)
      · exact .inr hnext

/-! ## The loop -/

/-- The state after a block is read. -/
def State.hasRead (s : State) (b : Nat) : State := { s with blkBuf := s.dev b, log := s.log.transfer (.read b true) }

theorem readFileLoop_step (herr : s.tfsLastError = .ok) (hok : TransferOk e s.blkCount s.log.transfers b)
    {data : List UInt8} : readFileLoop e (f + 1) b rem data s =
      if (s.dev b).next = 0 then
        some (data ++ (List.range (min rem dataLen)).map (s.dev b).data,
          if rem > dataLen then { s.hasRead b with tfsLastError := .unexpEof } else s.hasRead b)
      else readFileLoop e f (s.dev b).next (rem - dataLen) (data ++ (List.range (min rem dataLen)).map (s.dev b).data)
        (s.hasRead b) := by
  rcases driveReadBlock_cases (e := e) herr b with ⟨-, hread⟩ | ⟨hno, -⟩
  · have hlen : (if rem > dataLen then dataLen else rem) = min rem dataLen := by
      split <;> omega
    have hrem : (if rem > dataLen then rem - dataLen else 0) = rem - dataLen := by
      split <;> omega
    rw [readFileLoop, Prog.bind_some hread, ifOk_ok (by exact herr), blkBuf_bind]
    simp only [hlen, hrem]
    by_cases hnext : (s.dev b).next = 0
    · simp only [hnext, if_true]
      by_cases hmore : rem > dataLen
      · rw [if_pos (by omega), if_pos hmore]
        rfl
      · rw [if_neg (by omega), if_neg hmore]
        rfl
    · rw [if_neg hnext, if_neg hnext]
      rfl
  · exact absurd hok hno

theorem readFileLoop_fails (herr : s.tfsLastError = .ok) (hok : ¬ TransferOk e s.blkCount s.log.transfers b)
    {data : List UInt8} : readFileLoop e (f + 1) b rem data s =
      some (data, { s with tfsLastError := .io, log := s.log.transfer (.read b false) }) := by
  rcases driveReadBlock_cases (e := e) herr b with ⟨h, -⟩ | ⟨-, hread⟩
  · exact absurd h hok
  · rw [readFileLoop, Prog.bind_some hread, ifOk_err (by exact Err.noConfusion)]

/-- A run of the loop copies what the blocks hold that can be read, up to the length. -/
theorem readFileLoop_count {data out : List UInt8} (herr : s.tfsLastError = .ok)
    (h : readFileLoop e f b rem data s = some (out, s')) : ∃ k, ReadsTo e s.blkCount s.dev k s.log.transfers b ∧
      ¬ ReadsTo e s.blkCount s.dev (k + 1) s.log.transfers b ∧ out.length = data.length + min rem (dataLen * k) := by
  induction f generalizing b rem data s with
  | zero => cases h
  | succ f ih =>
    by_cases hok : TransferOk e s.blkCount s.log.transfers b
    · rw [readFileLoop_step herr hok] at h
      split at h
      · rename_i hnext
        cases h
        refine ⟨1, ⟨hok, .inl rfl, trivial⟩, fun hmore => ?_, by simp⟩
        rcases hmore.2.1 with hzero | hne
        · cases hzero
        · exact hne hnext
      · rename_i hnext
        obtain ⟨k, hto, hno, hlen⟩ := ih (s := s.hasRead b) herr h
        refine ⟨k + 1, ⟨hok, .inr hnext, hto⟩, fun hmore => hno hmore.2.2, ?_⟩
        rw [hlen, List.length_append, List.length_map, List.length_range, Nat.mul_succ]
        omega
    · rw [readFileLoop_fails herr hok] at h
      cases h
      exact ⟨0, trivial, fun hto => hok hto.1, by simp⟩

/-- A loop that does not return has read as many blocks as it has fuel. -/
theorem readsTo_of_noFuel {data : List UInt8} (herr : s.tfsLastError = .ok) (h : readFileLoop e f b rem data s = none) :
    ReadsTo e s.blkCount s.dev f s.log.transfers b := by
  induction f generalizing b rem data s with
  | zero => trivial
  | succ f ih =>
    by_cases hok : TransferOk e s.blkCount s.log.transfers b
    · rw [readFileLoop_step herr hok] at h
      split at h
      · cases h
      · rename_i hnext
        exact ⟨hok, .inr hnext, ih (s := s.hasRead b) herr h⟩
    · rw [readFileLoop_fails herr hok] at h
      cases h

/-- A loop that ends well has read the chain to its end. -/
theorem readsOut_of_ok {data out : List UInt8} (herr : s.tfsLastError = .ok)
    (h : readFileLoop e f b rem data s = some (out, s')) (hend : s'.tfsLastError = .ok) :
    ReadsOut e s.blkCount s.dev s.log.transfers b := by
  induction f generalizing b rem data s with
  | zero => cases h
  | succ f ih =>
    by_cases hok : TransferOk e s.blkCount s.log.transfers b
    · rw [readFileLoop_step herr hok] at h
      split at h
      · rename_i hnext
        exact .last hok hnext
      · rename_i hnext
        exact .more hok hnext (ih (s := s.hasRead b) herr h)
    · rw [readFileLoop_fails herr hok] at h
      cases h
      cases hend

/-- A chain that can be read to its end and covers the length. -/
theorem readFileLoop_readsOut (h : ReadsOut e n dev T b) : ∀ {rem k : Nat} {data : List UInt8} {s : State},
    s.tfsLastError = .ok →
    s.blkCount = n → s.dev = dev → s.log.transfers = T → ReadsTo e n dev k T b → rem ≤ dataLen * k →
    ∃ f₀, ∀ f, f₀ ≤ f → ∃ out s', readFileLoop e f b rem data s = some (out, s') ∧ s'.tfsLastError = .ok := by
  induction h with
  | @last T b hok hnext =>
    rintro rem k data s herr rfl rfl rfl hto hrem
    have hk : k ≤ 1 := by
      by_contra hlt
      rcases (hto.mono (show 2 ≤ _ by omega)).2.1 with hzero | hne
      · cases hzero
      · exact hne hnext
    have hsmall : ¬ rem > dataLen := by
      have := Nat.mul_le_mul_left dataLen hk
      omega
    refine ⟨1, fun f hf => ?_⟩
    obtain ⟨f, rfl⟩ : ∃ g, f = g + 1 := ⟨f - 1, by omega⟩
    exact ⟨_, s.hasRead b, by rw [readFileLoop_step herr hok, if_pos hnext, if_neg hsmall], herr⟩
  | @more T b hok hnext hrest ih =>
    rintro rem k data s herr rfl rfl rfl hto hrem
    have hto' : ReadsTo e s.blkCount s.dev (k - 1) (s.log.transfers + 1) (s.dev b).next := by
      cases k with
      | zero => trivial
      | succ k => exact hto.2.2
    have hrem' : rem - dataLen ≤ dataLen * (k - 1) := by
      cases k with
      | zero => omega
      | succ k =>
        rw [Nat.mul_succ] at hrem
        show rem - dataLen ≤ dataLen * k
        omega
    obtain ⟨f₀, hrun⟩ := ih (s := s.hasRead b) herr rfl rfl rfl
      hto' hrem'
    refine ⟨f₀ + 1, fun f hf => ?_⟩
    obtain ⟨f, rfl⟩ : ∃ g, f = g + 1 := ⟨f - 1, by omega⟩
    obtain ⟨out, s', hloop, hend⟩ := hrun f (by omega)
    exact ⟨out, s', by rw [readFileLoop_step herr hok, if_neg hnext, hloop], hend⟩

/-! ## Fuel -/

theorem readFileLoop_withFuel {g : Nat} : readFileLoop (e.withFuel g) f = readFileLoop e f := by
  induction f with
  | zero => rfl
  | succ f ih =>
    funext b rem data
    simp only [readFileLoop, ih]
    rfl

theorem scanItems_withFuel {g pos : Nat} {v : Block} {is : List Nat} {free : Option (Nat × Nat)} :
    scanItems (e.withFuel g) name v pos is free = scanItems e name v pos is free := by
  induction is generalizing free with
  | nil => rfl
  | cons i is ih =>
    simp only [scanItems, ih]
    rfl

/-- More fuel changes no walk that returned. -/
theorem findWalk_withFuel {g k' pos : Nat} {free : Option (Nat × Nat)} {r : Walk} (hle : k ≤ k')
    (h : findWalk e name k pos free s = some (r, s')) : findWalk (e.withFuel g) name k' pos free s = some (r, s') := by
  induction k generalizing k' pos free s with
  | zero => cases h
  | succ k ih =>
    obtain ⟨k', rfl⟩ : ∃ j, k' = j + 1 := ⟨k' - 1, by omega⟩
    rw [findWalk] at h ⊢
    obtain ⟨_, t, hread, h⟩ := Prog.bind_eq_some.mp h
    have hread' : driveReadBlock (e.withFuel g) pos .blkBuf s = some ((), t) := hread
    rw [Prog.bind_some hread']
    by_cases herr : t.tfsLastError = .ok
    · rw [ifOk_ok herr, Prog.modify_bind, blkBuf_bind] at h ⊢
      simp only [scanItems_withFuel]
      cases hr : scanItems e name t.blkBuf pos (List.range dirBlkItems) free with
      | inl i =>
        simp only [hr] at h
        exact h
      | inr free =>
        simp only [hr] at h ⊢
        split at h
        · rename_i hnext
          rw [if_pos hnext]
          exact h
        · rename_i hnext
          rw [if_neg hnext]
          exact ih (by omega) h
    · rw [ifOk_err herr] at h ⊢
      exact h

theorem findFile_withFuel {g : Nat} {r : Option Nat} (hg : e.fuel ≤ g) (h : findFile e name false s = some (r, s')) :
    findFile (e.withFuel g) name false s = some (r, s') := by
  unfold findFile at h ⊢
  by_cases hname : name.headD 0 = 0
  · rw [if_pos hname] at h ⊢
    exact h
  · rw [if_neg hname, Prog.gets_bind] at h ⊢
    obtain ⟨w, t, hwalk, h⟩ := Prog.bind_eq_some.mp h
    have hwalk' : findWalk (e.withFuel g) name (e.withFuel g).fuel (id s).currentDirBlk none s = some (w, t) :=
      findWalk_withFuel hg hwalk
    rw [Prog.bind_some hwalk']
    cases w with
    | error | found _ | missing _ => exact h

theorem FindsFile.withFuel {g : Nat} (h : FindsFile e name s t i) (hg : e.fuel ≤ g) :
    FindsFile (e.withFuel g) name s t i :=
  ⟨h.present, findFile_withFuel hg h.run, h.err, h.file⟩

/-! ## tfs_read_file -/

/-- The length `tfs_read_file` fixes for the item it found. -/
def State.readLen (t : State) (i maxLen : Nat) : Nat := min (t.blkBuf.itemSize i) maxLen

/-- How many blocks hold that many bytes. -/
def blksFor (len : Nat) : Nat := (len + dataLen - 1) / dataLen

theorem FindsFile.readFile (h : FindsFile e name s t i) : tfsReadFile e name maxLen s =
    (readFileLoop e e.fuel (t.blkBuf.itemBlk i) (t.readLen i maxLen) [] t).map fun q =>
      ((t.readLen i maxLen, q.1), q.2.call .deselect) := by
  have hlen : (if t.blkBuf.itemSize i > maxLen then maxLen else t.blkBuf.itemSize i) = t.readLen i maxLen := by
    rw [State.readLen]
    split <;> omega
  rw [tfsReadFile, enter_started h.present, Prog.bind_some h.run, ifOk_ok h.err, blkBuf_bind]
  simp only [h.file, ne_eq, not_true_eq_false, if_false, hlen]
  rw [Prog.bind_apply]
  cases readFileLoop e e.fuel (t.blkBuf.itemBlk i) (t.readLen i maxLen) [] t with
  | none => rfl
  | some q => rfl

theorem le_blksFor (len : Nat) : len ≤ dataLen * blksFor len := by
  simp only [blksFor, dataLen]
  omega

theorem blksFor_le {len : Nat} (h : len ≤ dataLen * k) : blksFor len ≤ k := by
  simp only [blksFor, dataLen] at h ⊢
  omega

/-- A call that finds no file. -/
theorem tfsReadFile_misses {r : Option Nat} (hlook : findFile e name false s.started = some (r, t))
    (hno : ∀ t i, ¬ FindsFile e name s t i) {q : (Nat × List UInt8) × State} (h : tfsReadFile e name maxLen s = some q) :
    q.1 = (0, []) := by
  by_cases hpresent : s.tfsLastError = .noDev
  · rw [tfsReadFile, enter_noDev hpresent] at h
    cases h
    rfl
  rw [tfsReadFile, enter_started hpresent, Prog.bind_some hlook, Option.map_eq_some_iff] at h
  obtain ⟨⟨a, u⟩, hrun, rfl⟩ := h
  show a = (0, [])
  by_cases herr : t.tfsLastError = .ok
  · have hmiss : (setErr .notExist >>= fun _ => (pure (0, []) : M (Nat × List UInt8))) t = some (a, u) → a = (0, []) := by
      intro hrun
      rw [setErr_bind] at hrun
      cases hrun
      rfl
    rw [ifOk_ok herr, blkBuf_bind] at hrun
    cases r with
    | none => exact hmiss hrun
    | some i =>
      have hfile : t.blkBuf.itemType i ≠ itemFile := fun hfile => hno t i ⟨hpresent, hlook, herr, hfile⟩
      simp only [ne_eq, hfile, not_false_eq_true, if_true] at hrun
      exact hmiss hrun
  · rw [ifOk_err herr] at hrun
    cases hrun
    rfl

/-- A call that returned: the loop has, for the file found, or there is none. -/
theorem tfsReadFile_cases {g r : Nat} {data : List UInt8} (hlook : (findFile e name false s.started).isSome)
    (hg : e.fuel ≤ g) (h : tfsReadFile (e.withFuel g) name maxLen s = some ((r, data), s')) :
    (r = 0 ∧ data = []) ∨ ∃ t i u, FindsFile e name s t i ∧ r = t.readLen i maxLen ∧ s'.tfsLastError = u.tfsLastError ∧
      readFileLoop e g (t.blkBuf.itemBlk i) (t.readLen i maxLen) [] t = some (data, u) := by
  obtain ⟨⟨item, v⟩, hlook⟩ := Option.isSome_iff_exists.mp hlook
  by_cases hfinds : ∃ t i, FindsFile e name s t i
  · obtain ⟨t, i, hfinds⟩ := hfinds
    rw [(hfinds.withFuel hg).readFile, readFileLoop_withFuel, Option.map_eq_some_iff] at h
    obtain ⟨⟨out, u⟩, hloop, heq⟩ := h
    simp only [Prod.mk.injEq] at heq
    obtain ⟨⟨rfl, rfl⟩, rfl⟩ := heq
    exact .inr ⟨t, i, u, hfinds, rfl, rfl, hloop⟩
  · have hno : ∀ t i, ¬ FindsFile (e.withFuel g) name s t i := fun t i hfinds' => by
      have hlook' := findFile_withFuel hg hlook
      have hrun' := hfinds'.run
      rw [hlook'] at hrun'
      cases hrun'
      exact hfinds ⟨v, i, hfinds'.present, hlook, hfinds'.err, hfinds'.file⟩
    have heq := tfsReadFile_misses (findFile_withFuel hg hlook) hno h
    simp only [Prod.mk.injEq] at heq
    exact .inl heq

theorem FindsFile.medium (h : FindsFile e name s t i) : t.blkCount = s.blkCount ∧ t.dev = s.dev :=
  let hu := untouched_of_run (findFile_quiet name) h.run
  ⟨hu.blkCount, hu.dev⟩

/-- What the documentation says of `tfs_read_file`, over every fuel its loops may have:
the value returned is the number of bytes copied, and 0 where there is no such file; and
a file whose blocks can be read up to the length is read well. -/
structure ReadFileCounts (e : Env) (s : State) (name : List UInt8) (maxLen : Nat) : Prop where
  count : ∀ g r data s', e.fuel ≤ g → tfsReadFile (e.withFuel g) name maxLen s = some ((r, data), s') → r = data.length
  missing : ∀ g r data s', e.fuel ≤ g → tfsReadFile (e.withFuel g) name maxLen s = some ((r, data), s') →
    s'.tfsLastError = .notExist → r = 0
  reads : ∀ t i, FindsFile e name s t i → 0 < t.blkBuf.itemSize i → t.blkBuf.itemBlk i ≠ 0 → 0 < maxLen →
    ReadsTo e s.blkCount s.dev (blksFor (t.readLen i maxLen)) t.log.transfers (t.blkBuf.itemBlk i) →
    ∃ g, e.fuel ≤ g ∧ ∃ q s', tfsReadFile (e.withFuel g) name maxLen s = some (q, s') ∧ s'.tfsLastError = .ok

/-- **`tfs_read_file` counts what it copied, and reads well what it can read, exactly for
a file whose chain holds the length and, where there is something to read, ends and can
be read to its end.** -/
theorem tfsReadFile_counts (hlook : (findFile e name false s.started).isSome) : ReadFileCounts e s name maxLen ↔
    ∀ t i, FindsFile e name s t i →
      ReadsTo e s.blkCount s.dev (blksFor (t.readLen i maxLen)) t.log.transfers (t.blkBuf.itemBlk i) ∧
      (0 < t.blkBuf.itemSize i → t.blkBuf.itemBlk i ≠ 0 → 0 < maxLen →
        ReadsOut e s.blkCount s.dev t.log.transfers (t.blkBuf.itemBlk i)) := by
  constructor
  · intro h t i hfinds
    obtain ⟨hn, hdev⟩ := hfinds.medium
    have hto : ReadsTo e s.blkCount s.dev (blksFor (t.readLen i maxLen)) t.log.transfers (t.blkBuf.itemBlk i) := by
      by_contra hno
      have hg := Nat.le_max_left e.fuel (blksFor (t.readLen i maxLen))
      have hrun : tfsReadFile _ name maxLen s = _ := (hfinds.withFuel hg).readFile
      rw [readFileLoop_withFuel] at hrun
      cases hloop : readFileLoop e (e.withFuel (max e.fuel (blksFor (t.readLen i maxLen)))).fuel (t.blkBuf.itemBlk i)
          (t.readLen i maxLen) [] t with
      | none =>
        have hto := readsTo_of_noFuel hfinds.err hloop
        rw [hn, hdev] at hto
        exact hno (hto.mono (Nat.le_max_right _ _))
      | some q =>
        obtain ⟨out, s'⟩ := q
        rw [hloop] at hrun
        have hcount : t.readLen i maxLen = out.length := h.count _ _ _ _ hg hrun
        obtain ⟨k, hto, -, hlen⟩ := readFileLoop_count hfinds.err hloop
        rw [hn, hdev] at hto
        refine hno (hto.mono (blksFor_le ?_))
        rw [List.length_nil] at hlen
        omega
    refine ⟨hto, fun hsize hblk hmax => ?_⟩
    obtain ⟨g, hg, q, s', hrun, hend⟩ := h.reads t i hfinds hsize hblk hmax hto
    rw [(hfinds.withFuel hg).readFile, readFileLoop_withFuel, Option.map_eq_some_iff] at hrun
    obtain ⟨⟨out, u⟩, hloop, heq⟩ := hrun
    cases heq
    have hout := readsOut_of_ok hfinds.err hloop hend
    rwa [hn, hdev] at hout
  · intro h
    refine ⟨fun g r data s' hg hrun => ?_, fun g r data s' hg hrun herr => ?_, fun t i hfinds hsize hblk hmax hto => ?_⟩
    · rcases tfsReadFile_cases hlook hg hrun with ⟨rfl, rfl⟩ | ⟨t, i, u, hfinds, rfl, -, hloop⟩
      · rfl
      · obtain ⟨hn, hdev⟩ := hfinds.medium
        obtain ⟨k, -, hno, hlen⟩ := readFileLoop_count hfinds.err hloop
        rw [hn, hdev] at hno
        have hk : blksFor (t.readLen i maxLen) ≤ k := by
          by_contra hlt
          exact hno ((h t i hfinds).1.mono (by omega))
        have hle := Nat.le_trans (le_blksFor (t.readLen i maxLen)) (Nat.mul_le_mul_left dataLen hk)
        rw [hlen, List.length_nil]
        omega
    · rcases tfsReadFile_cases hlook hg hrun with ⟨rfl, -⟩ | ⟨t, i, u, hfinds, -, hend, hloop⟩
      · rfl
      · -- past the lookup no error refuses the call
        have hfirm := unrefused_of_run (acts_firm (readFileLoop_looks _ _ _ _).acts) hloop (by rw [hfinds.err]; rfl)
        rw [← hend, herr] at hfirm
        cases hfirm
    · obtain ⟨hn, hdev⟩ := hfinds.medium
      obtain ⟨f₀, hloop⟩ := readFileLoop_readsOut ((h t i hfinds).2 hsize hblk hmax) hfinds.err hn hdev rfl hto
        (le_blksFor _)
      obtain ⟨out, s', hrun, hend⟩ := hloop (max e.fuel f₀) (Nat.le_max_right _ _)
      refine ⟨max e.fuel f₀, Nat.le_max_left _ _, (t.readLen i maxLen, out), s'.call .deselect, ?_, hend⟩
      rw [(hfinds.withFuel (Nat.le_max_left _ _)).readFile, readFileLoop_withFuel]
      show Option.map _ (readFileLoop e (max e.fuel f₀) _ _ _ _) = _
      rw [hrun]
      rfl

/-- A medium with one entry, of a file of 505 bytes in block 2, which is the only one of its chain. -/
def shortChain : Nat → Block := fun b => if b = rootDirBlk then fillItem 0 itemFile 2 505 [97] Buf.zero else Buf.zero

theorem shortChain_runs : ∃ s s' data, tfsInit (Env.linux 16) (State.boot shortChain) = some ((), s) ∧
    tfsReadFile (Env.linux 16) [97] 505 s = some ((505, data), s') ∧ data.length = 504 ∧ s'.tfsLastError = .unexpEof := by
  have hrun : ((tfsInit (Env.linux 16) (State.boot shortChain)).bind fun p => (tfsReadFile (Env.linux 16)
    [97] 505 p.2).map fun q =>
      (q.1.1, q.1.2.length, q.2.tfsLastError)) = some (505, 504, .unexpEof) := by decide +kernel
  rw [Option.bind_eq_some_iff] at hrun
  obtain ⟨⟨_, s⟩, hs, hrun⟩ := hrun
  rw [Option.map_eq_some_iff] at hrun
  obtain ⟨⟨⟨r, data⟩, s'⟩, hread, heq⟩ := hrun
  simp only [Prod.mk.injEq] at heq
  obtain ⟨rfl, hlen, herr⟩ := heq
  exact ⟨s, s', data, hs, hread, hlen, herr⟩

/-- Reading it returns 505, with 504 bytes copied. -/
theorem tfsReadFile_miscounts : ∃ s, tfsInit (Env.linux 16) (State.boot shortChain) = some ((), s) ∧
    ¬ ReadFileCounts (Env.linux 16) s [97] 505 := by
  obtain ⟨s, s', data, hs, hread, hlen, -⟩ := shortChain_runs
  refine ⟨s, hs, fun h => ?_⟩
  have := h.count (Env.linux 16).fuel 505 data s' (Nat.le_refl _) hread
  omega

/-- The same medium, read up to 504 bytes. -/
theorem tfsReadFile_counts_short : ∃ s, tfsInit (Env.linux 16) (State.boot shortChain) = some ((), s) ∧
    (ReadFileCounts (Env.linux 16) s [97] 504 ↔ ∀ t i, FindsFile (Env.linux 16) [97] s t i →
      ReadsTo (Env.linux 16) s.blkCount s.dev (blksFor (t.readLen i 504)) t.log.transfers (t.blkBuf.itemBlk i) ∧
      (0 < t.blkBuf.itemSize i → t.blkBuf.itemBlk i ≠ 0 → 0 < 504 →
        ReadsOut (Env.linux 16) s.blkCount s.dev t.log.transfers (t.blkBuf.itemBlk i))) := by
  have hrun : ((tfsInit (Env.linux 16) (State.boot shortChain)).bind fun p =>
      (findFile (Env.linux 16) [97] false p.2.started).map fun q => q.1) = some (some 0) := by decide +kernel
  rw [Option.bind_eq_some_iff] at hrun
  obtain ⟨⟨_, s⟩, hs, hrun⟩ := hrun
  rw [Option.map_eq_some_iff] at hrun
  obtain ⟨⟨r, t⟩, hfind, -⟩ := hrun
  exact ⟨s, hs, tfsReadFile_counts (by rw [hfind]; rfl)⟩

end TinyFs
