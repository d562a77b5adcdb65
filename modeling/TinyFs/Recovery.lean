/-
The allocator behind a failed transfer of a bitmap block. `load_bitmap` marks the
cache invalid when it cannot read, and `alloc_block` takes that mark for a full
disk; a bit is changed in the cache before the write that may fail. So after a
failed read no block is found until a release or `tfs_get_used` has loaded a bitmap
block, and after a failed write the cache is not what is on disk.
-/
import TinyFs.BlockSet
import TinyFs.NoFailure
import TinyFs.Ready

namespace TinyFs

open Bytes

variable {e : Env} {n : Nat} {s s' s₁ : State} {b pos start r used : Nat} {c : AllocCall}

/-! ## Transfers of a bitmap block -/

/-- A transfer that fails. -/
theorem loadBitmap_fails (h : transferOk e s b = false) : loadBitmap e b s = some ((), { s with
    tfsLastError := .io, loadedBitmapBlk := bitmapBlkInval, log := s.log.transfer (.read b false) }) := by
  simp [loadBitmap, driveReadBlock, Prog.bind_apply, h]

theorem loadBitmap_works (h : transferOk e s b = true) (herr : s.tfsLastError = .ok) :
    loadBitmap e b s = some ((), { s with
      bitmapBlk := s.dev b, loadedBitmapBlk := b, log := s.log.transfer (.read b true) }) := by
  simp [loadBitmap, driveReadBlock, Prog.bind_apply, h, errAfter_ok herr, State.setBuf, ← herr]

theorem writeBitmap_fails (h : transferOk e s b = false) : driveWriteBlock e b .bitmapBlk s = some ((), { s with
    tfsLastError := .io, log := s.log.transfer (.write b false) }) := by
  simp [driveWriteBlock, h]

theorem writeBitmap_works (h : transferOk e s b = true) (herr : s.tfsLastError = .ok) :
    driveWriteBlock e b .bitmapBlk s = some ((), { s with
      dev := Function.update s.dev b s.bitmapBlk, log := s.log.transfer (.write b true) }) := by
  simp [driveWriteBlock, h, errAfter_ok herr, State.buf, ← herr]

/-! ## How a call ends with an I/O error -/

/-- A bitmap block could not be read: the medium is as it was, and nothing is cached. -/
structure ReadLost (s s' : State) : Prop extends Frame s s' where
  dev : s'.dev = s.dev
  inval : s'.loadedBitmapBlk = bitmapBlkInval

/-- A bitmap block could not be written: the medium is as it was, and the block of
`b` is cached as `dev'` has it. -/
structure WriteLost (s s' : State) (b : Nat) (dev' : Nat → Block) : Prop extends Frame s s' where
  dev : s'.dev = s.dev
  loaded : s'.loadedBitmapBlk = getBitmapBlk b
  cached : s'.bitmapBlk = dev' (getBitmapBlk b)

theorem ReadLost.of_frame (h : ReadLost s₁ s') (hf : Frame s s₁) (hd : s₁.dev = s.dev) : ReadLost s s' :=
  ⟨hf.trans h.toFrame, h.dev.trans hd, h.inval⟩

theorem WriteLost.of_frame {dev' : Nat → Block} (h : WriteLost s₁ s' b dev') (hf : Frame s s₁) (hd : s₁.dev = s.dev) :
    WriteLost s s' b dev' :=
  ⟨hf.trans h.toFrame, h.dev.trans hd, h.loaded, h.cached⟩

/-- An allocation that ends with an I/O error. -/
def AllocLost (n : Nat) (s s' : State) : Prop :=
  ReadLost s s' ∨ ∃ b < n, ¬ Used s.dev b ∧ WriteLost s s' b (markUsed s.dev b)

theorem AllocLost.of_frame (h : AllocLost n s₁ s') (hf : Frame s s₁) (hd : s₁.dev = s.dev) : AllocLost n s s' := by
  rcases h with h | ⟨b, hb, hfree, h⟩
  · exact .inl (h.of_frame hf hd)
  · rw [hd] at hfree h
    exact .inr ⟨b, hb, hfree, h.of_frame hf hd⟩

theorem nextBitmap_lost {a : Nat} {search : Nat → M Nat} (hmt : s.Mounted n) (herr : s.tfsLastError = .ok)
    (hmod : pos % 4096 = 0) (hpos : pos < n) (hrun : nextBitmap e start pos search s = some (a, s'))
    (hio : s'.tfsLastError = .io) (ih : ∀ p l, p % 4096 = 0 → p < n →
      search p { s with bitmapBlk := s.dev p, loadedBitmapBlk := p, log := l } = some (a, s') → AllocLost n s s') :
    AllocLost n s s' := by
  have hn := hmt.pos
  have hlt := hmt.lt
  have hlast : s.lastBitmapBlk = getBitmapBlk (n - 1) := hmt.lastBlk
  -- the place of the next bitmap block
  have hnext : ∀ p, p = (if pos = s.lastBitmapBlk then firstBitmapBlk else (pos + bitmapBlkCount) % 2 ^ 32) →
      p % 4096 = 0 ∧ p < n := by
    intro p hp
    rw [hlast, getBitmapBlk, firstBitmapBlk, bitmapBlkCount] at hp
    split at hp <;> omega
  rw [nextBitmap] at hrun
  simp only [Prog.gets_bind, id_eq] at hrun
  generalize hp : (if pos = s.lastBitmapBlk then firstBitmapBlk else (pos + bitmapBlkCount) % 2 ^ 32) = p at hrun
  obtain ⟨hpmod, hplt⟩ := hnext p hp.symm
  split at hrun
  · cases hrun
    cases hio
  · cases hok : transferOk e s p with
    | false =>
      rw [Prog.bind_some (loadBitmap_fails hok), ifOk_err (by exact Err.noConfusion)] at hrun
      cases hrun
      exact .inl ⟨⟨rfl, rfl, rfl, rfl, rfl⟩, rfl, rfl⟩
    | true =>
      rw [Prog.bind_some (loadBitmap_works hok herr), ifOk_ok (by exact herr)] at hrun
      exact ih p _ hpmod hplt hrun

theorem allocLoop_lost {a : Nat} (hmt : s.Mounted n) (herr : s.tfsLastError = .ok) (hload : s.loadedBitmapBlk = pos)
    (hmod : pos % 4096 = 0) (hpos : pos < n) (hbm : s.bitmapBlk = s.dev pos)
    (hrun : allocLoop e start r pos s = some (a, s')) (hio : s'.tfsLastError = .io) : AllocLost n s s' := by
  induction r generalizing pos s with
  | zero => cases hrun
  | succ r ih =>
    have hnext : nextBitmap e start pos (allocLoop e start r) s = some (a, s') → AllocLost n s s' := by
      refine fun hnext => nextBitmap_lost hmt herr hmod hpos hnext hio fun p l hpmod hplt hsearch => ?_
      have hlost := ih (s := { s with bitmapBlk := s.dev p, loadedBitmapBlk := p, log := l }) hmt herr rfl hpmod hplt
          rfl hsearch
      exact hlost.of_frame ⟨rfl, rfl, rfl, rfl, rfl⟩ rfl
    rw [allocLoop, allocStep] at hrun
    simp only [Prog.gets_bind, id_eq] at hrun
    rcases hsearch : searchBitmap s.bitmapBlk (List.range 512) with _ | ⟨i, j⟩
    · rw [hsearch] at hrun
      exact hnext hrun
    · rw [hsearch] at hrun
      simp only at hrun
      obtain ⟨hi, hj, hclear, -⟩ := searchBitmap_some hsearch
      split at hrun
      · exact hnext hrun
      · rename_i hin
        rw [hmt.count] at hin
        have hblk : getBitmapBlk (pos + 8 * i + j) = pos := by
          rw [getBitmapBlk]
          omega
        have hbit : (pos + 8 * i + j) % 4096 = 8 * i + j := by omega
        rw [Prog.modify_bind] at hrun
        cases hok : transferOk e { s with
            bitmapBlk := s.bitmapBlk.set i (s.bitmapBlk.get i ||| maskOf j) } s.loadedBitmapBlk with
        | false =>
          rw [Prog.bind_some (writeBitmap_fails hok), ifOk_err (by exact Err.noConfusion)] at hrun
          cases hrun
          refine .inr ⟨pos + 8 * i + j, by omega, ?_, ⟨rfl, rfl, rfl, rfl, rfl⟩, rfl, ?_, ?_⟩
          · rw [Used, hblk, hbit, ← hbm, hclear]
            exact Bool.false_ne_true
          · rw [hblk, ← hload]
          · have h8 : (8 * i + j) / 8 = i ∧ (8 * i + j) % 8 = j := by omega
            simp only [markUsed, hblk, hbit, h8.1, h8.2, Function.update_self, ← hbm]
        | true =>
          rw [Prog.bind_some (writeBitmap_works hok (by exact herr)), ifOk_ok (by exact herr)] at hrun
          cases hrun
          exact absurd (herr.symm.trans hio) Err.noConfusion

theorem allocBlock_lost {a : Nat} (hmt : s.Mounted n) (hc : s.CacheOk n) (herr : s.tfsLastError = .ok)
    (hrun : allocBlock e s = some (a, s')) (hio : s'.tfsLastError = .io) : AllocLost n s s' := by
  rw [allocBlock] at hrun
  simp only [Prog.gets_bind, id_eq] at hrun
  split at hrun
  · cases hrun
    cases hio
  · rename_i hne
    obtain ⟨h, -⟩ | ⟨hmod, hlt, hbm⟩ := hc
    · exact absurd h hne
    · exact allocLoop_lost hmt herr rfl hmod hlt hbm hrun hio

/-- The cached bitmap block with the bit of `b` cleared. -/
def State.clearBit (s : State) (b : Nat) : State := { s with
  bitmapBlk := s.bitmapBlk.set (b % 4096 / 8) (s.bitmapBlk.get (b % 4096 / 8) &&& ~~~maskOf (b % 4096 % 8)) }

/-- The block whose bitmap block a release has to load could not be read. -/
def FreeMisses (e : Env) (s : State) (b : Nat) : Prop :=
  s.loadedBitmapBlk ≠ getBitmapBlk b ∧ transferOk e s (getBitmapBlk b) = false

theorem freeBlock_lost (hc : s.CacheOk n) (herr : s.tfsLastError = .ok)
    (hrun : freeBlock e b s = some ((), s')) (hio : s'.tfsLastError = .io) :
    FreeMisses e s b ∧ ReadLost s s' ∨ ¬ FreeMisses e s b ∧ WriteLost s s' b (markFree s.dev b) := by
  -- the release, with the block of `b` cached
  have hrel : ∀ t : State, Frame s t → t.dev = s.dev → t.tfsLastError = .ok → t.loadedBitmapBlk = getBitmapBlk b →
      t.bitmapBlk = s.dev (getBitmapBlk b) →
      driveWriteBlock e t.loadedBitmapBlk .bitmapBlk (t.clearBit b) = some ((), s') → WriteLost s s' b
        (markFree s.dev b) := by
    intro t hf hd ht hl hbm h
    cases hok : transferOk e (t.clearBit b) t.loadedBitmapBlk with
    | false =>
      rw [writeBitmap_fails hok] at h
      cases h
      refine ⟨⟨hf.1, hf.2, hf.3, hf.4, hf.5⟩, hd, hl, ?_⟩
      simp only [State.clearBit, markFree, Function.update_self, ← hbm]
    | true =>
      rw [writeBitmap_works hok (by exact ht)] at h
      cases h
      exact absurd (ht.symm.trans hio) Err.noConfusion
  rw [freeBlock] at hrun
  simp only [Prog.gets_bind, id_eq] at hrun
  by_cases hl : s.loadedBitmapBlk = getBitmapBlk b
  · rw [if_neg (not_not.mpr hl)] at hrun
    refine .inr ⟨fun h => h.1 hl, hrel s .refl rfl herr hl ?_ hrun⟩
    obtain ⟨h, -⟩ | ⟨-, -, hbm⟩ := hc
    · exact absurd (hl ▸ h) (ne_inval (getBitmapBlk_mod b))
    · rw [← hl]
      exact hbm
  · rw [if_pos hl] at hrun
    cases hok : transferOk e s (getBitmapBlk b) with
    | false =>
      rw [Prog.bind_some (loadBitmap_fails hok), ifOk_err (by exact Err.noConfusion)] at hrun
      cases hrun
      exact .inl ⟨⟨hl, hok⟩, ⟨rfl, rfl, rfl, rfl, rfl⟩, rfl, rfl⟩
    | true =>
      rw [Prog.bind_some (loadBitmap_works hok herr), ifOk_ok (by exact herr), Prog.modify_bind, Prog.gets_bind,
        id_eq] at hrun
      refine .inr ⟨fun h => ?_, hrel { s with
        bitmapBlk := s.dev (getBitmapBlk b), loadedBitmapBlk := getBitmapBlk b,
        log := s.log.transfer (.read (getBitmapBlk b) true) } ⟨rfl, rfl, rfl, rfl, rfl⟩ rfl herr rfl rfl hrun⟩
      rw [h.2] at hok
      cases hok

theorem getUsedLoop_lost {u : Option Nat} (herr : s.tfsLastError = .ok) (hrun : getUsedLoop e r pos used s = some (u, s'))
    (hio : s'.tfsLastError = .io) : ReadLost s s' := by
  induction r generalizing pos used s with
  | zero => cases hrun
  | succ r ih =>
    rw [getUsedLoop] at hrun
    cases hok : transferOk e s pos with
    | false =>
      rw [Prog.bind_some (loadBitmap_fails hok), ifOk_err (by exact Err.noConfusion)] at hrun
      cases hrun
      exact ⟨⟨rfl, rfl, rfl, rfl, rfl⟩, rfl, rfl⟩
    | true =>
      rw [Prog.bind_some (loadBitmap_works hok herr), ifOk_ok (by exact herr), Prog.gets_bind, id_eq] at hrun
      split at hrun
      · -- the first bitmap block is loaded again
        obtain ⟨_, s₁, h1, h2⟩ := Prog.bind_eq_some.mp hrun
        cases h2
        cases hok₁ : transferOk e { s with
            bitmapBlk := s.dev pos, loadedBitmapBlk := pos, log := s.log.transfer (.read pos true) } firstBitmapBlk with
        | false =>
          rw [loadBitmap_fails hok₁] at h1
          cases h1
          exact ⟨⟨rfl, rfl, rfl, rfl, rfl⟩, rfl, rfl⟩
        | true =>
          rw [loadBitmap_works hok₁ (by exact herr)] at h1
          cases h1
          exact absurd (herr.symm.trans hio) Err.noConfusion
      · exact (ih (by exact herr) hrun).of_frame ⟨rfl, rfl, rfl, rfl, rfl⟩ rfl

/-! ## Recovery -/

/-- The allocator is in order once the drive works again: an allocation finds a
free block where there is one, and a valid cache is what is on disk. -/
structure Recovers (n : Nat) (s s' : State) : Prop where
  alloc : ∀ e' : Env, e'.NeverFails → n ≤ e'.fuel → (∃ b < n, ¬ Used s'.dev b) →
    ∃ b t, AllocCall.alloc.exec e' s' = some (b, t) ∧ t.tfsLastError = .ok ∧ b < n ∧ ¬ Used s'.dev b ∧
      usedSet n t.dev = insert b (usedSet n s'.dev)
  cache : s'.loadedBitmapBlk ≠ bitmapBlkInval → s'.bitmapBlk = s'.dev s'.loadedBitmapBlk
  /-- The failed call changed no bit on disk. -/
  bits : ∀ b, Used s'.dev b ↔ Used s.dev b

/-- The block a call is about is one of the volume. -/
def AllocCall.InRange (n : Nat) : AllocCall → Prop
  | .free b => b < n
  | _ => True

/-- Where a failing transfer does no harm: the bitmap block that could not be read
was one of a full disk, or the bit to clear was clear. -/
def AllocCall.Harmless (e : Env) (n : Nat) (s : State) : AllocCall → Prop
  | .alloc => Full n s.dev
  | .free b => FreeMisses e s b ∧ Full n s.dev ∨ ¬ FreeMisses e s b ∧ ¬ Used s.dev b
  | .getUsed => Full n s.dev

theorem ReadLost.recovers_iff (h : ReadLost s s') (hf : n ≤ e.fuel) : Recovers n s s' ↔ Full n s.dev := by
  have hinval := h.inval
  constructor
  · intro hrec
    by_contra hfull
    obtain ⟨b, hb⟩ := not_forall.mp hfull
    obtain ⟨hb, hfree⟩ := Classical.not_imp.mp hb
    obtain ⟨_, t, hrun, hok, -⟩ := hrec.alloc e.reliable e.reliable_neverFails hf ⟨b, hb, h.dev ▸ hfree⟩
    have hfull : AllocCall.alloc.exec e.reliable s' = some (0, { s' with tfsLastError := .diskFull }) := by
      simp [AllocCall.exec, allocBlock, hinval]
    rw [hfull] at hrun
    cases hrun
    cases hok
  · intro hfull
    refine ⟨fun e' _ _ hex => ?_, fun hne => absurd hinval hne, fun b => by rw [h.dev]⟩
    obtain ⟨b, hb, hfree⟩ := hex
    rw [h.dev] at hfree
    exact absurd (hfull b hb) hfree

theorem WriteLost.not_recovers {dev' : Nat → Block} (h : WriteLost s s' b dev')
    (hchange : (Used dev' b ↔ Used s.dev b) → False) : ¬ Recovers n s s' := by
  intro hrec
  have hcache := hrec.cache (by
    rw [h.loaded]
    exact ne_inval (getBitmapBlk_mod b))
  rw [h.cached, h.loaded, h.dev] at hcache
  exact hchange (by rw [Used, Used, hcache])

/-- Clearing a clear bit. -/
theorem markFree_of_free {dev : Nat → Block} (h : ¬ Used dev b) :
    markFree dev b (getBitmapBlk b) = dev (getBitmapBlk b) := by
  have hk : 8 * (b % 4096 / 8) + b % 4096 % 8 = b % 4096 := by omega
  rw [markFree, Function.update_self]
  refine Buf.ext_bit fun k _ => ?_
  rw [Buf.bit_set_and_not _ (by omega) (Nat.mod_lt _ (by omega)), hk]
  by_cases hkb : b % 4096 = k
  · have hbit : (dev (getBitmapBlk b)).bit k = false := by
      rw [← hkb]
      exact Bool.not_eq_true _ ▸ h
    rw [hbit, Bool.false_and]
  · simp [hkb]

/-- A release of a free block whose write failed. -/
theorem WriteLost.recovers (h : WriteLost s s' b (markFree s.dev b)) (hmt : s.Mounted n) (hb : b < n)
    (hfree : ¬ Used s.dev b) : Recovers n s s' := by
  have hcached : s'.bitmapBlk = s'.dev s'.loadedBitmapBlk := by
    rw [h.cached, h.loaded, h.dev, markFree_of_free hfree]
  have hcache : s'.CacheOk n := by
    refine .valid ?_ ?_ hcached
    · rw [h.loaded]
      exact getBitmapBlk_mod b
    · rw [h.loaded]
      exact getBitmapBlk_lt hb
  refine ⟨fun e' he' hf' ⟨x, hx, hxfree⟩ => ?_, fun _ => hcached, fun x => by rw [h.dev]⟩
  rcases allocBlock_ok (s := { s' with tfsLastError := .ok }) he' (h.toFrame.mounted hmt) hcache rfl hf' with
    ⟨a, l, ha, hafree, hrun⟩ | ⟨hfull, -⟩
  · exact ⟨a, _, hrun, rfl, ha, hafree, usedSet_mark ha⟩
  · exact absurd (hfull x hx) hxfree

/-- A call of the allocator that ends with an I/O error leaves the allocator in
order for a drive that works again exactly where the failing transfer is harmless. -/
theorem allocator_recovers (hf : n ≤ e.fuel) (hmt : s.Mounted n) (hc : s.CacheOk n) (hdev : s.tfsLastError ≠ .noDev)
    (hrange : c.InRange n) (hrun : c.exec e s = some (r, s')) (hio : s'.tfsLastError = .io) :
    Recovers n s s' ↔ c.Harmless e n s := by
  have hframe : ∀ t : State, t = { s with tfsLastError := .ok } → Frame s t ∧ t.dev = s.dev := by
    intro t ht
    subst ht
    exact ⟨⟨rfl, rfl, rfl, rfl, rfl⟩, rfl⟩
  cases c with
  | alloc =>
    have hlost : AllocLost n s s' :=
      (allocBlock_lost (s := { s with tfsLastError := .ok }) hmt hc rfl hrun hio).of_frame (hframe _ rfl).1 rfl
    rcases hlost with hlost | ⟨b, hb, hfree, hlost⟩
    · exact hlost.recovers_iff hf
    · refine ⟨fun hrec => absurd hrec (hlost.not_recovers fun h => hfree (h.mp ?_)), fun hfull => absurd
        (hfull b hb) hfree⟩
      exact used_markUsed.mpr (.inl rfl)
  | free b =>
    obtain ⟨_, t, h1, h2⟩ := Prog.bind_eq_some.mp (show (freeBlock e b >>= fun _ => pure 0)
      { s with tfsLastError := .ok } = some (r, s') from hrun)
    obtain rfl : t = s' := congrArg Prod.snd (Option.some.inj h2)
    have hmiss : FreeMisses e { s with tfsLastError := .ok } b ↔ FreeMisses e s b := Iff.rfl
    rcases freeBlock_lost (s := { s with tfsLastError := .ok }) hc rfl h1 hio with ⟨hm, hlost⟩ | ⟨hm, hlost⟩
    · rw [(hlost.of_frame (hframe _ rfl).1 rfl).recovers_iff hf]
      exact ⟨fun hfull => .inl ⟨hm, hfull⟩, fun h => h.elim (·.2) fun h => absurd hm h.1⟩
    · have hlost : WriteLost s t b (markFree s.dev b) := hlost.of_frame (hframe _ rfl).1 rfl
      refine ⟨fun hrec => .inr ⟨hm, fun hused => ?_⟩, fun h => ?_⟩
      · exact hlost.not_recovers (fun h => (used_markFree.mp (h.mpr hused)).1 rfl) hrec
      · exact hlost.recovers hmt hrange (h.elim (fun h => absurd h.1 hm) (·.2))
  | getUsed =>
    have hbody : tfsGetUsed e s = some (r, s') := hrun
    rw [tfsGetUsed, enter_run hdev, out_run, Option.map_eq_some_iff] at hbody
    obtain ⟨⟨_, t⟩, hbody, ht⟩ := hbody
    obtain ⟨u, s₁, h1, h2⟩ := Prog.bind_eq_some.mp hbody
    cases h2
    cases ht
    have hlost := getUsedLoop_lost rfl h1 hio
    have hlost' : ReadLost s (t.call .deselect) :=
      ⟨⟨hlost.1.1, hlost.1.2, hlost.1.3, hlost.1.4, hlost.1.5⟩, hlost.dev, hlost.inval⟩
    exact hlost'.recovers_iff hf

/-- The Linux build on a drive of `n` blocks that fails transfer `k`. -/
def Env.failing (n k : Nat) : Env :=
  { Env.linux n with drive := { blkCount := some n, fails := fun j => j == k, setsOk := false } }

/-- What `tfs_init` leaves of a drive of two blocks with block 1 free. -/
def mountedTwo : State :=
  { State.boot fun _ => bitmapOfTwo with
    blkCount := 2, lastBitmapLen := 2, bitmapBlk := bitmapOfTwo, currentDirBlk := rootDirBlk
    log := { transfers := 1, calls := [.deselect, .read 0 true, .select] } }

theorem mountedTwo_init : tfsInit (Env.failing 2 1) (State.boot fun _ => bitmapOfTwo) = some ((), mountedTwo) := by
  have hhandles : (fun fd => if fd < (Env.failing 2 1).maxFds then Handle.zero else Handle.zero) = fun _ =>
      Handle.zero := by
    funext fd
    exact ite_self _
  have hrun : tfsInit (Env.failing 2 1) (State.boot fun _ => bitmapOfTwo) = some ((), { mountedTwo with
    handles := fun fd => if fd < (Env.failing 2 1).maxFds then Handle.zero else Handle.zero }) := rfl
  rw [hrun, hhandles]
  rfl

theorem mountedTwo_ok : mountedTwo.Mounted 2 ∧ mountedTwo.CacheOk 2 :=
  ⟨⟨by decide, by decide, rfl, rfl, rfl⟩, .valid rfl (by decide) rfl⟩

/-- The write of an allocation on two blocks fails: the disk has block 1 free, but
the cache has it marked, and the next allocation finds the disk full. -/
theorem allocator_not_recovered : ∃ s' t, tfsInit (Env.failing 2 1) (State.boot fun _ => bitmapOfTwo) =
    some ((), mountedTwo) ∧
    AllocCall.alloc.exec (Env.failing 2 1) mountedTwo = some (0, s') ∧
    s'.tfsLastError = .io ∧ ¬ Used s'.dev 1 ∧ s'.loadedBitmapBlk = 0 ∧ s'.bitmapBlk ≠ s'.dev 0 ∧
    AllocCall.alloc.exec (Env.linux 2) s' = some (0, t) ∧ t.tfsLastError = .diskFull ∧ ¬ Recovers 2 mountedTwo s' := by
  have h1 : (AllocCall.alloc.exec (Env.failing 2 1) mountedTwo).map (fun p =>
      (p.1, p.2.tfsLastError, p.2.loadedBitmapBlk, p.2.bitmapBlk.bit 1, (p.2.dev 0).bit 1)) =
      some (0, .io, 0, true, false) := by decide +kernel
  have h2 : ((AllocCall.alloc.exec (Env.failing 2 1) >>= fun _ => AllocCall.alloc.exec (Env.linux 2)) mountedTwo).map
      (fun p => (p.1, p.2.tfsLastError)) = some (0, .diskFull) := by decide +kernel
  obtain ⟨⟨r, s'⟩, hrun, hs'⟩ := Option.map_eq_some_iff.mp h1
  simp only [Prod.mk.injEq] at hs'
  obtain ⟨rfl, hio, hload, hset, hclear⟩ := hs'
  rw [Prog.bind_some hrun] at h2
  obtain ⟨⟨r, t⟩, hrun', ht⟩ := Option.map_eq_some_iff.mp h2
  simp only [Prod.mk.injEq] at ht
  obtain ⟨rfl, hfull⟩ := ht
  have hne : s'.bitmapBlk ≠ s'.dev 0 := by
    intro heq
    rw [heq, hclear] at hset
    cases hset
  refine ⟨s', t, mountedTwo_init, hrun, hio, ?_, hload, hne, hrun', hfull, fun hrec => hne ?_⟩
  · simpa [Used, getBitmapBlk] using hclear
  · rw [← hload]
    refine hrec.cache ?_
    rw [hload]
    decide

/-- The same call, by the condition. -/
theorem allocator_recovers_two : ∃ s', AllocCall.alloc.exec (Env.failing 2 1) mountedTwo = some (0, s') ∧
    (Recovers 2 mountedTwo s' ↔ AllocCall.alloc.Harmless (Env.failing 2 1) 2 mountedTwo) := by
  have h1 : (AllocCall.alloc.exec (Env.failing 2 1) mountedTwo).map (fun p => (p.1, p.2.tfsLastError)) =
      some (0, .io) := by decide +kernel
  obtain ⟨⟨r, s'⟩, hrun, hs'⟩ := Option.map_eq_some_iff.mp h1
  simp only [Prod.mk.injEq] at hs'
  obtain ⟨rfl, hio⟩ := hs'
  exact ⟨s', hrun, allocator_recovers (by decide) mountedTwo_ok.1 mountedTwo_ok.2 (by decide) trivial hrun hio⟩

end TinyFs
