/-
The allocator refines a finite set of block numbers. The abstract allocator is
`SetStep`: an allocation adds a block below the block count that was not in the
set, or reports that there is none; a release takes its block out; a query
counts. Every run of the code after `tfs_init` is one of its runs, whatever the
number of bitmap blocks.

A call starts with no error pending, as in the code: each public function
clears `tfs_last_error`, and leaves at the first error.
-/
import Mathlib.Data.Finset.Card
import TinyFs.Allocator

namespace TinyFs

open Bytes

/-! ## The abstract allocator -/

/-- The calls of the allocator. -/
inductive AllocCall
  | alloc
  | free (b : Nat)
  | getUsed

/-- One step of the set of used blocks of a volume of `n` blocks: the call, the
value and the error it ends with, and the set after it. -/
inductive SetStep (n : Nat) : Finset Nat → AllocCall → Nat → Err → Finset Nat → Prop
  | alloc {U b} : b ∉ U → b < n → b % 4096 ≠ 0 → SetStep n U .alloc b .ok (insert b U)
  | full {U} : (∀ b < n, b ∈ U) → SetStep n U .alloc 0 .diskFull U
  | free {U b} : b ∈ U → SetStep n U (.free b) 0 .ok (U.erase b)
  | getUsed {U} : SetStep n U .getUsed U.card .ok U

/-- A run of the abstract allocator. -/
inductive SetRun (n : Nat) : Finset Nat → List (AllocCall × Nat × Err) → Finset Nat → Prop
  | nil {U} : SetRun n U [] U
  | cons {U U₁ U₂ c r err l} : SetStep n U c r err U₁ → SetRun n U₁ l U₂ → SetRun n U ((c, r, err) :: l) U₂

/-! ## The code's allocator -/

/-- A call as the code makes it. -/
def AllocCall.exec (e : Env) : AllocCall → M Nat
  | .alloc => do
    setErr .ok
    allocBlock e
  | .free b => do
    setErr .ok
    freeBlock e b
    pure 0
  | .getUsed => tfsGetUsed e

/-- What the callers keep to: only a used block that is no bitmap block is freed. -/
def AllocCall.Legal (n : Nat) (s : State) : AllocCall → Prop
  | .free b => b < n ∧ b % 4096 ≠ 0 ∧ Used s.dev b
  | _ => True

/-- A run of the code, with the value and the error of each call. -/
inductive AllocRun (e : Env) (n : Nat) : State → List (AllocCall × Nat × Err) → State → Prop
  | nil {s} : AllocRun e n s [] s
  | cons {s s₁ s₂ c r l} : c.Legal n s → c.exec e s = some (r, s₁) → AllocRun e n s₁ l s₂ →
      AllocRun e n s ((c, r, s₁.tfsLastError) :: l) s₂

/-- The used blocks of a volume of `n` blocks. -/
def usedSet (n : Nat) (dev : Nat → Block) : Finset Nat := (Finset.range n).filter (Used dev)

theorem mem_usedSet {n b : Nat} {dev : Nat → Block} : b ∈ usedSet n dev ↔ b < n ∧ Used dev b := by
  simp [usedSet]

theorem card_usedSet (n : Nat) (dev : Nat → Block) : (usedSet n dev).card = Nat.count (Used dev) n :=
  (Nat.count_eq_card_filter_range _ _).symm

theorem usedSet_mark {n b : Nat} {dev : Nat → Block} (hb : b < n) :
    usedSet n (markUsed dev b) = insert b (usedSet n dev) := by
  ext x
  simp only [mem_usedSet, Finset.mem_insert, used_markUsed]
  constructor
  · rintro ⟨h1, rfl | h2⟩
    · exact .inl rfl
    · exact .inr ⟨h1, h2⟩
  · rintro (rfl | ⟨h1, h2⟩)
    · exact ⟨hb, .inl rfl⟩
    · exact ⟨h1, .inr h2⟩

theorem usedSet_free {n b : Nat} {dev : Nat → Block} : usedSet n (markFree dev b) = (usedSet n dev).erase b := by
  ext x
  simp only [mem_usedSet, Finset.mem_erase, used_markFree]
  exact and_left_comm

/-! ## The invariant -/

/-- What holds between two calls. -/
structure AllocInv (n : Nat) (dev₀ : Nat → Block) (s : State) : Prop where
  mounted : s.Mounted n
  cache : s.CacheOk n
  err : s.tfsLastError ≠ .noDev
  bitmaps : BitmapsUsed n s.dev
  tail : TailUsed n s.dev
  /-- No bit past the end of the disk changes. -/
  past : ∀ b, n ≤ b → (Used s.dev b ↔ Used dev₀ b)

variable {e : Env} {n : Nat} {s : State} {dev₀ : Nat → Block}

/-- A legal call returns, does what the abstract allocator does, and keeps the invariant. -/
theorem AllocInv.step (he : e.NeverFails) (hf : n ≤ e.fuel) (hs : AllocInv n dev₀ s) {c : AllocCall}
    (hc : c.Legal n s) : ∃ r s', c.exec e s = some (r, s') ∧
      SetStep n (usedSet n s.dev) c r s'.tfsLastError (usedSet n s'.dev) ∧ AllocInv n dev₀ s' := by
  obtain ⟨hmt, hcache, herr, hbits, htail, hpast⟩ := hs
  cases c with
  | alloc =>
    rcases allocBlock_ok (s := { s with tfsLastError := .ok }) he hmt hcache rfl hf with
      ⟨b, l, hb, hfree, hrun⟩ | ⟨hfull, bm, l, hrun⟩
    · have hmod : b % 4096 ≠ 0 := fun h => hfree (hbits b hb h)
      refine ⟨_, _, hrun, ?_, hmt, CacheOk.mark hb, Err.noConfusion, hbits.mark b, ?_, fun x hx => ?_⟩
      · rw [usedSet_mark hb]
        exact .alloc (fun h => hfree (mem_usedSet.mp h).2) hb hmod
      · exact fun x hx hx' => used_markUsed.mpr (.inr (htail x hx hx'))
      · rw [used_markUsed, ← hpast x hx]
        exact or_iff_right (by omega)
    · exact ⟨_, _, hrun, .full fun b hb => mem_usedSet.mpr ⟨hb, hfull b hb⟩, hmt, .full rfl hfull,
        Err.noConfusion, hbits, htail, hpast⟩
  | free b =>
    obtain ⟨hb, hmod, hused⟩ := hc
    obtain ⟨l, hrun⟩ := freeBlock_ok (s := { s with tfsLastError := .ok }) he hmt hcache rfl hb
    refine ⟨0, _, Prog.bind_some hrun, ?_, hmt, CacheOk.free hb, Err.noConfusion, hbits.free hmod, ?_,
      fun x hx => ?_⟩
    · rw [usedSet_free]
      exact .free (mem_usedSet.mpr ⟨hb, hused⟩)
    · exact fun x hx hx' => used_markFree.mpr ⟨by omega, htail x hx hx'⟩
    · rw [used_markFree, ← hpast x hx]
      exact and_iff_right (by omega)
  | getUsed =>
    obtain ⟨l, hrun⟩ := tfsGetUsed_ok he hmt herr hf
    have hn := hmt.pos
    refine ⟨_, _, hrun, ?_, hmt, .valid rfl hn rfl, Err.noConfusion, hbits, htail, hpast⟩
    rw [usedCount_eq htail hn hmt.lt, ← card_usedSet]
    exact .getUsed

theorem AllocInv.run (dev₀ : Nat → Block) (he : e.NeverFails) (hf : n ≤ e.fuel) {l : List (AllocCall × Nat × Err)}
    {s' : State} (h : AllocRun e n s l s') (hs : AllocInv n dev₀ s) :
    SetRun n (usedSet n s.dev) l (usedSet n s'.dev) ∧ AllocInv n dev₀ s' := by
  induction h with
  | nil => exact ⟨.nil, hs⟩
  | cons hc hrun _ ih =>
    obtain ⟨r, s₁, hrun', hstep, hs₁⟩ := hs.step he hf hc
    rw [hrun] at hrun'
    cases hrun'
    obtain ⟨h1, h2⟩ := ih hs₁
    exact ⟨.cons hstep h1, h2⟩

/-! ## The refinement -/

/-- The allocator refines a finite set: after `tfs_init` on a volume with the
bits of the bitmap blocks and of the blocks past the end set, every run of legal
calls is a run of the abstract allocator from the set of used blocks to the set
of used blocks; the cached bitmap block, where it is valid, is the one on disk;
the bits past the end stay; and the next legal call returns. -/
theorem allocator_refines_set (he : e.NeverFails) (hd : e.drive.blkCount = some n) (hn : 0 < n)
    (hlt : n < 2 ^ 32) (hf : n ≤ e.fuel) (hbits : BitmapsUsed n s.dev) (htail : TailUsed n s.dev) :
    ∃ s₀, tfsInit e s = some ((), s₀) ∧ s₀.dev = s.dev ∧ ∀ l s', AllocRun e n s₀ l s' →
      SetRun n (usedSet n s.dev) l (usedSet n s'.dev) ∧
      (s'.loadedBitmapBlk ≠ bitmapBlkInval → s'.bitmapBlk = s'.dev s'.loadedBitmapBlk) ∧
      (∀ b, n ≤ b → (Used s'.dev b ↔ Used s.dev b)) ∧
      ∀ c : AllocCall, c.Legal n s' → ∃ r s'', c.exec e s' = some (r, s'') := by
  obtain ⟨l₀, hinit⟩ := tfsInit_ok he hd hn hlt s
  refine ⟨_, hinit, rfl, fun l s' hrun => ?_⟩
  have hinv := AllocInv.run s.dev he hf hrun
    ⟨⟨hn, hlt, rfl, rfl, rfl⟩, .valid rfl hn rfl, Err.noConfusion, hbits, htail, fun _ _ => Iff.rfl⟩
  refine ⟨hinv.1, fun hne => ?_, hinv.2.past, fun c hc => ?_⟩
  · rcases hinv.2.cache with ⟨h, _⟩ | ⟨_, _, h⟩
    · exact absurd h hne
    · exact h
  · obtain ⟨r, s'', h, _⟩ := hinv.2.step he hf hc
    exact ⟨r, s'', h⟩

/-- A bitmap block of a volume of two blocks, with block 1 free. -/
def bitmapOfTwo : Block := (Buf.zero.fill 0 (fun _ => 0xff) 512).set 0 0xfd

theorem bitmapOfTwo_bit {k : Nat} (h1 : k ≠ 1) (hk : k < 4096) : bitmapOfTwo.bit k = true := by
  by_cases h8 : k < 8
  · have : ∀ k < 8, k ≠ 1 → (0xfd : UInt8).toNat.testBit k = true := by decide
    have h0 : k / 8 = 0 := by omega
    have hm : k % 8 = k := by omega
    rw [Buf.bit, h0, hm, bitmapOfTwo, Buf.get_set_self _ _ (by omega)]
    exact this k h8 h1
  · apply bit_of_ff
    rw [bitmapOfTwo, Buf.get_set_ne _ _ (by omega), Buf.get_fill_in _ _ (by omega) (by omega) (by omega)]

/-- Two blocks, one of them free. -/
theorem allocator_refines_set_two : ∃ s₀, tfsInit (Env.linux 2) (State.boot fun _ => bitmapOfTwo) = some ((), s₀) ∧
    s₀.dev = (fun _ => bitmapOfTwo) ∧ ∀ l s', AllocRun (Env.linux 2) 2 s₀ l s' →
      SetRun 2 (usedSet 2 fun _ => bitmapOfTwo) l (usedSet 2 s'.dev) ∧
      (s'.loadedBitmapBlk ≠ bitmapBlkInval → s'.bitmapBlk = s'.dev s'.loadedBitmapBlk) ∧
      (∀ b, 2 ≤ b → (Used s'.dev b ↔ Used (fun _ => bitmapOfTwo) b)) ∧
      ∀ c : AllocCall, c.Legal 2 s' → ∃ r s'', c.exec (Env.linux 2) s' = some (r, s'') :=
  allocator_refines_set (Env.linux_neverFails 2) rfl (by omega) (by omega) (by decide)
    (fun b hb hm => bitmapOfTwo_bit (by omega) (by omega)) (fun b hb hk => bitmapOfTwo_bit (by omega) (by omega))

end TinyFs
