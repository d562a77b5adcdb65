/-
Runs that meet no drive failure. What a function does on a drive that never
fails, it also does on any drive that happens to fail none of the transfers the
function makes; so a result about the never-failing drive is a result about
every run without a failure.
-/
import TinyFs.Lib.Steps
import TinyFs.Reliable

namespace TinyFs

open Bytes

/-- The same build on a drive that never fails. -/
def Env.reliable (e : Env) : Env := { e with drive := { e.drive with fails := fun _ => false } }

theorem Env.reliable_neverFails (e : Env) : e.reliable.NeverFails := fun _ => rfl

/-- The drive fails none of the transfers between two states. -/
def NoFailure (e : Env) (s s' : State) : Prop :=
  ∀ j, s.log.transfers ≤ j → j < s'.log.transfers → e.drive.fails j = false

/-- The drive fails none of the transfers the function makes from `s` on. -/
def MeetsNoFailure {α : Type} (e : Env) (p : Env → M α) (s : State) : Prop :=
  ∀ a s', p e.reliable s = some (a, s') → NoFailure e s s'

/-- Where the drive fails no transfer of `p'`, `p` does the same. -/
def Follows {α : Type} (e : Env) (p p' : M α) : Prop := ∀ ⦃s a s'⦄, p' s = some (a, s') →
  s.log.transfers ≤ s'.log.transfers ∧ (NoFailure e s s' → p s = some (a, s'))

variable {e : Env} {α β : Type} {s : State}

theorem MeetsNoFailure.run {p : Env → M α} (h : MeetsNoFailure e p s) (hp : Follows e (p e) (p e.reliable)) {a : α}
    {s' : State} (hrun : p e.reliable s = some (a, s')) : p e s = some (a, s') := (hp hrun).2 (h a s' hrun)

/-! ## The constructs -/

/-- A part that calls no drive is the same on every drive. -/
theorem Follows.quiet {p : M α} (h : ∀ s a s', p s = some (a, s') → s'.log.transfers = s.log.transfers) :
    Follows e p p := by
  intro s a s' hrun
  exact ⟨(h s a s' hrun).ge, fun _ => hrun⟩

theorem Follows.pure (a : α) : Follows e (pure a : M α) (Pure.pure a) := .quiet fun s b s' h => by
  cases h
  rfl

theorem Follows.noFuel : Follows e (Prog.noFuel : M α) Prog.noFuel := .quiet fun s a s' h => by cases h

theorem Follows.modify {f : State → State} (h : ∀ s, (f s).log.transfers = s.log.transfers) :
    Follows e (Prog.modify f) (Prog.modify f) := .quiet fun s a s' hrun => by
  cases hrun
  exact h s

theorem Follows.bind {p p' : M α} {f f' : α → M β} (hp : Follows e p p') (hf : ∀ a, Follows e (f a) (f' a)) :
    Follows e (p >>= f) (p' >>= f') := by
  intro s b s' hrun
  obtain ⟨a, s₁, h1, h2⟩ := Prog.bind_eq_some.mp hrun
  obtain ⟨hle₁, hp₁⟩ := hp h1
  obtain ⟨hle₂, hf₂⟩ := hf a h2
  refine ⟨hle₁.trans hle₂, fun hno => ?_⟩
  rw [Prog.bind_some (hp₁ fun j hj hj' => hno j hj (by omega))]
  exact hf₂ fun j hj hj' => hno j (by omega) hj'

theorem Follows.gets {g : State → α} {f f' : α → M β} (h : ∀ a, Follows e (f a) (f' a)) :
    Follows e (Prog.gets g >>= f) (Prog.gets g >>= f') :=
  Follows.bind (.quiet fun s a s' hrun => by
    cases hrun
    rfl) h

theorem Follows.ite {c : Prop} [Decidable c] {p p' q q' : M α} (hp : Follows e p p') (hq : Follows e q q') :
    Follows e (if c then p else q) (if c then p' else q') := by
  by_cases h : c
  · rw [if_pos h, if_pos h]
    exact hp
  · rw [if_neg h, if_neg h]
    exact hq

theorem Follows.ifOk {r : α} {k k' : M α} (h : Follows e k k') : Follows e (ifOk r k) (ifOk r k') := by
  intro s a s' hrun
  unfold TinyFs.ifOk at hrun ⊢
  split at hrun
  · rename_i hok
    rw [if_pos hok]
    exact h hrun
  · rename_i herr
    rw [if_neg herr]
    cases hrun
    exact ⟨Nat.le_refl _, fun _ => rfl⟩

/-- A transfer. -/
theorem Follows.transfer {f f' : State → State} (hcount : ∀ s, (f' s).log.transfers = s.log.transfers + 1)
    (hsame : ∀ s, e.drive.fails s.log.transfers = false → f s = f' s) : Follows e (Prog.modify f) (Prog.modify f') := by
  intro s a s' hrun
  cases hrun
  refine ⟨by rw [hcount]; omega, fun hno => ?_⟩
  rw [Prog.modify_apply, hsame s (hno _ (Nat.le_refl _) (by rw [hcount]; omega))]

theorem transferOk_reliable {b : Nat} (h : e.drive.fails s.log.transfers = false) :
    transferOk e s b = transferOk e.reliable s b := by
  rw [transferOk, transferOk, h]
  rfl

theorem driveReadBlock_follows (b : Nat) (sel : BufSel) :
    Follows e (driveReadBlock e b sel) (driveReadBlock e.reliable b sel) := by
  refine .transfer (fun s => ?_) fun s h => ?_
  · cases sel <;> dsimp only <;> split <;> rfl
  · simp only [transferOk_reliable h]
    rfl

theorem driveWriteBlock_follows (b : Nat) (sel : BufSel) :
    Follows e (driveWriteBlock e b sel) (driveWriteBlock e.reliable b sel) := by
  refine .transfer (fun s => ?_) fun s h => ?_
  · dsimp only
    split <;> rfl
  · simp only [transferOk_reliable h]
    rfl

theorem setErr_follows (err : Err) : Follows e (setErr err) (setErr err) := .modify fun _ => rfl

theorem modifyBuf_follows (f : Block → Block) : Follows e (modifyBuf f) (modifyBuf f) := .modify fun _ => rfl

theorem Follows.out {p p' : M α} (h : Follows e p p') : Follows e (out p) (out p') :=
  h.bind fun _ => Follows.bind (.modify fun _ => rfl) fun _ => .pure _

theorem Follows.enter {r : α} {p p' : M α} (h : Follows e p p') : Follows e (enter r p) (enter r p') := by
  intro s a s' hrun
  by_cases hd : s.tfsLastError = .noDev
  · rw [enter_noDev hd] at hrun ⊢
    cases hrun
    exact ⟨Nat.le_refl _, fun _ => rfl⟩
  · rw [enter_run hd] at hrun ⊢
    exact h hrun

/-! ## The bitmap -/

theorem loadBitmap_follows (b : Nat) : Follows e (loadBitmap e b) (loadBitmap e.reliable b) :=
  (driveReadBlock_follows b .bitmapBlk).bind fun _ => .modify fun s => by split <;> rfl

theorem nextBitmap_follows (start pos : Nat) {search search' : Nat → M Nat} (h : ∀ p, Follows e (search p) (search' p)) :
    Follows e (nextBitmap e start pos search) (nextBitmap e.reliable start pos search') := by
  refine .gets fun s => .ite ?_ ((loadBitmap_follows _).bind fun _ => .ifOk (h _))
  exact .bind (.modify fun _ => rfl) fun _ => .bind (setErr_follows _) fun _ => .pure 0

theorem allocLoop_follows (start : Nat) : ∀ fuel pos, Follows e (allocLoop e start fuel pos)
    (allocLoop e.reliable start fuel pos)
  | 0, _ => .noFuel
  | fuel + 1, pos => by
    unfold allocLoop allocStep
    refine .gets fun s => ?_
    split
    · exact nextBitmap_follows start pos (allocLoop_follows start fuel)
    · refine .ite (nextBitmap_follows start pos (allocLoop_follows start fuel))
        (Follows.bind (.modify fun _ => rfl) fun _ => ?_)
      exact (driveWriteBlock_follows _ _).bind fun _ => .ifOk (.pure _)

theorem allocBlock_follows : Follows e (allocBlock e) (allocBlock e.reliable) :=
  .gets fun _ => .ite (Follows.bind (setErr_follows _) fun _ => .pure 0) (allocLoop_follows _ _ _)

theorem getUsedLoop_follows : ∀ fuel pos used, Follows e (getUsedLoop e fuel pos used)
    (getUsedLoop e.reliable fuel pos used)
  | 0, _, _ => .noFuel
  | fuel + 1, pos, used => by
    unfold getUsedLoop
    refine (loadBitmap_follows _).bind fun _ => .ifOk (.gets fun s => .ite ?_ (getUsedLoop_follows fuel _ _))
    exact (loadBitmap_follows _).bind fun _ => .pure _

theorem tfsGetUsed_follows : Follows e (tfsGetUsed e) (tfsGetUsed e.reliable) :=
  .enter (.out ((getUsedLoop_follows _ _ _).bind fun _ => .pure _))

theorem formatLoop_follows : ∀ fuel pos, Follows e (formatLoop e fuel pos) (formatLoop e.reliable fuel pos)
  | 0, _ => .noFuel
  | fuel + 1, pos => by
    have hwrite : ∀ s : State, Follows e
        (driveWriteBlock e pos .bitmapBlk >>= fun _ => ifOk ()
          (if pos = s.lastBitmapBlk then Pure.pure () else formatLoop e fuel ((pos + bitmapBlkCount) % 2 ^ 32)))
        (driveWriteBlock e.reliable pos .bitmapBlk >>= fun _ => ifOk ()
          (if pos = s.lastBitmapBlk then Pure.pure () else formatLoop e.reliable fuel
            ((pos + bitmapBlkCount) % 2 ^ 32))) :=
      fun s => (driveWriteBlock_follows _ _).bind fun _ => .ifOk (.ite (.pure _) (formatLoop_follows fuel _))
    unfold formatLoop
    exact .gets fun s => .ite (Follows.bind (.modify fun _ => rfl) fun _ => hwrite s) (hwrite s)

theorem tfsFormat_follows : Follows e (tfsFormat e) (tfsFormat e.reliable) := by
  refine .enter (.out (Follows.bind (.modify fun _ => rfl) fun _ => (formatLoop_follows _ _).bind fun _ => .ifOk ?_))
  refine (loadBitmap_follows _).bind fun _ => .ifOk (allocBlock_follows.bind fun pos => .ifOk ?_)
  refine (modifyBuf_follows _).bind fun _ => (driveWriteBlock_follows _ _).bind fun _ => .ifOk ?_
  exact .modify fun _ => rfl

end TinyFs
