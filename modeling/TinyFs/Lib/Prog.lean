/-
Programs over a global state whose loops carry a fuel argument: a run returns
a value and the state it leaves, or `none` when a loop ran out of fuel. The
rules here take a run apart at its binds, carry an invariant of one step
through a run of any length, and move an update of the state across a run that
does not see it.
-/
import Mathlib.Data.Nat.Basic

/-- A program over the state `σ`; `none` when a loop ran out of fuel. -/
def Prog (σ α : Type) : Type := σ → Option (α × σ)

namespace Prog

variable {σ α β ι : Type}

instance : Monad (Prog σ) where
  pure a := fun s => some (a, s)
  bind x f := fun s => match x s with
    | none => none
    | some (a, s') => f a s'

/-- What a run reads of the state. -/
def gets (f : σ → α) : Prog σ α := fun s => some (f s, s)

/-- An assignment. -/
def modify (f : σ → σ) : Prog σ Unit := fun s => some ((), f s)

/-- A loop out of fuel. -/
def noFuel : Prog σ α := fun _ => none

@[simp] theorem pure_apply (a : α) (s : σ) : (pure a : Prog σ α) s = some (a, s) := rfl
@[simp] theorem gets_apply (f : σ → α) (s : σ) : gets f s = some (f s, s) := rfl
@[simp] theorem modify_apply (f : σ → σ) (s : σ) : modify f s = some ((), f s) := rfl
@[simp] theorem noFuel_apply (s : σ) : (noFuel : Prog σ α) s = none := rfl

theorem bind_apply (x : Prog σ α) (f : α → Prog σ β) (s : σ) :
    (x >>= f) s = (x s).bind fun p => f p.1 p.2 := by
  show (match x s with | none => none | some (a, s') => f a s') = _
  cases x s <;> rfl

/-- A bind whose first part returns goes on from the state it leaves. -/
theorem bind_some {x : Prog σ α} {f : α → Prog σ β} {s s' : σ} {a : α} (h : x s = some (a, s')) :
    (x >>= f) s = f a s' := by
  rw [bind_apply, h]
  rfl

@[simp] theorem gets_bind (g : σ → α) (f : α → Prog σ β) (s : σ) : (gets g >>= f) s = f (g s) s := rfl

@[simp] theorem modify_bind (g : σ → σ) (f : Unit → Prog σ β) (s : σ) : (modify g >>= f) s = f () (g s) := rfl

@[simp] theorem pure_bind_apply (a : α) (f : α → Prog σ β) (s : σ) : ((pure a : Prog σ α) >>= f) s = f a s := rfl

/-- A bind returned: so did its first part, and the rest from there. -/
theorem bind_eq_some {x : Prog σ α} {f : α → Prog σ β} {s : σ} {r : β × σ} :
    (x >>= f) s = some r ↔ ∃ a s', x s = some (a, s') ∧ f a s' = some r := by
  rw [bind_apply, Option.bind_eq_some_iff]
  constructor
  · rintro ⟨⟨a, s'⟩, h1, h2⟩
    exact ⟨a, s', h1, h2⟩
  · rintro ⟨a, s', h1, h2⟩
    exact ⟨(a, s'), h1, h2⟩

/-! ## Runs -/

/-- The steps `step i` for the `i` of a list, in order. -/
def runAll (step : ι → Prog σ Unit) : List ι → Prog σ Unit
  | [] => pure ()
  | i :: is => do
    step i
    runAll step is

theorem runAll_cons (step : ι → Prog σ Unit) (i : ι) (is : List ι) (s : σ) :
    runAll step (i :: is) s = (step i s).bind fun p => runAll step is p.2 := by
  rw [runAll, bind_apply]

theorem runAll_append (step : ι → Prog σ Unit) (is js : List ι) (s : σ) :
    runAll step (is ++ js) s = (runAll step is s).bind fun p => runAll step js p.2 := by
  induction is generalizing s with
  | nil => rfl
  | cons i is ih =>
    rw [List.cons_append, runAll_cons, runAll_cons, Option.bind_assoc]
    exact Option.bind_congr fun p _ => ih p.2

/-- An invariant every step of a list keeps, a run of it keeps. -/
theorem runAll_keeps {step : ι → Prog σ Unit} {I : σ → Prop} {is : List ι}
    (h : ∀ i ∈ is, ∀ s s', I s → step i s = some ((), s') → I s') {s s' : σ} (hrun : runAll step is s = some ((), s'))
    (hs : I s) : I s' := by
  induction is generalizing s with
  | nil =>
    cases hrun
    exact hs
  | cons i is ih =>
    rw [runAll_cons, Option.bind_eq_some_iff] at hrun
    obtain ⟨⟨_, s₁⟩, h1, h2⟩ := hrun
    exact ih (fun j hj => h j (List.mem_cons_of_mem _ hj)) h2 (h i (by simp) s s₁ hs h1)

/-- An invariant every step keeps, and every step returns from it: then every
run returns and keeps it. -/
theorem runAll_total {step : ι → Prog σ Unit} {I : σ → Prop}
    (h : ∀ i s, I s → ∃ s', step i s = some ((), s') ∧ I s') (is : List ι) {s : σ} (hs : I s) :
    ∃ s', runAll step is s = some ((), s') ∧ I s' := by
  induction is generalizing s with
  | nil => exact ⟨s, rfl, hs⟩
  | cons i is ih =>
    obtain ⟨s₁, h1, hI⟩ := h i s hs
    obtain ⟨s₂, h2, hI'⟩ := ih hI
    exact ⟨s₂, by rw [runAll_cons, h1]; exact h2, hI'⟩

/-- A run each step of which meets a condition on the state before it. -/
inductive GuardedRun (step : ι → Prog σ Unit) (ok : ι → σ → Prop) : σ → σ → Prop
  | nil {s : σ} : GuardedRun step ok s s
  | cons {i : ι} {s s₁ s' : σ} : ok i s → step i s = some ((), s₁) → GuardedRun step ok s₁ s' → GuardedRun step ok s s'

/-- An invariant every step keeps where it meets its condition. -/
theorem GuardedRun.keeps {step : ι → Prog σ Unit} {ok : ι → σ → Prop} {I : σ → Prop} {s s' : σ}
    (h : GuardedRun step ok s s') (hstep : ∀ i s s', I s → ok i s → step i s = some ((), s') → I s') (hs : I s) :
    I s' := by
  induction h with
  | nil => exact hs
  | cons hok hrun _ ih => exact ih (hstep _ _ _ hs hok hrun)

/-! ## Updates a run does not see -/

/-- A program that does the same before and after an update of the state. -/
def Commutes (g : σ → σ) (p : Prog σ α) : Prop := ∀ s, p (g s) = (p s).map fun r => (r.1, g r.2)

variable {g : σ → σ} {p : Prog σ α}

theorem Commutes.pure (a : α) : Commutes g (pure a : Prog σ α) := fun _ => rfl

theorem Commutes.noFuel : Commutes g (Prog.noFuel : Prog σ α) := fun _ => rfl

theorem Commutes.modify {f : σ → σ} (h : ∀ s, f (g s) = g (f s)) : Commutes g (Prog.modify f) := by
  intro s
  rw [modify_apply, modify_apply, h]
  rfl

theorem Commutes.bind {f : α → Prog σ β} (hp : Commutes g p) (hf : ∀ a, Commutes g (f a)) : Commutes g (p >>= f) := by
  intro s
  rw [bind_apply, bind_apply, hp s]
  cases p s with
  | none => rfl
  | some r => exact hf r.1 r.2

/-- Reading what the update leaves as it is. -/
theorem Commutes.reads {k : σ → α} {f : α → Prog σ β} (hk : ∀ s, f (k (g s)) = f (k s)) (hf : ∀ a, Commutes g (f a)) :
    Commutes g (gets k >>= f) := by
  intro s
  rw [gets_bind, gets_bind, hk s]
  exact hf (k s) s

theorem Commutes.ite {c : Prop} [Decidable c] {q : Prog σ α} (hp : Commutes g p) (hq : Commutes g q) :
    Commutes g (if c then p else q) := by
  split
  · exact hp
  · exact hq

theorem Commutes.some (hp : Commutes g p) {s s' : σ} {a : α} (h : p s = some (a, s')) : p (g s) = some (a, g s') := by
  rw [hp s, h]
  rfl

end Prog
