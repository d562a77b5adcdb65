/-
Programs made of small steps. `Steps R p` says that every run of `p` that
returns is a sequence of `R` steps; the rules follow the constructs of a
program, and a loop is made of the steps of one iteration, by induction on its
fuel. What each step keeps or adds, a whole run does.
-/
import Mathlib.Logic.Relation
import TinyFs.Lib.Prog

namespace Prog

open Relation

variable {σ α β : Type} {R R' : σ → σ → Prop} {p : Prog σ α} {f : α → Prog σ β}

/-- Every run that returns is a sequence of `R` steps. -/
def Steps (R : σ → σ → Prop) (p : Prog σ α) : Prop := ∀ ⦃s a s'⦄, p s = some (a, s') → ReflTransGen R s s'

theorem Steps.pure (a : α) : Steps R (pure a : Prog σ α) := by
  intro s b s' h
  cases h
  exact .refl

theorem Steps.gets (g : σ → α) : Steps R (Prog.gets g) := by
  intro s b s' h
  cases h
  exact .refl

theorem Steps.noFuel : Steps R (Prog.noFuel : Prog σ α) := by
  intro s a s' h
  cases h

theorem Steps.modify {g : σ → σ} (h : ∀ s, R s (g s)) : Steps R (Prog.modify g) := by
  intro s a s' hrun
  cases hrun
  exact .single (h s)

theorem Steps.bind (hp : Steps R p) (hf : ∀ a, Steps R (f a)) : Steps R (p >>= f) := by
  intro s b s' h
  obtain ⟨a, s₁, h1, h2⟩ := bind_eq_some.mp h
  exact (hp h1).trans (hf a h2)

theorem Steps.ite {c : Prop} [Decidable c] {q : Prog σ α} (hp : c → Steps R p) (hq : ¬ c → Steps R q) :
    Steps R (if c then p else q) := by
  by_cases h : c
  · rw [if_pos h]
    exact hp h
  · rw [if_neg h]
    exact hq h

/-- An optional first part, and then the rest. -/
theorem Steps.guard {c : Prop} [Decidable c] {p : Prog σ Unit} {f : Unit → Prog σ β} (hp : c → Steps R p)
    (hf : ∀ a, Steps R (f a)) : Steps R (if c then p >>= f else f ()) :=
  .ite (fun h => (hp h).bind hf) fun _ => hf ()

/-- The same for a first part of two statements. -/
theorem Steps.guard₂ {γ : Type} {c : Prop} [Decidable c] {p : Prog σ γ} {q : γ → Prog σ Unit} {f : Unit → Prog σ β}
    (hp : c → Steps R p) (hq : ∀ a, Steps R (q a)) (hf : ∀ a, Steps R (f a)) :
    Steps R (if c then p >>= fun a => q a >>= f else f ()) :=
  .ite (fun h => (hp h).bind fun a => (hq a).bind hf) fun _ => hf ()

theorem Steps.mono (h : ∀ s s', R s s' → R' s s') (hp : Steps R p) : Steps R' p :=
  fun _ _ _ hrun => ReflTransGen.mono h _ _ (hp hrun)

/-- What holds of a state and itself, and goes on along a step, holds from the
start of a run to its end. -/
theorem Steps.lift {Q : σ → σ → Prop} (hp : Steps R p) (hrefl : ∀ s, Q s s)
    (hstep : ∀ s s₁ s₂, Q s s₁ → R s₁ s₂ → Q s s₂) {s s' : σ} {a : α} (h : p s = some (a, s')) : Q s s' := by
  have hrun := hp h
  clear h
  induction hrun with
  | refl => exact hrefl s
  | tail _ h2 ih => exact hstep s _ _ ih h2

end Prog
