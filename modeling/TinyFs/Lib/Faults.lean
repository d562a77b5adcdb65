/-
Programs on hardware that may fault. The state counts the requests made to the
hardware, some of which fault, and may tell of a fault. `Honest p p'` relates a
program on that hardware to the same program on hardware without faults: as long
as no request faults they do the same, and a run of `p` that ends without telling
of a fault has met none. Runs are taken from the states with `pre`, so that a part
that may only be entered with no fault told can be used where that is so.
-/
import TinyFs.Lib.Prog

namespace Prog

/-- How the states of a program tell of its hardware: the requests made so far, which
of them fault, and whether a fault is told of. -/
structure Faults (σ : Type) where
  count : σ → Nat
  faulty : Nat → Prop
  told : σ → Prop

variable {σ α β : Type} {F : Faults σ} {pre : σ → Prop} {s s₁ s' : σ} {p p' q q' : Prog σ α}

/-- No request between two states faults. -/
def Faults.Clean (F : Faults σ) (s s' : σ) : Prop := ∀ j, F.count s ≤ j → j < F.count s' → ¬ F.faulty j

theorem Faults.Clean.of_eq (h : F.count s' = F.count s) : F.Clean s s' := fun j hj hj' => by omega

theorem Faults.Clean.trans (h : F.Clean s s₁) (h' : F.Clean s₁ s') : F.Clean s s' := by
  intro j hj hj'
  by_cases hlt : j < F.count s₁
  · exact h j hj hlt
  · exact h' j (by omega) hj'

structure Honest (F : Faults σ) (pre : σ → Prop) (p p' : Prog σ α) : Prop where
  later : ∀ {s a s'}, pre s → p' s = some (a, s') → F.count s ≤ F.count s'
  same : ∀ {s a s'}, pre s → p' s = some (a, s') → F.Clean s s' → p s = some (a, s')
  tells : ∀ {s a s'}, pre s → p s = some (a, s') → ¬ F.told s' → ¬ F.told s ∧ F.Clean s s' ∧ p' s = some (a, s')

/-- A run ends without telling of a fault exactly if the run without faults does and meets none. -/
theorem Honest.run_iff (h : Honest F pre p p') {a : α} (hs : pre s) :
    p s = some (a, s') ∧ ¬ F.told s' ↔ p' s = some (a, s') ∧ ¬ F.told s' ∧ F.Clean s s' := by
  constructor
  · rintro ⟨hrun, hno⟩
    obtain ⟨-, hclean, hrun'⟩ := h.tells hs hrun hno
    exact ⟨hrun', hno, hclean⟩
  · rintro ⟨hrun, hno, hclean⟩
    exact ⟨h.same hs hrun hclean, hno⟩

theorem Honest.mono {pre' : σ → Prop} (h : Honest F pre p p') (hpre : ∀ s, pre' s → pre s) : Honest F pre' p p' :=
  ⟨fun hs => h.later (hpre _ hs), fun hs => h.same (hpre _ hs), fun hs => h.tells (hpre _ hs)⟩

/-- Used where nothing is known of the state. -/
abbrev Honest.Any (F : Faults σ) (p p' : Prog σ α) : Prop := Honest F (fun _ => True) p p'

theorem Honest.Any.at (h : Honest.Any F p p') : Honest F pre p p' := h.mono fun _ _ => trivial

/-- A part that makes no request, and hides no fault. -/
theorem Honest.quiet (h : ∀ s a s', pre s → p s = some (a, s') → F.count s' = F.count s ∧ (F.told s → F.told s')) :
    Honest F pre p p where
  later hs hrun := Nat.le_of_eq (h _ _ _ hs hrun).1.symm
  same _ hrun _ := hrun
  tells hs hrun hno := ⟨fun htold => hno ((h _ _ _ hs hrun).2 htold), .of_eq (h _ _ _ hs hrun).1, hrun⟩

theorem Honest.pure (a : α) : Honest F pre (pure a : Prog σ α) (Pure.pure a) := .quiet fun s b s' _ h => by
  cases h
  exact ⟨rfl, id⟩

theorem Honest.noFuel : Honest F pre (Prog.noFuel : Prog σ α) Prog.noFuel := .quiet fun s a s' _ h => by cases h

theorem Honest.modify {f : σ → σ} (h : ∀ s, pre s → F.count (f s) = F.count s ∧ (F.told s → F.told (f s))) :
    Honest F pre (Prog.modify f) (Prog.modify f) := .quiet fun s a s' hs hrun => by
  cases hrun
  exact h s hs

/-- What comes after the first part is entered with what holds there. -/
theorem Honest.bind_post (mid : α → σ → Prop) {f f' : α → Prog σ β} (hp : Honest F pre p p')
    (hmid : ∀ {s a s₁}, pre s → p s = some (a, s₁) → mid a s₁) (hmid' : ∀ {s a s₁}, pre s → p' s = some (a, s₁) →
    mid a s₁)
    (hf : ∀ a, Honest F (mid a) (f a) (f' a)) : Honest F pre (p >>= f) (p' >>= f') where
  later hs hrun := by
    obtain ⟨a, s₁, h1, h2⟩ := bind_eq_some.mp hrun
    exact Nat.le_trans (hp.later hs h1) ((hf a).later (hmid' hs h1) h2)
  same hs hrun hclean := by
    obtain ⟨a, s₁, h1, h2⟩ := bind_eq_some.mp hrun
    have hle := hp.later hs h1
    have hle' := (hf a).later (hmid' hs h1) h2
    rw [bind_some (hp.same hs h1 fun j hj hj' => hclean j hj (by omega))]
    exact (hf a).same (hmid' hs h1) h2 fun j hj hj' => hclean j (by omega) hj'
  tells hs hrun hno := by
    obtain ⟨a, s₁, h1, h2⟩ := bind_eq_some.mp hrun
    obtain ⟨hno₁, hclean₁, h2'⟩ := (hf a).tells (hmid hs h1) h2 hno
    obtain ⟨hno₀, hclean₀, h1'⟩ := hp.tells hs h1 hno₁
    exact ⟨hno₀, hclean₀.trans hclean₁, by rw [bind_some h1', h2']⟩

theorem Honest.bind {f f' : α → Prog σ β} (hp : Honest F pre p p') (hf : ∀ a, Honest.Any F (f a) (f' a)) :
    Honest F pre (p >>= f) (p' >>= f') := hp.bind_post (fun _ _ => True) (fun _ _ => trivial) (fun _ _ => trivial) hf

/-- What is known of the state is known of what is read from it, too. -/
theorem Honest.reads {g : σ → α} {f f' : α → Prog σ β} (h : ∀ s, Honest F (fun t => pre t ∧ t = s) (f (g s)) (f' (g s))) :
    Honest F pre (gets g >>= f) (gets g >>= f') where
  later hs hrun := (h _).later ⟨hs, rfl⟩ hrun
  same hs hrun hclean := (h _).same ⟨hs, rfl⟩ hrun hclean
  tells hs hrun hno := (h _).tells ⟨hs, rfl⟩ hrun hno

theorem Honest.gets {g : σ → α} {f f' : α → Prog σ β} (h : ∀ a, Honest F pre (f a) (f' a)) :
    Honest F pre (gets g >>= f) (gets g >>= f') := .reads fun s => (h (g s)).mono fun _ ht => ht.1

/-- An assignment that leaves the hardware, and what is known, alone. -/
theorem Honest.modify_bind {g : σ → σ} {f f' : Unit → Prog σ β} (hcount : ∀ s, F.count (g s) = F.count s)
    (htold : ∀ s, F.told s → F.told (g s)) (hpre : ∀ s, pre s → pre (g s)) (h : Honest F pre (f ()) (f' ())) :
    Honest F pre (Prog.modify g >>= f) (Prog.modify g >>= f') := by
  refine (Honest.modify fun s _ => ⟨hcount s, htold s⟩).bind_post (fun _ => pre) ?_ ?_ fun _ => h
  · intro s a s₁ hs hrun
    cases hrun
    exact hpre s hs
  · intro s a s₁ hs hrun
    cases hrun
    exact hpre s hs

theorem Honest.ite {c : Prop} [Decidable c] (hp : Honest F pre p p') (hq : Honest F pre q q') :
    Honest F pre (if c then p else q) (if c then p' else q') := by
  by_cases h : c
  · rw [if_pos h, if_pos h]
    exact hp
  · rw [if_neg h, if_neg h]
    exact hq

end Prog
