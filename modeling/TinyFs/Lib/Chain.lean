/-
Doubly linked chains in a memory of numbered cells. A cell is read through two
functions, its successor and its predecessor; `Linked m p c q` says that the
cells `c` follow one another, the first one pointing back to `p` and the last
one on to `q`. The lemmas take a chain apart at any cell and carry it over a
store, so an edit of a chain is proved at the cells it touches.
-/
import Mathlib.Data.List.Basic
import Mathlib.Logic.Function.Basic

namespace Chains

variable {β : Type} {next prev : β → Nat} {m m' : Nat → β}

/-- The cells `c`, linked both ways, after `p` and before `q`. -/
def Linked (next prev : β → Nat) (m : Nat → β) : Nat → List Nat → Nat → Prop
  | _, [], _ => True
  | p, b :: c, q => prev (m b) = p ∧ next (m b) = c.headD q ∧ Linked next prev m b c q

@[simp] theorem linked_nil (p q : Nat) : Linked next prev m p [] q := trivial

theorem linked_cons {p b q : Nat} {c : List Nat} :
    Linked next prev m p (b :: c) q ↔
      prev (m b) = p ∧ next (m b) = c.headD q ∧ Linked next prev m b c q := Iff.rfl

theorem headD_append (c d : List Nat) (q : Nat) : (c ++ d).headD q = c.headD (d.headD q) := by
  cases c <;> rfl

/-- A chain is its two parts, each seeing the other's end. -/
theorem linked_append {p q : Nat} {c d : List Nat} :
    Linked next prev m p (c ++ d) q ↔
      Linked next prev m p c (d.headD q) ∧ Linked next prev m (c.getLastD p) d q := by
  induction c generalizing p with
  | nil => simp
  | cons b c ih =>
    rw [List.cons_append, linked_cons, linked_cons, ih, headD_append, List.getLastD_cons]
    constructor
    · rintro ⟨h1, h2, h3, h4⟩; exact ⟨⟨h1, h2, h3⟩, h4⟩
    · rintro ⟨⟨h1, h2, h3⟩, h4⟩; exact ⟨h1, h2, h3, h4⟩

/-- A chain reads only the links of its cells. -/
theorem Linked.congr {p q : Nat} {c : List Nat} (h : Linked next prev m p c q)
    (hn : ∀ b ∈ c, next (m' b) = next (m b)) (hp : ∀ b ∈ c, prev (m' b) = prev (m b)) :
    Linked next prev m' p c q := by
  induction c generalizing p with
  | nil => trivial
  | cons b c ih =>
    obtain ⟨h1, h2, h3⟩ := h
    refine ⟨by rw [hp b (by simp), h1], by rw [hn b (by simp), h2], ih h3 ?_ ?_⟩
    · exact fun x hx => hn x (by simp [hx])
    · exact fun x hx => hp x (by simp [hx])

/-- A store into a cell that is not in the chain. -/
theorem Linked.update_notMem {p q b : Nat} {c : List Nat} (h : Linked next prev m p c q) (hb : b ∉ c) (v : β) :
    Linked next prev (Function.update m b v) p c q := by
  refine h.congr ?_ ?_ <;>
  · intro x hx
    rw [Function.update_of_ne (ne_of_mem_of_not_mem hx hb)]

/-- A store that keeps the links of its cell. -/
theorem Linked.update_links {p q b : Nat} {c : List Nat} (h : Linked next prev m p c q) {v : β}
    (hn : next v = next (m b)) (hp : prev v = prev (m b)) :
    Linked next prev (Function.update m b v) p c q := by
  refine h.congr ?_ ?_ <;>
  · intro x _
    by_cases hx : x = b
    · subst hx
      rw [Function.update_self]
      assumption
    · rw [Function.update_of_ne hx]

/-- The successor of a cell of a chain. -/
theorem Linked.next_getD {p k : Nat} {c : List Nat} (h : Linked next prev m p c 0) (hk : k < c.length) :
    next (m (c.getD k 0)) = c.getD (k + 1) 0 := by
  induction c generalizing p k with
  | nil => simp at hk
  | cons b c ih =>
    obtain ⟨-, h2, h3⟩ := h
    cases k with
    | zero =>
      rw [List.getD_cons_zero, h2, List.getD_cons_succ]
      cases c <;> rfl
    | succ k => exact ih h3 (by simpa using hk)

/-- The predecessor of a cell but the first. -/
theorem Linked.prev_getD {p q k : Nat} {c : List Nat} (h : Linked next prev m p c q) (hk : k + 1 < c.length) :
    prev (m (c.getD (k + 1) 0)) = c.getD k 0 := by
  induction c generalizing p k with
  | nil => simp at hk
  | cons b c ih =>
    obtain ⟨-, -, h3⟩ := h
    cases k with
    | zero =>
      cases c with
      | nil => simp at hk
      | cons a c => exact h3.1
    | succ k => exact ih h3 (by simpa using hk)

/-- A cell stored behind the last one of a chain. -/
theorem Linked.snoc {p q z : Nat} {c : List Nat} {v : β} (h : Linked next prev m p c z) (hz : z ∉ c)
    (hp : prev v = c.getLastD p) (hn : next v = q) : Linked next prev (Function.update m z v) p (c ++ [z]) q := by
  rw [linked_append]
  refine ⟨h.update_notMem hz v, ?_, ?_, trivial⟩
  · rw [Function.update_self, hp]
  · rw [Function.update_self, hn]
    rfl

end Chains
