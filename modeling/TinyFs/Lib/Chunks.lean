/-
An array kept in chunks of `m` cells each. The array is a function on all
positions, with a fixed value behind the last chunk, so a chunk of that value
added at the end changes nothing; a store into one chunk overwrites a range of the
array, and adjacent ranges are one.
-/
import Mathlib.Data.List.Basic

namespace Chunks

variable {ι α : Type} {m : Nat} {z : α} {read read' : ι → Nat → α} {c d r : List ι} {b : ι} {g : Nat → α}
  {f f' : Nat → α} {o p len len' : Nat}

/-- The array the chunks `l` hold. -/
def content (m : Nat) (z : α) (read : ι → Nat → α) (l : List ι) (p : Nat) : α :=
  match l[p / m]? with
  | some b => read b (p % m)
  | none => z

/-- The array with `len` values from `o` on replaced. -/
def overwrite (g : Nat → α) (o : Nat) (f : Nat → α) (len : Nat) (p : Nat) : α :=
  if o ≤ p ∧ p < o + len then f (p - o) else g p

theorem content_of_le (hm : 0 < m) (h : m * c.length ≤ p) : content m z read c p = z := by
  have hle : c.length ≤ p / m := (Nat.le_div_iff_mul_le hm).mpr (by rwa [Nat.mul_comm])
  rw [content, List.getElem?_eq_none hle]

theorem content_of_lt {l : List ι} (h : p / m < l.length) : content m z read l p = read l[p / m] (p % m) := by
  rw [content, List.getElem?_eq_getElem h]

/-- The array reads only the cells of its chunks. -/
theorem content_congr {l : List ι} (hm : 0 < m) (h : ∀ b ∈ l, ∀ k < m, read' b k = read b k) :
    content m z read' l = content m z read l := by
  funext p
  rw [content, content]
  cases hb : l[p / m]? with
  | none => rfl
  | some b => exact h b (List.mem_of_getElem? hb) _ (Nat.mod_lt _ hm)

/-- A chunk of the value behind the end. -/
theorem content_snoc (hm : 0 < m) (h : ∀ k < m, read b k = z) : content m z read (c ++ [b]) = content m z read c := by
  funext p
  rw [content, content]
  by_cases hlt : p / m < c.length
  · rw [List.getElem?_append_left hlt]
  · rw [List.getElem?_append_right (by omega), List.getElem?_eq_none (l := c) (by omega)]
    cases hk : p / m - c.length with
    | zero => exact h _ (Nat.mod_lt _ hm)
    | succ k => rfl

/-- A store into the chunk behind `d`. -/
theorem content_store (hm : 0 < m) (hd : b ∉ d) (hr : b ∉ r) (hb : ∀ k < m, read' b k = overwrite (read b) o f len k)
    (hsame : ∀ x, x ≠ b → read' x = read x) (hlen : o + len ≤ m) :
    content m z read' (d ++ b :: r) = overwrite (content m z read (d ++ b :: r)) (m * d.length + o) f len := by
  funext p
  have hmod := Nat.mod_lt p hm
  have hdiv := Nat.div_add_mod p m
  rw [overwrite, content, content]
  by_cases hidx : p / m = d.length
  · rw [hidx, List.getElem?_append_right (Nat.le_refl _), Nat.sub_self, List.getElem?_cons_zero]
    rw [hidx] at hdiv
    show read' b (p % m) = if _ then _ else read b (p % m)
    rw [hb _ hmod, overwrite]
    by_cases hin : o ≤ p % m ∧ p % m < o + len
    · rw [if_pos hin, if_pos (by omega)]
      congr 1
      omega
    · rw [if_neg hin, if_neg (by omega)]
  · have hout : ¬ (m * d.length + o ≤ p ∧ p < m * d.length + o + len) := by
      intro hin
      have hlo : d.length ≤ p / m := (Nat.le_div_iff_mul_le hm).mpr (by rw [Nat.mul_comm]; omega)
      have hhi : p / m < d.length + 1 := (Nat.div_lt_iff_lt_mul hm).mpr (by rw [Nat.mul_comm, Nat.mul_succ]; omega)
      omega
    rw [if_neg hout]
    cases hx : (d ++ b :: r)[p / m]? with
    | none => rfl
    | some x =>
      have hne : x ≠ b := by
        intro hxb
        subst hxb
        by_cases hlt : p / m < d.length
        · rw [List.getElem?_append_left hlt] at hx
          exact hd (List.mem_of_getElem? hx)
        · rw [List.getElem?_append_right (by omega)] at hx
          obtain ⟨k, hk⟩ : ∃ k, p / m - d.length = k + 1 := ⟨p / m - d.length - 1, by omega⟩
          rw [hk, List.getElem?_cons_succ] at hx
          exact hr (List.mem_of_getElem? hx)
      exact congrFun (hsame x hne) _

/-! ## Overwriting -/

theorem overwrite_zero (g : Nat → α) (o : Nat) (f : Nat → α) : overwrite g o f 0 = g := by
  funext p
  rw [overwrite, if_neg (by omega)]

/-- Two ranges side by side. -/
theorem overwrite_overwrite : overwrite (overwrite g o f len) (o + len) (fun k => f (len + k)) len' =
    overwrite g o f (len + len') := by
  funext p
  rw [overwrite, overwrite, overwrite]
  by_cases h1 : o + len ≤ p ∧ p < o + len + len'
  · rw [if_pos h1, if_pos (by omega)]
    congr 1
    omega
  · rw [if_neg h1]
    by_cases h2 : o ≤ p ∧ p < o + len
    · rw [if_pos h2, if_pos (by omega)]
    · rw [if_neg h2, if_neg (by omega)]

theorem overwrite_in (h1 : o ≤ p) (h2 : p < o + len) : overwrite g o f len p = f (p - o) := if_pos ⟨h1, h2⟩

theorem overwrite_out (h : p < o ∨ o + len ≤ p) : overwrite g o f len p = g p := if_neg (by omega)

end Chunks
