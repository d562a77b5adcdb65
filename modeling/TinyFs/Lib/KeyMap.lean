/-
A list of rows with distinct keys read as a finite map. The map of a list is the
function that finds the first row with a key; the lemmas say what a row added,
taken out or exchanged anywhere in the list does to it.
-/
import Mathlib.Data.List.Nodup
import Mathlib.Logic.Function.Basic

namespace KeyMap

variable {α κ β : Type} {key : α → κ} {val : α → β} {A B xs : List α} {x y : α} {k : κ}

/-! ## Distinct keys -/

/-- No two rows have the same key. -/
def Distinct (key : α → κ) (xs : List α) : Prop := (xs.map key).Nodup

theorem Distinct.insert (h : Distinct key (A ++ B)) (hx : ∀ y ∈ A ++ B, key y ≠ key x) : Distinct key (A ++ x :: B) := by
  have hp : ((A ++ x :: B).map key).Perm (key x :: (A ++ B).map key) := by
    rw [← List.map_cons]
    exact List.perm_middle.map key
  refine hp.nodup_iff.mpr (List.nodup_cons.mpr ⟨fun hmem => ?_, h⟩)
  obtain ⟨y, hy, hyx⟩ := List.mem_map.mp hmem
  exact hx y hy hyx

theorem Distinct.ne (h : Distinct key (A ++ x :: B)) : ∀ y ∈ A ++ B, key y ≠ key x := by
  have hp : ((A ++ x :: B).map key).Perm (key x :: (A ++ B).map key) := by
    rw [← List.map_cons]
    exact List.perm_middle.map key
  intro y hy heq
  exact (List.nodup_cons.mp (hp.nodup_iff.mp h)).1 (List.mem_map.mpr ⟨y, hy, heq⟩)

theorem Distinct.erase (h : Distinct key (A ++ x :: B)) : Distinct key (A ++ B) := by
  rw [Distinct, List.map_append, List.map_cons] at h
  rw [Distinct, List.map_append]
  exact (List.nodup_middle.mp h).of_cons

/-! ## The map -/

variable [DecidableEq κ]

/-- The value of the first row with the key. -/
def toMap (key : α → κ) (val : α → β) (xs : List α) (k : κ) : Option β := (xs.find? fun x => key x = k).map val

theorem toMap_eq_none : toMap key val xs k = none ↔ ∀ x ∈ xs, key x ≠ k := by
  simp [toMap, List.find?_eq_none]

/-- The map is finite: its keys are those of the rows. -/
theorem toMap_isSome : (toMap key val xs k).isSome ↔ k ∈ xs.map key := by
  rw [Option.isSome_iff_ne_none, ne_eq, toMap_eq_none]
  simp

/-- A value comes from a row. -/
theorem toMap_mem {v : β} (h : toMap key val xs k = some v) : ∃ x ∈ xs, key x = k ∧ val x = v := by
  obtain ⟨x, hx, rfl⟩ := Option.map_eq_some_iff.mp h
  exact ⟨x, List.mem_of_find?_eq_some hx, by simpa using List.find?_some hx, rfl⟩

/-- The values of the rows are all that counts. -/
theorem toMap_congr {val' : α → β} (h : ∀ x ∈ xs, val' x = val x) : toMap key val' xs = toMap key val xs := by
  funext k
  rw [toMap, toMap]
  rcases hx : xs.find? fun x => key x = k with - | x
  · rfl
  · rw [Option.map_some, Option.map_some, h x (List.mem_of_find?_eq_some hx)]

theorem toMap_append : toMap key val (A ++ B) k = (toMap key val A k).or (toMap key val B k) := by
  rw [toMap, List.find?_append, toMap, toMap]
  cases A.find? fun x => key x = k <;> rfl

theorem toMap_cons_self : toMap key val (x :: B) (key x) = some (val x) := by
  simp [toMap]

theorem toMap_cons_ne (h : key x ≠ k) : toMap key val (x :: B) k = toMap key val B k := by
  simp [toMap, h]

/-- The first row with its key. -/
theorem toMap_hit (h : ∀ y ∈ A, key y ≠ key x) : toMap key val (A ++ x :: B) (key x) = some (val x) := by
  rw [toMap_append, toMap_eq_none.mpr h, Option.none_or, toMap_cons_self]

/-- With distinct keys, any row with the key will do. -/
theorem Distinct.toMap_eq {v : β} (h : Distinct key xs) : toMap key val xs k = some v ↔ ∃ x ∈ xs, key x = k ∧
    val x = v := by
  refine ⟨toMap_mem, ?_⟩
  rintro ⟨x, hx, rfl, rfl⟩
  obtain ⟨A, B, rfl⟩ := List.append_of_mem hx
  exact toMap_hit fun y hy => h.ne y (List.mem_append_left _ hy)

/-- A row added. -/
theorem toMap_insert (h : ∀ y ∈ A, key y ≠ key x) :
    toMap key val (A ++ x :: B) = Function.update (toMap key val (A ++ B)) (key x) (some (val x)) := by
  funext k
  by_cases hk : k = key x
  · subst hk
    rw [Function.update_self, toMap_hit h]
  · rw [Function.update_of_ne hk, toMap_append, toMap_append, toMap_cons_ne (Ne.symm hk)]

/-- A row taken out. -/
theorem toMap_erase (h : Distinct key (A ++ x :: B)) :
    toMap key val (A ++ B) = Function.update (toMap key val (A ++ x :: B)) (key x) none := by
  funext k
  by_cases hk : k = key x
  · subst hk
    rw [Function.update_self, toMap_eq_none]
    exact h.ne
  · rw [Function.update_of_ne hk, toMap_append, toMap_append, toMap_cons_ne (Ne.symm hk)]

/-- A row exchanged for one with the same key. -/
theorem toMap_replace (h : ∀ z ∈ A, key z ≠ key x) (hy : key y = key x) :
    toMap key val (A ++ y :: B) = Function.update (toMap key val (A ++ x :: B)) (key x) (some (val y)) := by
  rw [toMap_insert (x := y) (fun z hz => hy ▸ h z hz), toMap_insert h, hy, Function.update_idem]

end KeyMap
