/-
Trees of names. A tree says what each path from its root leads to. Directories
that know only their own entries span such a tree, and an edit of one of them is
an edit of the tree below its path: the part there is replaced, the rest stays.
-/
import Mathlib.Data.List.Infix
import Mathlib.Logic.Function.Basic

namespace NameTree

variable {κ ν β : Type}

/-- What a path leads to. -/
inductive Node (ν : Type)
  | dir
  | leaf (v : ν)

/-- What each path leads to, if to anything. -/
abbrev Tree (κ ν : Type) := List κ → Option (Node ν)

/-- Nothing at all. -/
def Tree.none : Tree κ ν := fun _ => Option.none

/-- A single leaf. -/
def Tree.leaf (v : ν) : Tree κ ν
  | [] => some (.leaf v)
  | _ :: _ => Option.none

/-- A directory without entries. -/
def Tree.emptyDir : Tree κ ν
  | [] => some .dir
  | _ :: _ => Option.none

/-- The part of a tree at a path. -/
def Tree.below (T : Tree κ ν) (p : List κ) : Tree κ ν := fun q => T (p ++ q)

/-- The tree with what is at a path replaced. -/
def Tree.graft [DecidableEq κ] (T : Tree κ ν) (p : List κ) (U : Tree κ ν) : Tree κ ν := fun q =>
  if p <+: q then U (q.drop p.length) else T q

theorem Tree.below_append (T : Tree κ ν) (p q : List κ) : (T.below p).below q = T.below (p ++ q) := by
  funext r
  rw [below, below, below, List.append_assoc]

section Graft

variable [DecidableEq κ] {T U V : Tree κ ν} {p q : List κ} {k j : κ}

theorem Tree.graft_below (T U : Tree κ ν) (p r : List κ) : T.graft p U (p ++ r) = U r := by
  rw [graft, if_pos (List.prefix_append p r), List.drop_left]

theorem Tree.graft_off (h : ¬ p <+: q) : T.graft p U q = T q := if_neg h

/-- An edit of the part at a path is an edit of the tree. -/
theorem Tree.graft_graft_below (T U : Tree κ ν) (p q : List κ) :
    T.graft p ((T.below p).graft q U) = T.graft (p ++ q) U := by
  funext r
  by_cases hp : p <+: r
  · obtain ⟨t, rfl⟩ := hp
    rw [graft_below]
    by_cases hq : q <+: t
    · obtain ⟨u, rfl⟩ := hq
      rw [graft_below, ← List.append_assoc, graft_below]
    · rw [graft_off hq, graft_off, below]
      rwa [List.prefix_append_right_inj]
  · rw [graft_off hp, graft_off]
    exact fun h => hp ((List.prefix_append p q).trans h)

/-- What an edit below a path leaves there is not seen by an edit at it. -/
theorem Tree.graft_graft (T U V : Tree κ ν) (p q : List κ) : (T.graft (p ++ q) V).graft p U = T.graft p U := by
  funext r
  by_cases hp : p <+: r
  · obtain ⟨t, rfl⟩ := hp
    rw [graft_below, graft_below]
  · rw [graft_off hp, graft_off hp, graft_off fun h => hp ((List.prefix_append p q).trans h)]

theorem Tree.below_graft (T V : Tree κ ν) (p q : List κ) : (T.graft (p ++ q) V).below p = (T.below p).graft q V := by
  funext r
  rw [below]
  by_cases hq : q <+: r
  · obtain ⟨t, rfl⟩ := hq
    rw [← List.append_assoc, graft_below, graft_below]
  · rw [graft_off hq, graft_off, below]
    rwa [List.prefix_append_right_inj]

/-- The same for two edits. -/
theorem Tree.graft_twice_below (T U V : Tree κ ν) (p q r : List κ) :
    T.graft p (((T.below p).graft q U).graft r V) = (T.graft (p ++ q) U).graft (p ++ r) V := by
  rw [← below_graft, ← graft_graft T _ U p q, graft_graft_below]

/-- An edit of the entry `k` of a directory. -/
theorem Tree.graft_cons (T U : Tree κ ν) (k j : κ) (r : List κ) :
    T.graft [k] U (j :: r) = if j = k then U r else T (j :: r) := by
  by_cases h : j = k
  · subst h
    rw [if_pos rfl]
    exact T.graft_below U [j] r
  · rw [if_neg h, graft_off]
    rintro ⟨t, ht⟩
    exact h (List.cons.inj ht).1.symm

theorem Tree.graft_root (T U : Tree κ ν) (k : κ) : T.graft [k] U [] = T [] :=
  graft_off fun h => List.cons_ne_nil k [] (List.prefix_nil.mp h)

end Graft

/-! ## Directories -/

/-- The entries of the directories: a name stands for a directory or a leaf. -/
abbrev Dirs (β κ ν : Type) := β → κ → Option (β ⊕ ν)

variable {look look' : Dirs β κ ν} {a b c root : β} {k : κ} {p q : List κ}

/-- The directory at the end of a path. -/
def dirAt (look : Dirs β κ ν) : β → List κ → Option β
  | b, [] => some b
  | b, k :: p =>
    match look b k with
    | some (.inl c) => dirAt look c p
    | _ => none

/-- The tree the directories span from one of them on. -/
def span (look : Dirs β κ ν) : β → Tree κ ν
  | _, [] => some .dir
  | b, k :: p =>
    match look b k with
    | none => none
    | some (.inl c) => span look c p
    | some (.inr v) => Tree.leaf v p

/-- The tree of an entry. -/
def entryTree (look : Dirs β κ ν) : Option (β ⊕ ν) → Tree κ ν
  | none => Tree.none
  | some (.inl c) => span look c
  | some (.inr v) => Tree.leaf v

/-- What an entry is in the tree. -/
def entryNode : Option (β ⊕ ν) → Option (Node ν)
  | none => none
  | some (.inl _) => some .dir
  | some (.inr v) => some (.leaf v)

@[simp] theorem entryTree_none : entryTree look none = Tree.none := rfl
@[simp] theorem entryTree_dir (c : β) : entryTree look (some (.inl c)) = span look c := rfl
@[simp] theorem entryTree_leaf (v : ν) : entryTree look (some (.inr v)) = Tree.leaf v := rfl

theorem entryTree_nil (x : Option (β ⊕ ν)) : entryTree look x [] = entryNode x := by
  rcases x with - | (c | v) <;> rfl

theorem span_cons (b : β) (k : κ) (p : List κ) : span look b (k :: p) = entryTree look (look b k) p := by
  rw [span]
  cases look b k with
  | none => rfl
  | some x => cases x <;> rfl

theorem dirAt_cons (h : look b k = some (.inl c)) (p : List κ) : dirAt look b (k :: p) = dirAt look c p := by
  rw [dirAt, h]

theorem dirAt_append (b : β) (p q : List κ) : dirAt look b (p ++ q) = (dirAt look b p).bind fun c => dirAt look c q := by
  induction p generalizing b with
  | nil => rfl
  | cons k p ih =>
    rw [List.cons_append, dirAt, dirAt]
    rcases look b k with - | (c | v)
    · rfl
    · exact ih c
    · rfl

theorem dirAt_snoc : dirAt look a (p ++ [k]) = some c ↔ ∃ b, dirAt look a p = some b ∧ look b k = some (.inl c) := by
  rw [dirAt_append, Option.bind_eq_some_iff]
  refine exists_congr fun b => and_congr_right fun _ => ?_
  rw [dirAt]
  rcases look b k with - | (c' | v) <;> simp [dirAt]

/-- The part of the tree at a directory's path is the directory's own tree. -/
theorem span_below (h : dirAt look a p = some b) : (span look a).below p = span look b := by
  funext q
  show span look a (p ++ q) = span look b q
  induction p generalizing a with
  | nil =>
    cases h
    rfl
  | cons k p ih =>
    rw [dirAt] at h
    rw [List.cons_append, span_cons]
    rcases hx : look a k with - | (c | v)
    · rw [hx] at h
      cases h
    · rw [hx] at h
      exact ih h
    · rw [hx] at h
      cases h

/-- A directory without entries. -/
theorem span_empty (h : look b = fun _ => none) : span look b = Tree.emptyDir := by
  funext p
  cases p with
  | nil => rfl
  | cons k p =>
    rw [span_cons, h]
    rfl

/-- The tree of an entry is the part of the tree at its name. -/
theorem entryTree_below (b : β) (k : κ) : entryTree look (look b k) = (span look b).below [k] := by
  funext p
  show _ = span look b (k :: p)
  rw [span_cons]

/-- A directory in which one entry changed. -/
theorem span_update [DecidableEq κ] {v : Option (β ⊕ ν)} (hk : look' b = Function.update (look b) k v)
    (h : ∀ j ≠ k, ∀ c, look b j = some (.inl c) → span look' c = span look c) :
    span look' b = (span look b).graft [k] (entryTree look' v) := by
  funext p
  cases p with
  | nil => rw [Tree.graft_root, span, span]
  | cons j p =>
    rw [Tree.graft_cons, span_cons, hk]
    by_cases hj : j = k
    · rw [if_pos hj, hj, Function.update_self]
    · rw [if_neg hj, Function.update_of_ne hj, span_cons]
      rcases hx : look b j with - | (c | w)
      · rfl
      · exact congrFun (h j hj c hx) p
      · rfl

/-- A directory in which an entry goes and one comes. -/
theorem span_move [DecidableEq κ] {j : κ} {v : Option (β ⊕ ν)}
    (hk : look' b = Function.update (Function.update (look b) k none) j v)
    (h : ∀ i c, look b i = some (.inl c) → span look' c = span look c) :
    span look' b = ((span look b).graft [k] Tree.none).graft [j] (entryTree look' v) := by
  funext p
  cases p with
  | nil => rw [Tree.graft_root, Tree.graft_root, span, span]
  | cons i p =>
    rw [Tree.graft_cons, Tree.graft_cons, span_cons, hk]
    by_cases hj : i = j
    · rw [if_pos hj, hj, Function.update_self]
    rw [if_neg hj, Function.update_of_ne hj]
    by_cases hi : i = k
    · rw [if_pos hi, hi, Function.update_self]
      rfl
    · rw [if_neg hi, Function.update_of_ne hi, span_cons]
      rcases hx : look b i with - | (c | w)
      · rfl
      · exact congrFun (h i c hx) p
      · rfl

theorem span_eq_dir : span look a p = some .dir ↔ ∃ b, dirAt look a p = some b := by
  induction p generalizing a with
  | nil => simp [span, dirAt]
  | cons k p ih =>
    rw [span_cons, dirAt]
    rcases look a k with - | (c | v)
    · simp [entryTree, Tree.none]
    · exact ih
    · cases p <;> simp [entryTree, Tree.leaf]

/-- What is above a directory is a directory. -/
theorem span_above (h : span look a (p ++ q) = some .dir) : span look a p = some .dir := by
  obtain ⟨c, hc⟩ := span_eq_dir.mp h
  rw [dirAt_append, Option.bind_eq_some_iff] at hc
  obtain ⟨b, hb, -⟩ := hc
  exact span_eq_dir.mpr ⟨b, hb⟩

/-- What the tree says of an entry of a directory in it. -/
theorem span_snoc (h : dirAt look a p = some b) (k : κ) : span look a (p ++ [k]) = entryNode (look b k) := by
  have hb := congrFun (span_below h) [k]
  rwa [span_cons, entryTree_nil] at hb

/-- Where there is no directory, there is nothing below. -/
theorem span_beyond (h : dirAt look a p = none) : span look a (p ++ [k]) = none := by
  induction p generalizing a with
  | nil => cases h
  | cons j p ih =>
    rw [List.cons_append, span_cons]
    rcases hx : look a j with - | (c | v)
    · rfl
    · exact ih (by rwa [dirAt_cons hx] at h)
    · cases p <;> rfl

/-- The tree reads only the directories it reaches. -/
theorem span_congr (h : ∀ p b, dirAt look a p = some b → look' b = look b) : span look' a = span look a := by
  funext p
  induction p generalizing a with
  | nil => rfl
  | cons k p ih =>
    rw [span_cons, span_cons, h [] a rfl]
    rcases hx : look a k with - | (c | v)
    · rfl
    · exact ih fun q b hq => h (k :: q) b (by rw [dirAt_cons hx, hq])
    · rfl

/-! ## Edits -/

/-- Every directory below `root` has one place. -/
def OnePlace (look : Dirs β κ ν) (root : β) : Prop :=
  ∀ p q b, dirAt look root p = some b → dirAt look root q = some b → p = q

/-- It has one where it is the entry of one directory, and the root of none. -/
theorem OnePlace.of_parents (hroot : ∀ p b k, dirAt look root p = some b → look b k ≠ some (.inl root))
    (hone : ∀ p q b b' c k k', dirAt look root p = some b → dirAt look root q = some b' → look b k = some (.inl c) →
      look b' k' = some (.inl c) → b = b' ∧ k = k') : OnePlace look root := by
  intro p
  induction p using List.reverseRecOn with
  | nil =>
    intro q b hp hq
    cases hp
    rcases List.eq_nil_or_concat' q with rfl | ⟨q, k, rfl⟩
    · rfl
    · obtain ⟨b, hb, hk⟩ := dirAt_snoc.mp hq
      exact absurd hk (hroot q b k hb)
  | append_singleton p k ih =>
    intro q c hp hq
    obtain ⟨b, hb, hk⟩ := dirAt_snoc.mp hp
    rcases List.eq_nil_or_concat' q with rfl | ⟨q, j, rfl⟩
    · cases hq
      exact absurd hk (hroot p b k hb)
    · obtain ⟨b', hb', hj⟩ := dirAt_snoc.mp hq
      obtain ⟨rfl, rfl⟩ := hone p q b b' c k j hb hb' hk hj
      rw [ih q b hb hb']

variable [DecidableEq κ]

/-- Only what is at and below the path changed. -/
theorem span_edit (hb : dirAt look root p = some b)
    (h : ∀ q c, dirAt look root q = some c → ¬ p <+: q → look' c = look c) :
    dirAt look' root p = some b ∧ span look' root = (span look root).graft p (span look' b) := by
  have hdir : ∀ q, ¬ p <+: q → dirAt look' root q = dirAt look root q := by
    intro q
    induction q using List.reverseRecOn with
    | nil => exact fun _ => rfl
    | append_singleton q k ih =>
      intro hq
      have hq' : ¬ p <+: q := fun hpq => hq (hpq.trans (List.prefix_append q [k]))
      rw [dirAt_append, dirAt_append, ih hq']
      rcases hc : dirAt look root q with - | c
      · rfl
      · show dirAt look' c [k] = dirAt look c [k]
        rw [dirAt, dirAt, h q c hc hq']
        rfl
  have hat : dirAt look' root p = some b := by
    rcases List.eq_nil_or_concat' p with rfl | ⟨p, k, rfl⟩
    · exact hb
    · obtain ⟨c, hc, hk⟩ := dirAt_snoc.mp hb
      have hne : ¬ p ++ [k] <+: p := by
        intro hle
        have hlen := hle.length_le
        rw [List.length_append, List.length_singleton] at hlen
        omega
      exact dirAt_snoc.mpr ⟨c, (hdir p hne).trans hc, by rw [h p c hc hne]; exact hk⟩
  refine ⟨hat, ?_⟩
  funext q
  by_cases hq : p <+: q
  · obtain ⟨r, rfl⟩ := hq
    rw [Tree.graft_below]
    exact congrFun (span_below hat) r
  · rw [Tree.graft_off hq]
    rcases List.eq_nil_or_concat' q with rfl | ⟨q, k, rfl⟩
    · rfl
    · have hq' : ¬ p <+: q := fun hpq => hq (hpq.trans (List.prefix_append q [k]))
      have hsame := hdir q hq'
      rcases hc : dirAt look root q with - | c
      · rw [span_beyond (hsame.trans hc), span_beyond hc]
      · rw [span_snoc hc, span_snoc (hsame.trans hc), h q c hc hq']

end NameTree
