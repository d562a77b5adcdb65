/-
Who owns which block. `Owned n dev cs xs` says that the chains `cs` and the
single blocks `xs` are pairwise apart, that they are blocks of the volume and no
bitmap blocks, and that the bitmap marks exactly them (and itself) as used.

An operation breaks a chain up into single blocks (`release`), stores into them
freely, and adopts them again as a chain (`adopt`); allocation and release move
a block in and out of `xs`. So a chain never has to be followed through a
half-done edit.
-/
import TinyFs.Allocator
import TinyFs.BlockFacts
import TinyFs.Lib.Chain

namespace TinyFs

open Bytes Chains

/-- The blocks `c` linked by their headers, after block `p` and before block `q`. -/
abbrev LinkedOn (dev : Nat → Block) (p : Nat) (c : List Nat) (q : Nat) : Prop :=
  Linked Block.next Block.prev dev p c q

/-- A whole chain: at least one block, 0 at both ends. -/
def Chain (dev : Nat → Block) (c : List Nat) : Prop := c ≠ [] ∧ LinkedOn dev 0 c 0

structure Owned (n : Nat) (dev : Nat → Block) (cs : List (List Nat)) (xs : List Nat) : Prop where
  chain : ∀ c ∈ cs, Chain dev c
  nodup : (xs ++ cs.flatten).Nodup
  range : ∀ b ∈ xs ++ cs.flatten, b < n ∧ b % 4096 ≠ 0
  used : ∀ b < n, Used dev b ↔ b % 4096 = 0 ∨ b ∈ xs ++ cs.flatten

/-- The two media agree on every block but the bitmap blocks and those of `S`. -/
def AgreeOff (S : List Nat) (dev dev' : Nat → Block) : Prop :=
  ∀ b, b % 4096 ≠ 0 → b ∉ S → dev' b = dev b

variable {n : Nat} {dev dev' dev'' : Nat → Block} {cs cs' : List (List Nat)} {xs xs' S T c : List Nat} {b : Nat}

/-! ## Agreement -/

theorem AgreeOff.refl : AgreeOff S dev dev := fun _ _ _ => rfl

theorem AgreeOff.trans (h : AgreeOff S dev dev') (h' : AgreeOff S dev' dev'') : AgreeOff S dev dev'' :=
  fun b hm hb => (h' b hm hb).trans (h b hm hb)

theorem AgreeOff.mono (h : AgreeOff S dev dev') (hs : ∀ b ∈ S, b ∈ T) : AgreeOff T dev dev' :=
  fun b hm hb => h b hm fun h' => hb (hs b h')

theorem AgreeOff.update (hb : b ∈ S) (v : Block) : AgreeOff S dev (Function.update dev b v) :=
  fun _ _ hx => Function.update_of_ne (ne_of_mem_of_not_mem hb hx).symm _ _

theorem AgreeOff.mark : AgreeOff S dev (markUsed dev b) := fun _ hm _ => markUsed_of_ne (getBitmapBlk_ne hm)

theorem AgreeOff.free : AgreeOff S dev (markFree dev b) := fun _ hm _ => markFree_of_ne (getBitmapBlk_ne hm)

/-! ## Chains -/

theorem Chain.congr (h : Chain dev c) (ha : ∀ b ∈ c, dev' b = dev b) : Chain dev' c :=
  ⟨h.1, h.2.congr (fun b hb => by rw [ha b hb]) (fun b hb => by rw [ha b hb])⟩

/-! ## Moving blocks -/

theorem Owned.perm (h : Owned n dev cs xs) (hc : cs.Perm cs') (hx : xs.Perm xs') : Owned n dev cs' xs' := by
  have hp : (xs ++ cs.flatten).Perm (xs' ++ cs'.flatten) := hx.append hc.flatten
  refine ⟨fun c hc' => h.chain c (hc.mem_iff.mpr hc'), hp.nodup_iff.mp h.nodup, ?_, ?_⟩
  · exact fun b hb => h.range b (hp.mem_iff.mpr hb)
  · exact fun b hb => (h.used b hb).trans (or_congr_right hp.mem_iff)

/-- A block that is not marked is nobody's. -/
theorem Owned.notMem_of_free (h : Owned n dev cs xs) (hb : b < n) (hf : ¬ Used dev b) : b ∉ xs ++ cs.flatten :=
  fun hm => hf ((h.used b hb).mpr (.inr hm))

theorem Owned.mod_of_free (h : Owned n dev cs xs) (hb : b < n) (hf : ¬ Used dev b) : b % 4096 ≠ 0 :=
  fun hm => hf ((h.used b hb).mpr (.inl hm))

/-- Ownership reads only the links of the chains and the bitmap. -/
theorem Owned.transfer (h : Owned n dev cs xs) (hc : ∀ c ∈ cs, Chain dev' c)
    (hu : ∀ b, Used dev' b ↔ Used dev b) : Owned n dev' cs xs :=
  ⟨hc, h.nodup, h.range, fun b hb => (hu b).trans (h.used b hb)⟩

theorem Owned.alloc (h : Owned n dev cs xs) (hb : b < n) (hf : ¬ Used dev b) :
    Owned n (markUsed dev b) cs (b :: xs) := by
  have hmod := h.mod_of_free hb hf
  refine ⟨fun c hc => (h.chain c hc).congr fun x hx => ?_, ?_, ?_, ?_⟩
  · have hx' : x ∈ xs ++ cs.flatten := by simp; exact .inr ⟨c, hc, hx⟩
    exact markUsed_of_ne (getBitmapBlk_ne (h.range x hx').2)
  · rw [List.cons_append, List.nodup_cons]
    exact ⟨h.notMem_of_free hb hf, h.nodup⟩
  · intro x hx
    rcases List.mem_cons.mp hx with rfl | hx
    · exact ⟨hb, hmod⟩
    · exact h.range x hx
  · intro x hx
    rw [used_markUsed, h.used x hx, List.cons_append, List.mem_cons]
    exact or_left_comm

theorem Owned.free (h : Owned n dev cs (b :: xs)) : Owned n (markFree dev b) cs xs := by
  have hnd := h.nodup
  rw [List.cons_append, List.nodup_cons] at hnd
  have hmod := (h.range b (by simp)).2
  refine ⟨fun c hc => (h.chain c hc).congr fun x hx => ?_, hnd.2, ?_, ?_⟩
  · have hx' : x ∈ b :: xs ++ cs.flatten := by simp; exact .inr (.inr ⟨c, hc, hx⟩)
    exact markFree_of_ne (getBitmapBlk_ne (h.range x hx').2)
  · exact fun x hx => h.range x (List.mem_cons_of_mem b hx)
  · intro x hx
    rw [used_markFree, h.used x hx, List.cons_append, List.mem_cons]
    constructor
    · rintro ⟨hne, h1 | h1 | h1⟩
      · exact .inl h1
      · exact absurd h1 hne
      · exact .inr h1
    · rintro (h1 | h1)
      · exact ⟨fun he => hmod (he ▸ h1), .inl h1⟩
      · exact ⟨fun he => hnd.1 (he ▸ h1), .inr (.inr h1)⟩

/-- A chain broken up into its blocks. -/
theorem Owned.release (h : Owned n dev (c :: cs) xs) : Owned n dev cs (c ++ xs) := by
  have hp : (xs ++ (c :: cs).flatten).Perm (c ++ xs ++ cs.flatten) := by
    rw [List.flatten_cons, ← List.append_assoc]
    exact List.perm_append_comm.append_right _
  refine ⟨fun d hd => h.chain d (by simp [hd]), hp.nodup_iff.mp h.nodup, ?_, ?_⟩
  · exact fun x hx => h.range x (hp.mem_iff.mpr hx)
  · exact fun x hx => (h.used x hx).trans (or_congr_right hp.mem_iff)

/-- Single blocks linked to a chain. -/
theorem Owned.adopt (h : Owned n dev cs (c ++ xs)) (hc : Chain dev c) : Owned n dev (c :: cs) xs := by
  have hp : (c ++ xs ++ cs.flatten).Perm (xs ++ (c :: cs).flatten) := by
    rw [List.flatten_cons, ← List.append_assoc]
    exact List.perm_append_comm.append_right _
  refine ⟨fun d hd => ?_, hp.nodup_iff.mp h.nodup, ?_, ?_⟩
  · rcases List.mem_cons.mp hd with rfl | hd
    · exact hc
    · exact h.chain d hd
  · exact fun x hx => h.range x (hp.mem_iff.mpr hx)
  · exact fun x hx => (h.used x hx).trans (or_congr_right hp.mem_iff)

/-- A store into a single block. -/
theorem Owned.store (h : Owned n dev cs xs) (hb : b ∈ xs) (v : Block) : Owned n (Function.update dev b v) cs xs := by
  refine h.transfer (fun c hc => ⟨(h.chain c hc).1, (h.chain c hc).2.update_notMem (fun hbc => ?_) v⟩) ?_
  · have hd := (List.nodup_append.mp h.nodup).2.2 b hb b
    exact hd (List.mem_flatten.mpr ⟨c, hc, hbc⟩) rfl
  · exact used_update (h.range b (by simp [hb])).2 v

/-- A store into a block of a chain that keeps its links. -/
theorem Owned.storeLinks (h : Owned n dev cs xs) (hb : b % 4096 ≠ 0) {v : Block}
    (hn : v.next = (dev b).next) (hp : v.prev = (dev b).prev) : Owned n (Function.update dev b v) cs xs :=
  h.transfer (fun c hc => ⟨(h.chain c hc).1, (h.chain c hc).2.update_links hn hp⟩) (used_update hb v)

/-- A chain is no longer than the volume. -/
theorem Owned.length_le (h : Owned n dev cs xs) (hc : c ∈ cs) : c.length ≤ n := by
  have hnd : c.Nodup := (List.nodup_flatten.mp (List.nodup_append.mp h.nodup).2.1).1 c hc
  have hsub : c ⊆ List.range n := fun b hb =>
    List.mem_range.mpr (h.range b (List.mem_append_right _ (List.mem_flatten.mpr ⟨c, hc, hb⟩))).1
  have hle := (List.subperm_of_subset hnd hsub).length_le
  simpa using hle

theorem Owned.mem_lt (h : Owned n dev cs xs) (hc : c ∈ cs) (hb : b ∈ c) : b < n :=
  (h.range b (List.mem_append_right _ (List.mem_flatten.mpr ⟨c, hc, hb⟩))).1

theorem Owned.mem_mod (h : Owned n dev cs xs) (hc : c ∈ cs) (hb : b ∈ c) : b % 4096 ≠ 0 :=
  (h.range b (List.mem_append_right _ (List.mem_flatten.mpr ⟨c, hc, hb⟩))).2

theorem Owned.chain_nodup (h : Owned n dev cs xs) (hc : c ∈ cs) : c.Nodup :=
  (List.nodup_flatten.mp (List.nodup_append.mp h.nodup).2.1).1 c hc

/-- The first chain shares no block with the others. -/
theorem Owned.apart (h : Owned n dev (c :: cs) xs) {d : List Nat} (hd : d ∈ cs) (hb : b ∈ d) : b ∉ c := by
  have hnd := (List.nodup_append.mp h.nodup).2.1
  rw [List.flatten_cons, List.nodup_append] at hnd
  exact fun hbc => hnd.2.2 b hbc b (List.mem_flatten.mpr ⟨d, hd, hb⟩) rfl

end TinyFs
