/-
How many blocks are free. Every block of the volume is a bitmap block, owned, or
free; so a call that gives back some chains and builds others changes the number
of free blocks by the difference of their lengths.
-/
import TinyFs.Owned

namespace TinyFs

variable {n : Nat} {dev dev' : Nat → Block} {cs cs' : List (List Nat)} {xs xs' : List Nat}

/-- The free blocks of the medium. -/
def freeBlocks (n : Nat) (dev : Nat → Block) : List Nat := (List.range n).filter fun b => !decide (Used dev b)

/-- How many there are. -/
def freeCount (n : Nat) (dev : Nat → Block) : Nat := (freeBlocks n dev).length

theorem mem_freeBlocks {b : Nat} : b ∈ freeBlocks n dev ↔ b < n ∧ ¬ Used dev b := by
  simp [freeBlocks]

theorem freeCount_eq_zero : freeCount n dev = 0 ↔ Full n dev := by
  rw [freeCount, List.length_eq_zero_iff, List.eq_nil_iff_forall_not_mem]
  constructor
  · intro h b hb
    by_contra hu
    exact h b (mem_freeBlocks.mpr ⟨hb, hu⟩)
  · intro h b hb
    obtain ⟨hlt, hu⟩ := mem_freeBlocks.mp hb
    exact hu (h b hlt)

/-- The free blocks and the owned ones are all but the bitmap blocks. -/
theorem Owned.free_perm (h : Owned n dev cs xs) :
    (freeBlocks n dev ++ (xs ++ cs.flatten)).Perm ((List.range n).filter fun b => b % 4096 ≠ 0) := by
  rw [List.perm_ext_iff_of_nodup]
  · intro b
    simp only [List.mem_append, mem_freeBlocks, List.mem_filter, List.mem_range, decide_eq_true_eq]
    rw [← List.mem_append]
    constructor
    · rintro (⟨hlt, hu⟩ | hb)
      · exact ⟨hlt, h.mod_of_free hlt hu⟩
      · exact h.range b hb
    · rintro ⟨hlt, hm⟩
      by_cases hu : Used dev b
      · exact .inr (((h.used b hlt).mp hu).resolve_left hm)
      · exact .inl ⟨hlt, hu⟩
  · rw [List.nodup_append]
    refine ⟨List.nodup_range.filter _, h.nodup, ?_⟩
    rintro b hb _ hb' rfl
    obtain ⟨hlt, hu⟩ := mem_freeBlocks.mp hb
    exact h.notMem_of_free hlt hu hb'
  · exact List.nodup_range.filter _

/-- Between two media, free blocks are exchanged for owned ones. -/
theorem Owned.freeCount_add (h : Owned n dev cs xs) (h' : Owned n dev' cs' xs') :
    freeCount n dev + (xs ++ cs.flatten).length = freeCount n dev' + (xs' ++ cs'.flatten).length := by
  have h1 := h.free_perm.length_eq
  have h2 := h'.free_perm.length_eq
  rw [List.length_append] at h1 h2
  rw [freeCount, freeCount, h1, h2]

end TinyFs
