/-
The state in the middle of a call: the variables of the mount are right, the
bitmap cache is good, and the blocks are owned. `Ready` is what every helper of
`filesys.c` finds and leaves; `Kept` says which variables it does not touch.
-/
import TinyFs.Volume

namespace TinyFs

open Bytes Chains

structure Ready (n : Nat) (s : State) (cs : List (List Nat)) (xs : List Nat) : Prop where
  mounted : s.Mounted n
  cache : s.CacheOk n
  owned : Owned n s.dev cs xs

/-- In the current directory `C`, with no error pending. -/
structure InDir (n : Nat) (s : State) (C : List Nat) (cs : List (List Nat)) (xs : List Nat) : Prop
    extends Ready n s (C :: cs) xs where
  err : s.tfsLastError = .ok
  cur : s.currentDirBlk = firstBlk C

/-- The variables that only the functions of the API set. -/
structure Frame (s s' : State) : Prop where
  blkCount : s'.blkCount = s.blkCount
  lastBlk : s'.lastBitmapBlk = s.lastBitmapBlk
  lastLen : s'.lastBitmapLen = s.lastBitmapLen
  cur : s'.currentDirBlk = s.currentDirBlk
  handles : s'.handles = s.handles

/-- The buffer and the directory block in it are kept as well. -/
structure Kept (s s' : State) : Prop extends Frame s s' where
  buf : s'.blkBuf = s.blkBuf
  dirBlk : s'.loadedDirBlk = s.loadedDirBlk

variable {e : Env} {n : Nat} {s s' s'' : State} {cs cs' : List (List Nat)} {xs xs' : List Nat} {b : Nat}

theorem Frame.refl : Frame s s := ⟨rfl, rfl, rfl, rfl, rfl⟩

theorem Frame.trans (h : Frame s s') (h' : Frame s' s'') : Frame s s'' :=
  ⟨h'.1.trans h.1, h'.2.trans h.2, h'.3.trans h.3, h'.4.trans h.4, h'.5.trans h.5⟩

theorem Frame.mounted (h : Frame s s') (hm : s.Mounted n) : s'.Mounted n :=
  ⟨hm.pos, hm.lt, h.blkCount.trans hm.count, h.lastBlk.trans hm.lastBlk, h.lastLen.trans hm.lastLen⟩

theorem Ready.perm (h : Ready n s cs xs) (hc : cs.Perm cs') (hx : xs.Perm xs') : Ready n s cs' xs' :=
  ⟨h.mounted, h.cache, h.owned.perm hc hx⟩

/-- A block that is owned is in range, and is not block 0. -/
theorem Ready.mem_lt (h : Ready n s cs xs) {c : List Nat} (hc : c ∈ cs) (hb : b ∈ c) : b < s.blkCount := by
  rw [h.mounted.count]
  exact h.owned.mem_lt hc hb

theorem Ready.single_lt (h : Ready n s cs xs) (hb : b ∈ xs) : b < s.blkCount := by
  rw [h.mounted.count]
  exact (h.owned.range b (List.mem_append_left _ hb)).1

theorem Owned.single_mod {dev : Nat → Block} (h : Owned n dev cs xs) (hb : b ∈ xs) : b % 4096 ≠ 0 :=
  (h.range b (List.mem_append_left _ hb)).2

theorem ne_zero_of_mod (h : b % 4096 ≠ 0) : b ≠ 0 := by
  rintro rfl
  exact h rfl

theorem Volume.ne_zero {dev : Nat → Block} {L : Layout} {c : List Nat} (h : Volume n dev L) (hc : c ∈ L.chains) :
    ∀ b ∈ c, b ≠ 0 :=
  fun _ hb => ne_zero_of_mod (h.owned.mem_mod hc hb)

/-- A chain is what its first block leads to. -/
theorem Owned.follow_eq {dev : Nat → Block} {c : List Nat} (h : Owned n dev cs xs) (hc : c ∈ cs) :
    follow dev n (firstBlk c) = c :=
  follow_linked n 0 (h.chain c hc).2 (fun _ hb => ne_zero_of_mod (h.mem_mod hc hb)) (h.length_le hc)

theorem getLastD_mem {c : List Nat} (hc : c ≠ []) : c.getLastD 0 ∈ c := by
  rw [List.getLastD_eq_getLast?, List.getLast?_eq_getLast_of_ne_nil hc]
  exact List.getLast_mem hc

/-- The blocks owned leave room for block 0. -/
theorem Owned.total_lt {dev : Nat → Block} (h : Owned n dev cs xs) (hn : 0 < n) :
    (xs ++ cs.flatten).length < n := by
  have h0 : 0 ∉ xs ++ cs.flatten := fun h0 => (h.range 0 h0).2 rfl
  have hsub : 0 :: (xs ++ cs.flatten) ⊆ List.range n := by
    intro b hb
    rcases List.mem_cons.mp hb with rfl | hb
    · exact List.mem_range.mpr hn
    · exact List.mem_range.mpr (h.range b hb).1
  have hle := (List.subperm_of_subset (List.nodup_cons.mpr ⟨h0, h.nodup⟩) hsub).length_le
  rw [List.length_range] at hle
  exact hle

theorem Owned.length_lt {dev : Nat → Block} (h : Owned n dev cs xs) {c : List Nat} (hc : c ∈ cs) : c.length < n := by
  have hb := firstBlk_mem (h.chain c hc).1
  have hlt := h.total_lt (Nat.lt_of_le_of_lt (Nat.zero_le _) (h.mem_lt hc hb))
  have hle := (List.sublist_flatten_of_mem hc).length_le
  rw [List.length_append] at hlt
  omega

/-! ## Allocation and release -/

/-- `alloc_block` hands out a block, marked and owned alone. -/
structure Alloc (e : Env) (n : Nat) (s : State) (cs : List (List Nat)) (xs : List Nat) (b : Nat) (s' : State) :
    Prop where
  run : allocBlock e s = some (b, s')
  ready : Ready n s' cs (b :: xs)
  err : s'.tfsLastError = .ok
  kept : Kept s s'
  free : ¬ Used s.dev b
  agree : AgreeOff [] s.dev s'.dev

/-- `alloc_block` finds the disk full. -/
structure AllocFull (e : Env) (n : Nat) (s : State) (cs : List (List Nat)) (xs : List Nat) (s' : State) : Prop where
  run : allocBlock e s = some (0, s')
  ready : Ready n s' cs xs
  err : s'.tfsLastError = .diskFull
  kept : Kept s s'
  full : Full n s.dev
  dev : s'.dev = s.dev

theorem Ready.alloc (he : e.NeverFails) (hf : n ≤ e.fuel) (h : Ready n s cs xs) (herr : s.tfsLastError = .ok) :
    (∃ b s', Alloc e n s cs xs b s') ∨ ∃ s', AllocFull e n s cs xs s' := by
  rcases allocBlock_ok he h.mounted h.cache herr hf with ⟨b, l, hb, hfree, hrun⟩ | ⟨hfull, bm, l, hrun⟩
  · refine .inl ⟨b, _, hrun, ⟨h.mounted, CacheOk.mark hb, h.owned.alloc hb hfree⟩, herr,
      ⟨⟨rfl, rfl, rfl, rfl, rfl⟩, rfl, rfl⟩, hfree, AgreeOff.mark⟩
  · exact .inr ⟨_, hrun, ⟨h.mounted, .full rfl hfull, h.owned⟩, rfl,
      ⟨⟨rfl, rfl, rfl, rfl, rfl⟩, rfl, rfl⟩, hfull, rfl⟩

/-- `free_block` on a block owned alone. -/
theorem Ready.free (he : e.NeverFails) (h : Ready n s cs (b :: xs)) (herr : s.tfsLastError = .ok) :
    ∃ s', freeBlock e b s = some ((), s') ∧ Ready n s' cs xs ∧ s'.tfsLastError = .ok ∧ Kept s s' ∧
      ¬ Used s'.dev b ∧ AgreeOff [] s.dev s'.dev := by
  have hb : b < n := (h.owned.range b (by simp)).1
  obtain ⟨l, hrun⟩ := freeBlock_ok he h.mounted h.cache herr hb
  refine ⟨_, hrun, ⟨h.mounted, CacheOk.free hb, h.owned.free⟩, herr, ⟨⟨rfl, rfl, rfl, rfl, rfl⟩, rfl, rfl⟩, ?_,
    AgreeOff.free⟩
  exact fun hu => (used_markFree.mp hu).1 rfl

/-- A store into a block owned alone. -/
theorem Ready.store (h : Ready n s cs xs) (hb : b ∈ xs) (v : Block) (l : DriveLog) :
    Ready n { s with dev := Function.update s.dev b v, log := l } cs xs :=
  ⟨h.mounted, CacheOk.update h.cache (h.owned.single_mod hb) v, h.owned.store hb v⟩

/-- A store that keeps the links of its block. -/
theorem Ready.storeLinks (h : Ready n s cs xs) (hb : b % 4096 ≠ 0) {v : Block} (hn : v.next = (s.dev b).next)
    (hp : v.prev = (s.dev b).prev) (l : DriveLog) :
    Ready n { s with dev := Function.update s.dev b v, log := l } cs xs :=
  ⟨h.mounted, CacheOk.update h.cache hb v, h.owned.storeLinks hb hn hp⟩

end TinyFs
