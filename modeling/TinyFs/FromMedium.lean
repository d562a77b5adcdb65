/-
A well-formed medium has a layout. `WellFormed` speaks of the medium alone; the
proofs about the calls want a parent and a depth for each directory. Each
directory but the root is the block of exactly one entry, so both are there.
-/
import TinyFs.WellFormed

namespace TinyFs

open Bytes Chains

variable {n : Nat} {dev : Nat → Block} {dirs files cs : List (List Nat)} {c d : List Nat} {b k : Nat} {x : DirItem}

/-! ## Chains apart -/

theorem heads_nodup (hne : ∀ c ∈ cs, c ≠ []) (hnd : cs.flatten.Nodup) : (heads cs).Nodup := by
  induction cs with
  | nil => simp
  | cons c cs ih =>
    rw [List.flatten_cons, List.nodup_append] at hnd
    rw [heads_cons, List.nodup_cons]
    refine ⟨fun hmem => ?_, ih (fun c hc => hne c (by simp [hc])) hnd.2.1⟩
    obtain ⟨c', hc', hhead⟩ := mem_heads hmem
    have h1 := firstBlk_mem (hne c (by simp))
    have h2 := firstBlk_mem (hne c' (by simp [hc']))
    rw [hhead] at h2
    exact hnd.2.2 _ h1 _ (List.mem_flatten.mpr ⟨c', hc', h2⟩) rfl

/-- Lists apart from one another: a member is in one of them only. -/
theorem eq_of_mem_flatMap {α β : Type} {f : α → List β} {l : List α} {a a' : α} {y : β} (hnd : (l.flatMap f).Nodup)
    (ha : a ∈ l) (ha' : a' ∈ l) (hy : y ∈ f a) (hy' : y ∈ f a') : a = a' := by
  obtain ⟨l₁, l₂, rfl⟩ := List.append_of_mem ha
  rw [List.flatMap_append, List.flatMap_cons, List.nodup_append, List.nodup_append] at hnd
  obtain ⟨-, ⟨-, -, hright⟩, hleft⟩ := hnd
  rcases List.mem_append.mp ha' with hmem | hmem
  · exact absurd rfl (hleft y (List.mem_flatMap.mpr ⟨a', hmem, hy'⟩) y (List.mem_append_left _ hy))
  · rcases List.mem_cons.mp hmem with rfl | hmem
    · rfl
    · exact absurd rfl (hright y hy y (List.mem_flatMap.mpr ⟨a', hmem, hy'⟩))

/-- A block is in one chain only. -/
theorem chain_unique (hnd : cs.flatten.Nodup) (hc : c ∈ cs) (hd : d ∈ cs) (hbc : b ∈ c) (hbd : b ∈ d) : c = d :=
  eq_of_mem_flatMap (f := id) (by rwa [List.flatMap_id]) hc hd hbc hbd

/-! ## Parents and depths -/

/-- The directory chain `d` has the directory entry `x`. -/
structure SubDir (dev : Nat → Block) (dirs : List (List Nat)) (d : List Nat) (x : DirItem) : Prop where
  dir : d ∈ dirs
  entry : x ∈ entries dev d
  type : x.type = itemDir

/-- The directory that starts at block `b` is `k` entries below the root. -/
inductive Level (dev : Nat → Block) (dirs : List (List Nat)) : Nat → Nat → Prop
  | root {b : Nat} : b = rootDirBlk → Level dev dirs b 0
  | sub {b k : Nat} {d : List Nat} {x : DirItem} : Level dev dirs (firstBlk d) k → SubDir dev dirs d x → x.blk = b →
      Level dev dirs b (k + 1)

theorem WellFormed.ne_nil (h : WellFormed n dev dirs files) (hd : d ∈ dirs) : d ≠ [] :=
  (h.chain d (List.mem_append_left _ hd)).1

theorem WellFormed.dirs_nodup (h : WellFormed n dev dirs files) : dirs.flatten.Nodup := by
  have hnd := h.nodup
  rw [List.flatten_append, List.nodup_append] at hnd
  exact hnd.1

theorem WellFormed.heads_nodup (h : WellFormed n dev dirs files) :
    (rootDirBlk :: dirs.flatMap fun d => (entries dev d).flatMap (·.dirHead)).Nodup := by
  rw [← List.flatMap_assoc]
  exact h.dirHeads.nodup_iff.mp (TinyFs.heads_nodup (fun _ => h.ne_nil) h.dirs_nodup)

theorem SubDir.mem_heads (hx : SubDir dev dirs d x) : x.blk ∈ (entries dev d).flatMap (·.dirHead) :=
  List.mem_flatMap.mpr ⟨x, hx.entry, by simp [DirItem.dirHead, hx.type]⟩

theorem WellFormed.root_not_sub (h : WellFormed n dev dirs files) (hx : SubDir dev dirs d x) : x.blk ≠ rootDirBlk := by
  intro heq
  have hnd := (List.nodup_cons.mp h.heads_nodup).1
  exact hnd (List.mem_flatMap.mpr ⟨d, hx.dir, heq ▸ hx.mem_heads⟩)

/-- A directory has one parent. -/
theorem WellFormed.parent_unique (h : WellFormed n dev dirs files) {d' : List Nat} {y : DirItem}
    (hx : SubDir dev dirs d x) (hy : SubDir dev dirs d' y) (heq : x.blk = y.blk) : d = d' :=
  eq_of_mem_flatMap (List.nodup_cons.mp h.heads_nodup).2 hx.dir hy.dir hx.mem_heads (heq ▸ hy.mem_heads)

theorem WellFormed.level_unique (h : WellFormed n dev dirs files) {k' : Nat} (hk : Level dev dirs b k)
    (hk' : Level dev dirs b k') : k = k' := by
  induction hk generalizing k' with
  | root hb =>
    cases hk' with
    | root _ => rfl
    | sub _ hx hxb => exact absurd (hxb.trans hb) (h.root_not_sub hx)
  | sub _ hx hxb ih =>
    cases hk' with
    | root hb => exact absurd (hxb.trans hb) (h.root_not_sub hx)
    | sub hk' hy hyb =>
      obtain rfl := h.parent_unique hx hy (hxb.trans hyb.symm)
      rw [ih hk']

/-- The chain of a directory starts at the root, or at the block of an entry. -/
theorem WellFormed.head_mem (h : WellFormed n dev dirs files) (hx : SubDir dev dirs d x) :
    ∃ d' ∈ dirs, firstBlk d' = x.blk :=
  TinyFs.mem_heads (h.dirHeads.mem_iff.mpr (List.mem_cons_of_mem _ (by
    rw [List.flatMap_assoc]
    exact List.mem_flatMap.mpr ⟨d, hx.dir, hx.mem_heads⟩)))

/-- A directory one of whose blocks is reached has a level, by induction on how it is reached. -/
theorem WellFormed.level_of_reached (h : WellFormed n dev dirs files) (hb : DirReached dev b) :
    ∀ d ∈ dirs, b ∈ d → ∃ k, Level dev dirs (firstBlk d) k := by
  induction hb with
  | root =>
    intro d hd hmem
    obtain ⟨d', hd', hhead⟩ := mem_heads (h.dirHeads.mem_iff.mpr (List.mem_cons_self ..))
    have hmem' := firstBlk_mem (h.ne_nil hd')
    rw [hhead] at hmem'
    obtain rfl := chain_unique h.dirs_nodup hd hd' hmem hmem'
    exact ⟨0, .root hhead⟩
  | @next b hb hne ih =>
    intro d hd hmem
    obtain ⟨d', hd', hbd'⟩ := List.mem_flatten.mp ((h.dirs_reached b).mpr hb)
    have hmem' := (h.chain d' (List.mem_append_left _ hd')).next_mem hbd' hne
    obtain rfl := chain_unique h.dirs_nodup hd hd' hmem hmem'
    exact ih d hd hbd'
  | @entry b i hb hi ht ih =>
    intro d hd hmem
    obtain ⟨d', hd', hbd'⟩ := List.mem_flatten.mp ((h.dirs_reached b).mpr hb)
    have hl : ((dev b).item i).live = true := live_of_ne_free (by rw [Block.item_type, ht]; decide)
    have hx : SubDir dev dirs d' ((dev b).item i) := ⟨hd', item_mem_entries hbd' hi hl, ht⟩
    obtain ⟨d'', hd'', hhead⟩ := h.head_mem hx
    have hmem' := firstBlk_mem (h.ne_nil hd'')
    rw [hhead] at hmem'
    obtain rfl := chain_unique h.dirs_nodup hd hd'' hmem hmem'
    obtain ⟨k, hk⟩ := ih d' hd' hbd'
    exact ⟨k + 1, .sub hk hx hhead.symm⟩

theorem WellFormed.level_exists (h : WellFormed n dev dirs files) (hd : d ∈ dirs) :
    ∃ k, Level dev dirs (firstBlk d) k := by
  have hmem := firstBlk_mem (h.ne_nil hd)
  exact h.level_of_reached ((h.dirs_reached _).mp (List.mem_flatten.mpr ⟨d, hd, hmem⟩)) d hd hmem

/-! ## The layout -/

open Classical in
/-- The layout of a well-formed medium. -/
noncomputable def layoutOf (dev : Nat → Block) (dirs files : List (List Nat)) : Layout :=
  { dirs := dirs
    files := files
    loose := []
    leaked := []
    par := fun b => if h : ∃ d x, SubDir dev dirs d x ∧ x.blk = b then firstBlk h.choose else 0
    depth := fun b => if h : ∃ k, Level dev dirs b k then h.choose else 0
    upLinks := False }

theorem WellFormed.par_eq (h : WellFormed n dev dirs files) (hx : SubDir dev dirs d x) :
    (layoutOf dev dirs files).par x.blk = firstBlk d := by
  have hex : ∃ d' y, SubDir dev dirs d' y ∧ y.blk = x.blk := ⟨d, x, hx, rfl⟩
  obtain ⟨y, hy, hyx⟩ := hex.choose_spec
  simp only [layoutOf, dif_pos hex, h.parent_unique hy hx hyx]

theorem WellFormed.depth_eq (h : WellFormed n dev dirs files) (hk : Level dev dirs b k) :
    (layoutOf dev dirs files).depth b = k := by
  have hex : ∃ k, Level dev dirs b k := ⟨k, hk⟩
  simp only [layoutOf, dif_pos hex]
  exact h.level_unique hex.choose_spec hk

theorem layoutOf_tight : (layoutOf dev dirs files).Tight := ⟨rfl, rfl⟩

theorem WellFormed.volume (h : WellFormed n dev dirs files) : Volume n dev (layoutOf dev dirs files) := by
  refine ⟨?_, h.dirHeads, h.fileHeads, fun hup => absurd hup id, ?_, ?_⟩
  · have hchains : (layoutOf dev dirs files).chains = dirs ++ files := by
      simp [Layout.chains, layoutOf]
    have hmem : ∀ b, b ∈ [] ++ (dirs ++ files).flatten ↔ DirReached dev b ∨ FileReached dev b := fun b => by
      rw [List.nil_append, List.flatten_append, List.mem_append, h.dirs_reached, h.files_reached]
    rw [hchains]
    exact ⟨h.chain, h.nodup, fun b hb => h.range b ((hmem b).mp hb),
      fun b hb => (h.used b hb).trans (or_congr_right (hmem b).symm)⟩
  · have hno : ¬ ∃ d x, SubDir dev dirs d x ∧ x.blk = rootDirBlk := by
      rintro ⟨_, _, hx, hroot⟩
      exact h.root_not_sub hx hroot
    simp only [layoutOf, dif_neg hno]
  · intro d hd x hx ht
    have hsub : SubDir dev dirs d x := ⟨hd, hx, ht⟩
    obtain ⟨k, hk⟩ := h.level_exists hd
    refine ⟨h.par_eq hsub, ?_⟩
    rw [h.depth_eq hk, h.depth_eq (.sub hk hsub rfl)]
    exact Nat.lt_succ_self k

/-- Between two calls, on a well-formed volume. -/
structure AtRest (n : Nat) (s : State) (dirs files : List (List Nat)) : Prop where
  mounted : s.Mounted n
  cache : s.CacheOk n
  volume : WellFormed n s.dev dirs files
  cur : s.currentDirBlk ∈ heads dirs
  dev : s.tfsLastError ≠ .noDev

variable {s : State} {L : Layout}

theorem AtRest.sys (h : AtRest n s dirs files) : Sys n s (layoutOf s.dev dirs files) :=
  ⟨h.mounted, h.cache, h.volume.volume, h.cur, h.dev⟩

theorem Sys.atRest (h : Sys n s L) (ht : L.Tight) : AtRest n s L.dirs L.files :=
  ⟨h.mounted, h.cache, h.volume.wellFormed ht, h.cur, h.dev⟩

end TinyFs
