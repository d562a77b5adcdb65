/-
The volume as a whole. A `Layout` names the chains of a volume: the directories,
the data of the files, the chains only an open handle knows, and the blocks
nobody knows. `Volume n dev L` says that the medium holds exactly that: the heads
of the directories are the root and the blocks of the directory entries, the
heads of the files are the blocks of the file entries, each once, and the
directories form a tree.

Every operation edits one directory, its entries at one place, and adds or drops
a few chains; `Volume.edit` is the one theorem about such an edit.
-/
import TinyFs.Owned

namespace TinyFs

open Bytes Chains

/-! ## The entries of a directory -/

/-- The items of a directory chain, as block and index, in the order the code visits them. -/
def slots (c : List Nat) : List (Nat × Nat) := c.flatMap fun b => (List.range dirBlkItems).map fun i => (b, i)

def itemAt (dev : Nat → Block) (p : Nat × Nat) : DirItem := (dev p.1).item p.2

def DirItem.live (x : DirItem) : Bool := x.type ≠ itemFree

theorem live_of_free {x : DirItem} (h : x.type = itemFree) : x.live = false := by simp [DirItem.live, h]

theorem live_of_ne_free {x : DirItem} (h : x.type ≠ itemFree) : x.live = true := by simp [DirItem.live, h]

theorem live_eq_false {x : DirItem} : x.live = false ↔ x.type = itemFree := by simp [DirItem.live]

/-- The live entries of some slots. -/
def liveAt (dev : Nat → Block) (P : List (Nat × Nat)) : List DirItem := (P.map (itemAt dev)).filter (·.live)

/-- The live entries of a directory, in the order of their slots. -/
def entries (dev : Nat → Block) (c : List Nat) : List DirItem := liveAt dev (slots c)

/-- The directory an entry stands for, by its first block. -/
def DirItem.dirHead (x : DirItem) : List Nat := if x.type = itemDir then [x.blk] else []

/-- The data chain of an entry, by its first block. -/
def DirItem.fileHead (x : DirItem) : List Nat := if x.type = itemFile ∧ x.blk ≠ 0 then [x.blk] else []

variable {n : Nat} {dev dev' : Nat → Block} {c d : List Nat} {b : Nat}

@[simp] theorem slots_nil : slots [] = [] := rfl

theorem slots_cons (b : Nat) (c : List Nat) :
    slots (b :: c) = ((List.range dirBlkItems).map fun i => (b, i)) ++ slots c := by
  simp [slots]

theorem slots_append (c d : List Nat) : slots (c ++ d) = slots c ++ slots d := by
  simp [slots]

theorem mem_slots {p : Nat × Nat} : p ∈ slots c ↔ p.1 ∈ c ∧ p.2 < dirBlkItems := by
  obtain ⟨b, i⟩ := p
  simp only [slots, List.mem_flatMap, List.mem_map, List.mem_range, Prod.mk.injEq]
  constructor
  · rintro ⟨x, hx, j, hj, rfl, rfl⟩
    exact ⟨hx, hj⟩
  · rintro ⟨hb, hi⟩
    exact ⟨b, hb, i, hi, rfl, rfl⟩

theorem slots_nodup (h : c.Nodup) : (slots c).Nodup := by
  induction c with
  | nil => simp
  | cons b c ih =>
    rw [List.nodup_cons] at h
    rw [slots_cons, List.nodup_append]
    refine ⟨?_, ih h.2, ?_⟩
    · refine (List.nodup_range).map fun i j hij => ?_
      simpa using hij
    · rintro p hp q hq rfl
      simp only [List.mem_map] at hp
      obtain ⟨i, _, rfl⟩ := hp
      exact h.1 (mem_slots.mp hq).1

theorem liveAt_append (P Q : List (Nat × Nat)) : liveAt dev (P ++ Q) = liveAt dev P ++ liveAt dev Q := by
  simp [liveAt]

theorem liveAt_congr {P : List (Nat × Nat)} (h : ∀ p ∈ P, itemAt dev' p = itemAt dev p) :
    liveAt dev' P = liveAt dev P := by
  rw [liveAt, List.map_congr_left h, liveAt]

@[simp] theorem entries_nil : entries dev [] = [] := rfl

theorem entries_append (c d : List Nat) : entries dev (c ++ d) = entries dev c ++ entries dev d := by
  rw [entries, slots_append, liveAt_append, entries, entries]

theorem entries_cons (b : Nat) (c : List Nat) : entries dev (b :: c) = entries dev [b] ++ entries dev c :=
  entries_append [b] c

theorem mem_entries {x : DirItem} :
    x ∈ entries dev c ↔ ∃ b ∈ c, ∃ i < dirBlkItems, (dev b).item i = x ∧ x.live = true := by
  simp only [entries, liveAt, List.mem_filter, List.mem_map]
  constructor
  · rintro ⟨⟨p, hp, rfl⟩, hl⟩
    exact ⟨p.1, (mem_slots.mp hp).1, p.2, (mem_slots.mp hp).2, rfl, hl⟩
  · rintro ⟨b, hb, i, hi, rfl, hl⟩
    exact ⟨⟨(b, i), mem_slots.mpr ⟨hb, hi⟩, rfl⟩, hl⟩

/-- The entries are read from the items alone. -/
theorem entries_congr (h : ∀ b ∈ c, ∀ i < dirBlkItems, (dev' b).item i = (dev b).item i) :
    entries dev' c = entries dev c := by
  have hmap : (slots c).map (itemAt dev') = (slots c).map (itemAt dev) :=
    List.map_congr_left fun p hp => h p.1 (mem_slots.mp hp).1 p.2 (mem_slots.mp hp).2
  rw [entries, liveAt, hmap, entries, liveAt]

/-- One block's entries moved to another block. -/
theorem entries_single {b b' : Nat} (h : ∀ i < dirBlkItems, (dev' b').item i = (dev b).item i) :
    entries dev' [b'] = entries dev [b] := by
  have hmap : ((List.range dirBlkItems).map fun i => (b', i)).map (itemAt dev') =
      ((List.range dirBlkItems).map fun i => (b, i)).map (itemAt dev) := by
    rw [List.map_map, List.map_map]
    exact List.map_congr_left fun i hi => h i (List.mem_range.mp hi)
  simp only [entries, liveAt, slots_cons, slots_nil, List.append_nil, hmap]

theorem entries_single_free (h : ∀ i < dirBlkItems, (dev b).itemType i = itemFree) : entries dev [b] = [] := by
  rw [List.eq_nil_iff_forall_not_mem]
  intro x hx
  obtain ⟨b', hb', i, hi, rfl, hl⟩ := mem_entries.mp hx
  obtain rfl := List.mem_singleton.mp hb'
  simp [DirItem.live, h i hi] at hl

/-- The entries around one slot. -/
theorem entries_around {p : Nat × Nat} {P Q : List (Nat × Nat)} (hs : slots c = P ++ p :: Q) :
    entries dev c = liveAt dev P ++ [itemAt dev p].filter (·.live) ++ liveAt dev Q := by
  rw [entries, hs, List.append_cons, liveAt_append, liveAt_append]
  rfl

/-- A store into one item leaves the entries before and behind it. -/
theorem entries_store {q : Nat × Nat} {P Q : List (Nat × Nat)} (hs : slots c = P ++ q :: Q) (hnd : c.Nodup)
    {v : Block} (hv : ∀ j, j ≠ q.2 → v.item j = (dev q.1).item j) :
    entries (Function.update dev q.1 v) c = liveAt dev P ++ [v.item q.2].filter (·.live) ++ liveAt dev Q := by
  have hn := slots_nodup hnd
  rw [hs, List.nodup_append, List.nodup_cons] at hn
  have hother : ∀ p, p ≠ q → itemAt (Function.update dev q.1 v) p = itemAt dev p := by
    intro p hp
    by_cases hb : p.1 = q.1
    · have hi : p.2 ≠ q.2 := fun hi => hp (Prod.ext hb hi)
      rw [itemAt, hb, Function.update_self, hv _ hi, itemAt, hb]
    · rw [itemAt, Function.update_of_ne hb, itemAt]
  rw [entries_around hs, liveAt_congr fun p hp => hother p fun he => hn.2.2 p hp q (by simp) he,
    liveAt_congr fun p hp => hother p fun he => hn.2.1.1 (he ▸ hp)]
  simp only [itemAt, Function.update_self]

/-! ## Blocks without entries -/

/-- How many blocks of a directory hold no entry. -/
def emptyBlks (dev : Nat → Block) (c : List Nat) : Nat := c.countP fun b => (entries dev [b]).isEmpty

/-- At most one block of the directory holds no entry, so one of several blocks holds one. -/
def Compact (dev : Nat → Block) (c : List Nat) : Prop := emptyBlks dev c ≤ 1

theorem emptyBlks_append (c d : List Nat) : emptyBlks dev (c ++ d) = emptyBlks dev c + emptyBlks dev d :=
  List.countP_append

theorem emptyBlks_cons (b : Nat) (c : List Nat) : emptyBlks dev (b :: c) = emptyBlks dev [b] + emptyBlks dev c :=
  emptyBlks_append [b] c

theorem emptyBlks_le (c : List Nat) : emptyBlks dev c ≤ c.length := List.countP_le_length

theorem emptyBlks_single (h : entries dev [b] = []) : emptyBlks dev [b] = 1 := by
  simp [emptyBlks, h]

theorem emptyBlks_full (h : ∀ b ∈ c, entries dev [b] ≠ []) : emptyBlks dev c = 0 :=
  List.countP_eq_zero.mpr fun b hb => by simpa using h b hb

theorem emptyBlks_congr (h : ∀ b ∈ c, entries dev' [b] = entries dev [b]) : emptyBlks dev' c = emptyBlks dev c :=
  List.countP_congr fun b hb => by rw [h b hb]

theorem emptyBlks_mono (h : ∀ b ∈ c, entries dev [b] ≠ [] → entries dev' [b] ≠ []) :
    emptyBlks dev' c ≤ emptyBlks dev c := by
  refine List.countP_mono_left fun b hb hnil => ?_
  by_contra hne
  exact h b hb (by simpa using hne) (by simpa using hnil)

/-- A store into one block empties at most that block. -/
theorem emptyBlks_update (hnd : c.Nodup) (v : Block) :
    emptyBlks (Function.update dev b v) c ≤ emptyBlks dev c + 1 := by
  have hother : ∀ d : List Nat, b ∉ d → emptyBlks (Function.update dev b v) d = emptyBlks dev d := fun d hd =>
    emptyBlks_congr fun x hx => entries_single fun i _ => by
      rw [Function.update_of_ne (ne_of_mem_of_not_mem hx hd)]
  by_cases hb : b ∈ c
  · obtain ⟨A, B, rfl⟩ := List.append_of_mem hb
    rw [List.perm_middle.nodup_iff, List.nodup_cons, List.mem_append, not_or] at hnd
    have hone : emptyBlks (Function.update dev b v) [b] ≤ 1 := emptyBlks_le [b]
    rw [emptyBlks_append, emptyBlks_cons, hother A hnd.1.1, hother B hnd.1.2, emptyBlks_append, emptyBlks_cons b B]
    omega
  · rw [hother c hb]
    omega

/-- An empty directory has no block with an entry. -/
theorem entries_eq_nil_iff : entries dev c = [] ↔ emptyBlks dev c = c.length := by
  rw [emptyBlks, List.countP_eq_length]
  constructor
  · intro h b hb
    obtain ⟨A, B, rfl⟩ := List.append_of_mem hb
    rw [entries_append, entries_cons, List.append_eq_nil_iff, List.append_eq_nil_iff] at h
    simp [h.2.1]
  · intro h
    rw [List.eq_nil_iff_forall_not_mem]
    intro x hx
    obtain ⟨b, hb, i, hi, hxi, hl⟩ := mem_entries.mp hx
    have hmem : x ∈ entries dev [b] := mem_entries.mpr ⟨b, by simp, i, hi, hxi, hl⟩
    rw [List.isEmpty_iff.mp (h b hb)] at hmem
    exact List.not_mem_nil hmem

theorem Compact.mono (h : Compact dev c) (hs : ∀ b ∈ c, entries dev [b] ≠ [] → entries dev' [b] ≠ []) :
    Compact dev' c := Nat.le_trans (emptyBlks_mono hs) h

/-- A live item stored in a block empties none. -/
theorem Compact.stored {q : Nat × Nat} {v : Block} (h : Compact dev c)
    (hdev : ∀ b ∈ c, dev' b = Function.update dev q.1 v b) (hi : q.2 < dirBlkItems) (hl : (v.item q.2).live = true) :
    Compact dev' c := by
  refine h.mono fun b hb hne => ?_
  by_cases hbq : b = q.1
  · subst hbq
    have hv : dev' q.1 = v := by rw [hdev q.1 hb, Function.update_self]
    exact List.ne_nil_of_mem (mem_entries.mpr ⟨q.1, by simp, q.2, hi, rfl, by rw [hv]; exact hl⟩)
  · rw [entries_single (b := b) fun i _ => by rw [hdev b hb, Function.update_of_ne hbq]]
    exact hne

/-- A block without entries behind full ones. -/
theorem Compact.snoc (hs : ∀ b ∈ c, entries dev [b] ≠ []) : Compact dev (c ++ [b]) := by
  have hone : emptyBlks dev [b] ≤ 1 := emptyBlks_le [b]
  rw [Compact, emptyBlks_append, emptyBlks_full hs, Nat.zero_add]
  exact hone

theorem Compact.single (b : Nat) : Compact dev [b] := emptyBlks_le [b]

/-- An empty directory is one block. -/
theorem Compact.length_le (h : Compact dev c) (he : entries dev c = []) : c.length ≤ 1 :=
  entries_eq_nil_iff.mp he ▸ h

/-! ## The volume -/

/-- The first block of a chain, 0 for no chain. -/
def firstBlk (c : List Nat) : Nat := c.headD 0

/-- The first blocks of chains. -/
def heads (cs : List (List Nat)) : List Nat := cs.map firstBlk

/-- The chains of a volume. `par` and `depth` are the parent and the depth of a
directory, by its first block; `upLinks` says that the blocks hold the parent. -/
structure Layout where
  dirs : List (List Nat)
  files : List (List Nat)
  loose : List (List Nat)
  leaked : List Nat
  par : Nat → Nat
  depth : Nat → Nat
  upLinks : Prop

/-- All chains of the volume. -/
def Layout.chains (L : Layout) : List (List Nat) := L.dirs ++ (L.files ++ L.loose)

/-- All entries of the volume. -/
def Layout.entries (L : Layout) (dev : Nat → Block) : List DirItem := L.dirs.flatMap (TinyFs.entries dev)

/-- The medium holds the volume `L`. -/
structure Volume (n : Nat) (dev : Nat → Block) (L : Layout) : Prop where
  owned : Owned n dev L.chains L.leaked
  dirHeads : (heads L.dirs).Perm (rootDirBlk :: (L.entries dev).flatMap (·.dirHead))
  fileHeads : (heads L.files).Perm ((L.entries dev).flatMap (·.fileHead))
  parents : L.upLinks → ∀ d ∈ L.dirs, ∀ b ∈ d, (dev b).parent = L.par (firstBlk d)
  root : L.par rootDirBlk = 0
  tree : ∀ d ∈ L.dirs, ∀ x ∈ entries dev d, x.type = itemDir →
    L.par x.blk = firstBlk d ∧ L.depth (firstBlk d) < L.depth x.blk

/-- Nothing is leaked. -/
structure Layout.Tight (L : Layout) : Prop where
  loose : L.loose = []
  leaked : L.leaked = []

@[simp] theorem firstBlk_nil : firstBlk [] = 0 := rfl
@[simp] theorem firstBlk_cons (b : Nat) (c : List Nat) : firstBlk (b :: c) = b := rfl

theorem firstBlk_append (h : c ≠ []) (d : List Nat) : firstBlk (c ++ d) = firstBlk c := by
  cases c with
  | nil => exact absurd rfl h
  | cons b c => rfl

theorem firstBlk_mem (h : c ≠ []) : firstBlk c ∈ c := by
  cases c with
  | nil => exact absurd rfl h
  | cons b c => simp

@[simp] theorem heads_nil : heads [] = [] := rfl
@[simp] theorem heads_cons (c : List Nat) (cs : List (List Nat)) : heads (c :: cs) = firstBlk c :: heads cs := rfl
@[simp] theorem heads_append (cs ds : List (List Nat)) : heads (cs ++ ds) = heads cs ++ heads ds := List.map_append

theorem mem_heads {cs : List (List Nat)} (h : b ∈ heads cs) : ∃ c ∈ cs, firstBlk c = b := List.mem_map.mp h

theorem firstBlk_mem_heads {cs : List (List Nat)} (h : c ∈ cs) : firstBlk c ∈ heads cs := List.mem_map_of_mem h

/-- The blocks from `b` on along `next`, at most so many. -/
def follow (dev : Nat → Block) : Nat → Nat → List Nat
  | 0, _ => []
  | k + 1, b => if b = 0 then [] else b :: follow dev k (dev b).next

theorem follow_zero (k : Nat) : follow dev k 0 = [] := by
  cases k <;> rfl

theorem follow_linked {c : List Nat} (k p : Nat) (h : LinkedOn dev p c 0) (h0 : ∀ b ∈ c, b ≠ 0) (hlen : c.length ≤ k) :
    follow dev k (firstBlk c) = c := by
  induction c generalizing k p with
  | nil => exact follow_zero k
  | cons b c ih =>
    cases k with
    | zero => simp at hlen
    | succ k =>
      obtain ⟨-, hnext, hl⟩ := h
      have hnext : (dev b).next = firstBlk c := hnext
      rw [firstBlk_cons, follow, if_neg (h0 b (by simp)), hnext,
        ih k b hl (fun x hx => h0 x (by simp [hx])) (by simpa using hlen)]

variable {L : Layout}

theorem Volume.chain_ne_nil (h : Volume n dev L) {c : List Nat} (hc : c ∈ L.chains) : c ≠ [] := (h.owned.chain c hc).1

theorem Volume.mem_dirs (h : Volume n dev L) {x : DirItem} (hd : d ∈ L.dirs) (hx : x ∈ entries dev d)
    (ht : x.type = itemDir) : x.blk ∈ heads L.dirs := by
  rw [h.dirHeads.mem_iff]
  refine List.mem_cons_of_mem _ (List.mem_flatMap.mpr ⟨x, List.mem_flatMap.mpr ⟨d, hd, hx⟩, ?_⟩)
  simp [DirItem.dirHead, ht]

theorem Volume.mem_files (h : Volume n dev L) {x : DirItem} (hd : d ∈ L.dirs) (hx : x ∈ entries dev d)
    (ht : x.type = itemFile) (hb : x.blk ≠ 0) : x.blk ∈ heads L.files := by
  rw [h.fileHeads.mem_iff]
  refine List.mem_flatMap.mpr ⟨x, List.mem_flatMap.mpr ⟨d, hd, hx⟩, ?_⟩
  simp [DirItem.fileHead, ht, hb]

/-- The data of an edit of one directory: the chain `C` becomes `C'`, with the
entries `old` replaced by `new`; the directories `gone` and the data chains
`goneF` are dropped, `born` and `bornF` are added. -/
structure Edit (dev dev' : Nat → Block) (L : Layout) (C C' : List Nat) (gone born D : List (List Nat))
    (goneF bornF F : List (List Nat)) (old new : List DirItem) : Prop where
  dirs : L.dirs.Perm (C :: (gone ++ D))
  files : L.files.Perm (goneF ++ F)
  head : firstBlk C' = firstBlk C
  entries : ∃ A B, entries dev C = A ++ old ++ B ∧ entries dev' C' = A ++ new ++ B
  dirHeads : (heads gone ++ new.flatMap (·.dirHead)).Perm (old.flatMap (·.dirHead) ++ heads born)
  fileHeads : (heads goneF ++ new.flatMap (·.fileHead)).Perm (old.flatMap (·.fileHead) ++ heads bornF)
  gone_empty : ∀ d ∈ gone, TinyFs.entries dev d = []
  born_empty : ∀ d ∈ born, TinyFs.entries dev' d = []
  born_single : ∀ d ∈ born, d.length = 1
  born_fresh : ∀ d ∈ born, firstBlk d ∉ heads L.dirs
  frame : ∀ d ∈ D ++ F, ∀ b ∈ d, dev' b = dev b
  parents : L.upLinks → ∀ b ∈ C', (dev' b).parent = L.par (firstBlk C)
  born_parents : ∀ d ∈ born, ∀ b ∈ d, (dev' b).parent = firstBlk C
  /-- A directory that keeps its chain keeps its parent. -/
  dirs_from : ∀ x ∈ new, x.type = itemDir → x.blk ∈ heads born ∨ ∃ y ∈ old, y.type = itemDir ∧ y.blk = x.blk

/-- The layout after an edit. -/
def Layout.edit (L : Layout) (C' : List Nat) (born D bornF F : List (List Nat)) : Layout :=
  { L with
    dirs := C' :: (born ++ D)
    files := bornF ++ F
    par := fun b => if b ∈ heads born then firstBlk C' else L.par b
    depth := fun b => if b ∈ heads born then L.depth (firstBlk C') + 1 else L.depth b }

variable {C C' : List Nat} {gone born D goneF bornF F loose : List (List Nat)} {old new : List DirItem}
  {leaked : List Nat}

theorem Edit.flat (h : Edit dev dev' L C C' gone born D goneF bornF F old new) :
    D.flatMap (TinyFs.entries dev') = D.flatMap (TinyFs.entries dev) :=
  List.flatMap_congr fun d hd => entries_congr fun b hb i _ => by rw [h.frame d (by simp [hd]) b hb]

/-- The heads an edit leaves, for any reading of heads from entries. -/
theorem Edit.heads_perm (h : Edit dev dev' L C C' gone born D goneF bornF F old new) (f : DirItem → List Nat)
    {before after : List Nat} (he : (before ++ new.flatMap f).Perm (old.flatMap f ++ after)) (r keep : List Nat)
    (hb : (before ++ keep).Perm (r ++ (L.entries dev).flatMap f)) :
    (after ++ keep).Perm (r ++ (TinyFs.entries dev' C' ++
      (born.flatMap (TinyFs.entries dev') ++ D.flatMap (TinyFs.entries dev'))).flatMap f) := by
  obtain ⟨A, B, hA, hB⟩ := h.entries
  have hgone : gone.flatMap (TinyFs.entries dev) = [] := List.flatMap_eq_nil_iff.mpr h.gone_empty
  have hborn : born.flatMap (TinyFs.entries dev') = [] := List.flatMap_eq_nil_iff.mpr h.born_empty
  have hL : (L.entries dev).Perm (A ++ old ++ B ++ D.flatMap (TinyFs.entries dev)) := by
    have hp := h.dirs.flatMap_right (TinyFs.entries dev)
    rw [List.flatMap_cons, List.flatMap_append, hgone, hA, List.nil_append] at hp
    exact hp
  rw [List.perm_iff_count] at *
  intro a
  have h1 := he a
  have h2 := hb a
  have h3 := ((List.perm_iff_count.mpr hL).flatMap_right f).count_eq a
  rw [hB, hborn, h.flat, List.nil_append]
  simp only [List.flatMap_append, List.count_append] at *
  omega

/-- An edit keeps the volume well formed. -/
theorem Volume.edit (hv : Volume n dev L) (h : Edit dev dev' L C C' gone born D goneF bornF F old new)
    (ho : Owned n dev' (L.edit C' born D bornF F).chains L.leaked) :
    Volume n dev' (L.edit C' born D bornF F) := by
  obtain ⟨A, B, hA, hB⟩ := h.entries
  have hC : C ∈ L.dirs := h.dirs.mem_iff.mpr (by simp)
  have hold : ∀ x ∈ old, x ∈ TinyFs.entries dev C := fun x hx => by simp [hA, hx]
  have hmemD : ∀ d ∈ D, d ∈ L.dirs := fun d hd => h.dirs.mem_iff.mpr (by simp [hd])
  have hkeep : ∀ b ∈ heads L.dirs, b ∉ heads born := by
    intro b hb hb'
    obtain ⟨d, hd, rfl⟩ := mem_heads hb'
    exact h.born_fresh d hd hb
  have hhead : firstBlk C' ∉ heads born := hkeep _ (by rw [h.head]; exact firstBlk_mem_heads hC)
  have hroot : rootDirBlk ∉ heads born := hkeep _ (hv.dirHeads.mem_iff.mpr (by simp))
  -- the tree conditions of an entry whose directory was there before
  have htree : ∀ d ∈ L.dirs, ∀ x : DirItem, (∃ y ∈ TinyFs.entries dev d, y.type = itemDir ∧ y.blk = x.blk) →
      (L.edit C' born D bornF F).par x.blk = firstBlk d ∧
      (L.edit C' born D bornF F).depth (firstBlk d) < (L.edit C' born D bornF F).depth x.blk := by
    rintro d hd x ⟨y, hy, hty, hyx⟩
    obtain ⟨h1, h2⟩ := hv.tree d hd y hy hty
    have hy' : x.blk ∉ heads born := hyx ▸ hkeep _ (hv.mem_dirs hd hy hty)
    have hd' : firstBlk d ∉ heads born := hkeep _ (firstBlk_mem_heads hd)
    simp only [Layout.edit, if_neg hy', if_neg hd']
    exact ⟨hyx ▸ h1, hyx ▸ h2⟩
  refine ⟨ho, ?_, ?_, ?_, ?_, ?_⟩
  · have hb : (heads gone ++ (firstBlk C :: heads D)).Perm
        ([rootDirBlk] ++ (L.entries dev).flatMap (·.dirHead)) := by
      have hp : (heads L.dirs).Perm (firstBlk C :: (heads gone ++ heads D)) := by
        have hm := h.dirs.map firstBlk
        rw [List.map_cons, List.map_append] at hm
        exact hm
      exact (List.perm_middle.trans hp.symm).trans hv.dirHeads
    have hp := h.heads_perm _ h.dirHeads _ _ hb
    have hx : (heads (L.edit C' born D bornF F).dirs).Perm (heads born ++ (firstBlk C :: heads D)) := by
      simp only [Layout.edit, heads_cons, heads_append, h.head]
      exact List.perm_middle.symm
    refine hx.trans (hp.trans (.of_eq ?_))
    simp [Layout.edit, Layout.entries]
  · have hb : (heads goneF ++ heads F).Perm ([] ++ (L.entries dev).flatMap (·.fileHead)) := by
      have hp : (heads L.files).Perm (heads goneF ++ heads F) := by
        have hm := h.files.map firstBlk
        rw [List.map_append] at hm
        exact hm
      exact hp.symm.trans hv.fileHeads
    have hp := h.heads_perm _ h.fileHeads _ _ hb
    have hx : heads (L.edit C' born D bornF F).files = heads bornF ++ heads F := by
      simp [Layout.edit]
    rw [hx]
    refine hp.trans (.of_eq ?_)
    simp [Layout.edit, Layout.entries]
  · intro hup d hd b hb
    simp only [Layout.edit, List.mem_cons, List.mem_append] at hd
    rcases hd with rfl | hd | hd
    · simp only [Layout.edit, if_neg hhead]
      rw [h.parents hup b hb, h.head]
    · simp only [Layout.edit]
      rw [if_pos (firstBlk_mem_heads hd), h.born_parents d hd b hb, h.head]
    · have hne : firstBlk d ∉ heads born := hkeep _ (firstBlk_mem_heads (hmemD d hd))
      simp only [Layout.edit, if_neg hne]
      rw [h.frame d (by simp [hd]) b hb, hv.parents hup d (hmemD d hd) b hb]
  · simp only [Layout.edit, if_neg hroot]
    exact hv.root
  · intro d hd x hx ht
    have hdirs : d = C' ∨ d ∈ born ∨ d ∈ D := by simpa [Layout.edit] using hd
    rcases hdirs with rfl | hd | hd
    · rw [hB] at hx
      have hcases : x ∈ new ∨ x ∈ TinyFs.entries dev C := by
        rw [hA]
        simp only [List.mem_append] at hx ⊢
        rcases hx with (hx | hx) | hx
        · exact .inr (.inl (.inl hx))
        · exact .inl hx
        · exact .inr (.inr hx)
      rcases hcases with hx | hx
      · rcases h.dirs_from x hx ht with hborn | ⟨y, hy, hty, hyx⟩
        · simp only [Layout.edit, if_pos hborn, if_neg hhead]
          exact ⟨trivial, Nat.lt_succ_self _⟩
        · rw [h.head]
          exact htree C hC x ⟨y, hold y hy, hty, hyx⟩
      · rw [h.head]
        exact htree C hC x ⟨x, hx, ht, rfl⟩
    · rw [h.born_empty d hd] at hx
      simp at hx
    · have hx' : x ∈ TinyFs.entries dev d := by
        have hsame : TinyFs.entries dev' d = TinyFs.entries dev d :=
          entries_congr fun b hb i _ => by rw [h.frame d (by simp [hd]) b hb]
        exact hsame ▸ hx
      exact htree d (hmemD d hd) x ⟨x, hx', ht, rfl⟩

end TinyFs
