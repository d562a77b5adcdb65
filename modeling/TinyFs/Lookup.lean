/-
`find_file` on the never-failing drive. The walk over the chain of a directory
is `find?` over its slots: the first entry with the name, or the first free
slot. Where there is neither, the directory gets a new block at its end, which
adds free slots and changes no entry.
-/
import TinyFs.Ready

namespace TinyFs

open Bytes Chains

/-- The entry answers to the name. -/
def hits (e : Env) (name : List UInt8) (x : DirItem) : Bool := x.live && e.filenameCmp name x.name

variable {e : Env} {n : Nat} {s : State} {name : List UInt8} {cs : List (List Nat)} {xs C : List Nat}

theorem scanItems_eq (b : Block) (pos : Nat) (is : List Nat) (free : Option (Nat × Nat)) :
    scanItems e name b pos is free = match is.find? fun i => hits e name (b.item i) with
      | some i => .inl i
      | none => .inr (free.or ((is.find? fun i => !(b.item i).live).map fun i => (pos, i))) := by
  induction is generalizing free with
  | nil => simp [scanItems]
  | cons i is ih =>
    rw [scanItems]
    by_cases hfree : b.itemType i = itemFree
    · have hlive : (b.item i).live = false := by simp [DirItem.live, hfree]
      rw [if_pos hfree, ih, List.find?_cons, List.find?_cons]
      simp only [hits, hlive, Bool.false_and, Bool.not_false, Option.map_some]
      cases free <;> rfl
    · have hlive : (b.item i).live = true := by simp [DirItem.live, hfree]
      rw [if_neg hfree, List.find?_cons, List.find?_cons]
      simp only [hits, hlive, Bool.true_and, Block.item_name, Bool.not_true]
      by_cases hcmp : e.filenameCmp name (b.itemName i) = true
      · simp only [hcmp, if_true]
      · simp only [hcmp, if_false, Bool.false_eq_true]
        rw [ih]
        simp only [hits, Block.item_name]

/-- The scan of one block, read as a search of its slots. -/
theorem scanItems_slots (dev : Nat → Block) (b : Nat) (free : Option (Nat × Nat)) :
    scanItems e name (dev b) b (List.range dirBlkItems) free =
      match (slots [b]).find? fun p => hits e name (itemAt dev p) with
      | some p => .inl p.2
      | none => .inr (free.or ((slots [b]).find? fun p => !(itemAt dev p).live)) := by
  have hslots : slots [b] = (List.range dirBlkItems).map fun i => (b, i) := by simp [slots]
  rw [scanItems_eq, hslots, List.find?_map, List.find?_map]
  have h1 : ((fun p => hits e name (itemAt dev p)) ∘ fun i => (b, i)) = fun i => hits e name ((dev b).item i) := rfl
  have h2 : ((fun p => !(itemAt dev p).live) ∘ fun i => (b, i)) = fun i => !((dev b).item i).live := rfl
  rw [h1, h2]
  cases (List.range dirBlkItems).find? fun i => hits e name ((dev b).item i) <;> rfl

/-- The walk over a chain `c`, from its first block to its end. -/
theorem findWalk_ok (he : e.NeverFails) (name : List UInt8) (c : List Nat) :
    ∀ (fuel p : Nat) (free : Option (Nat × Nat)) (s : State),
    c ≠ [] → c.length ≤ fuel → LinkedOn s.dev p c 0 → (∀ b ∈ c, b < s.blkCount ∧ b ≠ 0) → s.tfsLastError = .ok →
    (∃ q l, ((slots c).find? fun p => hits e name (itemAt s.dev p)) = some q ∧
      findWalk e name fuel (firstBlk c) free s = some (.found q.2, { s with
        blkBuf := s.dev q.1, loadedDirBlk := q.1, log := l })) ∨
    (∃ l, ((slots c).find? fun p => hits e name (itemAt s.dev p)) = none ∧
      findWalk e name fuel (firstBlk c) free s =
        some (.missing (free.or ((slots c).find? fun p => !(itemAt s.dev p).live)), { s with
          blkBuf := s.dev (c.getLastD 0), loadedDirBlk := c.getLastD 0, log := l })) := by
  induction c with
  | nil => intro fuel p free s hne; exact absurd rfl hne
  | cons b c ih =>
    intro fuel p free s _ hlen hl hr herr
    obtain ⟨fuel, rfl⟩ : ∃ k, fuel = k + 1 := ⟨fuel - 1, by simp at hlen; omega⟩
    obtain ⟨_, hnext, hl⟩ := hl
    obtain ⟨hb, _⟩ := hr b (by simp)
    have hsplit : slots (b :: c) = slots [b] ++ slots c := slots_append [b] c
    rw [firstBlk_cons, findWalk, Prog.bind_some (driveReadBlock_ok he herr hb), ifOk_ok (by exact herr),
      Prog.modify_bind, blkBuf_bind, hsplit, List.find?_append, List.find?_append]
    simp only [scanItems_slots]
    rcases hhit : (slots [b]).find? fun p => hits e name (itemAt s.dev p) with _ | q
    · simp only [Option.none_or]
      by_cases hend : c = []
      · subst hend
        have hz : (s.dev b).next = 0 := hnext
        refine .inr ⟨s.log.transfer (.read b true), rfl, ?_⟩
        simp only [hz, if_true, Prog.pure_apply, slots_nil, List.find?_nil, Option.or_none]
        rfl
      · have hfirst : (s.dev b).next = firstBlk c := hnext
        have hne : firstBlk c ≠ 0 := (hr _ (List.mem_cons_of_mem _ (firstBlk_mem hend))).2
        have hlast : (b :: c).getLastD 0 = c.getLastD 0 := by
          cases c with
          | nil => exact absurd rfl hend
          | cons x c => rfl
        simp only [hfirst, hne, if_false, hlast]
        rw [← Option.or_assoc]
        exact ih fuel b _ { s with blkBuf := s.dev b, loadedDirBlk := b, log := s.log.transfer (.read b true) }
          hend (by simpa using hlen) hl (fun x hx => hr x (by simp [hx])) herr
    · have hq : q.1 = b := by
        have := (mem_slots.mp (List.mem_of_find?_eq_some hhit)).1
        simpa using this
      refine .inl ⟨q, s.log.transfer (.read b true), rfl, ?_⟩
      simp only [Prog.pure_apply, hq]

theorem findFile_noName (hname : name.headD 0 = 0) (want : Bool) :
    findFile e name want s = some (none, { s with tfsLastError := .noName }) := by
  rw [findFile, if_pos hname, setErr_bind]
  rfl

/-- The blocks `c` are a chain of the medium that a loop can follow to its end. -/
structure ChainOn (e : Env) (s : State) (c : List Nat) : Prop where
  ne : c ≠ []
  linked : LinkedOn s.dev 0 c 0
  blocks : ∀ b ∈ c, b < s.blkCount ∧ b ≠ 0
  short : c.length ≤ e.fuel

theorem Ready.chainOn (h : Ready n s cs xs) (hf : n ≤ e.fuel) {c : List Nat} (hc : c ∈ cs) : ChainOn e s c := by
  obtain ⟨hne, hlink⟩ := h.owned.chain c hc
  have hlen := h.owned.length_lt hc
  exact ⟨hne, hlink, fun b hb => ⟨h.mem_lt hc hb, ne_zero_of_mod (h.owned.mem_mod hc hb)⟩, by omega⟩

/-- The walk of `find_file` over the current directory `C`. -/
theorem ChainOn.findWalk (he : e.NeverFails) (h : ChainOn e s C) (hcur : s.currentDirBlk = firstBlk C)
    (herr : s.tfsLastError = .ok) (name : List UInt8) :
    (∃ q l, ((slots C).find? fun p => hits e name (itemAt s.dev p)) = some q ∧
      findWalk e name e.fuel s.currentDirBlk none s = some (.found q.2, { s with
        blkBuf := s.dev q.1, loadedDirBlk := q.1, log := l })) ∨
    (∃ l, ((slots C).find? fun p => hits e name (itemAt s.dev p)) = none ∧
      findWalk e name e.fuel s.currentDirBlk none s =
        some (.missing ((slots C).find? fun p => !(itemAt s.dev p).live), { s with
          blkBuf := s.dev (C.getLastD 0), loadedDirBlk := C.getLastD 0, log := l })) := by
  have hw := findWalk_ok he name C e.fuel 0 none s h.ne h.short h.linked h.blocks herr
  simp only [Option.none_or, ← hcur] at hw
  exact hw

/-- A lookup finds the first entry with the name, or nothing. -/
theorem ChainOn.findFile (he : e.NeverFails) (h : ChainOn e s C) (hcur : s.currentDirBlk = firstBlk C)
    (herr : s.tfsLastError = .ok) (hname : name.headD 0 ≠ 0) :
    (∃ q l, ((slots C).find? fun p => hits e name (itemAt s.dev p)) = some q ∧ ∀ want, findFile e name want s =
      some (some q.2, { s with blkBuf := s.dev q.1, loadedDirBlk := q.1, log := l })) ∨
    (((slots C).find? fun p => hits e name (itemAt s.dev p)) = none ∧ ∃ l, findFile e name false s =
      some (none, { s with blkBuf := s.dev (C.getLastD 0), loadedDirBlk := C.getLastD 0, log := l })) := by
  rcases h.findWalk he hcur herr name with ⟨q, l, hq, hw⟩ | ⟨l, hq, hw⟩
  · refine .inl ⟨q, l, hq, fun want => ?_⟩
    rw [TinyFs.findFile, if_neg hname, Prog.gets_bind, id_eq, Prog.bind_some hw]
    rfl
  · refine .inr ⟨hq, l, ?_⟩
    rw [TinyFs.findFile, if_neg hname, Prog.gets_bind, id_eq, Prog.bind_some hw]
    rfl

theorem InDir.chainOn (h : InDir n s C cs xs) (hf : n ≤ e.fuel) : ChainOn e s C := h.toReady.chainOn hf (by simp)

theorem findFile_lookup (he : e.NeverFails) (hf : n ≤ e.fuel) (h : InDir n s C cs xs) (hname : name.headD 0 ≠ 0) :
    (∃ q l, ((slots C).find? fun p => hits e name (itemAt s.dev p)) = some q ∧ ∀ want, findFile e name want s =
      some (some q.2, { s with blkBuf := s.dev q.1, loadedDirBlk := q.1, log := l })) ∨
    (((slots C).find? fun p => hits e name (itemAt s.dev p)) = none ∧ ∃ l, findFile e name false s =
      some (none, { s with blkBuf := s.dev (C.getLastD 0), loadedDirBlk := C.getLastD 0, log := l })) :=
  (h.chainOn hf).findFile he h.cur h.err hname

/-! ## A free slot -/

/-- A free slot for a new entry: the directory `C`, grown to `C'` where it was
full, with its slot `q` free and its block in the buffer. -/
structure FreeSlot (n : Nat) (s s' : State) (C C' : List Nat) (cs : List (List Nat)) (xs : List Nat)
    (q : Nat × Nat) : Prop extends InDir n s' C' cs xs where
  frame : Frame s s'
  buf : s'.blkBuf = s'.dev q.1
  dirBlk : s'.loadedDirBlk = q.1
  mem : q ∈ slots C'
  free : (itemAt s'.dev q).live = false
  head : firstBlk C' = firstBlk C
  grows : C <+: C'
  same : C' = C → s'.dev = s.dev
  entries : entries s'.dev C' = entries s.dev C
  items : ∀ p ∈ slots C, p ∈ slots C' ∧ itemAt s'.dev p = itemAt s.dev p
  parents : ∀ par, (∀ b ∈ C, (s.dev b).parent = par) → ∀ b ∈ C', (s'.dev b).parent = par
  compact : Compact s.dev C → Compact s'.dev C'
  agree : AgreeOff C' s.dev s'.dev

/-- A chain with a new block behind its last one. -/
theorem Chain.snoc {dev dev' : Nat → Block} {c : List Nat} {z b : Nat} (h : Chain dev (c ++ [z]))
    (hc : ∀ x ∈ c, dev' x = dev x) (hz : (dev' z).prev = (dev z).prev) (hzn : (dev' z).next = b)
    (hb : (dev' b).prev = z) (hbn : (dev' b).next = 0) : Chain dev' (c ++ [z] ++ [b]) := by
  refine ⟨by simp, ?_⟩
  have hl := h.2
  rw [LinkedOn, linked_append] at hl
  obtain ⟨h1, h2, _, _⟩ := hl
  have h1' : LinkedOn dev' 0 c z := h1.congr (fun x hx => by rw [hc x hx]) (fun x hx => by rw [hc x hx])
  have hlast : (c ++ [z]).getLastD 0 = z := by simp
  rw [LinkedOn, linked_append, linked_append, hlast]
  exact ⟨⟨h1', hz.trans h2, hzn, trivial⟩, hb, hbn, trivial⟩

/-- The block `find_file` appends: no entry, the parent of the block before it. -/
def newDirBlk (last : Block) (z b : Nat) : Block := (((last.setNext b).setPrev z).setNext 0).clearItems

/-- The medium with block `b` appended to a directory that ends in block `z`. -/
def growDir (dev : Nat → Block) (z b : Nat) : Nat → Block :=
  Function.update (Function.update dev z ((dev z).setNext b)) b (newDirBlk (dev z) z b)

section Grow

variable {dev : Nat → Block} {c : List Nat} {z b : Nat}

theorem growDir_new : growDir dev z b b = newDirBlk (dev z) z b := Function.update_self ..

theorem growDir_last (h : z ≠ b) : growDir dev z b z = (dev z).setNext b := by
  rw [growDir, Function.update_of_ne h, Function.update_self]

theorem growDir_ne {x : Nat} (hz : x ≠ z) (hb : x ≠ b) : growDir dev z b x = dev x := by
  rw [growDir, Function.update_of_ne hb, Function.update_of_ne hz]

theorem growDir_free (i : Nat) (hi : i < dirBlkItems) : (growDir dev z b b).itemType i = itemFree := by
  rw [growDir_new]
  exact Block.itemType_clearItems hi

theorem growDir_item {x : Nat} (hb : x ≠ b) (i : Nat) : (growDir dev z b x).item i = (dev x).item i := by
  by_cases hz : x = z
  · subst hz
    rw [growDir_last hb, Block.item_setNext]
  · rw [growDir_ne hz hb]

theorem growDir_entries (hb : b ∉ c) : entries (growDir dev z b) (c ++ [b]) = entries dev c := by
  rw [entries_append, entries_single_free growDir_free, List.append_nil]
  exact entries_congr fun x hx i _ => growDir_item (ne_of_mem_of_not_mem hx hb) i

theorem growDir_parent {x : Nat} : (growDir dev z b x).parent = if x = b then (dev z).parent else (dev x).parent := by
  by_cases hb : x = b
  · subst hb
    rw [if_pos rfl, growDir_new]
    simp [newDirBlk]
  · rw [if_neg hb]
    by_cases hz : x = z
    · subst hz
      rw [growDir_last hb, Block.parent_setNext]
    · rw [growDir_ne hz hb]

theorem growDir_chain (h : Chain dev (c ++ [z])) (hnd : (c ++ [z]).Nodup) (hb : b ∉ c ++ [z]) (hb32 : b < 2 ^ 32)
    (hz32 : z < 2 ^ 32) : Chain (growDir dev z b) (c ++ [z] ++ [b]) := by
  have hzb : z ≠ b := fun he => hb (by simp [he])
  have hzc : ∀ x ∈ c, x ≠ z := fun x hx he => (List.nodup_append.mp hnd).2.2 x hx z (by simp) he
  refine Chain.snoc h (fun x hx => growDir_ne (hzc x hx) fun he => hb (by simp [← he, hx])) ?_ ?_ ?_ ?_
  · rw [growDir_last hzb, Block.prev_setNext]
  · rw [growDir_last hzb, Block.next_setNext, Nat.mod_eq_of_lt hb32]
  · rw [growDir_new, newDirBlk]
    simp only [Block.prev_clearItems, Block.prev_setNext, Block.prev_setPrev, Nat.mod_eq_of_lt hz32]
  · rw [growDir_new]
    simp [newDirBlk]

end Grow

/-- The disk is full and the call ends with that; no block has changed. -/
structure NoSpace (n : Nat) (s s' : State) (cs : List (List Nat)) (xs : List Nat) : Prop
    extends Ready n s' cs xs where
  frame : Frame s s'
  err : s'.tfsLastError = .diskFull
  full : Full n s.dev
  dev : s'.dev = s.dev

/-- The new block is written after the last one is linked to it. -/
theorem appendDirBlock_run (he : e.NeverFails) {z b : Nat} {s₁ : State} (ha : Alloc e n s (C :: cs) xs b s₁)
    (hz : z < s₁.blkCount) (hdev : s₁.dev z = s.dev z) (hbuf : s.blkBuf = s.dev z) (hdir : s.loadedDirBlk = z) :
    ∃ l, appendDirBlock e s = some (some 0, { s₁ with
      dev := growDir s₁.dev z b, blkBuf := newDirBlk (s.dev z) z b, loadedDirBlk := b, log := l }) := by
  have hb : b < s₁.blkCount := ha.ready.single_lt (by simp)
  rw [appendDirBlock, Prog.bind_some ha.run, ifOk_ok ha.err, modifyBuf_bind]
  simp only [Prog.gets_bind, id_eq, ha.kept.buf, ha.kept.dirBlk, hbuf, hdir]
  rw [Prog.bind_some (driveWriteBlock_ok he (by exact ha.err) (by exact hz)), ifOk_ok (by exact ha.err),
    modifyBuf_bind, Prog.modify_bind, Prog.bind_some (driveWriteBlock_ok he (by exact ha.err) (by exact hb)),
    ifOk_ok (by exact ha.err), growDir, hdev]
  exact ⟨_, rfl⟩

theorem appendDirBlock_ok (he : e.NeverFails) (hf : n ≤ e.fuel) (h : InDir n s C cs xs)
    (hbuf : s.blkBuf = s.dev (C.getLastD 0)) (hdir : s.loadedDirBlk = C.getLastD 0)
    (hfull : ∀ b ∈ C, entries s.dev [b] ≠ []) :
    (∃ C' q s', appendDirBlock e s = some (some q.2, s') ∧ FreeSlot n s s' C C' cs xs q ∧ C'.length = C.length + 1) ∨
    (∃ s', appendDirBlock e s = some (none, s') ∧ NoSpace n s s' (C :: cs) xs) := by
  rcases h.alloc he hf h.err with ⟨b, s₁, ha⟩ | ⟨s₁, ha⟩
  · left
    have hne := (h.owned.chain C (by simp)).1
    obtain ⟨c, z, hC⟩ : ∃ c z, C = c ++ [z] := ⟨C.dropLast, C.getLast hne, (List.dropLast_append_getLast hne).symm⟩
    have hlast : C.getLastD 0 = z := by simp [hC]
    have hzC : z ∈ C := by simp [hC]
    rw [hlast] at hbuf hdir
    have hdev : ∀ x ∈ C, s₁.dev x = s.dev x := fun x hx => ha.agree x (h.owned.mem_mod (by simp) hx) (by simp)
    have hbC : b ∉ C := fun hb => by
      have hnd := ha.ready.owned.nodup
      simp only [List.cons_append, List.nodup_cons, List.mem_append, List.flatten_cons] at hnd
      exact hnd.1 (.inr (.inl hb))
    have hlt : ∀ x < n, x < 2 ^ 32 := fun x hx => Nat.lt_trans hx h.mounted.lt
    obtain ⟨l, hrun⟩ := appendDirBlock_run he ha (ha.ready.mem_lt (c := C) (by simp) hzC) (hdev z hzC) hbuf hdir
    have hR : Ready n s₁ cs (C ++ b :: xs) := ⟨ha.ready.mounted, ha.ready.cache, ha.ready.owned.release⟩
    have hR2 := (hR.store (b := z) (by simp [hzC]) ((s₁.dev z).setNext b) l).store (b := b) (by simp)
      (newDirBlk (s₁.dev z) z b) l
    have hchain : Chain (growDir s₁.dev z b) (C ++ [b]) := by
      rw [hC]
      refine growDir_chain ?_ ?_ (hC ▸ hbC) (hlt b ?_) (hlt z (h.owned.mem_lt (c := C) (by simp) hzC))
      · exact hC ▸ ha.ready.owned.chain C (by simp)
      · exact hC ▸ h.owned.chain_nodup (by simp)
      · exact (ha.ready.owned.range b (by simp)).1
    have hR3 : Owned n (growDir s₁.dev z b) cs (C ++ [b] ++ xs) := hR2.owned.perm (.refl _) (.of_eq (by simp))
    have hentries : entries (growDir s₁.dev z b) (C ++ [b]) = entries s.dev C := by
      rw [growDir_entries hbC]
      exact entries_congr fun x hx i _ => by rw [hdev x hx]
    refine ⟨C ++ [b], (b, 0), _, hrun, ⟨⟨⟨hR2.mounted, hR2.cache, hR3.adopt hchain⟩, ha.err, ?_⟩,
      ⟨ha.kept.blkCount, ha.kept.lastBlk, ha.kept.lastLen, ha.kept.cur, ha.kept.handles⟩, ?_, rfl, ?_, ?_,
      firstBlk_append hne _, List.prefix_append C [b], fun heq => absurd (congrArg List.length heq) (by simp),
        hentries, ?_, ?_,
      fun _ => ?_, ?_⟩, by simp⟩
    · rw [firstBlk_append hne]
      exact ha.kept.cur.trans h.cur
    · show newDirBlk (s.dev z) z b = growDir s₁.dev z b b
      rw [growDir_new, hdev z hzC]
    · exact mem_slots.mpr ⟨by simp, by simp [dirBlkItems]⟩
    · exact live_of_free (growDir_free 0 (by simp [dirBlkItems]))
    · intro p hp
      obtain ⟨h1, h2⟩ := mem_slots.mp hp
      refine ⟨mem_slots.mpr ⟨List.mem_append_left _ h1, h2⟩, ?_⟩
      show (growDir s₁.dev z b p.1).item p.2 = (s.dev p.1).item p.2
      rw [growDir_item (ne_of_mem_of_not_mem h1 hbC), hdev p.1 h1]
    · intro par hpar x hx
      show (growDir s₁.dev z b x).parent = par
      rw [growDir_parent]
      by_cases hxb : x = b
      · rw [if_pos hxb, hdev z hzC, hpar z hzC]
      · have hxC : x ∈ C := by simpa [hxb] using hx
        rw [if_neg hxb, hdev x hxC, hpar x hxC]
    · show Compact (growDir s₁.dev z b) (C ++ [b])
      refine .snoc fun x hx => ?_
      have hsame : entries (growDir s₁.dev z b) [x] = entries s.dev [x] := by
        refine entries_single fun i _ => ?_
        rw [growDir_item (ne_of_mem_of_not_mem hx hbC), hdev x hx]
      rw [hsame]
      exact hfull x hx
    · intro x hm hx
      show growDir s₁.dev z b x = s.dev x
      rw [growDir_ne (fun he => hx (by simp [he, hzC])) (fun he => hx (by simp [he]))]
      exact ha.agree x hm (by simp)
  · right
    have herr : s₁.tfsLastError ≠ .ok := by
      rw [ha.err]
      exact Err.noConfusion
    refine ⟨s₁, ?_, ⟨ha.ready, ha.kept.toFrame, ha.err, ha.full, ha.dev⟩⟩
    rw [appendDirBlock, Prog.bind_some ha.run, ifOk_err herr]

/-- The state after a read of a directory block. -/
theorem InDir.look (h : InDir n s C cs xs) (b : Nat) (l : DriveLog) :
    InDir n { s with blkBuf := s.dev b, loadedDirBlk := b, log := l } C cs xs :=
  ⟨⟨h.mounted, h.cache, h.owned⟩, h.err, h.cur⟩

/-- A free slot that was there already. -/
theorem FreeSlot.of_vacant (h : InDir n s C cs xs) {q : Nat × Nat}
    (hq : ((slots C).find? fun p => !(itemAt s.dev p).live) = some q) (l : DriveLog) :
    FreeSlot n s { s with blkBuf := s.dev q.1, loadedDirBlk := q.1, log := l } C C cs xs q :=
  ⟨h.look q.1 l, ⟨rfl, rfl, rfl, rfl, rfl⟩, rfl, rfl, List.mem_of_find?_eq_some hq, by
    simpa using List.find?_some hq, rfl, List.prefix_refl C, fun _ => rfl, rfl, fun p hp => ⟨hp, rfl⟩,
    fun _ hp => hp, fun h => h, AgreeOff.refl⟩

theorem FreeSlot.trans {s₁ s' : State} {C' : List Nat} {q : Nat × Nat} (h : FreeSlot n s₁ s' C C' cs xs q)
    (hf : Frame s s₁) (hd : s₁.dev = s.dev) : FreeSlot n s s' C C' cs xs q :=
  { h with
    frame := hf.trans h.frame
    same := hd ▸ h.same
    entries := hd ▸ h.entries
    items := hd ▸ h.items
    parents := hd ▸ h.parents
    compact := hd ▸ h.compact
    agree := hd ▸ h.agree }

theorem NoSpace.trans {s₁ s' : State} (h : NoSpace n s₁ s' cs xs) (hf : Frame s s₁) (hd : s₁.dev = s.dev) :
    NoSpace n s s' cs xs :=
  ⟨h.toReady, hf.trans h.frame, h.err, hd ▸ h.full, h.dev.trans hd⟩

/-- Where no item is free, every block holds an entry. -/
theorem entries_of_full {dev : Nat → Block} (h : ((slots C).find? fun p => !(itemAt dev p).live) = none) :
    ∀ b ∈ C, entries dev [b] ≠ [] := by
  intro b hb
  have hfirst := List.find?_eq_none.mp h (b, 0) (mem_slots.mpr ⟨hb, by simp [dirBlkItems]⟩)
  rw [Bool.not_eq_true, Bool.not_eq_false'] at hfirst
  exact List.ne_nil_of_mem (mem_entries.mpr ⟨b, by simp, 0, by simp [dirBlkItems], rfl, hfirst⟩)

/-- How many blocks a directory grows by for a new entry: none where it has a free item. -/
def growth (dev : Nat → Block) (C : List Nat) : Nat :=
  if ((slots C).find? fun p => !(itemAt dev p).live).isSome then 0 else 1

/-- Where no entry has the name, `find_file` ends at a free slot, or finds the disk full. -/
theorem findFile_free (he : e.NeverFails) (hf : n ≤ e.fuel) (h : InDir n s C cs xs) (hname : name.headD 0 ≠ 0)
    (hmiss : ((slots C).find? fun p => hits e name (itemAt s.dev p)) = none) :
    (∃ C' q s', findFile e name true s = some (some q.2, s') ∧ FreeSlot n s s' C C' cs xs q ∧
      C'.length = C.length + growth s.dev C) ∨
    (∃ s', findFile e name true s = some (none, s') ∧ NoSpace n s s' (C :: cs) xs ∧ growth s.dev C = 1) := by
  have hne := (h.owned.chain C (by simp)).1
  rcases (h.chainOn hf).findWalk he h.cur h.err name with ⟨q, l, hq, _⟩ | ⟨l, _, hw⟩
  · rw [hmiss] at hq
    cases hq
  · rw [findFile, if_neg hname, Prog.gets_bind, id_eq, Prog.bind_some hw]
    rcases hfree : (slots C).find? fun p => !(itemAt s.dev p).live with _ | q
    · have happ := appendDirBlock_ok he hf (h.look (C.getLastD 0) l) rfl rfl (entries_of_full hfree)
      have hgrow : growth s.dev C = 1 := by simp [growth, hfree]
      rcases happ with ⟨C', q, s', hrun, hs', hlen⟩ | ⟨s', hrun, hs'⟩
      · exact .inl ⟨C', q, s', hrun, hs'.trans ⟨rfl, rfl, rfl, rfl, rfl⟩ rfl, hgrow ▸ hlen⟩
      · exact .inr ⟨s', hrun, hs'.trans ⟨rfl, rfl, rfl, rfl, rfl⟩ rfl, hgrow⟩
    · left
      have hgrow : growth s.dev C = 0 := by simp [growth, hfree]
      simp only [Bool.not_true, Bool.false_eq_true, if_false, Prog.gets_bind, id_eq]
      by_cases hz : C.getLastD 0 = q.1
      · refine ⟨C, q, _, ?_, FreeSlot.of_vacant h hfree l, by rw [hgrow, Nat.add_zero]⟩
        rw [if_neg (by simpa using hz), hz]
        rfl
      · have hq : q.1 < s.blkCount := h.mem_lt (c := C) (by simp) (mem_slots.mp (List.mem_of_find?_eq_some hfree)).1
        refine ⟨C, q, _, ?_, FreeSlot.of_vacant h hfree (l.transfer (.read q.1 true)), by rw [hgrow, Nat.add_zero]⟩
        rw [if_pos (by simpa using hz), Prog.bind_some (driveReadBlock_ok he (by exact h.err) (by exact hq)),
          ifOk_ok (by exact h.err), Prog.modify_bind]
        rfl

end TinyFs
