/-
The calls that change no block of the volume: moving to another directory,
listing the current one, counting the used blocks. Each of them returns, and
leaves the volume as it is with the current directory one of its directories.
-/
import TinyFs.Steps

namespace TinyFs

open Bytes Chains

variable {e : Env} {n : Nat} {s s' : State} {L : Layout} {C : List Nat}

/-- A call that leaves the medium and the handles as they are. -/
structure Stays (n : Nat) (s s' : State) (L : Layout) : Prop where
  sys : Sys n s' L
  dev : s'.dev = s.dev
  handles : s'.handles = s.handles
  full : s'.tfsLastError = .diskFull → s.tfsLastError = .diskFull

/-! ## Listing -/

/-- The items a handler is called with before it asks to stop, behind those it has seen. -/
def offered (handler : List DirItem → Bool) : List DirItem → List DirItem → List DirItem × Bool
  | [], seen => (seen, true)
  | x :: xs, seen => if handler (seen ++ [x]) then offered handler xs (seen ++ [x]) else (seen ++ [x], false)

/-- All items of a directory, the free ones as well. -/
def items (dev : Nat → Block) (c : List Nat) : List DirItem := (slots c).map (itemAt dev)

theorem passItems_eq (handler : List DirItem → Bool) (b : Block) (is : List Nat) (seen : List DirItem) :
    passItems handler b is seen = offered handler (is.map b.item) seen := by
  induction is generalizing seen with
  | nil => rfl
  | cons i is ih =>
    rw [passItems, List.map_cons, offered]
    simp only [ih]

theorem offered_append (handler : List DirItem → Bool) (xs ys seen : List DirItem) : offered handler (xs ++ ys) seen =
    if (offered handler xs seen).2 then offered handler ys (offered handler xs seen).1 else offered handler xs seen := by
  induction xs generalizing seen with
  | nil => simp [offered]
  | cons x xs ih =>
    rw [List.cons_append, offered, offered]
    split
    · exact ih _
    · simp

/-- A handler that never stops is called with every item. -/
theorem offered_all {handler : List DirItem → Bool} (h : ∀ seen, handler seen = true) (xs seen : List DirItem) :
    offered handler xs seen = (seen ++ xs, true) := by
  induction xs generalizing seen with
  | nil => simp [offered]
  | cons x xs ih => rw [offered, if_pos (h _), ih, List.append_assoc, List.singleton_append]

theorem items_cons (dev : Nat → Block) (b : Nat) (c : List Nat) :
    items dev (b :: c) = (List.range dirBlkItems).map (dev b).item ++ items dev c := by
  rw [items, slots_cons, List.map_append, List.map_map, items]
  rfl

theorem items_live (dev : Nat → Block) (c : List Nat) : (items dev c).filter (·.live) = entries dev c := rfl

theorem readDirLoop_ok (he : e.NeverFails) (handler : List DirItem → Bool) (c : List Nat) :
    ∀ (fuel p : Nat) (seen : List DirItem) (s : State),
    c ≠ [] → c.length ≤ fuel → LinkedOn s.dev p c 0 → (∀ b ∈ c, b < s.blkCount ∧ b ≠ 0) → s.tfsLastError = .ok →
    ∃ b l, readDirLoop e handler fuel (firstBlk c) seen s =
      some (((offered handler (items s.dev c) seen).2, (offered handler (items s.dev c) seen).1), { s with
        blkBuf := b, log := l }) := by
  induction c with
  | nil => intro fuel p seen s hne; exact absurd rfl hne
  | cons b c ih =>
    intro fuel p seen s _ hlen hl hr herr
    obtain ⟨fuel, rfl⟩ : ∃ k, fuel = k + 1 := ⟨fuel - 1, by simp at hlen; omega⟩
    obtain ⟨_, hnext, hl⟩ := hl
    obtain ⟨hb, _⟩ := hr b (by simp)
    rw [firstBlk_cons, readDirLoop, Prog.bind_some (driveReadBlock_ok he herr hb), ifOk_ok (by exact herr),
      blkBuf_bind]
    simp only [passItems_eq, items_cons, offered_append]
    rcases hoff : offered handler ((List.range dirBlkItems).map (s.dev b).item) seen with ⟨seen', more⟩
    cases more with
    | false => exact ⟨s.dev b, s.log.transfer (.read b true), rfl⟩
    | true =>
      by_cases hend : c = []
      · subst hend
        have hz : (s.dev b).next = 0 := hnext
        simp only [hz, if_true]
        exact ⟨s.dev b, s.log.transfer (.read b true), rfl⟩
      · have hfirst : (s.dev b).next = firstBlk c := hnext
        have hne : firstBlk c ≠ 0 := (hr _ (List.mem_cons_of_mem _ (firstBlk_mem hend))).2
        simp only [hfirst, hne, if_false, if_true]
        exact ih fuel b seen' { s with blkBuf := s.dev b, log := s.log.transfer (.read b true) } hend
          (by simpa using hlen) hl (fun x hx => hr x (by simp [hx])) herr

/-- `tfs_read_dir` calls the handler with the items of the current directory, from
the first on, until it stops, and returns whether it never did. -/
theorem tfsReadDir_run (he : e.NeverFails) (hf : n ≤ e.fuel) (hs : Sys n s L) (hC : C ∈ L.dirs)
    (hcur : firstBlk C = s.currentDirBlk) (handler : List DirItem → Bool) : ∃ b l, tfsReadDir e handler s =
      some (((offered handler (items s.dev C) []).2, (offered handler (items s.dev C) []).1),
        State.call { s with tfsLastError := .ok, blkBuf := b, log := l } .deselect) := by
  have hC' : C ∈ L.chains := List.mem_append_left _ hC
  obtain ⟨hne, hlink⟩ := hs.volume.owned.chain C hC'
  have hr : ∀ b ∈ C, b < s.blkCount ∧ b ≠ 0 := fun b hb =>
    ⟨hs.mounted.count ▸ hs.volume.owned.mem_lt hC' hb, ne_zero_of_mod (hs.volume.owned.mem_mod hC' hb)⟩
  have hlen := hs.volume.owned.length_le hC'
  obtain ⟨b, l, hrun⟩ := readDirLoop_ok he handler C e.fuel 0 []
    { s with tfsLastError := .ok, log := s.log.call .select } hne (by omega) hlink hr rfl
  refine ⟨b, l, enter_out (t := { s with tfsLastError := .ok, blkBuf := b, log := l }) hs.dev ?_⟩
  rw [Prog.gets_bind, id_eq]
  rw [hcur] at hrun
  exact hrun

theorem tfsReadDir_ok (he : e.NeverFails) (hf : n ≤ e.fuel) (hs : Sys n s L) (hC : C ∈ L.dirs)
    (hcur : firstBlk C = s.currentDirBlk) (handler : List DirItem → Bool) : ∃ s', tfsReadDir e handler s =
      some (((offered handler (items s.dev C) []).2, (offered handler (items s.dev C) []).1), s') ∧
      Stays n s s' L := by
  obtain ⟨b, l, hrun⟩ := tfsReadDir_run he hf hs hC hcur handler
  exact ⟨_, hrun, ⟨hs.mounted, hs.cache, hs.volume, hs.cur, Err.noConfusion⟩, rfl, rfl, Err.noConfusion⟩

/-! ## Moving -/

theorem Volume.root_mem {dev : Nat → Block} (h : Volume n dev L) : rootDirBlk ∈ heads L.dirs :=
  h.dirHeads.mem_iff.mpr (by simp)

/-- The head of a directory is the root, or the block of an entry of a directory nearer to it. -/
theorem Volume.head_cases {dev : Nat → Block} {d : List Nat} (h : Volume n dev L) (hd : d ∈ L.dirs) :
    firstBlk d = rootDirBlk ∨
    ∃ d' ∈ L.dirs, ∃ x ∈ entries dev d', x.type = itemDir ∧ x.blk = firstBlk d := by
  rcases List.mem_cons.mp (h.dirHeads.mem_iff.mp (firstBlk_mem_heads hd)) with hroot | hmem
  · exact .inl hroot
  · obtain ⟨x, hx, hhead⟩ := List.mem_flatMap.mp hmem
    obtain ⟨d', hd', hx⟩ := List.mem_flatMap.mp hx
    rw [DirItem.dirHead] at hhead
    split at hhead
    · exact .inr ⟨d', hd', x, hx, ‹_›, (List.mem_singleton.mp hhead).symm⟩
    · simp at hhead

/-- The parent of a directory other than the root is a directory. -/
theorem Volume.parent_mem {dev : Nat → Block} {d : List Nat} (h : Volume n dev L) (hd : d ∈ L.dirs)
    (hpar : L.par (firstBlk d) ≠ 0) : L.par (firstBlk d) ∈ heads L.dirs := by
  rcases h.head_cases hd with hroot | ⟨d', hd', x, hx, ht, hhead⟩
  · rw [hroot] at hpar
    exact absurd h.root hpar
  · rw [← hhead, (h.tree d' hd' x hx ht).1]
    exact firstBlk_mem_heads hd'

theorem tfsChangeDirRoot_ok (hs : Sys n s L) : ∃ s', tfsChangeDirRoot s = some ((), s') ∧ Stays n s s' L :=
  ⟨_, rfl, ⟨hs.mounted, hs.cache, hs.volume, hs.volume.root_mem, hs.dev⟩, rfl, rfl, id⟩

theorem tfsChangeDirParent_ok (he : e.NeverFails) (hs : Sys n s L) (hup : L.upLinks) :
    ∃ s', tfsChangeDirParent e s = some ((), s') ∧ Stays n s s' L ∧
      (L.par s.currentDirBlk = 0 → s'.tfsLastError = .notExist ∧ s'.currentDirBlk = s.currentDirBlk) ∧
      (L.par s.currentDirBlk ≠ 0 → s'.tfsLastError = .ok ∧ s'.currentDirBlk = L.par s.currentDirBlk) := by
  obtain ⟨C, D, h⟩ := hs.current_enter
  have hC := firstBlk_mem (h.owned.chain C (by simp)).1
  have hcur : s.currentDirBlk = firstBlk C := h.cur
  have hlt : s.currentDirBlk < s.blkCount := hcur ▸ h.mem_lt (c := C) (by simp) hC
  have hpar : (s.dev s.currentDirBlk).parent = L.par (firstBlk C) := by
    rw [hcur]
    exact hs.volume.parents hup C h.mem _ hC
  have hrun := driveReadBlock_ok (s := { s with tfsLastError := .ok, log := s.log.call .select }) he rfl hlt
  by_cases h0 : (s.dev s.currentDirBlk).parent = 0
  · refine ⟨_, enter_out (t := { s with
      tfsLastError := .notExist, blkBuf := s.dev s.currentDirBlk,
      log := (s.log.call .select).transfer (.read s.currentDirBlk true) }) hs.dev ?_,
      ⟨⟨hs.mounted, hs.cache, hs.volume, hs.cur, Err.noConfusion⟩, rfl, rfl, Err.noConfusion⟩, fun _ => ⟨rfl, rfl⟩,
      fun hne => ?_⟩
    · rw [Prog.gets_bind, id_eq, Prog.bind_some hrun, ifOk_ok rfl, blkBuf_bind, if_pos h0]
      rfl
    · rw [hcur, ← hpar] at hne
      exact absurd h0 hne
  · refine ⟨_, enter_out (t := { s with
      tfsLastError := .ok, currentDirBlk := (s.dev s.currentDirBlk).parent, blkBuf := s.dev s.currentDirBlk,
      log := (s.log.call .select).transfer (.read s.currentDirBlk true) }) hs.dev ?_,
      ⟨⟨hs.mounted, hs.cache, hs.volume, ?_, Err.noConfusion⟩, rfl, rfl, Err.noConfusion⟩, fun h1 => ?_,
      fun _ => ⟨rfl, ?_⟩⟩
    · rw [Prog.gets_bind, id_eq, Prog.bind_some hrun, ifOk_ok rfl, blkBuf_bind, if_neg h0]
      rfl
    · show (s.dev s.currentDirBlk).parent ∈ heads L.dirs
      rw [hpar]
      exact hs.volume.parent_mem h.mem (hpar ▸ h0)
    · rw [hcur, ← hpar] at h1
      exact absurd h1 h0
    · show (s.dev s.currentDirBlk).parent = _
      rw [hpar, hcur]

/-- `tfs_change_dir` behind its lookup. -/
def changeDirItem (item : Option Nat) : M Unit := do
  let b ← blkBuf
  match item with
  | none => setErr .notExist
  | some i =>
    if b.itemType i ≠ itemDir then setErr .notExist
    else Prog.modify fun s => { s with currentDirBlk := b.itemBlk i }

theorem tfsChangeDir_ok (he : e.NeverFails) (hf : n ≤ e.fuel) (hs : Sys n s L) (name : List UInt8) :
    ∃ s', tfsChangeDir e name s = some ((), s') ∧ Stays n s s' L ∧ (s'.tfsLastError = .ok →
      ∃ C ∈ L.dirs, firstBlk C = s.currentDirBlk ∧ ∃ x ∈ entries s.dev C, x.type = itemDir ∧
        x.blk = s'.currentDirBlk) := by
  obtain ⟨C, D, h⟩ := hs.current_enter
  have hsame : ∀ (b : Block) (z : Nat) (l : DriveLog) (err : Err), err ≠ .noDev → err ≠ .diskFull →
      ∀ cur ∈ heads L.dirs, Stays n s { s with
        tfsLastError := err, blkBuf := b, loadedDirBlk := z, log := l, currentDirBlk := cur } L :=
    fun _ _ _ _ herr hfull _ hcur => ⟨⟨hs.mounted, hs.cache, hs.volume, hcur, herr⟩, rfl, rfl, fun h => absurd h hfull⟩
  have hlook := looking (R := fun t => Stays n s t L ∧
      (t.tfsLastError = .ok → ∃ C ∈ L.dirs, firstBlk C = s.currentDirBlk ∧
      ∃ x ∈ entries s.dev C, x.type = itemDir ∧ x.blk = t.currentDirBlk)) (k := changeDirItem) he hf h name
    (fun _ => ⟨hsame _ _ _ _ Err.noConfusion Err.noConfusion _ hs.cur, Err.noConfusion⟩) (fun q P Q l _ hfd => ?_)
    (fun b l _ _ => ⟨_, rfl, hsame _ _ _ _ Err.noConfusion Err.noConfusion _ hs.cur, Err.noConfusion⟩)
  · obtain ⟨t, hrun, ht, hmoved⟩ := hlook
    exact ⟨_, enter_out hs.dev hrun, ⟨⟨ht.sys.mounted, ht.sys.cache, ht.sys.volume, ht.sys.cur, ht.sys.dev⟩, ht.dev,
      ht.handles, ht.full⟩, hmoved⟩
  · rw [changeDirItem, blkBuf_bind]
    by_cases ht : (s.dev q.1).itemType q.2 = itemDir
    · simp only [ht, ne_eq, not_true_eq_false, if_false, Prog.modify_apply]
      have hmem : itemAt s.dev q ∈ entries s.dev C := by
        rw [hfd.entries]
        simp
      exact ⟨_, rfl, hsame _ _ _ _ Err.noConfusion Err.noConfusion _ (hs.volume.mem_dirs h.mem hmem ht), fun _ =>
        ⟨C, h.mem, h.cur.symm, _, hmem, ht, rfl⟩⟩
    · simp only [ht, ne_eq, not_false_eq_true, if_true, setErr_apply]
      exact ⟨_, rfl, hsame _ _ _ _ Err.noConfusion Err.noConfusion _ hs.cur, Err.noConfusion⟩

/-! ## Counting -/

theorem tfsGetUsed_stays (he : e.NeverFails) (hf : n ≤ e.fuel) (hs : Sys n s L) :
    ∃ s', tfsGetUsed e s = some (usedCount n s.dev, s') ∧ Stays n s s' L := by
  obtain ⟨l, hrun⟩ := tfsGetUsed_ok he hs.mounted hs.dev hf
  exact ⟨_, hrun, ⟨hs.mounted, .valid rfl hs.mounted.pos rfl, hs.volume, hs.cur, Err.noConfusion⟩, rfl, rfl,
    Err.noConfusion⟩

end TinyFs
