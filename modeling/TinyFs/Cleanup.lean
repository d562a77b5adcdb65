/-
`write_dir_cleanup` on the never-failing drive. The directory block in the
buffer is written back; where it holds no entry and is not the only block of its
directory, it leaves the chain: a later block is unlinked, an emptied head takes
over the content of the block after it. Either way the entries stay, in their
order, and the directory keeps its first block (`Cleaned`).
-/
import TinyFs.Lookup

namespace TinyFs

open Bytes Chains

/-- The two blocks hold the same items under the same parent. -/
structure SameDir (x y : Block) : Prop where
  parent : x.parent = y.parent
  item : ∀ i, x.item i = y.item i

theorem SameDir.refl (x : Block) : SameDir x x := ⟨rfl, fun _ => rfl⟩

theorem SameDir.setPrev (x : Block) (v : Nat) : SameDir (x.setPrev v) x :=
  ⟨Block.parent_setPrev .., fun i => Block.item_setPrev x v i⟩

theorem SameDir.setNext (x : Block) (v : Nat) : SameDir (x.setNext v) x :=
  ⟨Block.parent_setNext .., fun i => Block.item_setNext x v i⟩

/-- What the clean-up makes of a directory chain. -/
inductive Cleaned (dev dev' : Nat → Block) : List Nat → List Nat → Prop
  | keep {c} : (∀ b ∈ c, SameDir (dev' b) (dev b)) → Cleaned dev dev' c c
  | head {h x t} : (∀ i < dirBlkItems, (dev h).itemType i = itemFree) → SameDir (dev' h) (dev x) →
      (∀ b ∈ t, SameDir (dev' b) (dev b)) → Cleaned dev dev' (h :: x :: t) (h :: t)
  | unlink {A b B} : A ≠ [] → (∀ i < dirBlkItems, (dev b).itemType i = itemFree) →
      (∀ x ∈ A ++ B, SameDir (dev' x) (dev x)) → Cleaned dev dev' (A ++ b :: B) (A ++ B)

section Cleaned

variable {dev dev' : Nat → Block} {C C' : List Nat}

theorem Cleaned.firstBlk (h : Cleaned dev dev' C C') : firstBlk C' = firstBlk C := by
  cases h with
  | keep => rfl
  | head => rfl
  | unlink hA => rw [firstBlk_append hA, firstBlk_append hA]

theorem Cleaned.subset (h : Cleaned dev dev' C C') : ∀ b ∈ C', b ∈ C := by
  cases h with
  | keep => exact fun b hb => hb
  | head =>
    intro b hb
    rcases List.mem_cons.mp hb with rfl | hb
    · simp
    · simp [hb]
  | unlink =>
    intro b hb
    rcases List.mem_append.mp hb with hb | hb <;> simp [hb]

/-- No entry is lost, doubled or moved. -/
theorem Cleaned.entries (h : Cleaned dev dev' C C') : entries dev' C' = entries dev C := by
  cases h with
  | keep hs => exact entries_congr fun b hb i _ => (hs b hb).item i
  | @head h x t hfree hx hs =>
    rw [entries_cons h (x :: t), entries_single_free hfree, List.nil_append, entries_cons, entries_cons x,
      entries_single fun i _ => hx.item i]
    congr 1
    exact entries_congr fun b hb i _ => (hs b hb).item i
  | @unlink A b B _ hfree hs =>
    rw [entries_append A (b :: B), entries_cons b, entries_single_free hfree, List.nil_append, ← entries_append]
    exact entries_congr fun x hx i _ => (hs x hx).item i

/-- A block that leaves the chain held no entry. -/
theorem Cleaned.emptyBlks (h : Cleaned dev dev' C C') :
    TinyFs.emptyBlks dev' C' + C.length = TinyFs.emptyBlks dev C + C'.length := by
  cases h with
  | keep hs => rw [emptyBlks_congr fun b hb => entries_single fun i _ => (hs b hb).item i]
  | @head h x t hfree hx hs =>
    rw [emptyBlks_cons h (x :: t), emptyBlks_single (entries_single_free hfree), emptyBlks_cons h t, emptyBlks_cons x t,
      emptyBlks_congr fun b hb => entries_single fun i _ => (hs b hb).item i]
    have hone : TinyFs.emptyBlks dev' [h] = TinyFs.emptyBlks dev [x] := by
      simp only [TinyFs.emptyBlks, List.countP_singleton, entries_single fun i _ => hx.item i]
    simp only [hone, List.length_cons]
    omega
  | @unlink A b B _ hfree hs =>
    rw [emptyBlks_append A (b :: B), emptyBlks_cons b, emptyBlks_single (entries_single_free hfree),
      emptyBlks_congr fun x hx => entries_single fun i _ => (hs x hx).item i, emptyBlks_append]
    simp only [List.length_append, List.length_cons]
    omega

/-- A chain that lost an empty block is as compact as before one of its blocks was stored. -/
theorem Cleaned.compact {b : Nat} {v : Block} (h : Cleaned (Function.update dev b v) dev' C C') (hnd : C.Nodup)
    (hlen : C'.length < C.length) (hc : Compact dev C) : Compact dev' C' := by
  have hcount := h.emptyBlks
  have hone : TinyFs.emptyBlks (Function.update dev b v) C ≤ TinyFs.emptyBlks dev C + 1 := emptyBlks_update hnd v
  rw [Compact] at hc ⊢
  omega

theorem Cleaned.parents (h : Cleaned dev dev' C C') {par : Nat} (hp : ∀ b ∈ C, (dev b).parent = par) :
    ∀ b ∈ C', (dev' b).parent = par := by
  cases h with
  | keep hs => exact fun b hb => (hs b hb).parent.trans (hp b hb)
  | @head h x t _ hx hs =>
    intro b hb
    rcases List.mem_cons.mp hb with rfl | hb
    · exact hx.parent.trans (hp x (by simp))
    · exact (hs b hb).parent.trans (hp b (by simp [hb]))
  | @unlink A b B _ _ hs =>
    intro x hx
    refine (hs x hx).parent.trans (hp x ?_)
    rcases List.mem_append.mp hx with hx | hx <;> simp [hx]

end Cleaned

/-! ## Relinking -/

/-- The medium with `v` in block `p` and block `q`, where there is one, linked back to it. -/
def relinked (dev : Nat → Block) (p q : Nat) (v : Block) : Nat → Block :=
  if q = 0 then Function.update dev p v
  else Function.update (Function.update dev p v) q ((Function.update dev p v q).setPrev p)

section Relinked

variable {dev : Nat → Block} {p q : Nat} {v : Block}

theorem relinked_self (h : p ≠ q) : relinked dev p q v p = v := by
  rw [relinked]
  split
  · rw [Function.update_self]
  · rw [Function.update_of_ne h, Function.update_self]

theorem relinked_ne {x : Nat} (hp : x ≠ p) (hq : q = 0 ∨ x ≠ q) : relinked dev p q v x = dev x := by
  rw [relinked]
  split
  · rw [Function.update_of_ne hp]
  · rename_i h0
    rw [Function.update_of_ne (hq.resolve_left h0), Function.update_of_ne hp]

theorem relinked_next (h0 : q ≠ 0) (hp : q ≠ p) : relinked dev p q v q = (dev q).setPrev p := by
  rw [relinked, if_neg h0, Function.update_self, Function.update_of_ne hp]

theorem relinked_same {x : Nat} (hp : x ≠ p) (h0 : x ≠ 0) : SameDir (relinked dev p q v x) (dev x) := by
  by_cases hq : x = q
  · subst hq
    rw [relinked_next h0 hp]
    exact .setPrev _ _
  · rw [relinked_ne hp (.inr hq)]
    exact .refl _

/-- The chain through a relinked block. -/
theorem relinked_chain {P Q : List Nat} {z : Nat} (hnd : (P ++ p :: Q).Nodup) (h0 : 0 ∉ Q) (hp : p < 2 ^ 32)
    (hP : LinkedOn dev 0 P p) (hQ : LinkedOn dev z Q 0) (hvp : v.prev = P.getLastD 0) (hvn : v.next = Q.headD 0)
    (hp0 : p ≠ 0) : Chain (relinked dev p (Q.headD 0) v) (P ++ p :: Q) := by
  obtain ⟨_, hnd2, hdis⟩ := List.nodup_append.mp hnd
  rw [List.nodup_cons] at hnd2
  have hpq : p ≠ Q.headD 0 := by
    cases Q with
    | nil => exact hp0
    | cons y Q => exact fun he => hnd2.1 (by simp [he])
  have hPne : ∀ x ∈ P, relinked dev p (Q.headD 0) v x = dev x := by
    intro x hx
    refine relinked_ne (hdis x hx p (by simp)) ?_
    cases Q with
    | nil => exact .inl rfl
    | cons y Q => exact .inr (hdis x hx y (by simp))
  refine ⟨by simp, ?_⟩
  rw [LinkedOn, linked_append]
  refine ⟨hP.congr (fun x hx => by rw [hPne x hx]) (fun x hx => by rw [hPne x hx]), by rw [relinked_self hpq, hvp],
    by rw [relinked_self hpq, hvn], ?_⟩
  · cases Q with
    | nil => trivial
    | cons y Q =>
      have hy0 : y ≠ 0 := fun he => h0 (by simp [he])
      have hyp : y ≠ p := fun he => hnd2.1 (by simp [he])
      have hnd3 := List.nodup_cons.mp hnd2.2
      obtain ⟨_, hyn, hQ⟩ := hQ
      show LinkedOn (relinked dev p y v) p (y :: Q) 0
      have hQne : ∀ x ∈ Q, relinked dev p y v x = dev x := fun x hx =>
        relinked_ne (fun he => hnd2.1 (by simp [← he, hx])) (.inr fun he => hnd3.1 (he ▸ hx))
      refine ⟨?_, ?_, hQ.congr (fun x hx => by rw [hQne x hx]) (fun x hx => by rw [hQne x hx])⟩
      · rw [relinked_next hy0 hyp, Block.prev_setPrev, Nat.mod_eq_of_lt hp]
      · rw [relinked_next hy0 hyp, Block.next_setPrev, hyn]

end Relinked

variable {e : Env} {n : Nat} {s : State} {cs : List (List Nat)} {xs C : List Nat}

theorem relinkDir_run (he : e.NeverFails) (herr : s.tfsLastError = .ok) {p q : Nat} (hp : p < s.blkCount)
    (hq : q < s.blkCount) : ∃ v l, relinkDir e p q s = freeBlock e s.loadedDirBlk { s with
      dev := relinked s.dev p q s.blkBuf, blkBuf := v, log := l } := by
  rw [relinkDir, Prog.bind_some (driveWriteBlock_ok he herr hp), ifOk_ok (by exact herr)]
  by_cases h0 : q = 0
  · simp only [h0, ne_eq, not_true_eq_false, if_false, Prog.gets_bind, id_eq, relinked, if_true]
    exact ⟨_, _, rfl⟩
  · simp only [ne_eq, h0, not_false_eq_true, if_true]
    rw [Prog.bind_some (driveReadBlock_ok he (by exact herr) (by exact hq)), ifOk_ok (by exact herr), modifyBuf_bind,
      Prog.bind_some (driveWriteBlock_ok he (by exact herr) (by exact hq)), ifOk_ok (by exact herr)]
    simp only [Prog.gets_bind, id_eq, relinked, if_neg h0]
    exact ⟨_, _, rfl⟩

/-- The chain `C` loses its block `z`; the buffer, with the links of the block `p`
of the new chain, goes to `p`. -/
theorem relinkDir_ok (he : e.NeverFails) (h : InDir n s C cs xs) {P Q : List Nat} {p z : Nat}
    (hC : C.Perm (z :: (P ++ p :: Q))) (hfirst : firstBlk (P ++ p :: Q) = firstBlk C) (hz : s.loadedDirBlk = z)
    (hP : LinkedOn s.dev 0 P p) (hQ : LinkedOn s.dev z Q 0) (hvp : s.blkBuf.prev = P.getLastD 0)
    (hvn : s.blkBuf.next = Q.headD 0) :
    ∃ s', relinkDir e p (Q.headD 0) s = some ((), s') ∧ InDir n s' (P ++ p :: Q) cs xs ∧ Frame s s' ∧
      AgreeOff C s.dev s'.dev ∧ s'.dev p = s.blkBuf ∧ ∀ x ∈ P ++ Q, SameDir (s'.dev x) (s.dev x) := by
  subst hz
  have hmem : ∀ x ∈ s.loadedDirBlk :: (P ++ p :: Q), x ∈ C := fun x hx => hC.mem_iff.mpr hx
  have hmod : ∀ x ∈ C, x % 4096 ≠ 0 := fun x hx => h.owned.mem_mod (by simp) hx
  have hnd : (s.loadedDirBlk :: (P ++ p :: Q)).Nodup := hC.nodup_iff.mp (h.owned.chain_nodup (by simp))
  have hnd' := (List.nodup_cons.mp hnd).2
  have h0 : 0 ∉ Q := fun hx => hmod 0 (hmem 0 (by simp [hx])) rfl
  have hpC : p ∈ C := hmem p (by simp)
  have hQC : ∀ x ∈ Q, x ∈ C := fun x hx => hmem x (by simp [hx])
  have hp0 : p ≠ 0 := ne_zero_of_mod (hmod p hpC)
  have hp : p < s.blkCount := h.mem_lt (c := C) (by simp) hpC
  have hq : Q.headD 0 = 0 ∨ Q.headD 0 ∈ Q := by
    cases Q with
    | nil => exact .inl rfl
    | cons y Q => exact .inr (by simp)
  have hqlt : Q.headD 0 < s.blkCount := by
    rcases hq with hq | hq
    · rw [hq]
      omega
    · exact h.mem_lt (c := C) (by simp) (hQC _ hq)
  obtain ⟨v, l, hrun⟩ := relinkDir_run he h.err hp hqlt
  have hR : Ready n s cs (C ++ xs) := ⟨h.mounted, h.cache, h.owned.release⟩
  have hR2 : Ready n { s with dev := relinked s.dev p (Q.headD 0) s.blkBuf, log := l } cs (C ++ xs) := by
    rw [relinked]
    have hR1 := hR.store (b := p) (by simp [hpC]) s.blkBuf l
    split
    · exact hR1
    · rename_i hne
      exact hR1.store (List.mem_append_left _ (hQC _ (hq.resolve_left hne))) _ l
  have hchain := relinked_chain hnd' h0 (Nat.lt_trans (h.owned.mem_lt (by simp) hpC) h.mounted.lt) hP hQ hvp hvn hp0
  have hR3 : Owned n (relinked s.dev p (Q.headD 0) s.blkBuf) cs (P ++ p :: Q ++ s.loadedDirBlk :: xs) :=
    hR2.owned.perm (.refl _) ((hC.append_right xs).trans List.perm_middle.symm)
  have hR4 : Ready n { s with dev := relinked s.dev p (Q.headD 0) s.blkBuf, blkBuf := v, log := l }
      ((P ++ p :: Q) :: cs) (s.loadedDirBlk :: xs) := ⟨hR2.mounted, hR2.cache, hR3.adopt hchain⟩
  obtain ⟨s', hfree, hs', herr, hkept, _, hagree⟩ := hR4.free he h.err
  have hdev : ∀ x ∈ C, s'.dev x = relinked s.dev p (Q.headD 0) s.blkBuf x := fun x hx =>
    hagree x (hmod x hx) (by simp)
  refine ⟨s', hrun.trans hfree, ⟨hs', herr, hkept.cur.trans (h.cur.trans hfirst.symm)⟩,
    ⟨hkept.blkCount, hkept.lastBlk, hkept.lastLen, hkept.cur, hkept.handles⟩, ?_, ?_, ?_⟩
  · intro x hm hx
    rw [hagree x hm (by simp)]
    refine relinked_ne (fun he => hx (he ▸ hpC)) ?_
    rcases hq with hq | hq
    · exact .inl hq
    · exact .inr fun he => hx (he ▸ hQC _ hq)
  · rw [hdev p hpC]
    refine relinked_self fun he => ?_
    rcases hq with hq | hq
    · exact hp0 (he.trans hq)
    · rw [← he] at hq
      have hnd2 := (List.nodup_append.mp hnd').2.1
      exact (List.nodup_cons.mp hnd2).1 hq
  · intro x hx
    have hxC : x ∈ C := hmem x (by
      rcases List.mem_append.mp hx with hx | hx <;> simp [hx])
    have hxp : x ≠ p := by
      rintro rfl
      rw [List.perm_middle.nodup_iff, List.nodup_cons] at hnd'
      exact hnd'.1 hx
    rw [hdev x hxC]
    exact relinked_same hxp (ne_zero_of_mod (hmod x hxC))

/-! ## The clean-up -/

theorem anyItem_eq_false {b : Block} : anyItem b = false ↔ ∀ i < dirBlkItems, b.itemType i = itemFree := by
  simp [anyItem]

/-- The block `b` of the directory `C` is in the buffer of `s`; in `s'` the directory is cleaned as if the block had
been stored. -/
structure CleanedUp (n : Nat) (cs : List (List Nat)) (xs : List Nat) (s : State) (C : List Nat) (b : Nat)
    (C' : List Nat) (s' : State) : Prop where
  dir : InDir n s' C' cs xs
  frame : Frame s s'
  agree : AgreeOff C s.dev s'.dev
  cleaned : Cleaned (Function.update s.dev b s.blkBuf) s'.dev C C'
  compact : Compact s.dev C → Compact s'.dev C'
  length : C'.length = if anyItem s.blkBuf = true ∨ C.length = 1 then C.length else C.length - 1

/-- One block less, with all items of the block `b` free. -/
theorem CleanedUp.shorter {C' : List Nat} {s' : State} {b : Nat} (h : InDir n s C cs xs)
    (hempty : ¬ anyItem s.blkBuf = true) (hlen : C'.length + 1 = C.length) (hC' : C' ≠ []) (hs' : InDir n s' C' cs xs)
    (hframe : Frame s s') (hagree : AgreeOff C s.dev s'.dev)
    (hclean : Cleaned (Function.update s.dev b s.blkBuf) s'.dev C C') : CleanedUp n cs xs s C b C' s' := by
  have hpos := List.length_pos_of_ne_nil hC'
  refine ⟨hs', hframe, hagree, hclean, hclean.compact (h.owned.chain_nodup (by simp)) (by omega), ?_⟩
  rw [if_neg fun hor => hor.elim hempty fun hone => by omega]
  omega

/-- The block is written back as it is. -/
theorem writeBack_ok (he : e.NeverFails) (h : InDir n s C cs xs) {b : Nat} (hb : b ∈ C) (hdir : s.loadedDirBlk = b)
    (hprev : s.blkBuf.prev = (s.dev b).prev) (hnext : s.blkBuf.next = (s.dev b).next)
    (hkeep : C = [b] ∨ anyItem s.blkBuf = true) :
    ∃ C' s', driveWriteBlock e s.loadedDirBlk .blkBuf s = some ((), s') ∧ CleanedUp n cs xs s C b C' s' := by
  subst hdir
  have hR := h.storeLinks (h.owned.mem_mod (by simp) hb) hnext hprev (s.log.transfer (.write s.loadedDirBlk true))
  refine ⟨_, _, driveWriteBlock_ok he h.err (h.mem_lt (c := C) (by simp) hb), ⟨hR, h.err, h.cur⟩,
    ⟨rfl, rfl, rfl, rfl, rfl⟩, AgreeOff.update hb _, .keep fun x _ => .refl _, fun hc => ?_, ?_⟩
  · rcases hkeep with hone | hany
    · rw [hone]
      exact .single _
    · obtain ⟨i, hi, hl⟩ : ∃ i < dirBlkItems, s.blkBuf.itemType i ≠ itemFree := by simpa [anyItem] using hany
      exact hc.stored (q := (s.loadedDirBlk, i)) (fun x _ => rfl) hi (live_of_ne_free hl)
  · refine (if_pos (hkeep.symm.imp_right fun hone => ?_)).symm
    rw [hone, List.length_singleton]

/-- The head is empty: the next block moves to its place. -/
theorem moveNext_ok (he : e.NeverFails) {b x : Nat} {t : List Nat} (h : InDir n s (b :: x :: t) cs xs)
    (hdir : s.loadedDirBlk = b) (hempty : ¬ anyItem s.blkBuf = true) :
    ∃ C' s', (do
      driveReadBlock e x .blkBuf
      ifOk () do
        modifyBuf fun c => c.setPrev 0
        Prog.modify fun t => { t with loadedDirBlk := x }
        let c ← blkBuf
        relinkDir e s.loadedDirBlk c.next) s = some ((), s') ∧ CleanedUp n cs xs s (b :: x :: t) b C' s' := by
  have hnd : (b :: x :: t).Nodup := h.owned.chain_nodup (by simp)
  have hne : ∀ y ∈ x :: t, Function.update s.dev b s.blkBuf y = s.dev y := fun y hy =>
    Function.update_of_ne (ne_of_mem_of_not_mem hy (List.nodup_cons.mp hnd).1) _ _
  obtain ⟨_, _, hxp, hxn, ht⟩ := (h.owned.chain (b :: x :: t) (by simp)).2
  rw [Prog.bind_some (driveReadBlock_ok he h.err (h.mem_lt (c := b :: x :: t) (by simp) (by simp))),
    ifOk_ok (by exact h.err), modifyBuf_bind, Prog.modify_bind, blkBuf_bind]
  simp only [Block.next_setPrev, hxn, hdir]
  obtain ⟨s', hrun, hs', hframe, hagree, hdevp, hsame⟩ := relinkDir_ok (s := { s with
    blkBuf := (s.dev x).setPrev 0, loadedDirBlk := x, log := s.log.transfer (.read x true) }) (P := []) (p := b)
    (Q := t) (z := x) he ⟨⟨h.mounted, h.cache, h.owned⟩, h.err, h.cur⟩ (.swap x b t) rfl rfl trivial ht
    (by simp) (by simpa using hxn)
  refine ⟨_, s', hrun, .shorter h hempty (by simp) (by simp) hs' ⟨hframe.1, hframe.2, hframe.3, hframe.4, hframe.5⟩
    hagree (.head ?_ ?_ fun y hy => ?_)⟩
  · rw [Function.update_self]
    exact anyItem_eq_false.mp (by simpa using hempty)
  · rw [hdevp, hne x (by simp)]
    exact .setPrev _ _
  · rw [hne y (by simp [hy])]
    exact hsame y (by simpa using hy)

/-- A later block is empty: it is unlinked. -/
theorem unlinkDir_ok (he : e.NeverFails) {P B : List Nat} {a b : Nat} (h : InDir n s (P ++ [a] ++ b :: B) cs xs)
    (hdir : s.loadedDirBlk = b) (hempty : ¬ anyItem s.blkBuf = true) (hq : B.headD 0 % 2 ^ 32 = B.headD 0) :
    ∃ C' s', (do
      driveReadBlock e a .blkBuf
      ifOk () do
        modifyBuf fun c => c.setNext (B.headD 0)
        relinkDir e a (B.headD 0)) s = some ((), s') ∧ CleanedUp n cs xs s (P ++ [a] ++ b :: B) b C' s' := by
  have hnot : b ∉ P ++ [a] ++ B := by
    have hnd := h.owned.chain_nodup (c := P ++ [a] ++ b :: B) (by simp)
    rw [List.perm_middle.nodup_iff, List.nodup_cons] at hnd
    exact hnd.1
  have hlink := (h.owned.chain (P ++ [a] ++ b :: B) (by simp)).2
  rw [LinkedOn, linked_append, linked_append] at hlink
  obtain ⟨⟨hP, hap, -⟩, -, -, hB⟩ := hlink
  rw [Prog.bind_some (driveReadBlock_ok he h.err (h.mem_lt (c := P ++ [a] ++ b :: B) (by simp) (by simp))),
    ifOk_ok (by exact h.err), modifyBuf_bind]
  have hperm : (P ++ [a] ++ b :: B).Perm (b :: (P ++ a :: B)) := by
    rw [List.append_cons P a B]
    exact List.perm_middle
  have hfirst : firstBlk (P ++ a :: B) = firstBlk (P ++ [a] ++ b :: B) := by
    have hne : P ++ [a] ≠ [] := by simp
    rw [List.append_cons P a B, firstBlk_append hne, firstBlk_append hne]
  obtain ⟨s', hrun, hs', hframe, hagree, hdevp, hsame⟩ := relinkDir_ok (s := { s with
    blkBuf := (s.dev a).setNext (B.headD 0), log := s.log.transfer (.read a true) }) (P := P) (p := a) (Q := B)
    (z := b) he ⟨⟨h.mounted, h.cache, h.owned⟩, h.err, h.cur⟩ hperm hfirst hdir hP hB (by simpa using hap)
    (by simpa using hq)
  rw [List.append_cons P a B] at hs'
  refine ⟨_, s', hrun, .shorter h hempty (by simp; omega) (by simp) hs'
    ⟨hframe.1, hframe.2, hframe.3, hframe.4, hframe.5⟩ hagree (.unlink (by simp) ?_ fun y hy => ?_)⟩
  · rw [Function.update_self]
    exact anyItem_eq_false.mp (by simpa using hempty)
  · rw [Function.update_of_ne (ne_of_mem_of_not_mem hy hnot)]
    by_cases hya : y = a
    · subst hya
      rw [hdevp]
      exact .setNext _ _
    · exact hsame y (by simpa [hya] using hy)

/-- `write_dir_cleanup` with the block `b` of the current directory in the buffer,
its items changed: the directory as if it were stored, cleaned. -/
theorem writeDirCleanup_ok (he : e.NeverFails) (h : InDir n s C cs xs) {b : Nat} (hb : b ∈ C)
    (hdir : s.loadedDirBlk = b) (hprev : s.blkBuf.prev = (s.dev b).prev) (hnext : s.blkBuf.next = (s.dev b).next) :
    ∃ C' s', writeDirCleanup e s = some ((), s') ∧ CleanedUp n cs xs s C b C' s' := by
  have hmod : ∀ x ∈ C, x % 4096 ≠ 0 := fun x hx => h.owned.mem_mod (by simp) hx
  have hplain := writeBack_ok he h hb hdir hprev hnext
  obtain ⟨A, B, rfl⟩ := List.append_of_mem hb
  have hlink := (h.owned.chain (A ++ b :: B) (by simp)).2
  rw [LinkedOn, linked_append, linked_cons] at hlink
  obtain ⟨-, hbp, hbn, -⟩ := hlink
  have hp0 : s.blkBuf.prev = A.getLastD 0 := hprev.trans hbp
  have hn0 : s.blkBuf.next = B.headD 0 := hnext.trans hbn
  have hAnil : s.blkBuf.prev = 0 → A = [] := by
    intro h0
    by_contra hA0
    have hmem : A.getLastD 0 ∈ A := getLastD_mem hA0
    rw [← hp0, h0] at hmem
    exact hmod 0 (by simp [hmem]) rfl
  rw [writeDirCleanup]
  simp only [Prog.gets_bind, id_eq]
  by_cases hsingle : s.blkBuf.prev = 0 ∧ s.blkBuf.next = 0
  · rw [if_pos hsingle]
    refine hplain (.inl ?_)
    rw [hAnil hsingle.1]
    cases B with
    | nil => rfl
    | cons x t =>
      have hx : x = 0 := hn0.symm.trans hsingle.2
      exact absurd (congrArg (· % 4096) hx) (hmod x (by simp))
  rw [if_neg hsingle]
  by_cases hany : anyItem s.blkBuf = true
  · rw [if_pos hany]
    exact hplain (.inr hany)
  rw [if_neg hany]
  by_cases hhead : s.blkBuf.prev = 0
  · rw [if_pos hhead]
    obtain rfl := hAnil hhead
    cases B with
    | nil => exact absurd ⟨hhead, hn0⟩ hsingle
    | cons x t =>
      have hnx : s.blkBuf.next = x := hn0
      rw [hnx]
      exact moveNext_ok he h hdir hany
  · rw [if_neg hhead]
    have hAne : A ≠ [] := by
      rintro rfl
      exact hhead hp0
    obtain ⟨P, a, rfl⟩ : ∃ P a, A = P ++ [a] :=
      ⟨A.dropLast, A.getLast hAne, (List.dropLast_append_getLast hAne).symm⟩
    have hpa : s.blkBuf.prev = a := by simpa using hp0
    rw [hpa, hn0]
    exact unlinkDir_ok he h hdir hany (hn0 ▸ Nat.mod_eq_of_lt s.blkBuf.next_lt)

end TinyFs
