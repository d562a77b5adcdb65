/-
Isolation: a call on the entries of one directory leaves every other file and
directory of the volume alone. The entries of the current directory stay, all but
the one the call is about; the chains of all other entries stay chains of the
volume, and no byte of them changes.
-/
import TinyFs.FromMedium

namespace TinyFs

open Bytes Chains

variable {e : Env} {n : Nat} {s s' : State} {L L' : Layout} {c : DirCall} {held : Prop} {err : Err}
  {C C' : List Nat} {A B old new : List DirItem} {dirs files : List (List Nat)} {dev : Nat → Block}

/-- The name of the entry a call may take out or replace. -/
def DirCall.target : DirCall → List UInt8
  | .rename fromName _ => fromName
  | c => c.name

/-- A call on the current directory `C`, now `C'`, left everything else alone. -/
structure Isolated (e : Env) (c : DirCall) (s s' : State) (dirs files dirs' files' : List (List Nat))
    (C C' : List Nat) (A old new B : List DirItem) : Prop where
  mem : C ∈ dirs ∧ firstBlk C = s.currentDirBlk
  mem' : C' ∈ dirs' ∧ firstBlk C' = s.currentDirBlk
  /-- The entries `A` and `B` of the current directory stay, each once. -/
  before : entries s.dev C = A ++ old ++ B
  after : entries s'.dev C' = A ++ new ++ B
  /-- At most one entry goes, the one the call names, and at most one comes. -/
  old_own : old.length ≤ 1 ∧ ∀ x ∈ old, e.filenameCmp c.target x.name = true
  new_own : new.length ≤ 1 ∧ ∀ x ∈ new, x.name = Block.padName c.name
  /-- No other entry stands for a chain that goes with it. -/
  apart : ∀ x, x ∈ A ++ B ∨ (∃ d ∈ dirs, firstBlk d ≠ s.currentDirBlk ∧ x ∈ entries s.dev d) →
    ∀ b ∈ x.dirHead ++ x.fileHead, b ∉ c.dropped old
  /-- Every other directory keeps its blocks and its listing. -/
  dirs : ∀ d ∈ dirs, firstBlk d ≠ s.currentDirBlk → firstBlk d ∉ c.dropped old →
    d ∈ dirs' ∧ (∀ b ∈ d, s'.dev b = s.dev b) ∧ entries s'.dev d = entries s.dev d
  /-- Every other file keeps its blocks. -/
  files : ∀ f ∈ files, firstBlk f ∉ c.dropped old → f ∈ files' ∧ ∀ b ∈ f, s'.dev b = s.dev b

theorem DirStep.old_own (h : DirStep e.filenameCmp held c err A old new B) :
    old.length ≤ 1 ∧ ∀ x ∈ old, e.filenameCmp c.target x.name = true := by
  cases h with
  | writeOver _ hx _ _ => exact ⟨Nat.le_refl 1, fun y hy => List.mem_singleton.mp hy ▸ hx.hit⟩
  | delete _ hx _ _ => exact ⟨Nat.le_refl 1, fun y hy => List.mem_singleton.mp hy ▸ hx.hit⟩
  | rename _ _ _ hx => exact ⟨Nat.le_refl 1, fun y hy => List.mem_singleton.mp hy ▸ hx.hit⟩
  | _ => exact ⟨Nat.zero_le 1, fun y hy => absurd hy (List.not_mem_nil)⟩

theorem DirStep.new_own (h : DirStep e.filenameCmp held c err A old new B) :
    new.length ≤ 1 ∧ ∀ x ∈ new, x.name = Block.padName c.name := by
  cases h with
  | createDir _ _ => exact ⟨Nat.le_refl 1, fun y hy => List.mem_singleton.mp hy ▸ rfl⟩
  | touch _ _ => exact ⟨Nat.le_refl 1, fun y hy => List.mem_singleton.mp hy ▸ rfl⟩
  | writeNew _ _ _ => exact ⟨Nat.le_refl 1, fun y hy => List.mem_singleton.mp hy ▸ rfl⟩
  | writeOver _ _ _ _ => exact ⟨Nat.le_refl 1, fun y hy => List.mem_singleton.mp hy ▸ rfl⟩
  | rename _ _ _ _ => exact ⟨Nat.le_refl 1, fun y hy => List.mem_singleton.mp hy ▸ rfl⟩
  | _ => exact ⟨Nat.zero_le 1, fun y hy => absurd hy (List.not_mem_nil)⟩

theorem DirCall.dropped_sub {b : Nat} (h : b ∈ c.dropped old) : b ∈ old.flatMap fun x => x.dirHead ++ x.fileHead := by
  cases c with
  | rename _ _ => simp [dropped] at h
  | _ => exact h

/-- No two chains of a volume start at one block. -/
theorem Volume.heads_nodup (h : Volume n dev L) : (heads (L.dirs ++ L.files)).Nodup := by
  refine TinyFs.heads_nodup (fun c hc => ?_) ?_
  · refine h.chain_ne_nil (c := c) ?_
    rw [Layout.chains, ← List.append_assoc]
    exact List.mem_append_left _ hc
  · have hflat := (List.nodup_append.mp h.owned.nodup).2.1
    rw [Layout.chains, ← List.append_assoc, List.flatten_append, List.nodup_append] at hflat
    exact hflat.1

/-- Every chain of a volume starts at one place only. -/
theorem Volume.starts_nodup (h : Volume n dev L) : ((L.entries dev).flatMap fun x => x.dirHead ++ x.fileHead).Nodup := by
  have hnd := h.heads_nodup
  rw [heads_append] at hnd
  have hp := (h.dirHeads.append h.fileHeads).nodup_iff.mp hnd
  rw [List.cons_append, List.nodup_cons] at hp
  exact (List.flatMap_append_perm _ _ _).nodup_iff.mp hp.2

/-- The chains of the entries `old` are those of no other entry. -/
theorem Volume.starts_apart (h : Volume n dev L) (hC : C ∈ L.dirs) (hE : entries dev C = A ++ old ++ B) {x : DirItem}
    (hx : x ∈ A ++ B ∨ ∃ d ∈ L.dirs, firstBlk d ≠ firstBlk C ∧ x ∈ entries dev d) {b : Nat}
    (hb : b ∈ x.dirHead ++ x.fileHead) : b ∉ old.flatMap fun x => x.dirHead ++ x.fileHead := by
  obtain ⟨D₁, D₂, hsplit⟩ := List.append_of_mem hC
  have hp : (L.entries dev).Perm (old ++ (A ++ B ++ (D₁ ++ D₂).flatMap (entries dev))) := by
    have h1 : (L.entries dev).Perm ((C :: (D₁ ++ D₂)).flatMap (entries dev)) := by
      rw [Layout.entries, hsplit]
      exact List.perm_middle.flatMap_right _
    have h2 : (A ++ old ++ B).Perm (old ++ (A ++ B)) := by
      rw [List.append_assoc]
      exact List.perm_append_comm_assoc A old B
    refine h1.trans ?_
    rw [List.flatMap_cons, hE, ← List.append_assoc]
    exact h2.append_right _
  have hnd := (hp.flatMap_right fun x => x.dirHead ++ x.fileHead).nodup_iff.mp h.starts_nodup
  rw [List.flatMap_append, List.nodup_append] at hnd
  have hmem : x ∈ A ++ B ++ (D₁ ++ D₂).flatMap (entries dev) := by
    rcases hx with hx | ⟨d, hd, hne, hx⟩
    · exact List.mem_append_left _ hx
    · refine List.mem_append_right _ (List.mem_flatMap.mpr ⟨d, ?_, hx⟩)
      rw [hsplit] at hd
      rcases List.mem_append.mp hd with hd | hd
      · exact List.mem_append_left _ hd
      · rcases List.mem_cons.mp hd with rfl | hd
        · exact absurd rfl hne
        · exact List.mem_append_right _ hd
  exact fun hold => hnd.2.2 b hold b (List.mem_flatMap.mpr ⟨x, hmem, hb⟩) rfl

/-- A step of the abstract directory is isolated. -/
theorem DirOp.isolated (h : DirOp e n L c s s' L' C C' A old new B) (hv : Volume n s.dev L) :
    Isolated e c s s' L.dirs L.files L'.dirs L'.files C C' A old new B where
  mem := ⟨h.mem, h.head⟩
  mem' := ⟨h.mem', h.head'⟩
  before := h.before
  after := h.after
  old_own := h.step.old_own
  new_own := h.step.new_own
  apart := fun x hx b hb hd => hv.starts_apart h.mem h.before (h.head ▸ hx) hb (DirCall.dropped_sub hd)
  dirs := fun d hd hne hg =>
    let ⟨hmem, hsame⟩ := h.dirs d hd hne hg
    ⟨hmem, hsame, entries_congr fun b hb i _ => by rw [hsame b hb]⟩
  files := h.files

/-- On a drive that never fails, every call on the entries of a directory of a
well-formed volume returns, leaves a well-formed volume, and is isolated. -/
theorem dirCall_isolated (he : e.NeverFails) (hf : n ≤ e.fuel) (hs : AtRest n s dirs files) (c : DirCall) :
    ∃ s', c.exec e s = some ((), s') ∧ ∃ dirs' files', AtRest n s' dirs' files' ∧
      ∃ C C' A old new B, Isolated e c s s' dirs files dirs' files' C C' A old new B := by
  obtain ⟨s', hrun, L', C, C', A, old, new, B, h⟩ := DirCall.exec_ok he hf hs.sys c
  refine ⟨s', hrun, L'.dirs, L'.files, h.sys.atRest ⟨?_, ?_⟩, C, C', A, old, new, B, h.isolated hs.volume.volume⟩
  · exact h.loose.trans layoutOf_tight.loose
  · exact h.leaked.trans layoutOf_tight.leaked

/-- A file of two blocks is written next to a file and a directory. -/
theorem dirCall_isolated_smallTree : ∃ s dirs files,
    furnished (Env.linux 16) smallTree (State.boot fun _ => Buf.zero) = some ((), s) ∧ AtRest 16 s dirs files ∧
    (s.listing 16).map (·.type) = [itemFile, itemDir] ∧
    ∃ s', (DirCall.writeFile [99] (List.replicate 600 8) 600 false).exec (Env.linux 16) s = some ((), s') ∧
      ∃ dirs' files', AtRest 16 s' dirs' files' ∧ ∃ C C' A old new B,
        Isolated (Env.linux 16) (.writeFile [99] (List.replicate 600 8) 600 false) s s' dirs files dirs' files' C C' A
          old new B := by
  have he := Env.linux_neverFails 16
  obtain ⟨s, L, hrun, hs, htight, -⟩ := furnished_ok he rfl (by omega) (by omega) (by decide) smallTree
    (State.boot fun _ => Buf.zero)
  have hlist : (furnished (Env.linux 16) smallTree (State.boot fun _ => Buf.zero)).map (fun p =>
      (p.2.listing 16).map (·.type)) = some [itemFile, itemDir] := by decide +kernel
  rw [hrun, Option.map_some, Option.some.injEq] at hlist
  exact ⟨s, L.dirs, L.files, hrun, hs.atRest htight, hlist,
    dirCall_isolated he (by decide) (hs.atRest htight) (.writeFile [99] (List.replicate 600 8) 600 false)⟩

end TinyFs
