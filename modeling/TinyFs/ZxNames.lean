/-
The names of the ZX81 build. A name is stored in 16 bytes and cut off there;
`filename_cmp` compares the whole name it is given, so a name of more than 16
characters is stored under a key it never finds again: saving it twice makes two
entries with one stored name. A name of at most 16 characters is found, saved over
and never stored twice, up to case.
-/
import TinyFs.Model.Zx81
import TinyFs.ReadBack

namespace TinyFs

open Bytes Chains KeyMap

namespace Zx81

/-! ## The comparison -/

/-- No capital letter. -/
def LowerCase (name : List UInt8) : Prop := ∀ c ∈ name, lowerCase c = c

instance (name : List UInt8) : Decidable (LowerCase name) := List.decidableBAll (fun c => lowerCase c = c) name

/-- Every character of the ZX81 becomes a small letter, a digit or a sign. -/
theorem zx2ascii_lowerCase (c : UInt8) : lowerCase (zx2ascii c) = zx2ascii c := by
  have htable : ∀ i < 128, lowerCase (zx2asciiTable.getD i 0x20) = zx2asciiTable.getD i 0x20 := by decide
  refine htable _ ?_
  rw [UInt8.toNat_and]
  exact Nat.lt_of_le_of_lt Nat.and_le_right (by decide)

/-- The names `SAVE` passes on have no capital letter. -/
theorem termZx2ascii_lowerCase (name : List UInt8) : LowerCase (termZx2ascii name) := by
  have hloop : ∀ n (name : List UInt8), LowerCase (termZx2asciiLoop n name) := by
    intro n
    induction n with
    | zero => exact fun _ c hc => absurd hc List.not_mem_nil
    | succ n ih =>
      intro name c hc
      rw [termZx2asciiLoop] at hc
      rcases List.mem_cons.mp hc with rfl | hc
      · exact zx2ascii_lowerCase _
      · split at hc
        · exact absurd hc List.not_mem_nil
        · exact ih _ c hc
  exact hloop _ name

theorem lowerCase_eq_zero (c : UInt8) : lowerCase c = 0 ↔ c = 0 := by
  have h : ∀ k < 256, lowerCase (UInt8.ofNat k) = 0 ↔ UInt8.ofNat k = 0 := by decide +kernel
  have hc := h c.toNat (UInt8.toNat_lt c)
  rwa [UInt8.ofNat_toNat] at hc

theorem cstr_nil {name : List UInt8} (h : name.headD 0 = 0) : cstr name = [] := by
  cases name with
  | nil => rfl
  | cons a name =>
    have ha : a = 0 := h
    simp [cstr, ha]

theorem cstr_cons {name : List UInt8} (h : name.headD 0 ≠ 0) : cstr name = name.headD 0 :: cstr name.tail := by
  cases name with
  | nil => exact absurd rfl h
  | cons a name =>
    have ha : a ≠ 0 := h
    simp [cstr, ha]

theorem padTo_headD (n : Nat) (name : List UInt8) : (padTo (n + 1) name).headD 0 = name.headD 0 := by
  by_cases h : name.headD 0 = 0
  · rw [padTo_zero _ h, h]
    rfl
  · rw [padTo_succ n h]
    rfl

/-- The comparison holds of a whole name that is, up to case, what is stored. -/
theorem filenameCmpLoop_iff (n : Nat) (ref cmp : List UInt8) :
    filenameCmpLoop n ref cmp = true ↔ (cstr ref).length ≤ n ∧ (padTo n cmp).map lowerCase = padTo n ref := by
  induction n generalizing ref cmp with
  | zero =>
    rw [filenameCmpLoop, decide_eq_true_iff]
    by_cases h : ref.headD 0 = 0
    · rw [cstr_nil h]
      exact ⟨fun _ => ⟨Nat.le_refl 0, rfl⟩, fun _ => h⟩
    · rw [cstr_cons h, List.length_cons]
      exact ⟨fun h0 => absurd h0 h, fun h0 => absurd h0.1 (Nat.not_succ_le_zero _)⟩
  | succ n ih =>
    rw [filenameCmpLoop]
    by_cases hc : lowerCase (cmp.headD 0) = ref.headD 0
    · simp only [hc, ne_eq, not_true_eq_false, if_false]
      by_cases hr : ref.headD 0 = 0
      · have hz : cmp.headD 0 = 0 := (lowerCase_eq_zero _).mp (hc.trans hr)
        have h0 : lowerCase 0 = 0 := (lowerCase_eq_zero 0).mpr rfl
        rw [if_pos hr, cstr_nil hr, padTo_zero _ hz, padTo_zero _ hr, List.map_replicate, h0]
        simp
      · have hz : cmp.headD 0 ≠ 0 := fun hz => hr (hc.symm.trans ((lowerCase_eq_zero _).mpr hz))
        rw [if_neg hr, ih, cstr_cons hr, padTo_succ n hr, padTo_succ n hz, List.map_cons, hc, List.length_cons]
        simp
    · simp only [ne_eq, hc, not_false_eq_true, if_true]
      refine ⟨fun h => Bool.noConfusion h, fun ⟨_, h⟩ => absurd ?_ hc⟩
      have hhead := congrArg (fun l => l.headD 0) h
      simp only [padTo_headD] at hhead
      rw [← hhead, ← padTo_headD n cmp]
      cases padTo (n + 1) cmp with
      | nil => exact (lowerCase_eq_zero 0).mpr rfl
      | cons _ _ => rfl

end Zx81

open Zx81

variable {e : Env} {n : Nat} {s s' : State} {L : Layout} {c : DirCall} {A B old new E : List DirItem}
  {name : List UInt8} {x y : DirItem} {dirs files : List (List Nat)} {held : Prop}

/-- The key of an entry: its stored name up to case. -/
def DirItem.foldKey (x : DirItem) : List UInt8 := (nameKey x.name).map lowerCase

/-- No two entries carry one name, up to case. -/
def NoTwins (E : List DirItem) : Prop := Distinct DirItem.foldKey E

/-- A name of at most 16 characters, none of them a capital letter. -/
structure Short (name : List UInt8) : Prop where
  lower : LowerCase name
  length : (cstr name).length ≤ nameLen

theorem filenameCmp_iff (h : (cstr name).length ≤ nameLen) :
    filenameCmp name x.name = true ↔ x.foldKey = nameKey name := by
  rw [filenameCmp, filenameCmpLoop_iff, and_iff_right h]
  rfl

theorem filenameCmp_long (h : nameLen < (cstr name).length) (stored : List UInt8) :
    filenameCmp name stored = false := by
  rw [← Bool.not_eq_true, filenameCmp, filenameCmpLoop_iff]
  omega

theorem Miss.foldKey_ne (h : Miss filenameCmp name E) (hl : (cstr name).length ≤ nameLen) :
    ∀ y ∈ E, y.foldKey ≠ nameKey name := by
  intro y hy heq
  have hfalse := h y hy
  rw [(filenameCmp_iff hl).mpr heq] at hfalse
  cases hfalse

theorem padName_lowerCase (h : LowerCase name) : (Block.padName name).map lowerCase = Block.padName name := by
  have hz : lowerCase 0 = 0 := (lowerCase_eq_zero 0).mpr rfl
  rw [Block.padName, List.map_map]
  refine List.map_congr_left fun k _ => ?_
  rw [Function.comp_apply, List.getD_eq_getElem?_getD]
  cases hk : (name.takeWhile (· ≠ 0))[k]? with
  | none => exact hz
  | some c => exact h c ((List.takeWhile_prefix _).subset (List.mem_of_getElem? hk))

/-- An entry stored under a name without capital letters has the key of the name. -/
theorem foldKey_stored (h : LowerCase name) (hx : x.name = Block.padName name) : x.foldKey = nameKey name := by
  rw [DirItem.foldKey, hx, nameKey_padName, nameKey, padName_lowerCase h]

theorem filenameCmp_stored (h : Short name) (hx : x.name = Block.padName name) : filenameCmp name x.name = true :=
  (filenameCmp_iff h.length).mpr (foldKey_stored h.lower hx)

theorem NoTwins.insert (h : NoTwins (A ++ B)) (hname : Short name) (hm : Miss filenameCmp name (A ++ B))
    (hx : x.name = Block.padName name) : NoTwins (A ++ x :: B) := by
  refine Distinct.insert h fun y hy => ?_
  rw [foldKey_stored hname.lower hx]
  exact hm.foldKey_ne hname.length y hy

/-! ## The calls of `SAVE` -/

/-- The calls of `SAVE` that store a name. -/
def DirCall.saves : DirCall → Prop
  | .createDir _ | .writeFile _ _ _ _ | .rename _ _ => True
  | .touch _ | .delete _ _ => False

theorem Zx81.LowerCase.suffix {name name' : List UInt8} (h : LowerCase name) (hs : name' <:+ name) : LowerCase name' :=
  fun c hc => h c (hs.subset hc)

/-- `SAVE` is a call of the file system on names without capital letters, or
formats, or is refused. -/
theorem Zx81.save_call (e : Env) (name program : List UInt8) :
    (∃ c : DirCall, (c.saves ∨ ∃ old, c = .delete old 0) ∧ LowerCase c.name ∧ save e name program = c.exec e) ∨
    save e name program = tfsFormat e ∨ ∃ err, save e name program = setErr err := by
  have hbuf := termZx2ascii_lowerCase name
  have hdrop : ∀ k, LowerCase ((termZx2ascii name).drop k) := fun k => hbuf.suffix (List.drop_suffix _ _)
  rw [save]
  split
  · exact .inl ⟨.createDir _, .inl trivial, hdrop 2, rfl⟩
  · split
    · exact .inr (.inr ⟨_, rfl⟩)
    · rename_i p hp
      refine .inl ⟨.rename _ p, .inl trivial, (hdrop 2).suffix ?_, rfl⟩
      exact (List.suffix_cons _ p).trans (hp ▸ List.dropWhile_suffix _)
  · exact .inl ⟨.delete _ 0, .inr ⟨_, rfl⟩, hdrop 2, rfl⟩
  · exact .inr (.inl rfl)
  · exact .inr (.inr ⟨_, rfl⟩)
  · exact .inr (.inr ⟨_, rfl⟩)
  · exact .inr (.inr ⟨_, rfl⟩)
  · exact .inr (.inr ⟨_, rfl⟩)
  · exact .inl ⟨.writeFile _ program _ true, .inl trivial, hdrop 1, rfl⟩

/-- Where a call that ends well brings its entry: behind entries that do not answer to the name. -/
theorem DirStep.saved {cmp : List UInt8 → List UInt8 → Bool} (h : DirStep cmp held c .ok A old new B) (hc : c.saves) :
    ∃ x, new = [x] ∧ x.name = Block.padName c.name ∧ c.name.headD 0 ≠ 0 ∧ Miss cmp c.name A := by
  cases h with
  | createDir hn hm => exact ⟨_, rfl, rfl, hn, fun y hy => hm y (List.mem_append_left _ hy)⟩
  | writeNew hn hm _ => exact ⟨_, rfl, rfl, hn, fun y hy => hm y (List.mem_append_left _ hy)⟩
  | writeOver hn hx _ _ => exact ⟨_, rfl, rfl, hn, hx.before⟩
  | rename hn _ hm _ => exact ⟨_, rfl, rfl, hn, fun y hy => hm y (List.mem_append_left _ hy)⟩
  | touch | touchPresent | delete => exact hc.elim

/-- A step with a short name brings no twin. -/
theorem DirStep.noTwins {err : Err} (h : DirStep filenameCmp held c err A old new B) (hname : Short c.name)
    (hd : NoTwins (A ++ old ++ B)) : NoTwins (A ++ new ++ B) := by
  have hflat : ∀ (x : DirItem) (A B : List DirItem), A ++ [x] ++ B = A ++ x :: B := by simp
  have hnil : ∀ A B : List DirItem, A ++ [] ++ B = A ++ B := by simp
  cases h with
  | createDir _ hm | touch _ hm | writeNew _ hm _ =>
    rw [hnil] at hd
    rw [hflat]
    exact hd.insert hname hm rfl
  | @writeOver name data len pos x _ A B _ hx _ _ =>
    rw [hflat] at *
    have hkey : (newFile name len pos).foldKey = x.foldKey :=
      (foldKey_stored hname.lower rfl).trans ((filenameCmp_iff hname.length).mp hx.hit).symm
    exact Distinct.insert (Distinct.erase hd) fun y hy => hkey ▸ Distinct.ne hd y hy
  | delete _ _ _ _ =>
    rw [hflat] at hd
    rw [hnil]
    exact Distinct.erase hd
  | @rename fromName toName x A B _ _ hm _ =>
    rw [hflat] at *
    have hm' : Miss filenameCmp toName (A ++ B) := fun y hy => hm y (by
      rcases List.mem_append.mp hy with hy | hy <;> simp [hy])
    exact NoTwins.insert (Distinct.erase hd) hname hm' rfl
  | _ => exact hd

/-! ## Finding and saving again -/

/-- What the name of a call that ended well is good for afterwards. -/
structure Findable (e : Env) (n : Nat) (c : DirCall) (s s' : State) (dirs : List (List Nat)) : Prop where
  /-- The entry the call brought is the one `find_file` finds. -/
  found : ∃ A old x B, s.listing n = A ++ old ++ B ∧ s'.listing n = A ++ x :: B ∧ x.name = Block.padName c.name ∧
    ∃ i t, findFile e c.name false { s' with tfsLastError := .ok } = some (some i, t) ∧ t.tfsLastError = .ok ∧
      t.blkBuf.item i = x
  /-- Saving a file under the name puts an entry in its place, or changes nothing. -/
  resave : ∀ data len, ∃ t, tfsWriteFile e c.name data len true s' = some ((), t) ∧ ∃ A x y B,
    s'.listing n = A ++ x :: B ∧ t.listing n = A ++ y :: B ∧ Hit e.filenameCmp c.name A x ∧
      (y = x ∨ x.type = itemFile ∧ ∃ pos, y = newFile c.name len pos) ∧
      (t.tfsLastError = .ok → ∃ pos, y = newFile c.name len pos)
  /-- No directory gets two entries with one name. -/
  apart : (∀ d ∈ dirs, NoTwins (entries s.dev d)) → ∃ dirs' files', AtRest n s' dirs' files' ∧
    ∀ d ∈ dirs', NoTwins (entries s'.dev d)

/-- A lookup from a volume at rest finds the first entry that answers to the name. -/
theorem Sys.findFile (he : e.NeverFails) (hf : n ≤ e.fuel) (hs : Sys n s L) (hname : name.headD 0 ≠ 0) :
    (∃ A x B i t, s.listing n = A ++ x :: B ∧ Hit e.filenameCmp name A x ∧
      findFile e name false { s with tfsLastError := .ok } = some (some i, t) ∧ t.tfsLastError = .ok ∧
      t.blkBuf.item i = x) ∨
    (Miss e.filenameCmp name (s.listing n) ∧ ∃ t, findFile e name false { s with tfsLastError := .ok } =
      some (none, t)) := by
  have hsys : Sys n { s with tfsLastError := .ok } L := ⟨hs.mounted, hs.cache, hs.volume, hs.cur, Err.noConfusion⟩
  obtain ⟨C, D, h⟩ := hsys.current rfl
  have hE : s.listing n = entries s.dev C := hs.listing_eq h.mem h.cur.symm
  rw [hE]
  rcases findFile_lookup he hf h.toInDir hname with ⟨q, l, hq, hrun⟩ | ⟨hnone, l, hrun⟩
  · obtain ⟨P, Q, hfd⟩ := found_of_find hq
    exact .inl ⟨_, _, _, _, _, hfd.entries, hfd.hit, hrun false, rfl, rfl⟩
  · exact .inr ⟨miss_of_find hnone, _, hrun⟩

/-- Two hits of one name in one listing are one. -/
theorem Hit.unique {cmp : List UInt8 → List UInt8 → Bool} (h : Hit cmp name A x) {A' B' : List DirItem}
    (h' : Hit cmp name A' y) (heq : A ++ x :: B = A' ++ y :: B') : A = A' ∧ x = y ∧ B = B' := by
  induction A generalizing A' with
  | nil =>
    cases A' with
    | nil =>
      rw [List.nil_append, List.nil_append, List.cons.injEq] at heq
      exact ⟨rfl, heq.1, heq.2⟩
    | cons z A' =>
      rw [List.nil_append, List.cons_append, List.cons.injEq] at heq
      have hz := h'.before z (by simp)
      rw [← heq.1, h.hit] at hz
      cases hz
  | cons z A ih =>
    cases A' with
    | nil =>
      rw [List.nil_append, List.cons_append, List.cons.injEq] at heq
      have hz := h.before z (by simp)
      rw [heq.1, h'.hit] at hz
      cases hz
    | cons w A' =>
      rw [List.cons_append, List.cons_append, List.cons.injEq] at heq
      obtain ⟨h1, h2, h3⟩ := ih ⟨fun v hv => h.before v (List.mem_cons_of_mem _ hv), h.hit⟩
        ⟨fun v hv => h'.before v (List.mem_cons_of_mem _ hv), h'.hit⟩ heq.2
      exact ⟨by rw [heq.1, h1], h2, h3⟩

/-- Writing over a name that is there. -/
theorem Sys.resave (he : e.NeverFails) (hf : n ≤ e.fuel) (hs : Sys n s L) (hE : s.listing n = A ++ x :: B)
    (hx : Hit e.filenameCmp name A x) (hname : name.headD 0 ≠ 0) (data : List UInt8) (len : Nat) :
    ∃ t, tfsWriteFile e name data len true s = some ((), t) ∧ ∃ y, t.listing n = A ++ y :: B ∧
      (y = x ∨ x.type = itemFile ∧ ∃ pos, y = newFile name len pos) ∧
      (t.tfsLastError = .ok → ∃ pos, y = newFile name len pos) := by
  obtain ⟨t, hrun, L', C, C', A', old, new, B', h⟩ := DirCall.exec_ok he hf hs (.writeFile name data len true)
  have hbefore : A ++ x :: B = A' ++ old ++ B' := hE.symm.trans ((hs.listing_eq h.mem h.head).trans h.before)
  have hafter : t.listing n = A' ++ new ++ B' := (h.sys.listing_eq h.mem' (h.head'.trans h.frame.cur.symm)).trans h.after
  have hmiss : ∀ E, A ++ x :: B = E → ¬ Miss e.filenameCmp name E := by
    intro E heq hm
    have hfalse := hm x (heq ▸ by simp)
    rw [hx.hit] at hfalse
    cases hfalse
  -- a step that changes nothing
  have hsame : ∀ err, t.tfsLastError = err → err ≠ .ok → t.listing n = A ++ x :: B → ∃ y, t.listing n = A ++ y :: B ∧
      (y = x ∨ x.type = itemFile ∧ ∃ pos, y = newFile name len pos) ∧
      (t.tfsLastError = .ok → ∃ pos, y = newFile name len pos) :=
    fun err herr hne heq => ⟨x, heq, .inl rfl, fun hok => absurd (herr.symm.trans hok) hne⟩
  refine ⟨t, hrun, ?_⟩
  have hstep := h.step
  generalize herr : t.tfsLastError = err at hstep
  rw [List.append_assoc] at hbefore hafter
  cases hstep with
  | noName hno => exact absurd hno hname
  | full _ _ hm => exact absurd hm (hmiss _ (by simpa using hbefore))
  | writeNew _ hm _ => exact absurd hm (hmiss _ (by simpa using hbefore))
  | @writeOver _ _ _ pos z _ _ _ _ hz ht _ =>
    obtain ⟨rfl, rfl, rfl⟩ := hx.unique hz hbefore
    exact ⟨_, hafter, .inr ⟨ht, pos, rfl⟩, fun _ => ⟨pos, rfl⟩⟩
  | writeOverFull _ _ _ _ | writeExist _ _ _ | writeBusy _ _ _ _ =>
    rw [List.nil_append] at hbefore hafter
    exact herr ▸ hsame _ herr Err.noConfusion (hafter.trans hbefore.symm)

/-- The directories after a step with a short name have no twins. -/
theorem DirOp.noTwins {L' : Layout} {C C' : List Nat} (hcmp : e.filenameCmp = filenameCmp)
    (h : DirOp e n L c s s' L' C C' A old new B) (hname : Short c.name)
    (hd : ∀ d ∈ L.dirs, NoTwins (entries s.dev d)) : ∀ d ∈ L'.dirs, NoTwins (entries s'.dev d) := by
  intro d hmem
  by_cases hcur : firstBlk d = s.currentDirBlk
  · have hdC : d = C' := by
      rw [← h.sys.volume.owned.follow_eq (List.mem_append_left _ hmem),
        ← h.sys.volume.owned.follow_eq (List.mem_append_left _ h.mem'), hcur, h.head']
    rw [hdC, h.after]
    have hstep := h.step
    rw [hcmp] at hstep
    exact hstep.noTwins hname (h.before ▸ hd C h.mem)
  · rcases h.dirs_from d hmem hcur with ⟨hold, hsame⟩ | ⟨hempty, -⟩
    · rw [entries_congr fun b hb i _ => by rw [hsame b hb]]
      exact hd d hold
    · rw [hempty]
      exact List.nodup_nil

/-- A name that is found is not longer than what is stored of it. -/
theorem Findable.length_le (h : Findable e n c s s' dirs) (he : e.NeverFails) (hf : n ≤ e.fuel)
    (hcmp : e.filenameCmp = filenameCmp) (hs' : Sys n s' L) (hname : c.name.headD 0 ≠ 0) :
    (cstr c.name).length ≤ nameLen := by
  by_contra hlong
  obtain ⟨_, _, _, _, _, _, _, i, t, hfound, -⟩ := h.found
  rcases hs'.findFile he hf hname with ⟨A', y, B', _, _, _, hy, _⟩ | ⟨-, t', hnone⟩
  · have hfalse := hy.hit
    rw [hcmp, filenameCmp_long (by omega)] at hfalse
    cases hfalse
  · rw [hnone] at hfound
    cases hfound

/-- On the ZX81 a call of `SAVE` that stores a name without capital letters and
ends well leaves a name that is found, is saved over and has no twin exactly where
the name has at most 16 characters. -/
theorem zxNames_findable (he : e.NeverFails) (hf : n ≤ e.fuel) (hcmp : e.filenameCmp = filenameCmp)
    (hs : AtRest n s dirs files) (hc : c.saves) (hlow : LowerCase c.name) (hrun : c.exec e s = some ((), s'))
    (hok : s'.tfsLastError = .ok) : Findable e n c s s' dirs ↔ (cstr c.name).length ≤ nameLen := by
  obtain ⟨t, ht, L', C, C', A, old, new, B, h⟩ := DirCall.exec_ok he hf hs.sys c
  obtain rfl : s' = t := by
    rw [hrun] at ht
    simpa using ht
  have hE : s.listing n = A ++ old ++ B := (hs.sys.listing_eq h.mem h.head).trans h.before
  have hE' : s'.listing n = A ++ new ++ B := (h.sys.listing_eq h.mem' (h.head'.trans h.frame.cur.symm)).trans h.after
  have hstep := h.step
  rw [hok] at hstep
  obtain ⟨x, rfl, hx, hname, hmiss⟩ := hstep.saved hc
  rw [List.append_assoc, List.singleton_append] at hE'
  refine ⟨fun hfind => hfind.length_le he hf hcmp h.sys hname, fun hlen => ?_⟩
  have hhit : Hit e.filenameCmp c.name A x := ⟨hmiss, by
    rw [hcmp]
    exact filenameCmp_stored ⟨hlow, hlen⟩ hx⟩
  refine ⟨⟨A, old, x, B, hE, hE', hx, ?_⟩, fun data len => ?_, fun hd => ⟨L'.dirs, L'.files, h.sys.atRest ⟨?_, ?_⟩,
    h.noTwins hcmp ⟨hlow, hlen⟩ hd⟩⟩
  · rcases h.sys.findFile he hf hname with ⟨A', y, B', i, t, hlist, hy, hfound, herr, hitem⟩ | ⟨hm, -⟩
    · obtain ⟨-, rfl, -⟩ := hhit.unique hy (hE'.symm.trans hlist)
      exact ⟨i, t, hfound, herr, hitem⟩
    · have hfalse := hm x (by rw [hE']; simp)
      rw [hhit.hit] at hfalse
      cases hfalse
  · obtain ⟨t, hwrite, y, hy, hkind, hend⟩ := h.sys.resave he hf hE' hhit hname data len
    exact ⟨t, hwrite, A, x, y, B, hE', hy, hhit, hkind, hend⟩
  · exact h.loose.trans layoutOf_tight.loose
  · exact h.leaked.trans layoutOf_tight.leaked

/-- The ZX81 build, on a drive of `n` blocks. -/
def Env.zx81 (n : Nat) : Env := { Env.linux n with filenameCmp := Zx81.filenameCmp }

/-- `SAVE ":>a"` in a freshly formatted volume of sixteen blocks. -/
theorem zxNames_findable_a : ∃ s s', formatted (Env.zx81 16) (State.boot fun _ => Buf.zero) = some ((), s) ∧
    (DirCall.createDir [0x61]).exec (Env.zx81 16) s = some ((), s') ∧
    (Findable (Env.zx81 16) 16 (.createDir [0x61]) s s' [[rootDirBlk]] ↔ (cstr [0x61]).length ≤ nameLen) := by
  have he : (Env.zx81 16).NeverFails := fun _ => rfl
  obtain ⟨s, hrun, hs, -⟩ := formatted_ok he rfl (by omega) (by omega) (by decide) (State.boot fun _ => Buf.zero)
  obtain ⟨s', hdir, -⟩ := tfsCreateDir_ok he (by decide) hs [0x61]
  have herr : ((formatted (Env.zx81 16) >>= fun _ => tfsCreateDir (Env.zx81 16) [0x61])
    (State.boot fun _ => Buf.zero)).map
      (fun p => p.2.tfsLastError) = some .ok := by decide +kernel
  rw [Prog.bind_some hrun, hdir, Option.map_some, Option.some.injEq] at herr
  exact ⟨s, s', hrun, hdir, zxNames_findable he (by decide) rfl (hs.atRest Layout.fresh_tight) trivial (by decide)
    hdir herr⟩

/-- A name of 17 characters. -/
def longName : List UInt8 := List.replicate 17 0x61

/-- `SAVE ":>aaaaaaaaaaaaaaaaa"` twice: both calls end well, and the directory holds
two entries with one stored name; neither is found. -/
theorem zxNames_twins : ∃ s s₁ s₂, AtRest 16 s [[rootDirBlk]] [] ∧ LowerCase longName ∧
    tfsCreateDir (Env.zx81 16) longName s = some ((), s₁) ∧ s₁.tfsLastError = .ok ∧
    tfsCreateDir (Env.zx81 16) longName s₁ = some ((), s₂) ∧ s₂.tfsLastError = .ok ∧
    ¬ Findable (Env.zx81 16) 16 (.createDir longName) s s₁ [[rootDirBlk]] ∧
    (s₂.listing 16).map (·.name) = [Block.padName longName, Block.padName longName] := by
  have he : (Env.zx81 16).NeverFails := fun _ => rfl
  obtain ⟨s, hrun, hs, -⟩ := formatted_ok he rfl (by omega) (by omega) (by decide) (State.boot fun _ => Buf.zero)
  obtain ⟨s₁, h₁, _, _, _, _, _, _, _, hop₁⟩ := tfsCreateDir_ok he (by decide) hs longName
  obtain ⟨s₂, h₂, -⟩ := tfsCreateDir_ok he (by decide) hop₁.sys longName
  have h1 : ((formatted (Env.zx81 16) >>= fun _ => tfsCreateDir (Env.zx81 16) longName)
      (State.boot fun _ => Buf.zero)).map (fun p => p.2.tfsLastError) = some .ok := by decide +kernel
  rw [Prog.bind_some hrun, h₁, Option.map_some, Option.some.injEq] at h1
  have h2 : ((formatted (Env.zx81 16) >>= fun _ => tfsCreateDir (Env.zx81 16) longName >>= fun _ =>
      tfsCreateDir (Env.zx81 16) longName) (State.boot fun _ => Buf.zero)).map
      (fun p => (p.2.tfsLastError, (p.2.listing 16).map (·.name))) =
      some (.ok, [Block.padName longName, Block.padName longName]) := by decide +kernel
  rw [Prog.bind_some hrun, Prog.bind_some h₁, h₂, Option.map_some, Option.some.injEq, Prod.mk.injEq] at h2
  refine ⟨s, s₁, s₂, hs.atRest Layout.fresh_tight, by decide, h₁, h1, h₂, h2.1, fun hfind => ?_, h2.2⟩
  have hlen := hfind.length_le he (by decide) rfl hop₁.sys (by decide)
  exact absurd hlen (by decide)

end TinyFs
