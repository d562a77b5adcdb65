/-
A directory is a finite map from names to entries. With the default comparison a
name counts up to its end or its first 16 bytes, which is what the 16 stored
bytes are; so the names of the live items are the keys of a map, and every call
that does not run out of space does to the map what its name says.
-/
import TinyFs.Isolation
import TinyFs.Lib.KeyMap

namespace TinyFs

open Bytes Chains KeyMap

/-! ## Names -/

/-- The first `n` bytes of a string, zeros behind its end. -/
def padTo (n : Nat) (name : List UInt8) : List UInt8 :=
  (List.range n).map fun k => (name.takeWhile (· ≠ 0)).getD k 0

theorem padTo_zero (n : Nat) {name : List UInt8} (h : name.headD 0 = 0) : padTo n name = List.replicate n 0 := by
  have hnil : name.takeWhile (· ≠ 0) = [] := by
    cases name with
    | nil => rfl
    | cons a name =>
      have ha : a = 0 := h
      simp [ha]
  rw [padTo, hnil, List.eq_replicate_iff]
  simp

theorem padTo_succ (n : Nat) {name : List UInt8} (h : name.headD 0 ≠ 0) :
    padTo (n + 1) name = name.headD 0 :: padTo n name.tail := by
  cases name with
  | nil => exact absurd rfl h
  | cons a name =>
    have ha : a ≠ 0 := h
    simp only [padTo, List.range_succ_eq_map, List.map_cons, List.map_map, List.takeWhile_cons, ha, ne_eq,
      not_false_eq_true, decide_true, if_true, List.getD_cons_zero, List.headD_cons, List.tail_cons]
    rfl

/-- The comparison reads what is stored. -/
theorem strncmpEq_iff (n : Nat) (a b : List UInt8) : strncmpEq n a b = true ↔ padTo n a = padTo n b := by
  induction n generalizing a b with
  | zero => simp [strncmpEq, padTo]
  | succ n ih =>
    rw [strncmpEq]
    by_cases hab : a.headD 0 = b.headD 0
    · rw [if_neg (not_not.mpr hab)]
      by_cases ha : a.headD 0 = 0
      · rw [if_pos ha, padTo_zero _ ha, padTo_zero _ (hab ▸ ha)]
        simp
      · rw [if_neg ha, ih, padTo_succ n ha, padTo_succ n (hab ▸ ha), hab]
        simp
    · rw [if_pos hab]
      have hne : padTo (n + 1) a ≠ padTo (n + 1) b := by
        intro heq
        have hhead := congrArg (fun l => l.headD 0) heq
        have hpad : ∀ c : List UInt8, (padTo (n + 1) c).headD 0 = c.headD 0 := by
          intro c
          by_cases hc : c.headD 0 = 0
          · rw [padTo_zero _ hc, hc]
            rfl
          · rw [padTo_succ n hc]
            rfl
        simp only [hpad] at hhead
        exact hab hhead
      simp [hne]

theorem padTo_padTo (n : Nat) (name : List UInt8) : padTo n (padTo n name) = padTo n name := by
  induction n generalizing name with
  | zero => rfl
  | succ n ih =>
    by_cases h : name.headD 0 = 0
    · rw [padTo_zero _ h, padTo_zero]
      rfl
    · rw [padTo_succ n h, padTo_succ n (by simpa using h)]
      simp only [List.headD_cons, List.tail_cons, ih]

/-- The key of a name: its first 16 bytes. -/
def nameKey (name : List UInt8) : List UInt8 := Block.padName name

theorem strncmpName_iff (a b : List UInt8) : strncmpName a b = true ↔ nameKey a = nameKey b := strncmpEq_iff nameLen a b

theorem strncmpName_eq_false (a b : List UInt8) : strncmpName a b = false ↔ nameKey b ≠ nameKey a := by
  rw [← Bool.not_eq_true, strncmpName_iff, ne_comm]

/-- A stored name has the key of the name it was stored for. -/
theorem nameKey_padName (name : List UInt8) : nameKey (Block.padName name) = nameKey name := padTo_padTo nameLen name

/-! ## The map of a directory -/

/-- What a name stands for. -/
structure MapEntry where
  type : UInt8
  blk : Nat
  size : Nat
  deriving DecidableEq

/-- A finite map from the 16 bytes of a name to the entry. -/
abbrev DirMap := List UInt8 → Option MapEntry

def DirItem.key (x : DirItem) : List UInt8 := nameKey x.name

def DirItem.entry (x : DirItem) : MapEntry := ⟨x.type, x.blk, x.size⟩

/-- The map some live items stand for. -/
def dirMap (E : List DirItem) : DirMap := toMap DirItem.key DirItem.entry E

/-- No two live items hold the same name. -/
def DistinctNames (E : List DirItem) : Prop := Distinct DirItem.key E

/-- No name of the call is empty. -/
def DirCall.Named : DirCall → Prop
  | .rename fromName toName => fromName.headD 0 ≠ 0 ∧ toName.headD 0 ≠ 0
  | c => c.name.headD 0 ≠ 0

/-- What a call that ends well does to the map; `b` is the block it puts a new entry's data in. -/
def DirCall.effect (m : DirMap) (b : Nat) : DirCall → DirMap
  | .createDir name => Function.update m (nameKey name) (some ⟨itemDir, b, 0⟩)
  | .writeFile name _ len _ => Function.update m (nameKey name) (some ⟨itemFile, b, len % 2 ^ 32⟩)
  | .touch name =>
    match m (nameKey name) with
    | some _ => m
    | none => Function.update m (nameKey name) (some ⟨itemFile, 0, 0⟩)
  | .delete name _ => Function.update m (nameKey name) none
  | .rename fromName toName =>
    Function.update (Function.update m (nameKey fromName) none) (nameKey toName) (m (nameKey fromName))

/-- The map says that the name is taken. -/
def DirCall.Clash (m : DirMap) : DirCall → Prop
  | .createDir name => ∃ x, m (nameKey name) = some x
  | .writeFile name _ _ overwrite => ∃ x, m (nameKey name) = some x ∧ (overwrite = false ∨ x.type ≠ itemFile)
  | .touch _ => False
  | .delete _ _ => False
  | .rename _ toName => ∃ x, m (nameKey toName) = some x

/-- The map says that there is no such entry, of the type asked for. -/
def DirCall.Absent (m : DirMap) : DirCall → Prop
  | .createDir _ => False
  | .writeFile _ _ _ _ => False
  | .touch _ => False
  | .delete name type => ∀ x, m (nameKey name) = some x →
      (type ≠ 0 ∧ x.type ≠ type) ∨ (x.type ≠ itemFile ∧ x.type ≠ itemDir)
  | .rename fromName toName => m (nameKey toName) = none ∧ m (nameKey fromName) = none

/-- One call on the map. -/
structure MapStep (c : DirCall) (err : Err) (m m' : DirMap) : Prop where
  ok : err = .ok → ∃ b, m' = c.effect m b
  exist : err = .fileExist ↔ c.Clash m
  absent : err = .notExist ↔ c.Absent m
  unchanged : err ≠ .ok → m' = m

/-- A run of calls on the map. -/
inductive MapRun : DirMap → List (DirCall × Err) → DirMap → Prop
  | nil {m} : MapRun m [] m
  | cons {m m₁ m₂ c err l} : MapStep c err m m₁ → MapRun m₁ l m₂ → MapRun m ((c, err) :: l) m₂

/-! ## A step of the directory is a step of the map -/

variable {e : Env} {n : Nat} {s s' : State} {L : Layout} {c : DirCall} {err : Err} {A B old new E : List DirItem}
  {name : List UInt8} {x y : DirItem} {dirs files : List (List Nat)} {C : List Nat} {dev : Nat → Block}

theorem dirMap_miss (h : Miss strncmpName name E) : dirMap E (nameKey name) = none :=
  toMap_eq_none.mpr fun x hx => (strncmpName_eq_false name x.name).mp (h x hx)

theorem Hit.key_eq (h : Hit strncmpName name A x) : x.key = nameKey name := ((strncmpName_iff name x.name).mp h.hit).symm

theorem Hit.key_ne (h : Hit strncmpName name A x) : ∀ y ∈ A, y.key ≠ x.key := fun y hy => by
  rw [h.key_eq]
  exact (strncmpName_eq_false name y.name).mp (h.before y hy)

theorem dirMap_hit (h : Hit strncmpName name A x) : dirMap (A ++ x :: B) (nameKey name) = some x.entry := by
  rw [← h.key_eq]
  exact toMap_hit h.key_ne

/-- An entry stored under a name that is not there. -/
theorem dirMap_insert (h : Miss strncmpName name (A ++ B)) (hx : x.name = Block.padName name) :
    dirMap (A ++ x :: B) = Function.update (dirMap (A ++ B)) (nameKey name) (some x.entry) := by
  have hkey : x.key = nameKey name := by rw [DirItem.key, hx, nameKey_padName]
  rw [← hkey]
  refine toMap_insert fun y hy => ?_
  rw [hkey]
  exact (strncmpName_eq_false name y.name).mp (h y (List.mem_append_left _ hy))

theorem dirMap_erase (h : Hit strncmpName name A x) (hd : DistinctNames (A ++ x :: B)) :
    dirMap (A ++ B) = Function.update (dirMap (A ++ x :: B)) (nameKey name) none := by
  rw [← h.key_eq]
  exact toMap_erase hd

theorem dirMap_replace (h : Hit strncmpName name A x) (hy : y.name = Block.padName name) :
    dirMap (A ++ y :: B) = Function.update (dirMap (A ++ x :: B)) (nameKey name) (some y.entry) := by
  have hkey : y.key = x.key := by rw [DirItem.key, hy, nameKey_padName, h.key_eq]
  rw [← h.key_eq]
  exact toMap_replace h.key_ne hkey

theorem DistinctNames.insert (h : DistinctNames (A ++ B)) (hm : Miss strncmpName name (A ++ B))
    (hx : x.name = Block.padName name) : DistinctNames (A ++ x :: B) := by
  refine Distinct.insert h fun y hy => ?_
  have hkey : x.key = nameKey name := by rw [DirItem.key, hx, nameKey_padName]
  rw [hkey]
  exact (strncmpName_eq_false name y.name).mp (hm y hy)

theorem DirCall.Named.first (h : c.Named) : c.name.headD 0 ≠ 0 := by
  cases c with
  | rename _ _ => exact h.2
  | _ => exact h

/-- A call that finds the name taken. -/
theorem MapStep.clash {m : DirMap} (hc : c.Clash m) (ha : ¬ c.Absent m) : MapStep c .fileExist m m :=
  ⟨fun h => Err.noConfusion h, ⟨fun _ => hc, fun _ => rfl⟩,
    ⟨fun h => Err.noConfusion h, fun h => absurd h ha⟩, fun _ => rfl⟩

/-- A call that finds no such entry. -/
theorem MapStep.miss {m : DirMap} (hc : ¬ c.Clash m) (ha : c.Absent m) : MapStep c .notExist m m :=
  ⟨fun h => Err.noConfusion h, ⟨fun h => Err.noConfusion h, fun h => absurd h hc⟩,
    ⟨fun _ => ha, fun _ => rfl⟩, fun _ => rfl⟩

/-- A call that ends well. -/
theorem MapStep.done {m m' : DirMap} {b : Nat} (hc : ¬ c.Clash m) (ha : ¬ c.Absent m) (hm : m' = c.effect m b) :
    MapStep c .ok m m' :=
  ⟨fun _ => ⟨b, hm⟩, ⟨fun h => Err.noConfusion h, fun h => absurd h hc⟩,
    ⟨fun h => Err.noConfusion h, fun h => absurd h ha⟩, fun h => absurd rfl h⟩

/-- A step of the directory is a step of its map. -/
theorem DirStep.mapStep {held : Prop} (h : DirStep strncmpName held c err A old new B) (hheld : ¬ held) (hc : c.Named)
    (hfull : err ≠ .diskFull) (hd : DistinctNames (A ++ old ++ B)) :
    MapStep c err (dirMap (A ++ old ++ B)) (dirMap (A ++ new ++ B)) := by
  cases h with
  | noName hn => exact absurd hn hc.first
  | full => exact absurd rfl hfull
  | @createDir name b A B _ hm =>
    have hk := dirMap_miss hm
    simp only [List.append_nil, List.append_assoc, List.cons_append, List.nil_append] at *
    exact .done (by simp [DirCall.Clash, hk]) id (dirMap_insert hm rfl)
  | @createDirExist name x A B _ hx =>
    have hk := dirMap_hit (B := B) hx
    simp only [List.append_nil] at *
    exact .clash ⟨_, hk⟩ id
  | @touch name A B _ hm =>
    have hk := dirMap_miss hm
    simp only [List.append_nil, List.append_assoc, List.cons_append, List.nil_append] at *
    refine .done id id (b := 0) ?_
    rw [DirCall.effect, hk]
    exact dirMap_insert hm rfl
  | @touchPresent name x A B _ hx =>
    have hk := dirMap_hit (B := B) hx
    simp only [List.append_nil] at *
    refine .done id id (b := 0) ?_
    rw [DirCall.effect, hk]
  | @writeNew name data len ov pos _ A B _ hm he =>
    have hk := dirMap_miss hm
    obtain rfl := he.resolve_right hfull
    simp only [List.append_nil, List.append_assoc, List.cons_append, List.nil_append] at *
    exact .done (by simp [DirCall.Clash, hk]) id (dirMap_insert hm rfl)
  | @writeOver name data len pos x _ A B _ hx ht he =>
    have hk := dirMap_hit (B := B) hx
    obtain rfl := he.resolve_right hfull
    simp only [List.append_assoc, List.cons_append, List.nil_append] at *
    exact .done (by simp [DirCall.Clash, hk, DirItem.entry, ht]) id (dirMap_replace hx rfl)
  | writeOverFull => exact absurd rfl hfull
  | @writeExist name data len ov x A B _ hx ht =>
    have hk := dirMap_hit (B := B) hx
    simp only [List.append_nil] at *
    exact .clash ⟨_, hk, ht⟩ id
  | writeBusy _ _ _ hb => exact absurd hb hheld
  | @delete name type x A B _ hx ht hft =>
    have hk := dirMap_hit (B := B) hx
    simp only [List.append_nil, List.append_assoc, List.cons_append, List.nil_append] at *
    refine .done id (fun ha => ?_) (b := 0) (dirMap_erase hx hd)
    rcases ha _ hk with ⟨h0, h1⟩ | ⟨h1, h2⟩
    · exact ht.elim h0 h1
    · exact hft.elim h1 h2
  | @deleteMiss name type A B _ hm =>
    have hk := dirMap_miss hm
    simp only [List.append_nil] at *
    exact .miss id (by simp [DirCall.Absent, hk])
  | @deleteType name type x A B _ hx ht =>
    have hk := dirMap_hit (B := B) hx
    simp only [List.append_nil] at *
    refine .miss id fun y hy => ?_
    rw [hk] at hy
    cases hy
    exact ht
  | deleteBusy _ _ _ hb => exact absurd hb hheld
  | @deleteNotEmpty name type x A B _ hx ht hdir =>
    have hk := dirMap_hit (B := B) hx
    simp only [List.append_nil] at *
    refine ⟨fun h => Err.noConfusion h, ⟨fun h => Err.noConfusion h, fun h => h.elim⟩,
      ⟨fun h => Err.noConfusion h, fun ha => ?_⟩, fun _ => rfl⟩
    rcases ha _ hk with ⟨h0, h1⟩ | ⟨_, h2⟩
    · exact (ht.elim h0 h1).elim
    · exact absurd hdir h2
  | @rename fromName toName x A B _ _ hm hx =>
    have hk := dirMap_hit (B := B) hx
    have hk' := dirMap_miss hm
    simp only [List.append_assoc, List.cons_append, List.nil_append] at *
    have hm' : Miss strncmpName toName (A ++ B) := fun y hy => hm y (by
      rcases List.mem_append.mp hy with hy | hy <;> simp [hy])
    refine .done (by simp [DirCall.Clash, hk']) (fun ha => ?_) (b := 0) ?_
    · rw [ha.2] at hk
      cases hk
    · rw [DirCall.effect, hk, ← dirMap_erase hx hd]
      exact dirMap_insert hm' rfl
  | @renameExist fromName toName x A B _ hx =>
    have hk := dirMap_hit (B := B) hx
    simp only [List.append_nil] at *
    exact .clash ⟨_, hk⟩ fun ha => by
      rw [ha.1] at hk
      cases hk
  | @renameMiss fromName toName A B _ _ hm hm' =>
    have hk := dirMap_miss hm
    have hk' := dirMap_miss hm'
    simp only [List.append_nil] at *
    exact .miss (by simp [DirCall.Clash, hk]) ⟨hk, hk'⟩
  | renameNoName _ hn _ => exact absurd hn hc.1

/-- A step of the directory keeps the names distinct. -/
theorem DirStep.distinct {held : Prop} (h : DirStep strncmpName held c err A old new B)
    (hd : DistinctNames (A ++ old ++ B)) : DistinctNames (A ++ new ++ B) := by
  have hflat : ∀ (x : DirItem) (A B : List DirItem), A ++ [x] ++ B = A ++ x :: B := by simp
  have hnil : ∀ A B : List DirItem, A ++ [] ++ B = A ++ B := by simp
  cases h with
  | createDir _ hm | touch _ hm | writeNew _ hm _ =>
    rw [hnil] at hd
    rw [hflat]
    exact hd.insert hm rfl
  | @writeOver name data len pos x _ A B _ hx _ _ =>
    rw [hflat] at *
    have hkey : (newFile name len pos).key = x.key := by rw [DirItem.key, newFile, nameKey_padName, hx.key_eq]
    exact Distinct.insert (Distinct.erase hd) fun y hy => hkey ▸ Distinct.ne hd y hy
  | delete _ _ _ _ =>
    rw [hflat] at hd
    rw [hnil]
    exact Distinct.erase hd
  | @rename fromName toName x A B _ _ hm _ =>
    rw [hflat] at *
    have hm' : Miss strncmpName toName (A ++ B) := fun y hy => hm y (by
      rcases List.mem_append.mp hy with hy | hy <;> simp [hy])
    exact DistinctNames.insert (Distinct.erase hd) hm' rfl
  | _ => exact hd

/-! ## Runs -/

/-- A run of calls in the current directory, none of which runs out of space, with the error each ends with. -/
inductive DirRun (e : Env) : State → List (DirCall × Err) → State → Prop
  | nil {s : State} : DirRun e s [] s
  | cons {s s₁ s₂ : State} {c : DirCall} {l : List (DirCall × Err)} : c.Named →
      c.exec e s = some ((), s₁) → s₁.tfsLastError ≠ .diskFull → DirRun e s₁ l s₂ →
      DirRun e s ((c, s₁.tfsLastError) :: l) s₂

/-- What holds between two calls of a run. -/
structure MapInv (e : Env) (n : Nat) (s : State) : Prop where
  atRest : ∃ dirs files, AtRest n s dirs files
  closed : ¬ Held e s
  distinct : DistinctNames (s.listing n)

theorem MapInv.step (he : e.NeverFails) (hf : n ≤ e.fuel) (hcmp : e.filenameCmp = strncmpName) (hs : MapInv e n s)
    (c : DirCall) : ∃ s', c.exec e s = some ((), s') ∧ MapInv e n s' ∧ (c.Named → s'.tfsLastError ≠ .diskFull →
      MapStep c s'.tfsLastError (dirMap (s.listing n)) (dirMap (s'.listing n))) := by
  obtain ⟨dirs, files, hr⟩ := hs.atRest
  obtain ⟨s', hrun, L', C, C', A, old, new, B, h⟩ := DirCall.exec_ok he hf hr.sys c
  have hE : s.listing n = A ++ old ++ B := (hr.sys.listing_eq h.mem h.head).trans h.before
  have hcur' : firstBlk C' = s'.currentDirBlk := h.head'.trans h.frame.cur.symm
  have hE' : s'.listing n = A ++ new ++ B := (h.sys.listing_eq h.mem' hcur').trans h.after
  have hstep : DirStep strncmpName (Held e s) c s'.tfsLastError A old new B := hcmp ▸ h.step
  have hd := hs.distinct
  rw [hE] at hd
  refine ⟨s', hrun, ⟨⟨L'.dirs, L'.files, h.sys.atRest ⟨?_, ?_⟩⟩, ?_, ?_⟩, fun hc hfull => ?_⟩
  · exact h.loose.trans layoutOf_tight.loose
  · exact h.leaked.trans layoutOf_tight.leaked
  · rintro ⟨fd, hfd, hne⟩
    exact hs.closed ⟨fd, hfd, by rwa [h.frame.handles] at hne⟩
  · rw [hE']
    exact hstep.distinct hd
  · rw [hE, hE']
    exact hstep.mapStep hs.closed hc hfull hd

theorem MapInv.run (he : e.NeverFails) (hf : n ≤ e.fuel) (hcmp : e.filenameCmp = strncmpName)
    {l : List (DirCall × Err)} (h : DirRun e s l s') (hs : MapInv e n s) :
    MapRun (dirMap (s.listing n)) l (dirMap (s'.listing n)) ∧ MapInv e n s' := by
  induction h with
  | nil => exact ⟨.nil, hs⟩
  | cons hc hrun hfull _ ih =>
    obtain ⟨s₁, hrun', hs₁, hstep⟩ := hs.step he hf hcmp _
    rw [hrun] at hrun'
    cases hrun'
    obtain ⟨h1, h2⟩ := ih hs₁
    exact ⟨.cons (hstep hc hfull) h1, h2⟩

/-- `find_file` finds what the map has. -/
theorem MapInv.lookup (he : e.NeverFails) (hf : n ≤ e.fuel) (hcmp : e.filenameCmp = strncmpName) (hs : MapInv e n s)
    (hname : name.headD 0 ≠ 0) : ∃ r t, findFile e name false { s with tfsLastError := .ok } = some (r, t) ∧
      (r.map fun i => (t.blkBuf.item i).entry) = dirMap (s.listing n) (nameKey name) := by
  obtain ⟨dirs, files, hr⟩ := hs.atRest
  have hsys : Sys n { s with tfsLastError := .ok } (layoutOf s.dev dirs files) :=
    ⟨hr.mounted, hr.cache, hr.volume.volume, hr.cur, Err.noConfusion⟩
  obtain ⟨C, D, h⟩ := hsys.current rfl
  have hE : s.listing n = entries s.dev C := hr.sys.listing_eq h.mem h.cur.symm
  rw [hE]
  rcases findFile_lookup he hf h.toInDir hname with ⟨q, l, hq, hrun⟩ | ⟨hnone, l, hrun⟩
  · obtain ⟨P, Q, hfd⟩ := found_of_find hq
    have hentries := hfd.entries
    refine ⟨_, _, hrun false, ?_⟩
    rw [hentries, dirMap_hit (hcmp ▸ hfd.hit)]
    rfl
  · refine ⟨_, _, hrun, ?_⟩
    have hm := miss_of_find hnone
    rw [dirMap_miss (hcmp ▸ hm)]
    rfl

/-- `tfs_read_dir` passes every item of the directory once; its live items are the listing. -/
theorem MapInv.readDir (he : e.NeverFails) (hf : n ≤ e.fuel) (hs : MapInv e n s) {handler : List DirItem → Bool}
    (hh : ∀ seen, handler seen = true) : ∃ seen t, tfsReadDir e handler s = some ((true, seen), t) ∧
      seen.filter (·.live) = s.listing n := by
  obtain ⟨dirs, files, hr⟩ := hs.atRest
  obtain ⟨C, hC, hcur⟩ := mem_heads hr.cur
  obtain ⟨t, hrun, -⟩ := tfsReadDir_ok he hf hr.sys hC hcur handler
  rw [offered_all hh] at hrun
  exact ⟨_, t, hrun, (hr.sys.listing_eq hC hcur).symm⟩

/-- A directory refines a finite map: on a volume with no open handle and distinct
names in the current directory, every run of calls with non-empty names that does
not run out of space is a run on the map; the names stay distinct, a lookup finds
what the map has, a listing passes every entry once, and the next call returns. -/
theorem directory_refines_map (he : e.NeverFails) (hf : n ≤ e.fuel) (hcmp : e.filenameCmp = strncmpName)
    (hs : MapInv e n s) : ∀ l s', DirRun e s l s' →
      MapRun (dirMap (s.listing n)) l (dirMap (s'.listing n)) ∧
      DistinctNames (s'.listing n) ∧
      (∀ k, (dirMap (s'.listing n) k).isSome ↔ k ∈ (s'.listing n).map DirItem.key) ∧
      (∀ name : List UInt8, name.headD 0 ≠ 0 → ∃ r t, findFile e name false { s' with tfsLastError := .ok } =
        some (r, t) ∧
        (r.map fun i => (t.blkBuf.item i).entry) = dirMap (s'.listing n) (nameKey name)) ∧
      (∀ handler : List DirItem → Bool, (∀ seen, handler seen = true) → ∃ seen t,
        tfsReadDir e handler s' = some ((true, seen), t) ∧ seen.filter (·.live) = s'.listing n) ∧
      ∀ c : DirCall, ∃ t, c.exec e s' = some ((), t) := by
  intro l s' hrun
  obtain ⟨hmap, hs'⟩ := hs.run he hf hcmp hrun
  refine ⟨hmap, hs'.distinct, fun _ => toMap_isSome, fun name hname => hs'.lookup he hf hcmp hname, fun handler hh =>
    hs'.readDir he hf hh,
    fun c => ?_⟩
  obtain ⟨t, ht, -⟩ := hs'.step he hf hcmp c
  exact ⟨t, ht⟩

/-- In a directory with a file and a directory, a file is written, the first renamed, and the directory, which is not
empty, deleted in vain. -/
theorem directory_refines_map_smallTree : ∃ s s', furnished (Env.linux 16) smallTree (State.boot fun _ => Buf.zero) =
    some ((), s) ∧
    DirRun (Env.linux 16) s [(.writeFile [99] (List.replicate 600 8) 600 false, .ok), (.rename [97] [101], .ok),
      (.delete [100] 0, .notEmpty)] s' ∧
    MapRun (dirMap (s.listing 16)) [(.writeFile [99] (List.replicate 600 8) 600 false, .ok), (.rename [97] [101], .ok),
      (.delete [100] 0, .notEmpty)] (dirMap (s'.listing 16)) ∧
    DistinctNames (s'.listing 16) := by
  have he := Env.linux_neverFails 16
  obtain ⟨s, L, hrun, hs, htight, -⟩ := furnished_ok he rfl (by omega) (by omega) (by decide) smallTree
    (State.boot fun _ => Buf.zero)
  have hcalls : ((furnished (Env.linux 16) smallTree (State.boot fun _ => Buf.zero)).bind fun p =>
      (tfsWriteFile (Env.linux 16) [99] (List.replicate 600 8) 600 false p.2).bind fun p₁ =>
      (tfsRename (Env.linux 16) [97] [101] p₁.2).bind fun p₂ =>
      (tfsDelete (Env.linux 16) [100] 0 p₂.2).map fun p₃ =>
        (((p.2.listing 16).map DirItem.key, (List.range 32).all fun fd => (p.2.handles fd).usageCount = 0),
          [p₁.2.tfsLastError, p₂.2.tfsLastError, p₃.2.tfsLastError])) =
      some (([nameKey [97], nameKey [100]], true), [.ok, .ok, .notEmpty]) := by decide +kernel
  rw [hrun, Option.bind_some, Option.bind_eq_some_iff] at hcalls
  obtain ⟨⟨_, s₁⟩, hs₁, hcalls⟩ := hcalls
  obtain ⟨⟨_, s₂⟩, hs₂, hcalls⟩ := Option.bind_eq_some_iff.mp hcalls
  obtain ⟨⟨_, s₃⟩, hs₃, hfacts⟩ := Option.map_eq_some_iff.mp hcalls
  rw [Prod.mk.injEq, Prod.mk.injEq] at hfacts
  obtain ⟨⟨hkeys, hfree⟩, herrs⟩ := hfacts
  have hclosed : ¬ Held (Env.linux 16) s := fun ⟨fd, hfd, hne⟩ => hne
    (of_decide_eq_true (List.all_eq_true.mp hfree fd (List.mem_range.mpr hfd)))
  have hdistinct : DistinctNames (s.listing 16) := by
    show ((s.listing 16).map DirItem.key).Nodup
    rw [hkeys]
    decide
  have hinv : MapInv (Env.linux 16) 16 s := ⟨⟨_, _, hs.atRest htight⟩, hclosed, hdistinct⟩
  simp only [List.cons.injEq, and_true] at herrs
  obtain ⟨herr₁, herr₂, herr₃⟩ := herrs
  have hdirs : DirRun (Env.linux 16) s [(.writeFile [99] (List.replicate 600 8) 600 false, s₁.tfsLastError),
      (.rename [97] [101], s₂.tfsLastError), (.delete [100] 0, s₃.tfsLastError)] s₃ :=
    .cons (show (99 : UInt8) ≠ 0 by decide) hs₁ (by rw [herr₁]; decide)
      (.cons (show (97 : UInt8) ≠ 0 ∧ (101 : UInt8) ≠ 0 by decide) hs₂ (by rw [herr₂]; decide)
        (.cons (show (100 : UInt8) ≠ 0 by decide) hs₃ (by rw [herr₃]; decide) .nil))
  rw [herr₁, herr₂, herr₃] at hdirs
  obtain ⟨hmap, hdist, -⟩ := directory_refines_map he (by decide) rfl hinv _ s₃ hdirs
  exact ⟨s, s₃, hrun, hdirs, hmap, hdist⟩

end TinyFs
