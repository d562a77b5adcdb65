/-
The paths of the FUSE driver. `travel_path` cuts a path at its slashes and changes the
current directory at each of them; what it does in one pass over the characters is to
look up the components of the path one below the other, from the root directory on.
-/
import Mathlib.Data.List.TakeWhile
import TinyFs.Bracket
import TinyFs.ReadBack
import TinyFs.Model.Fuse

namespace TinyFs

open Bytes Chains

namespace Fuse

variable {e : Env} {n b c : Nat} {s s' : State} {L : Layout} {dev : Nat → Block} {tok path name : List UInt8}
  {names : List (List UInt8)}

/-! ## Components -/

/-- The components of a path before its last slash, but for the empty ones. -/
def dirNames (path : List UInt8) : List (List UInt8) := (path.splitOn slash).dropLast.filter (· ≠ [])

/-- The part of a path after its last slash. -/
def lastName (path : List UInt8) : List UInt8 := (path.splitOn slash).getLastD []

theorem dirNames_last (h : slash ∉ tok) : dirNames tok = [] := by
  rw [dirNames, List.splitOn_eq_singleton h]
  rfl

theorem lastName_last (h : slash ∉ tok) : lastName tok = tok := by
  rw [lastName, List.splitOn_eq_singleton h]
  rfl

/-- The first component of a path. -/
theorem dirNames_slash (h : slash ∉ tok) (cs : List UInt8) :
    dirNames (tok ++ slash :: cs) = if tok = [] then dirNames cs else tok :: dirNames cs := by
  rw [dirNames, List.splitOn_append_cons_self_of_not_mem h, List.dropLast_cons_of_ne_nil (List.splitOn_ne_nil _ _),
    List.filter_cons]
  by_cases htok : tok = []
  · simp [htok, dirNames]
  · simp [htok, dirNames]

theorem lastName_slash (h : slash ∉ tok) (cs : List UInt8) : lastName (tok ++ slash :: cs) = lastName cs := by
  rw [lastName, List.splitOn_append_cons_self_of_not_mem h, lastName]
  cases hsplit : cs.splitOn slash with
  | nil => exact absurd hsplit (List.splitOn_ne_nil _ _)
  | cons x xs => rfl

/-! ## Directories by name -/

/-- `name` names the directory with first block `c` in the one with first block `b`: the
first entry that answers to it is one of a directory, and that is where it points to. -/
def NamesDir (e : Env) (n : Nat) (dev : Nat → Block) (b : Nat) (name : List UInt8) (c : Nat) : Prop :=
  ∃ x, (entries dev (follow dev n b)).find? (fun x => e.filenameCmp name x.name) = some x ∧ x.type = itemDir ∧ x.blk = c

/-- The directory at the end of the names, one inside the other. -/
inductive Reaches (e : Env) (n : Nat) (dev : Nat → Block) : Nat → List (List UInt8) → Nat → Prop
  | here {b : Nat} : Reaches e n dev b [] b
  | enter {b c d : Nat} {name : List UInt8} {names : List (List UInt8)} :
    name.length ≤ nameLen → NamesDir e n dev b name c →
      Reaches e n dev c names d → Reaches e n dev b (name :: names) d

theorem NamesDir.unique {c' : Nat} (h : NamesDir e n dev b name c) (h' : NamesDir e n dev b name c') : c = c' := by
  obtain ⟨x, hx, -, rfl⟩ := h
  obtain ⟨y, hy, -, rfl⟩ := h'
  rw [Option.some.inj (hx.symm.trans hy)]

theorem Reaches.unique {c' : Nat} (h : Reaches e n dev b names c) (h' : Reaches e n dev b names c') : c = c' := by
  induction h with
  | here =>
    cases h'
    rfl
  | enter _ hname _ ih =>
    cases h' with
    | enter _ hname' hrest =>
      obtain rfl := hname.unique hname'
      exact ih hrest

/-! ## Changing the directory -/

/-- `tfs_change_dir` enters the directory of that name, or says that there is none. -/
theorem tfsChangeDir_enters (he : e.NeverFails) (hf : n ≤ e.fuel) (hs : Sys n s L) (hname : name.headD 0 ≠ 0) :
    ∃ s', tfsChangeDir e name s = some ((), s') ∧ Sys n s' L ∧ s'.dev = s.dev ∧
      ((NamesDir e n s.dev s.currentDirBlk name s'.currentDirBlk ∧ s'.tfsLastError = .ok) ∨
        ((∀ c, ¬ NamesDir e n s.dev s.currentDirBlk name c) ∧ s'.tfsLastError = .notExist ∧
          s'.currentDirBlk = s.currentDirBlk)) := by
  obtain ⟨s', hrun, hstays, -⟩ := tfsChangeDir_ok he hf hs name
  refine ⟨s', hrun, hstays.sys, hstays.dev, ?_⟩
  obtain ⟨C, D, h⟩ : ∃ C D, Cur n s.started L C D := hs.current_enter
  have hfollow : follow s.dev n s.currentDirBlk = C := h.follow_eq
  have hfind : ((slots C).find? fun p => hits e name (itemAt s.dev p)).map (itemAt s.dev) =
      (entries s.dev (follow s.dev n s.currentDirBlk)).find? fun x => e.filenameCmp name x.name := by
    have hitem := State.lookup_item e n s name
    rw [State.lookup, State.listing, hfollow] at hitem
    rw [hfollow]
    exact hitem
  rw [tfsChangeDir, enter_started hs.dev, Option.map_eq_some_iff] at hrun
  obtain ⟨⟨u, t⟩, hrun, heq⟩ := hrun
  obtain rfl : t.call .deselect = s' := congrArg Prod.snd heq
  rcases findFile_lookup he hf h.toInDir hname with ⟨q, l, hq, hlook⟩ | ⟨hnone, l, hlook⟩
  · rw [show (slots C).find? (fun p => hits e name (itemAt s.dev p)) = some q from hq, Option.map_some] at hfind
    rw [Prog.bind_some (hlook false), ifOk_ok rfl, blkBuf_bind] at hrun
    dsimp only at hrun
    by_cases ht : (itemAt s.dev q).type = itemDir
    · rw [if_neg (by exact fun hne => hne ht)] at hrun
      cases hrun
      exact .inl ⟨⟨_, hfind.symm, ht, rfl⟩, rfl⟩
    · rw [if_pos (by exact ht)] at hrun
      cases hrun
      refine .inr ⟨fun c hc => ?_, rfl, rfl⟩
      obtain ⟨x, hx, htype, -⟩ := hc
      obtain rfl : itemAt s.dev q = x := Option.some.inj (hfind.trans hx)
      exact ht htype
  · rw [show (slots C).find? (fun p => hits e name (itemAt s.dev p)) = none from hnone, Option.map_none] at hfind
    rw [Prog.bind_some hlook, ifOk_ok rfl, blkBuf_bind] at hrun
    cases hrun
    refine .inr ⟨fun c hc => ?_, rfl, rfl⟩
    obtain ⟨x, hx, -, -⟩ := hc
    cases hfind.trans hx

/-! ## The loop -/

/-- How `travel_path` ends, given the part of the path it has not cut yet. -/
inductive Traveled (e : Env) (n : Nat) (s : State) (path : List UInt8) : Option (List UInt8) → State → Prop
  | found {s' : State} : Reaches e n s.dev s.currentDirBlk (dirNames path) s'.currentDirBlk →
      Traveled e n s path (some (lastName path)) s'
  | lost {s' : State} : (∀ b, ¬ Reaches e n s.dev s.currentDirBlk (dirNames path) b) → s'.tfsLastError = .notExist →
      Traveled e n s path none s'

theorem Traveled.here (h : slash ∉ tok) : Traveled e n s tok (some tok) s := by
  have hfound : Traveled e n s tok (some (lastName tok)) s := .found (by rw [dirNames_last h]; exact .here)
  rwa [lastName_last h] at hfound

/-- An empty component. -/
theorem Traveled.slash {r : Option (List UInt8)} (h : Traveled e n s path r s') :
    Traveled e n s (slash :: path) r s' := by
  have hdirs : dirNames (Fuse.slash :: path) = dirNames path := dirNames_slash List.not_mem_nil path
  cases h with
  | found h =>
    rw [← show lastName (Fuse.slash :: path) = lastName path from lastName_slash List.not_mem_nil path]
    exact .found (by rw [hdirs]; exact h)
  | lost h herr => exact .lost (by rw [hdirs]; exact h) herr

/-- A component that names a directory. -/
theorem Traveled.enter {r : Option (List UInt8)} {s₁ : State} (hno : Fuse.slash ∉ tok) (htok : tok ≠ [])
    (hlen : tok.length ≤ nameLen)
    (hnames : NamesDir e n s.dev s.currentDirBlk tok s₁.currentDirBlk) (hdev : s₁.dev = s.dev)
    (h : Traveled e n s₁ path r s') : Traveled e n s (tok ++ Fuse.slash :: path) r s' := by
  have hdirs : dirNames (tok ++ Fuse.slash :: path) = tok :: dirNames path := by rw [dirNames_slash hno, if_neg htok]
  cases h with
  | found h =>
    rw [hdev] at h
    rw [← lastName_slash hno]
    exact .found (by rw [hdirs]; exact .enter hlen hnames h)
  | lost h herr =>
    refine .lost (fun b hb => ?_) herr
    rw [hdirs] at hb
    cases hb with
    | enter _ hnames' hrest =>
      obtain rfl := hnames.unique hnames'
      exact h b (by rw [hdev]; exact hrest)

/-- What brings the loop of `travel_path` from states with `I` to ends with `W`, for some value `a` that goes along:
what it does with the last component, an empty one, one that is too long, and one it can look up. -/
structure TravelRule {α : Type} (e : Env) (I : α → State → Prop)
    (W : α → List UInt8 → Option (List UInt8) → State → Prop) : Prop where
  last : ∀ {a : α} {s : State} {tok : List UInt8}, I a s → slash ∉ tok → W a tok (some tok) s
  empty : ∀ {a : α} {path : List UInt8} {r : Option (List UInt8)} {s' : State}, W a path r s' → W a (slash :: path) r s'
  long : ∀ {a : α} {s : State} {tok path : List UInt8}, I a s → slash ∉ tok → tok ≠ [] → nameLen < tok.length →
    W a (tok ++ slash :: path) none { s with tfsLastError := .notExist }
  enter : ∀ {a : α} {s : State} {tok : List UInt8}, I a s → slash ∉ tok → tok.headD 0 ≠ 0 → tok ≠ [] →
    tok.length ≤ nameLen → ∃ s₁, tfsChangeDir e tok s = some ((), s₁) ∧
      ((s₁.tfsLastError = .ok ∧ ∃ b, I b s₁ ∧ ∀ {path : List UInt8} {r : Option (List UInt8)} {s' : State},
        W b path r s' → W a (tok ++ slash :: path) r s') ∨
      (s₁.tfsLastError ≠ .ok ∧ ∀ path, W a (tok ++ slash :: path) none s₁))

theorem TravelRule.loop {α : Type} {I : α → State → Prop} {W : α → List UInt8 → Option (List UInt8) → State → Prop}
    (h : TravelRule e I W) {a : α} {cs : List UInt8} (hs : I a s) (hno : slash ∉ tok) (hz : ∀ x ∈ tok ++ cs, x ≠ 0) :
    ∃ r s', travelLoop e tok cs s = some (r, s') ∧ W a (tok ++ cs) r s' := by
  induction cs generalizing tok s a with
  | nil =>
    rw [List.append_nil]
    exact ⟨some tok, s, rfl, h.last hs hno⟩
  | cons c cs ih =>
    by_cases hslash : c = slash
    · subst hslash
      rw [travelLoop, if_pos rfl]
      have hrest : ∀ x ∈ [] ++ cs, x ≠ 0 := fun x hx => hz x (List.mem_append_right _ (List.mem_cons_of_mem _ hx))
      by_cases htok : tok = []
      · subst htok
        obtain ⟨r, s', hrun, hend⟩ := ih hs List.not_mem_nil hrest
        exact ⟨r, s', by rw [if_neg (by simp)]; exact hrun, h.empty hend⟩
      rw [if_pos htok]
      by_cases hlong : tok.length > nameLen
      · rw [if_pos hlong]
        exact ⟨none, _, rfl, h.long hs hno htok hlong⟩
      have hname : tok.headD 0 ≠ 0 := by
        cases tok with
        | nil => exact absurd rfl htok
        | cons x xs => exact hz x (by simp)
      rw [if_neg hlong]
      obtain ⟨s₁, hrun₁, ⟨herr, b, hs₁, hgo⟩ | ⟨herr, hend⟩⟩ := h.enter hs hno hname htok (by omega)
      · obtain ⟨r, s', hrun, hend⟩ := ih hs₁ List.not_mem_nil hrest
        refine ⟨r, s', ?_, hgo hend⟩
        rw [Prog.bind_some hrun₁, ifOk_ok herr]
        exact hrun
      · refine ⟨none, s₁, ?_, hend cs⟩
        rw [Prog.bind_some hrun₁, ifOk_err herr]
    · obtain ⟨r, s', hrun, hend⟩ := ih hs (show Fuse.slash ∉ tok ++ [c] by simpa [hno] using Ne.symm hslash)
        (by simpa using hz)
      rw [List.append_assoc, List.singleton_append] at hend
      refine ⟨r, s', ?_, hend⟩
      rw [travelLoop, if_neg hslash]
      exact hrun

/-- On a well-formed volume, the loop keeps the volume, and resolves the path. -/
theorem travelRule_ok (he : e.NeverFails) (hf : n ≤ e.fuel) : TravelRule e (fun t s => t = s ∧ Sys n s L)
    fun t path r s' => Sys n s' L ∧ Traveled e n t path r s' := by
  refine ⟨?_, ?_, ?_, ?_⟩
  · rintro t _ tok ⟨rfl, hs⟩ hno
    exact ⟨hs, .here hno⟩
  · rintro t path r s' ⟨hs, hend⟩
    exact ⟨hs, hend.slash⟩
  · rintro t _ tok path ⟨rfl, hs⟩ hno htok hlong
    refine ⟨⟨hs.mounted, hs.cache, hs.volume, hs.cur, Err.noConfusion⟩, .lost (fun b hb => ?_) rfl⟩
    rw [dirNames_slash hno, if_neg htok] at hb
    cases hb with
    | enter hle => omega
  · rintro t _ tok ⟨rfl, hs⟩ hno hname htok hlen
    obtain ⟨s₁, hrun₁, hs₁, hdev, ⟨hnames, herr⟩ | ⟨hnone, herr, -⟩⟩ := tfsChangeDir_enters he hf hs hname
    · exact ⟨s₁, hrun₁, .inl ⟨herr, s₁, ⟨rfl, hs₁⟩, fun hend => ⟨hend.1, hend.2.enter hno htok hlen hnames hdev⟩⟩⟩
    · refine ⟨s₁, hrun₁, .inr ⟨by rw [herr]; exact Err.noConfusion, fun path => ⟨hs₁, .lost (fun b hb => ?_) herr⟩⟩⟩
      rw [dirNames_slash hno, if_neg htok] at hb
      cases hb with
      | enter _ hnames => exact hnone _ hnames

theorem travelLoop_ok (he : e.NeverFails) (hf : n ≤ e.fuel) (hs : Sys n s L) {cs : List UInt8} (hno : slash ∉ tok)
    (hz : ∀ x ∈ tok ++ cs, x ≠ 0) : ∃ r s', travelLoop e tok cs s = some (r, s') ∧ Sys n s' L ∧
    Traveled e n s (tok ++ cs) r s' :=
  (travelRule_ok he hf).loop ⟨rfl, hs⟩ hno hz

/-- **`travel_path` resolves the path**: it returns a name exactly when every component before the last
slash has a length that fits and names a directory inside the one reached so far; then it is
in the last of them. Otherwise it says `TFS_ERR_NOT_EXIST`. -/
theorem travelPath_resolves (he : e.NeverFails) (hf : n ≤ e.fuel) (hs : Sys n s L) (herr : s.tfsLastError = .ok)
    (habs : path.headD 0 = slash) : ∃ r s', travelPath e path s = some (r, s') ∧
      (r ≠ none ↔ ∃ b, Reaches e n s.dev rootDirBlk (dirNames (cstr path)) b) ∧
      (∀ b, Reaches e n s.dev rootDirBlk (dirNames (cstr path)) b →
        r = some (lastName (cstr path)) ∧ s'.currentDirBlk = b ∧ b ∈ heads L.dirs) ∧
      (r = none → s'.tfsLastError = .notExist) := by
  obtain ⟨s₁, hs₁, hroot, hdev, hcur, herr₁⟩ : ∃ s₁, Sys n s₁ L ∧ tfsChangeDirRoot s = some ((), s₁) ∧ s₁.dev = s.dev ∧
      s₁.currentDirBlk = rootDirBlk ∧ s₁.tfsLastError = .ok :=
    ⟨{ s with currentDirBlk := rootDirBlk }, ⟨hs.mounted, hs.cache, hs.volume, hs.volume.root_mem, hs.dev⟩, rfl, rfl,
      rfl, herr⟩
  obtain ⟨rest, hpath⟩ : ∃ rest, cstr path = slash :: rest := by
    cases path with
    | nil => cases habs
    | cons x xs =>
      obtain rfl : x = slash := habs
      exact ⟨xs.takeWhile (· ≠ 0), List.takeWhile_cons_of_pos (by decide)⟩
  have hz : ∀ x ∈ [] ++ rest, x ≠ 0 := by
    intro x hx
    have hmem : x ∈ cstr path := by
      rw [hpath]
      exact List.mem_cons_of_mem _ hx
    simpa using List.mem_takeWhile_imp hmem
  obtain ⟨r, s', hrun, hs', hend⟩ := travelLoop_ok he hf hs₁ List.not_mem_nil hz
  have hend := hend.slash
  rw [List.nil_append, ← hpath] at hend
  refine ⟨r, s', ?_, ?_⟩
  · rw [travelPath, if_pos habs, Prog.bind_some hroot, ifOk_ok herr₁, hpath]
    exact hrun
  cases hend with
  | found h =>
    rw [hdev, hcur] at h
    refine ⟨iff_of_true (Option.some_ne_none _) ⟨_, h⟩, fun b hb => ?_, fun hnone => absurd hnone (Option.some_ne_none _)⟩
    obtain rfl := h.unique hb
    exact ⟨rfl, rfl, hs'.cur⟩
  | lost h herr' =>
    rw [hdev, hcur] at h
    exact ⟨iff_of_false (fun hne => hne rfl) fun ⟨b, hb⟩ => h b hb, fun b hb => absurd hb (h b), fun _ => herr'⟩

/-- The path `/d//f` on a volume of sixteen blocks with a directory `d`. -/
theorem travelPath_resolves_below : ∃ s s₁, formatted (Env.linux 16) (State.boot fun _ => Buf.zero) = some ((), s) ∧
    tfsCreateDir (Env.linux 16) [100] s = some ((), s₁) ∧ ∃ r s', travelPath (Env.linux 16)
    [47, 100, 47, 47, 102] s₁ = some (r, s') ∧
      (r ≠ none ↔ ∃ b, Reaches (Env.linux 16) 16 s₁.dev rootDirBlk (dirNames (cstr [47, 100, 47, 47, 102])) b) := by
  have he := Env.linux_neverFails 16
  obtain ⟨s, hformat, hs, -⟩ := formatted_ok he rfl (by omega) (by omega) (by decide) (State.boot fun _ => Buf.zero)
  obtain ⟨s₁, hcreate, L, _, _, _, _, _, _, h⟩ := tfsCreateDir_ok he (by decide) hs [100]
  have herr : ((formatted (Env.linux 16) (State.boot fun _ => Buf.zero)).bind fun p =>
      (tfsCreateDir (Env.linux 16) [100] p.2).map fun q => q.2.tfsLastError) = some .ok := by decide +kernel
  rw [hformat, Option.bind_some, hcreate, Option.map_some, Option.some.injEq] at herr
  obtain ⟨r, s', hrun, hiff, -⟩ := travelPath_resolves he (by decide) h.sys herr
    (show ([47, 100, 47, 47, 102] : List UInt8).headD 0 = slash from rfl)
  exact ⟨s, s₁, hformat, hcreate, r, s', hrun, hiff⟩

end Fuse

end TinyFs
