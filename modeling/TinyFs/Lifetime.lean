/-
The lifetime of a volume. `mktfs` writes it, and then one program after another mounts
it, makes its calls and ends; each starts with its variables at zero, so that all it
knows of the volume it has read from the medium, and each finds a drive that may fail
some of the transfers. As long as no call tells of a failure, the calls of all these
programs are one run of the file system their callers see.
-/
import TinyFs.FuseTree
import TinyFs.Honest
import TinyFs.StartUp

namespace TinyFs

open Bytes Chains KeyMap NameTree

variable {e : Env} {n : Nat} {s s' : State} {L : Layout} {fs : FileSys} {dev dev' : Nat → Block}

/-! ## Calls on a failing drive -/

theorem Request.exec_faithful (hset : e.drive.setsOk = false) (r : Request) :
    Faithful e (r.exec e) (r.exec e.reliable) := by
  cases r with
  | stat name => exact (tfsStat_faithful hset name).drop
  | init => exact tfsInit_faithful hset
  | format => exact tfsFormat_faithful hset
  | call c =>
    cases c with
    | onDir c =>
      cases c with
      | createDir name => exact tfsCreateDir_faithful hset name
      | writeFile name data len ov => exact tfsWriteFile_faithful hset name data len ov
      | touch name => exact tfsTouch_faithful hset name
      | delete name type => exact tfsDelete_faithful hset name type
      | rename fromName toName => exact tfsRename_faithful hset fromName toName
    | changeDir name => exact tfsChangeDir_faithful hset name
    | changeDirParent => exact tfsChangeDirParent_faithful hset
    | changeDirRoot =>
      refine Faithful.quiet fun s a s' h => ?_
      cases h
      rfl
    | readDir handler => exact (tfsReadDir_faithful hset handler).drop
    | getUsed => exact (tfsGetUsed_faithful hset).drop

/-- A run that tells of no failure is one on the drive that never fails. -/
theorem runErrs_told (hset : e.drive.setsOk = false) {rs : List Request} {errs : List Err}
    (hrun : runErrs e rs s = some (errs, s')) (hno : .io ∉ errs) : runErrs e.reliable rs s = some (errs, s') := by
  induction rs generalizing s errs with
  | nil => exact hrun
  | cons r rs ih =>
    obtain ⟨_, s₁, h1, h2⟩ := Prog.bind_eq_some.mp hrun
    rw [Prog.gets_bind] at h2
    obtain ⟨errs', s₂, h3, h4⟩ := Prog.bind_eq_some.mp h2
    cases h4
    rw [List.mem_cons, not_or] at hno
    obtain ⟨hrun₁, -⟩ := (r.exec_faithful hset s () s₁).mp ⟨h1, Ne.symm hno.1⟩
    rw [runErrs, Prog.bind_some hrun₁, Prog.gets_bind, Prog.bind_some (ih h3 hno.2)]
    rfl

/-! ## The power cycle -/

/-- A volume mounted by another program. -/
theorem Shows.reboot {e' : Env} (he : e'.Plain n) (hs : Shows e n s L fs) :
    ∃ s', tfsInit e' (State.boot s.dev) = some ((), s') ∧ Shows e' n s' L fs.remount := by
  obtain ⟨l, hrun⟩ := tfsInit_ok he.never he.size hs.sys.mounted.pos he.lt (State.boot s.dev)
  refine ⟨_, hrun, ⟨?_, hs.tight, hs.upLinks, hs.compact, ?_⟩, hs.distinct, hs.tree, rfl, rfl, Err.noConfusion⟩
  · exact ⟨⟨hs.sys.mounted.pos, he.lt, rfl, rfl, rfl⟩, .valid rfl hs.sys.mounted.pos rfl, hs.sys.volume,
      hs.sys.volume.root_mem,
      Err.noConfusion⟩
  · rintro ⟨fd, hfd, hne⟩
    exact hne (by simp [hfd, Handle.zero])

/-- A program: the build and the drive it runs on, its calls, and the errors they end with. -/
structure Session where
  env : Env
  requests : List Request
  errs : List Err

/-- The run of a program from a medium to the medium it leaves. -/
def Session.Runs (x : Session) (dev dev' : Nat → Block) : Prop :=
  ∃ s', runErrs x.env (.init :: x.requests) (State.boot dev) = some (x.errs, s') ∧ s'.dev = dev'

/-- It may run on drives of `n` blocks, whatever transfers they fail. -/
structure Session.Fits (x : Session) (n : Nat) : Prop where
  plain : x.env.reliable.Plain n
  sized : ∀ r ∈ x.requests, r.Sized
  /-- No call told of a failure. -/
  told : .io ∉ x.errs

/-- Programs one after the other. -/
inductive Lifetime : (Nat → Block) → List Session → (Nat → Block) → Prop
  | nil {dev : Nat → Block} : Lifetime dev [] dev
  | cons {dev dev₁ dev' : Nat → Block} {x : Session} {xs : List Session} : x.Runs dev dev₁ → Lifetime dev₁ xs dev' →
      Lifetime dev (x :: xs) dev'

/-- What the programs see: each mounts the file system the one before has left. -/
inductive FileSys.Lives : FileSys → List Session → FileSys → Prop
  | nil {fs : FileSys} : Lives fs [] fs
  | cons {fs fs₁ fs' : FileSys} {x : Session} {xs : List Session} : Run fs (.init :: x.requests) x.errs fs₁ →
    Lives fs₁ xs fs' →
      Lives fs (x :: xs) fs'

/-- The medium holds the file system `fs`. -/
def Stores (n : Nat) (dev : Nat → Block) (fs : FileSys) : Prop := ∃ e s L, s.dev = dev ∧ Shows e n s L fs

theorem Stores.tree (h : Stores n dev fs) : volumeTree n dev = fs.tree := by
  obtain ⟨e, s, L, rfl, hs⟩ := h
  exact hs.tree

theorem Session.Runs.stores {x : Session} (h : x.Runs dev dev') (hx : x.Fits n) (hdev : Stores n dev fs) :
    ∃ fs', FileSys.Run fs (.init :: x.requests) x.errs fs' ∧ Stores n dev' fs' := by
  obtain ⟨s', hrun, rfl⟩ := h
  obtain ⟨e, s, L, rfl, hs⟩ := hdev
  have hset : x.env.drive.setsOk = false := hx.plain.sets
  replace hrun := runErrs_told hset hrun hx.told
  obtain ⟨s₁, hinit, hs₁⟩ := hs.reboot hx.plain
  obtain ⟨errs, s₂, hruns, L', fs', hfs, hs'⟩ := hs₁.run hx.plain x.requests hx.sized
  have hboth : runErrs x.env.reliable (.init :: x.requests) (State.boot s.dev) = some (s₁.tfsLastError :: errs, s₂) := by
    rw [runErrs]
    refine (Prog.bind_some hinit).trans ?_
    rw [Prog.gets_bind, Prog.bind_some hruns]
    rfl
  obtain ⟨herrs, rfl⟩ := Prod.mk.inj (Option.some.inj (hboth.symm.trans hrun))
  refine ⟨fs', ?_, _, _, L', rfl, hs'⟩
  rw [← herrs, hs₁.err]
  exact .cons .done hfs

theorem Lifetime.stores {xs : List Session} (h : Lifetime dev xs dev') (hxs : ∀ x ∈ xs, x.Fits n)
    (hdev : Stores n dev fs) :
    ∃ fs', FileSys.Lives fs xs fs' ∧ Stores n dev' fs' := by
  induction h generalizing fs with
  | nil => exact ⟨fs, .nil, hdev⟩
  | cons hrun _ ih =>
    obtain ⟨fs₁, hfs₁, hdev₁⟩ := hrun.stores (hxs _ (by simp)) hdev
    obtain ⟨fs', hlives, hdev'⟩ := ih (fun x hx => hxs x (by simp [hx])) hdev₁
    exact ⟨fs', .cons hfs₁ hlives, hdev'⟩

/-! ## `mktfs` -/

/-- An exit status of zero can be trusted, whatever failed. -/
theorem mktfs_stores (he : e.reliable.Plain n) (hrun : mktfs e (State.boot dev) = some (0, s')) :
    Stores n s'.dev FileSys.fresh := by
  obtain ⟨_, s₁, hinit, h⟩ := Prog.bind_eq_some.mp hrun
  obtain ⟨_, s₂, hfmt, h⟩ := Prog.bind_eq_some.mp h
  rw [Fuse.checkError, Prog.gets_bind, Prog.pure_apply, Option.some.injEq, Prod.mk.injEq] at h
  obtain ⟨hcode, rfl⟩ := h
  have hok : s₂.tfsLastError ≠ .io := by
    intro hio
    rw [hio] at hcode
    cases hcode
  have hsize : e.drive.blkCount = some n := he.size
  have hset : e.drive.setsOk = false := he.sets
  obtain ⟨hmt, hnd⟩ := tfsInit_mounted hsize (by have := he.two; omega) he.lt hinit
  obtain ⟨s₃, hfmt', hdone⟩ := tfsFormat_done he.never he.fuel he.two hmt hnd
  obtain ⟨hsame, -⟩ := (tfsFormat_faithful hset s₁ () s₂).mp ⟨hfmt, hok⟩
  obtain ⟨-, rfl⟩ := Prod.mk.inj (Option.some.inj (hfmt'.symm.trans hsame))
  refine ⟨e, _, _, rfl, hdone.shows ?_⟩
  rintro ⟨fd, -, hne⟩
  exact hne (tfsInit_noHandles hinit fd)

/-- **A volume is what its callers made of it.** Once `mktfs` has ended with the exit
status zero, all the programs that mount the volume one after the other, on drives that
may fail any of the transfers, end with the errors of one file system that begins empty,
and the medium then holds its tree, as long as no call ended with `TFS_ERR_IO`. -/
theorem mktfs_lifetime (he : e.reliable.Plain n) (hrun : mktfs e (State.boot dev) = some (0, s')) {xs : List Session}
    (hlife : Lifetime s'.dev xs dev') (hxs : ∀ x ∈ xs, x.Fits n) :
    ∃ fs, FileSys.Lives .fresh xs fs ∧ volumeTree n dev' = fs.tree := by
  obtain ⟨fs, hlives, hdev⟩ := hlife.stores hxs (mktfs_stores he hrun)
  exact ⟨fs, hlives, hdev.tree⟩

/-- A drive of sixteen blocks that breaks down right behind the format. -/
theorem mktfs_breaks : ∃ k s₀, mktfs (Env.faulting 16 fun j => k ≤ j) (State.boot fun _ => Buf.zero) = some (0, s₀) ∧
    Shows (Env.linux 16) 16 s₀ Layout.fresh FileSys.fresh := by
  have he : (Env.linux 16).Plain 16 := Env.linux_plain (by omega) (by omega) (by decide)
  obtain ⟨s₀, hfmt, hs⟩ := formatted_shows he (State.boot fun _ => Buf.zero)
  obtain ⟨_, s₁, hinit, hformat⟩ := Prog.bind_eq_some.mp hfmt
  obtain ⟨l, hrun⟩ := tfsInit_ok he.never he.size (by omega) (by omega) (State.boot fun _ => Buf.zero)
  obtain ⟨-, hs₁⟩ := Prod.mk.inj (Option.some.inj (hinit.symm.trans hrun))
  have hok₁ : s₁.tfsLastError ≠ .io := by
    rw [hs₁]
    exact Err.noConfusion
  have hok₀ : s₀.tfsLastError ≠ .io := by
    rw [hs.err]
    exact Err.noConfusion
  generalize hk : max s₁.log.transfers s₀.log.transfers = k
  have hwork : ∀ t t' :
      State, t'.log.transfers ≤ k → NoFailure (Env.faulting 16 fun j => k ≤ j) t t' := fun t t' hle j _ hj =>
    decide_eq_false (by omega)
  have hinit' := ((tfsInit_faithful (e := Env.faulting 16 fun j => k ≤ j) rfl _ () s₁).mpr
    ⟨hinit, hok₁, hwork _ _ (by omega)⟩).1
  have hformat' := ((tfsFormat_faithful (e := Env.faulting 16 fun j => k ≤ j) rfl _ () s₀).mpr
    ⟨hformat, hok₀, hwork _ _ (by omega)⟩).1
  refine ⟨k, s₀, ?_, hs⟩
  rw [mktfs, Prog.bind_some hinit', Prog.bind_some hformat', Fuse.checkError, Prog.gets_bind, hs.err]
  rfl

/-- A program that creates a directory on that volume. -/
theorem session_creates (hs : Shows (Env.linux 16) 16 s Layout.fresh FileSys.fresh) :
    ∃ (x : Session) (dev' : Nat → Block),
    x.requests = [.call (.onDir (.createDir [97]))] ∧ x.Fits 16 ∧ x.Runs s.dev dev' := by
  have he : (Env.linux 16).Plain 16 := Env.linux_plain (by omega) (by omega) (by decide)
  have hsized : ∀ r ∈ [Request.call (.onDir (.createDir [97]))], r.Sized := by
    intro r hr
    rw [List.mem_singleton.mp hr]
    trivial
  obtain ⟨s₂, hboot, hs₂⟩ := hs.reboot he
  obtain ⟨errs, s₃, hruns, _, fs, hfs, -⟩ := hs₂.run he [.call (.onDir (.createDir [97]))] hsized
  refine ⟨⟨Env.linux 16, [.call (.onDir (.createDir [97]))], .ok :: errs⟩, s₃.dev, rfl, ⟨he, hsized, ?_⟩, s₃, ?_, rfl⟩
  · cases hfs with
    | cons hstep hnil =>
      cases hnil
      have hdone : (FileSys.fresh.remount.serve (.call (.onDir (.createDir [97])))).err = .ok := rfl
      cases hstep with
      | done => simp [hdone]
      | full => simp [FileSys.fail]
  · rw [runErrs]
    refine (Prog.bind_some hboot).trans ?_
    rw [Prog.gets_bind, Prog.bind_some hruns, id_eq, hs₂.err]
    rfl

theorem mktfs_lifetime_sixteen : ∃ (k : Nat) (s' : State) (x : Session) (dev' : Nat → Block),
    mktfs (Env.faulting 16 fun j => k ≤ j) (State.boot fun _ => Buf.zero) = some (0, s') ∧
      x.requests = [.call (.onDir (.createDir [97]))] ∧ Lifetime s'.dev [x] dev' ∧
      ∃ fs, FileSys.Lives .fresh [x] fs ∧ volumeTree 16 dev' = fs.tree := by
  obtain ⟨k, s₀, hmk, hs⟩ := mktfs_breaks
  obtain ⟨x, dev', hreq, hfits, hruns⟩ := session_creates hs
  have he : (Env.linux 16).Plain 16 := Env.linux_plain (by omega) (by omega) (by decide)
  have hlife : Lifetime s₀.dev [x] dev' := .cons hruns .nil
  refine ⟨k, s₀, x, dev', hmk, hreq, hlife, mktfs_lifetime (e := Env.faulting 16 fun j => k ≤ j) he hmk hlife fun y
    hy => ?_⟩
  rw [List.mem_singleton.mp hy]
  exact hfits

end TinyFs
