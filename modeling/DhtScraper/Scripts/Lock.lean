import Mathlib.Logic.Function.Basic
import DhtScraper.Library.Machine

/-!
# The lock of the install and update scripts

`acquire_lock` and `release_lock` of `common.sh`, run by any number of script processes.  Each command
that touches the lock directory is one step; between two commands of one process the others may run
any of theirs, and a process may die.  The directory is made in one step and its pid file is written
in a later one, and a lock found stale is removed in a step of its own: the scripts exclude each other
as long as no such removal takes the directory of a process that is still alive.
-/

namespace DhtScraper

open Library

/-- The next command of a script that touches the lock. -/
inductive LockCommand where
  /-- `mkdir` of `acquire_lock`. -/
  | mkdir
  /-- `echo "$$" >"$DHT_LOCK_DIR/pid"`, after either `mkdir`. -/
  | writePid
  /-- `owner=$(cat "$DHT_LOCK_DIR/pid")`, with the comparisons that follow. -/
  | readOwner
  /-- `kill -0 "$owner"`. -/
  | killOwner (owner : ℕ)
  /-- `rm -rf "$DHT_LOCK_DIR"` of `acquire_lock`. -/
  | removeStale
  /-- The second `mkdir` of `acquire_lock`. -/
  | mkdirAgain
  /-- None: `acquire_lock` has returned. -/
  | returned
  /-- `cat "$DHT_LOCK_DIR/pid"` of `release_lock`. -/
  | readRelease
  /-- `rm -rf "$DHT_LOCK_DIR"` of `release_lock`. -/
  | removeOwn
  deriving DecidableEq

/-- A live script process.  `holding`: `acquire_lock` has returned and `release_lock` has not removed
the lock; `trap`: `release_lock` runs at the exit. -/
structure Script where
  command : LockCommand := .mkdir
  holding : Bool := false
  trap : Bool := false

/-- The lock directory, with what its pid file holds, and the live scripts by their pids. -/
structure LockSystem where
  lock : Option (Option ℕ)
  scripts : ℕ → Option Script

inductive LockStep where
  /-- A script starts and calls `acquire_lock`. -/
  | start (pid : ℕ)
  /-- The next command of the script; `foreign` tells whether a program other than the scripts has
  the pid that `kill -0` asks for. -/
  | run (pid : ℕ) (foreign : Bool)
  /-- `trap release_lock EXIT`. -/
  | trap (pid : ℕ)
  /-- `acquire_lock` is called again. -/
  | again (pid : ℕ)
  /-- `exec` of the script, which calls `acquire_lock` again. -/
  | exec (pid : ℕ)
  | exit (pid : ℕ)
  | die (pid : ℕ)

namespace LockSystem

def set (s : LockSystem) (pid : ℕ) (script : Script) : LockSystem :=
  { s with scripts := Function.update s.scripts pid (some script) }

def gone (s : LockSystem) (pid : ℕ) : LockSystem :=
  { s with scripts := Function.update s.scripts pid none }

/-- The script exits, through `release_lock` where the trap is set. -/
def leave (s : LockSystem) (pid : ℕ) (script : Script) : LockSystem :=
  if script.trap then s.set pid { script with command := .readRelease } else s.gone pid

/-- One command of a script. -/
def runCommand (s : LockSystem) (pid : ℕ) (script : Script) (foreign : Bool) : LockSystem :=
  match script.command with
  | .mkdir =>
    match s.lock with
    | none => { s with lock := some none }.set pid { script with command := .writePid }
    | some _ => s.set pid { script with command := .readOwner }
  | .writePid =>
    match s.lock with
    | none => s.leave pid script
    | some _ => { s with lock := some (some pid) }.set pid
        { script with command := .returned, holding := true }
  | .readOwner =>
    match s.lock with
    | some (some owner) =>
      if owner = pid then s.set pid { script with command := .returned, holding := true }
      else s.set pid { script with command := .killOwner owner }
    | _ => s.set pid { script with command := .removeStale }
  | .killOwner owner =>
    -- `DHT_LOCK_DIR` is emptied before the script fails, so that nothing is released
    if (s.scripts owner).isSome ∨ foreign then s.gone pid
    else s.set pid { script with command := .removeStale }
  | .removeStale => { s with lock := none }.set pid { script with command := .mkdirAgain }
  | .mkdirAgain =>
    match s.lock with
    | none => { s with lock := some none }.set pid { script with command := .writePid }
    | some _ => s.leave pid script
  | .returned => s
  | .readRelease =>
    if s.lock = some (some pid) then s.set pid { script with command := .removeOwn }
    else s.gone pid
  | .removeOwn => { s with lock := none }.gone pid

/-- A script between two calls does something that does not touch the lock. -/
def between (s : LockSystem) (pid : ℕ) (f : Script → LockSystem) : Option LockSystem :=
  match s.scripts pid with
  | some script => if script.command = .returned then some (f script) else none
  | none => none

def step (s : LockSystem) : LockStep → Option LockSystem
  | .start pid => if (s.scripts pid).isSome then none else some (s.set pid {})
  | .run pid foreign => (s.scripts pid).map fun script ↦ s.runCommand pid script foreign
  | .trap pid => s.between pid fun script ↦ s.set pid { script with trap := true }
  | .again pid => s.between pid fun script ↦ s.set pid { script with command := .mkdir }
  | .exec pid => s.between pid fun script ↦ s.set pid { script with command := .mkdir, trap := false }
  | .exit pid => s.between pid fun script ↦ s.leave pid script
  | .die pid => (s.scripts pid).map fun _ ↦ s.gone pid

/-- No script runs yet; an earlier one may have left its lock behind. -/
def idle (lock : Option (Option ℕ)) : LockSystem := ⟨lock, fun _ ↦ none⟩

end LockSystem

def lockMachine : Machine LockSystem LockStep := ⟨LockSystem.step⟩

/-- The lock directory is the script's: it has made the directory, or it holds the lock. -/
def Script.Owns (script : Script) : Prop := script.command = .writePid ∨ script.holding

namespace LockSystem

variable {s s' : LockSystem} {pid other : ℕ} {script script' : Script}

/-- The script has returned from `acquire_lock` and has not released. -/
def Holds (s : LockSystem) (pid : ℕ) : Prop := ∃ script, s.scripts pid = some script ∧ script.holding

/-- The scripts exclude each other, a script that holds the lock acquires it again, and
`release_lock` removes no lock of another script. -/
structure Excluded (s : LockSystem) : Prop where
  exclusive : ∀ pid other, s.Holds pid → s.Holds other → pid = other
  again : ∀ pid script foreign, s.scripts pid = some script → script.holding →
    (script.command = .mkdir →
      s.runCommand pid script foreign = s.set pid { script with command := .readOwner }) ∧
    (script.command = .readOwner →
      s.runCommand pid script foreign = s.set pid { script with command := .returned })
  release : ∀ pid script, s.scripts pid = some script → script.command = .removeOwn →
    ∀ other, s.Holds other → other = pid

/-- No removal of a stale lock takes the directory of a live script. -/
def StaleOnly (s : LockSystem) : LockStep → Prop
  | .run pid _ => ∀ script, s.scripts pid = some script → script.command = .removeStale →
      ∀ other script', s.scripts other = some script' → ¬ script'.Owns
  | _ => True

/-! ## The invariant -/

/-- The commands of a script that holds the lock. -/
def IsCalm (command : LockCommand) : Prop :=
  command = .mkdir ∨ command = .readOwner ∨ command = .returned ∨ command = .readRelease ∨
    command = .removeOwn

/-- The script has got as far as returning from `acquire_lock`. -/
def HasReturned (script : Script) : Prop :=
  script.command = .returned ∨ script.command = .readRelease ∨ script.command = .removeOwn ∨
    script.trap

/-- What the lock directory says of a script that owns it. -/
structure Fits (lock : Option (Option ℕ)) (pid : ℕ) (script : Script) : Prop where
  made : script.command = .writePid → lock = some none
  held : script.holding → lock = some (some pid) ∧ IsCalm script.command
  returned : HasReturned script → script.holding

/-- Every script fits to the lock directory, and at most one owns it. -/
structure Sound (s : LockSystem) : Prop where
  fits : ∀ pid script, s.scripts pid = some script → Fits s.lock pid script
  unique : ∀ pid other script script', s.scripts pid = some script → s.scripts other = some script' →
    script.Owns → script'.Owns → pid = other

/-- No script but `pid` owns the lock directory. -/
def OthersFree (s : LockSystem) (pid : ℕ) : Prop :=
  ∀ other script, other ≠ pid → s.scripts other = some script → ¬ script.Owns

theorem Fits.lock_ne_none {lock : Option (Option ℕ)} (h : Fits lock pid script) (hown : script.Owns) :
    lock ≠ none := by
  rcases hown with hmade | hheld
  · rw [h.made hmade]
    exact Option.some_ne_none _
  · rw [(h.held hheld).1]
    exact Option.some_ne_none _

theorem Sound.othersFree_of_owns (h : s.Sound) (hget : s.scripts pid = some script)
    (hown : script.Owns) : s.OthersFree pid := fun other script' hne hother hown' ↦
  hne (h.unique other pid script' script hother hget hown' hown)

theorem Sound.othersFree_of_free (h : s.Sound) (hlock : s.lock = none) : s.OthersFree pid :=
  fun other script' _ hother hown ↦ (h.fits other script' hother).lock_ne_none hown hlock

theorem scripts_set (s : LockSystem) (pid : ℕ) (script : Script) (other : ℕ) :
    (s.set pid script).scripts other = if other = pid then some script else s.scripts other := by
  by_cases h : other = pid
  · rw [if_pos h, h]
    exact Function.update_self ..
  · rw [if_neg h]
    exact Function.update_of_ne h ..

theorem scripts_gone (s : LockSystem) (pid other : ℕ) :
    (s.gone pid).scripts other = if other = pid then none else s.scripts other := by
  by_cases h : other = pid
  · rw [if_pos h, h]
    exact Function.update_self ..
  · rw [if_neg h]
    exact Function.update_of_ne h ..

/-- A step of one script, which changes the directory or becomes its owner only while no other script
owns it. -/
theorem Sound.set (h : s.Sound) (lock : Option (Option ℕ)) (hfits : Fits lock pid script)
    (hlock : lock = s.lock ∨ s.OthersFree pid) (hown : script.Owns → s.OthersFree pid) :
    ({ s with lock := lock }.set pid script).Sound := by
  have hget (other : ℕ) : ({ s with lock := lock }.set pid script).scripts other =
    if other = pid then some script else s.scripts other := scripts_set _ pid script other
  constructor
  · intro other script' hother
    rw [hget] at hother
    split at hother
    next heq =>
      rw [← Option.some.inj hother, heq]
      exact hfits
    next hne =>
      rcases hlock with hsame | hfree
      · exact hsame ▸ h.fits other script' hother
      · have hnot := hfree other script' hne hother
        have hbefore := h.fits other script' hother
        exact ⟨fun hmade ↦ absurd (Or.inl hmade) hnot, fun hheld ↦ absurd (Or.inr hheld) hnot,
          hbefore.returned⟩
  · intro first second script₁ script₂ hfirst hsecond hown₁ hown₂
    rw [hget] at hfirst hsecond
    split at hfirst
    next heq =>
      split at hsecond
      next heq' => exact heq.trans heq'.symm
      next hne =>
        rw [← Option.some.inj hfirst] at hown₁
        exact absurd hown₂ (hown hown₁ second script₂ hne hsecond)
    next hne =>
      split at hsecond
      next heq' =>
        rw [← Option.some.inj hsecond] at hown₂
        exact absurd hown₁ (hown hown₂ first script₁ hne hfirst)
      next hne' => exact h.unique first second script₁ script₂ hfirst hsecond hown₁ hown₂

/-- The end of a script, which takes the directory only if no other script owns it. -/
theorem Sound.gone (h : s.Sound) {lock : Option (Option ℕ)}
    (hlock : lock = s.lock ∨ s.OthersFree pid) : ({ s with lock := lock }.gone pid).Sound := by
  have hget (other : ℕ) : ({ s with lock := lock }.gone pid).scripts other =
    if other = pid then none else s.scripts other := scripts_gone _ pid other
  constructor
  · intro other script' hother
    rw [hget] at hother
    split at hother
    · cases hother
    next hne =>
      rcases hlock with hsame | hfree
      · exact hsame ▸ h.fits other script' hother
      · have hnot := hfree other script' hne hother
        have hbefore := h.fits other script' hother
        exact ⟨fun hmade ↦ absurd (Or.inl hmade) hnot, fun hheld ↦ absurd (Or.inr hheld) hnot,
          hbefore.returned⟩
  · intro first second script₁ script₂ hfirst hsecond
    rw [hget] at hfirst hsecond
    split at hfirst
    · cases hfirst
    · split at hsecond
      · cases hsecond
      · exact h.unique first second script₁ script₂ hfirst hsecond

/-- A step of one script that leaves the directory alone and does not make the script its owner. -/
theorem Sound.go (h : s.Sound) {next : Script} (hget : s.scripts pid = some script)
    (hheld : next.holding → script.holding ∧ IsCalm next.command)
    (hmade : next.command ≠ .writePid) (hreturned : HasReturned next → next.holding) :
    (s.set pid next).Sound := by
  have hbefore := h.fits pid script hget
  refine h.set s.lock ⟨fun hcommand ↦ absurd hcommand hmade, fun hholding ↦ ?_, hreturned⟩
    (Or.inl rfl) fun hown ↦ ?_
  · exact ⟨(hbefore.held (hheld hholding).1).1, (hheld hholding).2⟩
  · rcases hown with hcommand | hholding
    · exact absurd hcommand hmade
    · exact h.othersFree_of_owns hget (Or.inr (hheld hholding).1)

/-- A script that has not returned yet goes on. -/
theorem Fits.notReturned {lock : Option (Option ℕ)} (h : Fits lock pid script)
    {command : LockCommand} (hreturned : command ≠ .returned)
    (hread : command ≠ .readRelease) (hremove : command ≠ .removeOwn) :
    HasReturned { script with command := command } → script.holding := by
  rintro (hcommand | hcommand | hcommand | htrap)
  · exact absurd hcommand hreturned
  · exact absurd hcommand hread
  · exact absurd hcommand hremove
  · exact h.returned (Or.inr (Or.inr (Or.inr htrap)))

theorem Sound.leave (h : s.Sound) (hget : s.scripts pid = some script) :
    (s.leave pid script).Sound := by
  unfold LockSystem.leave
  split
  next htrap =>
    have hholding := (h.fits pid script hget).returned (Or.inr (Or.inr (Or.inr htrap)))
    exact h.go hget (fun _ ↦ ⟨hholding, Or.inr (Or.inr (Or.inr (Or.inl rfl)))⟩) (by rintro ⟨⟩)
      fun _ ↦ hholding
  · exact h.gone (Or.inl rfl)

/-- A directory is made where there is none. -/
theorem Sound.makes (h : s.Sound) (hget : s.scripts pid = some script) (hlock : s.lock = none) :
    ({ s with lock := some none }.set pid { script with command := .writePid }).Sound := by
  have hfits := h.fits pid script hget
  have hfree : s.OthersFree pid := h.othersFree_of_free hlock
  have hnot : ¬ script.holding := fun hheld ↦ hfits.lock_ne_none (Or.inr hheld) hlock
  refine h.set _ ⟨fun _ ↦ rfl, fun hheld ↦ absurd hheld hnot, ?_⟩ (Or.inr hfree) fun _ ↦ hfree
  exact hfits.notReturned (by rintro ⟨⟩) (by rintro ⟨⟩) (by rintro ⟨⟩)

/-- A script that does not hold the lock goes on inside `acquire_lock`. -/
theorem Sound.tries (h : s.Sound) (hget : s.scripts pid = some script) (hnot : ¬ script.holding)
    {command : LockCommand} (hmade : command ≠ .writePid) (hreturned : command ≠ .returned)
    (hread : command ≠ .readRelease) (hremove : command ≠ .removeOwn) :
    (s.set pid { script with command := command }).Sound :=
  h.go hget (fun hheld ↦ absurd hheld hnot) hmade
    ((h.fits pid script hget).notReturned hreturned hread hremove)

/-- One command keeps the invariant, if it removes no directory of a live script as stale. -/
theorem Sound.runCommand (h : s.Sound) (hget : s.scripts pid = some script) {foreign : Bool}
    (hstale : script.command = .removeStale → ∀ other script', s.scripts other = some script' →
      ¬ script'.Owns) : (s.runCommand pid script foreign).Sound := by
  have hfits := h.fits pid script hget
  unfold LockSystem.runCommand
  split
  next hcommand =>
    cases hlock : s.lock with
    | none => exact h.makes hget hlock
    | some content =>
      refine h.go hget (fun hheld ↦ ⟨hheld, Or.inr (Or.inl rfl)⟩) (by rintro ⟨⟩) ?_
      rintro (hcommand | hcommand | hcommand | htrap)
      · cases hcommand
      · cases hcommand
      · cases hcommand
      · exact hfits.returned (Or.inr (Or.inr (Or.inr htrap)))
  next hcommand =>
    have hmade := hfits.made hcommand
    rw [hmade]
    have hfree := h.othersFree_of_owns hget (Or.inl hcommand)
    exact h.set _ ⟨(by rintro ⟨⟩), fun _ ↦ ⟨rfl, Or.inr (Or.inr (Or.inl rfl))⟩, fun _ ↦ rfl⟩
      (Or.inr hfree) fun _ ↦ hfree
  next hcommand =>
    split
    next owner hlock =>
      split
      next hsame =>
        -- a lock with the own pid: the script holds it, or an earlier script of this pid left it
        rw [hsame] at hlock
        have hfree : s.OthersFree pid := by
          intro other script' hne hother hown
          have hfits' := h.fits other script' hother
          rcases hown with hmade | hheld
          · rw [hfits'.made hmade] at hlock
            cases hlock
          · rw [(hfits'.held hheld).1, Option.some.injEq, Option.some.injEq] at hlock
            exact hne hlock
        exact h.set s.lock ⟨(by rintro ⟨⟩),
          fun _ ↦ ⟨hlock, Or.inr (Or.inr (Or.inl rfl))⟩, fun _ ↦ rfl⟩ (Or.inl rfl) fun _ ↦ hfree
      next hother =>
        have hnot : ¬ script.holding := fun hheld ↦ by
          rw [(hfits.held hheld).1, Option.some.injEq, Option.some.injEq] at hlock
          exact hother hlock.symm
        exact h.tries hget hnot (by rintro ⟨⟩) (by rintro ⟨⟩) (by rintro ⟨⟩) (by rintro ⟨⟩)
    next hlock =>
      have hnot : ¬ script.holding := fun hheld ↦ hlock pid (hfits.held hheld).1
      exact h.tries hget hnot (by rintro ⟨⟩) (by rintro ⟨⟩) (by rintro ⟨⟩) (by rintro ⟨⟩)
  next owner hcommand =>
    have hnot : ¬ script.holding := fun hheld ↦ by
      have hcalm := (hfits.held hheld).2
      rw [hcommand] at hcalm
      rcases hcalm with h | h | h | h | h <;> cases h
    split
    · exact h.gone (Or.inl rfl)
    · exact h.tries hget hnot (by rintro ⟨⟩) (by rintro ⟨⟩) (by rintro ⟨⟩) (by rintro ⟨⟩)
  next hcommand =>
    have hnone := hstale hcommand
    have hnot : ¬ script.holding := fun hheld ↦ hnone pid script hget (Or.inr hheld)
    have hfree : s.OthersFree pid := fun other script' _ hother ↦ hnone other script' hother
    refine h.set _ ⟨(by rintro ⟨⟩), fun hheld ↦ absurd hheld hnot, ?_⟩ (Or.inr hfree) fun _ ↦ hfree
    exact hfits.notReturned (by rintro ⟨⟩) (by rintro ⟨⟩) (by rintro ⟨⟩)
  next hcommand =>
    cases hlock : s.lock with
    | none => exact h.makes hget hlock
    | some content => exact h.leave hget
  next hcommand => exact h
  next hcommand =>
    have hholding := hfits.returned (Or.inr (Or.inl hcommand))
    split
    · exact h.go hget (fun _ ↦ ⟨hholding, Or.inr (Or.inr (Or.inr (Or.inr rfl)))⟩) (by rintro ⟨⟩)
        fun _ ↦ hholding
    · exact h.gone (Or.inl rfl)
  next hcommand =>
    have hholding := hfits.returned (Or.inr (Or.inr (Or.inl hcommand)))
    exact h.gone (Or.inr (h.othersFree_of_owns hget (Or.inr hholding)))

/-- What a script does between two calls. -/
theorem Sound.between (h : s.Sound) {f : Script → LockSystem}
    (hf : ∀ script, s.scripts pid = some script → script.command = .returned → script.holding →
      (f script).Sound) (hstep : s.between pid f = some s') : s'.Sound := by
  unfold LockSystem.between at hstep
  split at hstep
  next script hget =>
    split at hstep
    next hcommand =>
      rw [← Option.some.inj hstep]
      exact hf script hget hcommand ((h.fits pid script hget).returned (Or.inl hcommand))
    · cases hstep
  · cases hstep

theorem Sound.step (h : s.Sound) {label : LockStep} (hstale : s.StaleOnly label)
    (hstep : s.step label = some s') : s'.Sound := by
  cases label with
  | start pid =>
    simp only [LockSystem.step] at hstep
    split at hstep
    · cases hstep
    · rw [← Option.some.inj hstep]
      refine h.set s.lock ⟨(by rintro ⟨⟩), (by rintro ⟨⟩), ?_⟩ (Or.inl rfl) ?_
      · rintro (hcommand | hcommand | hcommand | htrap)
        · cases hcommand
        · cases hcommand
        · cases hcommand
        · cases htrap
      · rintro (hcommand | hholding)
        · cases hcommand
        · cases hholding
  | run pid foreign =>
    obtain ⟨script, hget, rfl⟩ := Option.map_eq_some_iff.mp hstep
    exact h.runCommand hget (hstale script hget)
  | trap pid =>
    refine h.between (fun script hget hcommand hholding ↦ ?_) hstep
    refine h.go hget (fun _ ↦ ⟨hholding, ?_⟩) ?_ fun _ ↦ hholding
    · exact Or.inr (Or.inr (Or.inl hcommand))
    · rw [hcommand]
      rintro ⟨⟩
  | again pid =>
    refine h.between (fun script hget hcommand hholding ↦ ?_) hstep
    exact h.go hget (fun _ ↦ ⟨hholding, Or.inl rfl⟩) (by rintro ⟨⟩) fun _ ↦ hholding
  | exec pid =>
    refine h.between (fun script hget hcommand hholding ↦ ?_) hstep
    exact h.go hget (fun _ ↦ ⟨hholding, Or.inl rfl⟩) (by rintro ⟨⟩) fun _ ↦ hholding
  | exit pid => exact h.between (fun script hget _ _ ↦ h.leave hget) hstep
  | die pid =>
    obtain ⟨script, -, rfl⟩ := Option.map_eq_some_iff.mp hstep
    exact h.gone (Or.inl rfl)

theorem Sound.excluded (h : s.Sound) : s.Excluded where
  exclusive := by
    rintro pid other ⟨script, hget, hholding⟩ ⟨script', hget', hholding'⟩
    exact h.unique pid other script script' hget hget' (Or.inr hholding) (Or.inr hholding')
  again := by
    intro pid script foreign hget hholding
    have hlock := ((h.fits pid script hget).held hholding).1
    constructor
    · intro hcommand
      unfold LockSystem.runCommand
      rw [hcommand, hlock]
    · intro hcommand
      unfold LockSystem.runCommand
      rw [hcommand, hlock]
      dsimp only
      rw [if_pos rfl, hholding]
  release := by
    rintro pid script hget hcommand other ⟨script', hget', hholding'⟩
    have hholding := (h.fits pid script hget).returned (Or.inr (Or.inr (Or.inl hcommand)))
    exact h.unique other pid script' script hget' hget (Or.inr hholding') (Or.inr hholding)

/-- In every run in which only the locks of dead scripts are removed as stale, the scripts exclude
each other. -/
theorem scripts_excluded (lock : Option (Option ℕ)) (labels : List LockStep) (s : LockSystem)
    (hstale : lockMachine.Along StaleOnly (idle lock) labels)
    (hrun : lockMachine.run (idle lock) labels = some s) : s.Excluded := by
  have hidle : (idle lock).Sound := ⟨(fun _ _ hget ↦ by cases hget), fun _ _ _ _ hget ↦ by cases hget⟩
  exact (lockMachine.run_guarded_invariant (I := Sound)
    (fun s label s' h hguard hstep ↦ h.step hguard hstep) hidle hstale hrun).excluded

/-- A script finds the lock that a dead one has left, removes it and takes it. -/
theorem scripts_excluded_stale :
    let labels : List LockStep := .start 1 :: List.replicate 6 (.run 1 false)
    ∃ s, lockMachine.run (idle (some (some 7))) labels = some s ∧ s.Holds 1 ∧ s.Excluded := by
  refine ⟨_, rfl, ⟨_, rfl, rfl⟩, ?_⟩
  refine scripts_excluded (some (some 7)) (.start 1 :: List.replicate 6 (.run 1 false)) _ ?_ rfl
  refine .cons rfl trivial (.cons rfl (by rintro _ ⟨⟩ ⟨⟩) (.cons rfl (by rintro _ ⟨⟩ ⟨⟩)
    (.cons rfl (by rintro _ ⟨⟩ ⟨⟩) (.cons rfl ?_ (.cons rfl (by rintro _ ⟨⟩ ⟨⟩)
      (.cons rfl (by rintro _ ⟨⟩ ⟨⟩) trivial))))))
  rintro _ - - other script hother hown
  by_cases hone : other = 1
  · rw [hone] at hother
    cases hother
    rcases hown with hcommand | hholding
    · cases hcommand
    · cases hholding
  · simp [LockSystem.runCommand, LockSystem.set, LockSystem.idle, hone] at hother

/-- The second script finds the directory of the first before its pid file is there. -/
theorem two_scripts_hold :
    let labels : List LockStep := [.start 1, .start 2, .run 1 false, .run 2 false, .run 2 false,
      .run 2 false, .run 2 false, .run 2 false, .run 1 false]
    ∃ s, lockMachine.run (idle none) labels = some s ∧ s.Holds 1 ∧ s.Holds 2 := by
  refine ⟨_, rfl, ⟨_, rfl, rfl⟩, ⟨_, rfl, rfl⟩⟩

end LockSystem

end DhtScraper
