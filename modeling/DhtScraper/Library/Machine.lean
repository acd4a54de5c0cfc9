import Mathlib.Data.List.Basic
import Mathlib.Tactic

/-!
# Labelled machines and their runs

A deterministic machine is a partial step function: a label either has exactly one successor or is
not enabled.  Safety over all runs is proved by the induction rules below.  The general rule keeps
an invariant that may speak about the labels taken so far and only asks for preservation on the
steps that satisfy a guard, so that a property can be established for exactly the runs that avoid
one kind of step.
-/

namespace DhtScraper.Library

structure Machine (σ ℓ : Type*) where
  step : σ → ℓ → Option σ

namespace Machine

variable {σ ℓ τ κ : Type*} (M : Machine σ ℓ)

def run (s : σ) : List ℓ → Option σ
  | [] => some s
  | label :: rest => (M.step s label).bind fun s' ↦ run s' rest

/-- Every step of the run satisfies the guard in the state it is taken from. -/
def Along (G : σ → ℓ → Prop) (s : σ) : List ℓ → Prop
  | [] => True
  | label :: rest => G s label ∧ ∀ s', M.step s label = some s' → Along G s' rest

/-- The guard of a run can be checked state by state. -/
instance decidableAlong (G : σ → ℓ → Prop) [∀ s label, Decidable (G s label)] :
    ∀ (s : σ) (labels : List ℓ), Decidable (M.Along G s labels)
  | _, [] => isTrue trivial
  | s, label :: rest =>
    match h : M.step s label with
    | none => decidable_of_iff (G s label) (by simp [Along, h])
    | some s' =>
      have := decidableAlong G s' rest
      decidable_of_iff (G s label ∧ M.Along G s' rest) (by simp [Along, h])

@[simp]
theorem run_nil (s : σ) : M.run s [] = some s := rfl

theorem run_cons_eq_some {s s' : σ} {label : ℓ} {rest : List ℓ} :
    M.run s (label :: rest) = some s' ↔
      ∃ mid, M.step s label = some mid ∧ M.run mid rest = some s' := by
  simp [run, Option.bind_eq_some_iff]

theorem run_append (s : σ) (first second : List ℓ) :
    M.run s (first ++ second) = (M.run s first).bind fun mid ↦ M.run mid second := by
  induction first generalizing s with
  | nil => rfl
  | cons label rest ih =>
    simp only [List.cons_append, run]
    cases M.step s label with
    | none => rfl
    | some mid => exact ih mid

/-- An invariant relating the labels already taken to the state, preserved by the guarded steps,
holds at the end of every guarded run. -/
theorem run_history_invariant {G : σ → ℓ → Prop} {I : List ℓ → σ → Prop}
    (hstep : ∀ past s label s', I past s → G s label → M.step s label = some s' →
      I (past ++ [label]) s')
    (past : List ℓ) {labels : List ℓ} {s s' : σ} (hstart : I past s) (hguard : M.Along G s labels)
    (hrun : M.run s labels = some s') : I (past ++ labels) s' := by
  induction labels generalizing past s with
  | nil =>
    simp only [run_nil, Option.some.injEq] at hrun
    simpa [← hrun] using hstart
  | cons label rest ih =>
    obtain ⟨mid, hmid, hrest⟩ := M.run_cons_eq_some.mp hrun
    have hnext := hstep past s label mid hstart hguard.1 hmid
    have htail := ih (past ++ [label]) hnext (hguard.2 mid hmid) hrest
    simpa using htail

theorem run_guarded_invariant {G : σ → ℓ → Prop} {I : σ → Prop}
    (hstep : ∀ s label s', I s → G s label → M.step s label = some s' → I s')
    {labels : List ℓ} {s s' : σ} (hstart : I s) (hguard : M.Along G s labels)
    (hrun : M.run s labels = some s') : I s' :=
  M.run_history_invariant (I := fun _ ↦ I) (fun _ s label s' ↦ hstep s label s') []
    hstart hguard hrun

/-- When guarded steps keep an invariant and never get stuck, guarded runs come to their end. -/
theorem run_total {G : σ → ℓ → Prop} {I : σ → Prop}
    (hstep : ∀ s label, I s → G s label → ∃ s', M.step s label = some s' ∧ I s')
    {labels : List ℓ} {s : σ} (hstart : I s) (hguard : M.Along G s labels) :
    ∃ s', M.run s labels = some s' := by
  induction labels generalizing s with
  | nil => exact ⟨s, rfl⟩
  | cons label rest ih =>
    obtain ⟨mid, hmid, hnext⟩ := hstep s label hstart hguard.1
    obtain ⟨s', hrun⟩ := ih hnext (hguard.2 mid hmid)
    exact ⟨s', M.run_cons_eq_some.mpr ⟨mid, hmid, hrun⟩⟩

theorem along_true (s : σ) (labels : List ℓ) : M.Along (fun _ _ ↦ True) s labels := by
  induction labels generalizing s with
  | nil => trivial
  | cons label rest ih => exact ⟨trivial, fun s' _ ↦ ih s'⟩

/-- A guard on the labels alone is checked on the labels. -/
theorem along_of_forall {P : ℓ → Prop} {labels : List ℓ} (h : ∀ label ∈ labels, P label) (s : σ) :
    M.Along (fun _ label ↦ P label) s labels := by
  induction labels generalizing s with
  | nil => trivial
  | cons label rest ih =>
    exact ⟨h label List.mem_cons_self,
      fun s' _ ↦ ih (fun other hother ↦ h other (List.mem_cons_of_mem _ hother)) s'⟩

/-- The plain induction rule for runs. -/
theorem run_invariant {I : σ → Prop}
    (hstep : ∀ s label s', I s → M.step s label = some s' → I s')
    {labels : List ℓ} {s s' : σ} (hstart : I s) (hrun : M.run s labels = some s') : I s' :=
  M.run_guarded_invariant (G := fun _ _ ↦ True)
    (fun s label s' hs _ ↦ hstep s label s' hs) hstart (M.along_true s labels) hrun

theorem Along.imp {M : Machine σ ℓ} {G G' : σ → ℓ → Prop} (h : ∀ s label, G s label → G' s label)
    {s : σ} {labels : List ℓ} (ha : M.Along G s labels) : M.Along G' s labels := by
  induction labels generalizing s with
  | nil => trivial
  | cons label rest ih => exact ⟨h s label ha.1, fun s' hs ↦ ih (ha.2 s' hs)⟩

theorem Along.and {M : Machine σ ℓ} {G G' : σ → ℓ → Prop} {s : σ} {labels : List ℓ}
    (ha : M.Along G s labels) (ha' : M.Along G' s labels) :
    M.Along (fun s label ↦ G s label ∧ G' s label) s labels := by
  induction labels generalizing s with
  | nil => trivial
  | cons label rest ih => exact ⟨⟨ha.1, ha'.1⟩, fun s' hs ↦ ih (ha.2 s' hs) (ha'.2 s' hs)⟩

theorem Along.cons {M : Machine σ ℓ} {G : σ → ℓ → Prop} {s s' : σ} {label : ℓ} {rest : List ℓ}
    (hstep : M.step s label = some s') (hguard : G s label) (ha : M.Along G s' rest) :
    M.Along G s (label :: rest) := by
  refine ⟨hguard, fun mid hmid ↦ ?_⟩
  rw [hstep, Option.some.injEq] at hmid
  exact hmid ▸ ha

theorem Along.concat {M : Machine σ ℓ} {G : σ → ℓ → Prop} {s mid : σ} {labels : List ℓ} {label : ℓ}
    (ha : M.Along G s labels) (hrun : M.run s labels = some mid) (hguard : G mid label) :
    M.Along G s (labels ++ [label]) := by
  induction labels generalizing s with
  | nil =>
    rw [run_nil, Option.some.injEq] at hrun
    exact ⟨hrun ▸ hguard, fun _ _ ↦ trivial⟩
  | cons first rest ih =>
    obtain ⟨next, hnext, hrest⟩ := M.run_cons_eq_some.mp hrun
    exact .cons hnext ha.1 (ih (ha.2 next hnext) hrest)

/-- When some labels lower a measure and the others that occur do not raise it, the measure bounds how
often the former occur. -/
theorem run_budget {I : σ → Prop} {P : ℓ → Prop} {p : ℓ → Bool} {measure : σ → ℕ}
    (hstep : ∀ s label s', I s → P label → M.step s label = some s' →
      I s' ∧ measure s' + (if p label then 1 else 0) ≤ measure s)
    {labels : List ℓ} {s s' : σ} (hstart : I s) (hlabels : ∀ label ∈ labels, P label)
    (hrun : M.run s labels = some s') : measure s' + labels.countP p ≤ measure s := by
  induction labels generalizing s with
  | nil =>
    simp only [run_nil, Option.some.injEq] at hrun
    rw [hrun, List.countP_nil, Nat.add_zero]
  | cons label rest ih =>
    obtain ⟨mid, hmid, hrest⟩ := M.run_cons_eq_some.mp hrun
    obtain ⟨hnext, hfirst⟩ := hstep s label mid hstart (hlabels label List.mem_cons_self) hmid
    have htail := ih hnext (fun other hother ↦ hlabels other (List.mem_cons_of_mem _ hother)) hrest
    rw [List.countP_cons]
    omega

/-- A guarded run leads from one state to the other. -/
structure Leads (M : Machine σ ℓ) (G : σ → ℓ → Prop) (s : σ) (labels : List ℓ) (s' : σ) : Prop where
  along : M.Along G s labels
  run : M.run s labels = some s'

theorem Leads.refl (M : Machine σ ℓ) (G : σ → ℓ → Prop) (s : σ) : M.Leads G s [] s := ⟨trivial, rfl⟩

theorem Leads.concat {M : Machine σ ℓ} {G : σ → ℓ → Prop} {s mid s' : σ} {labels : List ℓ} {label : ℓ}
    (h : M.Leads G s labels mid) (hguard : G mid label) (hstep : M.step mid label = some s') :
    M.Leads G s (labels ++ [label]) s' where
  along := h.along.concat h.run hguard
  run := by
    rw [M.run_append, h.run]
    exact M.run_cons_eq_some.mpr ⟨s', hstep, rfl⟩

/-- The run from `s` along `labels` takes `label` from `before` to `after`. -/
def Takes (s : σ) (labels : List ℓ) (before : σ) (label : ℓ) (after : σ) : Prop :=
  ∃ past rest, labels = past ++ label :: rest ∧ M.run s past = some before ∧
    M.step before label = some after

theorem not_takes_nil {s before after : σ} {label : ℓ} : ¬ M.Takes s [] before label after :=
  fun ⟨_, _, hlabels, _⟩ ↦ List.append_ne_nil_of_right_ne_nil _ (List.cons_ne_nil _ _) hlabels.symm

/-- A longer run takes the steps of the shorter one and its last one. -/
theorem takes_concat {s mid s' before after : σ} {labels : List ℓ} {last label : ℓ}
    (hrun : M.run s labels = some mid) (hstep : M.step mid last = some s') :
    M.Takes s (labels ++ [last]) before label after ↔
      M.Takes s labels before label after ∨ before = mid ∧ label = last ∧ after = s' := by
  constructor
  · rintro ⟨past, rest, hlabels, hbefore, hafter⟩
    rcases List.eq_nil_or_concat rest with rfl | ⟨others, last', rfl⟩
    · obtain ⟨rfl, hlast⟩ := List.append_inj' hlabels rfl
      obtain rfl := List.singleton_inj.mp hlast
      obtain rfl := Option.some.inj (hrun.symm.trans hbefore)
      exact .inr ⟨rfl, rfl, Option.some.inj (hafter.symm.trans hstep)⟩
    · rw [List.concat_eq_append, ← List.cons_append, ← List.append_assoc] at hlabels
      exact .inl ⟨past, others, (List.append_inj' hlabels rfl).1, hbefore, hafter⟩
  · rintro (⟨past, rest, rfl, hbefore, hafter⟩ | ⟨rfl, rfl, rfl⟩)
    · exact ⟨past, rest ++ [last], by rw [List.append_assoc, List.cons_append], hbefore, hafter⟩
    · exact ⟨labels, [], rfl, hrun, hstep⟩

/-- Two machines that take the same labels. -/
def both (M : Machine σ ℓ) (N : Machine τ ℓ) : Machine (σ × τ) ℓ where
  step s label := (M.step s.1 label).bind fun s' ↦ (N.step s.2 label).map fun t' ↦ (s', t')

theorem both_step {M : Machine σ ℓ} {N : Machine τ ℓ} {s s' : σ} {t t' : τ} {label : ℓ}
    (h : M.step s label = some s') (h' : N.step t label = some t') :
    (M.both N).step (s, t) label = some (s', t') := by
  simp [both, h, h']

theorem takes_head {s s' : σ} {label : ℓ} (rest : List ℓ) (hstep : M.step s label = some s') :
    M.Takes s (label :: rest) s label s' := ⟨[], rest, rfl, rfl, hstep⟩

theorem Takes.cons {M : Machine σ ℓ} {s mid before after : σ} {labels : List ℓ} {first label : ℓ}
    (h : M.Takes mid labels before label after) (hstep : M.step s first = some mid) :
    M.Takes s (first :: labels) before label after := by
  obtain ⟨past, rest, rfl, hbefore, hafter⟩ := h
  exact ⟨first :: past, rest, rfl, M.run_cons_eq_some.mpr ⟨mid, hstep, hbefore⟩, hafter⟩

end Machine

/-! ## Logs -/

section Logs

variable {α : Type*} {P Q : List α → α → Prop} {log log' log'' : List α}

/-- A log goes on to another one, and each new event has a reason in view of those before it. -/
inductive Grows (P : List α → α → Prop) (log : List α) : List α → Prop
  | refl : Grows P log log
  | emit {log' : List α} {event : α} (h : Grows P log log') (reason : P log' event) :
      Grows P log (log' ++ [event])

namespace Grows

theorem of_eq (h : log' = log) : Grows P log log' := h ▸ .refl

theorem trans (h : Grows P log log') (h' : Grows P log' log'') : Grows P log log'' := by
  induction h' with
  | refl => exact h
  | emit _ reason ih => exact .emit ih reason

theorem mono (h : Grows P log log') (hPQ : ∀ past event, P past event → Q past event) :
    Grows Q log log' := by
  induction h with
  | refl => exact .refl
  | emit _ reason ih => exact .emit ih (hPQ _ _ reason)

theorem append {events : List α} (h : ∀ event ∈ events, ∀ past, P past event) :
    Grows P log (log ++ events) := by
  induction events using List.reverseRecOn with
  | nil => exact of_eq (List.append_nil log)
  | append_singleton events event ih =>
    rw [← List.append_assoc]
    exact .emit (ih fun other hother ↦ h other (List.mem_append_left _ hother))
      (h event (List.mem_append_right _ List.mem_cons_self) _)

theorem isPrefix (h : Grows P log log') : log <+: log' := by
  induction h with
  | refl => exact List.prefix_rfl
  | emit _ _ ih => exact ih.trans (List.prefix_append _ _)

/-- The new events lie between the two logs. -/
theorem within (h : Grows P log log') :
    Grows (fun past event ↦ log <+: past ∧ past ++ [event] <+: log' ∧ P past event) log log' := by
  induction h with
  | refl => exact .refl
  | emit h reason ih =>
    refine .emit (ih.mono fun past event hpast ↦ ?_) ⟨h.isPrefix, List.prefix_rfl, reason⟩
    exact ⟨hpast.1, hpast.2.1.trans (List.prefix_append _ _), hpast.2.2⟩

/-- Every event of a log that started empty has its reason. -/
theorem reason (h : Grows P [] log) {past rest : List α} {event : α}
    (hlog : log = past ++ event :: rest) : P past event := by
  induction h generalizing rest with
  | refl => exact absurd hlog.symm (List.append_ne_nil_of_right_ne_nil _ (List.cons_ne_nil _ _))
  | emit _ reason ih =>
    rcases List.eq_nil_or_concat rest with rfl | ⟨others, last, rfl⟩
    · obtain ⟨rfl, hevent⟩ := List.append_inj' hlog rfl
      exact List.singleton_inj.mp hevent ▸ reason
    · rw [List.concat_eq_append, ← List.cons_append, ← List.append_assoc] at hlog
      exact ih (List.append_inj' hlog rfl).1

end Grows

end Logs

/-- What every step of a fold keeps, the fold keeps. -/
theorem foldl_keeps {σ α β : Type*} (g : σ → β) (f : σ → α → σ) (hf : ∀ s x, g (f s x) = g s)
    (l : List α) (s : σ) : g (l.foldl f s) = g s := by
  induction l generalizing s with
  | nil => rfl
  | cons x rest ih => exact (ih (f s x)).trans (hf s x)

end DhtScraper.Library
