import Mathlib.Tactic.Common

/-!
# Stateful computations that may raise

Postconditions of `EStateM` computations: one for a normal end, one for a raised error.  The state
reached before an error is kept, as it is when an exception leaves a block of a program that has
already acted on its environment, so a handler runs from that state.
-/

namespace DhtScraper.Library

universe u

variable {ε σ α β : Type u} {x : EStateM ε σ α} {s : σ}

/-- From the state `s` the computation ends normally with `Q`, or raises with `E`. -/
def Ensures (x : EStateM ε σ α) (s : σ) (Q : α → σ → Prop) (E : ε → σ → Prop) : Prop :=
  match x s with
  | .ok a s' => Q a s'
  | .error e s' => E e s'

namespace Ensures

variable {Q : α → σ → Prop} {E : ε → σ → Prop}

theorem ok (h : Ensures x s Q E) {a : α} {s' : σ} (hx : x s = .ok a s') : Q a s' := by
  simpa only [Ensures, hx] using h

theorem error (h : Ensures x s Q E) {e : ε} {s' : σ} (hx : x s = .error e s') : E e s' := by
  simpa only [Ensures, hx] using h

theorem imp {Q' : α → σ → Prop} {E' : ε → σ → Prop} (h : Ensures x s Q E)
    (hQ : ∀ a s', Q a s' → Q' a s') (hE : ∀ e s', E e s' → E' e s') : Ensures x s Q' E' := by
  unfold Ensures at h ⊢
  cases hx : x s with
  | ok a s' => exact hQ a s' (by simpa only [hx] using h)
  | error e s' => exact hE e s' (by simpa only [hx] using h)

theorem pure {a : α} (h : Q a s) : Ensures (Pure.pure a : EStateM ε σ α) s Q E := h

theorem throw {e : ε} (h : E e s) : Ensures (MonadExcept.throw e : EStateM ε σ α) s Q E := h

theorem bind {f : α → EStateM ε σ β} {R : β → σ → Prop} (h : Ensures x s Q E)
    (hf : ∀ a s', Q a s' → Ensures (f a) s' R E) : Ensures (x >>= f) s R E := by
  have hrun : (x >>= f) s = match x s with
      | .ok a s' => f a s'
      | .error e s' => .error e s' := rfl
  unfold Ensures at h ⊢
  rw [hrun]
  cases hx : x s with
  | ok a s' => exact hf a s' (by simpa only [hx] using h)
  | error e s' => simpa only [hx] using h

theorem get {f : σ → EStateM ε σ β} {R : β → σ → Prop} (h : Ensures (f s) s R E) :
    Ensures (MonadState.get >>= f) s R E := h

theorem set {t : σ} {Q : PUnit → σ → Prop} (h : Q ⟨⟩ t) :
    Ensures (MonadState.set t : EStateM ε σ PUnit) s Q E := h

theorem modify {f : σ → σ} {Q : PUnit → σ → Prop} (h : Q ⟨⟩ (f s)) :
    Ensures (modify f : EStateM ε σ PUnit) s Q E := h

/-- What holds before every round of a loop over a list, in terms of what is left of the list, holds
after the loop. -/
theorem forM {f : α → EStateM ε σ PUnit} {I : List α → σ → Prop} (values : List α)
    (hf : ∀ value rest s, value ∈ values → I (value :: rest) s →
      Ensures (f value) s (fun _ ↦ I rest) E) :
    ∀ s, I values s → Ensures (values.forM f) s (fun _ ↦ I []) E := by
  induction values with
  | nil => exact fun s h ↦ pure h
  | cons value rest ih =>
    intro s h
    refine Ensures.bind (hf value rest s List.mem_cons_self h) fun _ s' h' ↦ ?_
    exact ih (fun other rest' s hother ↦ hf other rest' s (List.mem_cons_of_mem _ hother)) s' h'

theorem tryCatch {handle : ε → EStateM ε σ α} {F : ε → σ → Prop} (h : Ensures x s Q E)
    (hhandle : ∀ e s', E e s' → Ensures (handle e) s' Q F) :
    Ensures (MonadExcept.tryCatch x handle) s Q F := by
  have hrun : (MonadExcept.tryCatch x handle : EStateM ε σ α) s = match x s with
      | .ok a s' => .ok a s'
      | .error e s' => handle e s' := by
    change EStateM.tryCatch x handle s = _
    unfold EStateM.tryCatch
    cases x s <;> rfl
  unfold Ensures at h ⊢
  rw [hrun]
  cases hx : x s with
  | ok a s' => simpa only [hx] using h
  | error e s' => exact hhandle e s' (by simpa only [hx] using h)

end Ensures

/-- However the computation ends it keeps `I`, and what it returns has `Q`. -/
def Yields (I : σ → Prop) (Q : α → Prop) (x : EStateM ε σ α) : Prop :=
  ∀ s, I s → Ensures x s (fun a s' ↦ Q a ∧ I s') fun _ ↦ I

/-- However the computation ends it keeps `I`. -/
abbrev Preserves (I : σ → Prop) (x : EStateM ε σ α) : Prop := Yields I (fun _ ↦ True) x

namespace Yields

variable {I : σ → Prop} {Q : α → Prop} {R : β → Prop}

theorem pure {a : α} (h : Q a) : Yields I Q (Pure.pure a : EStateM ε σ α) := fun _ hs ↦ ⟨h, hs⟩

theorem throw {e : ε} : Yields I Q (MonadExcept.throw e : EStateM ε σ α) := fun _ hs ↦ hs

theorem bind {f : α → EStateM ε σ β} (h : Yields I Q x) (hf : ∀ a, Q a → Yields I R (f a)) :
    Yields I R (x >>= f) := fun s hs ↦ (h s hs).bind fun a s' ha ↦ hf a ha.1 s' ha.2

/-- The state that is read satisfies `I`; the rest may meet another one that does. -/
theorem get {f : σ → EStateM ε σ β} (hf : ∀ s, I s → Yields I R (f s)) :
    Yields I R (MonadState.get >>= f) := fun s hs ↦ hf s hs s hs

theorem set {t : σ} (h : I t) : Preserves I (MonadState.set t : EStateM ε σ PUnit) :=
  fun _ _ ↦ ⟨trivial, h⟩

theorem modify {f : σ → σ} (h : ∀ s, I s → I (f s)) :
    Preserves I (modify f : EStateM ε σ PUnit) := fun s hs ↦ ⟨trivial, h s hs⟩

theorem forM {f : α → EStateM ε σ PUnit} (values : List α)
    (hf : ∀ value ∈ values, Preserves I (f value)) : Preserves I (values.forM f) := by
  induction values with
  | nil => exact pure trivial
  | cons value rest ih =>
    refine (hf value List.mem_cons_self).bind fun _ _ ↦ ?_
    exact ih fun other hother ↦ hf other (List.mem_cons_of_mem _ hother)

end Yields

end DhtScraper.Library
