import Mathlib.Tactic

/-!
# Calls that end in one of two ways, and loops

`Ends x Q E` is the postcondition of a call: `Q` holds of what it returns and `E` of what it raises.
A loop runs its body until the body breaks; the bound on the number of rounds is an argument of the
evaluation, and `loop_ends` shows that a measure below the bound is enough, so that a loop whose
body keeps an invariant and lowers a measure never answers that its bound was too small.
-/

namespace DhtScraper.Library

universe u

variable {ε σ : Type*} {α β : Type u}

def Ends (x : Except ε α) (Q : α → Prop) (E : ε → Prop) : Prop :=
  match x with
  | .ok a => Q a
  | .error e => E e

section Ends

variable {x : Except ε α} {Q Q' : α → Prop} {E E' : ε → Prop}

@[simp]
theorem ends_ok {a : α} : Ends (.ok a : Except ε α) Q E ↔ Q a := Iff.rfl

@[simp]
theorem ends_error {e : ε} : Ends (.error e : Except ε α) Q E ↔ E e := Iff.rfl

theorem Ends.mono (h : Ends x Q E) (hQ : ∀ a, Q a → Q' a) (hE : ∀ e, E e → E' e) :
    Ends x Q' E' := by
  cases x with
  | ok a => exact hQ a h
  | error e => exact hE e h

theorem Ends.bind {f : α → Except ε β} {R : β → Prop} (h : Ends x Q E)
    (hf : ∀ a, Q a → Ends (f a) R E) : Ends (x >>= f) R E := by
  cases x with
  | ok a => exact hf a h
  | error e => exact h

theorem Ends.of_ok (h : Ends x Q E) {a : α} (hx : x = .ok a) : Q a := by
  rw [hx] at h
  exact h

theorem Ends.exists_ok (h : Ends x Q fun _ ↦ False) : ∃ a, x = .ok a ∧ Q a := by
  cases x with
  | ok a => exact ⟨a, rfl, h⟩
  | error e => exact h.elim

theorem Ends.of_error (h : Ends x Q E) {e : ε} (hx : x = .error e) : E e := by
  rw [hx] at h
  exact h

end Ends

/-- Run the body from a state until it breaks with a value, for at most `fuel` rounds. -/
def loop (exhausted : σ → ε) (body : σ → Except ε (σ ⊕ β)) : ℕ → σ → Except ε β
  | 0, s => .error (exhausted s)
  | fuel + 1, s =>
    match body s with
    | .ok (.inl next) => loop exhausted body fuel next
    | .ok (.inr result) => .ok result
    | .error e => .error e

section Loop

variable {exhausted : σ → ε} {body : σ → Except ε (σ ⊕ β)}

theorem loop_next {s next : σ} {fuel : ℕ} (h : body s = .ok (.inl next)) :
    loop exhausted body (fuel + 1) s = loop exhausted body fuel next := by
  rw [loop, h]

theorem loop_break {s : σ} {result : β} {fuel : ℕ} (h : body s = .ok (.inr result)) :
    loop exhausted body (fuel + 1) s = .ok result := by
  rw [loop, h]

theorem loop_raise {s : σ} {e : ε} {fuel : ℕ} (h : body s = .error e) :
    loop exhausted body (fuel + 1) s = .error e := by
  rw [loop, h]

/-- The rule for loops: the invariant holds before every round, and every round that goes on lowers
the measure. -/
theorem loop_ends {I : σ → Prop} {Q : β → Prop} {E : ε → Prop} (measure : σ → ℕ)
    (hbody : ∀ s, I s → Ends (body s)
      (Sum.elim (fun next ↦ I next ∧ measure next < measure s) Q) E)
    {fuel : ℕ} {s : σ} (hstart : I s) (hfuel : measure s < fuel) :
    Ends (loop exhausted body fuel s) Q E := by
  induction fuel generalizing s with
  | zero => omega
  | succ fuel ih =>
    have hround := hbody s hstart
    cases hs : body s with
    | error e =>
      rw [loop_raise hs]
      exact hround.of_error hs
    | ok outcome =>
      have hout := hround.of_ok hs
      cases outcome with
      | inl next =>
        rw [loop_next hs]
        exact ih hout.1 (by have := hout.2; omega)
      | inr result =>
        rw [loop_break hs]
        exact hout

/-- More fuel than a loop needed changes nothing. -/
theorem loop_fuel_mono {s : σ} {fuel more : ℕ} {result : β}
    (h : loop exhausted body fuel s = .ok result) (hle : fuel ≤ more) :
    loop exhausted body more s = .ok result := by
  induction fuel generalizing s more with
  | zero => cases h
  | succ fuel ih =>
    obtain ⟨more, rfl⟩ : ∃ n, more = n + 1 := ⟨more - 1, by omega⟩
    rw [loop] at h ⊢
    cases hs : body s with
    | error e =>
      rw [hs] at h
      cases h
    | ok outcome =>
      rw [hs] at h
      cases outcome with
      | inl next => exact ih h (by omega)
      | inr result' => exact h

end Loop

end DhtScraper.Library
