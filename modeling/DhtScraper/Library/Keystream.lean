import Mathlib.Data.List.Basic
import Mathlib.Logic.Function.Basic

/-!
# Stream ciphers and the channels between two of them

A stream cipher masks each symbol with the next element of a key stream.  Encrypting and decrypting
are the same function, and a message may be cut anywhere.  `Carries` relates a decryptor, the symbols
in flight and the encryptor that produced them; writing and reading keep it, so two parties that are
in step once stay in step however the messages are cut.
-/

namespace DhtScraper.Library

variable {σ κ α : Type*}

structure StreamCipher (σ κ α : Type*) where
  next : σ → κ × σ
  mask : κ → α → α
  involutive : ∀ key, Function.Involutive (mask key)

namespace StreamCipher

variable (C : StreamCipher σ κ α)

def crypt (s : σ) : List α → List α × σ
  | [] => ([], s)
  | symbol :: rest =>
    let (key, s') := C.next s
    let (masked, last) := crypt s' rest
    (C.mask key symbol :: masked, last)

/-- The cipher that may be absent: without a state symbols pass unmasked. -/
def optional : StreamCipher (Option σ) (Option κ) α where
  next
    | none => (none, none)
    | some s => (some (C.next s).1, some (C.next s).2)
  mask
    | none => id
    | some key => C.mask key
  involutive
    | none => fun _ ↦ rfl
    | some key => C.involutive key

@[simp]
theorem crypt_nil (s : σ) : C.crypt s [] = ([], s) := rfl

theorem crypt_cons (s : σ) (symbol : α) (rest : List α) :
    C.crypt s (symbol :: rest) = (C.mask (C.next s).1 symbol :: (C.crypt (C.next s).2 rest).1,
      (C.crypt (C.next s).2 rest).2) := rfl

@[simp]
theorem length_crypt (s : σ) (data : List α) : (C.crypt s data).1.length = data.length := by
  induction data generalizing s with
  | nil => rfl
  | cons symbol rest ih => rw [crypt_cons, List.length_cons, ih, List.length_cons]

/-- A message may be cut anywhere. -/
theorem crypt_append (s : σ) (first second : List α) :
    C.crypt s (first ++ second) = ((C.crypt s first).1 ++ (C.crypt (C.crypt s first).2 second).1,
      (C.crypt (C.crypt s first).2 second).2) := by
  induction first generalizing s with
  | nil => rfl
  | cons symbol rest ih => simp only [List.cons_append, crypt_cons, ih]

/-- Decrypting from the state that a message was encrypted from gives the message back. -/
theorem crypt_crypt (s : σ) (data : List α) :
    C.crypt s (C.crypt s data).1 = (data, (C.crypt s data).2) := by
  induction data generalizing s with
  | nil => rfl
  | cons symbol rest ih => simp only [crypt_cons, ih, C.involutive _ symbol]

theorem optional_crypt_none (data : List α) : C.optional.crypt none data = (data, none) := by
  induction data with
  | nil => rfl
  | cons symbol rest ih =>
    rw [crypt_cons]
    change (symbol :: (C.optional.crypt none rest).1, (C.optional.crypt none rest).2) = _
    rw [ih]

theorem optional_crypt_some (s : σ) (data : List α) :
    C.optional.crypt (some s) data = ((C.crypt s data).1, some (C.crypt s data).2) := by
  induction data generalizing s with
  | nil => rfl
  | cons symbol rest ih =>
    rw [crypt_cons, crypt_cons]
    change (C.mask (C.next s).1 symbol :: (C.optional.crypt (some (C.next s).2) rest).1,
      (C.optional.crypt (some (C.next s).2) rest).2) = _
    rw [ih]

/-! ## Channels -/

/-- Decrypted from `decryptor`, the symbols in flight are `rest`, and lead to `encryptor`. -/
def Carries (decryptor : σ) (inFlight : List α) (encryptor : σ) (rest : List α) : Prop :=
  C.crypt decryptor inFlight = (rest, encryptor)

variable {C} {decryptor encryptor : σ} {inFlight rest : List α}

theorem Carries.start (s : σ) : C.Carries s [] s [] := rfl

theorem Carries.length (h : C.Carries decryptor inFlight encryptor rest) :
    inFlight.length = rest.length := by
  rw [← C.length_crypt decryptor inFlight, h]

theorem Carries.write (h : C.Carries decryptor inFlight encryptor rest) (data : List α) :
    C.Carries decryptor (inFlight ++ (C.crypt encryptor data).1) (C.crypt encryptor data).2
      (rest ++ data) := by
  unfold Carries at h ⊢
  rw [crypt_append, h, crypt_crypt]

theorem Carries.read {first second : List α}
    (h : C.Carries decryptor (first ++ second) encryptor rest) :
    ∃ rest', rest = (C.crypt decryptor first).1 ++ rest' ∧
      C.Carries (C.crypt decryptor first).2 second encryptor rest' := by
  unfold Carries at h
  rw [crypt_append, Prod.mk.injEq] at h
  exact ⟨_, h.1.symm, by rw [Carries, ← h.2]⟩

end StreamCipher

end DhtScraper.Library
