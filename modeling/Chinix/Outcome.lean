import Mathlib.Logic.Basic

/-! # Outcomes of fallible code

    A computation over `Except F A` either returns a value or stops with a
    fault.  `Holds x Q E` says both at once: a returned value satisfies `Q`,
    a fault satisfies `E`.  With `E` empty it is total correctness, with `E`
    full it is partial correctness, and with a chosen set of faults it is
    "this fault never occurs".  The rules below are the sequencing rule, the
    consequence rule and the inversion of a sequence that returned. -/

namespace Outcome

variable {F A B : Type}

/-- A returned value satisfies `Q`, a fault satisfies `E`. -/
def Holds (x : Except F A) (Q : A → Prop) (E : F → Prop) : Prop :=
  match x with
  | .ok a => Q a
  | .error e => E e

@[simp] theorem holds_ok {a : A} {Q : A → Prop} {E : F → Prop} :
    Holds (.ok a) Q E ↔ Q a := Iff.rfl

@[simp] theorem holds_error {e : F} {Q : A → Prop} {E : F → Prop} :
    Holds (.error e) Q E ↔ E e := Iff.rfl

@[simp] theorem holds_pure {a : A} {Q : A → Prop} {E : F → Prop} :
    Holds (pure a) Q E ↔ Q a := Iff.rfl

@[simp] theorem holds_throw {e : F} {Q : A → Prop} {E : F → Prop} :
    Holds (throw e : Except F A) Q E ↔ E e := Iff.rfl

/-- The sequencing rule. -/
theorem Holds.bind {x : Except F A} {f : A → Except F B}
    {Q : A → Prop} {R : B → Prop} {E : F → Prop}
    (hx : Holds x Q E) (hf : ∀ a, Q a → Holds (f a) R E) :
    Holds (x >>= f) R E := by
  cases x with
  | error e => exact hx
  | ok a => exact hf a hx

/-- The consequence rule. -/
theorem Holds.mono {x : Except F A} {Q R : A → Prop} {E D : F → Prop}
    (hx : Holds x Q E) (h : ∀ a, Q a → R a) (he : ∀ e, E e → D e) :
    Holds x R D := by
  cases x with
  | error e => exact he e hx
  | ok a => exact h a hx

/-- The consequence rule for the values. -/
theorem Holds.imp {x : Except F A} {Q R : A → Prop} {E : F → Prop}
    (hx : Holds x Q E) (h : ∀ a, Q a → R a) : Holds x R E :=
  hx.mono h (fun _ => id)

/-- Two specifications of one computation hold together. -/
theorem Holds.and {x : Except F A} {Q R : A → Prop} {E D : F → Prop}
    (hx : Holds x Q E) (hy : Holds x R D) :
    Holds x (fun a => Q a ∧ R a) (fun e => E e ∧ D e) := by
  cases x with
  | error e => exact ⟨hx, hy⟩
  | ok a => exact ⟨hx, hy⟩

/-- Partial correctness says nothing about faults. -/
theorem Holds.partly {x : Except F A} {Q R : A → Prop} {E : F → Prop}
    (hx : Holds x Q E) (h : ∀ a, Q a → R a) :
    Holds x R (fun _ => True) :=
  hx.mono h (fun _ _ => trivial)

/-- What a computation that did return guarantees. -/
theorem Holds.of_ok {x : Except F A} {Q : A → Prop} {E : F → Prop} {a : A}
    (hx : Holds x Q E) (h : x = .ok a) : Q a := by
  subst h; exact hx

/-- What a computation that faulted guarantees. -/
theorem Holds.of_error {x : Except F A} {Q : A → Prop} {E : F → Prop} {e : F}
    (hx : Holds x Q E) (h : x = .error e) : E e := by
  subst h; exact hx

/-- A computation that never stops returns a value. -/
theorem Holds.returns {x : Except F A} {Q : A → Prop}
    (hx : Holds x Q fun _ => False) : ∃ a, x = .ok a ∧ Q a := by
  cases x with
  | error e => exact absurd hx id
  | ok a => exact ⟨a, rfl, hx⟩

/-- A sequence that returned passed through a returned intermediate value. -/
theorem bind_eq_ok {x : Except F A} {f : A → Except F B} {b : B} :
    (x >>= f) = .ok b ↔ ∃ a, x = .ok a ∧ f a = .ok b := by
  cases x with
  | error e =>
      constructor
      · intro h; cases h
      · rintro ⟨a, h, -⟩; cases h
  | ok a =>
      constructor
      · intro h; exact ⟨a, rfl, h⟩
      · rintro ⟨a', h, hf⟩
        cases h
        exact hf

@[simp] theorem ok_bind {a : A} {f : A → Except F B} :
    ((.ok a : Except F A) >>= f) = f a := rfl

@[simp] theorem error_bind {e : F} {f : A → Except F B} :
    ((.error e : Except F A) >>= f) = .error e := rfl

end Outcome
