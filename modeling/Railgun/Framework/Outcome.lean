import Mathlib.Algebra.GroupWithZero.Nat
import Mathlib.Order.Lattice
import Mathlib.Tactic.Common

/-!
# Outcomes of fallible computations

When a sequence of fallible steps succeeds (`bind_eq_ok`), and when two
computations in different states are alike: same outcome, same error, and
states that stay related (`Simulates`). Likeness passes through every way a
computation is built, so two stores with alike primitives run every program
alike.
-/

namespace Outcome

variable {ε ε' α β : Type}

/-- Fails with `e` unless `c` holds. -/
def ensure (c : Prop) [Decidable c] (e : ε) : Except ε Unit := if c then .ok () else .error e

theorem ensure_eq_ok {c : Prop} [Decidable c] {e : ε} {u : Unit} : ensure c e = .ok u ↔ c := by
  rw [ensure]
  split <;> simp [*]

theorem bind_eq_ok {x : Except ε α} {f : α → Except ε β} {b : β} :
    x >>= f = .ok b ↔ ∃ a, x = .ok a ∧ f a = .ok b := by
  cases x <;> simp [bind, Except.bind]

@[simp] theorem ok_bind (a : α) (f : α → Except ε β) : Except.ok a >>= f = f a := rfl

@[simp] theorem error_bind (e : ε) (f : α → Except ε β) : Except.error e >>= f = .error e := rfl

@[simp] theorem mapError_ok (f : ε → ε') (a : α) : (Except.ok a).mapError f = .ok a := rfl

@[simp] theorem mapError_error (f : ε → ε') (e : ε) :
    (Except.error e : Except ε α).mapError f = .error (f e) := rfl

theorem pure_eq_ok {a b : α} : (pure a : Except ε α) = .ok b ↔ a = b := by
  simp [pure, Except.pure]

theorem mapError_eq_ok {f : ε → ε'} {x : Except ε α} {a : α} :
    x.mapError f = .ok a ↔ x = .ok a := by
  cases x <;> simp [Except.mapError]

/-- Steps that all succeed. -/
theorem mapM_ok {f : α → Except ε β} {g : α → β} (h : ∀ a, f a = .ok (g a)) :
    ∀ l : List α, l.mapM f = .ok (l.map g)
  | [] => rfl
  | a :: l => by
    rw [List.mapM_cons, h, ok_bind, mapM_ok h l]
    rfl

variable {σ τ : Type}

theorem run_bind_of_ok {m : EStateM ε σ α} {k : α → EStateM ε σ β} {s s' : σ} {a : α}
    (h : m s = .ok a s') : (m >>= k) s = k a s' := by
  show EStateM.bind m k s = _
  rw [EStateM.bind, h]

theorem run_bind_of_error {m : EStateM ε σ α} {k : α → EStateM ε σ β} {s s' : σ} {e : ε}
    (h : m s = .error e s') : (m >>= k) s = .error e s' := by
  show EStateM.bind m k s = _
  rw [EStateM.bind, h]

/-- A loop over steps that cannot fail is a fold. -/
theorem forM_eq_foldl {f : α → EStateM ε σ Unit} {g : σ → α → σ}
    (h : ∀ s a, f a s = .ok () (g s a)) : ∀ (l : List α) (s : σ),
    (l.forM f : EStateM ε σ Unit) s = .ok () (l.foldl g s)
  | [], _ => rfl
  | a :: l, s => by
    show EStateM.bind (f a) (fun _ => l.forM f) s = _
    rw [EStateM.bind, h, List.foldl_cons]
    exact forM_eq_foldl h l (g s a)

/-! ## Invariants -/

/-- Holds of the state a computation leaves, if it held before: on success and
on failure. -/
def Keeps (I : σ → Prop) (m : EStateM ε σ α) : Prop :=
  ∀ s, I s → match m s with
    | .ok _ s' => I s'
    | .error _ s' => I s'

section
variable {I : σ → Prop}

theorem Keeps.pure (a : α) : Keeps I (pure a : EStateM ε σ α) := fun _ h => h

theorem Keeps.throw (e : ε) : Keeps I (throw e : EStateM ε σ α) := fun _ h => h

theorem Keeps.bind {m : EStateM ε σ α} {k : α → EStateM ε σ β} (hm : Keeps I m)
    (hk : ∀ a, Keeps I (k a)) : Keeps I (m >>= k) := fun s h => by
  have hs := hm s h
  show match EStateM.bind m k s with
    | .ok _ s' => I s'
    | .error _ s' => I s'
  rw [EStateM.bind]
  cases hms : m s with
  | ok a s' =>
    rw [hms] at hs
    exact hk a s' hs
  | error e s' =>
    rw [hms] at hs
    exact hs

theorem Keeps.ite {c : Prop} [Decidable c] {m₁ m₂ : EStateM ε σ α} (h₁ : Keeps I m₁)
    (h₂ : Keeps I m₂) : Keeps I (if c then m₁ else m₂) := by
  split
  · exact h₁
  · exact h₂

theorem Keeps.ok {m : EStateM ε σ α} (hm : Keeps I m) {s s' : σ} {a : α} (h : m s = .ok a s')
    (hs : I s) : I s' := by
  have := hm s hs
  rwa [h] at this

theorem Keeps.forM {f : β → EStateM ε σ Unit} (hf : ∀ b, Keeps I (f b)) :
    ∀ l : List β, Keeps I (l.forM f)
  | [] => .pure ()
  | b :: l => .bind (hf b) fun _ => forM hf l

end

/-! ## Likeness -/

/-- The same outcome, in related states. -/
def Alike (R : σ → τ → Prop) : EStateM.Result ε σ α → EStateM.Result ε τ α → Prop
  | .ok a s, .ok b t => a = b ∧ R s t
  | .error e s, .error e' t => e = e' ∧ R s t
  | _, _ => False

/-- Alike outcomes in every two related states. -/
def Simulates (R : σ → τ → Prop) (m : EStateM ε σ α) (m' : EStateM ε τ α) : Prop :=
  ∀ s t, R s t → Alike R (m s) (m' t)

section
variable {R : σ → τ → Prop}

theorem Simulates.pure (a : α) :
    Simulates R (pure a : EStateM ε σ α) (pure a : EStateM ε τ α) :=
  fun _ _ h => ⟨rfl, h⟩

theorem Simulates.throw (e : ε) :
    Simulates R (throw e : EStateM ε σ α) (throw e : EStateM ε τ α) :=
  fun _ _ h => ⟨rfl, h⟩

theorem Simulates.bind {m : EStateM ε σ α} {m' : EStateM ε τ α} {k : α → EStateM ε σ β}
    {k' : α → EStateM ε τ β} (hm : Simulates R m m') (hk : ∀ a, Simulates R (k a) (k' a)) :
    Simulates R (m >>= k) (m' >>= k') := fun s t h => by
  have hst := hm s t h
  show Alike R (EStateM.bind m k s) (EStateM.bind m' k' t)
  rw [EStateM.bind, EStateM.bind]
  cases h₁ : m s <;> cases h₂ : m' t <;> rw [h₁, h₂] at hst
  · obtain ⟨rfl, hv⟩ := hst
    exact hk _ _ _ hv
  · exact hst.elim
  · exact hst.elim
  · exact hst

theorem Simulates.ite {c : Prop} [Decidable c] {m₁ m₂ : EStateM ε σ α} {m₁' m₂' : EStateM ε τ α}
    (h₁ : Simulates R m₁ m₁') (h₂ : Simulates R m₂ m₂') :
    Simulates R (if c then m₁ else m₂) (if c then m₁' else m₂') := by
  split
  · exact h₁
  · exact h₂

theorem Simulates.forM {f : β → EStateM ε σ Unit} {g : β → EStateM ε τ Unit}
    (h : ∀ b, Simulates R (f b) (g b)) : ∀ l : List β, Simulates R (l.forM f) (l.forM g)
  | [] => .pure ()
  | b :: l => .bind (h b) fun _ => forM h l

end

end Outcome
