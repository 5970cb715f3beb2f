import Mathlib.Algebra.GroupWithZero.Nat
import Mathlib.Logic.Relation
import Mathlib.Order.Lattice
import Mathlib.Tactic.Common

/-!
# Retries

A fallible computation that is made again after a failure, and a pause, no more
than a number of times (`retry`). It comes to what one of its attempts does: the
first that succeeds, or the last there may be (`retry_eq`). And systems that
step from state to state (`step`), which stop once no run of them goes on for
ever (`exists_stop`).
-/

namespace Retry

variable {ε σ α : Type}

/-- The state a computation leaves, whether it fails or not. -/
def stateOf : EStateM.Result ε σ α → σ
  | .ok _ s => s
  | .error _ s => s

section
variable (pause : σ → σ) (m : EStateM ε σ α)

/-- Attempts until one succeeds, or no more are left; there is a pause before
each but the first. -/
def retry : Nat → EStateM ε σ α
  | 0 => m
  | left + 1 => fun s =>
    match m s with
    | .ok a s => .ok a s
    | .error _ s => retry left (pause s)

/-- The state that the attempt after some others is made in. -/
def before (s : σ) : Nat → σ
  | 0 => s
  | n + 1 => before (pause (stateOf (m s))) n

end

variable {pause : σ → σ} {m : EStateM ε σ α}

variable (pause m) in
/-- What the attempts come to: `n` failures, and then a success or the last one. -/
theorem retry_eq : ∀ (left : Nat) (s : σ), ∃ n ≤ left,
    (∀ i < n, ∃ e s', m (before pause m s i) = .error e s') ∧
    (n = left ∨ ∃ a s', m (before pause m s n) = .ok a s') ∧
    retry pause m left s = m (before pause m s n)
  | 0, s => ⟨0, Nat.le_refl 0, nofun, .inl rfl, rfl⟩
  | left + 1, s => by
    cases hm : m s with
    | ok a s' => exact ⟨0, Nat.zero_le _, nofun, .inr ⟨a, s', hm⟩, by simp only [retry, before, hm]⟩
    | error e s' =>
      obtain ⟨n, hn, hfail, hend, heq⟩ := retry_eq left (pause s')
      have hbefore : ∀ i, before pause m s (i + 1) = before pause m (pause s') i := fun i => by
        rw [before, hm, stateOf]
      refine ⟨n + 1, Nat.succ_le_succ hn, fun i hi => ?_, ?_, ?_⟩
      · cases i with
        | zero => exact ⟨e, s', hm⟩
        | succ i =>
          rw [hbefore]
          exact hfail i (Nat.lt_of_succ_lt_succ hi)
      · rw [hbefore, Nat.succ.injEq]
        exact hend
      · rw [hbefore, ← heq]
        simp only [retry, hm]

/-- A success is that of the first attempt that succeeds. -/
theorem retry_eq_ok_iff {left : Nat} {s s' : σ} {a : α} : retry pause m left s = .ok a s' ↔
    ∃ n ≤ left, m (before pause m s n) = .ok a s' ∧ ∀ i < n, ∀ a s', m (before pause m s i) ≠ .ok a s' := by
  obtain ⟨n, hn, hfail, hend, heq⟩ := retry_eq pause m left s
  have hnot : ∀ i < n, ∀ a s', m (before pause m s i) ≠ .ok a s' := fun i hi a s' h => by
    obtain ⟨e, s'', he⟩ := hfail i hi
    rw [h] at he
    cases he
  constructor
  · intro h
    exact ⟨n, hn, heq.symm.trans h, hnot⟩
  · rintro ⟨k, hk, hok, hfirst⟩
    rcases Nat.lt_trichotomy k n with hlt | rfl | hlt
    · exact absurd hok (hnot k hlt a s')
    · exact heq.trans hok
    · rcases hend with rfl | ⟨a', s'', hok'⟩
      · exact absurd hlt (Nat.not_lt.mpr hk)
      · exact absurd hok' (hfirst n hlt a' s'')

/-- A failure is that of the last attempt. -/
theorem retry_eq_error_iff {left : Nat} {s s' : σ} {e : ε} : retry pause m left s = .error e s' ↔
    (∀ i < left, ∀ a s', m (before pause m s i) ≠ .ok a s') ∧ m (before pause m s left) = .error e s' := by
  obtain ⟨n, hn, hfail, hend, heq⟩ := retry_eq pause m left s
  constructor
  · intro h
    rcases hend with rfl | ⟨a, s'', hok⟩
    · refine ⟨fun i hi a s' h => ?_, heq.symm.trans h⟩
      obtain ⟨e', s'', he⟩ := hfail i hi
      rw [h] at he
      cases he
    · rw [heq, hok] at h
      cases h
  · rintro ⟨hnot, herror⟩
    rcases hend with rfl | ⟨a, s'', hok⟩
    · exact heq.trans herror
    · rcases Nat.eq_or_lt_of_le hn with rfl | hlt
      · exact heq.trans herror
      · exact absurd hok (hnot n hlt a s'')

/-- One attempt that succeeds is enough. -/
theorem retry_ok {left n : Nat} {s s' : σ} {a : α} (hn : n ≤ left)
    (h : m (before pause m s n) = .ok a s') : ∃ a s', retry pause m left s = .ok a s' := by
  cases hr : retry pause m left s with
  | ok a s' => exact ⟨a, s', rfl⟩
  | error e s'' =>
    obtain ⟨hnot, herror⟩ := retry_eq_error_iff.mp hr
    rcases Nat.eq_or_lt_of_le hn with rfl | hlt
    · rw [h] at herror
      cases herror
    · exact absurd h (hnot n hlt a s')

/-- Attempts that leave the same states are made in the same states. -/
theorem before_congr {ε' β : Type} {m' : EStateM ε' σ β} (h : ∀ s, stateOf (m s) = stateOf (m' s)) :
    ∀ (n : Nat) (s : σ), before pause m s n = before pause m' s n
  | 0, _ => rfl
  | n + 1, s => by rw [before, before, h, before_congr h n]

/-! ## Stopping -/

/-- A system whose steps cannot go on for ever comes to a stop. -/
theorem exists_stop {step : σ → Option σ} {s : σ} (h : Acc (fun s' s => step s = some s') s) :
    ∃ s', Relation.ReflTransGen (fun s s' => step s = some s') s s' ∧ step s' = none := by
  induction h with
  | intro s _ ih =>
    cases hs : step s with
    | none => exact ⟨s, .refl, hs⟩
    | some s₁ =>
      obtain ⟨s', hrun, hstop⟩ := ih s₁ hs
      exact ⟨s', .head hs hrun, hstop⟩

end Retry
