import Mathlib.Algebra.GroupWithZero.Nat
import Mathlib.Data.List.Basic
import Mathlib.Logic.Function.Iterate
import Mathlib.Order.Lattice
import Mathlib.Tactic.Common

/-!
# Filling gaps

Appending a sparse, ascending list of positioned values to a dense sequence,
with a filler in the gaps (`densify`). What comes out is the values, from the
first position on, of any function the sparse list spells (`densify_eq_fill`).
`repeatWhile` is a `while` loop with a bound on its turns: a loop that counts
down makes exactly as many turns as it has to (`repeatWhile_eq_iterate`).
-/

namespace GapFill

variable {α σ : Type}

/-! ## Loops -/

/-- `while cond s { s = body s }`, for at most so many turns. -/
def repeatWhile (cond : σ → Bool) (body : σ → σ) : Nat → σ → σ
  | 0, s => s
  | turns + 1, s => if cond s then repeatWhile cond body turns (body s) else s

/-- A loop that runs while a measure is positive, and lowers it by one each
turn, runs as many turns as the measure says. -/
theorem repeatWhile_eq_iterate {cond : σ → Bool} {body : σ → σ} {m : σ → Nat}
    (hc : ∀ s, cond s = true ↔ 0 < m s) (hb : ∀ s, 0 < m s → m (body s) + 1 = m s) :
    ∀ {turns : Nat} {s : σ}, m s ≤ turns → repeatWhile cond body turns s = body^[m s] s
  | 0, s, h => by rw [Nat.le_zero.mp h]; rfl
  | turns + 1, s, h => by
    rw [repeatWhile]
    split
    · rename_i hs
      have hm := hb s ((hc s).mp hs)
      rw [repeatWhile_eq_iterate hc hb (by omega), ← hm, Function.iterate_succ_apply]
    · rename_i hs
      have : m s = 0 := Nat.eq_zero_of_not_pos fun hp => hs ((hc s).mpr hp)
      rw [this]; rfl

/-! ## Dense sequences -/

/-- The values of `f` from `a` up to `b`, `b` excluded. -/
def fill (f : Nat → α) (a b : Nat) : List α := (List.range' a (b - a)).map f

@[simp] theorem fill_self (f : Nat → α) (a : Nat) : fill f a a = [] := by
  rw [fill, Nat.sub_self]; rfl

theorem length_fill (f : Nat → α) (a b : Nat) : (fill f a b).length = b - a := by
  rw [fill, List.length_map, List.length_range']

theorem getElem?_fill {f : Nat → α} {a b q : Nat} :
    (fill f a b)[q]? = if q < b - a then some (f (a + q)) else none := by
  rw [fill, List.getElem?_map]
  split
  · rename_i h
    rw [List.getElem?_range' h, Nat.one_mul, Option.map_some]
  · rename_i h
    rw [List.getElem?_eq_none (by rw [List.length_range']; omega), Option.map_none]

theorem fill_append {f : Nat → α} {a b c : Nat} (hab : a ≤ b) (hbc : b ≤ c) :
    fill f a b ++ fill f b c = fill f a c := by
  obtain ⟨m, rfl⟩ := Nat.exists_eq_add_of_le hab
  obtain ⟨n, rfl⟩ := Nat.exists_eq_add_of_le hbc
  rw [fill, fill, fill, ← List.map_append, Nat.add_sub_cancel_left, Nat.add_sub_cancel_left,
    Nat.add_assoc, Nat.add_sub_cancel_left, List.range'_append_1]

theorem fill_succ {f : Nat → α} {a b : Nat} (h : a < b) : fill f a b = f a :: fill f (a + 1) b := by
  rw [fill, fill, show b - a = (b - (a + 1)) + 1 by omega, List.range'_succ, List.map_cons]

theorem fill_congr {f g : Nat → α} {a b : Nat} (h : ∀ q, a ≤ q → q < b → f q = g q) :
    fill f a b = fill g a b :=
  List.map_congr_left fun q hq => by
    have := List.mem_range'_1.mp hq
    exact h q this.1 (by omega)

theorem fill_const {f : Nat → α} {z : α} {a b : Nat} (h : ∀ q, a ≤ q → q < b → f q = z) :
    fill f a b = List.replicate (b - a) z := by
  rw [fill_congr (g := fun _ => z) h, fill, List.map_const', List.length_range']

/-! ## Sparse lists -/

/-- The values of a sparse list, from position `a` on, with `z` in the gaps. -/
def densify (z : α) : Nat → List (Nat × α) → List α
  | _, [] => []
  | a, (p, v) :: l => List.replicate (p - a) z ++ v :: densify z (p + 1) l

/-- `l` spells `f` between `a` and `b`: it has the value of `f` at each of its
positions, and `f` is `z` elsewhere. -/
def Spells (z : α) (l : List (Nat × α)) (f : Nat → α) (a b : Nat) : Prop :=
  ∀ q, a ≤ q → q < b → (q, f q) ∈ l ∨ (∀ v, (q, v) ∉ l) ∧ f q = z

/-- Ascending positions from `a` up to `b`. -/
def Within (l : List (Nat × α)) (a b : Nat) : Prop :=
  l.Pairwise (fun e f => e.1 < f.1) ∧ ∀ e ∈ l, a ≤ e.1 ∧ e.1 < b

/-- A sparse list made dense, and padded to the end, is what it spells. -/
theorem densify_eq_fill {z : α} {f : Nat → α} {b : Nat} : ∀ {l : List (Nat × α)} {a : Nat},
    a ≤ b → Within l a b → Spells z l f a b →
    densify z a l ++ List.replicate (b - (a + (densify z a l).length)) z = fill f a b
  | [], a, _, _, hs => by
    rw [densify, List.nil_append, List.length_nil, Nat.add_zero]
    exact (fill_const fun q ha hb => ((hs q ha hb).resolve_left nofun).2).symm
  | (p, v) :: l, a, hab, ⟨hp, hl⟩, hs => by
    obtain ⟨hpl, hp⟩ := List.pairwise_cons.mp hp
    obtain ⟨hap, hpb⟩ := hl (p, v) List.mem_cons_self
    -- Nothing is spelled before `p`, and `v` at it.
    have hgap : fill f a p = List.replicate (p - a) z := fill_const fun q ha hq => by
      rcases hs q ha (by omega) with hm | ⟨-, h⟩
      · rcases List.mem_cons.mp hm with he | hm
        · exact absurd (Prod.mk.inj he).1 (by omega)
        · exact absurd (hpl _ hm) (by simp only; omega)
      · exact h
    have hv : f p = v := by
      rcases hs p hap hpb with hm | ⟨h, -⟩
      · rcases List.mem_cons.mp hm with he | hm
        · exact (Prod.mk.inj he).2
        · exact absurd (hpl _ hm) (Nat.lt_irrefl p)
      · exact absurd List.mem_cons_self (h v)
    have hl' : Within l (p + 1) b :=
      ⟨hp, fun e he => ⟨hpl e he, (hl e (List.mem_cons_of_mem _ he)).2⟩⟩
    have hs' : Spells z l f (p + 1) b := fun q hq hqb => by
      rcases hs q (by omega) hqb with hm | ⟨h, hz⟩
      · rcases List.mem_cons.mp hm with he | hm
        · exact absurd (Prod.mk.inj he).1 (by omega)
        · exact .inl hm
      · exact .inr ⟨fun v hv => h v (List.mem_cons_of_mem _ hv), hz⟩
    rw [densify, List.append_assoc, List.cons_append, List.length_append, List.length_cons,
      List.length_replicate, show b - (a + (p - a + ((densify z (p + 1) l).length + 1))) =
        b - (p + 1 + (densify z (p + 1) l).length) by omega,
      densify_eq_fill (by omega) hl' hs', ← hgap, ← hv, ← fill_succ hpb, fill_append hap (by omega)]

theorem length_densify_le {z : α} {b : Nat} : ∀ {l : List (Nat × α)} {a : Nat},
    a ≤ b → Within l a b → a + (densify z a l).length ≤ b
  | [], a, hab, _ => hab
  | (p, v) :: l, a, _, ⟨hp, hl⟩ => by
    obtain ⟨hpl, hp⟩ := List.pairwise_cons.mp hp
    obtain ⟨hap, hpb⟩ := hl (p, v) List.mem_cons_self
    have := length_densify_le (z := z) (b := b) (l := l) (a := p + 1) hpb
      ⟨hp, fun e he => ⟨hpl e he, (hl e (List.mem_cons_of_mem _ he)).2⟩⟩
    rw [densify, List.length_append, List.length_cons, List.length_replicate]
    omega

/-- An ascending list lies within its dense form. -/
theorem within_densify {z : α} : ∀ {l : List (Nat × α)} {a : Nat},
    l.Pairwise (fun e f => e.1 < f.1) → (∀ e ∈ l, a ≤ e.1) →
    Within l a (a + (densify z a l).length)
  | [], _, hp, _ => ⟨hp, nofun⟩
  | (p, v) :: l, a, hp, ha => by
    obtain ⟨hpl, hl⟩ := List.pairwise_cons.mp hp
    have hap := ha (p, v) List.mem_cons_self
    obtain ⟨-, hw⟩ := within_densify (z := z) (a := p + 1) hl hpl
    refine ⟨hp, fun e he => ⟨ha e he, ?_⟩⟩
    rw [densify, List.length_append, List.length_cons, List.length_replicate]
    rcases List.mem_cons.mp he with rfl | he
    · simp only at hap ⊢
      omega
    · have := (hw e he).2
      simp only at hap
      omega

/-- What a dense form has at a position: the value there, or `z` in a gap. -/
theorem getElem?_densify {z w : α} : ∀ {l : List (Nat × α)} {a q : Nat},
    l.Pairwise (fun e f => e.1 < f.1) → (∀ e ∈ l, a ≤ e.1) → (densify z a l)[q]? = some w →
    (a + q, w) ∈ l ∨ w = z ∧ (∀ v, (a + q, v) ∉ l) ∧ ∃ e ∈ l, a + q < e.1
  | [], _, _, _, _, h => by simp [densify] at h
  | (p, v) :: l, a, q, hp, ha, h => by
    obtain ⟨hpl, hl⟩ := List.pairwise_cons.mp hp
    have hap : a ≤ p := ha (p, v) List.mem_cons_self
    rw [densify, List.getElem?_append, List.length_replicate] at h
    split at h
    -- In the gap before `p`.
    · rename_i hq
      rw [List.getElem?_replicate, if_pos hq] at h
      refine .inr ⟨(Option.some.inj h).symm, fun u hu => ?_, (p, v), List.mem_cons_self, by simp only; omega⟩
      rcases List.mem_cons.mp hu with hu | hu
      · have := (Prod.mk.inj hu).1
        omega
      · have := hpl _ hu
        simp only at this
        omega
    · rename_i hq
      obtain hq' | ⟨i, hi⟩ : q - (p - a) = 0 ∨ ∃ i, q - (p - a) = i + 1 := by
        cases q - (p - a) with
        | zero => exact .inl rfl
        | succ i => exact .inr ⟨i, rfl⟩
      · rw [hq', List.getElem?_cons_zero] at h
        rw [show a + q = p by omega, ← Option.some.inj h]
        exact .inl List.mem_cons_self
      · rw [hi, List.getElem?_cons_succ] at h
        have ih := getElem?_densify hl hpl h
        rw [show p + 1 + i = a + q by omega] at ih
        rcases ih with hm | ⟨hw, hnot, e, he, hlt⟩
        · exact .inl (List.mem_cons_of_mem _ hm)
        · refine .inr ⟨hw, fun u hu => ?_, e, List.mem_cons_of_mem _ he, hlt⟩
          rcases List.mem_cons.mp hu with hu | hu
          · have := (Prod.mk.inj hu).1
            omega
          · exact hnot u hu

/-- A list that is not empty ends at its last position. -/
theorem densify_end {z : α} : ∀ {l : List (Nat × α)} {a : Nat}, l ≠ [] →
    (∀ e ∈ l, a ≤ e.1) → l.Pairwise (fun e f => e.1 < f.1) →
    ∃ e ∈ l, a + (densify z a l).length = e.1 + 1
  | [(p, v)], a, _, ha, _ => by
    have hap := ha (p, v) List.mem_cons_self
    refine ⟨(p, v), List.mem_cons_self, ?_⟩
    simp only [densify, List.length_append, List.length_replicate, List.length_singleton] at hap ⊢
    omega
  | (p, v) :: e :: l, a, _, ha, hp => by
    obtain ⟨hpl, hl⟩ := List.pairwise_cons.mp hp
    have hap := ha (p, v) List.mem_cons_self
    obtain ⟨f, hf, hlen⟩ := densify_end (z := z) (a := p + 1) (List.cons_ne_nil e l) hpl hl
    refine ⟨f, List.mem_cons_of_mem _ hf, ?_⟩
    rw [densify, List.length_append, List.length_cons, List.length_replicate]
    simp only at hap
    omega

end GapFill
