import Mathlib.Algebra.GroupWithZero.Nat
import Mathlib.Order.Defs.LinearOrder
import Mathlib.Order.Lattice
import Mathlib.Tactic.Common

/-!
# Paging by key

A table in ascending key order, read page by page: each page holds the first of
the rows past a key, and the next one starts past the key of its last row. A
page and what is past its last row make up what was left (`after_page`), so
pages run out (`length_after_lt`) and lose nothing.
-/

namespace Paging

variable {ρ κ : Type} [LinearOrder κ] (key : ρ → κ)

/-- The rows past a key. -/
def after (rows : List ρ) (k : κ) : List ρ := rows.filter fun r => k < key r

/-- A page past a key: the first of the rows that are left, no more than a
limit, and some while any are left. -/
structure IsPage (rows : List ρ) (limit : Nat) (k : κ) (page : List ρ) : Prop where
  first : page <+: after key rows k
  length_le : page.length ≤ limit
  some_left : after key rows k ≠ [] → page ≠ []

variable {key} {rows page : List ρ} {k : κ} {last : ρ}

theorem after_all (h : ∀ r ∈ rows, k < key r) : after key rows k = rows :=
  List.filter_eq_self.mpr fun r hr => decide_eq_true (h r hr)

theorem ascending_after (h : rows.Pairwise fun a b => key a < key b) (k : κ) :
    (after key rows k).Pairwise fun a b => key a < key b :=
  h.sublist List.filter_sublist

/-- Past a row that is past a key. -/
theorem after_after (h : k ≤ key last) :
    after key (after key rows k) (key last) = after key rows (key last) := by
  rw [after, after, List.filter_filter]
  refine List.filter_congr fun r _ => ?_
  rw [Bool.eq_iff_iff, Bool.and_eq_true, decide_eq_true_iff, decide_eq_true_iff]
  exact and_iff_left_of_imp fun hr => lt_of_le_of_lt h hr

/-- A page, and what is past its last row. -/
theorem after_page (hrows : rows.Pairwise fun a b => key a < key b)
    (hpage : page <+: after key rows k) (hlast : page.getLast? = some last) :
    after key rows k = page ++ after key rows (key last) := by
  obtain ⟨rest, hrest⟩ := hpage
  obtain ⟨init, rfl⟩ := List.getLast?_eq_some_iff.mp hlast
  have hasc := ascending_after hrows k
  rw [← hrest] at hasc
  obtain ⟨hpage, -, hcross⟩ := List.pairwise_append.mp hasc
  obtain ⟨-, -, hinit⟩ := List.pairwise_append.mp hpage
  have hpast : k < key last := by
    have hmem : last ∈ after key rows k := by rw [← hrest]; simp
    exact of_decide_eq_true (List.mem_filter.mp hmem).2
  have hdone : after key (init ++ [last]) (key last) = [] := by
    refine List.filter_eq_nil_iff.mpr fun r hr => ?_
    rw [decide_eq_true_iff, not_lt]
    rcases List.mem_append.mp hr with hr | hr
    · exact le_of_lt (hinit r hr last List.mem_cons_self)
    · rw [List.mem_singleton.mp hr]
  have hleft : after key rest (key last) = rest :=
    after_all fun r hr => hcross last (by simp) r hr
  rw [← after_after (le_of_lt hpast), ← hrest, after, List.filter_append, ← after, ← after, hdone,
    List.nil_append, hleft]

theorem length_after_lt (hrows : rows.Pairwise fun a b => key a < key b)
    (hpage : page <+: after key rows k) (hlast : page.getLast? = some last) :
    (after key rows (key last)).length < (after key rows k).length := by
  have hpos : 0 < page.length := List.length_pos_of_mem (List.mem_of_getLast? hlast)
  rw [after_page hrows hpage hlast, List.length_append]
  omega

/-- Nothing is left past a key whose page is empty. -/
theorem IsPage.after_nil {limit : Nat} (h : IsPage key rows limit k []) : after key rows k = [] :=
  Decidable.byContradiction fun hne => h.some_left hne rfl

end Paging
