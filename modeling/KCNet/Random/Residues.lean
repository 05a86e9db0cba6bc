import Mathlib.Algebra.Order.Floor.Div
import Mathlib.Data.Fintype.BigOperators
import Mathlib.Data.Int.CardIntervalMod

/-!
# Residues of uniform draws

How many draws out of a finite range have a given residue, and how many sequences of draws have
given residues in all their places. A draw from `b` values, reduced modulo `r`, favours the
residues below `b % r` by one.
-/

namespace KCNet.Random

open Finset

/-- How many of the numbers below `b` have the residue `v` modulo `r`. -/
def residueCount (b r v : ℕ) : ℕ := b / r + if v < b % r then 1 else 0

theorem card_mod_eq {b r v : ℕ} (hv : v < r) :
    #{y : Fin b | (y : ℕ) % r = v} = residueCount b r v := by
  have hr : 0 < r := (Nat.zero_le v).trans_lt hv
  have hcount := Nat.count_modEq_card b hr v
  rw [Nat.count_eq_card_filter_range, Nat.mod_eq_of_lt hv] at hcount
  rw [residueCount, ← hcount, ← card_map Fin.valEmbedding]
  congr 1
  ext y
  simp only [mem_map, mem_filter, mem_univ, true_and, mem_range, Nat.ModEq, Nat.mod_eq_of_lt hv]
  constructor
  · rintro ⟨y, hy, rfl⟩
    exact ⟨y.isLt, hy⟩
  · rintro ⟨hlt, hy⟩
    exact ⟨⟨y, hlt⟩, hy, rfl⟩

theorem div_le_residueCount (b r v : ℕ) : b / r ≤ residueCount b r v := Nat.le_add_right ..

theorem residueCount_le_ceilDiv {b r : ℕ} (hr : 0 < r) (v : ℕ) :
    residueCount b r v ≤ b ⌈/⌉ r := by
  rw [residueCount, Nat.ceilDiv_eq_add_pred_div]
  split
  · next h =>
    -- some residue is left over, so the quotient is not exact
    have hpos : 1 ≤ b % r := by omega
    calc b / r + 1 = (b / r * r + r) / r := by rw [Nat.add_div_right _ hr, Nat.mul_div_cancel _ hr]
      _ ≤ (b + r - 1) / r := by
        apply Nat.div_le_div_right
        have := Nat.div_add_mod' b r
        omega
  · exact Nat.div_le_div_right (by omega)

/-- All residues are equally frequent if and only if no draw is left over. -/
theorem residueCount_uniform_iff {b r : ℕ} (hr : 0 < r) :
    (∀ v < r, ∀ v' < r, residueCount b r v = residueCount b r v') ↔ r ∣ b := by
  rw [Nat.dvd_iff_mod_eq_zero]
  constructor
  · intro h
    by_contra hne
    -- the residue 0 is favoured, the last one is not
    have hends := h 0 hr (r - 1) (by omega)
    have hlast : ¬ r - 1 < b % r := by
      have := Nat.mod_lt b hr
      omega
    rw [residueCount, residueCount, if_pos (Nat.pos_of_ne_zero hne), if_neg hlast] at hends
    omega
  · intro h v _ v' _
    rw [residueCount, residueCount, h]
    rfl

/-- A property of all places of a sequence is counted place by place. -/
theorem card_forall {ι α : Type*} [Fintype ι] [DecidableEq ι] [Fintype α] (P : ι → α → Prop)
    [∀ i, DecidablePred (P i)] [DecidablePred fun f : ι → α => ∀ i, P i (f i)] :
    #{f : ι → α | ∀ i, P i (f i)} = ∏ i, #{a | P i a} := by
  rw [← Fintype.card_piFinset]
  congr 1
  ext f
  simp

end KCNet.Random
