import KCNet.Random.Residues
import Mathlib.Data.Fintype.Fin
import Mathlib.Data.Nat.Factorial.BigOperators
import Mathlib.GroupTheory.Perm.Basic
import Mathlib.Data.Fintype.Perm

/-!
# The Fisher-Yates shuffle

The loop `for i = n down to 2: swap(a[i-1], a[x_i % i])` as a permutation of positions. Every
permutation of the `n` positions comes from exactly one vector of indices, so the number of draw
sequences that lead to it is a product of residue counts.

## Main definitions

- `loop` — where the loop takes each position from
- `permutation` — the same on the `n` positions
- `Indices` — the vectors `(j_n, ..., j_2)` with `j_i < i`
- `Rearranged` — a list whose elements have been moved by a permutation
-/

namespace KCNet.Random

open Equiv Finset

/-- After the loop over the indices from `n` down to 2, position `k` holds what stood at
`loop n x k`. The draw for the index `i` is `x i`. -/
def loop : ℕ → (ℕ → ℕ) → Perm ℕ
  | 0, _ => 1
  | 1, _ => 1
  | i + 2, x => swap (i + 1) (x (i + 2) % (i + 2)) * loop (i + 1) x

variable {n k : ℕ} {x y : ℕ → ℕ}

/-- The loop leaves the positions from `n` on alone. -/
theorem loop_of_le (h : n ≤ k) : loop n x k = k := by
  induction n, x using loop.induct with
  | case1 | case2 => rfl
  | case3 i x ih =>
    have hj : x (i + 2) % (i + 2) < i + 2 := Nat.mod_lt _ (by omega)
    rw [loop, Perm.mul_apply, ih (by omega), swap_apply_of_ne_of_ne (by omega) (by omega)]

theorem loop_lt (h : k < n) : loop n x k < n := by
  by_contra hge
  -- a position from `n` on is reached from itself only
  have hfix : loop n x (loop n x k) = loop n x k := loop_of_le (not_lt.1 hge)
  rw [(loop n x).injective hfix] at hge
  exact hge h

theorem loop_symm_lt (h : k < n) : (loop n x).symm k < n := by
  by_contra hge
  have hfix : loop n x ((loop n x).symm k) = (loop n x).symm k := loop_of_le (not_lt.1 hge)
  rw [apply_symm_apply] at hfix
  omega

/-- The last position is settled by the first swap. -/
theorem loop_last (i : ℕ) : loop (i + 2) x (i + 1) = x (i + 2) % (i + 2) := by
  rw [loop, Perm.mul_apply, loop_of_le le_rfl, swap_apply_left]

/-- Only the residues of the draws matter. -/
theorem loop_congr (h : ∀ i, 2 ≤ i → i ≤ n → x i % i = y i % i) : loop n x = loop n y := by
  induction n, x using loop.induct with
  | case1 | case2 => rfl
  | case3 i x ih =>
    rw [loop, loop, h (i + 2) (by omega) le_rfl, ih fun j h2 hj => h j h2 (by omega)]

/-- Different residues lead to different permutations. -/
theorem loop_injective (h : loop n x = loop n y) : ∀ i, 2 ≤ i → i ≤ n → x i % i = y i % i := by
  induction n, x using loop.induct with
  | case1 | case2 =>
    intro i h2 hi
    omega
  | case3 m x ih =>
    have hlast : x (m + 2) % (m + 2) = y (m + 2) % (m + 2) := by
      rw [← loop_last, ← loop_last, h]
    have hrest : loop (m + 1) x = loop (m + 1) y := by
      rw [loop, loop, hlast] at h
      exact mul_left_cancel h
    intro i h2 hi
    rcases Nat.lt_or_ge i (m + 2) with hlt | hge
    · exact ih hrest i h2 (by omega)
    · obtain rfl : i = m + 2 := by omega
      exact hlast

/-- The loop as a permutation of the `n` positions. -/
def permutation (n : ℕ) (x : ℕ → ℕ) : Perm (Fin n) where
  toFun k := ⟨loop n x k, loop_lt k.isLt⟩
  invFun k := ⟨(loop n x).symm k, loop_symm_lt k.isLt⟩
  left_inv k := by simp
  right_inv k := by simp

@[simp] theorem permutation_apply (k : Fin n) : (permutation n x k : ℕ) = loop n x k := rfl

theorem permutation_eq_iff : permutation n x = permutation n y ↔ loop n x = loop n y := by
  constructor
  · intro h
    ext k
    rcases Nat.lt_or_ge k n with hlt | hge
    · have hk := congrArg (fun σ : Perm (Fin n) => (σ ⟨k, hlt⟩ : ℕ)) h
      exact hk
    · rw [loop_of_le hge, loop_of_le hge]
  · intro h
    ext k
    rw [permutation_apply, permutation_apply, h]

/-! ## Index vectors and draw sequences -/

/-- The vectors `(j_n, ..., j_2)` with `0 ≤ j_i < i`; the component `k` is `j_(k+2)`. -/
abbrev Indices (n : ℕ) := (k : Fin (n - 1)) → Fin (k + 2)

/-- The sequence with the component `k` for the index `k + 2`. -/
def atIndex {n : ℕ} (v : Fin (n - 1) → ℕ) (i : ℕ) : ℕ :=
  if h : i - 2 < n - 1 then v ⟨i - 2, h⟩ else 0

theorem atIndex_add_two (v : Fin (n - 1) → ℕ) (k : Fin (n - 1)) : atIndex v (k + 2) = v k := by
  simp [atIndex]

theorem atIndex_lt {v : Fin (n - 1) → ℕ} {b : ℕ} (hb : 0 < b) (h : ∀ k, v k < b) (i : ℕ) :
    atIndex v i < b := by
  unfold atIndex
  split
  · exact h _
  · exact hb

/-- Two sequences agree at all indices of the loop if they agree in all components. -/
theorem forall_index_iff {v w : Fin (n - 1) → ℕ} :
    (∀ i, 2 ≤ i → i ≤ n → atIndex v i % i = atIndex w i % i) ↔
      ∀ k, v k % (k + 2) = w k % (k + 2) := by
  constructor
  · intro h k
    have hk := h (k + 2) (by omega) (by omega)
    rwa [atIndex_add_two, atIndex_add_two] at hk
  · intro h i h2 hi
    obtain ⟨k, rfl⟩ : ∃ k : Fin (n - 1), i = k + 2 := ⟨⟨i - 2, by omega⟩, by simp; omega⟩
    rw [atIndex_add_two, atIndex_add_two]
    exact h k

theorem permutation_atIndex_eq_iff {v w : Fin (n - 1) → ℕ} :
    permutation n (atIndex v) = permutation n (atIndex w) ↔
      ∀ k, v k % (k + 2) = w k % (k + 2) := by
  rw [permutation_eq_iff, ← forall_index_iff]
  exact ⟨loop_injective, loop_congr⟩

theorem card_indices (n : ℕ) : Fintype.card (Indices n) = n.factorial := by
  rw [Fintype.card_pi]
  simp only [Fintype.card_fin]
  cases n with
  | zero => rfl
  | succ m =>
    rw [← Finset.prod_range_add_one_eq_factorial, Finset.prod_range_succ', zero_add, mul_one]
    exact Fin.prod_univ_eq_prod_range (fun k => k + 1 + 1) m

/-- The loop maps the index vectors one-to-one onto the permutations of the positions. -/
theorem permutation_bijective (n : ℕ) :
    Function.Bijective fun j : Indices n => permutation n (atIndex fun k => j k) := by
  rw [Fintype.bijective_iff_injective_and_card]
  constructor
  · intro j j' h
    funext k
    apply Fin.ext
    simpa only [Nat.mod_eq_of_lt (Fin.isLt _)] using permutation_atIndex_eq_iff.1 h k
  · rw [card_indices, Fintype.card_perm, Fintype.card_fin]

/-- The draw sequences that realise the permutation of an index vector. -/
theorem card_draws (b : ℕ) (j : Indices n) :
    #{x : Fin (n - 1) → Fin b | permutation n (atIndex fun k => x k) =
        permutation n (atIndex fun k => j k)} =
      ∏ k : Fin (n - 1), residueCount b (k + 2) (j k) := by
  simp only [permutation_atIndex_eq_iff, Nat.mod_eq_of_lt (Fin.isLt (j _))]
  rw [card_forall fun (k : Fin (n - 1)) (y : Fin b) => (y : ℕ) % (k + 2) = j k]
  exact Finset.prod_congr rfl fun k _ => card_mod_eq (j k).isLt

/-- A product over the components is a product over the indices from 2 to `n`. -/
theorem prod_components (n : ℕ) (f : ℕ → ℕ) :
    ∏ k : Fin (n - 1), f (k + 2) = ∏ i ∈ Finset.Icc 2 n, f i := by
  rw [Fin.prod_univ_eq_prod_range (fun k => f (k + 2)) (n - 1)]
  apply Finset.prod_bij fun k _ => k + 2
  · intro k hk
    rw [Finset.mem_range] at hk
    rw [Finset.mem_Icc]
    omega
  · intro k _ k' _ h
    exact Nat.add_right_cancel h
  · intro i hi
    rw [Finset.mem_Icc] at hi
    exact ⟨i - 2, Finset.mem_range.2 (by omega), by omega⟩
  · intro k _
    rfl

/-- Every permutation is realised by nearly the same number of draw sequences. -/
theorem card_draws_bounds (b : ℕ) (p : Perm (Fin n)) :
    ∏ i ∈ Finset.Icc 2 n, b / i ≤
        #{x : Fin (n - 1) → Fin b | permutation n (atIndex fun k => x k) = p} ∧
      #{x : Fin (n - 1) → Fin b | permutation n (atIndex fun k => x k) = p} ≤
        ∏ i ∈ Finset.Icc 2 n, b ⌈/⌉ i := by
  obtain ⟨j, rfl⟩ := (permutation_bijective n).2 p
  rw [card_draws, ← prod_components, ← prod_components]
  constructor
  · exact Finset.prod_le_prod' fun k _ => div_le_residueCount _ _ _
  · exact Finset.prod_le_prod' fun k _ => residueCount_le_ceilDiv (Nat.succ_pos _) _

/-! ## Lists -/

section Lists

variable {α : Type*} {u v w : List α} {σ τ : Perm ℕ}

/-- `w` holds at position `k` what `u` holds at `σ k`. -/
def Rearranged (σ : Perm ℕ) (u w : List α) : Prop := ∀ k, w[k]? = u[σ k]?

theorem Rearranged.one (u : List α) : Rearranged 1 u u := fun _ => rfl

theorem Rearranged.trans (h : Rearranged σ u v) (h' : Rearranged τ v w) :
    Rearranged (σ * τ) u w := fun k => (h' k).trans (h (τ k))

theorem Rearranged.unique (h : Rearranged σ u v) (h' : Rearranged σ u w) : v = w :=
  List.ext_getElem? fun k => (h k).trans (h' k).symm

/-- Two arrangements of the same elements differ by a permutation of the positions. -/
theorem exists_equiv_of_perm [DecidableEq α] (h : w.Perm u) :
    ∃ e : Fin w.length ≃ Fin u.length, ∀ k, u.get (e k) = w.get k := by
  have hcard (c : α) (l : List α) : Fintype.card {k // l.get k = c} = l.count c := by
    rw [Fintype.card_subtype]
    exact Fin.card_filter_univ_eq_vector_get_eq_count c ⟨l, rfl⟩
  have hfiber (c : α) : Nonempty ({k // w.get k = c} ≃ {k // u.get k = c}) := by
    rw [← Fintype.card_eq, hcard, hcard, h.count_eq]
  exact ⟨Equiv.ofFiberEquiv fun c => (hfiber c).some, Equiv.ofFiberEquiv_map _⟩

/-- Every arrangement of the elements of a list is the outcome of the loop for some indices. -/
theorem exists_rearranged [DecidableEq α] (h : w.Perm u) :
    ∃ j : Indices u.length, Rearranged (loop u.length (atIndex fun k => j k)) u w := by
  obtain ⟨e, he⟩ := exists_equiv_of_perm h
  obtain ⟨j, hj⟩ := (permutation_bijective u.length).2 ((finCongr h.length_eq.symm).trans e)
  refine ⟨j, fun k => ?_⟩
  rcases Nat.lt_or_ge k u.length with hlt | hge
  · have hw : k < w.length := hlt.trans_eq h.length_eq.symm
    have hk : (e ⟨k, hw⟩ : ℕ) = loop u.length (atIndex fun k => j k) k :=
      congrArg (fun σ : Perm (Fin u.length) => (σ ⟨k, hlt⟩ : ℕ)) hj.symm
    rw [← hk, List.getElem?_eq_getElem hw, List.getElem?_eq_getElem (e ⟨k, hw⟩).isLt]
    exact congrArg some (he ⟨k, hw⟩).symm
  · rw [loop_of_le hge, List.getElem?_eq_none hge, List.getElem?_eq_none (h.length_eq.trans_le hge)]

end Lists

end KCNet.Random
