import KCNet.Random.Residues
import Mathlib.Algebra.Order.BigOperators.Group.Finset
import Mathlib.GroupTheory.Perm.DomMulAct

/-!
# Drawing and rearranging

Each position draws a value from its own class, and a permutation moves the values. How many draws
lead to a given outcome: for every permutation that puts each value where its class allows, the
product of the numbers of draws for the single values.

## Main definitions

- `arrange` — what stands at each position when the values have been moved
- `weight` — the number of draws for the values of an outcome, one from each class
-/

namespace KCNet.Random

open Equiv Finset

variable {α ι β γ δ : Type*} [Fintype α] [DecidableEq α] [DecidableEq ι]

/-- Two colourings of the positions with equally many positions of each colour differ by as many
permutations as keep one of them. -/
theorem card_comp_perm_eq [Fintype ι] {f g : α → ι}
    (h : ∀ i, Fintype.card {a // g a = i} = Fintype.card {a // f a = i}) :
    #{p : Perm α | f ∘ p = g} = ∏ i, (Fintype.card {a // f a = i}).factorial := by
  have hfiber (i : ι) : Nonempty ({a // g a = i} ≃ {a // f a = i}) := by
    rw [← Fintype.card_eq, h]
  -- one permutation with `f ∘ q = g`, and all others differ from it by one that keeps `f`
  set q : Perm α := Equiv.ofFiberEquiv fun i => (hfiber i).some
  have hq : f ∘ q = g := funext (Equiv.ofFiberEquiv_map fun i => (hfiber i).some)
  rw [← DomMulAct.stabilizer_card f, Fintype.card_subtype]
  apply Finset.card_bij fun p _ => p * q⁻¹
  · intro p hp
    simp only [mem_filter, mem_univ, true_and] at hp ⊢
    calc f ∘ ⇑(p * q⁻¹) = (f ∘ p) ∘ ⇑q⁻¹ := rfl
      _ = f ∘ ⇑(q * q⁻¹) := by
        rw [hp, ← hq]
        rfl
      _ = f := by
        rw [mul_inv_cancel]
        rfl
  · intro p _ p' _ hpp
    exact mul_right_cancel hpp
  · intro r hr
    simp only [mem_filter, mem_univ, true_and] at hr
    refine ⟨r * q, ?_, by simp⟩
    simp only [mem_filter, mem_univ, true_and]
    calc f ∘ ⇑(r * q) = (f ∘ r) ∘ q := rfl
      _ = g := by rw [hr, hq]

/-- Position `k` holds what has been drawn at `p k`, where the class is `f (p k)`. -/
def arrange (f : α → ι) (val : ι → β → γ) (x : α → β) (p : Perm α) (k : α) : γ :=
  val (f (p k)) (x (p k))

variable [Fintype β] [DecidableEq γ] {f : α → ι} {val : ι → β → γ} {cls : γ → ι}

/-- The number of draws for the values of `w`, if each of them is drawn from its own class. -/
def weight (val : ι → β → γ) (cls : γ → ι) (w : α → γ) : ℕ := ∏ k, #{b | val (cls (w k)) b = w k}

/-- If the classes have no value in common, an outcome can only come from a permutation that puts
every value where its class is drawn. -/
theorem card_arrange_eq (hcls : ∀ i b, cls (val i b) = i) (p : Perm α) (w : α → γ) :
    #{x : α → β | arrange f val x p = w} = if f ∘ p = cls ∘ w then weight val cls w else 0 := by
  split
  · next h =>
    have hclass (k : α) : f (p k) = cls (w k) := congrFun h k
    calc #{x : α → β | arrange f val x p = w}
        = #{y : α → β | ∀ k, val (cls (w k)) (y k) = w k} := by
          apply Finset.card_bij fun x _ => x ∘ p
          · intro x hx
            simp only [mem_filter, mem_univ, true_and] at hx ⊢
            intro k
            rw [← hclass k]
            exact congrFun hx k
          · intro x _ x' _ hxx
            exact p.surjective.injective_comp_right hxx
          · intro y hy
            simp only [mem_filter, mem_univ, true_and] at hy ⊢
            refine ⟨y ∘ p.symm, ?_, ?_⟩
            · funext k
              rw [arrange, hclass k, Function.comp_apply, p.symm_apply_apply]
              exact hy k
            · funext k
              exact congrArg y (p.symm_apply_apply k)
      _ = weight val cls w := card_forall fun k b => val (cls (w k)) b = w k
  · next h =>
    rw [Finset.card_eq_zero, Finset.filter_eq_empty_iff]
    rintro x - rfl
    apply h
    funext k
    exact (hcls (f (p k)) (x (p k))).symm

variable [Fintype δ]

/-- The permutation is drawn as well: an outcome is counted over the permutations that lead to
it. -/
theorem card_arrangements (hcls : ∀ i b, cls (val i b) = i) (perm : δ → Perm α) (w : α → γ) :
    #{z : (α → β) × δ | arrange f val z.1 (perm z.2) = w} =
      ∑ p ∈ ({p | f ∘ ⇑p = cls ∘ w} : Finset (Perm α)), weight val cls w * #{y | perm y = p} := by
  calc #{z : (α → β) × δ | arrange f val z.1 (perm z.2) = w}
      = ∑ y : δ, #{x : α → β | arrange f val x (perm y) = w} := by
        rw [← Finset.card_sigma]
        apply Finset.card_bij fun z _ => ⟨z.2, z.1⟩
        · intro z hz
          simpa using hz
        · rintro ⟨x, y⟩ _ ⟨x', y'⟩ _ hz
          cases hz
          rfl
        · rintro ⟨y, x⟩ hz
          exact ⟨(x, y), by simpa using hz, rfl⟩
    _ = ∑ y : δ, if f ∘ perm y = cls ∘ w then weight val cls w else 0 :=
        Finset.sum_congr rfl fun y _ => card_arrange_eq hcls (perm y) w
    _ = ∑ p : Perm α, ∑ y with perm y = p, if f ∘ p = cls ∘ w then weight val cls w else 0 := by
        rw [← Finset.sum_fiberwise (s := Finset.univ) perm]
        refine Finset.sum_congr rfl fun p _ => Finset.sum_congr rfl fun y hy => ?_
        rw [(Finset.mem_filter.1 hy).2]
    _ = ∑ p ∈ ({p | f ∘ ⇑p = cls ∘ w} : Finset (Perm α)), weight val cls w * #{y | perm y = p} := by
        rw [Finset.sum_filter]
        refine Finset.sum_congr rfl fun p _ => ?_
        rw [Finset.sum_const, smul_eq_mul]
        split
        · exact Nat.mul_comm ..
        · exact Nat.mul_zero _

/-- If every permutation is drawn between `lo` and `hi` times, then an outcome is drawn as often as
there are permutations that lead to it, times its weight, times something between the two. -/
theorem card_arrangements_bounds (hcls : ∀ i b, cls (val i b) = i) {perm : δ → Perm α} {lo hi : ℕ}
    (hperm : ∀ p, lo ≤ #{y | perm y = p} ∧ #{y | perm y = p} ≤ hi) (w : α → γ) :
    #{p : Perm α | f ∘ ⇑p = cls ∘ w} * weight val cls w * lo ≤
        #{z : (α → β) × δ | arrange f val z.1 (perm z.2) = w} ∧
      #{z : (α → β) × δ | arrange f val z.1 (perm z.2) = w} ≤
        #{p : Perm α | f ∘ ⇑p = cls ∘ w} * weight val cls w * hi := by
  rw [card_arrangements hcls, Nat.mul_assoc, Nat.mul_assoc]
  constructor
  · rw [← smul_eq_mul, ← Finset.sum_const]
    exact Finset.sum_le_sum fun p _ => Nat.mul_le_mul_left _ (hperm p).1
  · rw [← smul_eq_mul, ← Finset.sum_const]
    exact Finset.sum_le_sum fun p _ => Nat.mul_le_mul_left _ (hperm p).2

end KCNet.Random
