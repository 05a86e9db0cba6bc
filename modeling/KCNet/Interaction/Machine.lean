import Mathlib.Data.List.Forall2
import Mathlib.Data.Nat.Notation

/-!
# Machines that answer their inputs

A deterministic machine takes one input after the other and answers each of them at once. It says
what a component is for without saying how it is programmed. Inputs and answers are listed with the
latest first, as in the history of a program.

## Main definitions

- `Machine` — the machines
- `Machine.stateAfter`, `Machine.outputs` — what they remember and answer
-/

namespace KCNet.Interaction

universe u v w

structure Machine (σ : Type u) (ι : Type v) (ω : Type w) where
  start : σ
  next : σ → ι → σ
  output : σ → ι → ω

namespace Machine

variable {σ : Type u} {ι : Type v} {ω : Type w} (M : Machine σ ι ω)

/-- The state after the inputs, the latest first. -/
def stateAfter : List ι → σ
  | [] => M.start
  | x :: past => M.next (stateAfter past) x

/-- The answers to the inputs, the latest first. -/
def outputs : List ι → List ω
  | [] => []
  | x :: past => M.output (M.stateAfter past) x :: outputs past

@[simp] theorem stateAfter_nil : M.stateAfter [] = M.start := rfl

@[simp] theorem stateAfter_cons (x : ι) (past : List ι) :
    M.stateAfter (x :: past) = M.next (M.stateAfter past) x := rfl

@[simp] theorem outputs_nil : M.outputs [] = [] := rfl

@[simp] theorem outputs_cons (x : ι) (past : List ι) :
    M.outputs (x :: past) = M.output (M.stateAfter past) x :: M.outputs past := rfl

variable {M}

/-- What every input preserves of the state is never lost again. -/
theorem stateAfter_latched {P : σ → Prop} (hnext : ∀ m x, P m → P (M.next m x)) {past : List ι}
    (h : P (M.stateAfter past)) (later : List ι) : P (M.stateAfter (later ++ past)) := by
  induction later with
  | nil => exact h
  | cons x later ih => exact hnext _ x ih

/-- The answers given in states with `P` have the property `R`, if every input preserves `P`. -/
theorem outputs_latched {P : σ → Prop} {R : ι → ω → Prop} (hnext : ∀ m x, P m → P (M.next m x))
    (hout : ∀ m x, P m → R x (M.output m x)) {past : List ι} (h : P (M.stateAfter past))
    (later : List ι) :
    ∃ answers, M.outputs (later ++ past) = answers ++ M.outputs past ∧
      List.Forall₂ R later answers := by
  induction later with
  | nil => exact ⟨[], rfl, .nil⟩
  | cons x later ih =>
    obtain ⟨answers, hanswers, hR⟩ := ih
    have hlatched : P (M.stateAfter (later ++ past)) := stateAfter_latched hnext h later
    refine ⟨M.output (M.stateAfter (later ++ past)) x :: answers, ?_, hR.cons (hout _ x hlatched)⟩
    rw [List.cons_append, outputs_cons, hanswers]
    rfl

/-- A flag that nothing clears is set exactly if some input has set it. -/
theorem flag_iff {f : σ → Bool} {S : σ → ι → Prop} (hstart : f M.start = false)
    (hnext : ∀ m x, f (M.next m x) = true ↔ f m = true ∨ S m x) (inputs : List ι) :
    f (M.stateAfter inputs) = true ↔
      ∃ later x past, inputs = later ++ x :: past ∧ S (M.stateAfter past) x := by
  induction inputs with
  | nil => simp [hstart]
  | cons x past ih =>
    rw [stateAfter_cons, hnext, ih]
    constructor
    · rintro (⟨later, y, rest, rfl, hy⟩ | hx)
      · exact ⟨x :: later, y, rest, rfl, hy⟩
      · exact ⟨[], x, past, rfl, hx⟩
    · rintro ⟨later, y, rest, heq, hy⟩
      cases later with
      | nil =>
        obtain ⟨rfl, rfl⟩ := List.cons.inj heq
        exact .inr hy
      | cons z later =>
        obtain ⟨rfl, rfl⟩ := List.cons.inj heq
        exact .inl ⟨later, y, rest, rfl, hy⟩

end Machine

end KCNet.Interaction
