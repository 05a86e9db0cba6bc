import Mathlib.Data.Nat.Notation
import Mathlib.Logic.Relation

/-!
# Programs that call their environment

A program is a tree: it is finished with a value, or it calls one operation and goes on with
the answer. What an answer may be and what it does to the world is left to an `Env`, so the
same program text can be run against several environments.

## Main definitions

- `Program` — the trees, a monad
- `Env` — which answers are allowed in a world, and the world after them
- `Env.Steps` — the executions of a program, finished or not
- `Env.recorded` — the same environment, keeping the list of past events
- `Env.run` — the execution in which a given oracle supplies the answers
-/

namespace KCNet.Interaction

universe u v w x

/-- A program over operations `Op`, where operation `o` is answered by a value of `Res o`. -/
inductive Program (Op : Type u) (Res : Op → Type v) (α : Type w) : Type (max u v w) where
  | done (a : α) : Program Op Res α
  | call (o : Op) (k : Res o → Program Op Res α) : Program Op Res α

namespace Program

variable {Op : Type u} {Res : Op → Type v} {α β γ : Type w}

protected def bind : Program Op Res α → (α → Program Op Res β) → Program Op Res β
  | .done a, f => f a
  | .call o k, f => .call o fun r => (k r).bind f

instance : Monad (Program Op Res) where
  pure := .done
  bind := Program.bind

@[simp] theorem call_bind (o : Op) (k : Res o → Program Op Res α) (f : α → Program Op Res β) :
    (Program.call o k >>= f) = .call o fun r => k r >>= f := rfl

protected theorem bind_done (p : Program Op Res α) : (p >>= Program.done) = p := by
  induction p with
  | done a => rfl
  | call o k ih => exact congrArg (Program.call o) (funext ih)

protected theorem bind_assoc (p : Program Op Res α) (f : α → Program Op Res β)
    (g : β → Program Op Res γ) : (p >>= f >>= g) = p >>= fun a => f a >>= g := by
  induction p with
  | done a => rfl
  | call o k ih => exact congrArg (Program.call o) (funext ih)

instance : LawfulMonad (Program Op Res) :=
  LawfulMonad.mk' (Program Op Res) Program.bind_done (fun _ _ => rfl) Program.bind_assoc

end Program

/-- Call one operation and return its answer. -/
def perform {Op : Type u} {Res : Op → Type v} (o : Op) : Program Op Res (Res o) := .call o .done

/-- An environment: the answers it may give to an operation, and the world they lead to. -/
structure Env (Op : Type u) (Res : Op → Type v) (W : Type w) where
  allowed : W → (o : Op) → Res o → Bool
  next : W → (o : Op) → Res o → W

/-- One answered operation. -/
structure Event (Op : Type u) (Res : Op → Type v) where
  op : Op
  res : Res op

namespace Env

variable {Op : Type u} {Res : Op → Type v} {W : Type w} {α β : Type x}

/-- The environment answers the pending operation. -/
inductive Step (E : Env Op Res W) :
    W × Program Op Res α → W × Program Op Res α → Prop where
  | call (w : W) (o : Op) (k : Res o → Program Op Res α) (r : Res o) (h : E.allowed w o r) :
      Step E (w, .call o k) (E.next w o r, k r)

/-- Executions, stopped anywhere. -/
abbrev Steps (E : Env Op Res W) : W × Program Op Res α → W × Program Op Res α → Prop :=
  Relation.ReflTransGen E.Step

/-- A world together with everything that has happened in it, the latest event first. -/
structure Recorded (Op : Type u) (Res : Op → Type v) (W : Type w) where
  world : W
  history : List (Event Op Res)

/-- The environment `E` with a record of its answers. -/
def recorded (E : Env Op Res W) : Env Op Res (Recorded Op Res W) where
  allowed s o r := E.allowed s.world o r
  next s o r := ⟨E.next s.world o r, ⟨o, r⟩ :: s.history⟩

@[simp] theorem recorded_allowed (E : Env Op Res W) (s : Recorded Op Res W) (o : Op)
    (r : Res o) : E.recorded.allowed s o r = E.allowed s.world o r := rfl

@[simp] theorem recorded_next (E : Env Op Res W) (s : Recorded Op Res W) (o : Op) (r : Res o) :
    E.recorded.next s o r = ⟨E.next s.world o r, ⟨o, r⟩ :: s.history⟩ := rfl

/-- What comes right after a common past is the same. -/
theorem head_eq_of_suffix {γ : Type*} {x y : γ} {l l' : List γ} (hx : x :: l <:+ l')
    (hy : y :: l <:+ l') : x = y := by
  have hsuf := List.suffix_of_suffix_length_le hx hy (by simp)
  exact (List.cons.inj (hsuf.eq_of_length (by simp))).1

/-- An execution only adds to the history. -/
theorem Steps.suffix {E : Env Op Res W} {c c' : Recorded Op Res W × Program Op Res α}
    (h : E.recorded.Steps c c') : c.1.history <:+ c'.1.history := by
  induction h with
  | refl => exact List.suffix_rfl
  | tail _ hs ih =>
    cases hs with
    | call _ o k r _ => exact ih.trans (List.suffix_cons ..)

/-- The first answer of an execution can be read off its history. -/
theorem Steps.of_answer {E : Env Op Res W} {s s' : Recorded Op Res W} {o : Op}
    {k : Res o → Program Op Res α} {q : Program Op Res α} {r : Res o}
    (h : E.recorded.Steps (s, .call o k) (s', q)) (hr : ⟨o, r⟩ :: s.history <:+ s'.history) :
    E.allowed s.world o r ∧ E.recorded.Steps (E.recorded.next s o r, k r) (s', q) := by
  rcases Relation.ReflTransGen.cases_head h with heq | ⟨c, hs, hrest⟩
  · -- the history has grown, so a step has been taken
    obtain rfl : s = s' := congrArg Prod.fst heq
    exact absurd hr.length_le (by simp)
  · cases hs with
    | call _ o k r' ha =>
      -- both histories end in `s.history` with one event before it
      have heq := head_eq_of_suffix hr (Steps.suffix hrest)
      obtain rfl : r = r' := eq_of_heq (Event.mk.inj heq).2
      exact ⟨ha, hrest⟩

/-- Run a program against an oracle, up to its end or to the operation that gets no answer. -/
def run (E : Env Op Res W) (pick : W → (o : Op) → Option (Res o)) :
    Program Op Res α → W → W × Program Op Res α
  | .done a, w => (w, .done a)
  | .call o k, w =>
    match pick w o with
    | some r => run E pick (k r) (E.next w o r)
    | none => (w, .call o k)

theorem run_call (E : Env Op Res W) (pick : W → (o : Op) → Option (Res o)) {o : Op} {w : W}
    {r : Res o} (h : pick w o = some r) (k : Res o → Program Op Res α) :
    E.run pick (.call o k) w = E.run pick (k r) (E.next w o r) := by
  simp only [run, h]

/-- A program that is run to its end hands over to the rest. -/
theorem run_bind (E : Env Op Res W) (pick : W → (o : Op) → Option (Res o)) {p : Program Op Res α}
    {a : α} {w w' : W} (h : E.run pick p w = (w', .done a)) (f : α → Program Op Res β) :
    E.run pick (p >>= f) w = E.run pick (f a) w' := by
  induction p generalizing w with
  | done b =>
    obtain ⟨rfl, hb⟩ := Prod.mk.inj h
    obtain rfl := Program.done.inj hb
    rfl
  | call o k ih =>
    rw [Program.call_bind, run]
    rw [run] at h
    cases hp : pick w o with
    | none =>
      rw [hp] at h
      cases h
    | some r =>
      rw [hp] at h
      exact ih r h

/-- If a sequence is run to its end, so is its first part. -/
theorem exists_run_of_bind (E : Env Op Res W) (pick : W → (o : Op) → Option (Res o))
    {p : Program Op Res α} {f : α → Program Op Res β} {b : β} {w w' : W}
    (h : E.run pick (p >>= f) w = (w', .done b)) :
    ∃ a w'', E.run pick p w = (w'', .done a) ∧ E.run pick (f a) w'' = (w', .done b) := by
  induction p generalizing w with
  | done a => exact ⟨a, w, rfl, h⟩
  | call o k ih =>
    rw [Program.call_bind, run] at h
    rw [run]
    cases hp : pick w o with
    | none =>
      rw [hp] at h
      cases h
    | some r =>
      rw [hp] at h
      exact ih r h

/-- The oracle that gives an answer only where it is allowed. -/
def checked (E : Env Op Res W) (pick : W → (o : Op) → Option (Res o)) :
    W → (o : Op) → Option (Res o) :=
  fun w o => (pick w o).filter (E.allowed w o)

/-- A run against allowed answers is an execution. -/
theorem run_checked_steps (E : Env Op Res W) (pick : W → (o : Op) → Option (Res o))
    (p : Program Op Res α) (w : W) : E.Steps (w, p) (E.run (E.checked pick) p w) := by
  induction p generalizing w with
  | done a => exact .refl
  | call o k ih =>
    cases hp : E.checked pick w o with
    | none => simpa only [run, hp] using Relation.ReflTransGen.refl
    | some r =>
      have ha : E.allowed w o r := (Option.filter_eq_some_iff.1 hp).2
      rw [run_call E _ hp]
      exact .head (.call w o k r ha) (ih r _)

/-- A run records the answer that the oracle gives first. -/
theorem run_checked_answer (E : Env Op Res W) {pick : Recorded Op Res W → (o : Op) → Option (Res o)}
    {s : Recorded Op Res W} {o : Op} {r : Res o} (h : E.recorded.checked pick s o = some r)
    (k : Res o → Program Op Res α) :
    ⟨o, r⟩ :: s.history <:+ (E.recorded.run (E.recorded.checked pick) (.call o k) s).1.history := by
  rw [run_call E.recorded _ h]
  exact Steps.suffix (E.recorded.run_checked_steps pick (k r) (E.recorded.next s o r))

end Env

end KCNet.Interaction
