import KCNet.Interaction.Program

/-!
# Guarantees of programs and of loops

`Program.Ensures E G p Q w` says of the program `p` started in the world `w`: every operation it
completes satisfies `G` of the world before it, the operation and its answer, and when the
program is done, `Q` holds. It is computed by recursion on the program, it composes along `>>=`,
and it is sound for executions stopped anywhere and for loops that may never end.

## Main definitions

- `Program.Ensures` — the guarantee of one program
- `Program.Asks` — the operations that a program may ask for
- `Turn` — whether a loop goes round again
- `Env.Reach` — the configurations a loop passes through
-/

namespace KCNet.Interaction

universe u v w x

variable {Op : Type u} {Res : Op → Type v} {W : Type w} {α β : Type x}

namespace Program

/-- Every completed operation satisfies `G`, and the program ends in `Q`, if it ends. -/
def Ensures (E : Env Op Res W) (G : W → (o : Op) → Res o → Prop) :
    Program Op Res α → (α → W → Prop) → W → Prop
  | .done a, Q, w => Q a w
  | .call o k, Q, w => ∀ r, E.allowed w o r → G w o r ∧ Ensures E G (k r) Q (E.next w o r)

variable {E : Env Op Res W} {G G' : W → (o : Op) → Res o → Prop}

@[simp] theorem ensures_pure (a : α) (Q : α → W → Prop) (w : W) :
    Ensures E G (pure a : Program Op Res α) Q w ↔ Q a w := Iff.rfl

@[simp] theorem ensures_call (o : Op) (k : Res o → Program Op Res α) (Q : α → W → Prop) (w : W) :
    Ensures E G (.call o k) Q w ↔ ∀ r, E.allowed w o r →
      G w o r ∧ Ensures E G (k r) Q (E.next w o r) := Iff.rfl

theorem ensures_perform {Res : Op → Type v} {E : Env Op Res W} {G : W → (o : Op) → Res o → Prop}
    (o : Op) (Q : Res o → W → Prop) (w : W) :
    Ensures E G (perform o : Program Op Res (Res o)) Q w ↔ ∀ r, E.allowed w o r →
      G w o r ∧ Q r (E.next w o r) := Iff.rfl

@[simp] theorem ensures_ite (c : Prop) [Decidable c] (p p' : Program Op Res α)
    (Q : α → W → Prop) (w : W) :
    Ensures E G (if c then p else p') Q w ↔
      (c → Ensures E G p Q w) ∧ (¬ c → Ensures E G p' Q w) := by
  split
  · next h => simp [h]
  · next h => simp [h]

@[simp] theorem ensures_bind (p : Program Op Res α) (f : α → Program Op Res β)
    (Q : β → W → Prop) (w : W) :
    Ensures E G (p >>= f) Q w ↔ Ensures E G p (fun a w => Ensures E G (f a) Q w) w := by
  induction p generalizing w with
  | done a => rfl
  | call o k ih =>
    simp only [call_bind, ensures_call, ih]

@[simp] theorem ensures_map (g : α → β) (p : Program Op Res α) (Q : β → W → Prop) (w : W) :
    Ensures E G (g <$> p) Q w ↔ Ensures E G p (fun a w => Q (g a) w) w := by
  rw [map_eq_pure_bind, ensures_bind]
  rfl

/-- Consequence: more operations may happen and less is claimed at the end. -/
theorem Ensures.mono {p : Program Op Res α} {Q Q' : α → W → Prop} {w : W}
    (h : Ensures E G p Q w) (hG : ∀ w o r, E.allowed w o r → G w o r → G' w o r)
    (hQ : ∀ a w, Q a w → Q' a w) : Ensures E G' p Q' w := by
  induction p generalizing w with
  | done a => exact hQ a w h
  | call o k ih =>
    intro r hr
    obtain ⟨hg, hk⟩ := h r hr
    exact ⟨hG _ _ _ hr hg, ih r hk⟩

theorem Ensures.post {p : Program Op Res α} {Q Q' : α → W → Prop} {w : W}
    (h : Ensures E G p Q w) (hQ : ∀ a w, Q a w → Q' a w) : Ensures E G p Q' w :=
  h.mono (fun _ _ _ _ hg => hg) hQ

/-- Two guarantees of one program are one guarantee. -/
theorem Ensures.and {p : Program Op Res α} {Q Q' : α → W → Prop} {w : W}
    (h : Ensures E G p Q w) (h' : Ensures E G' p Q' w) :
    Ensures E (fun w o r => G w o r ∧ G' w o r) p (fun a w => Q a w ∧ Q' a w) w := by
  induction p generalizing w with
  | done a => exact ⟨h, h'⟩
  | call o k ih =>
    intro r hr
    obtain ⟨hg, hk⟩ := h r hr
    obtain ⟨hg', hk'⟩ := h' r hr
    exact ⟨⟨hg, hg'⟩, ih r hk hk'⟩

/-- The rule for calling a function whose guarantee is known. -/
theorem Ensures.seq {p : Program Op Res α} {f : α → Program Op Res β} {P : α → W → Prop}
    {Q : β → W → Prop} {w : W} (h : Ensures E G p P w)
    (hf : ∀ a b, P a b → Ensures E G (f a) Q b) : Ensures E G (p >>= f) Q w :=
  (ensures_bind p f Q w).2 (h.post hf)

/-- What the operations preserve holds before each of them and when the program is done. -/
theorem Ensures.maintain {I : W → Prop} {p : Program Op Res α} {Q : α → W → Prop} {w : W}
    (h : Ensures E G p Q w)
    (hI : ∀ w o r, E.allowed w o r → G w o r → I w → I (E.next w o r)) (hi : I w) :
    Ensures E (fun w o r => G w o r ∧ I w) p (fun a w => Q a w ∧ I w) w := by
  induction p generalizing w with
  | done a => exact ⟨h, hi⟩
  | call o k ih =>
    intro r hr
    obtain ⟨hg, hk⟩ := h r hr
    exact ⟨⟨hg, hi⟩, ih r hk (hI w o r hr hg hi)⟩

theorem Ensures.frame {I : W → Prop} {p : Program Op Res α} {Q : α → W → Prop} {w : W}
    (h : Ensures E G p Q w)
    (hI : ∀ w o r, E.allowed w o r → G w o r → I w → I (E.next w o r)) (hi : I w) :
    Ensures E G p (fun a w => Q a w ∧ I w) w :=
  (h.maintain hI hi).mono (fun _ _ _ _ hg => hg.1) fun _ _ hq => hq

theorem Ensures.step {p p' : Program Op Res α} {Q : α → W → Prop} {w w' : W}
    (h : Ensures E G p Q w) (hs : E.Step (w, p) (w', p')) : Ensures E G p' Q w' := by
  cases hs with
  | call _ o k r hr => exact (h r hr).2

/-- The guarantee holds of whatever is left of the program at any point. -/
theorem Ensures.steps {Q : α → W → Prop} {c c' : W × Program Op Res α}
    (h : Ensures E G c.2 Q c.1) (hs : E.Steps c c') : Ensures E G c'.2 Q c'.1 := by
  induction hs with
  | refl => exact h
  | tail _ hs ih => exact ih.step hs

/-- An invariant that the operations preserve holds at every point of an execution. -/
theorem Ensures.invariant {I : W → Prop} (hI : ∀ w o r, E.allowed w o r → G w o r → I w →
    I (E.next w o r)) {Q : α → W → Prop} {c c' : W × Program Op Res α}
    (h : Ensures E G c.2 Q c.1) (hi : I c.1) (hs : E.Steps c c') : I c'.1 := by
  induction hs with
  | refl => exact hi
  | tail hs hstep ih =>
    have hc := h.steps hs
    cases hstep with
    | call w o k r hr => exact hI w o r hr (hc r hr).1 ih

/-- Every operation that the program may ask for satisfies `P`, whatever the answers are. -/
def Asks (P : Op → Prop) : Program Op Res α → Prop
  | .done _ => True
  | .call o k => P o ∧ ∀ r, Asks P (k r)

theorem Asks.bind {P : Op → Prop} {p : Program Op Res α} {f : α → Program Op Res β}
    (h : Asks P p) (hf : ∀ a, Asks P (f a)) : Asks P (p >>= f) := by
  induction p with
  | done a => exact hf a
  | call o k ih => exact ⟨h.1, fun r => ih r (h.2 r)⟩

theorem Asks.steps {P : Op → Prop} {c c' : W × Program Op Res α} (h : Asks P c.2)
    (hs : E.Steps c c') : Asks P c'.2 := by
  induction hs with
  | refl => exact h
  | tail _ hs ih =>
    cases hs with
    | call _ o k r _ => exact ih.2 r

end Program

/-- How one turn of a loop ends. -/
inductive Turn (β : Type x) : Type x where
  | again : Turn β
  | halt (b : β) : Turn β

namespace Env

/-- A step of the loop that runs `body` anew whenever a turn ends with `again`. -/
inductive LoopStep (E : Env Op Res W) (body : Program Op Res (Turn β)) :
    W × Program Op Res (Turn β) → W × Program Op Res (Turn β) → Prop where
  | call (w : W) (o : Op) (k : Res o → Program Op Res (Turn β)) (r : Res o)
      (h : E.allowed w o r) : LoopStep E body (w, .call o k) (E.next w o r, k r)
  | again (w : W) : LoopStep E body (w, .done .again) (w, body)

/-- The runs of a loop, stopped anywhere. -/
abbrev Reach (E : Env Op Res W) (body : Program Op Res (Turn β)) :
    W × Program Op Res (Turn β) → W × Program Op Res (Turn β) → Prop :=
  Relation.ReflTransGen (E.LoopStep body)

variable {E : Env Op Res W} {G : W → (o : Op) → Res o → Prop} {body : Program Op Res (Turn β)}
  {Q : Turn β → W → Prop}

theorem Step.toLoopStep {c c' : W × Program Op Res (Turn β)} (h : E.Step c c') :
    E.LoopStep body c c' := by
  cases h with
  | call w o k r h => exact .call w o k r h

theorem Steps.toReach {c c' : W × Program Op Res (Turn β)} (h : E.Steps c c') :
    E.Reach body c c' := h.lift id fun _ _ hs => hs.toLoopStep

/-- A run only adds to the history. -/
theorem Reach.suffix {c c' : Recorded Op Res W × Program Op Res (Turn β)}
    (h : E.recorded.Reach body c c') : c.1.history <:+ c'.1.history := by
  induction h with
  | refl => exact List.suffix_rfl
  | tail _ hs ih =>
    cases hs with
    | call _ o k r _ => exact ih.trans (List.suffix_cons ..)
    | again _ => exact ih

/-- The first answer of a run can be read off its history. -/
theorem Reach.of_answer {s s' : Recorded Op Res W} {o : Op}
    {k : Res o → Program Op Res (Turn β)} {q : Program Op Res (Turn β)} {r : Res o}
    (h : E.recorded.Reach body (s, .call o k) (s', q)) (hr : ⟨o, r⟩ :: s.history <:+ s'.history) :
    E.allowed s.world o r ∧ E.recorded.Reach body (E.recorded.next s o r, k r) (s', q) := by
  rcases Relation.ReflTransGen.cases_head h with heq | ⟨c, hs, hrest⟩
  · -- the history has grown, so a step has been taken
    obtain rfl : s = s' := congrArg Prod.fst heq
    exact absurd hr.length_le (by simp)
  · cases hs with
    | call _ o k r' ha =>
      have heq := head_eq_of_suffix hr (Reach.suffix hrest)
      obtain rfl : r = r' := eq_of_heq (Event.mk.inj heq).2
      exact ⟨ha, hrest⟩

/-- The loop rule. If the postcondition of a turn that goes round again re-establishes the
guarantee of the body, then the guarantee holds of the rest of the turn at every point. -/
theorem Reach.ensures (hbody : ∀ w, Q .again w → Program.Ensures E G body Q w)
    {c c' : W × Program Op Res (Turn β)} (h : Program.Ensures E G c.2 Q c.1)
    (hr : E.Reach body c c') : Program.Ensures E G c'.2 Q c'.1 := by
  induction hr with
  | refl => exact h
  | tail _ hs ih =>
    cases hs with
    | call w o k r ha => exact (ih r ha).2
    | again w =>
      -- the turn is over, so its postcondition is what is left of the guarantee
      exact hbody w ih

/-- An invariant that the operations preserve holds at every point of every run. -/
theorem Reach.invariant {I : W → Prop} (hI : ∀ w o r, E.allowed w o r → G w o r → I w →
    I (E.next w o r)) (hbody : ∀ w, Q .again w → Program.Ensures E G body Q w)
    {c c' : W × Program Op Res (Turn β)} (h : Program.Ensures E G c.2 Q c.1) (hi : I c.1)
    (hr : E.Reach body c c') : I c'.1 := by
  induction hr with
  | refl => exact hi
  | tail hr hs ih =>
    have hc := Reach.ensures hbody h hr
    cases hs with
    | call w o k r ha => exact hI w o r ha (hc r ha).1 ih
    | again w => exact ih

/-- Run a loop against an oracle for at most `n` more turns. -/
def loopRun (E : Env Op Res W) (pick : W → (o : Op) → Option (Res o))
    (body : Program Op Res (Turn β)) :
    ℕ → W × Program Op Res (Turn β) → W × Program Op Res (Turn β)
  | n + 1, (w, .done .again) => loopRun E pick body n (E.run pick body w)
  | _, c => c

theorem loopRun_checked_reach (E : Env Op Res W) (pick : W → (o : Op) → Option (Res o))
    (body : Program Op Res (Turn β)) (n : ℕ) (c : W × Program Op Res (Turn β)) :
    E.Reach body c (E.loopRun (E.checked pick) body n c) := by
  induction n generalizing c with
  | zero => exact .refl
  | succ n ih =>
    obtain ⟨w, p⟩ := c
    match p with
    | .done .again =>
      have hs : E.Reach body (w, body) _ := (E.run_checked_steps pick body w).toReach
      exact (Relation.ReflTransGen.head (.again w) hs).trans (ih _)
    | .done (.halt b) => exact .refl
    | .call o k => exact .refl

end Env

end KCNet.Interaction
