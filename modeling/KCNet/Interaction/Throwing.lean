import KCNet.Interaction.Ensures

/-!
# Programs that throw

A program that may throw is a program that ends with a value or an exception. The guarantee of
such a program is that of the underlying one; these rules let it be computed along `>>=` and
through the scopes of objects whose destructors run on every way out.
-/

namespace KCNet.Interaction

universe u v w

variable {Op : Type u} {Res : Op → Type v} {W : Type w} {ε α β : Type w}

/-- Programs that end with a value or throw an `ε`. -/
abbrev Throwing (Op : Type u) (Res : Op → Type v) (ε α : Type w) :=
  ExceptT ε (Program Op Res) α

namespace Program

variable {E : Env Op Res W} {G : W → (o : Op) → Res o → Prop}

/-- The continuation of a program that may have thrown. -/
def onOk (Q : α → W → Prop) (R : ε → W → Prop) : Except ε α → W → Prop
  | .ok a, w => Q a w
  | .error e, w => R e w

@[simp] theorem onOk_ok (Q : α → W → Prop) (R : ε → W → Prop) (a : α) (w : W) :
    onOk Q R (.ok a) w ↔ Q a w := Iff.rfl

@[simp] theorem ensures_run_pure (a : α) (Q : Except ε α → W → Prop) (w : W) :
    Ensures E G (pure a : Throwing Op Res ε α).run Q w ↔ Q (.ok a) w := Iff.rfl

@[simp] theorem ensures_run_throw (e : ε) (Q : Except ε α → W → Prop) (w : W) :
    Ensures E G (throw e : Throwing Op Res ε α).run Q w ↔ Q (.error e) w := Iff.rfl

@[simp] theorem ensures_run_mk (p : Program Op Res (Except ε α)) (Q : Except ε α → W → Prop)
    (w : W) : Ensures E G (ExceptT.mk p : Throwing Op Res ε α).run Q w ↔ Ensures E G p Q w :=
  Iff.rfl

/-- After an exception the rest is skipped. -/
@[simp] theorem ensures_run_bind (p : Throwing Op Res ε α) (f : α → Throwing Op Res ε β)
    (Q : Except ε β → W → Prop) (w : W) :
    Ensures E G (p >>= f).run Q w ↔
      Ensures E G p.run
        (onOk (fun a w => Ensures E G (f a).run Q w) fun e w => Q (.error e) w) w := by
  rw [ExceptT.run_bind, ensures_bind]
  constructor
  · exact fun h => h.post fun r w hr => by cases r <;> exact hr
  · exact fun h => h.post fun r w hr => by cases r <;> exact hr

/-- The rule for calling a function that may throw. An exception ends the caller as well. -/
theorem Ensures.runSeq {p : Throwing Op Res ε α} {f : α → Throwing Op Res ε β}
    {P : Except ε α → W → Prop} {Q : Except ε β → W → Prop} {w : W} (h : Ensures E G p.run P w)
    (herror : ∀ e w, P (.error e) w → Q (.error e) w)
    (hok : ∀ a w, P (.ok a) w → Ensures E G (f a).run Q w) : Ensures E G (p >>= f).run Q w := by
  rw [ensures_run_bind]
  apply h.post
  intro r w hr
  cases r with
  | error e => exact herror e w hr
  | ok a => exact hok a w hr

@[simp] theorem ensures_run_ite (c : Prop) [Decidable c] (p p' : Throwing Op Res ε α)
    (Q : Except ε α → W → Prop) (w : W) :
    Ensures E G (if c then p else p').run Q w ↔
      (c → Ensures E G p.run Q w) ∧ (¬ c → Ensures E G p'.run Q w) :=
  ensures_ite c p.run p'.run Q w

end Program

section Run

variable {E : Env Op Res W} {pick : W → (o : Op) → Option (Res o)} {p : Throwing Op Res ε α}
  {w w' : W}

theorem run_bind_ok {a : α} (h : E.run pick p.run w = (w', .done (.ok a)))
    (f : α → Throwing Op Res ε β) :
    E.run pick (p >>= f).run w = E.run pick (f a).run w' := by
  rw [ExceptT.run_bind, Env.run_bind E pick h]

/-- An exception ends the run of the rest. -/
theorem run_bind_error {e : ε} (h : E.run pick p.run w = (w', .done (.error e)))
    (f : α → Throwing Op Res ε β) :
    E.run pick (p >>= f).run w = (w', .done (.error e)) := by
  rw [ExceptT.run_bind, Env.run_bind E pick h]
  rfl

/-- A value at the end of a sequence means that its first part has ended with a value. -/
theorem exists_run_of_bind_ok {f : α → Throwing Op Res ε β} {b : β}
    (h : E.run pick (p >>= f).run w = (w', .done (.ok b))) :
    ∃ a w'', E.run pick p.run w = (w'', .done (.ok a)) ∧
      E.run pick (f a).run w'' = (w', .done (.ok b)) := by
  rw [ExceptT.run_bind] at h
  obtain ⟨r, w'', hp, hf⟩ := E.exists_run_of_bind pick h
  cases r with
  | error e => cases hf
  | ok a => exact ⟨a, w'', hp, hf⟩

end Run

/-- Call one operation in a program that may throw. -/
def invoke {Op : Type u} {Res : Op → Type v} {ε : Type v} (o : Op) : Throwing Op Res ε (Res o) :=
  ExceptT.mk (Except.ok <$> perform o)

/-- The scope of an object: `destroy` runs however `body` ends. -/
def inScope {σ : Type w} (create : Throwing Op Res ε σ) (destroy : σ → Program Op Res PUnit)
    (body : σ → Throwing Op Res ε α) : Throwing Op Res ε α := do
  let obj ← create
  ExceptT.mk do
    let r ← (body obj).run
    destroy obj
    pure r

end KCNet.Interaction
