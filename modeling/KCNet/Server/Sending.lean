import KCNet.Server.Environment
import Mathlib.Tactic.Ring

/-!
# Sending

What `SendNonBlocking` does to the outside, for every way the kernel may take the bytes:
`SendEvents fd data k es` describes the events `es` of the loop when `k` bytes of `data` have been
taken, and `keeps_sendNonBlocking` is the rule by which callers use the function.
-/

namespace KCNet.Server

open Interaction

/-- The events of the send loop, the latest first, when `k` bytes of `data` have been taken. Every
`send` is handed exactly what is left. -/
inductive SendEvents (fd : ℤ) (data : Bytes) : ℕ → List Happening → Prop where
  | nil : SendEvents fd data 0 []
  | took {k : ℕ} {es : List Happening} (n : ℕ) (h : SendEvents fd data k es) (hn : 0 < n)
      (hle : k + n ≤ data.length) :
      SendEvents fd data (k + n) (⟨.send fd (data.drop k), .ok n⟩ :: es)
  | failed {k : ℕ} {es : List Happening} (e : Errno) (h : SendEvents fd data k es)
      (hk : k < data.length) : SendEvents fd data k (⟨.send fd (data.drop k), .error e⟩ :: es)
  | said {k : ℕ} {es : List Happening} (t : Bytes) (h : SendEvents fd data k es) :
      SendEvents fd data k (⟨.perror t, ()⟩ :: es)

/-- How the loop ends: everything was taken and no `send` failed, or the socket buffer is full and
the number of bytes taken is returned, or a `send` failed with another error. -/
inductive SendResult (fd : ℤ) (data : Bytes) (k : ℕ) : List Happening → ℤ → Prop where
  | all {es : List Happening} (hk : k = data.length) (hok : sendError fd es = none) :
      SendResult fd data k es k
  | full {es : List Happening} (e : Errno) (he : e = .EAGAIN ∨ e = .EWOULDBLOCK) :
      SendResult fd data k (⟨.send fd (data.drop k), .error e⟩ :: es) k
  | failed {es : List Happening} (e : Errno) (he : ¬ (e = .EAGAIN ∨ e = .EWOULDBLOCK)) :
      SendResult fd data k
        (⟨.perror (ascii "send"), ()⟩ :: ⟨.send fd (data.drop k), .error e⟩ :: es) (-1)

namespace SendEvents

variable {fd : ℤ} {data : Bytes} {k : ℕ} {es h : List Happening}

theorem le (he : SendEvents fd data k es) : k ≤ data.length := by
  induction he with
  | nil => exact Nat.zero_le _
  | took n _ _ hle => exact hle
  | failed _ _ _ ih => exact ih
  | said _ _ ih => exact ih

/-- The bytes taken are the first `k` of the data, in order. -/
theorem sentOn_append (he : SendEvents fd data k es) :
    sentOn fd (es ++ h) = sentOn fd h ++ data.take k := by
  induction he with
  | nil => simp
  | @took k es n _ _ hle ih =>
    rw [List.cons_append, sentOn, if_pos rfl, ih, List.append_assoc, List.take_add]
  | failed _ _ _ ih => exact ih
  | said _ _ ih => exact ih

theorem sentOn_append_of_ne (he : SendEvents fd data k es) {fd' : ℤ} (hne : fd' ≠ fd) :
    sentOn fd' (es ++ h) = sentOn fd' h := by
  induction he with
  | nil => rfl
  | took n _ _ _ ih => rw [List.cons_append, sentOn, if_neg hne.symm, ih]
  | failed _ _ _ ih => exact ih
  | said _ _ ih => exact ih

/-- A reading of the history that overlooks `send` and `perror` overlooks the loop. -/
theorem overlook {α : Type} {f : List Happening → α} (he : SendEvents fd data k es)
    (hs : ∀ fd buf r h, f (⟨.send fd buf, r⟩ :: h) = f h)
    (hp : ∀ t h, f (⟨.perror t, ()⟩ :: h) = f h) : f (es ++ h) = f h := by
  induction he with
  | nil => rfl
  | took n _ _ _ ih => exact (hs _ _ _ _).trans ih
  | failed _ _ _ ih => exact (hs _ _ _ _).trans ih
  | said _ _ ih => exact (hp _ _).trans ih

theorem phase_append (he : SendEvents fd data k es) : phase (es ++ h) = phase h :=
  he.overlook (fun _ _ r _ => by cases r <;> rfl) fun _ _ => rfl

theorem acceptedFrom_append (he : SendEvents fd data k es) (fd' : ℤ) :
    acceptedFrom fd' (es ++ h) = acceptedFrom fd' h :=
  he.overlook (fun _ _ r _ => by cases r <;> rfl) fun _ _ => rfl

theorem bannedSeen_append (he : SendEvents fd data k es) : bannedSeen (es ++ h) = bannedSeen h :=
  he.overlook (fun _ _ r _ => by cases r <;> rfl) fun _ _ => rfl

theorem lines_append (he : SendEvents fd data k es) : lines (es ++ h) = lines h :=
  he.overlook (fun _ _ r _ => by cases r <;> rfl) fun _ _ => rfl

end SendEvents

/-- A state with more history in an unchanged world. -/
def State.append (s : State) (es : List Happening) : State := ⟨s.world, es ++ s.history⟩

@[simp] theorem State.append_world (s : State) (es : List Happening) :
    (s.append es).world = s.world := rfl

@[simp] theorem State.append_history (s : State) (es : List Happening) :
    (s.append es).history = es ++ s.history := rfl

section SendRule

variable {G : State → (o : SysOp) → o.Res → Prop} {Q : ℤ → State → Prop} {s : State} {fd : ℤ}
  {buf : Bytes} {len : ℕ}

/-- The send loop from any point of it. The induction is on the bytes that are left. -/
theorem keeps_sendLoop (hlen : len ≤ buf.length)
    (hsend : ∀ k es, SendEvents fd (buf.take len) k es → k < len → ∀ r,
      G (s.append es) (.send fd ((buf.take len).drop k)) r)
    (hsay : ∀ k es, SendEvents fd (buf.take len) k es →
      G (s.append es) (.perror (ascii "send")) ())
    (hQ : ∀ k es r, SendEvents fd (buf.take len) k es → SendResult fd (buf.take len) k es r →
      Q r (s.append es))
    (gas k : ℕ) (es : List Happening) (he : SendEvents fd (buf.take len) k es)
    (hok : sendError fd es = none) (hgas : len - k ≤ gas) :
    Keeps G (TcpServer.sendLoop fd buf len gas k) Q (s.append es) := by
  have hdata : (buf.take len).length = len := by simp [hlen]
  induction gas generalizing k es with
  | zero =>
    have hk := he.le
    exact hQ k es k he (.all (by omega) hok)
  | succ gas ih =>
    unfold TcpServer.sendLoop
    split
    · next hlt =>
      refine (Program.ensures_bind ..).2 (keeps_send _ _ _ (hsend k es he hlt) ?_ ?_)
      · -- the kernel takes `n` more bytes
        intro n _ hn hle
        have hle' : k + n ≤ (buf.take len).length := by
          rw [List.length_drop] at hle
          omega
        exact ih (k + n) _ (he.took n hn hle') hok (by omega)
      · intro e _
        have hf := he.failed e (hlt.trans_eq hdata.symm)
        by_cases hfull : e = .EAGAIN ∨ e = .EWOULDBLOCK
        · -- the socket buffer is full, and the loop gives up
          have hw : (s.append es).after (.send fd ((buf.take len).drop k)) (.error e) =
              s.append (⟨.send fd ((buf.take len).drop k), .error e⟩ :: es) := by
            rcases hfull with rfl | rfl <;> rfl
          simp only [if_pos hfull, Program.ensures_pure, hw]
          exact hQ k _ k hf (.full e hfull)
        · simp only [if_neg hfull, Program.ensures_bind]
          apply (keeps_perror _ _).2
          intro ha
          -- had it been `EPIPE`, the process would not get as far as `perror`
          have hw : (s.append es).after (.send fd ((buf.take len).drop k)) (.error e) =
              s.append (⟨.send fd ((buf.take len).drop k), .error e⟩ :: es) := by
            cases e <;> first | rfl | cases ha
          rw [hw]
          exact ⟨hsay k _ hf, hQ k _ (-1) (hf.said _) (.failed e hfull)⟩
    · next hge =>
      have hk := he.le
      exact hQ k es k he (.all (by omega) hok)

/-- The rule for `SendNonBlocking`. -/
theorem keeps_sendNonBlocking (hlen : len ≤ buf.length)
    (hsend : ∀ k es, SendEvents fd (buf.take len) k es → k < len → ∀ r,
      G (s.append es) (.send fd ((buf.take len).drop k)) r)
    (hsay : ∀ k es, SendEvents fd (buf.take len) k es →
      G (s.append es) (.perror (ascii "send")) ())
    (hQ : ∀ k es r, SendEvents fd (buf.take len) k es → SendResult fd (buf.take len) k es r →
      Q r (s.append es)) :
    Keeps G (TcpServer.sendNonBlocking fd buf len) Q s :=
  keeps_sendLoop hlen hsend hsay hQ len 0 [] .nil rfl (Nat.sub_le _ _)

end SendRule

end KCNet.Server
