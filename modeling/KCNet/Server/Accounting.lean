import KCNet.Server.Sending

/-!
# Accounting for the bytes of `SendNonBlocking`

What a call of `SendNonBlocking` has done to the connection at any point of it, and what its result
says about that, whichever way the kernel splits the write or ends it.
-/

namespace KCNet.Server

open Interaction TcpServer

/-- How many `send` calls have taken bytes. -/
@[simp] def sends : List Happening → ℕ
  | [] => 0
  | ⟨.send .., .ok _⟩ :: h => sends h + 1
  | _ :: h => sends h

variable {s s' : State} {fd : ℤ} {buf data : Bytes} {len k : ℕ} {es : List Happening} {r : ℤ}

namespace SendEvents

theorem sentOn_eq (he : SendEvents fd data k es) : sentOn fd es = data.take k := by
  have h := he.sentOn_append (h := [])
  rwa [List.append_nil, sentOn, List.nil_append] at h

/-- Every successful call has taken at least one byte. -/
theorem sends_le (he : SendEvents fd data k es) : sends es ≤ k := by
  induction he with
  | nil => exact le_rfl
  | took n _ hn _ ih =>
    rw [sends]
    omega
  | failed _ _ _ ih => exact ih
  | said _ _ ih => exact ih

/-- What a call is handed is what the calls before it have left over. -/
theorem handed (he : SendEvents fd data k es) {es₀ : List Happening} {fd' : ℤ} {d : Bytes}
    {r : Except Errno ℕ} (h : ⟨.send fd' d, r⟩ :: es₀ <:+ es) :
    fd' = fd ∧ d ≠ [] ∧ sentOn fd es₀ ++ d = data := by
  -- the call that was handed the bytes from `k` on
  have hlatest {k : ℕ} {es : List Happening} {r' : Except Errno ℕ} (he : SendEvents fd data k es)
      (hk : k < data.length)
      (h : (⟨.send fd' d, r⟩ :: es₀ : List Happening) = ⟨.send fd (data.drop k), r'⟩ :: es) :
      fd' = fd ∧ d ≠ [] ∧ sentOn fd es₀ ++ d = data := by
    obtain ⟨hevent, rfl⟩ := List.cons.inj h
    obtain ⟨rfl, rfl⟩ := SysOp.send.inj (Event.mk.inj hevent).1
    refine ⟨rfl, ?_, ?_⟩
    · rw [← List.length_pos_iff, List.length_drop]
      omega
    · rw [he.sentOn_eq, List.take_append_drop]
  induction he with
  | nil => cases List.suffix_nil.1 h
  | took n he hn hle ih =>
    rcases List.suffix_cons_iff.1 h with h | h
    · exact hlatest he (by omega) h
    · exact ih h
  | failed e he hk ih =>
    rcases List.suffix_cons_iff.1 h with h | h
    · exact hlatest he hk h
    · exact ih h
  | said t he ih =>
    rcases List.suffix_cons_iff.1 h with h | h
    · cases h
    · exact ih h

/-- A call that fails was handed something. -/
theorem lt_of_failed (he : SendEvents fd data k es) {e : Errno} {es₀ : List Happening}
    (h : ⟨.send fd (data.drop k), .error e⟩ :: es₀ <:+ es) : k < data.length := by
  have hleft := (he.handed h).2.1
  rwa [Ne, List.drop_eq_nil_iff, not_le] at hleft

/-- The errors of the loop are those on the connection if there was none before. -/
theorem sendError_append (he : SendEvents fd data k es) {h : List Happening}
    (hu : sendError fd h = none) : sendError fd (es ++ h) = sendError fd es := by
  induction he with
  | nil => exact hu
  | took _ _ _ _ ih => exact ih
  | failed e _ _ _ => rw [List.cons_append, sendError, sendError, if_pos rfl, if_pos rfl]
  | said _ _ ih => exact ih

end SendEvents

/-- Everything has been taken unless an error has ended the loop. -/
theorem SendResult.all_iff (hr : SendResult fd data k es r) (he : SendEvents fd data k es) :
    k = data.length ↔ sendError fd es = none := by
  cases hr with
  | all hk hok => exact iff_of_true hk hok
  | full e hfull => exact iff_of_false (he.lt_of_failed List.suffix_rfl).ne (by simp)
  | failed e hne => exact iff_of_false (he.lt_of_failed (List.suffix_cons ..)).ne (by simp)

/-- The result tells which error has ended the loop, if one has. -/
theorem SendResult.error_iff (hr : SendResult fd data k es r) (he : SendEvents fd data k es) :
    (0 ≤ r → r = k) ∧ (r = data.length ↔ sendError fd es = none) ∧
      (r = -1 ↔ ∃ e, sendError fd es = some e ∧ ¬ (e = .EAGAIN ∨ e = .EWOULDBLOCK)) := by
  have hall := hr.all_iff he
  cases hr with
  | all hk hok =>
    refine ⟨fun _ => rfl, by rw [← hall, Nat.cast_inj], ?_⟩
    rw [hok]
    exact iff_of_false (by omega) (by simp)
  | full e hfull =>
    refine ⟨fun _ => rfl, by rw [← hall, Nat.cast_inj], ?_⟩
    refine iff_of_false (by omega) ?_
    rintro ⟨e', he', hne⟩
    simp only [sendError, if_true, Option.some.injEq] at he'
    exact hne (he' ▸ hfull)
  | failed e hne =>
    have herr (h : List Happening) : sendError fd (⟨.perror (ascii "send"), ()⟩ ::
        ⟨.send fd (data.drop k), .error e⟩ :: h) = some e := by simp
    refine ⟨fun h => by omega, ?_, ?_⟩
    · rw [herr]
      exact iff_of_false (by omega) (by simp)
    · rw [herr]
      exact iff_of_true rfl ⟨e, rfl, hne⟩

/-- What every operation of the call does: it sends what is left, or says what has gone wrong. -/
def Sending (fd : ℤ) (data : Bytes) (s₀ s : State) : (o : SysOp) → o.Res → Prop
  | .send fd' d, _ => ∃ k es, s.history = es ++ s₀.history ∧ SendEvents fd data k es ∧
      k < data.length ∧ fd' = fd ∧ d = data.drop k
  | .perror _, _ => ∃ k es, s.history = es ++ s₀.history ∧ SendEvents fd data k es
  | _, _ => False

theorem sendNonBlocking_sending (hlen : len ≤ buf.length) :
    Keeps (Sending fd (buf.take len) s) (sendNonBlocking fd buf len) (fun r s' => ∃ k es,
      s'.history = es ++ s.history ∧ SendEvents fd (buf.take len) k es ∧
        SendResult fd (buf.take len) k es r) s := by
  apply keeps_sendNonBlocking hlen
  · intro k es he hk r
    exact ⟨k, es, rfl, he, by simpa [hlen] using hk, rfl, rfl⟩
  · intro k es he
    exact ⟨k, es, rfl, he⟩
  · intro k es r he hr
    exact ⟨k, es, rfl, he, hr⟩

/-- At any point of the call the events are those of the send loop. -/
theorem exists_sendEvents (hlen : len ≤ buf.length) {q : Sys ℤ}
    (h : serverEnv.recorded.Steps (s, sendNonBlocking fd buf len) (s', q)) :
    ∃ k es, s'.history = es ++ s.history ∧ SendEvents fd (buf.take len) k es := by
  refine (sendNonBlocking_sending hlen).invariant (I := fun s' => ∃ k es,
    s'.history = es ++ s.history ∧ SendEvents fd (buf.take len) k es) ?_ ⟨0, [], rfl, .nil⟩ h
  intro w o r ha hg _
  simp only [serverEnv, Env.recorded_allowed, Bool.and_eq_true] at ha
  cases o with
  | send fd' d =>
    obtain ⟨k, es, hh, he, hk, rfl, rfl⟩ := hg
    cases r with
    | error e => exact ⟨k, _, congrArg _ hh, he.failed e hk⟩
    | ok n =>
      simp only [answers, Bool.and_eq_true, decide_eq_true_eq, List.length_drop] at ha
      exact ⟨k + n, _, congrArg _ hh, he.took n ha.2.1.2 (by omega)⟩
  | perror t =>
    obtain ⟨k, es, hh, he⟩ := hg
    exact ⟨k, _, congrArg _ hh, he.said t⟩
  | _ => exact hg.elim

/-- The loop asks for nothing but `send`, and says what has gone wrong at most. -/
theorem sendLoop_asks (fd : ℤ) (buf : Bytes) (len gas sent : ℕ) :
    (sendLoop fd buf len gas sent).Asks fun o =>
      (∃ d, o = .send fd d) ∨ o = .perror (ascii "send") := by
  induction gas generalizing sent with
  | zero => trivial
  | succ gas ih =>
    unfold sendLoop
    split
    · refine Program.Asks.bind ⟨.inl ⟨_, rfl⟩, fun _ => trivial⟩ fun r => ?_
      cases r with
      | ok n => exact ih (sent + n)
      | error e =>
        dsimp only
        split
        · trivial
        · exact ⟨.inr rfl, fun _ => trivial⟩
    · trivial

/-- An unfinished call of a process that is alive waits for a `send` of all that is left, or for
the line that says what has gone wrong. -/
theorem sendNonBlocking_pending (hlen : len ≤ buf.length) {o : SysOp} {c : o.Res → Sys ℤ}
    (h : serverEnv.recorded.Steps (s, sendNonBlocking fd buf len) (s', .call o c))
    (halive : s'.world.alive = true) (hh : s'.history = es ++ s.history) :
    (sentOn fd es).length < len ∧ o = .send fd ((buf.take len).drop (sentOn fd es).length) ∨
      o = .perror (ascii "send") := by
  have hdata : (buf.take len).length = len := by simp [hlen]
  refine ((sendLoop_asks fd buf len len 0).steps h).1.imp_left ?_
  rintro ⟨d, rfl⟩
  -- a full buffer is always a possible answer
  have hallowed : serverEnv.recorded.allowed s' (.send fd d) (.error .EAGAIN) := by
    simp [serverEnv, answers, halive]
  obtain ⟨k, es', hh', he, hk, -, rfl⟩ := ((sendNonBlocking_sending hlen).steps h _ hallowed).1
  obtain rfl : es' = es := List.append_cancel_right (hh'.symm.trans hh)
  have hlength : (sentOn fd es').length = k := by
    rw [he.sentOn_eq, List.length_take, Nat.min_eq_left he.le]
  rw [hlength]
  exact ⟨hk.trans_eq hdata, rfl⟩

/-- `SendNonBlocking` accounts for every byte. At any point of a call the kernel has taken a prefix
of the `len` bytes, with at most `len` successful calls, and each call has been handed the bytes
that the calls before it had left over. As long as the process is alive and the call has not
returned, it waits for the kernel to take all that is left, or for the error message. A result that
is not negative is the length of that prefix; it is `len` unless an error has ended the loop, and
`-1` if that error was not a full buffer. -/
theorem sendNonBlocking_accounts (hlen : len ≤ buf.length) {q : Sys ℤ}
    (h : serverEnv.recorded.Steps (s, sendNonBlocking fd buf len) (s', q)) :
    ∃ es, s'.history = es ++ s.history ∧
      sentOn fd s'.history = sentOn fd s.history ++ sentOn fd es ∧
      sentOn fd es <+: buf.take len ∧ sends es ≤ len ∧
      (∀ es₀ fd' d r, ⟨.send fd' d, r⟩ :: es₀ <:+ es →
        fd' = fd ∧ d ≠ [] ∧ sentOn fd es₀ ++ d = buf.take len) ∧
      (∀ o c, q = .call o c → s'.world.alive = true →
        (sentOn fd es).length < len ∧ o = .send fd ((buf.take len).drop (sentOn fd es).length) ∨
          o = .perror (ascii "send")) ∧
      ∀ r, q = .done r → (0 ≤ r → r = (sentOn fd es).length) ∧
        (r = len ↔ sendError fd es = none) ∧
        (r = -1 ↔ ∃ e, sendError fd es = some e ∧ ¬ (e = .EAGAIN ∨ e = .EWOULDBLOCK)) := by
  obtain ⟨k, es, hh, he⟩ := exists_sendEvents hlen h
  have hdata : (buf.take len).length = len := by simp [hlen]
  refine ⟨es, hh, ?_, ?_, he.sends_le.trans (he.le.trans_eq hdata), fun es₀ fd' d r hs =>
    he.handed hs, ?_, ?_⟩
  · rw [hh, he.sentOn_append, he.sentOn_eq]
  · rw [he.sentOn_eq]
    exact List.take_prefix ..
  · rintro o c rfl halive
    exact sendNonBlocking_pending hlen h halive hh
  · rintro r rfl
    obtain ⟨k', es', hh', he', hr⟩ := (sendNonBlocking_sending hlen).steps h
    obtain rfl : es' = es := List.append_cancel_right (hh'.symm.trans hh)
    have hk : (sentOn fd es').length = k' := by
      rw [he'.sentOn_eq, List.length_take, Nat.min_eq_left he'.le]
    have herr := hr.error_iff he'
    rwa [hdata, ← hk] at herr

/-- A process with one connection, and nothing done yet. -/
def connectedOn (fd : ℤ) (peer : InAddr) : State :=
  ⟨⟨⟨true, .zero, true⟩, fun fd' => if fd' = fd then some (.connection peer) else none, true⟩, []⟩

/-- The kernel takes two bytes and then has no room. -/
def roomForTwo (s : State) : (o : SysOp) → Option o.Res
  | .send _ _ => some (if sends s.history = 0 then .ok 2 else .error .EAGAIN)
  | _ => none

/-- A call that is to send three bytes there. -/
def twoOfThree : State × Sys ℤ :=
  serverEnv.recorded.run (serverEnv.recorded.checked roomForTwo) (sendNonBlocking 4 [1, 2, 3] 3)
    (connectedOn 4 ⟨10, 0, 0, 1⟩)

/-- Two bytes of three are taken, and the result says so. -/
theorem sendNonBlocking_accounts_two :
    twoOfThree.2 = .done 2 ∧ ∃ es, twoOfThree.1.history = es ++ [] ∧
      sentOn 4 twoOfThree.1.history = sentOn 4 es ∧ sentOn 4 es <+: [1, 2, 3] ∧ sends es ≤ 3 ∧
      2 = ((sentOn 4 es).length : ℤ) ∧ sendError 4 es ≠ none := by
  have hrun : serverEnv.recorded.Steps
      (connectedOn 4 ⟨10, 0, 0, 1⟩, sendNonBlocking 4 [1, 2, 3] 3) twoOfThree :=
    Env.run_checked_steps serverEnv.recorded roomForTwo _ _
  obtain ⟨es, hes, hsent, hprefix, hsends, -, -, hresult⟩ :=
    sendNonBlocking_accounts (by decide) hrun
  obtain ⟨htaken, hall, -⟩ := hresult 2 rfl
  exact ⟨rfl, es, hes, hsent, hprefix, hsends, htaken (by decide), hall.not.1 (by decide)⟩

end KCNet.Server
