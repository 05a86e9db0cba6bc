import KCNet.Client.Contract

/-!
# The random message

What `ConnectToServer` sends as its random message. `GenerateRandom` has two ways to report a
failure: what it calls throws, but when its own `open` or `read` fails it returns the text of the
error, and the caller sends that text to the server like any other value.

## Main definitions

- `handed` — the messages handed to `send`
- `OwnFailure` — `GenerateRandom` has failed by itself
- `Genuine` — a random message has been sent, or nothing has and the caller knows
-/

namespace KCNet.Client

open Interaction TcpClient

/-- The messages that have been handed to `send`, the latest first. -/
@[simp] def handed : List Happening → List Bytes
  | [] => []
  | ⟨.send _ buf, _⟩ :: h => buf :: handed h
  | _ :: h => handed h

/-- In the call that starts in `s`, the constructor has opened the device, and then the `open` of
`GenerateRandom` has failed, or its `read` has not delivered what it asks for. -/
def OwnFailure (s s' : State) : Prop :=
  ∃ fd, (∃ e, ⟨.openUrandom, .error e⟩ :: ⟨.openUrandom, .ok fd⟩ :: s.history <:+ s'.history) ∨
    ∃ fd' got, got.toOption.map List.length ≠ some Urandom.randomBytes ∧
      ⟨.read fd' Urandom.randomBytes, got⟩ :: ⟨.openUrandom, .ok fd'⟩ :: ⟨.openUrandom, .ok fd⟩ ::
        s.history <:+ s'.history

/-- A call that ends with `r` has handed one random message to `send`, or none and it throws. -/
def Genuine (s : State) (r : Except Thrown ℤ) (s' : State) : Prop :=
  (∃ m, handed s'.history = m :: handed s.history ∧ Mixed 4 10 4 m) ∨
    handed s'.history = handed s.history ∧ ∃ e, r = .error e

/-! ## The first answers decide -/

/-- From `s₁` on it is settled whether `GenerateRandom` has failed by itself. -/
def Decided (s s₁ : State) (b : Prop) : Prop :=
  ∀ s', s₁.history <:+ s'.history → (OwnFailure s s' ↔ b)

variable {s s₁ s' : State} {b : Prop} {fd fd' : ℤ}

theorem Decided.mono (h : Decided s s₁ b) (hs : s₁.history <:+ s'.history) : Decided s s' b :=
  fun _ hs' => h _ (hs.trans hs')

theorem Decided.congr {b' : Prop} (h : Decided s s₁ b) (hb : b ↔ b') : Decided s s₁ b' :=
  fun _ hs => (h _ hs).trans hb

theorem decided_constructor {e : Errno} (h : s₁.history = ⟨.openUrandom, .error e⟩ :: s.history) :
    Decided s s₁ False := by
  intro s' hs
  rw [h] at hs
  refine iff_false_intro ?_
  rintro ⟨fd, ⟨e', hopen⟩ | ⟨fd', got, -, hread⟩⟩
  · cases Env.head_eq_of_suffix hs ((List.suffix_cons ..).trans hopen)
  · cases Env.head_eq_of_suffix hs
      ((List.suffix_cons ..).trans ((List.suffix_cons ..).trans hread))

theorem decided_open {e : Errno}
    (h : s₁.history = ⟨.openUrandom, .error e⟩ :: ⟨.openUrandom, .ok fd⟩ :: s.history) :
    Decided s s₁ True := by
  intro s' hs
  rw [h] at hs
  exact iff_true_intro ⟨fd, .inl ⟨e, hs⟩⟩

theorem decided_read {got : Except Errno Bytes}
    (h : s₁.history = ⟨.read fd' Urandom.randomBytes, got⟩ :: ⟨.openUrandom, .ok fd'⟩ ::
      ⟨.openUrandom, .ok fd⟩ :: s.history) :
    Decided s s₁ (got.toOption.map List.length ≠ some Urandom.randomBytes) := by
  intro s' hs
  rw [h] at hs
  constructor
  · rintro ⟨fd₁, ⟨e, hopen⟩ | ⟨fd₂, got', hgot, hread⟩⟩
    · cases Env.head_eq_of_suffix ((List.suffix_cons ..).trans ((List.suffix_cons ..).trans hs))
        ((List.suffix_cons ..).trans hopen)
      cases Env.head_eq_of_suffix ((List.suffix_cons ..).trans hs) hopen
    · cases Env.head_eq_of_suffix ((List.suffix_cons ..).trans ((List.suffix_cons ..).trans hs))
        ((List.suffix_cons ..).trans ((List.suffix_cons ..).trans hread))
      cases Env.head_eq_of_suffix ((List.suffix_cons ..).trans hs)
        ((List.suffix_cons ..).trans hread)
      cases Env.head_eq_of_suffix hs hread
      exact hgot
  · intro hgot
    exact ⟨fd, .inr ⟨fd', got, hgot, hs⟩⟩

/-! ## One call -/

/-- The guarantee of each operation: at most one message is sent, when it is settled whether
`GenerateRandom` has failed by itself, and it is a random message if and only if it has not. -/
def Hands (s s₁ : State) : (o : SysOp) → o.Res → Prop
  | .send _ buf, _ => handed s₁.history = handed s.history ∧
      ∃ b, Decided s s₁ b ∧ (Mixed 4 10 4 buf ↔ ¬ b)
  | _, _ => True

/-- The call is genuine unless `GenerateRandom` has failed by itself, which is settled. -/
def Resolved (s : State) (r : Except Thrown ℤ) (s₁ : State) : Prop :=
  ∃ b, Decided s s₁ b ∧ (Genuine s r s₁ ↔ ¬ b)

/-- `s'` comes after `s₁`, and nothing has been sent in between. -/
structure Unsent (s₁ s' : State) : Prop where
  suffix : s₁.history <:+ s'.history
  handed : handed s'.history = handed s₁.history

theorem Resolved.unsent {r : Except Thrown ℤ} (h : Resolved s r s₁) (hu : Unsent s₁ s') :
    Resolved s r s' := by
  obtain ⟨b, hb, hiff⟩ := h
  refine ⟨b, hb.mono hu.suffix, ?_⟩
  rwa [Genuine, hu.handed]

/-- A part that sends nothing. -/
theorem keeps_unsent {α : Type} {p : Program SysOp SysOp.Res α} {Q : α → State → Prop}
    {G : State → (o : SysOp) → o.Res → Prop} (h : p.Ensures clientEnv.recorded G Q s₁)
    (hG : ∀ s fd buf r, ¬ G s (.send fd buf) r) :
    p.Ensures clientEnv.recorded (Hands s) (fun a s' => Q a s' ∧ Unsent s₁ s') s₁ := by
  refine (h.frame (I := Unsent s₁) (fun w o r _ hg hu => ?_) ⟨List.suffix_rfl, rfl⟩).mono
    (fun w o r _ hg => ?_) fun _ _ hq => hq
  · refine ⟨hu.suffix.trans (List.suffix_cons ..), ?_⟩
    cases o with
    | send fd buf => exact absurd hg (hG w fd buf r)
    | _ => exact hu.handed
  · cases o with
    | send fd buf => exact absurd hg (hG w fd buf r)
    | _ => trivial

/-- The operations that send nothing. -/
def Silent (_ : State) : (o : SysOp) → o.Res → Prop
  | .send .., _ => False
  | _, _ => True

theorem createTcpClient_silent (ip : Bytes) (port : ℕ) :
    Keeps Silent (createTcpClient ip port) (fun r _ => ∃ sock, r = .ok sock) s := by
  simp only [createTcpClient, Program.ensures_run_bind, keeps_socket, Program.onOk_ok]
  intro r _ _
  refine ⟨trivial, ?_⟩
  cases r with
  | error e =>
    simp only [Program.ensures_run_bind, keeps_messageBox, Program.onOk_ok, keeps_exit, and_true]
    exact fun _ => trivial
  | ok fd =>
    simp only [Program.ensures_run_bind, keeps_inetPton, Program.onOk_ok, Program.ensures_run_ite,
      keeps_connect, keeps_messageBox, keeps_close, Program.ensures_run_pure]
    intro valid _
    refine ⟨trivial, fun _ => ?_, fun _ => ?_⟩
    · intro r _ _
      refine ⟨trivial, ?_⟩
      cases r with
      | error e =>
        simp only [Program.ensures_run_bind, keeps_messageBox, keeps_close, Program.onOk_ok,
          Program.ensures_run_pure]
        exact fun _ => ⟨trivial, fun _ => ⟨trivial, -1, rfl⟩⟩
      | ok u => exact ⟨fd, rfl⟩
    · exact fun _ => ⟨trivial, fun _ => ⟨trivial, -1, rfl⟩⟩

theorem awaitReply_silent (sock : ℤ) :
    Keeps Silent (awaitReply sock) (fun r _ => ∃ v, r = .ok v) s := by
  simp only [awaitReply, Program.ensures_run_bind, keeps_recv, Program.onOk_ok]
  intro r _ _
  refine ⟨trivial, ?_⟩
  cases r with
  | error e =>
    simp only [Program.ensures_run_bind, keeps_close, Program.onOk_ok, Program.ensures_run_pure]
    exact fun _ => ⟨trivial, _, rfl⟩
  | ok reply =>
    simp only [verdict, logOutput, Program.ensures_run_ite, Program.ensures_run_bind, keeps_close,
      keeps_stdout, Program.onOk_ok, Program.ensures_run_pure]
    exact ⟨fun _ => ⟨fun _ _ => ⟨trivial, _, rfl⟩, fun _ _ => ⟨trivial, _, rfl⟩⟩,
      fun _ _ => ⟨trivial, _, rfl⟩⟩

/-- Once there is a value, it is sent. -/
theorem sendValue_resolved {value : Bytes} (hdec : Decided s s₁ b)
    (hh : handed s₁.history = handed s.history) (hv : cString value = value)
    (hm : Mixed 4 10 4 value ↔ ¬ b) :
    Keeps (Hands s) (do
        let sock ← createTcpClient serverIp serverPort
        sendCommand .URANDOM_MESSAGE sock value
        awaitReply sock)
      (Resolved s) s₁ := by
  simp only [Program.ensures_run_bind]
  apply (keeps_unsent (createTcpClient_silent serverIp serverPort) fun _ _ _ _ h => h).post
  rintro r s2 ⟨⟨sock, rfl⟩, hu⟩
  have hdec2 := hdec.mono hu.suffix
  simp only [Program.onOk_ok, sendCommand, sendMessageToServer, Program.ensures_run_bind,
    keeps_send, Program.ensures_run_pure, hv]
  intro r _ _
  refine ⟨⟨hu.handed.trans hh, b, hdec2, hm⟩, ?_⟩
  apply (keeps_unsent (awaitReply_silent sock) fun _ _ _ _ h => h).post
  rintro r' s3 ⟨⟨v, rfl⟩, hu3⟩
  refine Resolved.unsent ⟨b, hdec2.mono (List.suffix_cons ..), ?_⟩ hu3
  rw [← hm]
  constructor
  · rintro (⟨m, hm', hmixed⟩ | ⟨hnone, -⟩)
    · rw [State.after_history, handed, hu.handed, hh] at hm'
      rwa [(List.cons.inj hm').1]
    · rw [State.after_history, handed, hu.handed, hh] at hnone
      exact absurd (congrArg List.length hnone) (by simp)
  · intro hmixed
    refine .inl ⟨value, ?_, hmixed⟩
    rw [State.after_history, handed, hu.handed, hh]

/-- How `GenerateRandom` ends: it throws, and has not failed by itself, or it returns a value that
is a random message if and only if it has not. -/
structure Generated (s : State) (b : Prop) (r : Except Thrown Bytes) (s' : State) : Prop where
  unsent : handed s'.history = handed s.history
  decided : Decided s s' b
  value : ∀ v, r = .ok v → cString v = v ∧ (Mixed 4 10 4 v ↔ ¬ b)
  thrown : ∀ e, r = .error e → ¬ b

theorem not_mixed_failedToOpen : ¬ Mixed 4 10 4 Urandom.failedToOpen := fun h =>
  absurd h.length (by decide)

theorem not_mixed_failedToRead : ¬ Mixed 4 10 4 Urandom.failedToRead := fun h =>
  absurd h.length (by decide)

theorem generateRandom_generated (h₁ : s₁.history = ⟨.openUrandom, .ok fd⟩ :: s.history) :
    Keeps (Hands s) (Urandom.generateRandom 4 10 4) (fun r s' => ∃ b, Generated s b r s') s₁ := by
  -- an error text as the value of a call that has failed by itself
  have herror {s' : State} {text : Bytes} (hh : handed s'.history = handed s.history)
      (hdec : Decided s s' True) (htext : RandomValue (4 + 10 + 4) text)
      (hm : ¬ Mixed 4 10 4 text) : ∃ b, Generated s b (.ok text) s' :=
    ⟨True, { unsent := hh
             decided := hdec
             value := by
               rintro v ⟨⟩
               exact ⟨htext.cString_eq, iff_of_false hm (not_not_intro trivial)⟩
             thrown := fun e he => by cases he }⟩
  have hsent : handed s₁.history = handed s.history := by
    rw [h₁]
    rfl
  simp only [Urandom.generateRandom, Program.ensures_run_bind, keeps_openUrandom, Program.onOk_ok]
  intro r _ _
  refine ⟨trivial, ?_⟩
  cases r with
  | error e =>
    simp only [Program.ensures_run_bind, keeps_perror, Program.onOk_ok, Program.ensures_run_pure]
    refine fun _ => ⟨trivial, herror hsent ?_ (.inr (.inl rfl)) not_mixed_failedToOpen⟩
    have hdec : Decided s (s₁.after .openUrandom (.error e)) True :=
      decided_open (by rw [State.after_history, h₁])
    exact hdec.mono (List.suffix_cons ..)
  | ok fd' =>
    simp only [Program.ensures_run_bind, keeps_read, Program.onOk_ok, Program.ensures_run_ite,
      keeps_perror, keeps_close, Program.ensures_run_pure]
    intro got _ _
    have hdec := @decided_read s ((s₁.after .openUrandom (.ok fd')).after
      (.read fd' Urandom.randomBytes) got) fd fd' got (by simp only [State.after_history, h₁])
    refine ⟨trivial, fun hgot => ?_, fun hgot => ?_⟩
    · apply (keeps_unsent (generatePassword_returns 4 10 4) fun _ _ _ _ h => h).post
      rintro r s2 ⟨hr, hu⟩
      refine ⟨_, { unsent := hu.handed.trans hsent
                   decided := hdec.mono hu.suffix
                   value := fun v hv => ?_
                   thrown := fun _ _ => not_not_intro hgot }⟩
      have hmixed := hr v hv
      exact ⟨RandomValue.cString_eq (.inl hmixed.password), iff_of_true hmixed (not_not_intro hgot)⟩
    · intro _
      refine ⟨trivial, fun _ => ⟨trivial, ?_⟩⟩
      refine herror hsent ?_ (.inr (.inr rfl)) not_mixed_failedToRead
      exact (hdec.congr (iff_true_intro hgot)).mono
        ((List.suffix_cons ..).trans (List.suffix_cons ..))

/-- `ConnectToServer` with the command `URANDOM_MESSAGE`, whatever the answers are. -/
theorem connectToServer_resolved :
    Keeps (Hands s) (connectToServer .URANDOM_MESSAGE) (Resolved s) s := by
  apply keeps_inScope
  simp only [Urandom.construct, Program.ensures_run_bind, keeps_openUrandom, Program.onOk_ok]
  intro r _ _
  refine ⟨trivial, ?_⟩
  cases r with
  | error e =>
    -- the constructor throws, before anything else
    exact ⟨False, decided_constructor rfl, iff_of_true (.inr ⟨rfl, _, rfl⟩) not_false⟩
  | ok fd =>
    have hdestruct {r : Except Thrown ℤ} {s' : State} (h : Resolved s r s') :
        Program.Ensures clientEnv.recorded (Hands s) (Urandom.destruct ⟨fd⟩)
          (fun _ => Resolved s r) s' :=
      (keeps_unsent (destruct_generating _ fun _ => trivial) fun _ _ _ _ h => h).post
        fun _ _ hu => h.unsent hu.2
    simp only [Program.ensures_run_pure, Program.onOk_ok]
    refine (Program.ensures_run_bind ..).2 ?_
    apply (generateRandom_generated rfl).post
    rintro r s2 ⟨b, hgen⟩
    cases r with
    | error e =>
      have hgenuine : Genuine s (.error e) s2 := .inr ⟨hgen.unsent, e, rfl⟩
      exact hdestruct ⟨b, hgen.decided, iff_of_true hgenuine (hgen.thrown e rfl)⟩
    | ok value =>
      obtain ⟨hv, hm⟩ := hgen.value value rfl
      exact (sendValue_resolved hgen.decided hgen.unsent hv hm).post fun _ _ h => hdestruct h

/-- What has been sent so far: nothing, or one message, which is a random one if and only if
`GenerateRandom` has not failed by itself. -/
def SentOnce (s s' : State) : Prop :=
  handed s'.history = handed s.history ∨ ∃ m b, handed s'.history = m :: handed s.history ∧
    Decided s s' b ∧ (Mixed 4 10 4 m ↔ ¬ b)

theorem SentOnce.step {o : SysOp} {r : o.Res} (hg : Hands s s₁ o r) (h : SentOnce s s₁) :
    SentOnce s (s₁.after o r) := by
  have hsuf : s₁.history <:+ (s₁.after o r).history := List.suffix_cons ..
  cases o with
  | send fd buf =>
    obtain ⟨hh, b, hdec, hm⟩ := hg
    exact .inr ⟨buf, b, congrArg (buf :: ·) hh, hdec.mono hsuf, hm⟩
  | _ => exact h.imp id fun ⟨m, b, hm, hdec, hiff⟩ => ⟨m, b, hm, hdec.mono hsuf, hiff⟩

/-- Only random messages go out if and only if `GenerateRandom` does not fail by itself. At any
point of a call at most one message has been handed to `send`, and it is a random message if and
only if the `open` and the `read` of `GenerateRandom` have gone well; when the call is over, a
random message has been sent or nothing has and the call throws, under the same condition. -/
theorem randomMessage_genuine_iff {q : Program SysOp SysOp.Res (Except Thrown ℤ)}
    (h : clientEnv.recorded.Steps (s, (connectToServer .URANDOM_MESSAGE).run) (s', q)) :
    (handed s'.history = handed s.history ∨ ∃ m, handed s'.history = m :: handed s.history ∧
      (Mixed 4 10 4 m ↔ ¬ OwnFailure s s')) ∧
    ∀ r, q = .done r → (Genuine s r s' ↔ ¬ OwnFailure s s') := by
  constructor
  · have hsent : SentOnce s s' := connectToServer_resolved.invariant (I := SentOnce s)
      (fun _ _ _ _ hg hi => hi.step hg) (.inl rfl) h
    refine hsent.imp id fun ⟨m, b, hm, hdec, hiff⟩ => ⟨m, hm, ?_⟩
    rw [hiff, hdec s' List.suffix_rfl]
  · rintro r rfl
    obtain ⟨b, hdec, hiff⟩ := connectToServer_resolved.steps h
    rw [hiff, hdec s' List.suffix_rfl]

/-- The answers of a run in which everything succeeds but the second `open` of the device. -/
def refusing (s : State) : (o : SysOp) → Option o.Res
  | .openUrandom =>
    some (if opened s.history = [] then .ok 3 else .error .EMFILE)
  | o => obliging (ascii "ok") s o

/-- A call of `ConnectToServer` in a new process, with these answers. -/
def runRefusing : State × Program SysOp SysOp.Res (Except Thrown ℤ) :=
  clientEnv.recorded.run (clientEnv.recorded.checked refusing)
    (connectToServer .URANDOM_MESSAGE).run ⟨.start, []⟩

/-- The server gets the text of the error. -/
theorem errorText_sent :
    clientEnv.recorded.Steps (⟨.start, []⟩, (connectToServer .URANDOM_MESSAGE).run) runRefusing ∧
      runRefusing.2 = .done (.ok exitSuccess) ∧
      handed runRefusing.1.history = [ascii "Failed to open /dev/urandom"] ∧
      ¬ Mixed 4 10 4 (ascii "Failed to open /dev/urandom") ∧
      ¬ Genuine ⟨.start, []⟩ (.ok exitSuccess) runRefusing.1 := by
  have hhanded : handed runRefusing.1.history = [ascii "Failed to open /dev/urandom"] := by
    decide +kernel
  refine ⟨Env.run_checked_steps clientEnv.recorded refusing _ _, rfl, hhanded,
    not_mixed_failedToOpen, ?_⟩
  rintro (⟨m, hm, hmixed⟩ | ⟨hnone, -⟩)
  · rw [hhanded] at hm
    rw [← (List.cons.inj hm).1] at hmixed
    exact not_mixed_failedToOpen hmixed
  · rw [hhanded] at hnone
    cases hnone

/-- In a run without failures a random message is sent. -/
theorem randomMessage_genuine_iff_obliging :
    Genuine ⟨.start, []⟩ (.ok exitSuccess) (runObliging (ascii "ok") .URANDOM_MESSAGE).1 ↔
      ¬ OwnFailure ⟨.start, []⟩ (runObliging (ascii "ok") .URANDOM_MESSAGE).1 :=
  (randomMessage_genuine_iff (runObliging_steps (ascii "ok") .URANDOM_MESSAGE)).2 _ rfl

end KCNet.Client
