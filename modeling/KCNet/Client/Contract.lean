import KCNet.Client.Generator

/-!
# What the client guarantees

One pass over `ConnectToServer`: it connects at most once, sends at most one request, reads at most
once, and what it returns is its verdict on what it has read.

## Main definitions

- `Request` — the texts that a command sends
- `Contract` — the guarantee of every operation
-/

namespace KCNet.Client

open Interaction TcpClient

/-- The commands for which the `switch` sends something. -/
def ServerCommand.Sends : ServerCommand → Prop
  | .URANDOM_MESSAGE | .RELOAD_COMMAND | .SHUTDOWN_COMMAND => True
  | .NONE | .LAST_COMMAND => False

/-- The texts that a command sends. -/
def Request : ServerCommand → Bytes → Prop
  | .URANDOM_MESSAGE, buf => RandomValue (4 + 10 + 4) buf
  | .RELOAD_COMMAND, buf => buf = TcpClient.reloadCommand
  | .SHUTDOWN_COMMAND, buf => buf = TcpClient.shutdownCommand
  | _, _ => False

/-- The exit code for a reply. -/
def verdictOf (reply : Bytes) : ℤ :=
  if cString reply = bannedMessage then exitFailure else exitSuccess

theorem Request.sends {command : ServerCommand} {buf : Bytes} (h : Request command buf) :
    command.Sends := by
  cases command with
  | NONE | LAST_COMMAND => exact h.elim
  | _ => trivial

/-- The guarantee of each operation of a client that runs `command`. -/
def Contract (command : ServerCommand) (s : State) : (o : SysOp) → o.Res → Prop
  | .connect .., _ => hasConnected s.history = false ∧ sendFailures s.history = 0 ∧
      stdoutCalls s.history = 0
  | .send _ buf, _ => taken s.history = [] ∧ received s.history = [] ∧ Request command buf
  | .recv fd _, _ => recvCalls s.history = 0 ∧ received s.history = [] ∧
      (0 ≤ fd → hasConnected s.history = true) ∧
      (command.Sends → taken s.history ≠ [] ∨ 0 < sendFailures s.history) ∧
      (¬ command.Sends → 0 < stdoutCalls s.history)
  | .close _, _ => hasConnected s.history = true → 0 < recvCalls s.history
  | _, _ => True

/-- The readings on which the contract depends. -/
structure Untouched (s s' : State) : Prop where
  connected : hasConnected s'.history = hasConnected s.history
  taken : taken s'.history = taken s.history
  failures : sendFailures s'.history = sendFailures s.history
  calls : recvCalls s'.history = recvCalls s.history
  received : received s'.history = received s.history
  printed : stdoutCalls s'.history = stdoutCalls s.history

theorem Untouched.refl (s : State) : Untouched s s := by constructor <;> rfl

theorem Untouched.trans {s s' s'' : State} (h : Untouched s s') (h' : Untouched s' s'') :
    Untouched s s'' where
  connected := h'.connected.trans h.connected
  taken := h'.taken.trans h.taken
  failures := h'.failures.trans h.failures
  calls := h'.calls.trans h.calls
  received := h'.received.trans h.received
  printed := h'.printed.trans h.printed

theorem Generating.untouched {s : State} {o : SysOp} {r : o.Res} (h : Generating s o r) :
    Untouched s (s.after o r) := by
  cases o with
  | connect | send | recv | stdout => exact h.elim
  | _ => exact { Untouched.refl s with }

/-- A part that only generates keeps the contract and touches nothing. It may close descriptors when
no connection is in use. -/
theorem keeps_generating {α : Type} {command : ServerCommand}
    {p : Program SysOp SysOp.Res α} {Q : α → State → Prop} {s : State}
    (h : p.Ensures clientEnv.recorded Generating Q s)
    (hclose : hasConnected s.history = true → 0 < recvCalls s.history) :
    p.Ensures clientEnv.recorded (Contract command) (fun a s' => Q a s' ∧ Untouched s s') s := by
  refine (h.maintain (fun _ _ _ _ hg hi => hi.trans hg.untouched) (Untouched.refl s)).mono
    (fun s' o r _ hg => ?_) fun _ _ h => h
  obtain ⟨hg, hu⟩ := hg
  cases o with
  | connect | send | recv | stdout => exact hg.elim
  | close =>
    intro hc
    rw [hu.calls]
    exact hclose (hu.connected ▸ hc)
  | _ => trivial

/-! ## Requests -/

/-- No character of a password is a NUL or a space. -/
theorem alphabets_apart : ∀ b ∈ Urandom.digits ++ Urandom.letters ++ Urandom.symbols,
    b ≠ 0 ∧ b ≠ 32 := by decide +kernel

theorem RandomValue.cString_eq {n : ℕ} {value : Bytes} (h : RandomValue n value) :
    cString value = value := by
  apply cString_eq_self
  intro hz
  rcases h with hp | rfl | rfl
  · exact (alphabets_apart 0 (hp.chars 0 hz)).1 rfl
  · exact absurd hz (by decide)
  · exact absurd hz (by decide)

/-- No request starts like the notice: a password has no space in it. -/
theorem Request.apart {command : ServerCommand} {buf : Bytes} (h : Request command buf) :
    ¬ bannedMessage <+: buf := by
  cases command with
  | URANDOM_MESSAGE =>
    rcases h with hp | rfl | rfl
    · intro hpre
      have hspace : (32 : UInt8) ∈ buf := hpre.subset (by decide)
      exact (alphabets_apart 32 (hp.chars 32 hspace)).2 rfl
    · decide
    · decide
  | RELOAD_COMMAND =>
    obtain rfl := h
    decide
  | SHUTDOWN_COMMAND =>
    obtain rfl := h
    decide
  | _ => exact h.elim

/-! ## The call -/

/-- Nothing has been done for this call yet. -/
structure Fresh (s : State) : Prop where
  connected : hasConnected s.history = false
  taken : taken s.history = []
  failures : sendFailures s.history = 0
  calls : recvCalls s.history = 0
  received : received s.history = []
  printed : stdoutCalls s.history = 0

theorem Fresh.untouched {s s' : State} (h : Fresh s) (hu : Untouched s s') : Fresh s' where
  connected := hu.connected.trans h.connected
  taken := hu.taken.trans h.taken
  failures := hu.failures.trans h.failures
  calls := hu.calls.trans h.calls
  received := hu.received.trans h.received
  printed := hu.printed.trans h.printed

/-- A connection has been asked for, nothing has been sent on it. -/
structure Dialled (sock : ℤ) (s : State) : Prop where
  connected : 0 ≤ sock → hasConnected s.history = true
  taken : taken s.history = []
  calls : recvCalls s.history = 0
  received : received s.history = []

variable {command : ServerCommand} {s : State} {sock : ℤ}

theorem createTcpClient_contract (h : Fresh s) (ip : Bytes) (port : ℕ) :
    Keeps (Contract command) (createTcpClient ip port)
      (fun r s' => ∃ sock, r = .ok sock ∧ Dialled sock s') s := by
  simp only [createTcpClient, Program.ensures_run_bind, keeps_socket, Program.onOk_ok]
  intro r _ _
  refine ⟨trivial, ?_⟩
  cases r with
  | error e =>
    simp only [Program.ensures_run_bind, keeps_messageBox, Program.onOk_ok, keeps_exit, and_true]
    exact fun _ => trivial
  | ok fd =>
    -- what the two early returns have in common: no connection, and -1 instead of a socket
    have hfail {s' : State} (hu : Untouched s s') : Dialled (-1) s' :=
      { connected := fun h => absurd h (by decide)
        taken := hu.taken.trans h.taken
        calls := hu.calls.trans h.calls
        received := hu.received.trans h.received }
    have hparted {s' : State} (hu : Untouched s s') :
        hasConnected s'.history = true → 0 < recvCalls s'.history := fun hc =>
      absurd (hc.symm.trans (hu.connected.trans h.connected)) (by decide)
    simp only [Program.ensures_run_bind, keeps_inetPton, Program.onOk_ok, Program.ensures_run_ite,
      keeps_connect, keeps_messageBox, keeps_close, Program.ensures_run_pure]
    intro valid _
    refine ⟨trivial, fun _ => ?_, fun _ => ?_⟩
    · intro r _ _
      refine ⟨⟨h.connected, h.failures, h.printed⟩, ?_⟩
      cases r with
      | error e =>
        simp only [Program.ensures_run_bind, keeps_messageBox, keeps_close, Program.onOk_ok,
          Program.ensures_run_pure]
        intro _
        refine ⟨trivial, fun _ => ⟨hparted ?_, -1, rfl, hfail ?_⟩⟩
        · constructor <;> rfl
        · constructor <;> rfl
      | ok u =>
        exact ⟨fd, rfl, { connected := fun _ => rfl
                          taken := h.taken
                          calls := h.calls
                          received := h.received }⟩
    · intro _
      refine ⟨trivial, fun _ => ⟨hparted ?_, -1, rfl, hfail ?_⟩⟩
      · constructor <;> rfl
      · constructor <;> rfl

/-- The request is out, unless the kernel has refused it, or the choice has been refused. -/
structure Asked (command : ServerCommand) (sock : ℤ) (s : State) : Prop where
  connected : 0 ≤ sock → hasConnected s.history = true
  calls : recvCalls s.history = 0
  received : received s.history = []
  taken : command.Sends → taken s.history ≠ [] ∨ 0 < sendFailures s.history
  refused : ¬ command.Sends → 0 < stdoutCalls s.history

theorem sendMessageToServer_contract (h : Dialled sock s) {message : Bytes}
    (hm : Request command message) :
    Keeps (Contract command) (sendMessageToServer sock message)
      (fun r s' => r = .ok () ∧ Asked command sock s') s := by
  simp only [sendMessageToServer, Program.ensures_run_bind, keeps_send, Program.onOk_ok,
    Program.ensures_run_pure]
  intro r _ hr
  refine ⟨⟨h.taken, h.received, hm⟩, trivial, ?_⟩
  cases r with
  | error e =>
    exact { connected := h.connected
            calls := h.calls
            received := h.received
            taken := fun _ => .inr (by simp)
            refused := fun hn => absurd hm.sends hn }
  | ok n =>
    simp only [answers, Bool.and_eq_true, decide_eq_true_eq] at hr
    refine { connected := h.connected
             calls := h.calls
             received := h.received
             taken := fun _ => .inl fun he => ?_
             refused := fun hn => absurd hm.sends hn }
    -- a successful `send` takes at least one byte
    have hlen := congrArg List.length he
    simp only [State.after_history, taken, h.taken, List.nil_append, List.length_take,
      List.length_nil] at hlen
    omega

theorem sendCommand_contract (h : Dialled sock s) {value : Bytes}
    (hv : RandomValue (4 + 10 + 4) value) :
    Keeps (Contract command) (sendCommand command sock value)
      (fun r s' => r = .ok () ∧ Asked command sock s') s := by
  have hrefuse (hc : ¬ command.Sends) : Keeps (Contract command)
      (Sys.stdout (ascii "Error, choice invalid\n"))
      (fun r s' => r = .ok () ∧ Asked command sock s') s :=
    (keeps_stdout _ _).2 fun _ => ⟨trivial, rfl,
      { connected := h.connected
        calls := h.calls
        received := h.received
        taken := fun hs => absurd hs hc
        refused := fun _ => Nat.succ_pos _ }⟩
  cases command with
  | URANDOM_MESSAGE =>
    apply sendMessageToServer_contract h
    rw [hv.cString_eq]
    exact hv
  | RELOAD_COMMAND => exact sendMessageToServer_contract h rfl
  | SHUTDOWN_COMMAND => exact sendMessageToServer_contract h rfl
  | NONE => exact hrefuse id
  | LAST_COMMAND => exact hrefuse id

/-- The value returned is the verdict on what has been read, if anything has been. -/
def Judged (r : Except Thrown ℤ) (s : State) : Prop :=
  received s.history ≠ [] → ∃ v, r = .ok v ∧ v = verdictOf (received s.history)

theorem awaitReply_contract (h : Asked command sock s) :
    Keeps (Contract command) (awaitReply sock)
      (fun r s' => Judged r s' ∧ 0 < recvCalls s'.history) s := by
  simp only [awaitReply, Program.ensures_run_bind, keeps_recv, Program.onOk_ok]
  intro r _ _
  refine ⟨⟨h.calls, h.received, h.connected, h.taken, h.refused⟩, ?_⟩
  cases r with
  | error e =>
    simp only [Program.ensures_run_bind, keeps_close, Program.onOk_ok, Program.ensures_run_pure]
    exact fun _ => ⟨fun _ => Nat.succ_pos _, fun hr => absurd h.received hr, Nat.succ_pos _⟩
  | ok reply =>
    have hrec : received (⟨.recv sock (1024 - 1), .ok reply⟩ :: s.history) = reply := by
      simp [h.received]
    simp only [verdict, logOutput, Program.ensures_run_ite, Program.ensures_run_bind, keeps_close,
      keeps_stdout, Program.onOk_ok, Program.ensures_run_pure, cString_zeroFilled]
    refine ⟨fun _ => ⟨fun hb _ => ⟨trivial, fun _ => ⟨_, rfl, ?_⟩, Nat.succ_pos _⟩,
      fun hb _ => ⟨trivial, fun _ => ⟨_, rfl, ?_⟩, Nat.succ_pos _⟩⟩,
      fun hlen _ => ⟨fun _ => Nat.succ_pos _, fun hr => ?_, Nat.succ_pos _⟩⟩
    · exact (if_pos (hrec.symm ▸ hb)).symm
    · exact (if_neg (hrec.symm ▸ hb)).symm
    · exact absurd (hrec.trans (List.length_eq_zero_iff.1 (by omega))) hr

/-- `ConnectToServer` keeps the contract, however its system calls end. -/
theorem connectToServer_contract (h : Fresh s) :
    Keeps (Contract command) (connectToServer command) Judged s := by
  have hparted {s' : State} (h' : Fresh s') :
      hasConnected s'.history = true → 0 < recvCalls s'.history := fun hc =>
    absurd (hc.symm.trans h'.connected) (by decide)
  -- whatever throws does so before the socket is created
  have hthrown {s' : State} (e : Thrown) (h' : Fresh s') : Judged (.error e) s' :=
    fun hne => absurd h'.received hne
  refine keeps_inScope ((keeps_generating construct_generating (hparted h)).post fun r s1 h1 => ?_)
  have h1 := h.untouched h1.2
  cases r with
  | error e => exact hthrown e h1
  | ok rng =>
    have hdestruct {s' : State} {r : Except Thrown ℤ} (hj : Judged r s')
        (hclose : hasConnected s'.history = true → 0 < recvCalls s'.history) :
        Program.Ensures clientEnv.recorded (Contract command) rng.destruct
          (fun _ => Judged r) s' := by
      refine (keeps_generating (destruct_generating rng fun _ => trivial) hclose).post
        fun _ s'' hu hr => ?_
      rw [hu.2.received] at hr ⊢
      exact hj hr
    simp only [Program.onOk_ok, Program.ensures_run_bind]
    apply (keeps_generating (generateRandom_returns 4 10 4) (hparted h1)).post
    intro r s2 h2
    have hfresh := h1.untouched h2.2
    cases r with
    | error e => exact hdestruct (hthrown e hfresh) (hparted hfresh)
    | ok value =>
      apply (createTcpClient_contract hfresh serverIp serverPort).post
      intro r s3 h3
      obtain ⟨sock, rfl, h3⟩ := h3
      apply (sendCommand_contract h3 (h2.1 value rfl)).post
      intro r s4 h4
      obtain ⟨rfl, h4⟩ := h4
      exact (awaitReply_contract h4).post fun r s5 h5 => hdestruct h5.1 fun _ => h5.2

end KCNet.Client
