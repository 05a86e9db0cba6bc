import KCNet.Client.TcpClient

/-!
# The surroundings of the client process

The world of the GUI process is its descriptor table and whether a signal has ended it. Every
failure of a system call and every short read is possible.
-/

namespace KCNet.Client

open Interaction

structure World where
  descriptors : DescriptorTable
  /-- No signal has ended the process. -/
  alive : Bool

/-- The address behind `SERVER_IP`. -/
def serverAddr : InAddr := ⟨192, 168, 1, 108⟩

/-- A process with its standard streams and no other descriptor. -/
def World.start : World where
  descriptors fd := if 0 ≤ fd ∧ fd < 3 then some .file else none
  alive := true

/-- What the kernel may answer. -/
def answers (w : World) : (o : SysOp) → o.Res → Bool
  | .openUrandom, .ok fd => w.descriptors.unused fd
  | .read fd len, .ok b => w.descriptors fd = some .file && b.length ≤ len
  | .socket, .ok fd => w.descriptors.unused fd
  | .send fd buf, .ok n => w.descriptors.connected fd && 0 < n && n ≤ buf.length
  | .send fd _, .error .EPIPE => w.descriptors.connected fd
  | .recv fd len, .ok b => w.descriptors.connected fd && b.length ≤ len
  | _, _ => true

/-- What an answered call does. A `send` that finds the connection reset raises SIGPIPE, which
the program neither handles nor ignores. -/
@[simp] def effect (w : World) : (o : SysOp) → o.Res → World
  | .openUrandom, .ok fd => { w with descriptors := w.descriptors.set fd (some .file) }
  | .close fd, _ => if 0 ≤ fd then { w with descriptors := w.descriptors.set fd none } else w
  | .socket, .ok fd => { w with descriptors := w.descriptors.set fd (some .socket) }
  | .connect fd _, .ok () =>
    { w with descriptors := w.descriptors.set fd (some (.connection serverAddr)) }
  | .send _ _, .error .EPIPE => { w with alive := false }
  | _, _ => w

def clientEnv : Env SysOp SysOp.Res World where
  allowed w o r := w.alive && answers w o r
  next := effect

abbrev Happening := Event SysOp SysOp.Res

/-- A world of the client with the history of its process. -/
abbrev State := Env.Recorded SysOp SysOp.Res World

/-- The state after one more answered operation. -/
def State.after (s : State) (o : SysOp) (r : o.Res) : State :=
  ⟨effect s.world o r, ⟨o, r⟩ :: s.history⟩

@[simp] theorem State.after_world (s : State) (o : SysOp) (r : o.Res) :
    (s.after o r).world = effect s.world o r := rfl

@[simp] theorem State.after_history (s : State) (o : SysOp) (r : o.Res) :
    (s.after o r).history = ⟨o, r⟩ :: s.history := rfl

section Rules

variable {α : Type} {G : State → (o : SysOp) → o.Res → Prop} {s : State}

/-- The guarantee of a client program, in the environment that keeps the history. -/
abbrev Keeps (G : State → (o : SysOp) → o.Res → Prop) (p : Sys α)
    (Q : Except Thrown α → State → Prop) (s : State) : Prop :=
  p.run.Ensures clientEnv.recorded G Q s

theorem keeps_perform (o : SysOp) (Q : o.Res → State → Prop) :
    Program.Ensures clientEnv.recorded G (perform o : Program SysOp SysOp.Res o.Res) Q s ↔
      ∀ r, s.world.alive = true → answers s.world o r = true → G s o r ∧ Q r (s.after o r) := by
  simp only [Program.ensures_perform, Env.recorded_allowed, clientEnv, Bool.and_eq_true, and_imp]
  rfl

theorem keeps_invoke (o : SysOp) (Q : Except Thrown o.Res → State → Prop) :
    Keeps G (invoke o : Sys o.Res) Q s ↔ ∀ r, s.world.alive = true →
      answers s.world o r = true → G s o r ∧ Q (.ok r) (s.after o r) := by
  rw [Keeps, invoke, Program.ensures_run_mk, Program.ensures_map, keeps_perform]

@[simp] theorem keeps_openUrandom (Q : Except Thrown (Except Errno ℤ) → State → Prop) :
    Keeps G Sys.openUrandom Q s ↔ ∀ r, s.world.alive = true →
      answers s.world .openUrandom r = true →
      G s .openUrandom r ∧ Q (.ok r) (s.after .openUrandom r) := keeps_invoke _ _

@[simp] theorem keeps_read (fd : ℤ) (len : ℕ)
    (Q : Except Thrown (Except Errno Bytes) → State → Prop) :
    Keeps G (Sys.read fd len) Q s ↔ ∀ r, s.world.alive = true →
      answers s.world (.read fd len) r = true →
      G s (.read fd len) r ∧ Q (.ok r) (s.after (.read fd len) r) := keeps_invoke _ _

@[simp] theorem keeps_socket (Q : Except Thrown (Except Errno ℤ) → State → Prop) :
    Keeps G Sys.socket Q s ↔ ∀ r, s.world.alive = true → answers s.world .socket r = true →
      G s .socket r ∧ Q (.ok r) (s.after .socket r) := keeps_invoke _ _

@[simp] theorem keeps_inetPton (ip : Bytes) (Q : Except Thrown Bool → State → Prop) :
    Keeps G (Sys.inetPton ip) Q s ↔ ∀ b, s.world.alive = true →
      G s (.inetPton ip) b ∧ Q (.ok b) (s.after (.inetPton ip) b) :=
  (keeps_invoke _ _).trans ⟨fun h b ha => h b ha rfl, fun h b ha _ => h b ha⟩

@[simp] theorem keeps_connect (fd : ℤ) (port : ℕ)
    (Q : Except Thrown (Except Errno Unit) → State → Prop) :
    Keeps G (Sys.connect fd port) Q s ↔ ∀ r, s.world.alive = true →
      answers s.world (.connect fd port) r = true →
      G s (.connect fd port) r ∧ Q (.ok r) (s.after (.connect fd port) r) := keeps_invoke _ _

@[simp] theorem keeps_send (fd : ℤ) (buf : Bytes)
    (Q : Except Thrown (Except Errno ℕ) → State → Prop) :
    Keeps G (Sys.send fd buf) Q s ↔ ∀ r, s.world.alive = true →
      answers s.world (.send fd buf) r = true →
      G s (.send fd buf) r ∧ Q (.ok r) (s.after (.send fd buf) r) := keeps_invoke _ _

@[simp] theorem keeps_recv (fd : ℤ) (len : ℕ)
    (Q : Except Thrown (Except Errno Bytes) → State → Prop) :
    Keeps G (Sys.recv fd len) Q s ↔ ∀ r, s.world.alive = true →
      answers s.world (.recv fd len) r = true →
      G s (.recv fd len) r ∧ Q (.ok r) (s.after (.recv fd len) r) := keeps_invoke _ _

@[simp] theorem keeps_close (fd : ℤ) (Q : Except Thrown Unit → State → Prop) :
    Keeps G (Sys.close fd) Q s ↔
      (s.world.alive = true → G s (.close fd) () ∧ Q (.ok ()) (s.after (.close fd) ())) :=
  (keeps_invoke _ _).trans ⟨fun h ha => h () ha rfl, fun h _ ha _ => h ha⟩

@[simp] theorem keeps_stdout (t : Bytes) (Q : Except Thrown Unit → State → Prop) :
    Keeps G (Sys.stdout t) Q s ↔
      (s.world.alive = true → G s (.stdout t) () ∧ Q (.ok ()) (s.after (.stdout t) ())) :=
  (keeps_invoke _ _).trans ⟨fun h ha => h () ha rfl, fun h _ ha _ => h ha⟩

@[simp] theorem keeps_perror (t : Bytes) (Q : Except Thrown Unit → State → Prop) :
    Keeps G (Sys.perror t) Q s ↔
      (s.world.alive = true → G s (.perror t) () ∧ Q (.ok ()) (s.after (.perror t) ())) :=
  (keeps_invoke _ _).trans ⟨fun h ha => h () ha rfl, fun h _ ha _ => h ha⟩

@[simp] theorem keeps_messageBox (t : Bytes) (Q : Except Thrown Unit → State → Prop) :
    Keeps G (Sys.messageBox t) Q s ↔
      (s.world.alive = true → G s (.messageBox t) () ∧ Q (.ok ()) (s.after (.messageBox t) ())) :=
  (keeps_invoke _ _).trans ⟨fun h ha => h () ha rfl, fun h _ ha _ => h ha⟩

@[simp] theorem keeps_exit (code : ℤ) (Q : Except Thrown α → State → Prop) :
    Keeps G (Sys.exit code) Q s := by
  intro r
  exact r.elim

/-- The rule for the scope of an object. -/
theorem keeps_inScope {σ : Type} {create : Sys σ} {destroy : σ → Program SysOp SysOp.Res Unit}
    {body : σ → Sys α} {Q : Except Thrown α → State → Prop}
    (h : Keeps G create (Program.onOk
      (fun obj => Keeps G (body obj) fun r =>
        Program.Ensures clientEnv.recorded G (destroy obj) fun _ => Q r)
      fun e => Q (.error e)) s) : Keeps G (inScope create destroy body) Q s := by
  simp only [Keeps, inScope, Program.ensures_run_bind, Program.ensures_run_mk,
    Program.ensures_bind, Program.ensures_pure]
  exact h

end Rules

/-! ## Reading a history -/

/-- The descriptors that `open` and `socket` have handed out, the latest first. -/
@[simp] def opened : List Happening → List ℤ
  | [] => []
  | ⟨.openUrandom, .ok fd⟩ :: h => fd :: opened h
  | ⟨.socket, .ok fd⟩ :: h => fd :: opened h
  | _ :: h => opened h

/-- The arguments of the calls of `close`, the latest first. -/
@[simp] def closed : List Happening → List ℤ
  | [] => []
  | ⟨.close fd, _⟩ :: h => fd :: closed h
  | _ :: h => closed h

/-- How many reads of `RANDOM_BYTES` bytes have delivered them all. -/
@[simp] def randomReads : List Happening → ℕ
  | [] => 0
  | ⟨.read _ len, .ok b⟩ :: h =>
    if len = Urandom.randomBytes ∧ b.length = Urandom.randomBytes then randomReads h + 1
    else randomReads h
  | _ :: h => randomReads h

/-- How many `recv` calls have delivered bytes. -/
@[simp] def replies : List Happening → ℕ
  | [] => 0
  | ⟨.recv _ _, .ok b⟩ :: h => if b = [] then replies h else replies h + 1
  | _ :: h => replies h

/-- A `connect` has succeeded. -/
@[simp] def hasConnected : List Happening → Bool
  | [] => false
  | ⟨.connect .., .ok ()⟩ :: _ => true
  | _ :: h => hasConnected h

/-- The bytes that `send` has taken, in order. -/
@[simp] def taken : List Happening → Bytes
  | [] => []
  | ⟨.send _ buf, .ok n⟩ :: h => taken h ++ buf.take n
  | _ :: h => taken h

/-- How many `send` calls have failed. -/
@[simp] def sendFailures : List Happening → ℕ
  | [] => 0
  | ⟨.send .., .error _⟩ :: h => sendFailures h + 1
  | _ :: h => sendFailures h

/-- How many `recv` calls have returned. -/
@[simp] def recvCalls : List Happening → ℕ
  | [] => 0
  | ⟨.recv .., _⟩ :: h => recvCalls h + 1
  | _ :: h => recvCalls h

/-- How many lines have been printed. -/
@[simp] def stdoutCalls : List Happening → ℕ
  | [] => 0
  | ⟨.stdout _, _⟩ :: h => stdoutCalls h + 1
  | _ :: h => stdoutCalls h

/-- The bytes that `recv` has delivered, in order. -/
@[simp] def received : List Happening → Bytes
  | [] => []
  | ⟨.recv .., .ok b⟩ :: h => received h ++ b
  | _ :: h => received h

/-! ## A run in which everything succeeds -/

/-- The answers of such a run. Descriptors are numbered from 3 on, and `reply` is the first chunk of
the server's reply. -/
def obliging (reply : Bytes) (s : State) : (o : SysOp) → Option o.Res
  | .openUrandom => some (.ok (3 + (opened s.history).length))
  | .read _ len => some (.ok (List.replicate len 0))
  | .socket => some (.ok (3 + (opened s.history).length))
  | .inetPton _ => some true
  | .connect .. => some (.ok ())
  | .send _ buf => some (.ok buf.length)
  | .recv _ len => some (.ok (reply.take len))
  | .exit _ => none
  | .close _ | .stdout _ | .perror _ | .messageBox _ => some ()

/-- A call of `ConnectToServer` in a new process. -/
def runObliging (reply : Bytes) (command : ServerCommand) :
    State × Program SysOp SysOp.Res (Except Thrown ℤ) :=
  clientEnv.recorded.run (clientEnv.recorded.checked (obliging reply))
    (TcpClient.connectToServer command).run ⟨.start, []⟩

theorem runObliging_steps (reply : Bytes) (command : ServerCommand) :
    clientEnv.recorded.Steps (⟨.start, []⟩, (TcpClient.connectToServer command).run)
      (runObliging reply command) :=
  Env.run_checked_steps clientEnv.recorded (obliging reply) _ _

end KCNet.Client
