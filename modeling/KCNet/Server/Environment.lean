import KCNet.Server.TcpServer

/-!
# The surroundings of the server process

The world of the process is its memory, its descriptor table and whether a signal has ended it.
`serverEnv` answers the system calls as POSIX allows: every failure that the kernel may report,
every payload, every number of bytes a `send` may take. Whether SIGINT has been delivered is
left open here: `quit.load()` may yield either value.

## Main definitions

- `World`, `serverEnv` — the environment
- `Reaches` — the runs of the server from start-up
- `phase`, `sentOn`, `opened`, `closed` and others — what a history says
-/

namespace KCNet.Server

open Interaction

structure World where
  memory : Memory
  descriptors : DescriptorTable
  /-- No signal has ended the process. -/
  alive : Bool

/-- A process before `main`, with the descriptors it inherits. -/
def World.start (files : ℤ → Bool) : World where
  memory := ⟨false, .zero, false⟩
  descriptors fd := if 0 ≤ fd ∧ files fd then some .file else none
  alive := true

/-- What the kernel may answer. -/
def answers (w : World) : (o : SysOp) → o.Res → Bool
  | .load, m => m = w.memory
  | .socket, .ok fd => w.descriptors.unused fd
  | .accept fd, .ok (c, _) => w.descriptors fd = some .listener && w.descriptors.unused c
  | .recv fd len, .ok b => w.descriptors.connected fd && b.length ≤ len
  | .send fd buf, .ok n => w.descriptors.connected fd && 0 < n && n ≤ buf.length
  | .send fd _, .error .EPIPE => w.descriptors.connected fd
  -- no other answer is ruled out
  | _, _ => true

/-- What an answered call does. A `send` that finds the connection reset raises SIGPIPE, which
the program neither handles nor ignores. -/
@[simp] def effect (w : World) : (o : SysOp) → o.Res → World
  | .store m, _ => { w with memory := m }
  | .socket, .ok fd => { w with descriptors := w.descriptors.set fd (some .socket) }
  | .listen fd _, .ok () => { w with descriptors := w.descriptors.set fd (some .listener) }
  | .accept _, .ok (c, peer) =>
    { w with descriptors := w.descriptors.set c (some (.connection peer)) }
  | .send _ _, .error .EPIPE => { w with alive := false }
  | .close fd, _ => { w with descriptors := w.descriptors.set fd none }
  | _, _ => w

def serverEnv : Env SysOp SysOp.Res World where
  allowed w o r := w.alive && answers w o r
  next := effect

abbrev Happening := Event SysOp SysOp.Res

/-- A world of the server with the history of its process. -/
abbrev State := Env.Recorded SysOp SysOp.Res World

/-- The state after one more answered operation. -/
def State.after (s : State) (o : SysOp) (r : o.Res) : State :=
  ⟨effect s.world o r, ⟨o, r⟩ :: s.history⟩

@[simp] theorem State.after_world (s : State) (o : SysOp) (r : o.Res) :
    (s.after o r).world = effect s.world o r := rfl

@[simp] theorem State.after_history (s : State) (o : SysOp) (r : o.Res) :
    (s.after o r).history = ⟨o, r⟩ :: s.history := rfl

/-- The runs of the server from start-up. -/
def Reaches (files : ℤ → Bool) (s : State) (p : Sys (Turn ℤ)) : Prop :=
  serverEnv.recorded.Reach mainLoop (⟨World.start files, []⟩, mainStart) (s, p)

theorem Reaches.start (files : ℤ → Bool) : Reaches files ⟨World.start files, []⟩ mainStart := .refl

/-! ## Rules for the operations -/

section Rules

variable {α : Type} {G : State → (o : SysOp) → o.Res → Prop} {s : State}

/-- The guarantee of a server program, in the environment that keeps the history. -/
abbrev Keeps (G : State → (o : SysOp) → o.Res → Prop) (p : Sys α) (Q : α → State → Prop)
    (s : State) : Prop := p.Ensures serverEnv.recorded G Q s

theorem keeps_perform (o : SysOp) (Q : o.Res → State → Prop) :
    Keeps G (perform o : Sys o.Res) Q s ↔ ∀ r, s.world.alive = true → answers s.world o r = true →
      G s o r ∧ Q r (s.after o r) := by
  simp only [Keeps, Program.ensures_perform, Env.recorded_allowed, serverEnv, Bool.and_eq_true,
    and_imp]
  rfl

@[simp] theorem keeps_exit (code : ℤ) (Q : α → State → Prop) : Keeps G (Sys.exit code) Q s := by
  intro r
  exact r.elim

@[simp] theorem keeps_load (Q : Memory → State → Prop) :
    Keeps G Sys.load Q s ↔ (s.world.alive = true →
      G s .load s.world.memory ∧ Q s.world.memory (s.after .load s.world.memory)) := by
  rw [Sys.load, keeps_perform]
  simp only [answers, decide_eq_true_eq]
  constructor
  · intro h ha
    exact h _ ha rfl
  · rintro h r ha rfl
    exact h ha

@[simp] theorem keeps_store (m : Memory) (Q : Unit → State → Prop) :
    Keeps G (Sys.store m) Q s ↔
      (s.world.alive = true → G s (.store m) () ∧ Q () (s.after (.store m) ())) := by
  rw [Sys.store, keeps_perform]
  exact ⟨fun h ha => h () ha rfl, fun h _ ha _ => h ha⟩

@[simp] theorem keeps_setsockopt (fd : ℤ) (Q : Unit → State → Prop) :
    Keeps G (Sys.setsockopt fd) Q s ↔
      (s.world.alive = true → G s (.setsockopt fd) () ∧ Q () (s.after (.setsockopt fd) ())) := by
  rw [Sys.setsockopt, keeps_perform]
  exact ⟨fun h ha => h () ha rfl, fun h _ ha _ => h ha⟩

@[simp] theorem keeps_close (fd : ℤ) (Q : Unit → State → Prop) :
    Keeps G (Sys.close fd) Q s ↔
      (s.world.alive = true → G s (.close fd) () ∧ Q () (s.after (.close fd) ())) := by
  rw [Sys.close, keeps_perform]
  exact ⟨fun h ha => h () ha rfl, fun h _ ha _ => h ha⟩

@[simp] theorem keeps_stdout (t : Bytes) (Q : Unit → State → Prop) :
    Keeps G (Sys.stdout t) Q s ↔
      (s.world.alive = true → G s (.stdout t) () ∧ Q () (s.after (.stdout t) ())) := by
  rw [Sys.stdout, keeps_perform]
  exact ⟨fun h ha => h () ha rfl, fun h _ ha _ => h ha⟩

@[simp] theorem keeps_perror (t : Bytes) (Q : Unit → State → Prop) :
    Keeps G (Sys.perror t) Q s ↔
      (s.world.alive = true → G s (.perror t) () ∧ Q () (s.after (.perror t) ())) := by
  rw [Sys.perror, keeps_perform]
  exact ⟨fun h ha => h () ha rfl, fun h _ ha _ => h ha⟩

@[simp] theorem keeps_logFile (l : LogLevel) (t : Bytes) (Q : Unit → State → Prop) :
    Keeps G (Sys.logFile l t) Q s ↔
      (s.world.alive = true → G s (.logFile l t) () ∧ Q () (s.after (.logFile l t) ())) := by
  rw [Sys.logFile, keeps_perform]
  exact ⟨fun h ha => h () ha rfl, fun h _ ha _ => h ha⟩

@[simp] theorem keeps_loadQuit (Q : Bool → State → Prop) :
    Keeps G Sys.loadQuit Q s ↔ ∀ b, s.world.alive = true →
      G s .loadQuit b ∧ Q b (s.after .loadQuit b) := by
  rw [Sys.loadQuit, keeps_perform]
  exact forall_congr' fun b => imp_congr_right fun _ => by simp [answers]

@[simp] theorem keeps_socket (Q : Except Errno ℤ → State → Prop) :
    Keeps G Sys.socket Q s ↔ (s.world.alive = true →
      (∀ e, G s .socket (.error e) ∧ Q (.error e) (s.after .socket (.error e))) ∧
      ∀ c, 0 ≤ c → s.world.descriptors c = none →
        G s .socket (.ok c) ∧ Q (.ok c) (s.after .socket (.ok c))) := by
  rw [Sys.socket, keeps_perform]
  constructor
  · intro h ha
    refine ⟨fun e => h (.error e) ha rfl, fun c hc hn => h (.ok c) ha ?_⟩
    simp [answers, DescriptorTable.unused_iff, hc, hn]
  · -- the answer is an error or a descriptor that was not in use
    rintro h (e | c) ha hr
    · exact (h ha).1 e
    · simp only [answers, DescriptorTable.unused_iff] at hr
      exact (h ha).2 c hr.1 hr.2

@[simp] theorem keeps_bind (fd : ℤ) (port : ℕ) (Q : Except Errno Unit → State → Prop) :
    Keeps G (Sys.bind fd port) Q s ↔ ∀ r, s.world.alive = true →
      G s (.bind fd port) r ∧ Q r (s.after (.bind fd port) r) := by
  rw [Sys.bind, keeps_perform]
  exact forall_congr' fun r => imp_congr_right fun _ => by simp [answers]

@[simp] theorem keeps_listen (fd : ℤ) (backlog : ℕ) (Q : Except Errno Unit → State → Prop) :
    Keeps G (Sys.listen fd backlog) Q s ↔ ∀ r, s.world.alive = true →
      G s (.listen fd backlog) r ∧ Q r (s.after (.listen fd backlog) r) := by
  rw [Sys.listen, keeps_perform]
  exact forall_congr' fun r => imp_congr_right fun _ => by simp [answers]

/-- A `send` that finds the connection reset is the end of the process, so nothing has to hold
after it. -/
theorem keeps_send (fd : ℤ) (buf : Bytes) (Q : Except Errno ℕ → State → Prop)
    (hG : ∀ r, G s (.send fd buf) r)
    (hok : ∀ n, s.world.alive = true → 0 < n → n ≤ buf.length →
      Q (.ok n) (s.after (.send fd buf) (.ok n)))
    (herr : ∀ e, s.world.alive = true → Q (.error e) (s.after (.send fd buf) (.error e))) :
    Keeps G (Sys.send fd buf) Q s := by
  rw [Sys.send, keeps_perform]
  rintro (e | n) ha hr
  · exact ⟨hG _, herr e ha⟩
  · simp only [answers, Bool.and_eq_true, decide_eq_true_eq] at hr
    exact ⟨hG _, hok n ha hr.1.2 hr.2⟩

@[simp] theorem keeps_accept (fd : ℤ) (Q : Except Errno (ℤ × InAddr) → State → Prop) :
    Keeps G (Sys.accept fd) Q s ↔ (s.world.alive = true →
      (∀ e, G s (.accept fd) (.error e) ∧ Q (.error e) (s.after (.accept fd) (.error e))) ∧
      ∀ c peer, s.world.descriptors fd = some .listener → 0 ≤ c → s.world.descriptors c = none →
        G s (.accept fd) (.ok (c, peer)) ∧
          Q (.ok (c, peer)) (s.after (.accept fd) (.ok (c, peer)))) := by
  rw [Sys.accept, keeps_perform]
  constructor
  · intro h ha
    refine ⟨fun e => h (.error e) ha rfl, fun c peer hl hc hn => h (.ok (c, peer)) ha ?_⟩
    simp [answers, hl, DescriptorTable.unused_iff, hc, hn]
  · rintro h (e | ⟨c, peer⟩) ha hr
    · exact (h ha).1 e
    · simp only [answers, Bool.and_eq_true, decide_eq_true_eq, DescriptorTable.unused_iff] at hr
      exact (h ha).2 c peer hr.1 hr.2.1 hr.2.2

@[simp] theorem keeps_recv (fd : ℤ) (len : ℕ) (Q : Except Errno Bytes → State → Prop) :
    Keeps G (Sys.recv fd len) Q s ↔ (s.world.alive = true →
      (∀ e, G s (.recv fd len) (.error e) ∧
        Q (.error e) (s.after (.recv fd len) (.error e))) ∧
      ∀ b, s.world.descriptors.connected fd = true → b.length ≤ len →
        G s (.recv fd len) (.ok b) ∧ Q (.ok b) (s.after (.recv fd len) (.ok b))) := by
  rw [Sys.recv, keeps_perform]
  constructor
  · intro h ha
    refine ⟨fun e => h (.error e) ha rfl, fun b hc hb => h (.ok b) ha ?_⟩
    simp [answers, hc, hb]
  · rintro h (e | b) ha hr
    · exact (h ha).1 e
    · simp only [answers, Bool.and_eq_true, decide_eq_true_eq] at hr
      exact (h ha).2 b hr.1 hr.2

@[simp] theorem keeps_getServer (Q : TcpServer → State → Prop) :
    Keeps G getServer Q s ↔ (s.world.alive = true → G s .load s.world.memory ∧
      Q s.world.memory.tcpServer (s.after .load s.world.memory)) := by
  simp [getServer]

@[simp] theorem keeps_getServerRunning (Q : Bool → State → Prop) :
    Keeps G getServerRunning Q s ↔ (s.world.alive = true → G s .load s.world.memory ∧
      Q s.world.memory.isServerRunning (s.after .load s.world.memory)) := by
  simp [getServerRunning]

end Rules

/-- The state after a global has been read and written back. -/
def State.update (s : State) (m : Memory) : State :=
  (s.after .load s.world.memory).after (.store m) ()

@[simp] theorem State.update_world (s : State) (m : Memory) :
    (s.update m).world = { s.world with memory := m } := rfl

@[simp] theorem State.update_history (s : State) (m : Memory) :
    (s.update m).history = ⟨.store m, ()⟩ :: ⟨.load, s.world.memory⟩ :: s.history := rfl

section Rules

variable {G : State → (o : SysOp) → o.Res → Prop} {s : State}

@[simp] theorem keeps_modifyServer (f : TcpServer → TcpServer) (Q : Unit → State → Prop) :
    Keeps G (modifyServer f) Q s ↔ (s.world.alive = true → G s .load s.world.memory ∧
      G (s.after .load s.world.memory)
        (.store { s.world.memory with tcpServer := f s.world.memory.tcpServer }) () ∧
      Q () (s.update { s.world.memory with tcpServer := f s.world.memory.tcpServer })) := by
  simp only [modifyServer, Program.ensures_bind, keeps_load, keeps_store]
  exact imp_congr_right fun ha => and_congr_right fun _ => ⟨fun h => h ha, fun h _ => h⟩

@[simp] theorem keeps_setServerRunning (b : Bool) (Q : Unit → State → Prop) :
    Keeps G (setServerRunning b) Q s ↔ (s.world.alive = true → G s .load s.world.memory ∧
      G (s.after .load s.world.memory) (.store { s.world.memory with isServerRunning := b }) () ∧
      Q () (s.update { s.world.memory with isServerRunning := b })) := by
  simp only [setServerRunning, Program.ensures_bind, keeps_load, keeps_store]
  exact imp_congr_right fun ha => and_congr_right fun _ => ⟨fun h => h ha, fun h _ => h⟩

@[simp] theorem keeps_logOutput (parts : List Bytes) (Q : Unit → State → Prop) :
    Keeps G (logOutput parts) Q s ↔ (s.world.alive = true →
      G s (.stdout (consoleLine parts)) () ∧
        Q () (s.after (.stdout (consoleLine parts)) ())) := by
  rw [logOutput, keeps_stdout]

@[simp] theorem keeps_log (l : LogLevel) (t : Bytes) (Q : Unit → State → Prop) :
    Keeps G (log l t) Q s ↔
      (s.world.alive = true → G s (.logFile l t) () ∧ Q () (s.after (.logFile l t) ())) := by
  rw [log, keeps_logFile]

end Rules

/-! ## Reading a history -/

/-- The bytes that `send` has taken for the connection that `fd` names, in order. -/
@[simp] def sentOn (fd : ℤ) : List Happening → Bytes
  | [] => []
  | ⟨.accept _, .ok (c, _)⟩ :: h => if c = fd then [] else sentOn fd h
  | ⟨.send fd' buf, .ok n⟩ :: h => if fd' = fd then sentOn fd h ++ buf.take n else sentOn fd h
  | _ :: h => sentOn fd h

/-- The peer of the connection that `fd` names: the one its last `accept` reported. -/
@[simp] def acceptedFrom (fd : ℤ) : List Happening → Option InAddr
  | [] => none
  | ⟨.accept _, .ok (c, peer)⟩ :: h => if c = fd then some peer else acceptedFrom fd h
  | _ :: h => acceptedFrom fd h

/-- An address on the ban list. -/
def Banned (a : InAddr) : Prop := inetNtop a ∈ TcpServer.bannedClientIpVector

instance (a : InAddr) : Decidable (Banned a) := inferInstanceAs (Decidable (_ ∈ _))

/-- Some `recv` has delivered data from a banned peer. -/
@[simp] def bannedSeen : List Happening → Prop
  | [] => False
  | ⟨.recv fd _, .ok b⟩ :: h =>
    (b ≠ [] ∧ ∃ a, acceptedFrom fd h = some a ∧ Banned a) ∨ bannedSeen h
  | _ :: h => bannedSeen h

/-- The descriptors that `accept` has handed out, the latest first. -/
@[simp] def accepted : List Happening → List ℤ
  | [] => []
  | ⟨.accept _, .ok (c, _)⟩ :: h => c :: accepted h
  | _ :: h => accepted h

/-- The descriptors that `socket` and `accept` have handed out, the latest first. -/
@[simp] def opened : List Happening → List ℤ
  | [] => []
  | ⟨.socket, .ok c⟩ :: h => c :: opened h
  | ⟨.accept _, .ok (c, _)⟩ :: h => c :: opened h
  | _ :: h => opened h

/-- The arguments of the calls of `close`, the latest first. -/
@[simp] def closed : List Happening → List ℤ
  | [] => []
  | ⟨.close fd, _⟩ :: h => fd :: closed h
  | _ :: h => closed h

theorem accepted_suffix_cons (e : Happening) (h : List Happening) :
    accepted h <:+ accepted (e :: h) := by
  obtain ⟨o, r⟩ := e
  cases o with
  | accept c => cases r <;> simp
  | _ => exact List.suffix_rfl

theorem opened_suffix_cons (e : Happening) (h : List Happening) :
    opened h <:+ opened (e :: h) := by
  obtain ⟨o, r⟩ := e
  cases o with
  | socket => cases r <;> simp
  | accept c => cases r <;> simp
  | _ => exact List.suffix_rfl

theorem closed_suffix_cons (e : Happening) (h : List Happening) :
    closed h <:+ closed (e :: h) := by
  obtain ⟨o, r⟩ := e
  cases o with
  | close fd => simp
  | _ => exact List.suffix_rfl

/-- What is read off an earlier history is an earlier list. -/
theorem suffix_of_suffix {f : List Happening → List ℤ} (hf : ∀ e h, f h <:+ f (e :: h))
    {h h' : List Happening} (hs : h' <:+ h) : f h' <:+ f h := by
  obtain ⟨es, rfl⟩ := hs
  induction es with
  | nil => exact List.suffix_rfl
  | cons e es ih => exact ih.trans (hf e _)

/-- How many `accept` calls have returned. -/
@[simp] def acceptCalls : List Happening → ℕ
  | [] => 0
  | ⟨.accept _, _⟩ :: h => acceptCalls h + 1
  | _ :: h => acceptCalls h

/-- How many `accept` calls have failed. -/
@[simp] def acceptFailures : List Happening → ℕ
  | [] => 0
  | ⟨.accept _, .error _⟩ :: h => acceptFailures h + 1
  | _ :: h => acceptFailures h

/-- How many `send` calls have met a connection that the peer has reset. -/
@[simp] def brokenPipes : List Happening → ℕ
  | [] => 0
  | ⟨.send .., .error .EPIPE⟩ :: h => brokenPipes h + 1
  | _ :: h => brokenPipes h

/-- How far the server has got with its current connection. -/
inductive Phase where
  | idle
  | accepted (fd : ℤ) (peer : InAddr)
  | requested (fd : ℤ) (payload : Bytes)
deriving DecidableEq

/-- The phase of the turn: between `accept` and `recv` there is an accepted connection, after
`recv` and up to the return of `RunServer` a request. -/
@[simp] def phase : List Happening → Phase
  | [] => .idle
  | ⟨.accept _, .ok (c, peer)⟩ :: _ => .accepted c peer
  | ⟨.accept _, .error _⟩ :: _ => .idle
  | ⟨.recv fd _, .ok b⟩ :: _ => .requested fd b
  | ⟨.recv _ _, .error _⟩ :: _ => .idle
  | ⟨.loadQuit, _⟩ :: _ => .idle
  | _ :: h => phase h

/-- The error that a `send` on the connection named by `fd` has met, if one has. -/
@[simp] def sendError (fd : ℤ) : List Happening → Option Errno
  | [] => none
  | ⟨.accept _, .ok (c, _)⟩ :: h => if c = fd then none else sendError fd h
  | ⟨.send fd' _, .error e⟩ :: h => if fd' = fd then some e else sendError fd h
  | _ :: h => sendError fd h

/-- The lines written to the console and to the log file, the latest first. -/
@[simp] def lines : List Happening → List Bytes
  | [] => []
  | ⟨.stdout t, _⟩ :: h => t :: lines h
  | ⟨.logFile _ t, _⟩ :: h => t :: lines h
  | _ :: h => lines h

end KCNet.Server
