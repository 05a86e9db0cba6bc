import KCNet.Server.Environment

/-!
# The turns of the loop

One pass over each function that a turn is made of: what it may do, operation by operation, and the
state in which it ends, or, for a message and for the functions that call the others, the rule by
which it is used. What later modules want to know of these functions follows from it.

## Main definitions

- `Aside` — the operations that concern no client
- `Opening`, `Building`, `Accepting`, `Leaving` — the operations of `create_tcp_socket`,
  `getInstance`, `SetupClientConnection` and of the way out of `main`
- `State.Built`, `State.Admitted`, `State.left` — the states in which the last three end
- `State.heard` — the state in which a message is compared with the commands
-/

namespace KCNet.Server

open Interaction TcpServer

/-- The operations that concern no client. They neither stop the server nor set it running. -/
def Aside (s : State) : (o : SysOp) → o.Res → Prop
  | .store m, _ => m.isServerRunning = s.world.memory.isServerRunning
  | .accept _, _ | .recv .., _ | .send .., _ | .loadQuit, _ => False
  | _, _ => True

/-! ## The listening socket -/

/-- The operations of `create_tcp_socket`, called in the state `s₀`. -/
def Opening (s₀ s : State) : (o : SysOp) → o.Res → Prop
  | .socket, _ => s = s₀
  | .setsockopt _, _ | .bind .., _ | .listen .., _ | .perror _, _ | .close _, _
  | .stdout _, _ => True
  | _, _ => False

/-- The state in which the socket `c` listens on the port. -/
def State.listening (s : State) (c : ℤ) (port : ℕ) : State :=
  let bound := ((s.after .socket (.ok c)).after (.setsockopt c) ()).after (.bind c port) (.ok ())
  let line := consoleLine [ascii "TCP server listening on port ", ascii (toString listenPort)]
  (bound.after (.listen c 5) (.ok ())).after (.stdout line) ()

/-- Every failure ends the process. -/
theorem createTcpSocket_opening (s : State) (port : ℕ) :
    Keeps (Opening s) (createTcpSocket port) (fun c s' => s' = s.listening c port) s := by
  simp only [createTcpSocket, Program.ensures_bind, keeps_socket]
  intro _
  refine ⟨fun e => ⟨rfl, by simp [Opening]⟩, fun c _ _ => ⟨rfl, ?_⟩⟩
  simp only [keeps_setsockopt, keeps_bind]
  intro _
  refine ⟨trivial, fun r _ => ⟨trivial, ?_⟩⟩
  cases r with
  | error e => simp [Opening]
  | ok _ =>
    simp only [Program.ensures_bind, keeps_listen]
    intro r _
    refine ⟨trivial, ?_⟩
    cases r with
    | error e => simp [Opening]
    | ok _ =>
      simp only [Program.ensures_bind, keeps_logOutput, Program.ensures_pure]
      exact fun _ => ⟨trivial, rfl⟩

/-! ## The instance -/

/-- What the constructor prints and records. -/
def startingText : Bytes := ascii "(INSECURE) Starting TCP socket without SSL for TcpServer."

/-- The state in which the constructor opens its socket. -/
def State.starting (s : State) : State :=
  let told := s.after (.stdout (consoleLine [startingText])) ()
  (told.after (.logFile .LOG_INFO startingText) ()).update
    { s.world.memory with
      tcpServer := { s.world.memory.tcpServer with connectionPacket := ⟨[], false⟩ } }

/-- The state in which the server has been constructed with the listener `c`. -/
def State.constructedOn (s : State) (c : ℤ) : State :=
  let opened := s.starting.listening c listenPort
  let installed := opened.update
    { opened.world.memory with tcpServer := { opened.world.memory.tcpServer with serverFd := c } }
  installed.update { installed.world.memory with constructed := true }

/-- The operations of `getInstance`, called in the state `s₀`. Descriptors are touched by the
constructor only. -/
def Building (s₀ s : State) : (o : SysOp) → o.Res → Prop
  | .socket, _ => s₀.world.memory.constructed = false ∧
      s = (s₀.after .load s₀.world.memory).starting
  | .close _, _ => s₀.world.memory.constructed = false
  | o, r => Aside s o r

/-- The states in which `getInstance` ends. -/
def State.Built (s s' : State) : Prop :=
  s.world.memory.constructed = true ∧ s' = s.after .load s.world.memory ∨
    s.world.memory.constructed = false ∧
      ∃ c, s' = (s.after .load s.world.memory).constructedOn c

theorem Opening.building {s₀ s : State} {o : SysOp} {r : o.Res}
    (h : Opening (s₀.after .load s₀.world.memory).starting s o r)
    (hc : s₀.world.memory.constructed = false) : Building s₀ s o r := by
  cases o with
  | socket => exact ⟨hc, h⟩
  | close => exact hc
  | load | store | loadQuit | accept | recv | send | logFile | exit => exact h.elim
  | _ => trivial

theorem Building.aside {s₀ s : State} {o : SysOp} {r : o.Res} (h : Building s₀ s o r) :
    Aside s o r := by
  cases o with
  | socket | close => trivial
  | _ => exact h

theorem getInstance_building (s : State) :
    Keeps (Building s) getInstance (fun _ s' => s.Built s') s := by
  simp only [getInstance, construct, Program.ensures_bind, Program.ensures_ite,
    Program.ensures_pure]
  refine (keeps_load _).2 fun _ => ⟨trivial, fun hc => ?_, fun hc => ?_⟩
  · exact .inl ⟨hc, rfl⟩
  · have hc : s.world.memory.constructed = false := Bool.eq_false_iff.2 hc
    refine (keeps_logOutput _ _).2 fun _ => ⟨trivial, ?_⟩
    refine (keeps_log _ _ _).2 fun _ => ⟨trivial, ?_⟩
    refine (keeps_modifyServer _ _).2 fun _ => ⟨trivial, rfl, ?_⟩
    apply (createTcpSocket_opening _ _).mono fun _ _ _ _ ho => ho.building hc
    rintro c _ rfl
    refine (keeps_modifyServer _ _).2 fun _ => ⟨trivial, rfl, ?_⟩
    refine (keeps_load _).2 fun _ => ⟨trivial, ?_⟩
    refine (keeps_store _ _).2 fun _ => ⟨rfl, ?_⟩
    exact .inr ⟨hc, c, rfl⟩

/-! ## The next client -/

/-- The state after an `accept` that has failed: `client_fd` is -1, and the listener is closed. -/
def State.refused (s : State) (e : Errno) : State :=
  let t := s.world.memory.tcpServer
  let noted := (s.after (.accept t.serverFd) (.error e)).update
    { s.world.memory with tcpServer := { t with clientFd := -1 } }
  let told := noted.after (.perror (ascii "accept")) ()
  (told.after .load told.world.memory).after (.close t.serverFd) ()

/-- The state after an `accept` that has yielded the connection `c` to `peer`. -/
def State.connected (s : State) (c : ℤ) (peer : InAddr) : State :=
  let t := s.world.memory.tcpServer
  (s.after (.accept t.serverFd) (.ok (c, peer))).update
    { s.world.memory with
      tcpServer := { t with clientFd := c, clientAddress := peer.toSockAddr } }

/-- The operations of `SetupClientConnection`, called in the state `s₀`. Only after an `accept` that
has failed does it close anything. -/
def Accepting (s₀ s : State) : (o : SysOp) → o.Res → Prop
  | .accept fd, _ => s = s₀.after .load s₀.world.memory ∧ fd = s₀.world.memory.tcpServer.serverFd
  | .close _, _ => acceptFailures s.history ≠ 0
  | .socket, _ => False
  | o, r => Aside s o r

/-- The states in which `SetupClientConnection` ends. -/
def State.Admitted (s s' : State) : Prop :=
  (∃ e, s' = (s.after .load s.world.memory).refused e) ∨
    ∃ c peer, s.world.descriptors s.world.memory.tcpServer.serverFd = some .listener ∧ 0 ≤ c ∧
      s.world.descriptors c = none ∧ s' = (s.after .load s.world.memory).connected c peer

theorem setupClientConnection_accepting (s : State) :
    Keeps (Accepting s) setupClientConnection (fun _ s' => s.Admitted s') s := by
  simp only [setupClientConnection, Program.ensures_bind]
  refine (keeps_getServer _).2 fun _ => ⟨trivial, ?_⟩
  refine (keeps_accept _ _).2 fun _ => ⟨fun e => ⟨⟨rfl, rfl⟩, ?_⟩,
    fun c peer hl hc hn => ⟨⟨rfl, rfl⟩, ?_⟩⟩
  · simp only [Program.ensures_bind]
    refine (keeps_modifyServer _ _).2 fun _ => ⟨trivial, rfl, ?_⟩
    refine (keeps_perror _ _).2 fun _ => ⟨trivial, ?_⟩
    refine (keeps_getServer _).2 fun _ => ⟨trivial, ?_⟩
    refine (keeps_close _ _).2 fun _ => ⟨Nat.succ_ne_zero _, ?_⟩
    exact .inl ⟨e, rfl⟩
  · refine (keeps_modifyServer _ _).2 fun _ => ⟨trivial, rfl, ?_⟩
    exact .inr ⟨c, peer, hl, hc, hn, rfl⟩

/-! ## A message -/

theorem getClientIp_of_address {s : TcpServer} {a : InAddr}
    (h : s.clientAddress = a.toSockAddr) : s.getClientIp = inetNtop a := by
  simp [getClientIp, h, InAddr.toSockAddr, afInet]

theorem banned_iff {a : InAddr} : Banned a ↔ inetNtop a = ascii "192.168.1.81" := by
  simp [Banned, bannedClientIpVector]

/-- The line that reports a banned peer. -/
def banLine (ip : Bytes) : Bytes :=
  ascii "[DBG]: Banned IP " ++ ip ++ ascii " attempted to connect to the server.\n"

/-- The flag is set. -/
def Memory.barred (m : Memory) : Memory :=
  let t := m.tcpServer
  { m with
    tcpServer := { t with connectionPacket := { t.connectionPacket with isUserBanned := true } } }

/-- The state in which a message from `a` is compared with the commands. -/
def State.heard (s : State) (a : InAddr) : State :=
  let t := s.world.memory.tcpServer
  let known := ((s.after .load s.world.memory).after .load s.world.memory).update
    { s.world.memory with
      tcpServer := { t with connectionPacket := { t.connectionPacket with userIp := inetNtop a } } }
  known.after .load known.world.memory

section Message

variable {G : State → (o : SysOp) → o.Res → Prop} {Q : State → Prop} {s : State} {fd : ℤ}
  {a : InAddr} {p : Bytes}

/-- A banned peer gets the notice, and the flag is set. -/
theorem keeps_handleMessage_banned (hb : Banned a)
    (haddr : s.world.memory.tcpServer.clientAddress = a.toSockAddr)
    (hload : G s .load s.world.memory)
    (hsay : G (s.after .load s.world.memory) (.stdout (banLine (inetNtop a))) ())
    (hsend : Keeps G (sendNonBlocking fd bannedMessage bannedMessage.length) (fun _ s1 =>
        G s1 .load s1.world.memory ∧
        G (s1.after .load s1.world.memory) (.store s1.world.memory.barred) () ∧
        G (s1.update s1.world.memory.barred) .load s1.world.memory.barred ∧
        Q ((s1.update s1.world.memory.barred).after .load s1.world.memory.barred))
      ((s.after .load s.world.memory).after (.stdout (banLine (inetNtop a))) ())) :
    Keeps G (handleMessage fd p) (fun _ => Q) s := by
  have hip := (getClientIp_of_address haddr).trans (banned_iff.1 hb)
  rw [banned_iff.1 hb] at hsay hsend
  simp only [handleMessage, banLoop, bannedClientIpVector, Program.ensures_bind]
  refine (keeps_getServer _).2 fun _ => ⟨hload, ?_⟩
  simp only [hip, if_true, Program.ensures_bind]
  refine (keeps_stdout _ _).2 fun _ => ⟨hsay, ?_⟩
  apply hsend.post
  intro _ s1 h1
  obtain ⟨hread, hstore, htest, hQ⟩ := h1
  refine (keeps_modifyServer _ _).2 fun _ => ⟨hread, hstore, ?_⟩
  refine (keeps_getServer _).2 fun _ => ⟨htest, ?_⟩
  exact hQ

/-- Any other peer gets no answer once the flag is set. -/
theorem keeps_handleMessage_barred (hb : ¬ Banned a)
    (haddr : s.world.memory.tcpServer.clientAddress = a.toSockAddr)
    (hflag : s.world.memory.tcpServer.connectionPacket.isUserBanned = true)
    (hload : ∀ s : State, G s .load s.world.memory)
    (hQ : Q ((s.after .load s.world.memory).after .load s.world.memory)) :
    Keeps G (handleMessage fd p) (fun _ => Q) s := by
  have hip : s.world.memory.tcpServer.getClientIp ≠ ascii "192.168.1.81" :=
    (getClientIp_of_address haddr).trans_ne (banned_iff.not.1 hb)
  simp only [handleMessage, banLoop, bannedClientIpVector, Program.ensures_bind]
  refine (keeps_getServer _).2 fun _ => ⟨hload s, ?_⟩
  rw [if_neg hip]
  refine (keeps_getServer _).2 fun _ => ⟨hload _, ?_⟩
  simp only [State.after_world, effect, hflag, if_true]
  exact hQ

/-- While it is not set, the message is compared with the commands and echoed. -/
theorem keeps_handleMessage_heard (hb : ¬ Banned a)
    (haddr : s.world.memory.tcpServer.clientAddress = a.toSockAddr)
    (hflag : s.world.memory.tcpServer.connectionPacket.isUserBanned = false)
    (hload : ∀ s : State, G s .load s.world.memory)
    (hstore : ∀ (s : State) m, m.isServerRunning = s.world.memory.isServerRunning →
      G s (.store m) ())
    (hserve : Keeps G (reloadCommand (zeroFilled 1024 p) (inetNtop a)) (fun _ =>
      Keeps G (shutdownCommand (zeroFilled 1024 p) (inetNtop a)) fun _ =>
        Keeps G (sendNonBlocking fd (zeroFilled 1024 p) p.length) fun _ => Q) (s.heard a)) :
    Keeps G (handleMessage fd p) (fun _ => Q) s := by
  have haddr := getClientIp_of_address haddr
  have hip : s.world.memory.tcpServer.getClientIp ≠ ascii "192.168.1.81" :=
    haddr.trans_ne (banned_iff.not.1 hb)
  simp only [handleMessage, banLoop, bannedClientIpVector, Program.ensures_bind]
  refine (keeps_getServer _).2 fun _ => ⟨hload s, ?_⟩
  rw [if_neg hip]
  refine (keeps_getServer _).2 fun _ => ⟨hload _, ?_⟩
  simp only [State.after_world, effect, hflag, Bool.false_eq_true, if_false, serve,
    Program.ensures_bind]
  refine (keeps_modifyServer _ _).2 fun _ => ⟨hload _, hstore _ _ rfl, ?_⟩
  refine (keeps_getServer _).2 fun _ => ⟨hload _, ?_⟩
  simp only [State.update_world, State.after_world, effect, haddr]
  exact hserve

end Message

/-! ## The way out -/

/-- What the destructor prints and records. -/
def closingText : Bytes := ascii "Cleaning up and shutting down TcpServer."

/-- The state in which the destructor closes `client_fd`. -/
def State.closing (s : State) : State :=
  let told := (s.after .load s.world.memory).after (.stdout (consoleLine [closingText])) ()
  (told.after (.logFile .LOG_INFO closingText) ()).after .load s.world.memory

/-- The state that the destructor leaves behind. -/
def State.destructed (s : State) : State :=
  let t := s.world.memory.tcpServer
  ((s.closing.after (.close t.clientFd) ()).after (.close t.serverFd) ()).update
    { s.world.memory with
      tcpServer := { t with serverFd := 0, clientFd := 0, connectionPacket := ⟨[], false⟩ } }

/-- The state in which `main` is left. -/
def State.left (s : State) : State :=
  if s.world.memory.constructed then s.destructed else s.after .load s.world.memory

/-- The operations on the way out of `main`, from the state `s₀` on. -/
def Leaving (s₀ s : State) : (o : SysOp) → o.Res → Prop
  | .close fd, _ => s = s₀.closing ∧ fd = s₀.world.memory.tcpServer.clientFd ∨
      s = s₀.closing.after (.close s₀.world.memory.tcpServer.clientFd) () ∧
        fd = s₀.world.memory.tcpServer.serverFd
  | .socket, _ => False
  | o, r => Aside s o r

theorem Leaving.aside {s₀ s : State} {o : SysOp} {r : o.Res} (h : Leaving s₀ s o r) :
    Aside s o r := by
  cases o with
  | close => trivial
  | socket => exact h.elim
  | _ => exact h

theorem leave_leaving (s : State) (code : ℤ) :
    Keeps (Leaving s) (leave code) (fun t s' => t = .halt code ∧ s' = s.left) s := by
  simp only [leave, destruct, Program.ensures_bind, Program.ensures_ite, Program.ensures_pure]
  refine (keeps_load _).2 fun _ => ⟨trivial, fun hc => ?_, fun hc => ?_⟩
  · refine (keeps_logOutput _ _).2 fun _ => ⟨trivial, ?_⟩
    refine (keeps_log _ _ _).2 fun _ => ⟨trivial, ?_⟩
    refine (keeps_getServer _).2 fun _ => ⟨trivial, ?_⟩
    refine (keeps_close _ _).2 fun _ => ⟨.inl ⟨rfl, rfl⟩, ?_⟩
    refine (keeps_close _ _).2 fun _ => ⟨.inr ⟨rfl, rfl⟩, ?_⟩
    refine (keeps_modifyServer _ _).2 fun _ => ⟨trivial, rfl, ?_⟩
    exact ⟨trivial, (if_pos hc).symm⟩
  · exact ⟨trivial, (if_neg hc).symm⟩

/-! ## The rules for the functions that call them -/

section Rules

variable {G : State → (o : SysOp) → o.Res → Prop} {s : State}

/-- `RunServer` fails at once or serves one client. -/
theorem keeps_runServer {Q : ℤ → State → Prop} (hload : ∀ s : State, G s .load s.world.memory)
    (hzero : s.world.memory.tcpServer.serverFd = 0 →
      Q exitFailure (s.after .load s.world.memory))
    (hrun : s.world.memory.tcpServer.serverFd ≠ 0 →
      Keeps G setupClientConnection (fun _ s1 =>
        Keeps G (readFromClient s1.world.memory.tcpServer.clientFd) (fun _ => Q exitSuccess)
          (s1.after .load s1.world.memory)) (s.after .load s.world.memory)) :
    Keeps G runServer Q s := by
  simp only [runServer, Program.ensures_bind, Program.ensures_ite, Program.ensures_pure]
  refine (keeps_getServer _).2 fun _ => ⟨hload s, hzero, fun h0 => ?_⟩
  apply (hrun h0).post
  intro _ s1 h1
  exact (keeps_getServer _).2 fun _ => ⟨hload s1, h1⟩

/-- A turn of the loop. -/
theorem keeps_mainLoop {Q : Turn ℤ → State → Prop} (hload : ∀ s : State, G s .load s.world.memory)
    (hrun : s.world.memory.isServerRunning = true →
      Keeps G getInstance (fun _ => Keeps G runServer fun rc s2 =>
        (rc ≠ exitSuccess → Keeps G (leave exitFailure) Q s2) ∧
        (rc = exitSuccess → ∀ b, G s2 .loadQuit b ∧
          (b = true → Keeps G (leave exitSuccess) Q (s2.after .loadQuit b)) ∧
          (b = false → Q .again (s2.after .loadQuit b)))) (s.after .load s.world.memory))
    (hstop : s.world.memory.isServerRunning = false →
      Keeps G (leave exitSuccess) Q (s.after .load s.world.memory)) : Keeps G mainLoop Q s := by
  simp only [mainLoop, Program.ensures_bind, Program.ensures_ite]
  refine (keeps_getServerRunning _).2 fun _ => ⟨hload s, fun hr => ?_, fun hr => ?_⟩
  · apply (hrun hr).post
    intro _ s1 h1
    apply h1.post
    intro rc s2 h2
    refine ⟨h2.1, fun hrc => (keeps_loadQuit _).2 fun b _ => ?_⟩
    obtain ⟨hquit, hleave, hagain⟩ := h2.2 (not_not.1 hrc) b
    exact ⟨hquit, hleave, fun hb => hagain (Bool.eq_false_iff.2 hb)⟩
  · exact hstop (Bool.eq_false_iff.2 hr)

theorem keeps_mainStart {Q : Turn ℤ → State → Prop} (hload : ∀ s : State, G s .load s.world.memory)
    (hstore : ∀ m, m.isServerRunning = true → G (s.after .load s.world.memory) (.store m) ())
    (hQ : Q .again (s.update { s.world.memory with isServerRunning := true })) :
    Keeps G mainStart Q s := by
  simp only [mainStart, Program.ensures_bind, Program.ensures_pure]
  exact (keeps_setServerRunning _ _).2 fun _ => ⟨hload s, hstore _ rfl, hQ⟩

end Rules

end KCNet.Server
