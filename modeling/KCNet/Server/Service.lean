import KCNet.Interaction.Machine
import KCNet.Server.BanEnforcement
import KCNet.Server.Interpretation

/-!
# The service that the server provides

The server as a machine: it takes requests, each with the address of its sender, and answers each
with what it prints, records and sends. The machine knows nothing of descriptors, `accept` and
partial writes. At the head of its loop the server has said, sent and remembered what the machine
says, sends and remembers for the requests that it has read.

## Main definitions

- `echoService` — the machine
- `exchanges`, `requests` — the requests in a history, with what has been sent for each
- `Provides` — the server is where the machine is
-/

namespace KCNet.Server

open Interaction TcpServer

/-! ## The machine -/

/-- A message and the address that it comes from. -/
structure Request where
  peer : InAddr
  payload : Bytes
deriving DecidableEq

/-- What a request is answered with: lines on the console, entries of the log file, and the reply,
of which the connection may take a part only. -/
structure Response where
  console : List Bytes
  logged : List Bytes
  reply : Bytes
deriving DecidableEq

/-- What the service remembers of the requests: whether one came from the ban list, and whether none
has stopped it. -/
structure Standing where
  barred : Bool
  running : Bool
deriving DecidableEq

/-- The request is listened to. -/
def Standing.hears (m : Standing) (x : Request) : Bool := !m.barred && !decide (Banned x.peer)

/-- The echo service with its ban list and its remote switch. Once a banned peer has spoken up, only
the banned get an answer. -/
def echoService : Machine Standing Request Response where
  start := ⟨false, true⟩
  next m x :=
    { barred := m.barred || decide (Banned x.peer)
      running := m.running &&
        !(m.hears x && decide (x.peer = adminAddr ∧ cString x.payload = ascii "SHUTDOWN")) }
  output m x :=
    if Banned x.peer then ⟨[banLine (inetNtop x.peer)], [], bannedMessage⟩
    else if m.barred then ⟨[], [], []⟩
    else ⟨consoleOf x.peer x.payload, loggedOf x.payload, x.payload⟩

@[simp] theorem echoService_next_barred (m : Standing) (x : Request) :
    (echoService.next m x).barred = (m.barred || decide (Banned x.peer)) := rfl

@[simp] theorem echoService_next_running (m : Standing) (x : Request) :
    (echoService.next m x).running =
    (m.running && !(m.hears x &&
      decide (x.peer = adminAddr ∧ cString x.payload = ascii "SHUTDOWN"))) := rfl

theorem echoService_output_banned {m : Standing} {x : Request} (hb : Banned x.peer) :
    echoService.output m x = ⟨[banLine (inetNtop x.peer)], [], bannedMessage⟩ := if_pos hb

theorem echoService_output_barred {m : Standing} {x : Request} (hb : ¬ Banned x.peer)
    (hm : m.barred = true) : echoService.output m x = ⟨[], [], []⟩ := (if_neg hb).trans (if_pos hm)

theorem echoService_output_heard {m : Standing} {x : Request} (hb : ¬ Banned x.peer)
    (hm : m.barred = false) :
    echoService.output m x = ⟨consoleOf x.peer x.payload, loggedOf x.payload, x.payload⟩ :=
  (if_neg hb).trans (if_neg (by simp [hm]))

/-- The service is barred by the first request from a banned peer. -/
theorem echoService_barred_iff (xs : List Request) :
    (echoService.stateAfter xs).barred = true ↔ ∃ x ∈ xs, Banned x.peer := by
  rw [Machine.flag_iff (S := fun _ x => Banned x.peer) rfl fun m x => by simp]
  constructor
  · rintro ⟨later, x, past, rfl, hx⟩
    exact ⟨x, by simp, hx⟩
  · rintro ⟨x, hmem, hx⟩
    obtain ⟨later, past, rfl⟩ := List.append_of_mem hmem
    exact ⟨later, x, past, rfl, hx⟩

/-- The service is stopped by the first shutdown command from the administrator that it hears. -/
theorem echoService_stopped_iff (xs : List Request) :
    (echoService.stateAfter xs).running = false ↔ ∃ later x past, xs = later ++ x :: past ∧
      x.peer = adminAddr ∧ cString x.payload = ascii "SHUTDOWN" ∧ ∀ y ∈ past, ¬ Banned y.peer := by
  have hadmin : ¬ Banned adminAddr := by decide
  have hflag := Machine.flag_iff (M := echoService) (f := fun m => !m.running)
    (S := fun m x => m.hears x = true ∧ x.peer = adminAddr ∧ cString x.payload = ascii "SHUTDOWN")
    rfl (fun m x => by cases hm : m.running <;> simp [hm]) xs
  rw [← Bool.not_eq_true', hflag]
  constructor
  · rintro ⟨later, x, past, rfl, hhears, hpeer, htext⟩
    refine ⟨later, x, past, rfl, hpeer, htext, fun y hy hb => ?_⟩
    have hbarred := (echoService_barred_iff past).2 ⟨y, hy, hb⟩
    simp [Standing.hears, hbarred] at hhears
  · rintro ⟨later, x, past, rfl, hpeer, htext, hpast⟩
    refine ⟨later, x, past, rfl, ?_, hpeer, htext⟩
    have hbarred : (echoService.stateAfter past).barred = false := by
      rw [← Bool.not_eq_true, echoService_barred_iff]
      exact fun ⟨y, hy, hb⟩ => hpast y hy hb
    simp [Standing.hears, hbarred, hpeer, hadmin]

/-! ## The requests of a history -/

/-- A request with the bytes that have been sent for it, and the last error of `send` on the way. -/
structure Exchange extends Request where
  sent : Bytes
  failure : Option Errno
deriving DecidableEq

/-- The requests that have been read, the latest first. What is sent is sent for the latest one. -/
@[simp] def exchanges : List Happening → List Exchange
  | [] => []
  | ⟨.recv fd _, .ok b⟩ :: h =>
    if b = [] then exchanges h
    else
      match acceptedFrom fd h with
      | some a => ⟨⟨a, b⟩, [], none⟩ :: exchanges h
      | none => exchanges h
  | ⟨.send _ buf, .ok n⟩ :: h =>
    (exchanges h).modifyHead fun e => { e with sent := e.sent ++ buf.take n }
  | ⟨.send _ _, .error err⟩ :: h => (exchanges h).modifyHead fun e => { e with failure := some err }
  | _ :: h => exchanges h

/-- The requests that have been read, the latest first. -/
def requests (h : List Happening) : List Request := (exchanges h).map Exchange.toRequest

@[simp] theorem requests_send (fd : ℤ) (buf : Bytes) (r : Except Errno ℕ) (h : List Happening) :
    requests (⟨.send fd buf, r⟩ :: h) = requests h := by
  cases r <;> cases hx : exchanges h <;> simp [requests, hx]

/-- The connection has got the reply, or its beginning if a `send` has failed. -/
def Exchange.Answered (e : Exchange) (out : Response) : Prop :=
  e.sent <+: out.reply ∧ (e.failure = none → e.sent = out.reply)

/-- What the constructor of the server prints and records. -/
def startConsole : List Bytes :=
  [consoleLine [ascii "TCP server listening on port ", ascii (toString listenPort)],
    consoleLine [ascii "(INSECURE) Starting TCP socket without SSL for TcpServer."]]

def startLogged : List Bytes :=
  [ascii "(INSECURE) Starting TCP socket without SSL for TcpServer."]

/-- The server with the history `h`, whose flags are `barred` and `running`, is where the machine is
after the same requests. -/
structure Provides (barred running : Bool) (h : List Happening) : Prop where
  standing : echoService.stateAfter (requests h) = ⟨barred, running⟩
  console : console h = (echoService.outputs (requests h)).flatMap Response.console ++ startConsole
  logged : logged h = (echoService.outputs (requests h)).flatMap Response.logged ++ startLogged
  answered : List.Forall₂ Exchange.Answered (exchanges h) (echoService.outputs (requests h))

/-- The flags of the server and its history. -/
def State.Provides (s : State) : Prop :=
  KCNet.Server.Provides s.world.memory.tcpServer.connectionPacket.isUserBanned
    s.world.memory.isServerRunning s.history

variable {s s' : State} {fd : ℤ} {a : InAddr} {p : Bytes} {cs ls : List Bytes}
  {es h : List Happening}

/-- Operations that are neither heard nor seen change nothing. -/
theorem Provides.congr {barred running : Bool} {h' : List Happening}
    (hs : KCNet.Server.Provides barred running h)
    (hexchanges : exchanges h' = exchanges h := by rfl)
    (hconsole : KCNet.Server.console h' = KCNet.Server.console h := by rfl)
    (hlogged : KCNet.Server.logged h' = KCNet.Server.logged h := by rfl) :
    KCNet.Server.Provides barred running h' := by
  have hrequests : requests h' = requests h := congrArg (List.map Exchange.toRequest) hexchanges
  exact { standing := by rw [hrequests, hs.standing]
          console := by rw [hrequests, hconsole, hs.console]
          logged := by rw [hrequests, hlogged, hs.logged]
          answered := by rw [hrequests, hexchanges]; exact hs.answered }

/-! ## What is sent for a request -/

/-- The send loop adds what it has sent to the latest request. -/
theorem SendEvents.exchanges_append {data : Bytes} {k : ℕ} (he : SendEvents fd data k es)
    {e : Exchange} {rest : List Exchange} (h₀ : exchanges h = e :: rest) (hf : e.failure = none) :
    exchanges (es ++ h) =
      { e with sent := e.sent ++ data.take k, failure := sendError fd es } :: rest := by
  induction he with
  | nil => simp [h₀, ← hf]
  | @took k es n _ _ hle ih =>
    simp only [List.cons_append, exchanges, ih, List.modifyHead_cons, sendError, List.append_assoc,
      List.take_add]
  | failed err _ _ ih =>
    simp only [List.cons_append, exchanges, ih, List.modifyHead_cons, sendError, if_true]
  | said _ _ ih => exact ih

theorem SendEvents.console_append {data : Bytes} {k : ℕ} (he : SendEvents fd data k es) :
    console (es ++ h) = console h := he.overlook (fun _ _ _ _ => rfl) fun _ _ => rfl

theorem SendEvents.logged_append {data : Bytes} {k : ℕ} (he : SendEvents fd data k es) :
    logged (es ++ h) = logged h := he.overlook (fun _ _ _ _ => rfl) fun _ _ => rfl

/-- However the loop ends, it has done its duty. -/
theorem SendResult.answered {data : Bytes} {k : ℕ} {r : ℤ} {x : Request} {out : Response}
    (he : SendEvents fd data k es) (hr : SendResult fd data k es r) (hout : out.reply = data) :
    Exchange.Answered ⟨x, data.take k, sendError fd es⟩ out := by
  subst hout
  refine ⟨List.take_prefix .., fun hnone => ?_⟩
  cases hr with
  | all hk _ => exact hk ▸ List.take_length
  | full e _ => simp at hnone
  | failed e _ => simp at hnone

/-! ## One request -/

/-- One more request is one more step of the machine. -/
theorem Provides.step {barred running barred' running' : Bool} {h' : List Happening}
    (hs : KCNet.Server.Provides barred running h) {e : Exchange}
    (hx : exchanges h' = e :: exchanges h)
    (hnext : echoService.next ⟨barred, running⟩ e.toRequest = ⟨barred', running'⟩)
    (hconsole : KCNet.Server.console h' =
      (echoService.output ⟨barred, running⟩ e.toRequest).console ++ KCNet.Server.console h)
    (hlogged : KCNet.Server.logged h' =
      (echoService.output ⟨barred, running⟩ e.toRequest).logged ++ KCNet.Server.logged h)
    (hanswered : e.Answered (echoService.output ⟨barred, running⟩ e.toRequest)) :
    KCNet.Server.Provides barred' running' h' := by
  have hreq : requests h' = e.toRequest :: requests h := congrArg _ hx
  exact { standing := by rw [hreq, Machine.stateAfter_cons, hs.standing, hnext]
          console := by
            rw [hreq, Machine.outputs_cons, hs.standing, hconsole, hs.console,
              List.flatMap_cons, List.append_assoc]
          logged := by
            rw [hreq, Machine.outputs_cons, hs.standing, hlogged, hs.logged,
              List.flatMap_cons, List.append_assoc]
          answered := by
            rw [hreq, Machine.outputs_cons, hs.standing, hx]
            exact hs.answered.cons hanswered }

/-- The request `p` from `a` has been read, and nothing has been done about it. What came before it
has been dealt with as the machine does. -/
structure Hearing (s : State) (a : InAddr) (p : Bytes) : Prop where
  address : s.world.memory.tcpServer.clientAddress = a.toSockAddr
  earlier : ∃ h, exchanges s.history = ⟨⟨a, p⟩, [], none⟩ :: exchanges h ∧
    console s.history = console h ∧ logged s.history = logged h ∧
    KCNet.Server.Provides s.world.memory.tcpServer.connectionPacket.isUserBanned
      s.world.memory.isServerRunning h

/-- No operation is asked to satisfy anything. -/
abbrev Free (_ : State) (o : SysOp) (_ : o.Res) : Prop := True

/-- Sending the reply completes the answer. -/
theorem sendNonBlocking_provides {buf data : Bytes} {len : ℕ} {barred running : Bool}
    {m : Standing} (hlen : len ≤ buf.length) (hdata : buf.take len = data)
    (hx : exchanges s.history = ⟨⟨a, p⟩, [], none⟩ :: exchanges h)
    (hm : KCNet.Server.Provides m.barred m.running h)
    (hnext : echoService.next m ⟨a, p⟩ = ⟨barred, running⟩)
    (hconsole : console s.history = (echoService.output m ⟨a, p⟩).console ++ console h)
    (hlogged : logged s.history = (echoService.output m ⟨a, p⟩).logged ++ logged h)
    (hreply : (echoService.output m ⟨a, p⟩).reply = data) {Q : ℤ → State → Prop}
    (hQ : ∀ r es, KCNet.Server.Provides barred running (es ++ s.history) → Q r (s.append es)) :
    Keeps Free (sendNonBlocking fd buf len) Q s := by
  subst hdata
  apply keeps_sendNonBlocking hlen (fun _ _ _ _ _ => trivial) (fun _ _ _ => trivial)
  intro k es r he hr
  apply hQ
  exact hm.step (he.exchanges_append hx rfl) hnext (he.console_append.trans hconsole)
    (he.logged_append.trans hlogged) (hr.answered he hreply)

/-- A banned peer gets the notice, and the service is barred. -/
theorem handleMessage_banned_provides (hs : Hearing s a p) (hb : Banned a) :
    Keeps Free (handleMessage fd p) (fun _ s' => s'.Provides) s := by
  obtain ⟨h, hx, hc, hl, hm⟩ := hs.earlier
  set m : Standing := ⟨s.world.memory.tcpServer.connectionPacket.isUserBanned,
    s.world.memory.isServerRunning⟩
  have hnext : echoService.next m ⟨a, p⟩ = ⟨true, m.running⟩ := by
    simp [echoService, hb, Standing.hears]
  have hout : echoService.output m ⟨a, p⟩ = ⟨[banLine (inetNtop a)], [], bannedMessage⟩ :=
    echoService_output_banned hb
  refine keeps_handleMessage_banned hb hs.address trivial trivial ?_
  refine sendNonBlocking_provides (h := h) (a := a) (p := p) (m := m) le_rfl
    (List.take_length ..) ?_ hm hnext ?_ ?_ ?_ ?_
  · exact hx
  · rw [hout]
    exact congrArg (List.cons _) hc
  · rw [hout]
    exact hl
  · rw [hout]
  · exact fun r es hp => ⟨trivial, trivial, trivial, hp.congr⟩

/-- Anybody else is overlooked when the service is barred. -/
theorem handleMessage_barred_provides (hs : Hearing s a p) (hb : ¬ Banned a)
    (hflag : s.world.memory.tcpServer.connectionPacket.isUserBanned = true) :
    Keeps Free (handleMessage fd p) (fun _ s' => s'.Provides) s := by
  obtain ⟨h, hx, hc, hl, hm⟩ := hs.earlier
  set m : Standing := ⟨s.world.memory.tcpServer.connectionPacket.isUserBanned,
    s.world.memory.isServerRunning⟩
  have hnext : echoService.next m ⟨a, p⟩ = m := by
    simp [echoService, hb, Standing.hears, m, hflag]
  have hout : echoService.output m ⟨a, p⟩ = ⟨[], [], []⟩ := echoService_output_barred hb hflag
  apply keeps_handleMessage_barred hb hs.address hflag fun _ => trivial
  refine hm.step (e := ⟨⟨a, p⟩, [], none⟩) hx hnext ?_ ?_ ?_
  · rw [hout]
    exact hc
  · rw [hout]
    exact hl
  · rw [hout]
    exact ⟨List.nil_prefix, fun _ => rfl⟩

/-! The commands, as far as they change the memory. -/

theorem reloadCommand_memory (buffer userIp : Bytes) (s : State) :
    Keeps Free (reloadCommand buffer userIp) (fun _ s' => s'.world.memory = s.world.memory) s := by
  simp only [reloadCommand, Program.ensures_ite, keeps_stdout, Program.ensures_pure]
  exact ⟨fun _ => ⟨fun _ _ => ⟨trivial, rfl⟩, fun _ _ => ⟨trivial, rfl⟩⟩, fun _ => trivial⟩

theorem shutdownCommand_memory (buffer userIp : Bytes) (s : State) :
    Keeps Free (shutdownCommand buffer userIp) (fun _ s' =>
      s'.world.memory.tcpServer = s.world.memory.tcpServer ∧
      s'.world.memory.isServerRunning = (s.world.memory.isServerRunning &&
        !decide (userIp = ascii "192.168.1.108" ∧ cString buffer = ascii "SHUTDOWN"))) s := by
  simp only [shutdownCommand, Program.ensures_ite, Program.ensures_bind]
  refine ⟨fun hcmd => ⟨fun hadmin => ?_, fun hadmin => ?_⟩, fun hcmd => ?_⟩
  · refine (keeps_logOutput _ _).2 fun _ => ⟨trivial, ?_⟩
    refine (keeps_setServerRunning _ _).2 fun _ => ⟨trivial, trivial, rfl, ?_⟩
    simp [hadmin, hcmd]
  · refine (keeps_logOutput _ _).2 fun _ => ⟨trivial, rfl, ?_⟩
    simp [hadmin]
  · refine (keeps_logOutput _ _).2 fun _ => ⟨trivial, ?_⟩
    refine (keeps_log _ _ _).2 fun _ => ⟨trivial, rfl, ?_⟩
    simp [hcmd]

/-- Anybody else is heard while the service is not barred. -/
theorem handleMessage_heard_provides (hs : Hearing s a p) (hb : ¬ Banned a)
    (hflag : s.world.memory.tcpServer.connectionPacket.isUserBanned = false) :
    Keeps Free (handleMessage fd p) (fun _ s' => s'.Provides) s := by
  obtain ⟨h, hx, hc, hl, hm⟩ := hs.earlier
  rw [hflag] at hm
  set m : Standing := ⟨false, s.world.memory.isServerRunning⟩
  have hout : echoService.output m ⟨a, p⟩ = ⟨consoleOf a p, loggedOf p, p⟩ :=
    echoService_output_heard hb rfl
  have hnext : echoService.next m ⟨a, p⟩ = ⟨false, m.running &&
      !decide (inetNtop a = ascii "192.168.1.108" ∧ cString p = ascii "SHUTDOWN")⟩ := by
    simp [echoService, m, hb, Standing.hears, inetNtop_eq_admin_iff]
  refine keeps_handleMessage_heard hb hs.address hflag (fun _ => trivial)
    (fun _ _ _ => trivial) ?_
  apply ((reloadCommand_grown (fun _ _ _ _ => trivial) (cString_zeroFilled 1024 p)).and
    (reloadCommand_memory ..)).mono (fun _ _ _ _ _ => trivial)
  intro _ s1 h1
  apply ((shutdownCommand_grown (fun _ _ _ _ => trivial) (cString_zeroFilled 1024 p)).and
    (shutdownCommand_memory ..)).mono (fun _ _ _ _ _ => trivial)
  intro _ s2 h2
  obtain ⟨es, hes, hadds⟩ := h1.1.trans h2.1
  have hx2 : exchanges s2.history = ⟨⟨a, p⟩, [], none⟩ :: exchanges h := by
    rw [hes, hadds.overlook (f := exchanges)
      fun o _ _ ho => by cases o <;> first | rfl | exact ho.elim]
    exact hx
  refine sendNonBlocking_provides (h := h) (a := a) (p := p) (m := m) (by simp [zeroFilled])
    (take_zeroFilled 1024 p) hx2 hm hnext ?_ ?_ ?_ ?_
  · rw [hout, hes, console, List.filterMap_append]
    exact congrArg₂ _ hadds.console hc
  · rw [hout, hes, logged, List.filterMap_append]
    exact congrArg₂ _ (hadds.logged.trans (List.append_nil _)) hl
  · rw [hout]
  · intro r es' hp
    have hserver : s2.world.memory.tcpServer.connectionPacket.isUserBanned = false := by
      rw [h2.2.1, h1.2]
      exact hflag
    have hrunning : s2.world.memory.isServerRunning = (m.running &&
        !decide (inetNtop a = ascii "192.168.1.108" ∧ cString p = ascii "SHUTDOWN")) := by
      rw [h2.2.2, h1.2, cString_zeroFilled]
      rfl
    simp only [State.Provides, State.append_world, hserver, hrunning]
    exact hp

/-- Whoever sends it, a message is dealt with as the machine does. -/
theorem handleMessage_provides (hs : Hearing s a p) :
    Keeps Free (handleMessage fd p) (fun _ s' => s'.Provides) s := by
  by_cases hb : Banned a
  · exact handleMessage_banned_provides hs hb
  · cases hflag : s.world.memory.tcpServer.connectionPacket.isUserBanned with
    | true => exact handleMessage_barred_provides hs hb hflag
    | false => exact handleMessage_heard_provides hs hb hflag

/-! ## The turns of the loop -/

theorem readFromClient_provides (hat : AtRecv s fd) (hs : s.Provides) :
    Keeps Free (readFromClient fd) (fun _ s' => s'.Provides) s := by
  simp only [readFromClient, Program.ensures_bind, keeps_recv, Program.ensures_ite,
    Program.ensures_pure]
  refine fun _ => ⟨fun e => ⟨trivial, hs.congr⟩, fun b hc _ => ⟨trivial, fun hpos => ?_,
    fun hpos => ?_⟩⟩
  · obtain ⟨a, hconn⟩ := hat.connected hc
    have hb : b ≠ [] := List.length_pos_iff.1 hpos
    refine handleMessage_provides (a := a) ⟨hconn.address, s.history, ?_, rfl, rfl, hs⟩
    simp [hb, hconn.peer]
  · obtain rfl : b = [] := by simpa using hpos
    exact hs.congr (by simp)

theorem setupClientConnection_provides (hs : s.Provides) :
    Keeps Free setupClientConnection (fun _ s' => s'.Provides) s := by
  apply (setupClientConnection_accepting s).mono fun _ _ _ _ _ => trivial
  rintro _ s' (⟨e, rfl⟩ | ⟨c, peer, -, -, -, rfl⟩)
  · exact hs.congr
  · exact hs.congr

theorem runServer_provides (hready : Ready s) (hs : s.Provides) :
    Keeps Free runServer (fun rc s' => s'.Provides ∧
      (rc ≠ exitSuccess → s'.world.memory.constructed = true)) s := by
  have hload : Ready (s.after .load s.world.memory) := { hready with }
  refine keeps_runServer (fun _ => trivial) (fun _ => ⟨hs.congr, fun _ => hready.constructed⟩)
    fun _ => ?_
  apply ((setupClientConnection_contract hload).and
    (setupClientConnection_provides hs.congr)).mono fun _ _ _ _ _ => trivial
  intro _ s1 h1
  apply (readFromClient_provides h1.1.after_load h1.2.congr).post
  intro _ s2 h2
  exact ⟨h2, fun hrc => absurd rfl hrc⟩

/-- The state before the constructor has run. -/
structure Blank (s : State) : Prop where
  constructed : s.world.memory.constructed = false
  running : s.world.memory.isServerRunning = true
  exchanges : exchanges s.history = []
  console : console s.history = []
  logged : logged s.history = []

theorem provides_start (hx : KCNet.Server.exchanges h = [])
    (hc : KCNet.Server.console h = startConsole) (hl : KCNet.Server.logged h = startLogged) :
    KCNet.Server.Provides false true h := by
  have hreq : requests h = [] := by rw [requests, hx, List.map_nil]
  exact { standing := by rw [hreq]; rfl
          console := by rw [hreq, hc]; rfl
          logged := by rw [hreq, hl]; rfl
          answered := by rw [hreq, hx]; exact .nil }

/-- What the constructor says is the beginning of the record. -/
theorem Blank.provides (h : Blank s) (c : ℤ) : (s.constructedOn c).Provides := by
  rw [State.Provides]
  simp only [State.constructedOn, State.listening, State.starting, State.update_world,
    State.after_world, effect, h.running]
  exact provides_start h.exchanges (congrArg (startConsole ++ ·) h.console)
    (congrArg (startLogged ++ ·) h.logged)

theorem getInstance_provides (h : s.world.memory.constructed = true ∧ s.Provides ∨ Blank s) :
    Keeps Free getInstance (fun _ s' => s'.Provides) s := by
  apply (getInstance_building s).mono fun _ _ _ _ _ => trivial
  rintro _ s' (⟨hc, rfl⟩ | ⟨hc, c, rfl⟩)
  · have hs := (h.resolve_right fun hblank => by simp [hblank.constructed] at hc).2
    exact hs.congr
  · have hblank := h.resolve_left fun hs => by simp [hs.1] at hc
    exact Blank.provides (s := s.after .load s.world.memory) { hblank with } c

/-- The server has left `main`. Up to the destructor it was where the machine is. -/
def Left (s : State) : Prop :=
  ∃ barred h, KCNet.Server.Provides barred s.world.memory.isServerRunning h ∧
    exchanges s.history = exchanges h ∧
    console s.history = consoleLine [closingText] :: console h ∧
    logged s.history = closingText :: logged h

theorem leave_provides (hc : s.world.memory.constructed = true) (hs : s.Provides) (code : ℤ) :
    Keeps Free (leave code) (fun t s' => t = .halt code ∧ Left s') s := by
  apply (leave_leaving s code).mono fun _ _ _ _ _ => trivial
  rintro t s' ⟨ht, rfl⟩
  rw [State.left, if_pos hc]
  exact ⟨ht, _, s.history, hs, rfl, rfl, rfl⟩

/-- The invariant of the loop. -/
def Providing (s : State) : Prop := s.world.memory.constructed = true ∧ s.Provides ∨ Blank s

/-- What holds when a turn of the loop is over. -/
def TurnProvides (t : Turn ℤ) (s : State) : Prop :=
  (t = .again → Head s ∧ Providing s) ∧ ∀ code, t = .halt code → Left s

theorem mainLoop_provides (hhead : Head s) (hs : Providing s) :
    Keeps Free mainLoop TurnProvides s := by
  have hleave {s' : State} (hc : s'.world.memory.constructed = true) (hs' : s'.Provides)
      (code : ℤ) : Keeps Free (leave code) TurnProvides s' := by
    apply (leave_provides hc hs' code).post
    rintro t s'' ⟨rfl, hleft⟩
    exact ⟨(by cases ·), fun _ _ => hleft⟩
  refine keeps_mainLoop (fun _ => trivial) (fun hrun => ?_) fun hstop => ?_
  · have hget := (getInstance_contract (s := s.after .load s.world.memory) { hhead with } hrun).and
      (getInstance_provides (s := s.after .load s.world.memory)
        (hs.imp (fun h => ⟨h.1, h.2.congr⟩) fun h => { h with }))
    apply hget.mono fun _ _ _ _ _ => trivial
    intro _ s1 h1
    apply ((runServer_contract h1.1).and (runServer_provides h1.1 h1.2)).mono
      fun _ _ _ _ _ => trivial
    intro rc s2 h2
    obtain ⟨hfinished, hs2, hc2⟩ := h2
    refine ⟨fun hrc => hleave (hc2 hrc) hs2 _, fun hrc b => ⟨trivial, fun _ => ?_, fun _ => ?_⟩⟩
    all_goals have hfinished := hfinished hrc
    · exact @hleave (State.after s2 .loadQuit b) hfinished.constructed hs2.congr _
    · exact ⟨fun _ => ⟨hfinished.head b, .inl ⟨hfinished.constructed, hs2.congr⟩⟩,
        fun _ ht => by cases ht⟩
  · rcases hs with ⟨hc, hs⟩ | hblank
    · exact @hleave (s.after .load s.world.memory) hc hs.congr _
    · simp [hblank.running] at hstop

theorem mainStart_provides {files : ℤ → Bool} :
    Keeps Free mainStart TurnProvides ⟨World.start files, []⟩ := by
  refine keeps_mainStart (fun _ => trivial) (fun _ _ => trivial) ⟨fun _ => ?_, ?_⟩
  · exact ⟨head_start files _ rfl, .inr ⟨rfl, rfl, rfl, rfl, rfl⟩⟩
  · exact fun _ ht => by cases ht

theorem provides_of_reaches {files : ℤ → Bool} {p : Sys (Turn ℤ)} (h : Reaches files s p) :
    Keeps Free p TurnProvides s :=
  Env.Reach.ensures (fun _ hs => mainLoop_provides (hs.1 rfl).1 (hs.1 rfl).2) mainStart_provides h

/-- When a turn is over, the server goes on exactly if the machine does. -/
theorem running_of_done {files : ℤ → Bool} {t : Turn ℤ} (h : Reaches files s (.done t)) :
    s.world.memory.isServerRunning = (echoService.stateAfter (requests s.history)).running := by
  have hturn : TurnProvides t s := provides_of_reaches h
  cases t with
  | again =>
    rcases (hturn.1 rfl).2 with ⟨-, hs⟩ | hblank
    · rw [hs.standing]
    · rw [hblank.running, requests, hblank.exchanges]
      rfl
  | halt code =>
    obtain ⟨barred, h, hs, hx, -⟩ := hturn.2 code rfl
    rw [requests, hx, ← requests, hs.standing]

/-! ## In the middle of a turn -/

/-- The machine is barred exactly after a request from a banned peer. -/
theorem barred_iff (h : List Happening) :
    (echoService.stateAfter (requests h)).barred = true ↔ bannedSeen h := by
  induction h with
  | nil => exact iff_of_false Bool.false_ne_true id
  | cons e h ih =>
    obtain ⟨o, r⟩ := e
    cases o with
    | recv fd len =>
      cases r with
      | error err => exact ih
      | ok b =>
        by_cases hb : b = []
        · simpa [requests, hb] using ih
        · cases ha : acceptedFrom fd h with
          | none => simpa [requests, hb, ha] using ih
          | some a =>
            have hreq : requests (⟨.recv fd len, .ok b⟩ :: h) = ⟨a, b⟩ :: requests h := by
              simp [requests, hb, ha]
            simp [hreq, ih, hb, ha, or_comm]
    | send fd buf => simpa using ih
    | accept fd => cases r <;> exact ih
    | _ => exact ih

/-- Wherever the server is, what it has sent for each request is the beginning of the reply. -/
structure Consistent (s : State) : Prop where
  current : ∀ fd p, phase s.history = .requested fd p → p ≠ [] → ∃ a failure rest,
    acceptedFrom fd s.history = some a ∧
      exchanges s.history = ⟨⟨a, p⟩, sentOn fd s.history, failure⟩ :: rest
  replies : List.Forall₂ (fun e out => e.sent <+: out.reply) (exchanges s.history)
    (echoService.outputs (requests s.history))

/-- What the server owes to the latest request is the reply of the machine to it. -/
theorem reply_of_owes {data : Bytes} (ho : Owes h fd p data) (ha : acceptedFrom fd h = some a)
    {past : List Request} (hreq : requests h = ⟨a, p⟩ :: past) :
    (echoService.output (echoService.stateAfter past) ⟨a, p⟩).reply = data := by
  obtain ⟨a', ha', howes⟩ := ho
  obtain rfl := Option.some.inj (ha.symm.trans ha')
  rcases howes with ⟨hb, rfl⟩ | ⟨hunseen, rfl⟩
  · rw [echoService_output_banned hb]
  · have hbarred : (echoService.stateAfter (⟨a, data⟩ :: past)).barred = false := by
      rw [← hreq, ← Bool.not_eq_true, barred_iff]
      exact hunseen
    simp only [Machine.stateAfter_cons, echoService_next_barred, Bool.or_eq_false_iff,
      decide_eq_false_iff_not] at hbarred
    rw [echoService_output_heard hbarred.2 hbarred.1]

theorem Consistent.step {o : SysOp} {r : o.Res} (hr : serverEnv.recorded.allowed s o r)
    (hc : Contract s o r) (h : Consistent s) : Consistent (s.after o r) := by
  cases o with
  | recv fd len =>
    cases r with
    | error e => exact ⟨fun _ _ hp => by simp at hp, h.replies⟩
    | ok b =>
      by_cases hb : b = []
      · refine ⟨fun fd' p hp hne => ?_, by simpa [requests, hb] using h.replies⟩
        obtain ⟨-, rfl⟩ := Phase.requested.inj hp
        exact absurd hb hne
      · simp only [serverEnv, answers, Env.recorded_allowed, Bool.and_eq_true] at hr
        obtain ⟨a, hconn⟩ := hc.2.connected hr.2.1
        have hx : exchanges (s.after (.recv fd len) (.ok b)).history =
            ⟨⟨a, b⟩, [], none⟩ :: exchanges s.history := by simp [hb, hconn.peer]
        have hreq : requests (s.after (.recv fd len) (.ok b)).history =
            ⟨a, b⟩ :: requests s.history := congrArg (List.map Exchange.toRequest) hx
        constructor
        · intro fd' p hp _
          obtain ⟨rfl, rfl⟩ := Phase.requested.inj hp
          refine ⟨a, none, exchanges s.history, hconn.peer, ?_⟩
          rw [hx, State.after_history, sentOn, hconn.quiet]
          · simp
          · simp
        · rw [hx, hreq, Machine.outputs_cons]
          exact h.replies.cons List.nil_prefix
  | send fd buf =>
    obtain ⟨p, data, hp, hne, ho, hdata⟩ := hc
    obtain ⟨a, failure, rest, ha, hx⟩ := h.current fd p hp hne
    cases r with
    | error e =>
      constructor
      · intro fd' p' hp' _
        obtain ⟨rfl, rfl⟩ := Phase.requested.inj (hp.symm.trans hp')
        exact ⟨a, some e, rest, ha, by simp [hx]⟩
      · have hreplies := h.replies
        rw [hx, List.forall₂_cons_left_iff] at hreplies
        obtain ⟨out, outs, hout, houts, heq⟩ := hreplies
        rw [State.after_history, requests_send, heq, exchanges, hx, List.modifyHead_cons]
        exact .cons hout houts
    | ok n =>
      constructor
      · intro fd' p' hp' _
        obtain ⟨rfl, rfl⟩ := Phase.requested.inj (hp.symm.trans hp')
        exact ⟨a, failure, rest, ha, by simp [hx]⟩
      · have hreq : requests s.history = ⟨a, p⟩ :: rest.map Exchange.toRequest := by
          rw [requests, hx, List.map_cons]
        have hreply := reply_of_owes ho ha hreq
        have hreplies := h.replies
        rw [hx, hreq, Machine.outputs_cons, List.forall₂_cons] at hreplies
        rw [State.after_history, requests_send, hreq, exchanges, hx, List.modifyHead_cons,
          Machine.outputs_cons]
        refine .cons ?_ hreplies.2
        rw [hreply, ← hdata]
        exact (List.prefix_append_right_inj _).2 (List.take_prefix ..)
  | accept fd => cases r <;> exact ⟨fun _ _ hp => by simp at hp, h.replies⟩
  | loadQuit => exact ⟨fun _ _ hp => by simp at hp, h.replies⟩
  | _ => exact ⟨h.current, h.replies⟩

theorem consistent_of_reaches {files : ℤ → Bool} {p : Sys (Turn ℤ)} (h : Reaches files s p) :
    Consistent s :=
  Env.Reach.invariant (fun _ _ _ hr hc hs => hs.step hr hc) (fun _ hs => mainLoop_contract (hs rfl))
    mainStart_contract ⟨fun _ _ hp => by simp at hp, .nil⟩ h

/-! ## The server and the machine -/

/-- A banned peer between two requests from another one. -/
def oneBanned : Script :=
  [.ok (⟨10, 0, 0, 1⟩, ascii "hello"), .ok (bannedAddr, ascii "hi"),
    .ok (⟨10, 0, 0, 1⟩, ascii "again")]

end KCNet.Server
