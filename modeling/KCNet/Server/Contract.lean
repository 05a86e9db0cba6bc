import KCNet.Server.Sending
import KCNet.Server.Turn

/-!
# What the server guarantees

One pass over the server program, from its loop inwards. It ties the fields that the singleton
keeps across connections to the peer that is being served, and says what the server does with
a request: whom it reads from, what it sends, who may stop it, and that it answers.

## Main definitions

- `AtRecv` — the state in which the server is about to read
- `Contract` — the guarantee of every operation
- `Head` — the invariant of the loop
-/

namespace KCNet.Server

open Interaction TcpServer

/-- The address that may shut the server down. -/
def adminAddr : InAddr := ⟨192, 168, 1, 108⟩

/-- `userIp` is compared as text, which identifies the address. -/
theorem inetNtop_eq_admin_iff {a : InAddr} : inetNtop a = ascii "192.168.1.108" ↔ a = adminAddr :=
  inetNtop_injective.eq_iff' (by decide)

/-- The permission to stop the server: a request, its sender and its text. -/
def Authorised (s : State) : Prop :=
  ∃ fd p, phase s.history = .requested fd p ∧ acceptedFrom fd s.history = some adminAddr ∧
    s.world.descriptors fd = some (.connection adminAddr) ∧ cString p = ascii "SHUTDOWN"

/-- The server owes `data` to the request `p` on `fd`: the notice to a banned peer, an echo to any
other as long as no banned peer has been served. -/
def Owes (h : List Happening) (fd : ℤ) (p data : Bytes) : Prop :=
  ∃ a, acceptedFrom fd h = some a ∧
    (Banned a ∧ data = bannedMessage ∨ ¬ bannedSeen h ∧ data = p)

/-- What is owed has been sent, as far as the connection took it. -/
def Answered (h : List Happening) : Prop :=
  ∀ fd p data, phase h = .requested fd p → p ≠ [] → Owes h fd p data →
    sentOn fd h <+: data ∧ (sentOn fd h = data ∨ sendError fd h ≠ none)

/-- No connection has been accepted without a `recv` on it. -/
def Received (h : List Happening) : Prop := ∀ fd a, phase h ≠ .accepted fd a

/-- `fd` is a fresh connection to `a`, and `client_address` is its address. -/
structure Connected (s : State) (fd : ℤ) (a : InAddr) : Prop where
  nonneg : 0 ≤ fd
  descriptor : s.world.descriptors fd = some (.connection a)
  accepted : phase s.history = .accepted fd a
  peer : acceptedFrom fd s.history = some a
  address : s.world.memory.tcpServer.clientAddress = a.toSockAddr
  quiet : sentOn fd s.history = []

/-- The server is about to read from `fd`, which is a fresh connection unless `accept` failed. -/
structure AtRecv (s : State) (fd : ℤ) : Prop where
  running : s.world.memory.isServerRunning = true
  constructed : s.world.memory.constructed = true
  flag : s.world.memory.tcpServer.connectionPacket.isUserBanned = true ↔ bannedSeen s.history
  connection : fd = -1 ∧ phase s.history = .idle ∨ ∃ a, Connected s fd a

/-- The guarantee of each operation of the server. -/
def Contract (s : State) : (o : SysOp) → o.Res → Prop
  | .accept fd, _ => fd = s.world.memory.tcpServer.serverFd ∧ phase s.history = .idle ∧
      s.world.memory.isServerRunning = true
  | .recv fd len, _ => len = 1024 - 1 ∧ AtRecv s fd
  | .send fd buf, _ => ∃ p data, phase s.history = .requested fd p ∧ p ≠ [] ∧
      Owes s.history fd p data ∧ sentOn fd s.history ++ buf = data
  | .store m, _ => s.world.memory.isServerRunning = true → m.isServerRunning = false →
      Authorised s
  | .loadQuit, _ => Received s.history ∧ Answered s.history
  | _, _ => True

/-- Memory may be written freely as long as the server keeps running. -/
theorem contract_store {s : State} {m : Memory}
    (h : m.isServerRunning = s.world.memory.isServerRunning) : Contract s (.store m) () := by
  intro h1 h2
  simp [h, h1] at h2

/-- The state at the head of the loop. -/
structure Head (s : State) : Prop where
  flag : s.world.memory.tcpServer.connectionPacket.isUserBanned = true ↔ bannedSeen s.history
  fresh : s.world.memory.constructed = false → ¬ bannedSeen s.history
  idle : phase s.history = .idle

/-- A request has been received: the state in which `ReadFromClient` goes on after `recv`. -/
structure Requested (s : State) (fd : ℤ) (a : InAddr) (p : Bytes) : Prop where
  constructed : s.world.memory.constructed = true
  nonempty : p ≠ []
  descriptor : s.world.descriptors fd = some (.connection a)
  requested : phase s.history = .requested fd p
  peer : acceptedFrom fd s.history = some a
  address : s.world.memory.tcpServer.clientAddress = a.toSockAddr
  seen : Banned a → bannedSeen s.history

/-- No byte has been sent yet, and the flag is one data package behind. -/
structure Unjudged (s : State) (fd : ℤ) (a : InAddr) (p : Bytes) : Prop
    extends Requested s fd a p where
  quiet : sentOn fd s.history = []
  flag : s.world.memory.tcpServer.connectionPacket.isUserBanned = true ∨ Banned a ↔
    bannedSeen s.history

/-- The turn is over but for the test of `quit`. -/
structure Finished (s : State) : Prop where
  constructed : s.world.memory.constructed = true
  flag : s.world.memory.tcpServer.connectionPacket.isUserBanned = true ↔ bannedSeen s.history
  received : Received s.history
  answered : Answered s.history

/-- The end of a send loop leaves either all the data sent or an error behind. -/
theorem SendResult.sentOn_or_sendError {fd : ℤ} {data : Bytes} {k : ℕ} {es h : List Happening}
    {r : ℤ} (he : SendEvents fd data k es) (hr : SendResult fd data k es r)
    (hq : sentOn fd h = []) :
    sentOn fd (es ++ h) <+: data ∧
      (sentOn fd (es ++ h) = data ∨ sendError fd (es ++ h) ≠ none) := by
  rw [he.sentOn_append, hq, List.nil_append]
  refine ⟨List.take_prefix _ _, ?_⟩
  cases hr with
  | all hk _ => exact .inl (by simp [hk])
  | full e _ => exact .inr (by simp)
  | failed e _ => exact .inr (by simp)

/-- A request depends on these readings of the state only. -/
theorem Requested.congr {s s' : State} {fd : ℤ} {a : InAddr} {p : Bytes} (h : Requested s fd a p)
    (hc : s'.world.memory.constructed = s.world.memory.constructed := by rfl)
    (hd : s'.world.descriptors = s.world.descriptors := by rfl)
    (hadr : s'.world.memory.tcpServer.clientAddress = s.world.memory.tcpServer.clientAddress := by
      rfl)
    (hp : phase s'.history = phase s.history := by rfl)
    (hac : acceptedFrom fd s'.history = acceptedFrom fd s.history := by rfl)
    (hb : bannedSeen s'.history = bannedSeen s.history := by rfl) : Requested s' fd a p where
  constructed := hc.trans h.constructed
  nonempty := h.nonempty
  descriptor := (congrFun hd fd).trans h.descriptor
  requested := hp.trans h.requested
  peer := hac.trans h.peer
  address := hadr.trans h.address
  seen := by simpa only [hb] using h.seen

theorem Requested.append {s : State} {fd : ℤ} {a : InAddr} {p data : Bytes} {k : ℕ}
    {es : List Happening} (h : Requested s fd a p) (he : SendEvents fd data k es) :
    Requested (s.append es) fd a p :=
  h.congr rfl rfl rfl he.phase_append (he.acceptedFrom_append fd) he.bannedSeen_append

theorem Requested.received {s : State} {fd : ℤ} {a : InAddr} {p : Bytes} (h : Requested s fd a p) :
    Received s.history := by
  intro fd' a' ha
  exact absurd (h.requested.symm.trans ha) (by simp)

/-- The only debts of a request are the notice and the echo. -/
theorem Requested.answered {s : State} {fd : ℤ} {a : InAddr} {p : Bytes} (h : Requested s fd a p)
    (hnotice : Banned a → sentOn fd s.history <+: bannedMessage ∧
      (sentOn fd s.history = bannedMessage ∨ sendError fd s.history ≠ none))
    (hecho : ¬ bannedSeen s.history → sentOn fd s.history <+: p ∧
      (sentOn fd s.history = p ∨ sendError fd s.history ≠ none)) : Answered s.history := by
  intro fd' p' data hp _ ⟨a', ha', ho⟩
  obtain ⟨rfl, rfl⟩ := Phase.requested.inj (h.requested.symm.trans hp)
  obtain rfl := Option.some.inj (h.peer.symm.trans ha')
  rcases ho with ⟨hb, rfl⟩ | ⟨hb, rfl⟩
  · exact hnotice hb
  · exact hecho hb

/-- Sending what is owed, from a connection on which nothing has been sent. -/
theorem sendNonBlocking_contract {s : State} {fd : ℤ} {a : InAddr} {p buf data : Bytes} {len : ℕ}
    (h : Requested s fd a p) (hq : sentOn fd s.history = []) (hlen : len ≤ buf.length)
    (hdata : buf.take len = data) (ho : Owes s.history fd p data) {Q : ℤ → State → Prop}
    (hQ : ∀ k es r, SendEvents fd data k es → SendResult fd data k es r → Q r (s.append es)) :
    Keeps Contract (sendNonBlocking fd buf len) Q s := by
  subst hdata
  refine keeps_sendNonBlocking hlen ?_ (fun _ _ _ => trivial) hQ
  intro k es he _ r
  refine ⟨p, buf.take len, (h.append he).requested, h.nonempty, ?_, ?_⟩
  · simpa only [Owes, State.append_history, he.acceptedFrom_append, he.bannedSeen_append] using ho
  · rw [State.append_history, he.sentOn_append, hq, List.nil_append, List.take_append_drop]

/-- An echo is due, and nothing has been sent. -/
structure Serving (s : State) (fd : ℤ) (a : InAddr) (p : Bytes) : Prop
    extends Requested s fd a p where
  quiet : sentOn fd s.history = []
  unseen : ¬ bannedSeen s.history
  unset : s.world.memory.tcpServer.connectionPacket.isUserBanned = false

theorem reloadCommand_contract {s : State} {fd : ℤ} {a : InAddr} {p : Bytes}
    (h : Serving s fd a p) (buffer userIp : Bytes) :
    Keeps Contract (reloadCommand buffer userIp) (fun _ s' => Serving s' fd a p) s := by
  have said (t : Bytes) : Serving (s.after (.stdout t) ()) fd a p :=
    { h with toRequested := h.toRequested.congr }
  simp only [reloadCommand, Program.ensures_ite, keeps_stdout, Program.ensures_pure]
  exact ⟨fun _ => ⟨fun _ _ => ⟨trivial, said _⟩, fun _ _ => ⟨trivial, said _⟩⟩, fun _ => h⟩

/-- The only place at which `isServerRunning` is cleared. -/
theorem shutdownCommand_contract {s : State} {fd : ℤ} {a : InAddr} {p buffer : Bytes}
    (h : Serving s fd a p) (hbuf : cString buffer = cString p) :
    Keeps Contract (shutdownCommand buffer (inetNtop a)) (fun _ s' => Serving s' fd a p) s := by
  have said (t : Bytes) : Serving (s.after (.stdout t) ()) fd a p :=
    { h with toRequested := h.toRequested.congr }
  simp only [shutdownCommand, Program.ensures_ite, Program.ensures_bind, hbuf]
  refine ⟨fun hcmd => ⟨fun hadmin => ?_, fun _ => ?_⟩, fun _ => ?_⟩
  · refine (keeps_logOutput _ _).2 fun _ => ⟨trivial, ?_⟩
    refine (keeps_setServerRunning _ _).2 fun _ => ⟨trivial, fun _ _ => ?_, ?_⟩
    · -- the text of `userIp` is that of the peer's address, so the peer is the administrator
      obtain rfl := inetNtop_eq_admin_iff.1 hadmin
      exact ⟨fd, p, h.requested, h.peer, h.descriptor, hcmd⟩
    · exact { h with toRequested := h.toRequested.congr }
  · exact (keeps_logOutput _ _).2 fun _ => ⟨trivial, said _⟩
  · refine (keeps_logOutput _ _).2 fun _ => ⟨trivial, ?_⟩
    refine (keeps_log _ _ _).2 fun _ => ⟨trivial, ?_⟩
    exact { h with toRequested := h.toRequested.congr }

/-- A connection that the server can read from is a fresh one. -/
theorem AtRecv.connected {s : State} {fd : ℤ} (h : AtRecv s fd)
    (hc : s.world.descriptors.connected fd = true) : ∃ a, Connected s fd a := by
  rcases h.connection with ⟨rfl, -⟩ | hconn
  · -- -1 is no descriptor
    exact absurd (DescriptorTable.connected_iff.1 hc).1 (by decide)
  · exact hconn

/-- The state after `recv` has delivered a request. -/
theorem AtRecv.unjudged {s : State} {fd : ℤ} (h : AtRecv s fd)
    (hc : s.world.descriptors.connected fd = true) {p : Bytes} (hp : p ≠ []) (len : ℕ) :
    ∃ a, Unjudged (s.after (.recv fd len) (.ok p)) fd a p := by
  obtain ⟨a, hconn⟩ := h.connected hc
  have hseen : bannedSeen (⟨.recv fd len, .ok p⟩ :: s.history) ↔
      Banned a ∨ bannedSeen s.history := by
    simp [hp, hconn.peer]
  refine ⟨a, ?_⟩
  exact { constructed := h.constructed
          nonempty := hp
          descriptor := hconn.descriptor
          requested := rfl
          peer := hconn.peer
          address := hconn.address
          seen := fun hb => hseen.2 (.inl hb)
          quiet := hconn.quiet
          flag := by
            rw [State.after_history, hseen, ← h.flag, or_comm]
            rfl }

/-- A banned peer gets the notice. -/
theorem handleMessage_contract_banned {s : State} {fd : ℤ} {a : InAddr} {p : Bytes}
    (h : Unjudged s fd a p) (hb : Banned a) :
    Keeps Contract (handleMessage fd p) (fun _ s' => Finished s') s := by
  have hsay : Requested ((s.after .load s.world.memory).after (.stdout (banLine (inetNtop a))) ())
      fd a p := h.toRequested.congr
  apply keeps_handleMessage_banned hb h.address trivial trivial
  refine sendNonBlocking_contract hsay h.quiet le_rfl (List.take_length ..)
    ⟨a, h.peer, .inl ⟨hb, rfl⟩⟩ ?_
  intro k es r he hr
  have happ := hsay.append he
  refine ⟨trivial, contract_store rfl, trivial, ?_⟩
  exact { constructed := happ.constructed
          flag := iff_of_true rfl (happ.seen hb)
          received := happ.received
          answered := happ.answered (fun _ => hr.sentOn_or_sendError he h.quiet)
            fun hn => absurd (happ.seen hb) hn }

/-- Once the flag is set, nothing is owed to any other peer. -/
theorem handleMessage_contract_barred {s : State} {fd : ℤ} {a : InAddr} {p : Bytes}
    (h : Unjudged s fd a p) (hb : ¬ Banned a)
    (hflag : s.world.memory.tcpServer.connectionPacket.isUserBanned = true) :
    Keeps Contract (handleMessage fd p) (fun _ s' => Finished s') s := by
  have hseen : bannedSeen s.history := h.flag.1 (.inl hflag)
  apply keeps_handleMessage_barred hb h.address hflag fun _ => trivial
  exact { constructed := h.constructed
          flag := iff_of_true hflag hseen
          received := h.toRequested.received
          answered := h.toRequested.answered (fun hn => absurd hn hb) fun hn => absurd hseen hn }

/-- While it is not set, every other peer gets its echo. -/
theorem handleMessage_contract_heard {s : State} {fd : ℤ} {a : InAddr} {p : Bytes}
    (h : Unjudged s fd a p) (hb : ¬ Banned a)
    (hflag : s.world.memory.tcpServer.connectionPacket.isUserBanned = false) :
    Keeps Contract (handleMessage fd p) (fun _ s' => Finished s') s := by
  have hunseen : ¬ bannedSeen s.history := fun hs => by simpa [hflag, hb] using h.flag.2 hs
  have hserving : Serving (s.heard a) fd a p :=
    { toRequested := h.toRequested.congr
      quiet := h.quiet
      unseen := hunseen
      unset := hflag }
  refine keeps_handleMessage_heard hb h.address hflag (fun _ => trivial)
    (fun _ _ hm => contract_store hm) ?_
  apply (reloadCommand_contract hserving _ _).post
  intro _ s1 h1
  apply (shutdownCommand_contract h1 (cString_zeroFilled 1024 p)).post
  intro _ s2 h2
  refine sendNonBlocking_contract h2.toRequested h2.quiet (by simp [zeroFilled])
    (take_zeroFilled 1024 p) ⟨a, h2.peer, .inr ⟨h2.unseen, rfl⟩⟩ fun k es r he hr => ?_
  have happ := h2.toRequested.append he
  have hnone : ¬ bannedSeen (es ++ s2.history) := by
    rw [he.bannedSeen_append]
    exact h2.unseen
  exact { constructed := happ.constructed
          flag := iff_of_false (by simp [h2.unset]) hnone
          received := happ.received
          answered := happ.answered (fun hn => absurd hn hb)
            fun _ => hr.sentOn_or_sendError he h2.quiet }

theorem handleMessage_contract {s : State} {fd : ℤ} {a : InAddr} {p : Bytes}
    (h : Unjudged s fd a p) : Keeps Contract (handleMessage fd p) (fun _ s' => Finished s') s := by
  by_cases hb : Banned a
  · exact handleMessage_contract_banned h hb
  · cases hflag : s.world.memory.tcpServer.connectionPacket.isUserBanned with
    | true => exact handleMessage_contract_barred h hb hflag
    | false => exact handleMessage_contract_heard h hb hflag

/-- `ReadFromClient` answers what it reads, if it reads anything. -/
theorem readFromClient_contract {s : State} {fd : ℤ} (h : AtRecv s fd) :
    Keeps Contract (readFromClient fd) (fun _ s' => Finished s') s := by
  simp only [readFromClient, Program.ensures_bind, keeps_recv]
  intro _
  refine ⟨fun e => ⟨⟨rfl, h⟩, ?_⟩, fun b hc hb => ⟨⟨rfl, h⟩, ?_⟩⟩
  · exact { constructed := h.constructed
            flag := h.flag
            received := by simp [Received]
            answered := fun _ _ _ hp => by cases hp }
  · simp only [Program.ensures_ite, Program.ensures_pure]
    refine ⟨fun hpos => ?_, fun hpos => ?_⟩
    · obtain ⟨a, hu⟩ := h.unjudged hc (List.length_pos_iff.1 hpos) (1024 - 1)
      exact handleMessage_contract hu
    · -- the end of the stream is no message
      obtain rfl : b = [] := by simpa using hpos
      exact { constructed := h.constructed
              flag := h.flag.trans (by simp)
              received := by simp [Received]
              answered := fun fd' p data hp hne => by
                obtain ⟨-, rfl⟩ := Phase.requested.inj hp
                exact absurd rfl hne }

/-- The instance exists and the loop goes on. -/
structure Ready (s : State) : Prop where
  running : s.world.memory.isServerRunning = true
  constructed : s.world.memory.constructed = true
  flag : s.world.memory.tcpServer.connectionPacket.isUserBanned = true ↔ bannedSeen s.history
  idle : phase s.history = .idle

theorem Aside.contract {s : State} {o : SysOp} {r : o.Res} (h : Aside s o r) : Contract s o r := by
  cases o with
  | store m => exact contract_store h
  | accept | recv | send | loadQuit => exact h.elim
  | _ => trivial

theorem Accepting.contract {s₀ s : State} {o : SysOp} {r : o.Res} (h : Accepting s₀ s o r)
    (hready : Ready s₀) : Contract s o r := by
  cases o with
  | accept fd =>
    obtain ⟨rfl, rfl⟩ := h
    exact ⟨rfl, hready.idle, hready.running⟩
  | close => trivial
  | socket => exact h.elim
  | _ => exact Aside.contract h

/-- However `accept` ends, the fields that name the client are those of the next `recv`. -/
theorem setupClientConnection_contract {s : State} (h : Ready s) :
    Keeps Contract setupClientConnection
      (fun _ s' => AtRecv s' s'.world.memory.tcpServer.clientFd) s := by
  apply (setupClientConnection_accepting s).mono fun _ _ _ _ hg => hg.contract h
  rintro _ s' (⟨e, rfl⟩ | ⟨c, peer, -, hc, -, rfl⟩)
  · -- `client_fd` is -1, and the old `client_address` is of no use to anybody
    exact { running := h.running
            constructed := h.constructed
            flag := h.flag
            connection := .inl ⟨rfl, rfl⟩ }
  · exact { running := h.running
            constructed := h.constructed
            flag := h.flag
            connection := .inr ⟨peer, {
              nonneg := hc
              descriptor := by simp [State.connected, DescriptorTable.set_self]
              accepted := rfl
              peer := by simp [State.connected]
              address := rfl
              quiet := by simp [State.connected] }⟩ }

theorem AtRecv.after_load {s : State} {fd : ℤ} (h : AtRecv s fd) :
    AtRecv (s.after .load s.world.memory) fd :=
  { h with connection := h.connection.imp id fun ⟨a, hc⟩ => ⟨a, { hc with }⟩ }

theorem runServer_contract {s : State} (h : Ready s) :
    Keeps Contract runServer (fun rc s' => rc = exitSuccess → Finished s') s := by
  have hload : Ready (s.after .load s.world.memory) := { h with }
  refine keeps_runServer (fun _ => trivial) (fun _ hrc => absurd hrc (by decide)) fun _ => ?_
  apply (setupClientConnection_contract hload).post
  intro _ s1 h1
  exact (readFromClient_contract h1.after_load).post fun _ s2 h2 _ => h2

/-- The constructor clears the flag, which is harmless: nothing has been received yet. -/
theorem getInstance_contract {s : State} (h : Head s)
    (hrun : s.world.memory.isServerRunning = true) :
    Keeps Contract getInstance (fun _ s' => Ready s') s := by
  apply (getInstance_building s).mono fun _ _ _ _ hg => hg.aside.contract
  rintro _ s' (⟨hc, rfl⟩ | ⟨hc, c, rfl⟩)
  · exact { running := hrun, constructed := hc, flag := h.flag, idle := h.idle }
  · exact { running := hrun
            constructed := rfl
            flag := iff_of_false (Bool.eq_false_iff.1 rfl) (h.fresh hc)
            idle := h.idle }

/-- Nothing is promised of the state that the destructor leaves behind. -/
theorem leave_contract (s : State) (code : ℤ) :
    Keeps Contract (leave code) (fun t _ => t = .halt code) s :=
  (leave_leaving s code).mono (fun _ _ _ _ hg => hg.aside.contract) fun _ _ h => h.1

/-- What holds when a turn of the loop is over. -/
def TurnEnds (t : Turn ℤ) (s : State) : Prop := t = .again → Head s

/-- The head of the loop after a turn that has not failed. -/
theorem Finished.head {s : State} (h : Finished s) (b : Bool) : Head (s.after .loadQuit b) where
  flag := h.flag
  fresh := fun hc => by simp [h.constructed] at hc
  idle := rfl

theorem mainLoop_contract {s : State} (h : Head s) : Keeps Contract mainLoop TurnEnds s := by
  have hleave (s' : State) (code : ℤ) : Keeps Contract (leave code) TurnEnds s' :=
    (leave_contract s' code).post fun t _ ht ha => by simp [ht] at ha
  have hload : Head (s.after .load s.world.memory) := { h with }
  refine keeps_mainLoop (fun _ => trivial) (fun hrun => ?_) fun _ => hleave _ _
  apply (getInstance_contract hload hrun).post
  intro _ s1 h1
  apply (runServer_contract h1).post
  intro rc s2 h2
  refine ⟨fun _ => hleave _ _, fun hrc b => ?_⟩
  have h2 := h2 hrc
  exact ⟨⟨h2.received, h2.answered⟩, fun _ => hleave _ _, fun _ _ => h2.head b⟩

/-- The head of the loop when `main` enters it. -/
theorem head_start (files : ℤ → Bool) (m : Memory)
    (hm : m.tcpServer.connectionPacket.isUserBanned = false) :
    Head (State.update ⟨World.start files, []⟩ m) where
  flag := iff_of_false (Bool.eq_false_iff.1 hm) id
  fresh := fun _ => id
  idle := rfl

theorem mainStart_contract {files : ℤ → Bool} :
    Keeps Contract mainStart TurnEnds ⟨World.start files, []⟩ := by
  refine keeps_mainStart (fun _ => trivial) (fun m hm _ hf => ?_) fun _ => head_start files _ rfl
  simp [hm] at hf

/-- At every point of every run, the rest of the turn keeps the contract. -/
theorem contract_of_reaches {files : ℤ → Bool} {s : State} {p : Sys (Turn ℤ)}
    (h : Reaches files s p) : Keeps Contract p TurnEnds s :=
  Env.Reach.ensures (fun _ hs => mainLoop_contract (hs rfl)) mainStart_contract h

end KCNet.Server
