import KCNet.Server.Contract

/-!
# Descriptors of the server

Which descriptors the server has been handed, which it has closed, and what its two fields
`server_fd` and `client_fd` name. The bookkeeping holds at the head of the loop; between an
`accept` and the next one nothing touches it.

## Main definitions

- `Books` — the bookkeeping of a constructed server
- `Quiet` — the operations that leave it alone
-/

namespace KCNet.Server

open Interaction TcpServer

/-- The bookkeeping of a constructed server. Every failed `accept` closes the listener again. -/
structure Books (s : State) : Prop where
  opened : opened s.history = accepted s.history ++ [s.world.memory.tcpServer.serverFd]
  closed : closed s.history =
    List.replicate (acceptFailures s.history) s.world.memory.tcpServer.serverFd
  apart : s.world.memory.tcpServer.serverFd ∉ accepted s.history
  listener : s.world.descriptors s.world.memory.tcpServer.serverFd =
    if acceptFailures s.history = 0 then some .listener else none
  client : acceptFailures s.history = 0 → 0 < acceptCalls s.history →
    s.world.memory.tcpServer.clientFd ∈ accepted s.history

/-- The operations of `ReadFromClient`: no descriptor is opened or closed, the fields that hold
descriptors keep their values, and the server is not set running. -/
def Quiet (s : State) : (o : SysOp) → o.Res → Prop
  | .store m, _ => m.constructed = s.world.memory.constructed ∧
      m.tcpServer.serverFd = s.world.memory.tcpServer.serverFd ∧
      m.tcpServer.clientFd = s.world.memory.tcpServer.clientFd ∧
      (m.isServerRunning = true → s.world.memory.isServerRunning = true)
  | .load, _ | .recv .., _ | .send .., _ | .stdout _, _ | .perror _, _
  | .logFile .., _ => True
  | _, _ => False

/-- All that the bookkeeping depends on. -/
structure SameBooks (s s' : State) : Prop where
  constructed : s'.world.memory.constructed = s.world.memory.constructed
  serverFd : s'.world.memory.tcpServer.serverFd = s.world.memory.tcpServer.serverFd
  clientFd : s'.world.memory.tcpServer.clientFd = s.world.memory.tcpServer.clientFd
  descriptors : s'.world.descriptors = s.world.descriptors
  accepted : accepted s'.history = accepted s.history
  opened : opened s'.history = opened s.history
  closed : closed s'.history = closed s.history
  acceptFailures : acceptFailures s'.history = acceptFailures s.history
  acceptCalls : acceptCalls s'.history = acceptCalls s.history

theorem SameBooks.refl (s : State) : SameBooks s s := by constructor <;> rfl

theorem SameBooks.trans {s s' s'' : State} (h : SameBooks s s') (h' : SameBooks s' s'') :
    SameBooks s s'' where
  constructed := h'.constructed.trans h.constructed
  serverFd := h'.serverFd.trans h.serverFd
  clientFd := h'.clientFd.trans h.clientFd
  descriptors := h'.descriptors.trans h.descriptors
  accepted := h'.accepted.trans h.accepted
  opened := h'.opened.trans h.opened
  closed := h'.closed.trans h.closed
  acceptFailures := h'.acceptFailures.trans h.acceptFailures
  acceptCalls := h'.acceptCalls.trans h.acceptCalls

theorem Books.congr {s s' : State} (h : Books s) (hs : SameBooks s s') : Books s' where
  opened := by rw [hs.opened, hs.accepted, hs.serverFd, h.opened]
  closed := by rw [hs.closed, hs.acceptFailures, hs.serverFd, h.closed]
  apart := by rw [hs.accepted, hs.serverFd]; exact h.apart
  listener := by rw [hs.descriptors, hs.serverFd, hs.acceptFailures, h.listener]
  client := by rw [hs.acceptFailures, hs.acceptCalls, hs.clientFd, hs.accepted]; exact h.client

theorem Quiet.sameBooks {s : State} {o : SysOp} {r : o.Res} (h : Quiet s o r) :
    SameBooks s (s.after o r) := by
  cases o with
  | store m =>
    exact { SameBooks.refl s with constructed := h.1, serverFd := h.2.1, clientFd := h.2.2.1 }
  | send fd buf =>
    cases r with
    | ok n => exact { SameBooks.refl s with }
    | error e => cases e <;> exact { SameBooks.refl s with }
  | recv fd len => cases r <;> exact { SameBooks.refl s with }
  | load | stdout | perror | logFile => exact { SameBooks.refl s with }
  | _ => exact h.elim

theorem sendNonBlocking_quiet (s : State) (fd : ℤ) {buf : Bytes} {len : ℕ}
    (hlen : len ≤ buf.length) :
    Keeps Quiet (sendNonBlocking fd buf len) (fun _ _ => True) s :=
  keeps_sendNonBlocking hlen (fun _ _ _ _ _ => trivial) (fun _ _ _ => trivial)
    fun _ _ _ _ _ => trivial

theorem banLoop_quiet (s : State) (fd : ℤ) (ips : List Bytes) :
    Keeps Quiet (banLoop fd ips) (fun _ _ => True) s := by
  induction ips generalizing s with
  | nil => trivial
  | cons ip ips ih =>
    simp only [banLoop, Program.ensures_bind, keeps_getServer]
    intro _
    refine ⟨trivial, ?_⟩
    split
    · simp only [Program.ensures_bind, keeps_stdout, keeps_modifyServer]
      intro _
      refine ⟨trivial, (sendNonBlocking_quiet _ fd le_rfl).post fun _ s' _ _ => ?_⟩
      exact ⟨trivial, ⟨rfl, rfl, rfl, id⟩, ih _⟩
    · exact ih _

theorem serve_quiet (s : State) (fd : ℤ) (message : Bytes) :
    Keeps Quiet (serve fd (zeroFilled 1024 message) message.length) (fun _ _ => True) s := by
  have hsend (s : State) := sendNonBlocking_quiet s fd
    (by simp [zeroFilled] : message.length ≤ (zeroFilled 1024 message).length)
  simp only [serve, reloadCommand, shutdownCommand, Program.ensures_bind, keeps_modifyServer,
    keeps_getServer, Program.ensures_ite, keeps_stdout, keeps_logOutput, keeps_log,
    keeps_setServerRunning, Program.ensures_pure]
  simp [Quiet, hsend]

theorem handleMessage_quiet (s : State) (fd : ℤ) (message : Bytes) :
    Keeps Quiet (handleMessage fd message) (fun _ _ => True) s := by
  simp only [handleMessage, Program.ensures_bind, keeps_getServer, Program.ensures_ite,
    Program.ensures_pure]
  refine (banLoop_quiet _ fd _).post fun _ s' _ _ => ?_
  exact ⟨trivial, fun _ => trivial, fun _ => serve_quiet _ fd message⟩

/-- `ReadFromClient` leaves the bookkeeping as it is. -/
theorem readFromClient_quiet (s : State) (fd : ℤ) :
    Keeps Quiet (readFromClient fd) (fun _ s' => SameBooks s s') s := by
  have h : Keeps Quiet (readFromClient fd) (fun _ _ => True) s := by
    simp only [readFromClient, Program.ensures_bind, keeps_recv]
    intro _
    refine ⟨fun e => ⟨trivial, trivial⟩, fun b _ _ => ⟨trivial, ?_⟩⟩
    simp only [Program.ensures_ite, Program.ensures_pure]
    exact ⟨fun _ => handleMessage_quiet _ fd b, fun _ => trivial⟩
  exact (h.frame (fun _ _ _ _ hq hs => hs.trans hq.sameBooks) (SameBooks.refl s)).post
    fun _ _ hs => hs.2

/-! ## The bookkeeping over a turn -/

/-- Unless an `accept` has failed, nothing is closed before it, and `close` is called on descriptors
that are open. -/
def Ledger (s : State) : (o : SysOp) → o.Res → Prop
  | .accept _, _ => acceptFailures s.history = 0 → closed s.history = []
  | .close fd, _ => acceptFailures s.history = 0 → 0 < acceptCalls s.history →
      (closed s.history).count fd < (opened s.history).count fd
  | _, _ => True

theorem Quiet.ledger {s : State} {o : SysOp} {r : o.Res} (h : Quiet s o r) : Ledger s o r := by
  cases o with
  | accept fd => exact h.elim
  | close fd => exact h.elim
  | _ => trivial

/-- No descriptor has been asked for yet. -/
structure Unopened (s : State) : Prop where
  opened : opened s.history = []
  accepted : accepted s.history = []
  closed : closed s.history = []
  failures : acceptFailures s.history = 0
  calls : acceptCalls s.history = 0

theorem Aside.acceptCalls {s : State} {o : SysOp} {r : o.Res} (h : Aside s o r) :
    Server.acceptCalls (s.after o r).history = Server.acceptCalls s.history := by
  cases o with
  | accept => exact h.elim
  | _ => rfl

/-- What the constructor closes is closed before the first `accept`. -/
theorem Building.ledger {s₀ s : State} {o : SysOp} {r : o.Res} (h : Building s₀ s o r)
    (hcalls : s₀.world.memory.constructed = false → acceptCalls s.history = 0) : Ledger s o r := by
  cases o with
  | close fd => exact fun _ hpos => absurd (hcalls h) hpos.ne'
  | accept => exact h.elim
  | _ => trivial

/-- The constructor opens the listener, the only descriptor so far. -/
theorem Unopened.books {s : State} (h : Unopened s) (c : ℤ) : Books (s.constructedOn c) where
  opened := by simp [State.constructedOn, State.listening, State.starting, h.opened, h.accepted]
  closed := by simp [State.constructedOn, State.listening, State.starting, h.closed, h.failures]
  apart := by simp [State.constructedOn, State.listening, State.starting, h.accepted]
  listener := by simp [State.constructedOn, State.listening, State.starting, h.failures]
  client := by simp [State.constructedOn, State.listening, State.starting, h.calls]

theorem getInstance_ledger {s : State}
    (h : s.world.memory.constructed = true ∧ Books s ∨
      s.world.memory.constructed = false ∧ Unopened s) :
    Keeps Ledger getInstance (fun _ s' => s'.world.memory.constructed = true ∧ Books s') s := by
  have hnone (hc : s.world.memory.constructed = false) : Unopened s :=
    (h.resolve_left fun ht => by simp [hc] at ht).2
  have hkept := (getInstance_building s).maintain
    (I := fun s' => acceptCalls s'.history = acceptCalls s.history)
    (fun _ _ _ _ hg hi => hg.aside.acceptCalls.trans hi) rfl
  refine hkept.mono (fun _ _ _ _ hg => hg.1.ledger fun hc => hg.2.trans (hnone hc).calls) ?_
  rintro _ s' ⟨⟨hc, rfl⟩ | ⟨hc, c, rfl⟩, -⟩
  · have hb := (h.resolve_right fun hf => by simp [hc] at hf).2
    exact ⟨hc, hb.congr { SameBooks.refl s with }⟩
  · have hu : Unopened (s.after .load s.world.memory) := { hnone hc with }
    exact ⟨rfl, hu.books c⟩

theorem Accepting.ledger {s₀ s : State} {o : SysOp} {r : o.Res} (h : Accepting s₀ s o r)
    (hb : Books s₀) : Ledger s o r := by
  cases o with
  | accept fd =>
    obtain ⟨rfl, rfl⟩ := h
    intro hf
    exact hb.closed.trans (by rw [show acceptFailures s₀.history = 0 from hf]; rfl)
  | close fd => exact fun hf => absurd hf h
  | _ => trivial

/-- A failed `accept` closes the listener. -/
theorem Books.refused {s : State} (h : Books s) (e : Errno) : Books (s.refused e) where
  opened := h.opened
  closed := by simp [State.refused, h.closed, List.replicate_succ]
  apart := h.apart
  listener := by simp [State.refused]
  client := by simp [State.refused]

theorem Books.connected {s : State} (h : Books s) {c : ℤ} (peer : InAddr)
    (hl : s.world.descriptors s.world.memory.tcpServer.serverFd = some .listener)
    (hn : s.world.descriptors c = none) : Books (s.connected c peer) := by
  have hne : s.world.memory.tcpServer.serverFd ≠ c := by
    rintro rfl
    simp [hl] at hn
  exact { opened := by simp [State.connected, h.opened]
          closed := h.closed
          apart := by simpa [State.connected, hne] using h.apart
          listener := by
            simpa [State.connected, DescriptorTable.set_of_ne _ _ hne] using h.listener
          client := by simp [State.connected] }

theorem setupClientConnection_ledger {s : State} (hc : s.world.memory.constructed = true)
    (h : Books s) : Keeps Ledger setupClientConnection (fun _ s' =>
      s'.world.memory.constructed = true ∧ Books s' ∧ 0 < acceptCalls s'.history) s := by
  have hload : Books (s.after .load s.world.memory) := h.congr { SameBooks.refl s with }
  apply (setupClientConnection_accepting s).mono fun _ _ _ _ hg => hg.ledger h
  rintro _ s' (⟨e, rfl⟩ | ⟨c, peer, hl, -, hn, rfl⟩)
  · exact ⟨hc, hload.refused e, Nat.succ_pos _⟩
  · exact ⟨hc, hload.connected peer hl hn, Nat.succ_pos _⟩

theorem runServer_ledger {s : State} (hc : s.world.memory.constructed = true) (h : Books s) :
    Keeps Ledger runServer (fun rc s' => s'.world.memory.constructed = true ∧ Books s' ∧
      (rc = exitSuccess → 0 < acceptCalls s'.history)) s := by
  have hload : Books (s.after .load s.world.memory) := h.congr { SameBooks.refl s with }
  refine keeps_runServer (fun _ => trivial)
    (fun _ => ⟨hc, hload, fun hrc => absurd hrc (by decide)⟩) fun _ => ?_
  apply (setupClientConnection_ledger (s := s.after .load s.world.memory) hc hload).post
  intro _ s1 h1
  obtain ⟨hc1, hb1, hn1⟩ := h1
  refine (readFromClient_quiet _ _).mono (fun _ _ _ _ hq => hq.ledger) fun _ s2 h2 => ?_
  exact ⟨h2.constructed.trans hc1, hb1.congr { h2 with }, fun _ => h2.acceptCalls ▸ hn1⟩

/-- What the destructor leaves behind. -/
structure Settled (s : State) : Prop where
  calls : 0 < acceptCalls s.history
  books : ∃ serverFd clientFd, opened s.history = accepted s.history ++ [serverFd] ∧
    closed s.history = serverFd :: clientFd ::
      List.replicate (acceptFailures s.history) serverFd ∧
    serverFd ∉ accepted s.history ∧
    (acceptFailures s.history = 0 → clientFd ∈ accepted s.history)

theorem Leaving.ledger {s₀ s : State} {o : SysOp} {r : o.Res} (h : Leaving s₀ s o r)
    (hb : Books s₀) : Ledger s o r := by
  cases o with
  | close fd =>
    intro hf hn
    rcases h with ⟨rfl, rfl⟩ | ⟨rfl, rfl⟩
    · -- `close(client_fd)`
      have hmem := hb.client hf hn
      have hclosed : closed s₀.closing.history = [] :=
        hb.closed.trans (by rw [show acceptFailures s₀.history = 0 from hf]; rfl)
      have hopened : opened s₀.closing.history = _ := hb.opened
      rw [hclosed, hopened]
      simpa using Or.inl hmem
    · -- `close(server_fd)`
      have hmem := hb.client hf hn
      have hne : s₀.world.memory.tcpServer.clientFd ≠ s₀.world.memory.tcpServer.serverFd :=
        fun he => hb.apart (he ▸ hmem)
      have hclosed : closed s₀.history = [] :=
        hb.closed.trans (by rw [show acceptFailures s₀.history = 0 from hf]; rfl)
      simp [State.closing, hclosed, hb.opened, hne]
  | accept => exact h.elim
  | _ => trivial

theorem Books.destructed {s : State} (h : Books s) (hn : 0 < acceptCalls s.history) :
    Settled s.destructed where
  calls := hn
  books := ⟨s.world.memory.tcpServer.serverFd, s.world.memory.tcpServer.clientFd, h.opened,
    congrArg (fun l => _ :: _ :: l) h.closed, h.apart, fun hf => h.client hf hn⟩

theorem leave_ledger {s : State} (hc : s.world.memory.constructed = true) (h : Books s) (code : ℤ) :
    Keeps Ledger (leave code)
      (fun t s' => t = .halt code ∧ (0 < acceptCalls s.history → Settled s')) s := by
  apply (leave_leaving s code).mono fun _ _ _ _ hg => hg.ledger h
  rintro t s' ⟨ht, rfl⟩
  rw [State.left, if_pos hc]
  exact ⟨ht, h.destructed⟩

/-- The invariant of the loop. -/
def LoopBooks (s : State) : Prop :=
  s.world.memory.constructed = true ∧ Books s ∧ 0 < acceptCalls s.history ∨
    s.world.memory.constructed = false ∧ Unopened s ∧ s.world.memory.isServerRunning = true

/-- What holds when a turn of the loop is over. -/
def TurnBooks (t : Turn ℤ) (s : State) : Prop :=
  (t = .again → LoopBooks s) ∧ (t = .halt exitSuccess → Settled s)

theorem mainLoop_ledger {s : State} (h : LoopBooks s) : Keeps Ledger mainLoop TurnBooks s := by
  have hsuccess {s' : State} (hc : s'.world.memory.constructed = true) (hb : Books s')
      (hn : 0 < acceptCalls s'.history) : Keeps Ledger (leave exitSuccess) TurnBooks s' := by
    apply (leave_ledger hc hb _).post
    intro t s'' h''
    obtain ⟨rfl, hs⟩ := h''
    exact ⟨fun ht => by simp at ht, fun _ => hs hn⟩
  refine keeps_mainLoop (fun _ => trivial) (fun hrun => ?_) fun hstop => ?_
  · refine (getInstance_ledger ?_).post fun _ s1 h1 => ?_
    · exact h.imp (fun hb => ⟨hb.1, hb.2.1.congr { SameBooks.refl s with }⟩)
        fun hu => ⟨hu.1, { hu.2.1 with }⟩
    apply (runServer_ledger h1.1 h1.2).post
    intro rc s2 h2
    obtain ⟨hc2, hb2, hn2⟩ := h2
    refine ⟨fun hrc => ?_, fun hrc b => ⟨trivial, fun _ => ?_, fun _ => ?_⟩⟩
    · apply (leave_ledger hc2 hb2 _).post
      intro t s3 h3
      obtain ⟨rfl, -⟩ := h3
      simp [TurnBooks, exitSuccess, exitFailure]
    all_goals have hb3 : Books (State.after s2 .loadQuit b) := hb2.congr { SameBooks.refl s2 with }
    · exact hsuccess hc2 hb3 (hn2 hrc)
    · exact ⟨fun _ => .inl ⟨hc2, hb3, hn2 hrc⟩, fun ht => by simp at ht⟩
  · rcases h with ⟨hc, hb, hn⟩ | ⟨-, -, hrun⟩
    · exact hsuccess hc (hb.congr { SameBooks.refl s with }) hn
    · simp [hrun] at hstop

/-- At every point of every run, the rest of the turn keeps the books. -/
theorem ledger_of_reaches {files : ℤ → Bool} {s : State} {p : Sys (Turn ℤ)}
    (h : Reaches files s p) : Keeps Ledger p TurnBooks s := by
  refine Env.Reach.ensures (fun s hs => mainLoop_ledger (hs.1 rfl)) ?_ h
  refine keeps_mainStart (fun _ => trivial) (fun _ _ => trivial) ⟨fun _ => .inr ⟨rfl, ?_, rfl⟩, ?_⟩
  · constructor <;> rfl
  · exact fun ht => by simp at ht

end KCNet.Server
