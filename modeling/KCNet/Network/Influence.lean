import KCNet.Network.Linearization

/-!
# What one client does to the others

Two requests of one client change what the server does for all others: the first request from a
banned address locks everybody else out, and a shutdown command from the administrator's address
ends the server. Both are read off the order in which the clients are served.

## Main definitions

- `Earned` — a client reports success only if it has got something
- `Commands` — the client has asked the server to shut down
-/

namespace KCNet.Network

open Interaction Client

variable {ι : Type} {addr : ι → InAddr} {order : List ι}

/-- What holds of the partners of all members of a list holds of the partner of each. -/
theorem exists_of_forall₂ {α β : Type} {R S : α → β → Prop} {as : List α} {bs : List β} {a : α}
    (hR : List.Forall₂ R as bs) (hS : List.Forall₂ S as bs) (ha : a ∈ as) :
    ∃ b, R a b ∧ S a b := by
  induction hR with
  | nil => cases ha
  | cons hab _ ih =>
    obtain ⟨hS, hrest⟩ := List.forall₂_cons.1 hS
    rcases List.mem_cons.1 ha with rfl | ha
    · exact ⟨_, hab, hS⟩
    · exact ih hrest ha

/-! ## Success -/

/-- Success is the verdict on a reply. -/
def Earned (r : Except Thrown ℤ) (h : List Client.Happening) : Prop :=
  r = .ok exitSuccess → Client.received h ≠ []

/-- Nothing is asked of the operations of a client. -/
abbrev Unasked (_ : Client.State) (o : Client.SysOp) (_ : o.Res) : Prop := True

theorem unasked {α : Type} (p : Program Client.SysOp Client.SysOp.Res α) (s : Client.State) :
    p.Ensures clientEnv.recorded Unasked (fun _ _ => True) s := by
  induction p generalizing s with
  | done a => exact trivial
  | call o k ih => exact fun r _ => ⟨trivial, ih r _⟩

theorem awaitReply_earned (sock : ℤ) (s : Client.State) :
    Client.Keeps Unasked (TcpClient.awaitReply sock) (fun r s' => Earned r s'.history) s := by
  have hfailed {s' : Client.State} : Earned (.ok exitFailure) s'.history := fun h => by cases h
  simp only [TcpClient.awaitReply, Program.ensures_run_bind, keeps_recv, Program.onOk_ok]
  intro r _ _
  refine ⟨trivial, ?_⟩
  cases r with
  | error e =>
    simp only [Program.ensures_run_bind, keeps_close, Program.onOk_ok, Program.ensures_run_pure]
    exact fun _ => ⟨trivial, hfailed⟩
  | ok reply =>
    simp only [TcpClient.verdict, logOutput, Program.ensures_run_ite,
      Program.ensures_run_bind, keeps_close, keeps_stdout, Program.onOk_ok,
      Program.ensures_run_pure]
    refine ⟨fun hlen => ⟨fun _ => ?_, fun _ => ?_⟩, fun _ => ?_⟩
    · exact fun _ => ⟨trivial, hfailed⟩
    · intro _
      refine ⟨trivial, fun _ => ?_⟩
      have hne : reply ≠ [] := List.length_pos_iff.1 hlen
      simp [hne]
    · exact fun _ => ⟨trivial, hfailed⟩

/-- Whatever has happened before, the call reports success only if it has got something. -/
theorem connectToServer_earned (command : ServerCommand) (s : Client.State) :
    Client.Keeps Unasked (TcpClient.connectToServer command)
      (fun r s' => Earned r s'.history) s := by
  have hthrown (e : Thrown) (s' : Client.State) : Earned (.error e) s'.history :=
    fun h => by cases h
  refine keeps_inScope ((unasked _ s).post fun r s1 _ => ?_)
  cases r with
  | error e => exact hthrown e s1
  | ok rng =>
    -- the destructor does not touch what has been received
    have hdestruct {s' : Client.State} {r : Except Thrown ℤ} (he : Earned r s'.history) :
        Program.Ensures clientEnv.recorded Unasked rng.destruct
          (fun _ s'' => Earned r s''.history) s' := by
      have hgen := ((destruct_generating rng (Q := fun _ => True) fun _ => trivial).maintain
        (fun _ _ _ _ hg hi => hi.trans hg.untouched) (Untouched.refl s'))
      refine hgen.mono (fun _ _ _ _ _ => trivial) fun _ s'' hu => ?_
      unfold Earned
      rw [hu.2.received]
      exact he
    simp only [Program.onOk_ok, Program.ensures_run_bind]
    apply (unasked _ _).post
    intro r s2 _
    cases r with
    | error e => exact hdestruct (hthrown e s2)
    | ok value =>
      apply (unasked _ _).post
      intro r s3 _
      cases r with
      | error e => exact hdestruct (hthrown e s3)
      | ok sock =>
        apply (unasked _ _).post
        intro r s4 _
        cases r with
        | error e => exact hdestruct (hthrown e s4)
        | ok u => exact (awaitReply_earned sock s4).post fun r s5 h5 => hdestruct h5

theorem ensures_killed {Q : Except Thrown ℤ → List Client.Happening → Prop} {c : ClientConfig}
    (h : c.2.Ensures clientEnv.recorded Unasked (fun r s => Q r s.history) c.1) :
    (kill c).2.Ensures clientEnv.recorded Unasked (fun r s => Q r s.history) (kill c).1 := by
  obtain ⟨s, p⟩ := c
  cases p with
  | done r => exact h
  | call o k => exact fun r hr => absurd hr (by simp [kill, clientEnv])

variable [DecidableEq ι] {files : ℤ → Bool} {world : ι → Client.World}
  {command : ι → ServerCommand} {x y : System ι}

/-- What every call of the clients ends with, however the steps of the parties are interleaved. -/
theorem ensures_of_reaches {Q : Except Thrown ℤ → List Client.Happening → Prop}
    (hstart : ∀ c s, Client.Keeps Unasked (TcpClient.connectToServer c)
      (fun r s' => Q r s'.history) s)
    (hx : Reaches addr files world command x) (i : ι) :
    (x.client i).2.Ensures clientEnv.recorded Unasked (fun r s => Q r s.history)
      (x.client i).1 := by
  induction hx with
  | refl => exact hstart (command i) _
  | tail _ hs ih =>
    obtain ⟨m, hs⟩ := hs
    cases hs with
    | server i' r hx ha hl => exact ih
    | again hx => exact ih
    | @client s o k i' r l hx ha hcon hl =>
      by_cases hi : i = i'
      · subst hi
        rw [hx] at ih
        simp only [Function.update_self]
        exact (ih r ha).2
      · simpa only [Function.update_of_ne hi] using ih
    | @quit i' =>
      by_cases hi : i = i'
      · subst hi
        simp only [Function.update_self]
        exact ensures_killed ih
      · simpa only [Function.update_of_ne hi] using ih

theorem earned_of_reaches (hx : Reaches addr files world command x) {i : ι}
    (hi : x.outcome i = some (.ok exitSuccess)) : x.readBy i ≠ [] := by
  have hend := ensures_of_reaches connectToServer_earned hx i
  rw [System.client_of_outcome hi] at hend
  exact hend rfl

/-- A call succeeds only if the server has sent something. -/
theorem reply_ne_nil_of_success (hx : Reaches addr files world command x) {i : ι}
    (hi : x.outcome i = some (.ok exitSuccess)) : (x.link i).reply ≠ [] := by
  intro hnil
  have hreceived := ((coherent_of_reaches hx).wired i).received
  rw [hnil, List.take_nil] at hreceived
  exact earned_of_reaches hx hi hreceived

/-! ## The ban -/

omit [DecidableEq ι] in
/-- Once a banned client has been served, the others that come after it get nothing. -/
theorem Linearizes.reply_eq_nil {later : List ι} (hl : Linearizes addr x (later ++ order)) {i j : ι}
    (hi : i ∈ order) (hb : Server.Banned (addr i)) (hj : j ∈ later)
    (hnb : ¬ Server.Banned (addr j)) : (x.link j).reply = [] := by
  have hbarred : (Server.echoService.stateAfter (order.map (x.message addr))).barred = true :=
    (Server.echoService_barred_iff _).2 ⟨_, List.mem_map_of_mem hi, hb⟩
  obtain ⟨answers, hanswers, hsilent⟩ := Machine.outputs_latched (M := Server.echoService)
    (P := fun m => m.barred = true)
    (R := fun x out => ¬ Server.Banned x.peer → out.reply = [])
    (fun m x hm => by simp [hm])
    (fun m x hm hnb => by rw [Server.echoService_output_barred hnb hm])
    hbarred (later.map (x.message addr))
  have hlength : later.length = answers.length := by simpa using hsilent.length_eq
  have hreplies := hl.replies
  rw [List.map_append, hanswers] at hreplies
  have hreplies := List.forall₂_take_append _ _ _ hreplies
  rw [← hlength, List.take_left] at hreplies
  obtain ⟨out, hout, hprefix⟩ := exists_of_forall₂ (List.forall₂_map_left_iff.1 hsilent) hreplies hj
  rwa [hout hnb, List.prefix_nil] at hprefix

/-- As soon as the server has read anything from a banned address, every other client of which it
has read nothing yet is locked out: it gets no reply, and its call does not report success. -/
theorem locked_out (hx : Reaches addr files world command x) {i j : ι}
    (hb : Server.Banned (addr i)) (hi : (x.link i).read ≠ 0) (hnb : ¬ Server.Banned (addr j))
    (hj : (x.link j).read = 0) (hy : Steps addr x y) :
    (y.link j).reply = [] ∧ y.outcome j ≠ some (.ok exitSuccess) := by
  obtain ⟨order, ho⟩ := exists_ordered hx
  obtain ⟨order', ⟨later, rfl⟩, ho'⟩ := ho.steps hx hy
  have hl := ho'.linearizes (coherent_of_reaches (hx.trans hy))
  have hreply : (y.link j).reply = [] := by
    by_cases hmem : j ∈ later
    · exact hl.reply_eq_nil ((ho.mem_iff i).2 hi) hb hmem hnb
    · -- of this client the server never reads anything
      apply ho'.silent
      by_contra hread
      rcases List.mem_append.1 ((ho'.mem_iff j).2 hread) with hlater | horder
      · exact hmem hlater
      · exact (ho.mem_iff j).1 horder hj
  exact ⟨hreply, fun hsuccess => reply_ne_nil_of_success (hx.trans hy) hsuccess hreply⟩

/-- A client from the banned address, and another one. -/
def oneIsBanned (banned : Bool) : InAddr := if banned then Server.bannedAddr else ⟨10, 0, 0, 1⟩

def oneIsBannedOracle : Oracle Bool where
  server := Server.Script.answer
    [.ok (oneIsBanned true, ascii "RELOAD"), .ok (oneIsBanned false, ascii "RELOAD")]
  client := obliging (ascii "You")
  allows _ := true

/-- The server has dealt with the banned client. -/
def bannedFirst : System Bool :=
  (System.start (fun _ => false) (fun _ => .start) fun _ => .RELOAD_COMMAND).play oneIsBanned
    oneIsBannedOracle (List.replicate 20 (.server true) ++ List.replicate 44 (.client true) ++
      List.replicate 12 (.server true))

/-- It has read the request of the other client, too. -/
def otherNext : System Bool :=
  bannedFirst.play oneIsBanned oneIsBannedOracle
    (List.replicate 44 (.client false) ++ List.replicate 12 (.server false))

theorem locked_out_otherNext :
    (otherNext.link false).request.take (otherNext.link false).read = ascii "RELOAD" ∧
      (otherNext.link false).reply = [] ∧ otherNext.outcome false ≠ some (.ok exitSuccess) :=
  ⟨by decide +kernel, locked_out (i := true) (System.play_steps ..).steps (by decide)
    (by decide +kernel) (by decide) (by decide +kernel) (System.play_steps ..).steps⟩

/-! ## Shutting down -/

/-- Only two commands can send the text, and nothing follows it in what has been read. -/
theorem request_shutdown {c : ServerCommand} {buf p : Bytes} (hreq : Request c buf)
    (hp : p <+: buf) (htext : cString p = ascii "SHUTDOWN") :
    p = ascii "SHUTDOWN" ∧ (c = .SHUTDOWN_COMMAND ∨ c = .URANDOM_MESSAGE) := by
  have hwhole : cString buf = buf → cString p = p := fun hbuf => by
    rw [Server.cString_eq_self_iff] at hbuf ⊢
    exact fun hz => hbuf (hp.subset hz)
  cases c with
  | URANDOM_MESSAGE => exact ⟨(hwhole hreq.cString_eq).symm.trans htext, .inr rfl⟩
  | SHUTDOWN_COMMAND =>
    obtain rfl := hreq
    exact ⟨(hwhole (by decide)).symm.trans htext, .inl rfl⟩
  | RELOAD_COMMAND =>
    obtain rfl := hreq
    rw [hwhole (by decide)] at htext
    exact absurd (htext ▸ hp) (by decide)
  | _ => exact hreq.elim

/-- Client `i` has asked for the shutdown, and nobody from a banned address has come before. -/
structure ShutsDown (addr : ι → InAddr) (command : ι → ServerCommand) (x : System ι)
    (earlier : List ι) (i : ι) : Prop where
  admin : addr i = Server.adminAddr
  text : (x.message addr i).payload = ascii "SHUTDOWN"
  command : command i = .SHUTDOWN_COMMAND ∨ command i = .URANDOM_MESSAGE
  unbarred : ∀ j ∈ earlier, ¬ Server.Banned (addr j)

/-- When the turn of the server is over, it has been stopped exactly if the administrator's client
has asked for it before any banned client has been served. -/
theorem shutdown_iff (hx : Reaches addr files world command x) {t : Turn ℤ}
    (ht : x.server.2 = .done t) :
    ∃ order, Linearizes addr x order ∧ (x.server.1.world.memory.isServerRunning = false ↔
      ∃ later i earlier, order = later ++ i :: earlier ∧
        ShutsDown addr command x earlier i) := by
  obtain ⟨order, ho⟩ := exists_ordered hx
  have hco := coherent_of_reaches hx
  have hreach : Server.Reaches files x.server.1 (.done t) := ht ▸ hco.server
  refine ⟨order, ho.linearizes hco, ?_⟩
  rw [Server.running_of_done hreach, ← ho.messages, Server.echoService_stopped_iff]
  constructor
  · rintro ⟨later', _, earlier', heq, hadmin, htext, hunbarred⟩
    obtain ⟨later, rest, rfl, rfl, hrest⟩ := List.map_eq_append_iff.1 heq
    obtain ⟨i, earlier, rfl, rfl, rfl⟩ := List.map_eq_cons_iff.1 hrest
    have hw := hco.wired i
    have hasked : (x.link i).request ≠ [] := fun hnil => by
      simp [System.message, Link.carried, hnil, cString, ascii] at htext
    obtain ⟨buf, hreq, hbuf⟩ := hw.asked.resolve_left hasked
    obtain ⟨hpayload, hcommand⟩ := request_shutdown hreq ((List.take_prefix ..).trans hbuf) htext
    exact ⟨later, i, earlier, rfl, hadmin, hpayload, hcommand,
      fun j hj => hunbarred _ (List.mem_map_of_mem hj)⟩
  · rintro ⟨later, i, earlier, rfl, hs⟩
    refine ⟨later.map (x.message addr), x.message addr i, earlier.map (x.message addr), by simp,
      hs.admin, ?_, fun y hy => ?_⟩
    · rw [hs.text]
      decide
    · obtain ⟨j, hj, rfl⟩ := List.mem_map.1 hy
      exact hs.unbarred j hj

/-- The administrator shuts the server down. -/
def shutDown : System Unit :=
  exchange Server.adminAddr .SHUTDOWN_COMMAND (ascii "SHUTDOWN") (ascii "SHUTDOWN") 23

theorem shutDown_reaches : Reaches (fun _ => Server.adminAddr) (fun _ => false) (fun _ => .start)
    (fun _ => .SHUTDOWN_COMMAND) shutDown := exchange_reaches ..

/-- The turn of the server is over, to be computed. -/
def turnOver : ServerConfig → Bool
  | (_, .done _) => true
  | (_, .call ..) => false

theorem exists_done {c : ServerConfig} (h : turnOver c = true) : ∃ t, c.2 = .done t := by
  obtain ⟨s, p⟩ := c
  cases p with
  | done t => exact ⟨t, rfl⟩
  | call o k => cases h

theorem shutdown_iff_shutDown : ∃ order,
    Linearizes (fun _ => Server.adminAddr) shutDown order ∧ ∃ later i earlier,
      order = later ++ i :: earlier ∧
        ShutsDown (fun _ => Server.adminAddr) (fun _ => .SHUTDOWN_COMMAND) shutDown earlier i := by
  obtain ⟨t, ht⟩ := exists_done (by decide +kernel : turnOver shutDown.server = true)
  obtain ⟨order, hl, hiff⟩ := shutdown_iff shutDown_reaches ht
  exact ⟨order, hl, hiff.1 (by decide +kernel)⟩

end KCNet.Network
