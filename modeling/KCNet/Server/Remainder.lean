import KCNet.Server.Accounting
import KCNet.Server.Descriptors
import KCNet.Server.Interpretation
import Mathlib.Data.List.TakeDrop

/-!
# The remainder of an echo

`SendNonBlocking` gives up when the socket buffer is full, and its caller forgets what is left. So
an echo is complete, when the server turns to the next connection, exactly if no `send` has failed
and nobody on the ban list has been served before.

## Main definitions

- `request` — the request that the server has read in the current turn
- `Complete` — when the echo of a request is complete
- `Settles` — the contract, with what holds at the end of each turn
-/

namespace KCNet.Server

open Interaction TcpServer

/-- The request that has been read since the last `accept`, if one has. -/
@[simp] def request : List Happening → Option (ℤ × Bytes)
  | [] => none
  | ⟨.accept _, _⟩ :: _ => none
  | ⟨.recv fd _, .ok b⟩ :: _ => some (fd, b)
  | ⟨.recv _ _, .error _⟩ :: _ => none
  | _ :: h => request h

/-- The kernel has got all of `p` if and only if no `send` on the connection has failed and no
banned peer has been served. -/
def Complete (fd : ℤ) (p : Bytes) (h : List Happening) : Prop :=
  sentOn fd h = p ↔ sendError fd h = none ∧ ¬ bannedSeen h

/-- The request of the turn, from an unbanned peer, has been dealt with. -/
def DealtWith (h : List Happening) : Prop :=
  ∀ fd p a, phase h = .requested fd p → p ≠ [] → acceptedFrom fd h = some a → ¬ Banned a →
    Complete fd p h

/-- Nothing has been sent on a connection that has just been accepted. -/
def Unfailed (h : List Happening) : Prop :=
  ∀ fd a, phase h = .accepted fd a → sendError fd h = none

/-- The operations within a turn. -/
def Within (_ : State) (o : SysOp) (_ : o.Res) : Prop := o ≠ .loadQuit

/-- The contract, and what has become of the request when the turn ends. -/
def Settles (s : State) (o : SysOp) (r : o.Res) : Prop :=
  Contract s o r ∧ (o = .loadQuit → DealtWith s.history)

variable {s s' : State} {fd : ℤ} {a : InAddr} {p : Bytes}

theorem unfailed_step {o : SysOp} {r : o.Res} (hc : Contract s o r) (h : Unfailed s.history) :
    Unfailed (s.after o r).history := by
  intro fd a hp
  cases o with
  | accept c =>
    cases r with
    | error e => cases hp
    | ok x =>
      obtain ⟨rfl, -⟩ := Phase.accepted.inj hp
      simp
  | recv c len => cases r <;> cases hp
  | loadQuit => cases hp
  | send c buf =>
    -- by then the phase is that of a request
    obtain ⟨p, data, hreq, -⟩ := hc
    have hp : phase s.history = .accepted fd a := by cases r <;> exact hp
    rw [hreq] at hp
    cases hp
  | socket => cases r <;> exact h fd a hp
  | _ => exact h fd a hp

/-! ## No test of `quit` within a turn -/

theorem Quiet.within {o : SysOp} {r : o.Res} (h : Quiet s o r) : Within s o r := by
  rintro rfl
  exact h

theorem Aside.within {o : SysOp} {r : o.Res} (h : Aside s o r) : Within s o r := by
  rintro rfl
  exact h

theorem getInstance_within : Keeps Within getInstance (fun _ _ => True) s :=
  (getInstance_building s).mono (fun _ _ _ _ hg => hg.aside.within) fun _ _ _ => trivial

theorem setupClientConnection_within :
    Keeps Within setupClientConnection (fun _ _ => True) s := by
  refine (setupClientConnection_accepting s).mono (fun _ _ o _ hg => ?_) fun _ _ _ => trivial
  rintro rfl
  exact hg

theorem handleMessage_within (fd : ℤ) (p : Bytes) :
    Keeps Within (handleMessage fd p) (fun _ _ => True) s :=
  (handleMessage_quiet s fd p).mono (fun _ _ _ _ hq => hq.within) fun _ _ h => h

theorem readFromClient_within (fd : ℤ) :
    Keeps Within (readFromClient fd) (fun _ _ => True) s :=
  (readFromClient_quiet s fd).mono (fun _ _ _ _ hq => hq.within) fun _ _ _ => trivial

theorem runServer_within : Keeps Within runServer (fun _ _ => True) s := by
  refine keeps_runServer (fun _ => by simp [Within]) (fun _ => trivial) fun _ => ?_
  apply setupClientConnection_within.post
  intro _ s1 _
  exact readFromClient_within _

theorem leave_within (code : ℤ) : Keeps Within (leave code) (fun _ _ => True) s :=
  (leave_leaving s code).mono (fun _ _ _ _ hg => hg.aside.within) fun _ _ _ => trivial

/-- A part of the turn that keeps the contract and does not test `quit`. -/
theorem settles_of_within {α : Type} {q : Sys α} {Q : α → State → Prop} (h : Keeps Contract q Q s)
    (hw : Keeps Within q (fun _ _ => True) s) : Keeps Settles q Q s :=
  (h.and hw).mono (fun _ _ _ _ hg => ⟨hg.1, fun ho => absurd ho hg.2⟩) fun _ _ hq => hq.1

/-! ## One turn -/

/-- The events of the echo, on a connection on which nothing has been sent and nothing has
failed. -/
theorem echo_complete {G : State → (o : SysOp) → o.Res → Prop} (hG : ∀ s o r, G s o r)
    (hq : sentOn fd s.history = []) (hu : sendError fd s.history = none) :
    Keeps G (sendNonBlocking fd (zeroFilled 1024 p) p.length)
      (fun _ s' => sentOn fd s'.history = p ↔ sendError fd s'.history = none) s := by
  refine keeps_sendNonBlocking (by simp [zeroFilled]) (fun _ _ _ _ _ => hG _ _ _)
    (fun _ _ _ => hG _ _ _) ?_
  rw [take_zeroFilled]
  intro k es r he hr
  rw [State.append_history, he.sentOn_append, hq, List.nil_append, he.sendError_append hu,
    ← hr.all_iff he, List.take_eq_self_iff]
  exact ⟨fun hle => le_antisymm he.le hle, fun heq => heq.ge⟩

/-- An unbanned peer gets its echo, as long as nobody on the ban list has been served. -/
theorem handleMessage_complete (h : Unjudged s fd a p) (hb : ¬ Banned a)
    (hu : sendError fd s.history = none) :
    Keeps (fun _ _ _ => True) (handleMessage fd p) (fun _ s' => sentOn fd s'.history = p ↔
      sendError fd s'.history = none ∧ ¬ bannedSeen s.history) s := by
  have hflag : s.world.memory.tcpServer.connectionPacket.isUserBanned = true ↔
      bannedSeen s.history := by simpa [hb] using h.flag
  by_cases hseen : bannedSeen s.history
  · -- the flag is set, and nothing is sent
    apply keeps_handleMessage_barred hb h.address (hflag.2 hseen) fun _ => trivial
    refine iff_of_false (fun hsent => ?_) fun hn => hn.2 hseen
    exact h.nonempty (hsent.symm.trans h.quiet)
  · have hunset : s.world.memory.tcpServer.connectionPacket.isUserBanned = false := by
      rw [← Bool.not_eq_true, hflag]
      exact hseen
    refine keeps_handleMessage (fun _ _ _ _ => trivial) hb h.address hunset fun s2 hgrown => ?_
    obtain ⟨es, hes, ha⟩ := hgrown
    have hsent : sentOn fd s2.history = [] := by rw [hes, ha.sentOn_append, h.quiet]
    have herr : sendError fd s2.history = none := by
      rw [hes, ← hu]
      exact ha.overlook (fun o _ _ ho => by cases o <;> first | rfl | exact ho.elim) _
    apply (echo_complete (fun _ _ _ => trivial) hsent herr).post
    intro _ s3 h3
    rw [h3, and_iff_left hseen]

/-- What a turn does not change once it has read its request. -/
structure InRequest (fd : ℤ) (a : InAddr) (p : Bytes) (b : Prop) (h : List Happening) : Prop where
  requested : phase h = .requested fd p
  peer : acceptedFrom fd h = some a
  seen : bannedSeen h ↔ b

theorem InRequest.step {b : Prop} {o : SysOp} {r : o.Res} (hc : Contract s o r) (hw : Within s o r)
    (h : InRequest fd a p b s.history) : InRequest fd a p b (s.after o r).history := by
  cases o with
  | accept c => exact absurd (h.requested.symm.trans hc.2.1) (by simp)
  | recv c len =>
    rcases hc.2.connection with ⟨-, hidle⟩ | ⟨a', hconn⟩
    · exact absurd (h.requested.symm.trans hidle) (by simp)
    · exact absurd (h.requested.symm.trans hconn.accepted) (by simp)
  | loadQuit => exact absurd rfl hw
  | send c buf => cases r <;> exact { h with }
  | socket => cases r <;> exact { h with }
  | _ => exact { h with }

theorem readFromClient_dealt (h : AtRecv s fd) (hu : Unfailed s.history) :
    Keeps (fun _ _ _ => True) (readFromClient fd) (fun _ s' => DealtWith s'.history) s := by
  simp only [readFromClient, Program.ensures_bind, keeps_recv]
  refine fun _ => ⟨fun e => ⟨trivial, fun _ _ _ hp => by cases hp⟩, fun b hc hb => ⟨trivial, ?_⟩⟩
  simp only [Program.ensures_ite, Program.ensures_pure]
  refine ⟨fun hpos => ?_, fun hpos => ?_⟩
  · obtain ⟨a, hunj⟩ := h.unjudged hc (List.length_pos_iff.1 hpos) (1024 - 1)
    have hkept := ((handleMessage_contract hunj).and (handleMessage_within fd b)).frame
      (I := fun s' => InRequest fd a b (bannedSeen (⟨.recv fd (1024 - 1), .ok b⟩ :: s.history))
        s'.history) (fun w o r _ hg hi => hi.step hg.1 hg.2)
      ⟨hunj.requested, hunj.peer, Iff.rfl⟩
    obtain ⟨a', hconn⟩ := h.connected hc
    have herr : sendError fd (⟨.recv fd (1024 - 1), .ok b⟩ :: s.history) = none :=
      hu fd a' hconn.accepted
    by_cases hb : Banned a
    · -- nothing is asked of the answer to a banned peer
      refine hkept.mono (fun _ _ _ _ _ => trivial) fun _ s' hs fd' p a'' hp _ hpeer hb' => ?_
      obtain ⟨rfl, rfl⟩ := Phase.requested.inj (hs.2.requested.symm.trans hp)
      obtain rfl := Option.some.inj (hs.2.peer.symm.trans hpeer)
      exact absurd hb hb'
    · refine (hkept.and (handleMessage_complete hunj hb herr)).mono (fun _ _ _ _ _ => trivial)
        fun _ s' hs fd' p a'' hp _ _ _ => ?_
      obtain ⟨⟨-, hreq⟩, hsent⟩ := hs
      obtain ⟨rfl, rfl⟩ := Phase.requested.inj (hreq.requested.symm.trans hp)
      rw [Complete, hreq.seen]
      exact hsent
  · -- the end of the stream is no request
    obtain rfl : b = [] := by simpa using hpos
    intro fd' p a hp hne
    obtain ⟨-, rfl⟩ := Phase.requested.inj hp
    exact absurd rfl hne

/-- The request of the turn is dealt with when `RunServer` is done. -/
theorem runServer_dealt (h : Ready s) :
    Keeps Settles runServer
      (fun rc s' => rc = exitSuccess → Finished s' ∧ DealtWith s'.history) s := by
  have hdealt : Keeps (fun _ _ _ => True) runServer
      (fun rc s' => rc = exitSuccess → DealtWith s'.history) s := by
    have hready : Ready (s.after .load s.world.memory) := { h with }
    have hidle : Unfailed s.history := fun fd a hp => by
      rw [h.idle] at hp
      cases hp
    refine keeps_runServer (fun _ => trivial) (fun _ hrc => absurd hrc (by decide)) fun _ => ?_
    apply ((setupClientConnection_contract hready).frame (I := fun s' => Unfailed s'.history)
      (fun _ _ _ _ hg hi => unfailed_step hg hi) hidle).mono fun _ _ _ _ _ => trivial
    intro _ s1 h1
    exact (readFromClient_dealt h1.1.after_load h1.2).post fun _ _ hs _ => hs
  have hkeeps := settles_of_within (runServer_contract h) runServer_within
  exact (hkeeps.and hdealt).mono (fun _ _ _ _ hg => hg.1) fun _ _ hq hrc => ⟨hq.1 hrc, hq.2 hrc⟩

/-- The contract of the loop, with the request of each turn dealt with at its end. -/
theorem mainLoop_settles (h : Head s) : Keeps Settles mainLoop TurnEnds s := by
  have hleave (s' : State) (code : ℤ) : Keeps Settles (leave code) TurnEnds s' :=
    (settles_of_within (leave_contract s' code) (leave_within code)).post
      fun t _ ht ha => by simp [ht] at ha
  have hhead : Head (s.after .load s.world.memory) := { h with }
  refine keeps_mainLoop (fun _ => ⟨trivial, fun ho => by cases ho⟩) (fun hrun => ?_)
    fun _ => hleave _ _
  apply (settles_of_within (getInstance_contract hhead hrun) getInstance_within).post
  intro _ s1 h1
  apply (runServer_dealt h1).post
  intro rc s2 h2
  refine ⟨fun _ => hleave _ _, fun hrc b => ?_⟩
  obtain ⟨hfin, hset⟩ := h2 hrc
  exact ⟨⟨⟨hfin.received, hfin.answered⟩, fun _ => hset⟩, fun _ => hleave _ _,
    fun _ _ => hfin.head b⟩

theorem mainStart_settles {files : ℤ → Bool} :
    Keeps Settles mainStart TurnEnds ⟨World.start files, []⟩ :=
  settles_of_within mainStart_contract
    (keeps_mainStart (fun _ => by simp [Within]) (fun _ _ => by simp [Within]) trivial)

/-! ## Whole runs -/

/-- A request is being dealt with, or its echo is as complete as it gets. -/
def Dealt (h : List Happening) : Prop :=
  ∀ fd p a, request h = some (fd, p) → p ≠ [] → acceptedFrom fd h = some a → ¬ Banned a →
    phase h = .requested fd p ∨ phase h = .idle ∧ Complete fd p h

theorem dealt_step {o : SysOp} {r : o.Res} (hg : Settles s o r) (h : Dealt s.history) :
    Dealt (s.after o r).history := by
  intro fd p a hreq hp hpeer hb
  cases o with
  | accept c => cases hreq
  | recv c len =>
    cases r with
    | error e => cases hreq
    | ok b =>
      obtain ⟨rfl, rfl⟩ := Prod.mk.inj (Option.some.inj hreq)
      exact .inl rfl
  | loadQuit =>
    rcases h fd p a hreq hp hpeer hb with h | ⟨-, h⟩
    · exact .inr ⟨rfl, hg.2 rfl fd p a h hp hpeer hb⟩
    · exact .inr ⟨rfl, h⟩
  | send c buf =>
    -- nothing is sent when the turn is over
    obtain ⟨p', data, hphase, -⟩ := hg.1
    have h' : phase s.history = .requested fd p ∨ phase s.history = .idle ∧
        Complete fd p s.history := by cases r <;> exact h fd p a hreq hp hpeer hb
    rcases h' with h' | ⟨hidle, -⟩
    · cases r <;> exact .inl h'
    · rw [hphase] at hidle
      cases hidle
  | socket => cases r <;> exact h fd p a hreq hp hpeer hb
  | _ => exact h fd p a hreq hp hpeer hb

theorem dealt_of_reaches {files : ℤ → Bool} {q : Sys (Turn ℤ)} (h : Reaches files s q) :
    Dealt s.history :=
  Env.Reach.invariant (I := fun s => Dealt s.history) (fun _ _ _ _ hg => dealt_step hg)
    (fun _ hs => mainLoop_settles (hs rfl)) mainStart_settles (fun _ _ _ hreq => by cases hreq) h

/-- When the server turns to the next connection, the kernel has got the whole payload of the last
request if and only if no `send` of the echo has failed and nobody on the ban list has been served:
what a full buffer leaves over is forgotten. -/
theorem echo_complete_iff {files : ℤ → Bool} {c : ℤ} {k : Except Errno (ℤ × InAddr) → Sys (Turn ℤ)}
    (hreach : Reaches files s (.call (.accept c) k)) (halive : s.world.alive = true)
    (hreq : request s.history = some (fd, p)) (hp : p ≠ [])
    (hpeer : acceptedFrom fd s.history = some a) (hb : ¬ Banned a) :
    sentOn fd s.history = p ↔ sendError fd s.history = none ∧ ¬ bannedSeen s.history := by
  have hallowed : serverEnv.recorded.allowed s (.accept c) (.error .EAGAIN) := by
    simp [serverEnv, answers, halive]
  have hidle := (contract_of_reaches hreach _ hallowed).1.2.1
  rcases dealt_of_reaches hreach fd p a hreq hp hpeer hb with h | ⟨-, h⟩
  · rw [hidle] at h
    cases h
  · exact h

/-- The server is about to accept the second client. -/
def atSecond (s : State) (o : SysOp) : Bool := o matches .accept _ && acceptCalls s.history == 1

/-- Two clients, but after two bytes there is no room in the socket buffer. -/
def crowded (s : State) (o : SysOp) : Option o.Res :=
  match o with
  | .send fd buf => roomForTwo s (.send fd buf)
  | o => twoClients.answerUntil atSecond s o

/-- The first turn, up to the second `accept`. -/
def crowdedRun : State × Sys (Turn ℤ) :=
  let pick := serverEnv.recorded.checked crowded
  serverEnv.recorded.loopRun pick mainLoop 2
    (serverEnv.recorded.run pick mainStart ⟨World.start fun _ => false, []⟩)

theorem crowdedRun_reaches : Reaches (fun _ => false) crowdedRun.1 crowdedRun.2 :=
  ((Env.run_checked_steps serverEnv.recorded crowded mainStart _).toReach).trans
    (Env.loopRun_checked_reach serverEnv.recorded crowded mainLoop 2 _)

/-- The rest of `hello` is forgotten, although nobody has been banned and no `send` has failed for
another reason than the full buffer. -/
theorem echo_incomplete_crowded :
    (∃ k, Reaches (fun _ => false) crowdedRun.1 (.call (.accept 3) k)) ∧
      crowdedRun.1.world.alive = true ∧ request crowdedRun.1.history = some (4, ascii "hello") ∧
      acceptedFrom 4 crowdedRun.1.history = some ⟨10, 0, 0, 1⟩ ∧ ¬ Banned ⟨10, 0, 0, 1⟩ ∧
      crowdedRun.1.world.memory.tcpServer.connectionPacket.isUserBanned = false ∧
      sendError 4 crowdedRun.1.history = some .EAGAIN ∧
      sentOn 4 crowdedRun.1.history = ascii "he" :=
  ⟨⟨_, crowdedRun_reaches⟩, rfl, rfl, rfl, by decide, rfl, rfl, rfl⟩

theorem echo_complete_iff_twoClients : let s := (twoClients.play atSecond).1
    sentOn 4 s.history = ascii "hello" ↔ sendError 4 s.history = none ∧ ¬ bannedSeen s.history := by
  intro s
  obtain ⟨c, k, hreach⟩ : ∃ c k, Reaches (fun _ => false) s (.call (.accept c) k) :=
    ⟨_, _, Script.play_reaches twoClients _⟩
  exact echo_complete_iff hreach rfl rfl (by decide) rfl (by decide)

end KCNet.Server
