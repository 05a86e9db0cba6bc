import KCNet.Server.Reading
import KCNet.Server.Script

/-!
# Framing

The server calls `recv` once for every connection, so of a stream that a client sends it sees one
window: the chunk that arrives first, cut to the size of the buffer. This module shows that the
window decides everything the server does on the connection, for as long as the connection lasts.

## Main definitions

- `window` — what the server sees of a stream
- `LifeOf` — the invariant of a connection from the message on
-/

namespace KCNet.Server

open Interaction TcpServer

/-- What the only `recv` of a connection returns of a stream that is delivered in chunks `cs`. -/
def window (cs : List Bytes) : Bytes := (cs.headD []).take (1024 - 1)

theorem window_initial {cs : List Bytes} {m : Bytes} (h : Segments cs m) : window cs <+: m := by
  cases cs with
  | nil => simp [window]
  | cons c cs => exact (List.take_prefix _ _).trans h.head.2

theorem window_ne_nil {cs : List Bytes} {m : Bytes} (h : Segments cs m) (hm : m ≠ []) :
    window cs ≠ [] := by
  cases cs with
  | nil => exact absurd h.2.symm hm
  | cons c cs => simpa [window] using h.head.1

/-- The stream is seen whole if and only if it arrives in one chunk and fits the buffer. -/
theorem window_eq_iff {cs : List Bytes} {m : Bytes} (h : Segments cs m) (hm : m ≠ []) :
    window cs = m ↔ cs = [m] ∧ m.length ≤ 1024 - 1 := by
  cases cs with
  | nil => exact absurd h.2.symm hm
  | cons c cs =>
    obtain ⟨hne, rfl⟩ := h
    constructor
    · intro hw
      have hlen := congrArg List.length hw
      simp only [window, List.headD_cons, List.length_take, List.flatten_cons,
        List.length_append] at hlen
      have hrest : cs.flatten = [] := List.eq_nil_of_length_eq_zero (by omega)
      have hcs : cs = [] := by
        rw [List.flatten_eq_nil_iff] at hrest
        exact List.eq_nil_iff_forall_not_mem.2 fun d hd =>
          hne d (List.mem_cons_of_mem _ hd) (hrest d hd)
      subst hcs
      refine ⟨by simp, ?_⟩
      simp only [List.flatten_cons, List.flatten_nil, List.append_nil]
      simp only [List.flatten_nil, List.length_nil] at hlen
      omega
    · rintro ⟨hcs, hlen⟩
      calc window (c :: cs) = window [(c :: cs).flatten] := congrArg window hcs
        _ = (c :: cs).flatten := List.take_of_length_le hlen

/-! ## The connection from the message on -/

variable {files : ℤ → Bool} {s : State} {fd : ℤ} {a : InAddr} {w : Bytes}

/-- The message is being answered. -/
structure Echoing (s : State) (fd : ℤ) (a : InAddr) (w : Bytes) : Prop where
  requested : phase s.history = .requested fd w
  peer : acceptedFrom fd s.history = some a
  unseen : ¬ bannedSeen s.history
  sent : sentOn fd s.history <+: w

/-- The message has been answered, and the server has turned to other connections. -/
structure Echoed (s : State) (fd : ℤ) (w : Bytes) : Prop where
  sent : sentOn fd s.history <+: w
  all : sentOn fd s.history = w ∨ sendError fd s.history ≠ none
  notAccepted : ∀ peer, phase s.history ≠ .accepted fd peer
  notRequested : ∀ p, phase s.history ≠ .requested fd p

/-- As long as `fd` has not been handed out anew, it names the connection of `a`. -/
def LifeOf (fd : ℤ) (a : InAddr) (w : Bytes) (n : ℕ) (s : State) : Prop :=
  n ≤ (opened s.history).count fd ∧
    ((opened s.history).count fd = n → Echoing s fd a w ∨ Echoed s fd w)

theorem Echoed.ne_requested {fd' : ℤ} {p : Bytes} (h : Echoed s fd w)
    (hp : phase s.history = .requested fd' p) : fd' ≠ fd := by
  rintro rfl
  exact h.notRequested p hp

/-- The answer to the message is its echo. -/
theorem Echoing.owes_iff {data : Bytes} (h : Echoing s fd a w) (hb : ¬ Banned a) :
    Owes s.history fd w data ↔ data = w := by
  constructor
  · rintro ⟨a', ha', ⟨hb', -⟩ | ⟨-, rfl⟩⟩
    · obtain rfl := Option.some.inj (h.peer.symm.trans ha')
      exact absurd hb' hb
    · rfl
  · rintro rfl
    exact ⟨a, h.peer, .inr ⟨h.unseen, rfl⟩⟩

/-- The message is answered in the turn in which it has arrived: nothing is accepted or read. -/
theorem Echoing.step {o : SysOp} {r : o.Res} (hb : ¬ Banned a) (hw : w ≠ []) (hc : Contract s o r)
    (h : Echoing s fd a w) : Echoing (s.after o r) fd a w ∨ Echoed (s.after o r) fd w := by
  cases o with
  -- the next `accept` comes after the test of `quit`
  | accept c => exact absurd (h.requested.symm.trans hc.2.1) (by simp)
  | recv fd' len =>
    rcases hc.2.connection with ⟨-, hidle⟩ | ⟨a', hconn⟩
    · exact absurd (h.requested.symm.trans hidle) (by simp)
    · exact absurd (h.requested.symm.trans hconn.accepted) (by simp)
  | send fd' buf =>
    cases r with
    | error e => exact .inl { h with }
    | ok k =>
      obtain ⟨p, data, hp, -, ho, hdata⟩ := hc
      obtain ⟨rfl, rfl⟩ := Phase.requested.inj (h.requested.symm.trans hp)
      obtain rfl := (h.owes_iff hb).1 ho
      refine .inl { h with sent := ?_ }
      have hpre : sentOn fd s.history ++ buf.take k <+: sentOn fd s.history ++ buf :=
        (List.prefix_append_right_inj _).2 (List.take_prefix _ _)
      rwa [State.after_history, sentOn, if_pos rfl, ← hdata]
  | loadQuit =>
    -- the turn ends, and the contract says that what is owed has been sent
    obtain ⟨hsent, hall⟩ := hc.2 fd w w h.requested hw ((h.owes_iff hb).2 rfl)
    exact .inr { sent := hsent, all := hall, notAccepted := by simp, notRequested := by simp }
  | socket => cases r <;> exact .inl { h with }
  | _ => exact .inl { h with }

/-- Once it has been answered, the connection is left alone. -/
theorem Echoed.step {o : SysOp} {r : o.Res} (hr : serverEnv.recorded.allowed s o r)
    (hc : Contract s o r)
    (hopen : (opened (s.after o r).history).count fd = (opened s.history).count fd)
    (h : Echoed s fd w) : Echoed (s.after o r) fd w := by
  cases o with
  | accept c =>
    cases r with
    | error e => exact { h with notAccepted := by simp, notRequested := by simp }
    | ok x =>
      -- `fd` is not the new descriptor, or it would have been handed out anew
      have hne : x.1 ≠ fd := by
        intro heq
        simp [heq] at hopen
      exact { sent := by simpa [hne] using h.sent
              all := by simpa [hne] using h.all
              notAccepted := by simp [hne]
              notRequested := by simp }
  | recv fd' len =>
    cases r with
    | error e => exact { h with notAccepted := by simp, notRequested := by simp }
    | ok b =>
      -- the server reads only from a connection that it has just accepted
      have hne : fd' ≠ fd := by
        rintro rfl
        rcases hc.2.connection with ⟨rfl, -⟩ | ⟨a', hconn⟩
        · simp [serverEnv, answers, DescriptorTable.connected_iff] at hr
        · exact h.notAccepted a' hconn.accepted
      exact { h with notAccepted := by simp, notRequested := by simp [hne] }
  | send fd' buf =>
    obtain ⟨p, data, hp, -⟩ := hc
    have hne := h.ne_requested hp
    cases r with
    | error e => exact { h with all := by simpa [hne] using h.all }
    | ok k =>
      exact { h with sent := by simpa [hne] using h.sent, all := by simpa [hne] using h.all }
  | loadQuit => exact { h with notAccepted := by simp, notRequested := by simp }
  | socket => cases r <;> exact { h with }
  | _ => exact { h with }

theorem lifeOf_step {n : ℕ} (hb : ¬ Banned a) (hw : w ≠ []) {o : SysOp} {r : o.Res}
    (hr : serverEnv.recorded.allowed s o r) (hc : Contract s o r) (h : LifeOf fd a w n s) :
    LifeOf fd a w n (s.after o r) := by
  obtain ⟨hle, h⟩ := h
  have hmono : (opened s.history).count fd ≤ (opened (s.after o r).history).count fd :=
    (opened_suffix_cons ⟨o, r⟩ s.history).sublist.count_le fd
  refine ⟨hle.trans hmono, fun hn => ?_⟩
  have hn' : (opened s.history).count fd = n := by omega
  rcases h hn' with h | h
  · exact h.step hb hw hc
  · exact .inr (h.step hr hc (by omega))

/-! ## The command -/

/-- What is visible of the command in the message `w`, between `s` and `s'`. -/
structure Recognised (s s' : State) (a : InAddr) (w : Bytes) : Prop where
  said : lines s'.history =
    shutdownLines (inetNtop a) w ++ (reloadLines (inetNtop a) w ++ lines s.history)
  running : s'.world.memory.isServerRunning =
    (s.world.memory.isServerRunning && !decide (Stops (inetNtop a) w))
  userIp : s'.world.memory.tcpServer.connectionPacket.userIp = inetNtop a

theorem reloadCommand_lines {buffer : Bytes} (h : cString buffer = cString w) (userIp : Bytes) :
    Keeps (fun _ _ _ => True) (reloadCommand buffer userIp)
      (fun _ s' => s'.world = s.world ∧ lines s'.history = reloadLines userIp w ++ lines s.history)
      s := by
  simp only [reloadCommand, reloadLines, h, Program.ensures_ite, keeps_stdout, Program.ensures_pure]
  refine ⟨fun hcmd => ⟨fun hip => ?_, fun hip => ?_⟩, fun hcmd => ?_⟩
  · simp [hcmd, hip]
  · simp [hcmd, hip]
  · simp [hcmd]

theorem shutdownCommand_lines {buffer : Bytes} (h : cString buffer = cString w) (userIp : Bytes) :
    Keeps (fun _ _ _ => True) (shutdownCommand buffer userIp)
      (fun _ s' => s'.world.memory = { s.world.memory with
          isServerRunning := s.world.memory.isServerRunning && !decide (Stops userIp w) } ∧
        lines s'.history = shutdownLines userIp w ++ lines s.history) s := by
  simp only [shutdownCommand, shutdownLines, Stops, h, Program.ensures_ite, Program.ensures_bind,
    keeps_logOutput, keeps_log, keeps_setServerRunning]
  refine ⟨fun hcmd => ⟨fun hip => ?_, fun hip => ?_⟩, fun hcmd => ?_⟩
  · simp [hcmd, hip]
  · simp [hcmd, hip]
  · simp [hcmd]

/-- Whatever becomes of the echo, the command is that of the message. -/
theorem handleMessage_recognised (fd : ℤ) (w : Bytes) (hb : ¬ Banned a)
    (haddr : s.world.memory.tcpServer.clientAddress = a.toSockAddr)
    (hflag : s.world.memory.tcpServer.connectionPacket.isUserBanned = false) :
    Keeps (fun _ _ _ => True) (handleMessage fd w) (fun _ s' => Recognised s s' a w) s := by
  have hbuf := cString_zeroFilled 1024 w
  refine keeps_handleMessage_heard hb haddr hflag (fun _ => trivial) (fun _ _ _ => trivial) ?_
  apply (reloadCommand_lines hbuf _).post
  intro _ s1 h1
  apply (shutdownCommand_lines hbuf _).post
  intro _ s2 h2
  refine keeps_sendNonBlocking (by simp [zeroFilled]) (fun _ _ _ _ _ => trivial)
    (fun _ _ _ => trivial) fun k es r he _ => ?_
  exact { said := by simp [he.lines_append, h2.2, h1.2, State.heard]
          running := by simp [h2.1, h1.1, State.heard]
          userIp := by simp [h2.1, h1.1, State.heard] }

/-- However a stream is cut into chunks, the window decides what the server does on the connection:
which command it recognises, and what it sends until `fd` is handed out anew. The window is an
initial part of the stream, and all of it only if the stream arrives in one chunk that fits the
buffer. -/
theorem framing_window {k : Except Errno Bytes → Sys (Turn ℤ)}
    (hreach : Reaches files s (.call (.recv fd (1024 - 1)) k))
    (hpeer : s.world.descriptors fd = some (.connection a)) (hb : ¬ Banned a)
    (hunseen : ¬ bannedSeen s.history) {cs : List Bytes} {m : Bytes} (hseg : Segments cs m)
    (hm : m ≠ []) :
    window cs <+: m ∧ (window cs = m ↔ cs = [m] ∧ m.length ≤ 1024 - 1) ∧
    (∀ s', serverEnv.recorded.Steps (s, readFromClient fd) (s', .done ()) →
      Delivered fd (window cs) s s' → Recognised s s' a (window cs)) ∧
    ∀ s' q, serverEnv.recorded.Reach mainLoop (s, .call (.recv fd (1024 - 1)) k) (s', q) →
      Delivered fd (window cs) s s' → (opened s'.history).count fd = (opened s.history).count fd →
      sentOn fd s'.history <+: window cs ∧ (phase s'.history ≠ .requested fd (window cs) →
        sentOn fd s'.history = window cs ∨ sendError fd s'.history ≠ none) := by
  have hread : Reading files s fd := ⟨k, hreach⟩
  have hw := window_ne_nil hseg hm
  refine ⟨window_initial hseg, window_eq_iff hseg hm, fun s' hrun hdel => ?_,
    fun s' q hrun hdel hopen => ?_⟩
  · obtain ⟨halive, hconn, -, hrest⟩ := steps_of_delivered hrun hw hdel
    have hc := hread.connected halive hconn hpeer
    have hflag : s.world.memory.tcpServer.connectionPacket.isUserBanned = false := by
      simpa [hunseen] using (hread.atRecv halive).flag
    have h := (handleMessage_recognised (s := s.after (.recv fd (1024 - 1)) (.ok (window cs))) fd
      (window cs) hb hc.address hflag).steps hrest
    exact { h with }
  · obtain ⟨hallowed, hrest⟩ := Env.Reach.of_answer hrun hdel
    have halive : s.world.alive = true := by simp_all [serverEnv]
    have hconn : s.world.descriptors.connected fd = true := by simp_all [serverEnv, answers]
    have hc := hread.connected halive hconn hpeer
    have hstart : LifeOf fd a (window cs) ((opened s.history).count fd)
        (s.after (.recv fd (1024 - 1)) (.ok (window cs))) := by
      refine ⟨le_rfl, fun _ => .inl { requested := rfl, peer := hc.peer, unseen := ?_, sent := ?_ }⟩
      · simp [hc.peer, hb, hunseen]
      · simp [hc.quiet]
    have hkeeps := (contract_of_reaches hreach _ hallowed).2
    have hlife := Env.Reach.invariant (fun _ _ _ hr hg => lifeOf_step hb hw hr hg)
      (fun s hs => mainLoop_contract (hs rfl)) hkeeps hstart hrest
    rcases hlife.2 hopen with h | h
    · exact ⟨h.sent, fun hne => absurd h.requested hne⟩
    · exact ⟨h.sent, fun _ => h.all⟩

/-- A client whose command `RELOAD` arrives as `REL` and `OAD`. -/
def splitCommand : Script := [.ok (⟨10, 0, 0, 1⟩, ascii "REL")]

/-- The server has ended without a failed send, and only the first half has been echoed. -/
theorem framing_split :
    let s := (splitCommand.play fun _ _ => false).1
    Segments [ascii "REL", ascii "OAD"] (ascii "RELOAD") ∧
      Reaches (fun _ => false) s (.done (.halt exitSuccess)) ∧
      acceptedFrom 4 s.history = some ⟨10, 0, 0, 1⟩ ∧ ¬ Banned ⟨10, 0, 0, 1⟩ ∧
      sendError 4 s.history = none ∧ sentOn 4 s.history ≠ ascii "RELOAD" :=
  ⟨by decide, Script.play_reaches splitCommand _, rfl, by decide, rfl, by decide⟩

theorem framing_window_split :
    let s := (splitCommand.play fun _ o => o matches .recv ..).1
    Recognised s (splitCommand.finish (readFromClient 4) s).1 ⟨10, 0, 0, 1⟩ (ascii "REL") := by
  intro s
  obtain ⟨k, hreach⟩ : ∃ k, Reaches (fun _ => false) s (.call (.recv 4 (1024 - 1)) k) :=
    ⟨_, Script.play_reaches splitCommand _⟩
  have hunseen : ¬ bannedSeen s.history := by
    have hread : Reading (fun _ => false) s 4 := ⟨k, hreach⟩
    exact (hread.atRecv rfl).flag.not.1 (by decide)
  have hseg : Segments [ascii "REL", ascii "OAD"] (ascii "RELOAD") := by decide
  have hend : (splitCommand.finish (readFromClient 4) s).2 = .done () := by
    with_unfolding_all rfl
  have hrun := splitCommand.finish_steps (readFromClient 4) s
  rw [← Prod.mk.eta (p := splitCommand.finish (readFromClient 4) s), hend] at hrun
  exact (framing_window hreach rfl (by decide) hunseen hseg (by decide)).2.2.1 _ hrun
    (Env.run_checked_answer serverEnv rfl _)

end KCNet.Server
