import KCNet.Server.Reading
import KCNet.Server.Script

/-!
# Ban enforcement

What `ReadFromClient` does to the outside when the message comes from a banned peer: it says so
on the console, and sends as much of the notice as the connection takes.
-/

namespace KCNet.Server

open Interaction TcpServer

/-- Between `s` and `s'` the server has only turned the peer `a` on `fd` away. -/
structure TurnedAway (s s' : State) (fd : ℤ) (a : InAddr) : Prop where
  sent : sentOn fd s'.history <+: bannedMessage
  others : ∀ fd' ≠ fd, sentOn fd' s'.history = sentOn fd' s.history
  said : lines s'.history = lines s.history ∨
    lines s'.history = banLine (inetNtop a) :: lines s.history
  running : s'.world.memory.isServerRunning = s.world.memory.isServerRunning
  userIp : s'.world.memory.tcpServer.connectionPacket.userIp =
    s.world.memory.tcpServer.connectionPacket.userIp

variable {s s1 : State} {fd : ℤ} {a : InAddr} {p : Bytes}

/-- The send loop on the notice, from a connection on which nothing has been sent. -/
theorem TurnedAway.append (h : TurnedAway s s1 fd a) (hq : sentOn fd s1.history = [])
    {k : ℕ} {es : List Happening} (he : SendEvents fd bannedMessage k es) :
    TurnedAway s (s1.append es) fd a where
  sent := by
    rw [State.append_history, he.sentOn_append, hq]
    exact List.take_prefix _ _
  others := fun fd' hne => (he.sentOn_append_of_ne hne).trans (h.others fd' hne)
  said := by simpa only [State.append_history, he.lines_append] using h.said
  running := h.running
  userIp := h.userIp

theorem TurnedAway.send (h : TurnedAway s s1 fd a) (hq : sentOn fd s1.history = [])
    {k : ℕ} {es : List Happening} (he : SendEvents fd bannedMessage k es) (r : Except Errno ℕ) :
    TurnedAway s ((s1.append es).after (.send fd (bannedMessage.drop k)) r) fd a := by
  have happ := h.append hq he
  cases r with
  | error e => cases e <;> exact { happ with }
  | ok n =>
    refine { happ with sent := ?_, others := fun fd' hne => ?_ }
    · simp only [State.after_history, State.append_history, sentOn, if_true, he.sentOn_append, hq,
        List.nil_append, ← List.take_add]
      exact List.take_prefix _ _
    · simpa [hne.symm] using happ.others fd' hne

/-- Every operation after the arrival of a message from a banned peer. -/
theorem handleMessage_banned (hb : Banned a)
    (haddr : s.world.memory.tcpServer.clientAddress = a.toSockAddr)
    (hq : sentOn fd s.history = []) :
    Keeps (fun s1 o r => TurnedAway s (s1.after o r) fd a) (handleMessage fd p)
      (fun _ _ => True) s := by
  have h0 : TurnedAway s s fd a :=
    { sent := by simp [hq]
      others := fun _ _ => rfl
      said := .inl rfl
      running := rfl
      userIp := rfl }
  have h2 : TurnedAway s ((s.after .load s.world.memory).after (.stdout (banLine (inetNtop a))) ())
      fd a := { h0 with said := .inr rfl }
  refine keeps_handleMessage_banned hb haddr { h0 with } h2 (keeps_sendNonBlocking le_rfl ?_ ?_ ?_)
  all_goals rw [List.take_length]
  · exact fun k es he _ r => h2.send hq he r
  · exact fun k es he => { h2.append hq he with }
  · intro k es r he _
    have h3 := h2.append hq he
    exact ⟨{ h3 with }, { h3 with }, { h3 with }, trivial⟩

/-- A banned peer is turned away and nothing else happens, after any history and however the sends
go. -/
theorem ban_enforced {files : ℤ → Bool} {s' : State} {q : Sys Unit} (hread : Reading files s fd)
    (hpeer : s.world.descriptors fd = some (.connection a)) (hb : Banned a) (hp : p ≠ [])
    (hrun : serverEnv.recorded.Steps (s, readFromClient fd) (s', q)) (hm : Delivered fd p s s') :
    TurnedAway s s' fd a := by
  obtain ⟨halive, hconn, -, hrest⟩ := steps_of_delivered hrun hp hm
  have hc := hread.connected halive hconn hpeer
  have hkeeps := handleMessage_banned (s := s.after (.recv fd (1024 - 1)) (.ok p)) (p := p) hb
    hc.address hc.quiet
  have h := hkeeps.invariant (I := fun s' => TurnedAway (s.after (.recv fd (1024 - 1)) (.ok p)) s'
    fd a) (fun _ _ _ _ hg _ => hg) ?_ hrest
  · exact { h with }
  · exact { sent := by simp [hc.quiet], others := fun _ _ => rfl, said := .inl rfl, running := rfl,
            userIp := rfl }

/-- The address on the ban list. -/
def bannedAddr : InAddr := ⟨192, 168, 1, 81⟩

/-- A banned peer that sends a command. -/
def bannedReload : Script := [.ok (bannedAddr, ascii "RELOAD")]

theorem ban_enforced_reload :
    let s := (bannedReload.play fun _ o => o matches .recv ..).1
    TurnedAway s (bannedReload.finish (readFromClient 4) s).1 4 bannedAddr := by
  intro s
  have hm : Delivered 4 (ascii "RELOAD") s (bannedReload.finish (readFromClient 4) s).1 :=
    Env.run_checked_answer serverEnv rfl _
  exact ban_enforced ⟨_, Script.play_reaches _ _⟩ rfl (by decide) (by decide)
    (Script.finish_steps ..) hm

end KCNet.Server
