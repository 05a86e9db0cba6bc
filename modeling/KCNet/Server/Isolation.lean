import KCNet.Server.Reading
import KCNet.Server.Script

/-!
# Isolation of connections

What `ReadFromClient` does with one message when every `send` takes all it is offered, as a
function of the world the earlier connections have left behind, compared with a server that
has just been constructed.
-/

namespace KCNet.Server

open Interaction TcpServer

/-- The message `p` arrives, and every `send` takes all it is offered. -/
def arriving (p : Bytes) (s : State) : (o : SysOp) → Option o.Res
  | .load => some s.world.memory
  | .recv _ _ => some (.ok p)
  | .send _ buf => some (.ok buf.length)
  | .store _ | .stdout _ | .perror _ | .logFile .. => some ()
  | _ => none

/-- What can be observed of one call of `ReadFromClient`. -/
structure Service where
  returned : Bool
  echoed : Bytes
  lines : List Bytes
  userIp : Bytes
  running : Bool
deriving DecidableEq

def observe (fd : ℤ) (c : State × Sys Unit) : Service where
  returned := c.2 matches .done _
  echoed := sentOn fd c.1.history
  lines := lines c.1.history
  userIp := c.1.world.memory.tcpServer.connectionPacket.userIp
  running := c.1.world.memory.isServerRunning

/-- The service that the message `p` on `fd` gets in the world `w`. -/
def service (w : World) (fd : ℤ) (p : Bytes) : Service :=
  observe fd (serverEnv.recorded.run (arriving p) (readFromClient fd) ⟨w, []⟩)

/-- The same world with a freshly constructed server that has accepted `a`. -/
def freshlyConstructed (w : World) (a : InAddr) : World :=
  { w with memory :=
    { constructed := true
      tcpServer := { w.memory.tcpServer with
        clientAddress := a.toSockAddr
        connectionPacket := ⟨[], false⟩ }
      isServerRunning := true } }

/-- It is the world in which the constructor and the first `accept` leave the server. -/
theorem freshlyConstructed_first {s : State} (hnew : s.world.memory.constructed = false)
    (hrun : s.world.memory.isServerRunning = true) :
    Keeps (fun _ _ _ => True) (do getInstance; setupClientConnection) (fun _ s' =>
      ∀ fd a, phase s'.history = .accepted fd a → freshlyConstructed s'.world a = s'.world) s := by
  apply ((getInstance_building s).mono (fun _ _ _ _ _ => trivial) fun _ _ h => h).seq
  rintro _ s1 (⟨hc, -⟩ | ⟨-, listener, rfl⟩)
  · simp [hnew] at hc
  · apply (setupClientConnection_accepting _).mono fun _ _ _ _ _ => trivial
    rintro _ s2 (⟨e, rfl⟩ | ⟨c, peer, -, -, -, rfl⟩) fd a hp
    · cases hp
    · obtain ⟨-, rfl⟩ := Phase.accepted.inj hp
      simp [freshlyConstructed, State.connected, State.constructedOn, State.listening,
        State.starting, hrun]

/-- The peer `a` is served as if nobody had connected before it. -/
def ServedAsFresh (w : World) (fd : ℤ) (a : InAddr) (p : Bytes) : Prop :=
  service w fd p = service (freshlyConstructed w a) fd p ∧ (service w fd p).returned ∧
    (service w fd p).echoed = p ∧ (service w fd p).userIp = inetNtop a

/-! ## Running `ReadFromClient` -/

section Run

variable {β : Type} (p : Bytes) (s : State)

/-- The run of a server program while `p` arrives. -/
abbrev runArriving (q : Sys β) : State × Sys β := serverEnv.recorded.run (arriving p) q s

@[simp] theorem runArriving_load (f : Memory → Sys β) :
    runArriving p s (Sys.load >>= f) =
      runArriving p (s.after .load s.world.memory) (f s.world.memory) := rfl

@[simp] theorem runArriving_store (m : Memory) (f : Unit → Sys β) :
    runArriving p s (Sys.store m >>= f) = runArriving p (s.after (.store m) ()) (f ()) := rfl

theorem sendLoop_all (fd : ℤ) (buf : Bytes) (len gas : ℕ) :
    sendLoop fd buf len gas len = pure (len : ℤ) := by
  cases gas with
  | zero => rfl
  | succ gas => simp [sendLoop]

/-- One `send` is enough. -/
theorem runArriving_sendNonBlocking (fd : ℤ) {buf : Bytes} {len : ℕ} (hpos : 0 < len)
    (hlen : len ≤ buf.length) (f : ℤ → Sys β) :
    runArriving p s (sendNonBlocking fd buf len >>= f) =
      runArriving p (s.after (.send fd (buf.take len)) (.ok len)) (f len) := by
  have hn : (buf.take len).length = len := by simp [hlen]
  cases len with
  | zero => exact absurd hpos (by decide)
  | succ n =>
    have hsend : runArriving p s (sendNonBlocking fd buf (n + 1) >>= f) =
        runArriving p (s.after (.send fd (buf.take (n + 1))) (.ok (buf.take (n + 1)).length))
          (sendLoop fd buf (n + 1) n (0 + (buf.take (n + 1)).length) >>= f) := rfl
    rw [hsend, hn, Nat.zero_add, sendLoop_all, pure_bind]

/-- The test for the reload command adds its line and changes nothing else. -/
theorem runArriving_reloadCommand {buffer message : Bytes} (h : cString buffer = cString message)
    (userIp : Bytes) (f : Unit → Sys β) :
    ∃ s', runArriving p s (reloadCommand buffer userIp >>= f) = runArriving p s' (f ()) ∧
      s'.world = s.world ∧ lines s'.history = reloadLines userIp message ++ lines s.history ∧
      ∀ fd, sentOn fd s'.history = sentOn fd s.history := by
  simp only [reloadCommand, reloadLines, h]
  split
  · split
    · exact ⟨_, rfl, rfl, rfl, fun _ => rfl⟩
    · exact ⟨_, rfl, rfl, rfl, fun _ => rfl⟩
  · exact ⟨s, rfl, rfl, rfl, fun _ => rfl⟩

/-- The test for the shutdown command adds its lines and may stop the server. -/
theorem runArriving_shutdownCommand {buffer message : Bytes} (h : cString buffer = cString message)
    (userIp : Bytes) (f : Unit → Sys β) :
    ∃ s', runArriving p s (shutdownCommand buffer userIp >>= f) = runArriving p s' (f ()) ∧
      s'.world.memory = { s.world.memory with
        isServerRunning := s.world.memory.isServerRunning && !decide (Stops userIp message) } ∧
      lines s'.history = shutdownLines userIp message ++ lines s.history ∧
      ∀ fd, sentOn fd s'.history = sentOn fd s.history := by
  simp only [shutdownCommand, shutdownLines, Stops, h]
  split
  · next hcmd =>
    split
    · next hip => exact ⟨_, rfl, by simp [serverEnv, hcmd, hip], rfl, fun _ => rfl⟩
    · next hip => exact ⟨_, rfl, by simp [serverEnv, hip], rfl, fun _ => rfl⟩
  · next hcmd => exact ⟨_, rfl, by simp [serverEnv, hcmd], rfl, fun _ => rfl⟩

end Run

section Unbanned

variable {s : State} {fd : ℤ} {a : InAddr} {p : Bytes}

/-- Up to the test of the flag, a message from an unbanned peer changes nothing. -/
theorem runArriving_unbanned (fd : ℤ) (hp : p ≠ []) (hb : ¬ Banned a)
    (haddr : s.world.memory.tcpServer.clientAddress = a.toSockAddr) :
    ∃ s', runArriving p s (readFromClient fd) = runArriving p s'
        (if s.world.memory.tcpServer.connectionPacket.isUserBanned then pure ()
          else serve fd (zeroFilled 1024 p) p.length) ∧
      s'.world = s.world ∧ lines s'.history = lines s.history ∧
      sentOn fd s'.history = sentOn fd s.history := by
  have hip := getClientIp_of_address haddr
  have hban : inetNtop a ≠ ascii "192.168.1.81" := banned_iff.not.1 hb
  have hread : runArriving p s (readFromClient fd) =
      runArriving p (s.after (.recv fd (1024 - 1)) (.ok p))
        (if 0 < p.length then handleMessage fd p else pure ()) := rfl
  rw [hread, if_pos (List.length_pos_iff.2 hp)]
  simp only [handleMessage, banLoop, bannedClientIpVector, getServer, bind_assoc, pure_bind,
    runArriving_load, State.after_world, effect, hip, hban, if_false]
  exact ⟨_, rfl, rfl, rfl, rfl⟩

/-- The commands and the echo. -/
theorem runArriving_reply (hp : p ≠ []) (hquiet : sentOn fd s.history = []) (userIp : Bytes) :
    ∃ s', (runArriving p s do
        reloadCommand (zeroFilled 1024 p) userIp
        shutdownCommand (zeroFilled 1024 p) userIp
        let _ ← sendNonBlocking fd (zeroFilled 1024 p) p.length
        pure ()) = (s', .done ()) ∧
      sentOn fd s'.history = p ∧
      lines s'.history =
        shutdownLines userIp p ++ (reloadLines userIp p ++ lines s.history) ∧
      s'.world.memory = { s.world.memory with
        isServerRunning := s.world.memory.isServerRunning && !decide (Stops userIp p) } := by
  have hbuf := cString_zeroFilled 1024 p
  obtain ⟨s1, h1, hw1, hl1, hs1⟩ := runArriving_reloadCommand p s hbuf userIp fun _ => do
    shutdownCommand (zeroFilled 1024 p) userIp
    let _ ← sendNonBlocking fd (zeroFilled 1024 p) p.length
    pure ()
  obtain ⟨s2, h2, hw2, hl2, hs2⟩ := runArriving_shutdownCommand p s1 hbuf userIp fun _ => do
    let _ ← sendNonBlocking fd (zeroFilled 1024 p) p.length
    pure ()
  have h3 := runArriving_sendNonBlocking p s2 fd (List.length_pos_iff.2 hp)
    (by simp [zeroFilled] : p.length ≤ (zeroFilled 1024 p).length) fun _ => pure ()
  refine ⟨_, (h1.trans h2).trans (h3.trans rfl), ?_, ?_, ?_⟩
  · simp [hs2, hs1, hquiet]
  · simp [hl2, hl1]
  · simp [hw2, hw1]

/-- An unbanned peer is served from the contents of its message alone. -/
theorem runArriving_serve (hp : p ≠ [])
    (haddr : s.world.memory.tcpServer.clientAddress = a.toSockAddr)
    (hquiet : sentOn fd s.history = []) :
    ∃ s', runArriving p s (serve fd (zeroFilled 1024 p) p.length) = (s', .done ()) ∧
      sentOn fd s'.history = p ∧
      lines s'.history =
        shutdownLines (inetNtop a) p ++ (reloadLines (inetNtop a) p ++ lines s.history) ∧
      s'.world.memory.tcpServer.connectionPacket.userIp = inetNtop a ∧
      s'.world.memory.isServerRunning =
        (s.world.memory.isServerRunning && !decide (Stops (inetNtop a) p)) := by
  have hip := getClientIp_of_address haddr
  have hstore : ∃ s1, (runArriving p s (serve fd (zeroFilled 1024 p) p.length) =
        runArriving p s1 do
          reloadCommand (zeroFilled 1024 p) (inetNtop a)
          shutdownCommand (zeroFilled 1024 p) (inetNtop a)
          let _ ← sendNonBlocking fd (zeroFilled 1024 p) p.length
          pure ()) ∧
      sentOn fd s1.history = sentOn fd s.history ∧ lines s1.history = lines s.history ∧
      s1.world.memory.tcpServer.connectionPacket.userIp = inetNtop a ∧
      s1.world.memory.isServerRunning = s.world.memory.isServerRunning := by
    simp only [serve, modifyServer, getServer, bind_assoc, pure_bind, runArriving_load,
      runArriving_store, State.after_world, effect, hip]
    exact ⟨_, rfl, rfl, rfl, rfl, rfl⟩
  obtain ⟨s1, h1, hsent1, hlines1, hip1, hrun1⟩ := hstore
  obtain ⟨s2, h2, hsent2, hlines2, hmem2⟩ :=
    runArriving_reply hp (hsent1.trans hquiet) (inetNtop a)
  refine ⟨s2, h1.trans h2, hsent2, ?_, ?_, ?_⟩
  · rw [hlines2, hlines1]
  · rw [hmem2]
    exact hip1
  · rw [hmem2, hrun1]

end Unbanned

/-- The service of a message from an unbanned peer depends on the past through the flag alone. -/
theorem service_unbanned {w : World} {a : InAddr} {p : Bytes} (fd : ℤ) (hp : p ≠ [])
    (hb : ¬ Banned a) (haddr : w.memory.tcpServer.clientAddress = a.toSockAddr) :
    service w fd p =
      if w.memory.tcpServer.connectionPacket.isUserBanned then
        ⟨true, [], [], w.memory.tcpServer.connectionPacket.userIp, w.memory.isServerRunning⟩
      else
        ⟨true, p, shutdownLines (inetNtop a) p ++ reloadLines (inetNtop a) p, inetNtop a,
          w.memory.isServerRunning && !decide (Stops (inetNtop a) p)⟩ := by
  obtain ⟨s1, h1, hw1, hl1, hs1⟩ := runArriving_unbanned (s := ⟨w, []⟩) fd hp hb haddr
  have haddr1 : s1.world.memory.tcpServer.clientAddress = a.toSockAddr := by rw [hw1, haddr]
  split
  · -- the flag is set: the early return
    next hset =>
    have hrun : runArriving p ⟨w, []⟩ (readFromClient fd) = (s1, .done ()) := by
      rw [h1, if_pos hset]
      rfl
    simp [service, hrun, observe, hs1, hl1, hw1]
  · next hset =>
    obtain ⟨s2, h2, hs2, hl2, hip2, hr2⟩ := runArriving_serve hp haddr1 hs1
    have hrun : runArriving p ⟨w, []⟩ (readFromClient fd) = (s2, .done ()) := by
      rw [h1, if_neg hset, h2]
    simp [service, hrun, observe, hs2, hl2, hip2, hr2, hl1, hw1]

/-- An unbanned peer is served as on a fresh server if and only if no banned peer has been served
before it. -/
theorem servedAsFresh_iff {files : ℤ → Bool} {s : State} {fd : ℤ} {a : InAddr} {p : Bytes}
    (hread : Reading files s fd) (halive : s.world.alive = true)
    (hconn : s.world.descriptors.connected fd = true)
    (hpeer : s.world.descriptors fd = some (.connection a)) (hb : ¬ Banned a) (hp : p ≠ []) :
    ServedAsFresh s.world fd a p ↔ ¬ bannedSeen s.history := by
  have hc := hread.connected halive hconn hpeer
  have hrecv := hread.atRecv halive
  have hserved := service_unbanned fd hp hb hc.address
  have hfresh := service_unbanned (w := freshlyConstructed s.world a) fd hp hb rfl
  rw [ServedAsFresh, hfresh, hserved, ← hrecv.flag]
  constructor
  · -- with the flag set nothing is echoed, though the message is not empty
    rintro ⟨-, -, hecho, -⟩ hset
    rw [if_pos hset] at hecho
    exact hp hecho.symm
  · intro hset
    rw [if_neg hset]
    simp [freshlyConstructed, hrecv.running]

/-- A banned peer, followed by another one that says hello. -/
def bannedFirst : Script :=
  [.ok (⟨192, 168, 1, 81⟩, ascii "hi"), .ok (⟨10, 0, 0, 1⟩, ascii "hello")]

/-- The server about to read from the second peer. -/
def afterBanned : State :=
  (bannedFirst.play fun s o => o matches .recv .. && acceptCalls s.history == 2).1

theorem afterBanned_reading : Reading (fun _ => false) afterBanned 5 :=
  ⟨_, Script.play_reaches bannedFirst _⟩

/-- After a banned peer, the next one is not served. -/
theorem not_servedAsFresh_afterBanned :
    Reading (fun _ => false) afterBanned 5 ∧ afterBanned.world.alive = true ∧
      afterBanned.world.descriptors.connected 5 = true ∧
      afterBanned.world.descriptors 5 = some (.connection ⟨10, 0, 0, 1⟩) ∧
      ¬ Banned ⟨10, 0, 0, 1⟩ ∧
      ¬ ServedAsFresh afterBanned.world 5 ⟨10, 0, 0, 1⟩ (ascii "hello") := by
  refine ⟨afterBanned_reading, rfl, rfl, rfl, by decide, ?_⟩
  rintro ⟨-, -, hecho, -⟩
  exact absurd hecho (by decide)

theorem servedAsFresh_iff_afterBanned :
    ServedAsFresh afterBanned.world 5 ⟨10, 0, 0, 1⟩ (ascii "hello") ↔
      ¬ bannedSeen afterBanned.history :=
  servedAsFresh_iff afterBanned_reading rfl rfl rfl (by decide) (by decide)

end KCNet.Server
