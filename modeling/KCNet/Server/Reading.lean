import KCNet.Server.Contract

/-!
# Reading from a client

The states in which the server calls `ReadFromClient`, and the executions of that call in which
a given message arrives.
-/

namespace KCNet.Server

open Interaction TcpServer

/-- A reachable state in which the server enters `ReadFromClient` on `fd`: it is about to call
`recv`, which it does nowhere else. -/
def Reading (files : ℤ → Bool) (s : State) (fd : ℤ) : Prop :=
  ∃ k, Reaches files s (.call (.recv fd (1024 - 1)) k)

variable {files : ℤ → Bool} {s s' : State} {fd : ℤ} {a : InAddr} {p : Bytes} {q : Sys Unit}

theorem Reading.atRecv (h : Reading files s fd) (ha : s.world.alive = true) : AtRecv s fd := by
  obtain ⟨k, hk⟩ := h
  have hallowed : serverEnv.recorded.allowed s (.recv fd (1024 - 1)) (.error .EBADF) := by
    simp [serverEnv, answers, ha]
  exact (contract_of_reaches hk _ hallowed).1.2

/-- What the server remembers of its client is true. -/
theorem Reading.connected (h : Reading files s fd) (ha : s.world.alive = true)
    (hc : s.world.descriptors.connected fd = true)
    (hd : s.world.descriptors fd = some (.connection a)) : Connected s fd a := by
  obtain ⟨a', hconn⟩ := (h.atRecv ha).connected hc
  obtain rfl := Descriptor.connection.inj (Option.some.inj (hd.symm.trans hconn.descriptor))
  exact hconn

/-- In the execution of `ReadFromClient` up to `s'`, `recv` has delivered the message `p`. -/
def Delivered (fd : ℤ) (p : Bytes) (s s' : State) : Prop :=
  ⟨.recv fd (1024 - 1), .ok p⟩ :: s.history <:+ s'.history

/-- What is left to be done once the message has arrived. -/
theorem steps_of_delivered (h : serverEnv.recorded.Steps (s, readFromClient fd) (s', q))
    (hp : p ≠ []) (hm : Delivered fd p s s') :
    s.world.alive = true ∧ s.world.descriptors.connected fd = true ∧ p.length ≤ 1024 - 1 ∧
      serverEnv.recorded.Steps (s.after (.recv fd (1024 - 1)) (.ok p), handleMessage fd p)
        (s', q) := by
  obtain ⟨ha, hrest⟩ := Env.Steps.of_answer h hm
  simp only [serverEnv, answers, Bool.and_eq_true, decide_eq_true_eq] at ha
  refine ⟨ha.1, ha.2.1, ha.2.2, ?_⟩
  have hrest : serverEnv.recorded.Steps (s.after (.recv fd (1024 - 1)) (.ok p),
      if 0 < p.length then handleMessage fd p else pure ()) (s', q) := hrest
  rwa [if_pos (List.length_pos_iff.2 hp)] at hrest

/-! ## What a message means -/

/-- The line that a reload command leaves on the console. -/
def reloadLines (userIp message : Bytes) : List Bytes :=
  if cString message = ascii "RELOAD" then
    if userIp = [] then
      [ascii "The users IP address was not found! Attempting to reload server...\n"]
    else
      [ascii "User with IP address of " ++ userIp ++
        ascii " has sent the reload command to the server.\n"]
  else []

/-- The lines that a shutdown command or any other message leaves, the latest first. -/
def shutdownLines (userIp message : Bytes) : List Bytes :=
  if cString message = ascii "SHUTDOWN" then
    if userIp = ascii "192.168.1.108" then
      [consoleLine [ascii "Shutdown command received, shutting down TCP Server."]]
    else
      [consoleLine [ascii "Client attempted to send shutdown command. Permission Denied from IP: ",
        userIp]]
  else
    [ascii "Received: " ++ cString message, consoleLine [ascii "Received: ", cString message]]

/-- The message stops the server. -/
def Stops (userIp message : Bytes) : Prop :=
  cString message = ascii "SHUTDOWN" ∧ userIp = ascii "192.168.1.108"

instance (userIp message : Bytes) : Decidable (Stops userIp message) :=
  inferInstanceAs (Decidable (_ ∧ _))

end KCNet.Server
