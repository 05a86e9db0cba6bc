import KCNet.Client.Contract
import KCNet.Server.Contract
import KCNet.Server.Script

/-!
# The server and its clients

The server process together with any number of clients, each of which makes one call of
`ConnectToServer`, and the connections between them. A step is one answered operation of one
party; TCP is a stream in each direction, of which the reader gets any non-empty initial part.

## Main definitions

- `Link` — the connection of one client
- `serve`, `ask` — what an operation of the server or of a client does to the connections
- `Step`, `Reaches` — the runs
-/

namespace KCNet.Network

open Interaction Client

/-- How far the connection of a client has got. -/
inductive Status where
  | unconnected
  /-- It waits in the queue of the listener. -/
  | pending
  /-- The server has accepted it as `fd`. -/
  | accepted (fd : ℤ)
  | closed
deriving DecidableEq

/-- The connection of a client, with all that has ever been sent on it. -/
structure Link where
  status : Status
  /-- What the client has sent, and how much of it the server has read. -/
  request : Bytes
  read : ℕ
  /-- What the server has sent, and how much of it the client has read. -/
  reply : Bytes
  got : ℕ
  /-- The client has closed its end. -/
  hungUp : Bool

namespace Link

/-- The bytes on their way to the server. -/
def toServer (l : Link) : Bytes := l.request.drop l.read

/-- The bytes on their way to the client. -/
def toClient (l : Link) : Bytes := l.reply.drop l.got

/-- The server's end is closed. What is on its way still arrives. -/
def shut (l : Link) : Link :=
  if l.status = .unconnected then l else { l with status := .closed }

end Link

abbrev ServerConfig := Server.State × Server.Sys (Turn ℤ)

abbrev ClientConfig := Client.State × Program Client.SysOp Client.SysOp.Res (Except Thrown ℤ)

/-- The process has ended. -/
def ended : ServerConfig → Bool
  | (_, .done (.halt _)) => true
  | (_, .call (.exit _) _) => true
  | (s, _) => !s.world.alive

/-- A new connection finds a listener. -/
def Listening (c : ServerConfig) : Prop :=
  ended c = false ∧ ∃ fd, c.1.world.descriptors fd = some .listener

section Effects

variable {ι : Type} [DecidableEq ι] (addr : ι → InAddr)

/-- What an operation of the server does to the connections. The index names the client whose
connection is accepted, read or written. -/
def serve (link : ι → Link) (s : Server.State) (i : ι) :
    (o : Server.SysOp) → o.Res → Option (ι → Link)
  | .accept _, .ok (c, peer) =>
    if (link i).status = .pending ∧ addr i = peer then
      some (Function.update link i { link i with status := .accepted c })
    else none
  | .recv fd _, .ok b =>
    -- the end of the stream comes after the last byte, and only if the client has hung up
    if (link i).status = .accepted fd ∧ b <+: (link i).toServer ∧
        (b = [] → (link i).hungUp = true ∧ (link i).toServer = []) then
      some (Function.update link i { link i with read := (link i).read + b.length })
    else none
  | .send fd buf, .ok n =>
    if (link i).status = .accepted fd then
      some (Function.update link i { link i with reply := (link i).reply ++ buf.take n })
    else none
  -- with the listener go the connections that wait in its queue
  | .close fd, _ =>
    some fun j =>
      if (link j).status = .accepted fd ∨
          (link j).status = .pending ∧ s.world.descriptors fd = some .listener then
        (link j).shut
      else link j
  | _, _ => some link

/-- What an operation of a client does to its connection. -/
def ask (l : Link) (s : Client.State) : (o : Client.SysOp) → o.Res → Option Link
  | .connect .., .ok () =>
    if l.status = .unconnected then some { l with status := .pending } else none
  | .send _ buf, .ok n => some { l with request := l.request ++ buf.take n }
  -- SIGPIPE ends the process of the client
  | .send _ _, .error .EPIPE => some { l with hungUp := true }
  | .recv _ _, .ok b =>
    if b <+: l.toClient ∧ (b = [] → l.status = .closed ∧ l.toClient = []) then
      some { l with got := l.got + b.length }
    else none
  | .close fd, _ =>
    some (if l.status ≠ .unconnected ∧ s.world.descriptors.connected fd = true then
      { l with hungUp := true } else l)
  | _, _ => some l

/-- The operation has set up a connection. -/
def Connects : (o : Client.SysOp) → o.Res → Prop
  | .connect .., .ok () => True
  | _, _ => False

end Effects

structure System (ι : Type) where
  server : ServerConfig
  client : ι → ClientConfig
  link : ι → Link

/-- How the call of a client has ended, if it has. -/
def System.outcome {ι : Type} (x : System ι) (i : ι) : Option (Except Thrown ℤ) :=
  match (x.client i).2 with
  | .done r => some r
  | .call .. => none

theorem System.client_of_outcome {ι : Type} {x : System ι} {i : ι} {r : Except Thrown ℤ}
    (h : x.outcome i = some r) : x.client i = ((x.client i).1, .done r) := by
  unfold outcome at h
  split at h
  · next heq => exact Prod.ext rfl (heq.trans (congrArg Program.done (Option.some.inj h)))
  · exact nomatch h

/-- What a client has read. -/
def System.readBy {ι : Type} (x : System ι) (i : ι) : Bytes :=
  Client.received (x.client i).1.history

/-- What happens next, and to whom. -/
inductive Move (ι : Type) where
  | server (i : ι) (o : Server.SysOp) (r : o.Res)
  /-- The loop of the server goes round. -/
  | again
  | client (i : ι) (o : Client.SysOp) (r : o.Res)
  /-- The process of the client is ended from outside, or after its call. -/
  | quit (i : ι)

/-- When the server has ended, so have all connections. -/
def settle {ι : Type} (c : ServerConfig) (link : ι → Link) : ι → Link :=
  if ended c then fun j => (link j).shut else link

/-- A client process that has ended. -/
def kill (c : ClientConfig) : ClientConfig :=
  (⟨{ c.1.world with alive := false }, c.1.history⟩, c.2)

section Runs

variable {ι : Type} [DecidableEq ι] (addr : ι → InAddr)

inductive Step : System ι → Move ι → System ι → Prop where
  | server {x : System ι} {s : Server.State} {o : Server.SysOp}
      {k : o.Res → Server.Sys (Turn ℤ)} (i : ι) (r : o.Res) {link : ι → Link}
      (hx : x.server = (s, .call o k)) (ha : Server.serverEnv.recorded.allowed s o r = true)
      (hl : serve addr x.link s i o r = some link) :
      Step x (.server i o r)
        { x with server := (s.after o r, k r), link := settle (s.after o r, k r) link }
  | again {x : System ι} {s : Server.State} (hx : x.server = (s, .done .again)) :
      Step x .again { x with server := (s, Server.mainLoop) }
  | client {x : System ι} {s : Client.State} {o : Client.SysOp}
      {k : o.Res → Program Client.SysOp Client.SysOp.Res (Except Thrown ℤ)} (i : ι) (r : o.Res)
      {l : Link} (hx : x.client i = (s, .call o k))
      (ha : clientEnv.recorded.allowed s o r = true)
      (hc : Connects o r → Listening x.server)
      (hl : ask (x.link i) s o r = some l) :
      Step x (.client i o r)
        { x with client := Function.update x.client i (s.after o r, k r),
                 link := Function.update x.link i l }
  | quit {x : System ι} (i : ι) :
      Step x (.quit i)
        { x with client := Function.update x.client i (kill (x.client i)),
                 link := Function.update x.link i { x.link i with hungUp := true } }

/-- The start: the server before `main`, and clients about to call `ConnectToServer`, each in a
process with any open descriptors. -/
def System.start (files : ℤ → Bool) (world : ι → Client.World) (command : ι → ServerCommand) :
    System ι where
  server := (⟨Server.World.start files, []⟩, Server.mainStart)
  client i := (⟨world i, []⟩, (TcpClient.connectToServer (command i)).run)
  link _ := ⟨.unconnected, [], 0, [], 0, false⟩

/-- Steps of any of the parties. -/
abbrev Steps : System ι → System ι → Prop :=
  Relation.ReflTransGen fun x y => ∃ m, Step addr x m y

/-- The states that the server and the clients can get into. -/
def Reaches (files : ℤ → Bool) (world : ι → Client.World) (command : ι → ServerCommand)
    (x : System ι) : Prop :=
  Steps addr (.start files world command) x

end Runs

end KCNet.Network
