import KCNet.Interaction.Ensures
import KCNet.Socket.Kernel

/-!
# The TCP server

`TcpServer/src/util/tcp_server.cpp`, function by function, with the parts of `openssl_test.cpp`,
`util.cpp`, `logger.cpp` and `main.cpp` that its main loop runs. The build is the one of
`defines.h`: `EXTRA_LOGS` on, `SECURE_SERVER_TEST` off. Global state is read and written
through the operations `load` and `store`, so it is visible between any two of them.

## Main definitions

- `SysOp` — the operations of the server process and their answers
- `TcpServer.sendNonBlocking`, `TcpServer.readFromClient`, `TcpServer.runServer`
- `mainLoop` — one turn of the loop of `main`
-/

namespace KCNet.Server

open Interaction

/-- The packet that is kept for each user that connects. -/
structure ConnectionPacket where
  userIp : Bytes
  isUserBanned : Bool
deriving DecidableEq, Repr

/-- The fields of the singleton `TcpServer`. -/
structure TcpServer where
  serverFd : ℤ
  clientFd : ℤ
  clientAddress : SockAddrIn
  connectionPacket : ConnectionPacket
deriving DecidableEq, Repr

/-- Static storage before the constructor has run: zeros, and default-constructed members. -/
def TcpServer.zero : TcpServer := ⟨0, 0, .zero, ⟨[], false⟩⟩

/-- The globals of the process: the function-local static `instance` with its guard, and
`Util::isServerRunning`. -/
structure Memory where
  constructed : Bool
  tcpServer : TcpServer
  isServerRunning : Bool
deriving DecidableEq, Repr

inductive LogLevel where
  | LOG_INFO
  | LOG_WARNING
  | LOG_ERROR
deriving DecidableEq, Repr

/-- What the server process asks of its surroundings. -/
inductive SysOp where
  | load
  | store (m : Memory)
  /-- `quit.load()` -/
  | loadQuit
  | socket
  | setsockopt (fd : ℤ)
  | bind (fd : ℤ) (port : ℕ)
  | listen (fd : ℤ) (backlog : ℕ)
  | accept (fd : ℤ)
  | recv (fd : ℤ) (len : ℕ)
  | send (fd : ℤ) (buf : Bytes)
  | close (fd : ℤ)
  | stdout (text : Bytes)
  | perror (text : Bytes)
  | logFile (level : LogLevel) (text : Bytes)
  | exit (code : ℤ)
deriving DecidableEq

/-- The answers. A call that fails reports its `errno`. -/
abbrev SysOp.Res : SysOp → Type
  | .load => Memory
  | .loadQuit => Bool
  | .socket => Except Errno ℤ
  | .bind .. => Except Errno Unit
  | .listen .. => Except Errno Unit
  | .accept _ => Except Errno (ℤ × InAddr)
  | .recv .. => Except Errno Bytes
  | .send .. => Except Errno ℕ
  | .exit _ => Empty
  | _ => Unit

abbrev Sys := Program SysOp SysOp.Res

namespace Sys

abbrev load : Sys Memory := perform SysOp.load
abbrev store (m : Memory) : Sys Unit := perform (SysOp.store m)
abbrev loadQuit : Sys Bool := perform SysOp.loadQuit
abbrev socket : Sys (Except Errno ℤ) := perform SysOp.socket
abbrev setsockopt (fd : ℤ) : Sys Unit := perform (SysOp.setsockopt fd)
abbrev bind (fd : ℤ) (port : ℕ) : Sys (Except Errno Unit) := perform (SysOp.bind fd port)
abbrev listen (fd : ℤ) (backlog : ℕ) : Sys (Except Errno Unit) := perform (SysOp.listen fd backlog)
abbrev accept (fd : ℤ) : Sys (Except Errno (ℤ × InAddr)) := perform (SysOp.accept fd)
abbrev recv (fd : ℤ) (len : ℕ) : Sys (Except Errno Bytes) := perform (SysOp.recv fd len)
abbrev send (fd : ℤ) (buf : Bytes) : Sys (Except Errno ℕ) := perform (SysOp.send fd buf)
abbrev close (fd : ℤ) : Sys Unit := perform (SysOp.close fd)
abbrev stdout (text : Bytes) : Sys Unit := perform (SysOp.stdout text)
abbrev perror (text : Bytes) : Sys Unit := perform (SysOp.perror text)
abbrev logFile (level : LogLevel) (text : Bytes) : Sys Unit := perform (SysOp.logFile level text)

/-- A call that does not return. -/
abbrev exit {α : Type} (code : ℤ) : Sys α := .call (SysOp.exit code) Empty.elim

end Sys

/-- The parts on one line of the console. -/
def consoleLine (parts : List Bytes) : Bytes :=
  ascii "[KCNet-TcpServer]: " ++ parts.flatten ++ ascii "\n"

/-- `log_output` -/
def logOutput (parts : List Bytes) : Sys Unit := Sys.stdout (consoleLine parts)

/-- `Logger::Log`: one entry of the log file, flushed. -/
def log (level : LogLevel) (text : Bytes) : Sys Unit := Sys.logFile level text

def getServer : Sys TcpServer := do
  let m ← Sys.load
  return m.tcpServer

def modifyServer (f : TcpServer → TcpServer) : Sys Unit := do
  let m ← Sys.load
  Sys.store { m with tcpServer := f m.tcpServer }

/-- `Util::GetServerRunning` -/
def getServerRunning : Sys Bool := do
  let m ← Sys.load
  return m.isServerRunning

/-- `Util::SetServerRunning` -/
def setServerRunning (status : Bool) : Sys Unit := do
  let m ← Sys.load
  Sys.store { m with isServerRunning := status }

/-- `LISTEN_PORT` -/
def listenPort : ℕ := 8055

/-- `OpensslTest::create_tcp_socket` -/
def createTcpSocket (port : ℕ) : Sys ℤ := do
  match ← Sys.socket with
  | .error _ =>
    Sys.perror (ascii "socket creation failed")
    Sys.exit exitFailure
  | .ok serverFd =>
    -- its result is ignored
    Sys.setsockopt serverFd
    match ← Sys.bind serverFd port with
    | .error _ =>
      Sys.perror (ascii "bind failed")
      Sys.close serverFd
      Sys.exit exitFailure
    | .ok () =>
      match ← Sys.listen serverFd 5 with
      | .error _ =>
        Sys.perror (ascii "listen failed")
        Sys.close serverFd
        Sys.exit exitFailure
      | .ok () =>
        logOutput [ascii "TCP server listening on port ", ascii (toString listenPort)]
        return serverFd

namespace TcpServer

/-- `TcpServer::TcpServer`. It leaves `client_fd` as static storage has it. -/
def construct : Sys Unit := do
  logOutput [ascii "(INSECURE) Starting TCP socket without SSL for TcpServer."]
  log .LOG_INFO (ascii "(INSECURE) Starting TCP socket without SSL for TcpServer.")
  modifyServer fun s => { s with connectionPacket := ⟨[], false⟩ }
  let fd ← createTcpSocket listenPort
  modifyServer fun s => { s with serverFd := fd }

/-- `TcpServer::getInstance`: the first call constructs the static instance. -/
def getInstance : Sys Unit := do
  let m ← Sys.load
  if m.constructed then
    return ()
  else
    construct
    let m ← Sys.load
    Sys.store { m with constructed := true }

/-- `TcpServer::~TcpServer` -/
def destruct : Sys Unit := do
  logOutput [ascii "Cleaning up and shutting down TcpServer."]
  log .LOG_INFO (ascii "Cleaning up and shutting down TcpServer.")
  let s ← getServer
  -- whatever the fields hold: -1 after a failed `accept`, or a listener that is closed already
  Sys.close s.clientFd
  Sys.close s.serverFd
  modifyServer fun s =>
    { s with serverFd := 0, clientFd := 0, connectionPacket := ⟨[], false⟩ }

/-- The loop of `SendNonBlocking`. Every successful `send` takes at least one byte, so the loop
is entered at most `gas` times when `gas` bytes are left. -/
def sendLoop (fd : ℤ) (buf : Bytes) (len : ℕ) : ℕ → ℕ → Sys ℤ
  | 0, sent => return sent
  | gas + 1, sent =>
    if sent < len then do
      match ← Sys.send fd ((buf.take len).drop sent) with
      | .ok s => sendLoop fd buf len gas (sent + s)
      | .error e =>
        if e = .EAGAIN ∨ e = .EWOULDBLOCK then
          return sent
        else
          Sys.perror (ascii "send")
          return -1
    else
      return sent

/-- `TcpServer::SendNonBlocking` -/
def sendNonBlocking (fd : ℤ) (buf : Bytes) (len : ℕ) : Sys ℤ := sendLoop fd buf len len 0

/-- `TcpServer::GetClientIp` -/
def getClientIp (s : TcpServer) : Bytes :=
  if s.clientAddress.sinFamily = 0 then ascii "Invalid IP Address"
  else inetNtop s.clientAddress.sinAddr

/-- `TcpServer::SetupClientConnection`. A failing `accept` leaves `client_address` alone. -/
def setupClientConnection : Sys Unit := do
  let s ← getServer
  match ← Sys.accept s.serverFd with
  | .ok (fd, peer) =>
    modifyServer fun s => { s with clientFd := fd, clientAddress := peer.toSockAddr }
  | .error _ =>
    modifyServer fun s => { s with clientFd := -1 }
    Sys.perror (ascii "accept")
    -- `server_fd` keeps its number, and the caller does not learn of the failure
    let s ← getServer
    Sys.close s.serverFd

def bannedMessage : Bytes := ascii "You attempted to connect from a banned IP."

def bannedClientIpVector : List Bytes := [ascii "192.168.1.81"]

/-- The loop of `ReadFromClient` over the banned addresses. -/
def banLoop (clientFd : ℤ) : List Bytes → Sys Unit
  | [] => return ()
  | bannedIp :: rest => do
    let s ← getServer
    if s.getClientIp = bannedIp then
      Sys.stdout (ascii "[DBG]: Banned IP " ++ bannedIp ++
        ascii " attempted to connect to the server.\n")
      let _ ← sendNonBlocking clientFd bannedMessage bannedMessage.length
      -- nothing resets the flag before the destructor
      modifyServer fun s =>
        { s with connectionPacket := { s.connectionPacket with isUserBanned := true } }
    banLoop clientFd rest

/-- `ReadFromClient`, the test for the dummy reload command. -/
def reloadCommand (buffer userIp : Bytes) : Sys Unit :=
  if cString buffer = ascii "RELOAD" then
    if userIp = [] then
      Sys.stdout (ascii
        "The users IP address was not found! Attempting to reload server...\n")
    else
      Sys.stdout (ascii "User with IP address of " ++ userIp ++
        ascii " has sent the reload command to the server.\n")
  else
    return ()

/-- `ReadFromClient`, the test for the shutdown command. Any other message is logged. -/
def shutdownCommand (buffer userIp : Bytes) : Sys Unit :=
  if cString buffer = ascii "SHUTDOWN" then
    if userIp = ascii "192.168.1.108" then do
      logOutput [ascii "Shutdown command received, shutting down TCP Server."]
      setServerRunning false
    else
      logOutput [ascii "Client attempted to send shutdown command. Permission Denied from IP: ",
        userIp]
  else do
    logOutput [ascii "Received: ", cString buffer]
    log .LOG_INFO (ascii "Received: " ++ cString buffer)

/-- `ReadFromClient`, from the line on that stores the user's IP. -/
def serve (clientFd : ℤ) (buffer : Bytes) (bytesRead : ℕ) : Sys Unit := do
  modifyServer fun s =>
    { s with connectionPacket := { s.connectionPacket with userIp := s.getClientIp } }
  let s ← getServer
  reloadCommand buffer s.connectionPacket.userIp
  shutdownCommand buffer s.connectionPacket.userIp
  let _ ← sendNonBlocking clientFd buffer bytesRead

/-- `ReadFromClient`, once a message has arrived. The buffer holds it, filled up with zeros. -/
def handleMessage (clientFd : ℤ) (message : Bytes) : Sys Unit := do
  banLoop clientFd bannedClientIpVector
  let s ← getServer
  -- the flag may have been set for an earlier client
  if s.connectionPacket.isUserBanned then
    return ()
  else
    serve clientFd (zeroFilled 1024 message) message.length

/-- `TcpServer::ReadFromClient` -/
def readFromClient (clientFd : ℤ) : Sys Unit := do
  match ← Sys.recv clientFd (1024 - 1) with
  -- the connection is left open, as it is at the end of the stream
  | .error _ => return ()
  | .ok message => if 0 < message.length then handleMessage clientFd message

/-- `TcpServer::RunServer` -/
def runServer : Sys ℤ := do
  let s ← getServer
  if s.serverFd = 0 then
    return exitFailure
  else
    setupClientConnection
    -- `client_fd` is -1 if `accept` has failed
    let s ← getServer
    readFromClient s.clientFd
    return exitSuccess

end TcpServer

/-- Leave `main`: the static instance is destroyed if it was constructed. -/
def leave (code : ℤ) : Sys (Turn ℤ) := do
  let m ← Sys.load
  if m.constructed then
    TcpServer.destruct
  return .halt code

/-- One turn of the loop of `main`. -/
def mainLoop : Sys (Turn ℤ) := do
  if ← getServerRunning then
    TcpServer.getInstance
    let rc ← TcpServer.runServer
    if rc ≠ exitSuccess then
      leave exitFailure
    -- the only test of `quit`, after the message has been served
    else if ← Sys.loadQuit then
      leave exitSuccess
    else
      return .again
  else
    leave exitSuccess

/-- `main` up to its loop. -/
def mainStart : Sys (Turn ℤ) := do
  setServerRunning true
  return .again

end KCNet.Server
