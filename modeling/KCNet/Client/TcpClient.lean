import KCNet.Client.Urandom

/-!
# The TCP client

`ConnectToServer` of `TcpClient/src/util/tcp_client.cpp` in the GUI build, with the part of
`openssl_test.cpp` it calls.
-/

namespace KCNet.Client

open Interaction

/-- `ServerCommand` -/
inductive ServerCommand where
  /-- The value -1, which is the selection of the GUI when nothing is selected. -/
  | NONE
  | URANDOM_MESSAGE
  | RELOAD_COMMAND
  | SHUTDOWN_COMMAND
  | LAST_COMMAND
deriving DecidableEq, Repr

/-- `SERVER_IP` -/
def serverIp : Bytes := ascii "192.168.1.108"

/-- `SERVER_PORT` -/
def serverPort : ℕ := 8055

/-- `log_output` -/
def logOutput (text : Bytes) : Sys Unit :=
  Sys.stdout (ascii "[KCNet-TcpClient]: " ++ text ++ ascii "\n")

/-- `OpensslTest::create_tcp_client` -/
def createTcpClient (ip : Bytes) (port : ℕ) : Sys ℤ := do
  match ← Sys.socket with
  | .error _ =>
    Sys.messageBox (ascii "Socket creation failed")
    Sys.exit exitFailure
  | .ok sockfd =>
    if ← Sys.inetPton ip then
      match ← Sys.connect sockfd port with
      | .ok () => return sockfd
      | .error _ =>
        Sys.messageBox (ascii "Connection to server failed.")
        Sys.close sockfd
        return -1
    else
      Sys.messageBox (ascii "Invalid server IP")
      Sys.close sockfd
      return -1

namespace TcpClient

/-- `TcpClient::SendMessageToServer`. The result of `send` is ignored. -/
def sendMessageToServer (socket : ℤ) (message : Bytes) : Sys Unit := do
  let _ ← Sys.send socket message

/-- The text that the client takes for a ban. -/
def bannedMessage : Bytes := ascii "You attempted to connect from a banned IP."

def reloadCommand : Bytes := ascii "RELOAD"

def shutdownCommand : Bytes := ascii "SHUTDOWN"

/-- The `switch` over the command. -/
def sendCommand (command : ServerCommand) (sock : ℤ) (randomValue : Bytes) : Sys Unit :=
  match command with
  | .URANDOM_MESSAGE => sendMessageToServer sock (cString randomValue)
  | .RELOAD_COMMAND => sendMessageToServer sock reloadCommand
  | .SHUTDOWN_COMMAND => sendMessageToServer sock shutdownCommand
  | _ => Sys.stdout (ascii "Error, choice invalid\n")

/-- What the client makes of a reply. Both ways it returns without closing the socket. -/
def verdict (reply : Bytes) : Sys ℤ :=
  if cString (zeroFilled 1024 reply) = bannedMessage then do
    logOutput (ascii "You have been banned from this server.")
    return exitFailure
  else do
    logOutput (ascii "Sent message to server.")
    return exitSuccess

/-- `ConnectToServer`, from the `recv` on. -/
def awaitReply (sock : ℤ) : Sys ℤ := do
  match ← Sys.recv sock (1024 - 1) with
  | .ok reply =>
    if 0 < reply.length then
      verdict reply
    else
      Sys.close sock
      return exitFailure
  | .error _ =>
    Sys.close sock
    return exitFailure

/-- `TcpClient::ConnectToServer` -/
def connectToServer (command : ServerCommand) : Sys ℤ :=
  inScope Urandom.construct Urandom.destruct fun _urandom => do
    let randomValue ← Urandom.generateRandom 4 10 4
    -- used even if it is -1
    let sock ← createTcpClient serverIp serverPort
    sendCommand command sock randomValue
    awaitReply sock

end TcpClient

end KCNet.Client
