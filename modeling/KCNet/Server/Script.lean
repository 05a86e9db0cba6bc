import KCNet.Server.Environment

/-!
# Scripted runs

A script says whom `accept` reports and what arrives first on each connection. Played against
the server it gives a run in which every `send` takes all it is offered, SIGINT comes after the
last entry, and which stops where the script wants to look at the server.
-/

namespace KCNet.Server

open Interaction

/-- The outcomes of the `accept` calls, in order, each with the first chunk of the connection. -/
abbrev Script := List (Except Errno (InAddr × Bytes))

namespace Script

/-- The answers of a script. The listener is descriptor 3 and clients are numbered from 4 on. -/
def answer (cs : Script) (s : State) : (o : SysOp) → Option o.Res
  | .load => some s.world.memory
  | .loadQuit => some (decide (cs.length ≤ acceptCalls s.history))
  | .socket => some (.ok 3)
  | .bind .. => some (.ok ())
  | .listen .. => some (.ok ())
  | .accept _ =>
    match cs[acceptCalls s.history]? with
    | some (.ok (peer, _)) => some (.ok (4 + acceptCalls s.history, peer))
    | some (.error e) => some (.error e)
    | none => none
  | .recv _ len =>
    match cs[acceptCalls s.history - 1]? with
    | some (.ok (_, chunk)) => some (.ok (chunk.take len))
    | _ => some (.error .EBADF)
  | .send _ buf => some (.ok buf.length)
  | .exit _ => none
  | .store _ | .setsockopt _ | .close _ | .stdout _ | .perror _ | .logFile .. => some ()

/-- The same, up to the operation at which `stop` holds. -/
def answerUntil (cs : Script) (stop : State → SysOp → Bool) (s : State) (o : SysOp) :
    Option o.Res :=
  if stop s o then none else cs.answer s o

/-- The first `n` turns of the server against a script. No file is open at start-up. -/
def playTurns (cs : Script) (n : ℕ) (stop : State → SysOp → Bool) : State × Sys (Turn ℤ) :=
  let pick := serverEnv.recorded.checked (cs.answerUntil stop)
  serverEnv.recorded.loopRun pick mainLoop n
    (serverEnv.recorded.run pick mainStart ⟨World.start fun _ => false, []⟩)

theorem playTurns_reaches (cs : Script) (n : ℕ) (stop : State → SysOp → Bool) :
    Reaches (fun _ => false) (cs.playTurns n stop).1 (cs.playTurns n stop).2 :=
  ((Env.run_checked_steps serverEnv.recorded (cs.answerUntil stop) mainStart _).toReach).trans
    (Env.loopRun_checked_reach serverEnv.recorded (cs.answerUntil stop) mainLoop n _)

/-- The whole run of the server against a script. -/
def play (cs : Script) (stop : State → SysOp → Bool) : State × Sys (Turn ℤ) :=
  cs.playTurns (cs.length + 1) stop

theorem play_reaches (cs : Script) (stop : State → SysOp → Bool) :
    Reaches (fun _ => false) (cs.play stop).1 (cs.play stop).2 :=
  cs.playTurns_reaches _ stop

/-- The execution of one function against a script. -/
def finish {α : Type} (cs : Script) (p : Sys α) (s : State) : State × Sys α :=
  serverEnv.recorded.run (serverEnv.recorded.checked (cs.answerUntil fun _ _ => false)) p s

theorem finish_steps {α : Type} (cs : Script) (p : Sys α) (s : State) :
    serverEnv.recorded.Steps (s, p) (cs.finish p s) :=
  Env.run_checked_steps serverEnv.recorded (cs.answerUntil fun _ _ => false) p s

end Script

/-- Two clients in a row. -/
def twoClients : Script := [.ok (⟨10, 0, 0, 1⟩, ascii "hello"), .ok (⟨10, 0, 0, 2⟩, ascii "hi")]

end KCNet.Server
