import KCNet.Server.Descriptors
import KCNet.Server.Script

/-!
# The listener

What can take the listening socket, or the whole process, away from the server: a failed `accept`,
after which `SetupClientConnection` closes the listener while `RunServer` goes on to report success,
and a `send` to a connection that the peer has reset, which raises SIGPIPE.
-/

namespace KCNet.Server

open Interaction

variable {files : ℤ → Bool} {s : State} {p : Sys (Turn ℤ)}

/-- No `accept` has failed, and no `send` has met a connection reset by the peer. -/
def Peaceful (h : List Happening) : Prop := acceptFailures h = 0 ∧ brokenPipes h = 0

/-- The process runs and, when the loop goes round again, `server_fd` is the listening socket. -/
def Survives (s : State) (p : Sys (Turn ℤ)) : Prop :=
  s.world.alive = true ∧ (p = .done .again → s.world.memory.constructed = true →
    s.world.descriptors s.world.memory.tcpServer.serverFd = some .listener)

/-- Only SIGPIPE ends the process from outside. -/
theorem alive_after (s : State) (o : SysOp) (r : o.Res)
    (h : s.world.alive = true ↔ brokenPipes s.history = 0) :
    (s.after o r).world.alive = true ↔ brokenPipes (s.after o r).history = 0 := by
  cases o with
  | socket => cases r <;> exact h
  | listen => cases r <;> exact h
  | accept => cases r <;> exact h
  | send fd buf =>
    cases r with
    | ok n => exact h
    | error e => cases e <;> first | exact h | simp
  | _ => exact h

theorem alive_iff (h : Reaches files s p) : s.world.alive = true ↔ brokenPipes s.history = 0 :=
  Env.Reach.invariant (I := fun s => s.world.alive = true ↔ brokenPipes s.history = 0)
    (fun s o r _ _ hi => alive_after s o r hi) (fun s hs => mainLoop_ledger (hs.1 rfl))
    (ledger_of_reaches (.start files)) (by simp [World.start]) h

/-- At the head of the loop the listener is open unless an `accept` has failed. -/
theorem listener_iff (h : Reaches files s (.done .again)) :
    (s.world.memory.constructed = true →
      s.world.descriptors s.world.memory.tcpServer.serverFd = some .listener) ↔
      acceptFailures s.history = 0 := by
  rcases (ledger_of_reaches h).1 rfl with ⟨hc, hb, -⟩ | ⟨hc, hu, -⟩
  · simp only [hc, hb.listener, forall_const]
    split <;> simp_all
  · simp [hc, hu.failures]

/-- The server survives as long as no `accept` fails and no `send` meets a reset connection. Where
it goes round its loop again, or has been ended by a signal, it has survived only then. -/
theorem survives_iff_peaceful (h : Reaches files s p) :
    (Peaceful s.history → Survives s p) ∧
      (p = .done .again ∨ s.world.alive = false → Survives s p → Peaceful s.history) := by
  have halive := alive_iff h
  constructor
  · rintro ⟨hf, hp⟩
    refine ⟨halive.2 hp, ?_⟩
    rintro rfl
    exact (listener_iff h).2 hf
  · rintro (rfl | hdead) ⟨ha, hl⟩
    · exact ⟨(listener_iff h).1 (hl rfl), halive.1 ha⟩
    · -- a process that a signal has ended has not survived
      exact absurd ha (by simp [hdead])

/-- A client that gives up before `accept` returns, and one that comes after it. -/
def abortedFirst : Script := [.error .ECONNABORTED, .ok (⟨10, 0, 0, 1⟩, ascii "hello")]

/-- `RunServer` has reported success and the loop goes round, but the listener is closed. -/
theorem not_survives_abortedFirst :
    let s := (abortedFirst.playTurns 1 fun _ _ => false).1
    Reaches (fun _ => false) s (.done .again) ∧ ¬ Survives s (.done .again) := by
  intro s
  refine ⟨abortedFirst.playTurns_reaches 1 fun _ _ => false, ?_⟩
  rintro ⟨-, hl⟩
  exact absurd (hl rfl rfl) (by decide)

/-- Two clients are served, and the server is back at the head of its loop. -/
theorem survives_twoClients :
    let c := Script.playTurns (twoClients ++ [.error .ECONNABORTED]) 2 fun _ _ => false
    c.2 = .done .again ∧ accepted c.1.history = [5, 4] ∧ Survives c.1 c.2 := by
  intro c
  have hpeaceful : Peaceful c.1.history := ⟨by decide, by decide⟩
  exact ⟨rfl, by decide, (survives_iff_peaceful (Script.playTurns_reaches ..)).1 hpeaceful⟩

end KCNet.Server
