import KCNet.Server.Contract
import KCNet.Server.Script

/-!
# Shutdown authority

Who can make the server stop: nobody but the administrator's address, with a request of its own.
-/

namespace KCNet.Server

open Interaction

/-- An operation that clears `isServerRunning` is a store. -/
theorem running_of_effect {w : World} {o : SysOp} {r : o.Res}
    (h : w.memory.isServerRunning = true) (h' : (effect w o r).memory.isServerRunning = false) :
    ∃ m, o = .store m ∧ m.isServerRunning = false := by
  cases o with
  | store m => exact ⟨m, rfl, h'⟩
  | socket => cases r <;> simp [h] at h'
  | listen fd n => cases r <;> simp [h] at h'
  | accept fd => cases r <;> simp [h] at h'
  | send fd buf =>
    cases r with
    | ok n => simp [h] at h'
    | error e => cases e <;> simp [h] at h'
  | _ => simp [h] at h'

/-- Whatever happened before, the server goes from running to stopping only in the course of
`ReadFromClient`, on a request `SHUTDOWN` that came over a connection accepted from the
administrator's address. -/
theorem shutdown_authority {files : ℤ → Bool} {s s' : State} {p p' : Sys (Turn ℤ)}
    (hreach : Reaches files s p) (hstep : serverEnv.recorded.LoopStep mainLoop (s, p) (s', p'))
    (hrun : s.world.memory.isServerRunning = true)
    (hstop : s'.world.memory.isServerRunning = false) : Authorised s := by
  have hc := contract_of_reaches hreach
  cases hstep with
  | call _ o k r hr =>
    obtain ⟨m, rfl, hm⟩ := running_of_effect hrun hstop
    exact (hc r hr).1 hrun hm
  | again _ => exact absurd (hrun.symm.trans hstop) (by decide)

/-- The run in which the administrator stops the server, up to the store that does it. -/
def stopping : State × Sys (Turn ℤ) :=
  Script.play [.ok (adminAddr, ascii "SHUTDOWN")] fun s o =>
    match o with
    | .store m => s.world.memory.isServerRunning && !m.isServerRunning
    | _ => false

theorem shutdown_authority_stopping : Authorised stopping.1 := by
  have hreach : Reaches (fun _ => false) stopping.1 stopping.2 := Script.play_reaches _ _
  obtain ⟨m, k, hp, hm⟩ : ∃ m k, stopping.2 = .call (.store m) k ∧ m.isServerRunning = false :=
    ⟨_, _, rfl, rfl⟩
  rw [hp] at hreach
  have hstep : serverEnv.recorded.LoopStep mainLoop (stopping.1, .call (.store m) k)
      (stopping.1.after (.store m) (), k ()) :=
    .call stopping.1 (SysOp.store m) k () rfl
  exact shutdown_authority hreach hstep (by decide) hm

end KCNet.Server
