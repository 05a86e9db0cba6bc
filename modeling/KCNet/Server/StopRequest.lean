import KCNet.Server.Descriptors
import KCNet.Server.Script

/-!
# Requests to stop

The server under SIGINT, whose handler sets `quit` and is installed without `SA_RESTART`. A call
that may block is first entered and then answered, so that the signal can come before the call,
where it has no effect on it, or while the process is blocked, where the call fails with `EINTR`.

## Main definitions

- `SigStep` — the steps of the server with the signal
- `BeforeAccept` — the points at which a signal comes too late for the test of `quit` and too
  early for `accept`
- `Turnwise` — the order of the calls in a turn of the loop
-/

namespace KCNet.Server

open Interaction TcpServer

/-- How far the pending call has got. -/
inductive Mode where
  | ready
  | blocked
  | interrupted
deriving DecidableEq, Repr

/-- The calls in which the process may block. -/
def blocks : SysOp → Bool
  | .accept _ | .recv .. | .send .. => true
  | _ => false

/-- A signal interrupts the call in which the process is blocked. -/
def Mode.interrupt : Mode → Mode
  | .ready => .ready
  | _ => .interrupted

/-- The answers that a call may get in a mode. -/
def Mode.permits : Mode → (o : SysOp) → o.Res → Bool
  | .ready, o, _ => !blocks o
  | .blocked, o, _ => blocks o
  | .interrupted, .accept _, .error e => e = .EINTR
  | .interrupted, .recv .., .error e => e = .EINTR
  | .interrupted, .send .., .error e => e = .EINTR
  | .interrupted, _, _ => false

/-- The environment in which `quit` has the value `q`. -/
def quitEnv (q : Bool) : Env SysOp SysOp.Res World where
  allowed
    | w, .loadQuit, b => serverEnv.allowed w .loadQuit b && b == q
    | w, o, r => serverEnv.allowed w o r
  next := effect

/-- The server, its pending call and the flag. -/
structure Config where
  state : State
  rest : Sys (Turn ℤ)
  mode : Mode
  quit : Bool

inductive SigStep : Config → Config → Prop where
  | again (s : State) (q : Bool) : SigStep ⟨s, .done .again, .ready, q⟩ ⟨s, mainLoop, .ready, q⟩
  | enter (s : State) (o : SysOp) (k : o.Res → Sys (Turn ℤ)) (q : Bool) (h : blocks o = true) :
      SigStep ⟨s, .call o k, .ready, q⟩ ⟨s, .call o k, .blocked, q⟩
  | answer (s : State) (o : SysOp) (k : o.Res → Sys (Turn ℤ)) (m : Mode) (q : Bool) (r : o.Res)
      (h : (quitEnv q).recorded.allowed s o r = true) (hm : m.permits o r = true) :
      SigStep ⟨s, .call o k, m, q⟩ ⟨s.after o r, k r, .ready, q⟩
  | signal (c : Config) : SigStep c { c with mode := c.mode.interrupt, quit := true }

/-- The server when `main` has installed the handler. Before that, SIGINT ends the process. -/
def launched (files : ℤ → Bool) : Config where
  state := State.update ⟨World.start files, []⟩
    { (World.start files).memory with isServerRunning := true }
  rest := .done .again
  mode := .ready
  quit := false

/-- A stop has been requested, by SIGINT or by an authorised `SHUTDOWN`. -/
def Stopped (c : Config) : Prop :=
  c.quit = true ∨ c.state.world.memory.isServerRunning = false

/-- No `accept` has returned since the last test of `quit`, or since the start, and that test has
let the server go on. -/
@[simp] def awaiting : List Happening → Bool
  | [] => true
  | ⟨.accept _, _⟩ :: _ => false
  | ⟨.loadQuit, b⟩ :: _ => !b
  | _ :: h => awaiting h

/-- The server has tested `quit` for this turn and has not entered `accept` yet. -/
def BeforeAccept (c : Config) : Prop :=
  c.mode = .ready ∧ awaiting c.state.history = true ∧
    c.state.world.memory.isServerRunning = true

/-- A step that is no signal at such a point. -/
def TimelyStep (c c' : Config) : Prop :=
  SigStep c c' ∧ (c'.quit = true → c.quit = true ∨ ¬ BeforeAccept c)

/-- The event is a message read from `fd`, or part of an answer on it. -/
inductive ServesOn (fd : ℤ) : Happening → Prop where
  | read (len : ℕ) (b : Bytes) : ServesOn fd ⟨.recv fd len, .ok b⟩
  | answer (buf : Bytes) (r : Except Errno ℕ) : ServesOn fd ⟨.send fd buf, r⟩

/-- Between the two histories a connection is accepted and then served. -/
def LateService (h h' : List Happening) : Prop :=
  ∃ early late listener fd peer, h' = late ++ ⟨.accept listener, .ok (fd, peer)⟩ :: early ++ h ∧
    ∃ e ∈ late, ServesOn fd e

/-! ## The order of the calls -/

/-- `accept` is called once in a turn, after the test of `quit` and while the server is running;
messages are read and answered after it. -/
def Turnwise (s : State) : (o : SysOp) → o.Res → Prop
  | .accept _, _ => awaiting s.history = true ∧ s.world.memory.isServerRunning = true
  | .recv .., _ | .send .., _ => awaiting s.history = false
  | .store m, _ => m.isServerRunning = true → s.world.memory.isServerRunning = true
  | _, _ => True

theorem Quiet.awaiting {s : State} {o : SysOp} {r : o.Res} (h : Quiet s o r) :
    Server.awaiting (s.after o r).history = Server.awaiting s.history := by
  cases o with
  | accept | loadQuit => exact h.elim
  | _ => rfl

theorem readFromClient_turnwise {s : State} (h : awaiting s.history = false) (fd : ℤ) :
    Keeps Turnwise (readFromClient fd) (fun _ _ => True) s := by
  refine ((readFromClient_quiet s fd).maintain (I := fun s => awaiting s.history = false)
    (fun _ _ _ _ hq hi => hq.awaiting.trans hi) h).mono (fun s o r _ hq => ?_) fun _ _ _ => trivial
  obtain ⟨hq, hi⟩ := hq
  cases o with
  | accept => exact hq.elim
  | store m => exact hq.2.2.2
  | recv | send => exact hi
  | _ => trivial

/-- `accept` is still to come. -/
def Awaits (s : State) : Prop :=
  awaiting s.history = true ∧ s.world.memory.isServerRunning = true

theorem Aside.turnwise {s : State} {o : SysOp} {r : o.Res} (h : Aside s o r) : Turnwise s o r := by
  cases o with
  | store m => exact fun hm => h.symm.trans hm
  | accept | recv | send | loadQuit => exact h.elim
  | _ => trivial

theorem getInstance_turnwise {s : State} (h : Awaits s) :
    Keeps Turnwise getInstance (fun _ s' => Awaits s') s := by
  apply (getInstance_building s).mono fun _ _ _ _ hg => hg.aside.turnwise
  rintro _ s' (⟨-, rfl⟩ | ⟨-, c, rfl⟩)
  · exact h
  · exact h

theorem Accepting.turnwise {s₀ s : State} {o : SysOp} {r : o.Res} (h : Accepting s₀ s o r)
    (ha : Awaits s₀) : Turnwise s o r := by
  cases o with
  | accept fd =>
    obtain ⟨rfl, rfl⟩ := h
    exact ha
  | close => trivial
  | socket => exact h.elim
  | _ => exact Aside.turnwise h

/-- However `accept` ends, it has returned. -/
theorem setupClientConnection_turnwise {s : State} (h : Awaits s) :
    Keeps Turnwise setupClientConnection (fun _ s' => awaiting s'.history = false) s := by
  apply (setupClientConnection_accepting s).mono fun _ _ _ _ hg => hg.turnwise h
  rintro _ s' (⟨e, rfl⟩ | ⟨c, peer, -, -, -, rfl⟩)
  · rfl
  · rfl

theorem runServer_turnwise {s : State} (h : Awaits s) :
    Keeps Turnwise runServer (fun _ _ => True) s := by
  refine keeps_runServer (fun _ => trivial) (fun _ => trivial) fun _ => ?_
  have hload : Awaits (s.after .load s.world.memory) := h
  apply (setupClientConnection_turnwise hload).post
  intro _ s1 h1
  exact readFromClient_turnwise (s := State.after s1 .load s1.world.memory) h1 _

theorem leave_turnwise (s : State) (code : ℤ) :
    Keeps Turnwise (leave code) (fun t _ => t = .halt code) s :=
  (leave_leaving s code).mono (fun _ _ _ _ hg => hg.aside.turnwise) fun _ _ h => h.1

/-- A turn that goes round again has found `quit` false. -/
def TurnAwaits (t : Turn ℤ) (s : State) : Prop := t = .again → awaiting s.history = true

theorem mainLoop_turnwise {s : State} (h : awaiting s.history = true) :
    Keeps Turnwise mainLoop TurnAwaits s := by
  have hleave (s' : State) (code : ℤ) : Keeps Turnwise (leave code) TurnAwaits s' :=
    (leave_turnwise s' code).post fun t _ ht ha => by simp [ht] at ha
  refine keeps_mainLoop (fun _ => trivial) (fun hrun => ?_) fun _ => hleave _ _
  have hawaits : Awaits (s.after .load s.world.memory) := ⟨h, hrun⟩
  apply (getInstance_turnwise hawaits).post
  intro _ s1 h1
  apply (runServer_turnwise h1).post
  intro rc s2 _
  refine ⟨fun _ => hleave _ _, fun _ b => ⟨trivial, fun _ => hleave _ _, fun hb _ => ?_⟩⟩
  simpa using hb

/-! ## Runs with signals -/

/-- What holds at every point of a run with timely signals. -/
structure Obedient (c : Config) : Prop where
  turnwise : Keeps Turnwise c.rest TurnAwaits c.state
  /-- Once a stop has been requested, `accept` is not called, or is about to fail. -/
  heeds : Stopped c → ¬ Awaits c.state ∨ c.mode = .interrupted

variable {c c' : Config}

theorem quitEnv_allowed {q : Bool} {w : World} {o : SysOp} {r : o.Res}
    (h : (quitEnv q).allowed w o r = true) : serverEnv.allowed w o r = true := by
  cases o with
  | loadQuit => exact (Bool.and_eq_true_iff.1 h).1
  | _ => exact h

/-- `accept` has failed, or the call comes after it. -/
theorem Turnwise.interrupted {s : State} {o : SysOp} {r : o.Res} (h : Turnwise s o r)
    (hm : Mode.interrupted.permits o r = true) : awaiting (s.after o r).history = false := by
  cases o with
  | accept => rfl
  | recv | send => exact h
  | _ => simp [Mode.permits] at hm

/-- Once `quit` is set, no call leads to `accept`. -/
theorem Turnwise.awaits {s : State} {o : SysOp} {r : o.Res} (h : Turnwise s o r)
    (hr : (quitEnv true).allowed s.world o r = true) (ha : Awaits (s.after o r)) : Awaits s := by
  obtain ⟨hw, hrun⟩ := ha
  cases o with
  | accept => simp at hw
  | loadQuit =>
    have hb : r = true := by simpa using (Bool.and_eq_true_iff.1 hr).2
    simp [hb] at hw
  | store m => exact ⟨hw, h hrun⟩
  | socket | listen => cases r <;> exact ⟨hw, hrun⟩
  | send fd buf =>
    cases r with
    | ok n => exact ⟨hw, hrun⟩
    | error e => cases e <;> exact ⟨hw, hrun⟩
  | _ => exact ⟨hw, hrun⟩

/-- The server is never set running again. -/
theorem Turnwise.stays {s : State} {o : SysOp} {r : o.Res} (h : Turnwise s o r)
    (hs : s.world.memory.isServerRunning = false) :
    (s.after o r).world.memory.isServerRunning = false := by
  cases o with
  | store m => exact Bool.eq_false_iff.2 fun hm => by simp [h hm] at hs
  | socket | listen | accept => cases r <;> exact hs
  | send fd buf =>
    cases r with
    | ok n => exact hs
    | error e => cases e <;> exact hs
  | _ => exact hs

theorem Obedient.step (h : Obedient c) (hs : TimelyStep c c') : Obedient c' := by
  obtain ⟨hs, htime⟩ := hs
  cases hs with
  | again s q =>
    exact { turnwise := mainLoop_turnwise (h.turnwise rfl)
            heeds := fun hstop => .inl ((h.heeds hstop).resolve_right (by simp)) }
  | enter s o k q hb =>
    exact { turnwise := h.turnwise
            heeds := fun hstop => .inl ((h.heeds hstop).resolve_right (by simp)) }
  | answer s o k m q r hr hm =>
    obtain ⟨hturn, hrest⟩ := h.turnwise r (quitEnv_allowed hr)
    refine { turnwise := hrest, heeds := fun hstop => .inl fun ha => ?_ }
    -- the server is still running, so it is the flag that has been set
    obtain rfl : q = true := hstop.resolve_right fun hf => by simpa using ha.2.symm.trans hf
    rcases h.heeds (.inl rfl) with hn | hmode
    · exact hn (hturn.awaits hr ha)
    · obtain rfl : m = .interrupted := hmode
      exact absurd ha.1 (Bool.eq_false_iff.1 (hturn.interrupted hm))
  | signal =>
    refine { turnwise := h.turnwise, heeds := fun _ => ?_ }
    rcases htime rfl with hq | hb
    · -- a second signal changes nothing
      exact (h.heeds (.inl hq)).imp_right fun hm => by simp [hm, Mode.interrupt]
    · cases hm : c.mode with
      | ready => exact .inl fun ha => hb ⟨hm, ha⟩
      | _ => exact .inr rfl

/-- After a request to stop, every step leaves the request and the accepted connections as they
are. -/
theorem Obedient.stopped_step (h : Obedient c) (hstop : Stopped c) (hs : SigStep c c') :
    Stopped c' ∧ accepted c'.state.history = accepted c.state.history := by
  cases hs with
  | again | enter => exact ⟨hstop, rfl⟩
  | signal => exact ⟨.inl rfl, rfl⟩
  | answer s o k m q r hr hm =>
    obtain ⟨hturn, -⟩ := h.turnwise r (quitEnv_allowed hr)
    refine ⟨hstop.imp_right hturn.stays, ?_⟩
    cases o with
    | accept fd =>
      cases r with
      | error e => rfl
      | ok x =>
        -- the call has been entered and is not interrupted, so `accept` was not to be called
        rcases h.heeds hstop with hn | hmode
        · exact absurd hturn hn
        · obtain rfl : m = .interrupted := hmode
          simp [Mode.permits] at hm
    | _ => rfl

/-- `main` sets `isServerRunning` and enters the loop. -/
theorem reaches_launched (files : ℤ → Bool) :
    Reaches files (launched files).state (launched files).rest := by
  have hload : Reaches files (State.after ⟨World.start files, []⟩ .load (World.start files).memory)
      (.call (.store { (World.start files).memory with isServerRunning := true })
        fun _ => .done .again) :=
    .single (.call _ _ _ _ (by simp [serverEnv, answers, World.start]))
  have hstore := @Env.LoopStep.call _ _ _ _ serverEnv.recorded mainLoop
    (State.after ⟨World.start files, []⟩ .load (World.start files).memory)
    (.store { (World.start files).memory with isServerRunning := true }) (fun _ => .done .again) ()
    rfl
  exact hload.tail hstore

/-- Without the flag and the mode, a run with signals is one of the plain server. -/
theorem reaches_of_sigRun {files : ℤ → Bool}
    (h : Relation.ReflTransGen SigStep (launched files) c) : Reaches files c.state c.rest := by
  induction h with
  | refl => exact reaches_launched files
  | tail _ hs ih =>
    cases hs with
    | again s q => exact ih.tail (.again s)
    | enter | signal => exact ih
    | answer s o k m q r hr hm => exact ih.tail (.call s o k r (quitEnv_allowed hr))

/-- The runs in which every signal is timely. -/
abbrev TimelyRun : Config → Config → Prop := Relation.ReflTransGen TimelyStep

theorem obedient_of_run {files : ℤ → Bool} (h : TimelyRun (launched files) c) : Obedient c := by
  induction h with
  | refl =>
    exact { turnwise := fun _ => rfl
            heeds := fun hstop => by simp [Stopped, launched] at hstop }
  | tail _ hs ih => exact ih.step hs

theorem accepted_eq_of_stopped (ho : Obedient c) (hstop : Stopped c) (h : TimelyRun c c') :
    Stopped c' ∧ accepted c'.state.history = accepted c.state.history ∧ Obedient c' := by
  induction h with
  | refl => exact ⟨hstop, rfl, ho⟩
  | tail _ hs ih =>
    obtain ⟨hstop', hacc, ho'⟩ := ih
    obtain ⟨h1, h2⟩ := ho'.stopped_step hstop' hs.1
    exact ⟨h1, h2.trans hacc, ho'.step hs⟩

/-- In a run without a signal between the test of `quit` and `accept`, no connection that is
accepted after a request to stop is read or answered. -/
theorem stop_honoured {files : ℤ → Bool} (h : TimelyRun (launched files) c) (hstop : Stopped c)
    (h' : TimelyRun c c') : ¬ LateService c.state.history c'.state.history := by
  rintro ⟨early, late, listener, fd, peer, heq, -⟩
  obtain ⟨-, hacc, -⟩ := accepted_eq_of_stopped (obedient_of_run h) hstop h'
  have hearly : accepted c.state.history <:+ accepted (early ++ c.state.history) :=
    suffix_of_suffix accepted_suffix_cons (List.suffix_append ..)
  have hlate : accepted (⟨.accept listener, .ok (fd, peer)⟩ :: (early ++ c.state.history)) <:+
      accepted c'.state.history := by
    rw [heq, List.append_assoc, List.cons_append]
    exact suffix_of_suffix accepted_suffix_cons (List.suffix_append ..)
  have hle := hlate.length_le
  have hge := hearly.length_le
  rw [hacc, accepted, List.length_cons] at hle
  omega

/-- As long as no signal comes, the server does what it does without signals. -/
theorem timelyRun_of_steps {q : Bool} {d d' : State × Sys (Turn ℤ)}
    (h : (quitEnv q).recorded.Steps d d') :
    TimelyRun ⟨d.1, d.2, .ready, q⟩ ⟨d'.1, d'.2, .ready, q⟩ := by
  induction h with
  | refl => exact .refl
  | tail _ hs ih =>
    apply ih.trans
    cases hs with
    | call s o k r hr =>
      by_cases hb : blocks o = true
      · exact .trans (.single ⟨.enter s o k q hb, .inl⟩)
          (.single ⟨.answer s o k .blocked q r hr hb, .inl⟩)
      · exact .single ⟨.answer s o k .ready q r hr (by simpa [Mode.permits] using hb), .inl⟩

theorem TimelyRun.sigRun (h : TimelyRun c c') : Relation.ReflTransGen SigStep c c' :=
  h.lift id fun _ _ hs => hs.1

/-- A client that connects after the signal. -/
def lateClient : Script := [.ok (⟨10, 0, 0, 1⟩, ascii "hello")]

/-- The server is about to call `accept`. -/
def atAccept : State × Sys (Turn ℤ) :=
  (quitEnv false).recorded.run
    ((quitEnv false).recorded.checked (lateClient.answerUntil fun _ o => o matches .accept _))
    mainLoop (launched fun _ => false).state

theorem atAccept_run :
    TimelyRun (launched fun _ => false) ⟨atAccept.1, atAccept.2, .ready, false⟩ :=
  .head ⟨.again _ _, .inl⟩ (timelyRun_of_steps (Env.run_checked_steps ..))

/-- The message of that client has just been read. -/
def lateRead : State × Sys (Turn ℤ) :=
  (quitEnv true).recorded.run ((quitEnv true).recorded.checked
    (lateClient.answerUntil fun s _ => phase s.history matches .requested ..)) atAccept.2 atAccept.1

/-- SIGINT is delivered just before `accept` is entered. -/
theorem not_stop_honoured :
    let c : Config := ⟨atAccept.1, atAccept.2, .ready, true⟩
    let c' : Config := ⟨lateRead.1, lateRead.2, .ready, true⟩
    Relation.ReflTransGen SigStep (launched fun _ => false) c ∧ Stopped c ∧
      Relation.ReflTransGen SigStep c c' ∧ LateService c.state.history c'.state.history := by
  intro c c'
  refine ⟨.tail atAccept_run.sigRun (.signal _), .inl rfl,
    (timelyRun_of_steps (Env.run_checked_steps ..)).sigRun, ?_⟩
  refine ⟨[], lateRead.1.history.take 4, 3, 4, ⟨10, 0, 0, 1⟩, ?_,
    ⟨.recv 4 1023, .ok (ascii "hello")⟩, ?_, .read _ _⟩
  · rfl
  · exact List.mem_cons_self ..

/-- A signal that finds the server blocked in `accept` ends the wait. -/
theorem stop_honoured_blocked :
    ∃ c c', Stopped c ∧ TimelyStep c c' ∧ ¬ LateService c.state.history c'.state.history := by
  obtain ⟨k, hk⟩ : ∃ k, atAccept.2 = .call (.accept 3) k := ⟨_, rfl⟩
  have hstart := atAccept_run
  rw [hk] at hstart
  have hsignal : TimelyRun (launched fun _ => false)
      ⟨atAccept.1, .call (.accept 3) k, .interrupted, true⟩ :=
    (hstart.tail ⟨.enter _ _ k false rfl, .inl⟩).tail
      ⟨.signal _, fun _ => .inr fun hb => by simpa using hb.1⟩
  have hanswer : TimelyStep ⟨atAccept.1, .call (.accept 3) k, .interrupted, true⟩
      ⟨atAccept.1.after (.accept 3) (.error .EINTR), k (.error .EINTR), .ready, true⟩ :=
    ⟨.answer _ _ k .interrupted true (.error .EINTR) rfl rfl, .inl⟩
  exact ⟨_, _, .inl rfl, hanswer, stop_honoured hsignal (.inl rfl) (.single hanswer)⟩

end KCNet.Server
