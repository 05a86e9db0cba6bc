import KCNet.Server.Reading
import KCNet.Server.Script

/-!
# What a payload means to the server

`ReadFromClient` echoes its payload as a block of bytes, but compares and records it as a C string.
The two views agree exactly when the payload contains no NUL byte.

## Main definitions

- `console`, `logged` — the lines on the console and the entries of the log file
- `Interpreted` — the server has acted on the payload itself
-/

namespace KCNet.Server

open Interaction TcpServer

def printedBy : Happening → Option Bytes
  | ⟨.stdout t, _⟩ => some t
  | _ => none

def loggedBy : Happening → Option Bytes
  | ⟨.logFile _ t, _⟩ => some t
  | _ => none

/-- The lines written to the console, the latest first. -/
def console (h : List Happening) : List Bytes := h.filterMap printedBy

/-- The entries of the log file, the latest first. -/
def logged (h : List Happening) : List Bytes := h.filterMap loggedBy

/-- The line with which the server handles a reload command from `a`. -/
def reloadLine (a : InAddr) : Bytes :=
  ascii "User with IP address of " ++ inetNtop a ++
    ascii " has sent the reload command to the server.\n"

/-- The line with which the server handles a shutdown command from `a`. -/
def shutdownLine (a : InAddr) : Bytes :=
  if a = adminAddr then
    consoleLine [ascii "Shutdown command received, shutting down TCP Server."]
  else
    consoleLine [ascii "Client attempted to send shutdown command. Permission Denied from IP: ",
      inetNtop a]

/-- The bytes of `p` have been sent back, as far as the connection has taken them. -/
def SentBack (fd : ℤ) (p : Bytes) (h : List Happening) : Prop :=
  sentOn fd h <+: p ∧ (sentOn fd h = p ∨ sendError fd h ≠ none)

/-- The events `es` of a call, after the history `h`, treat the payload `p` from `a` as what it is:
it is a command if and only if it is the text of the command, any other is recorded as it stands,
and it is echoed. -/
structure Interpreted (fd : ℤ) (a : InAddr) (p : Bytes) (es h : List Happening) : Prop where
  reload : reloadLine a ∈ console es ↔ p = ascii "RELOAD"
  shutdown : shutdownLine a ∈ console es ↔ p = ascii "SHUTDOWN"
  recorded : p ≠ ascii "RELOAD" → p ≠ ascii "SHUTDOWN" → logged es = [ascii "Received: " ++ p]
  echoed : SentBack fd p (es ++ h)

/-! ## The lines of a payload -/

/-- What the server prints for a payload from `a`, the latest first. -/
def consoleOf (a : InAddr) (p : Bytes) : List Bytes :=
  (if cString p = ascii "SHUTDOWN" then [shutdownLine a]
    else [consoleLine [ascii "Received: ", cString p]]) ++
  if cString p = ascii "RELOAD" then [reloadLine a] else []

/-- What it records. -/
def loggedOf (p : Bytes) : List Bytes :=
  if cString p = ascii "SHUTDOWN" then [] else [ascii "Received: " ++ cString p]

variable {a : InAddr} {p : Bytes}

theorem reloadLine_ne_consoleLine (a : InAddr) (parts : List Bytes) :
    reloadLine a ≠ consoleLine parts := by
  intro h
  have hhead := congrArg List.head? h
  have hreload : (reloadLine a).head? = some 85 := rfl
  have hconsole : (consoleLine parts).head? = some 91 := rfl
  rw [hreload, hconsole] at hhead
  cases hhead

theorem shutdownLine_ne_received (a : InAddr) (t : Bytes) :
    shutdownLine a ≠ consoleLine [ascii "Received: ", t] := by
  intro h
  -- the first characters after the name of the server differ
  have hnext := congrArg (fun line : Bytes => line.getD 19 0) h
  have hreceived : (consoleLine [ascii "Received: ", t]).getD 19 0 = 82 := rfl
  unfold shutdownLine at hnext
  split at hnext
  · have hshutdown : (consoleLine
        [ascii "Shutdown command received, shutting down TCP Server."]).getD 19 0 = 83 := rfl
    simp only [hreceived, hshutdown] at hnext
    cases hnext
  · have hdenied : (consoleLine [ascii
        "Client attempted to send shutdown command. Permission Denied from IP: ",
        inetNtop a]).getD 19 0 = 67 := rfl
    simp only [hreceived, hdenied] at hnext
    cases hnext

theorem reloadLine_mem_iff : reloadLine a ∈ consoleOf a p ↔ cString p = ascii "RELOAD" := by
  have hshutdown : reloadLine a ≠ shutdownLine a := by
    unfold shutdownLine
    split
    · exact reloadLine_ne_consoleLine _ _
    · exact reloadLine_ne_consoleLine _ _
  unfold consoleOf
  constructor
  · intro h
    by_contra hne
    rw [if_neg hne, List.append_nil] at h
    split at h
    · exact hshutdown (List.mem_singleton.1 h)
    · exact reloadLine_ne_consoleLine _ _ (List.mem_singleton.1 h)
  · intro h
    rw [if_pos h]
    exact List.mem_append_right _ (List.mem_singleton.2 rfl)

theorem shutdownLine_mem_iff : shutdownLine a ∈ consoleOf a p ↔ cString p = ascii "SHUTDOWN" := by
  have hreload : shutdownLine a ≠ reloadLine a := by
    unfold shutdownLine
    split
    · exact (reloadLine_ne_consoleLine _ _).symm
    · exact (reloadLine_ne_consoleLine _ _).symm
  unfold consoleOf
  constructor
  · intro h
    by_contra hne
    rw [if_neg hne] at h
    rcases List.mem_append.1 h with h | h
    · exact shutdownLine_ne_received _ _ (List.mem_singleton.1 h)
    · split at h
      · exact hreload (List.mem_singleton.1 h)
      · cases h
  · intro h
    rw [if_pos h]
    exact List.mem_append_left _ (List.mem_singleton.2 rfl)

/-! ## One call -/

variable {s s' : State} {fd : ℤ} {es es' : List Happening} {cs cs' ls ls' : List Bytes}

/-- The operations on memory, the console and the log file. -/
def Internal : SysOp → Prop
  | .load | .store _ | .stdout _ | .logFile .. => True
  | _ => False

/-- The events `es` print `cs`, record `ls`, and do not touch the network. -/
structure Adds (cs ls : List Bytes) (es : List Happening) : Prop where
  internal : ∀ e ∈ es, Internal e.op
  console : console es = cs
  logged : logged es = ls

theorem Adds.append (h : Adds cs ls es) (h' : Adds cs' ls' es') :
    Adds (cs' ++ cs) (ls' ++ ls) (es' ++ es) where
  internal := fun e he => (List.mem_append.1 he).elim (h'.internal e) (h.internal e)
  console := by rw [KCNet.Server.console, List.filterMap_append, ← h.console, ← h'.console]; rfl
  logged := by rw [KCNet.Server.logged, List.filterMap_append, ← h.logged, ← h'.logged]; rfl

/-- A reading of the history that overlooks internal operations overlooks them all. -/
theorem Adds.overlook {α : Type} {f : List Happening → α} (h : Adds cs ls es)
    (hf : ∀ o r h, Internal o → f (⟨o, r⟩ :: h) = f h) (h₀ : List Happening) :
    f (es ++ h₀) = f h₀ := by
  have hall := h.internal
  clear h
  induction es with
  | nil => rfl
  | cons e es ih =>
    rw [List.cons_append, hf e.op e.res _ (hall e (List.mem_cons_self ..))]
    exact ih fun e' he => hall e' (List.mem_cons_of_mem _ he)

theorem Adds.sentOn_append (h : Adds cs ls es) (fd : ℤ) (h₀ : List Happening) :
    sentOn fd (es ++ h₀) = sentOn fd h₀ :=
  h.overlook (fun o _ _ ho => by cases o <;> first | rfl | exact ho.elim) h₀

/-- `s'` comes after `s` and some internal operations. -/
def Grown (cs ls : List Bytes) (s s' : State) : Prop :=
  ∃ es, s'.history = es ++ s.history ∧ Adds cs ls es

theorem Grown.trans {s'' : State} (h : Grown cs ls s s') (h' : Grown cs' ls' s' s'') :
    Grown (cs' ++ cs) (ls' ++ ls) s s'' := by
  obtain ⟨es, hes, ha⟩ := h
  obtain ⟨es', hes', ha'⟩ := h'
  exact ⟨es' ++ es, by rw [hes', hes, List.append_assoc], ha.append ha'⟩

/-- What is not said does not count. -/
theorem Grown.after_silence {s'' : State} (h : Grown cs ls s' s'')
    (hes : s'.history = es ++ s.history) (ha : Adds [] [] es) : Grown cs ls s s'' := by
  have htrans := Grown.trans ⟨es, hes, ha⟩ h
  rwa [List.append_nil, List.append_nil] at htrans

section Rules

variable {G : State → (o : SysOp) → o.Res → Prop} (hG : ∀ s o r, Internal o → G s o r)
include hG

theorem reloadCommand_grown {buffer : Bytes} (hbuf : cString buffer = cString p) :
    Keeps G (reloadCommand buffer (inetNtop a)) (fun _ s' =>
      Grown (if cString p = ascii "RELOAD" then [reloadLine a] else []) [] s s') s := by
  have hip : inetNtop a ≠ [] := by simp [inetNtop]
  simp only [reloadCommand, hbuf, hip, if_false, Program.ensures_ite, keeps_stdout,
    Program.ensures_pure]
  refine ⟨fun hcmd _ => ⟨hG _ _ _ trivial, ?_⟩, fun hcmd => ?_⟩
  · rw [if_pos hcmd]
    exact ⟨[_], rfl, by simp [Internal], rfl, rfl⟩
  · rw [if_neg hcmd]
    exact ⟨[], rfl, by simp, rfl, rfl⟩

theorem shutdownCommand_grown {buffer : Bytes} (hbuf : cString buffer = cString p) :
    Keeps G (shutdownCommand buffer (inetNtop a)) (fun _ s' =>
      Grown (if cString p = ascii "SHUTDOWN" then [shutdownLine a]
        else [consoleLine [ascii "Received: ", cString p]]) (loggedOf p) s s') s := by
  simp only [shutdownCommand, hbuf, Program.ensures_ite, Program.ensures_bind, loggedOf,
    shutdownLine, ← inetNtop_eq_admin_iff]
  refine ⟨fun hcmd => ⟨fun hadmin => ?_, fun hadmin => ?_⟩, fun hcmd => ?_⟩
  · refine (keeps_logOutput _ _).2 fun _ => ⟨hG _ _ _ trivial, ?_⟩
    refine (keeps_setServerRunning _ _).2 fun _ => ⟨hG _ _ _ trivial, hG _ _ _ trivial, ?_⟩
    rw [if_pos hcmd, if_pos hcmd, if_pos hadmin]
    exact ⟨[_, _, _], rfl, by simp [Internal], rfl, rfl⟩
  · refine (keeps_logOutput _ _).2 fun _ => ⟨hG _ _ _ trivial, ?_⟩
    rw [if_pos hcmd, if_pos hcmd, if_neg hadmin]
    exact ⟨[_], rfl, by simp [Internal], rfl, rfl⟩
  · refine (keeps_logOutput _ _).2 fun _ => ⟨hG _ _ _ trivial, ?_⟩
    refine (keeps_log _ _ _).2 fun _ => ⟨hG _ _ _ trivial, ?_⟩
    rw [if_neg hcmd, if_neg hcmd]
    exact ⟨[_, _], rfl, by simp [Internal], rfl, rfl⟩

/-- The message of an unbanned peer is served up to its echo. -/
theorem keeps_handleMessage {Q : State → Prop} (hb : ¬ Banned a)
    (haddr : s.world.memory.tcpServer.clientAddress = a.toSockAddr)
    (hflag : s.world.memory.tcpServer.connectionPacket.isUserBanned = false)
    (hecho : ∀ s', Grown (consoleOf a p) (loggedOf p) s s' →
      Keeps G (sendNonBlocking fd (zeroFilled 1024 p) p.length) (fun _ => Q) s') :
    Keeps G (handleMessage fd p) (fun _ => Q) s := by
  refine keeps_handleMessage_heard hb haddr hflag (fun _ => hG _ _ _ trivial)
    (fun _ _ _ => hG _ _ _ trivial) ?_
  apply (reloadCommand_grown hG (cString_zeroFilled 1024 p)).post
  intro _ s1 h1
  apply (shutdownCommand_grown hG (cString_zeroFilled 1024 p)).post
  intro _ s2 h2
  apply hecho
  have hgrown := (h1.trans h2).after_silence (rfl : _ = [_, _, _, _, _] ++ s.history)
    ⟨by simp [Internal], rfl, rfl⟩
  rwa [List.append_nil] at hgrown

end Rules

/-- Between `s` and `s'` the server has said what it says to the payload `p` from `a`. -/
def Said (s : State) (a : InAddr) (p : Bytes) (s' : State) : Prop :=
  console s'.history = consoleOf a p ++ console s.history ∧
    logged s'.history = loggedOf p ++ logged s.history

/-- The guarantee of each operation after the arrival of `p`, which is echoed when all is said. -/
def Speaking (s : State) (fd : ℤ) (a : InAddr) (p : Bytes) (s₁ : State) :
    (o : SysOp) → o.Res → Prop
  | .send fd' buf, _ => fd' = fd ∧ sentOn fd s₁.history ++ buf = p ∧ Said s a p s₁
  | .accept _, _ => False
  | _, _ => True

/-- An unbanned peer gets its payload back when everything has been said. -/
theorem handleMessage_speaking (hb : ¬ Banned a)
    (haddr : s.world.memory.tcpServer.clientAddress = a.toSockAddr)
    (hflag : s.world.memory.tcpServer.connectionPacket.isUserBanned = false)
    (hq : sentOn fd s.history = []) :
    Keeps (Speaking s fd a p) (handleMessage fd p)
      (fun _ s' => Said s a p s' ∧ SentBack fd p s'.history) s := by
  have hG : ∀ s₁ o r, Internal o → Speaking s fd a p s₁ o r := by
    intro s₁ o r ho
    cases o <;> trivial
  refine keeps_handleMessage hG hb haddr hflag fun s2 hgrown => ?_
  obtain ⟨es, hes, ha⟩ := hgrown
  have hsaid : Said s a p s2 := by
    constructor
    · rw [hes, console, List.filterMap_append, ← ha.console]
      rfl
    · rw [hes, logged, List.filterMap_append, ← ha.logged]
      rfl
  have hquiet : sentOn fd s2.history = [] := by rw [hes, ha.sentOn_append, hq]
  have happ {k : ℕ} {es : List Happening} (he : SendEvents fd p k es) :
      Said s a p (State.append s2 es) := by
    have hc : console (es ++ s2.history) = console s2.history :=
      he.overlook (fun _ _ _ _ => rfl) fun _ _ => rfl
    have hl : logged (es ++ s2.history) = logged s2.history :=
      he.overlook (fun _ _ _ _ => rfl) fun _ _ => rfl
    exact ⟨hc.trans hsaid.1, hl.trans hsaid.2⟩
  apply keeps_sendNonBlocking (by simp [zeroFilled])
  all_goals rw [take_zeroFilled]
  · intro k es he _ r
    refine ⟨rfl, ?_, happ he⟩
    rw [State.append_history, he.sentOn_append, hquiet, List.nil_append, List.take_append_drop]
  · intro k es he
    trivial
  · intro k es r he hr
    exact ⟨happ he, hr.sentOn_or_sendError he hquiet⟩

/-- At the end of a call everything has been said, also if the echo has killed the process. -/
theorem said_of_over {files : ℤ → Bool} {q : Sys Unit} (hread : Reading files s fd)
    (hpeer : s.world.descriptors fd = some (.connection a)) (hb : ¬ Banned a)
    (hseen : ¬ bannedSeen s.history) (hp : p ≠ [])
    (hrun : serverEnv.recorded.Steps (s, readFromClient fd) (s', q)) (hm : Delivered fd p s s')
    (hover : q = .done () ∨ s'.world.alive = false) : Said s a p s' ∧ SentBack fd p s'.history := by
  obtain ⟨halive, hconn, -, hrest⟩ := steps_of_delivered hrun hp hm
  have hc := hread.connected halive hconn hpeer
  have hflag : s.world.memory.tcpServer.connectionPacket.isUserBanned = false := by
    rw [← Bool.not_eq_true, (hread.atRecv halive).flag]
    exact hseen
  set s₁ := s.after (.recv fd (1024 - 1)) (.ok p) with hs₁
  have hkeeps : Keeps (Speaking s₁ fd a p) (handleMessage fd p)
      (fun _ s' => Said s₁ a p s' ∧ SentBack fd p s'.history) s₁ :=
    handleMessage_speaking hb hc.address hflag hc.quiet
  -- the process dies in the echo only
  have hinv : sentOn fd s'.history <+: p ∧
      (s'.world.alive = true ∨ Said s₁ a p s' ∧ sendError fd s'.history ≠ none) := by
    refine hkeeps.invariant (I := fun s' => sentOn fd s'.history <+: p ∧
      (s'.world.alive = true ∨ Said s₁ a p s' ∧ sendError fd s'.history ≠ none)) ?_
      ⟨by simp [hs₁, hc.quiet], .inl halive⟩ hrest
    intro w o r ha hg hi
    simp only [serverEnv, Env.recorded_allowed, Bool.and_eq_true] at ha
    cases o with
    | send fd' buf =>
      obtain ⟨rfl, hecho, hsaid⟩ := hg
      cases r with
      | error e => exact ⟨hi.1, .inr ⟨hsaid, by simp⟩⟩
      | ok n =>
        refine ⟨?_, .inl ha.1⟩
        simp only [Env.recorded_next, sentOn, if_true]
        rw [← hecho]
        exact (List.prefix_append_right_inj _).2 (List.take_prefix ..)
    | accept fd' => exact hg.elim
    | socket => cases r <;> exact ⟨hi.1, .inl ha.1⟩
    | listen fd' n => cases r <;> exact ⟨hi.1, .inl ha.1⟩
    | _ => exact ⟨hi.1, .inl ha.1⟩
  rcases hover with rfl | hdead
  · exact hkeeps.steps hrest
  · obtain ⟨hsaid, herr⟩ := hinv.2.resolve_left (by simp [hdead])
    exact ⟨hsaid, hinv.1, .inr herr⟩

theorem cString_eq_self_iff : cString p = p ↔ (0 : UInt8) ∉ p := by
  refine ⟨fun h hmem => ?_, cString_eq_self⟩
  rw [← h] at hmem
  exact absurd (List.mem_takeWhile_imp hmem) (by decide)

/-- The server interprets the payload that it has received, all of it, if and only if there is no
NUL byte in the payload. -/
theorem interpreted_iff {files : ℤ → Bool} {q : Sys Unit} {es : List Happening}
    (hread : Reading files s fd) (hpeer : s.world.descriptors fd = some (.connection a))
    (hb : ¬ Banned a) (hseen : ¬ bannedSeen s.history) (hp : p ≠ [])
    (hrun : serverEnv.recorded.Steps (s, readFromClient fd) (s', q)) (hm : Delivered fd p s s')
    (hover : q = .done () ∨ s'.world.alive = false) (hes : s'.history = es ++ s.history) :
    Interpreted fd a p es s.history ↔ (0 : UInt8) ∉ p := by
  obtain ⟨⟨hconsole, hlogged⟩, hecho⟩ := said_of_over hread hpeer hb hseen hp hrun hm hover
  rw [hes] at hecho
  rw [hes, console, List.filterMap_append] at hconsole
  rw [hes, logged, List.filterMap_append] at hlogged
  have hconsole : console es = consoleOf a p := List.append_cancel_right hconsole
  have hlogged : logged es = loggedOf p := List.append_cancel_right hlogged
  rw [← cString_eq_self_iff]
  constructor
  · intro h
    have hreload := h.reload
    have hshutdown := h.shutdown
    have hrecorded := h.recorded
    rw [hconsole, reloadLine_mem_iff] at hreload
    rw [hconsole, shutdownLine_mem_iff] at hshutdown
    rw [hlogged, loggedOf] at hrecorded
    by_cases hr : p = ascii "RELOAD"
    · rw [hreload.2 hr, hr]
    by_cases hs : p = ascii "SHUTDOWN"
    · rw [hshutdown.2 hs, hs]
    -- any other payload is recorded up to its first NUL byte
    · have htext := hrecorded hr hs
      rw [if_neg fun hc => hs (hshutdown.1 hc)] at htext
      exact List.append_cancel_left (List.cons.inj htext).1
  · intro hnul
    constructor
    · rw [hconsole, reloadLine_mem_iff, hnul]
    · rw [hconsole, shutdownLine_mem_iff, hnul]
    · intro _ hs
      rw [hlogged, loggedOf, hnul, if_neg hs]
    · exact hecho

/-- A peer that says `RELOAD` and more, behind a NUL byte. -/
def hiddenText : Script := [.ok (⟨10, 0, 0, 1⟩, ascii "RELOAD" ++ [0] ++ ascii "x")]

/-- A peer that just says `RELOAD`. -/
def plainReload : Script := [.ok (⟨10, 0, 0, 1⟩, ascii "RELOAD")]

/-- The server about to read from the only peer of a script. -/
def Script.atRecv (cs : Script) : State := (cs.play fun _ o => o matches .recv ..).1

/-- The call of `ReadFromClient` from there. -/
def Script.served (cs : Script) : State × Sys Unit := cs.finish (readFromClient 4) cs.atRecv

theorem hiddenText_reading : Reading (fun _ => false) hiddenText.atRecv 4 :=
  ⟨_, Script.play_reaches hiddenText _⟩

/-- A payload of eight bytes is taken for the reload command. -/
theorem not_interpreted_hiddenText :
    Reading (fun _ => false) hiddenText.atRecv 4 ∧
      hiddenText.atRecv.world.descriptors 4 = some (.connection ⟨10, 0, 0, 1⟩) ∧
      ¬ Banned ⟨10, 0, 0, 1⟩ ∧ ¬ bannedSeen hiddenText.atRecv.history ∧
      serverEnv.recorded.Steps (hiddenText.atRecv, readFromClient 4) hiddenText.served ∧
      Delivered 4 (ascii "RELOAD" ++ [0] ++ ascii "x") hiddenText.atRecv hiddenText.served.1 ∧
      hiddenText.served.2 = .done () ∧
      ∃ es, hiddenText.served.1.history = es ++ hiddenText.atRecv.history ∧
        ¬ Interpreted 4 ⟨10, 0, 0, 1⟩ (ascii "RELOAD" ++ [0] ++ ascii "x") es
          hiddenText.atRecv.history := by
  have hsteps : serverEnv.recorded.Steps (hiddenText.atRecv, readFromClient 4) hiddenText.served :=
    Script.finish_steps ..
  have hm : Delivered 4 (ascii "RELOAD" ++ [0] ++ ascii "x") hiddenText.atRecv
      hiddenText.served.1 := Env.run_checked_answer serverEnv rfl _
  refine ⟨hiddenText_reading, rfl, by decide, ?_, hsteps, hm, rfl, ?_⟩
  · rw [← (hiddenText_reading.atRecv rfl).flag]
    decide
  · obtain ⟨es, hes⟩ := hsteps.suffix
    refine ⟨es, hes.symm, fun h => ?_⟩
    -- the line is new
    have hline : reloadLine ⟨10, 0, 0, 1⟩ ∈ console hiddenText.served.1.history ∧
        reloadLine ⟨10, 0, 0, 1⟩ ∉ console hiddenText.atRecv.history := by decide +kernel
    rw [← hes, console, List.filterMap_append] at hline
    have hmem := (List.mem_append.1 hline.1).resolve_right hline.2
    exact absurd (h.reload.1 hmem) (by decide)

/-- The bare command is understood. -/
theorem interpreted_iff_plainReload :
    ∃ es, Interpreted 4 ⟨10, 0, 0, 1⟩ (ascii "RELOAD") es plainReload.atRecv.history := by
  have hread : Reading (fun _ => false) plainReload.atRecv 4 :=
    ⟨_, Script.play_reaches plainReload _⟩
  have hseen : ¬ bannedSeen plainReload.atRecv.history := by
    rw [← (hread.atRecv rfl).flag]
    decide
  have hsteps : serverEnv.recorded.Steps (plainReload.atRecv, readFromClient 4)
      plainReload.served := Script.finish_steps ..
  have hm : Delivered 4 (ascii "RELOAD") plainReload.atRecv plainReload.served.1 :=
    Env.run_checked_answer serverEnv rfl _
  obtain ⟨es, hes⟩ := hsteps.suffix
  exact ⟨es, (interpreted_iff hread rfl (by decide) hseen (by decide) hsteps hm (.inl rfl)
    hes.symm).2 (by decide)⟩

end KCNet.Server
