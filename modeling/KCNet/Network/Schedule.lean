import KCNet.Network.System

/-!
# Scheduled runs

A schedule says in which order the parties take their steps. With an oracle for the answers of each
side it gives a run of the system; a party that cannot take a step stays where it is.
-/

namespace KCNet.Network

open Interaction Client

variable {ι : Type} [DecidableEq ι]

instance (o : Client.SysOp) (r : o.Res) : Decidable (Connects o r) := by
  unfold Connects
  split <;> infer_instance

/-- Who takes a step. The server names the client that it accepts, reads from or writes to. -/
inductive Party (ι : Type) where
  | server (i : ι)
  | client (i : ι)

/-- The answers that the parties get, where they are possible, and the moves that they may make. -/
structure Oracle (ι : Type) where
  server : Server.State → (o : Server.SysOp) → Option o.Res
  client : Client.State → (o : Client.SysOp) → Option o.Res
  allows : Move ι → Bool

/-- The descriptor that the server listens on takes new connections. -/
def takes (c : ServerConfig) : Bool :=
  !ended c && c.1.world.descriptors c.1.world.memory.tcpServer.serverFd = some .listener

theorem listening_of_takes {c : ServerConfig} (h : takes c = true) : Listening c := by
  simp only [takes, Bool.and_eq_true, Bool.not_eq_true', decide_eq_true_eq] at h
  exact ⟨h.1, _, h.2⟩

/-- The next step of the server. -/
def System.serverAct (addr : ι → InAddr) (answers : Oracle ι) (x : System ι) (i : ι) : System ι :=
  match x.server with
  | (s, .call o k) =>
    match Server.serverEnv.recorded.checked answers.server s o with
    | some r =>
      match serve addr x.link s i o r with
      | some link =>
        if answers.allows (.server i o r) then
          { x with server := (s.after o r, k r), link := settle (s.after o r, k r) link }
        else x
      | none => x
    | none => x
  | (s, .done .again) =>
    if answers.allows .again then { x with server := (s, Server.mainLoop) } else x
  | (_, .done (.halt _)) => x

/-- The next step of a client. -/
def System.clientAct (answers : Oracle ι) (x : System ι) (i : ι) : System ι :=
  match x.client i with
  | (s, .call o k) =>
    match clientEnv.recorded.checked answers.client s o with
    | some r =>
      match ask (x.link i) s o r with
      | some l =>
        if answers.allows (.client i o r) ∧ (¬ Connects o r ∨ takes x.server = true) then
          { x with client := Function.update x.client i (s.after o r, k r),
                   link := Function.update x.link i l }
        else x
      | none => x
    | none => x
  | (_, .done _) => x

/-- Steps by moves that are allowed. -/
abbrev AllowedSteps (addr : ι → InAddr) (answers : Oracle ι) : System ι → System ι → Prop :=
  Relation.ReflTransGen fun x y => ∃ m, Step addr x m y ∧ answers.allows m = true

theorem System.serverAct_steps (addr : ι → InAddr) (answers : Oracle ι) (x : System ι) (i : ι) :
    AllowedSteps addr answers x (x.serverAct addr answers i) := by
  unfold serverAct
  split
  · next s o k hx =>
    split
    · next r hr =>
      split
      · next link hl =>
        split
        · next hm => exact .single ⟨_, .server i r hx (Option.filter_eq_some_iff.1 hr).2 hl, hm⟩
        · exact .refl
      · exact .refl
    · exact .refl
  · next s hx =>
    split
    · next hm => exact .single ⟨_, .again hx, hm⟩
    · exact .refl
  · exact .refl

theorem System.clientAct_steps (addr : ι → InAddr) (answers : Oracle ι) (x : System ι) (i : ι) :
    AllowedSteps addr answers x (x.clientAct answers i) := by
  unfold clientAct
  split
  · next s o k hx =>
    split
    · next r hr =>
      split
      · next l hl =>
        split
        · next hm =>
          exact .single ⟨_, .client i r hx (Option.filter_eq_some_iff.1 hr).2
            (fun h => listening_of_takes (hm.2.resolve_left fun hn => hn h)) hl, hm.1⟩
        · exact .refl
      · exact .refl
    · exact .refl
  · exact .refl

/-- The run of a schedule. -/
def System.play (addr : ι → InAddr) (answers : Oracle ι) : List (Party ι) → System ι → System ι
  | [], x => x
  | .server i :: rest, x => play addr answers rest (x.serverAct addr answers i)
  | .client i :: rest, x => play addr answers rest (x.clientAct answers i)

theorem System.play_steps (addr : ι → InAddr) (answers : Oracle ι) (schedule : List (Party ι))
    (x : System ι) : AllowedSteps addr answers x (x.play addr answers schedule) := by
  induction schedule generalizing x with
  | nil => exact .refl
  | cons party rest ih =>
    cases party with
    | server i => exact (x.serverAct_steps addr answers i).trans (ih _)
    | client i => exact (x.clientAct_steps addr answers i).trans (ih _)

theorem AllowedSteps.steps {addr : ι → InAddr} {answers : Oracle ι} {x y : System ι}
    (h : AllowedSteps addr answers x y) : Steps addr x y :=
  h.lift id fun _ _ ⟨m, hs, _⟩ => ⟨m, hs⟩

/-! ## One client -/

/-- A server and one client that has not called it yet. -/
def oneClient (command : ServerCommand) : System Unit :=
  .start (fun _ => false) (fun _ => .start) fun _ => command

/-- The server gets ready, the client runs until it waits, the server takes up to `n` steps with its
connection, and the client goes on. -/
def inTurns (n : ℕ) : List (Party Unit) :=
  List.replicate 20 (.server ()) ++ List.replicate 44 (.client ()) ++
    List.replicate n (.server ()) ++ List.replicate 3 (.client ())

/-- The run in which the server gets `request` from the address `a`, and the client gets `reply`. -/
def exchange (a : InAddr) (command : ServerCommand) (request reply : Bytes) (n : ℕ) :
    System Unit :=
  (oneClient command).play (fun _ => a)
    ⟨Server.Script.answer [.ok (a, request)], obliging reply, fun _ => true⟩ (inTurns n)

theorem exchange_reaches (a : InAddr) (command : ServerCommand) (request reply : Bytes) (n : ℕ) :
    Reaches (fun _ => a) (fun _ => false) (fun _ => .start) (fun _ => command)
      (exchange a command request reply n) :=
  ((oneClient command).play_steps _ _ _).steps

end KCNet.Network
