import KCNet.Server.Discipline
import KCNet.Server.Service

/-!
# The lifetime of a server

While it is in its loop, the server closes no connection, so the descriptors that the process may
have limit how many requests it handles in its life. The first `accept` that fails is the last that
matters: the server goes on turning round without ever hearing of a client again. What is left is
how it ends.

## Main definitions

- `Entry` — what holds whenever a descriptor is handed out
- `Stocked` — all that has been handed out is open until the first `accept` has failed
- `Deaf` — nobody is being served
- `Ended` — how the server has left `main`
-/

namespace KCNet.Server

open Interaction TcpServer

/-- Some test of `quit` has found it set. -/
@[simp] def quitSeen : List Happening → Prop
  | [] => False
  | ⟨.loadQuit, b⟩ :: h => b = true ∨ quitSeen h
  | _ :: h => quitSeen h

/-- A new descriptor is handed out before anything has been closed, and the listener comes before
the connections. -/
def Entry (s : State) : (o : SysOp) → o.Res → Prop
  | .socket, _ => closed s.history = []
  | .accept _, .ok _ => acceptFailures s.history = 0 ∧ closed s.history = [] ∧
      (accepted s.history).length < (opened s.history).length
  | _, _ => True

variable {files : ℤ → Bool} {s s' : State} {p p' : Sys (Turn ℤ)} {code : ℤ}

/-! ## One pass over a turn -/

theorem Quiet.entry {o : SysOp} {r : o.Res} (h : Quiet s o r) : Entry s o r := by
  cases o with
  | socket => exact h.elim
  | accept fd => exact h.elim
  | _ => trivial

theorem Aside.entry {o : SysOp} {r : o.Res} (h : Aside s o r) (hs : o ≠ .socket) : Entry s o r := by
  cases o with
  | socket => exact absurd rfl hs
  | accept => exact h.elim
  | _ => trivial

/-- The constructor opens its socket before anything has been closed. -/
theorem Building.entry {s₀ : State} {o : SysOp} {r : o.Res} (h : Building s₀ s o r)
    (hb : LoopBooks s₀) : Entry s o r := by
  cases o with
  | socket =>
    obtain ⟨hc, rfl⟩ := h
    have hu : Unopened s₀ := (hb.resolve_left fun ht => by simp [hc] at ht).2.1
    exact hu.closed
  | close => trivial
  | _ => exact Aside.entry h (by simp)

/-- The listener of a constructed server is not descriptor 0 once there has been an `accept`, and
the constructor opens nothing but the listener. -/
theorem getInstance_entry (h : LoopBooks s)
    (hfd : s.world.memory.constructed = true → s.world.memory.tcpServer.serverFd ≠ 0) :
    Keeps Entry getInstance (fun _ s' => s'.world.memory.tcpServer.serverFd = 0 →
      accepted s'.history = [] ∧ acceptCalls s'.history = 0) s := by
  apply (getInstance_building s).mono fun _ _ _ _ hg => hg.entry h
  rintro _ s' (⟨hc, rfl⟩ | ⟨hc, c, rfl⟩) h0
  · exact absurd h0 (hfd hc)
  · have hu : Unopened s := (h.resolve_left fun ht => by simp [hc] at ht).2.1
    exact ⟨hu.accepted, hu.calls⟩

/-- `accept` yields a descriptor only while the listener is open, so none has failed. -/
theorem Books.not_failed (h : Books s)
    (hl : s.world.descriptors s.world.memory.tcpServer.serverFd = some .listener) :
    acceptFailures s.history = 0 := by
  by_contra hf
  have hlistener := h.listener
  simp [hl, hf] at hlistener

theorem Accepting.entry {s₀ : State} {o : SysOp} {r : o.Res} (h : Accepting s₀ s o r)
    (hr : serverEnv.recorded.allowed s o r) (hb : Books s₀) : Entry s o r := by
  cases o with
  | accept fd =>
    cases r with
    | error e => trivial
    | ok x =>
      obtain ⟨rfl, rfl⟩ := h
      simp only [serverEnv, answers, Env.recorded_allowed, Bool.and_eq_true,
        decide_eq_true_eq] at hr
      have hf := hb.not_failed hr.2.1
      exact ⟨hf, hb.closed.trans (by rw [hf]; rfl), by simp [hb.opened]⟩
  | socket => exact h.elim
  | close => trivial
  | _ => exact Aside.entry h (by simp)

theorem setupClientConnection_entry (h : Books s) : Keeps Entry setupClientConnection (fun _ s' =>
    s'.world.memory.tcpServer.serverFd = s.world.memory.tcpServer.serverFd) s := by
  apply (setupClientConnection_accepting s).mono fun _ _ _ hr hg => hg.entry hr h
  rintro _ s' (⟨e, rfl⟩ | ⟨c, peer, -, -, -, rfl⟩)
  · rfl
  · rfl

/-- `RunServer` fails exactly if the listener is descriptor 0. -/
theorem runServer_entry (h : Books s) : Keeps Entry runServer (fun rc s' =>
    s'.world.memory.tcpServer.serverFd = s.world.memory.tcpServer.serverFd ∧
      (rc = exitSuccess ↔ s'.world.memory.tcpServer.serverFd ≠ 0) ∧
      (rc ≠ exitSuccess → accepted s'.history = accepted s.history ∧
        acceptCalls s'.history = acceptCalls s.history)) s := by
  have hload : Books (s.after .load s.world.memory) := h.congr { SameBooks.refl s with }
  refine keeps_runServer (fun _ => trivial) (fun h0 => ⟨rfl, ?_, fun _ => ⟨rfl, rfl⟩⟩) fun h0 => ?_
  · exact iff_of_false (by decide) fun hn => hn h0
  · apply (setupClientConnection_entry hload).post
    intro _ s1 h1
    refine (readFromClient_quiet _ _).mono (fun _ _ _ _ hq => hq.entry) fun _ s2 h2 => ?_
    have hfd : s2.world.memory.tcpServer.serverFd = s.world.memory.tcpServer.serverFd :=
      h2.serverFd.trans h1
    exact ⟨hfd, iff_of_true rfl (hfd ▸ h0), fun hrc => absurd rfl hrc⟩

/-- The server has left `main`: with failure if its listener is descriptor 0, which it takes for no
descriptor, and otherwise because of SIGINT or the shutdown command. -/
def Ended (code : ℤ) (s : State) : Prop :=
  code = exitFailure ∧ opened s.history = [0] ∧ acceptCalls s.history = 0 ∨
    code = exitSuccess ∧ opened s.history ≠ [0] ∧
      (quitSeen s.history ∨ s.world.memory.isServerRunning = false)

theorem Leaving.entry {s₀ : State} {o : SysOp} {r : o.Res} (h : Leaving s₀ s o r) :
    Entry s o r := by
  cases o with
  | close => trivial
  | socket => exact h.elim
  | _ => exact Aside.entry h (by simp)

theorem leave_ended (hended : Ended code s) (hc : s.world.memory.constructed = true) :
    Keeps Entry (leave code) (fun t s' => t = .halt code ∧ Ended code s') s := by
  apply (leave_leaving s code).mono fun _ _ _ _ hg => hg.entry
  rintro t s' ⟨ht, rfl⟩
  rw [State.left, if_pos hc]
  exact ⟨ht, hended⟩

/-- What holds when a turn of the loop is over. -/
def TurnEnded (t : Turn ℤ) (s : State) : Prop :=
  (t = .again → LoopBooks s ∧
    (s.world.memory.constructed = true → s.world.memory.tcpServer.serverFd ≠ 0)) ∧
  ∀ code, t = .halt code → Ended code s

theorem Books.opened_ne (h : Books s) (hfd : s.world.memory.tcpServer.serverFd ≠ 0) :
    Server.opened s.history ≠ [0] := by
  rw [h.opened]
  intro he
  have hmem : s.world.memory.tcpServer.serverFd ∈ ([0] : List ℤ) := he ▸ by simp
  exact hfd (List.mem_singleton.1 hmem)

theorem mainLoop_entry (h : LoopBooks s)
    (hfd : s.world.memory.constructed = true → s.world.memory.tcpServer.serverFd ≠ 0) :
    Keeps Entry mainLoop TurnEnded s := by
  have hleave {s' : State} {code : ℤ} (hended : Ended code s')
      (hc : s'.world.memory.constructed = true) : Keeps Entry (leave code) TurnEnded s' := by
    apply (leave_ended hended hc).post
    rintro t s'' ⟨rfl, h''⟩
    refine ⟨(by cases ·), fun code' ht => ?_⟩
    cases ht
    exact h''
  refine keeps_mainLoop (fun _ => trivial) (fun hrun => ?_) fun hstop => ?_
  · have hload : LoopBooks (s.after .load s.world.memory) :=
      h.imp (fun hb => ⟨hb.1, hb.2.1.congr { SameBooks.refl s with }, hb.2.2⟩)
        fun hu => ⟨hu.1, { hu.2.1 with }, hu.2.2⟩
    have hget := (getInstance_ledger (hload.imp (fun hb => ⟨hb.1, hb.2.1⟩)
      fun hu => ⟨hu.1, hu.2.1⟩)).and (getInstance_entry hload hfd)
    apply hget.mono fun _ _ _ _ hg => hg.2
    rintro _ s1 ⟨⟨hc1, hb1⟩, hzero⟩
    apply ((runServer_ledger hc1 hb1).and (runServer_entry hb1)).mono fun _ _ _ _ hg => hg.2
    rintro rc s2 ⟨⟨hc2, hb2, hn2⟩, hfd2, hrc2, hacc2⟩
    refine ⟨fun hrc => hleave (.inl ⟨rfl, ?_⟩) hc2,
      fun hrc b => ⟨trivial, fun hb => ?_, fun _ => ?_⟩⟩
    · have h0 : s2.world.memory.tcpServer.serverFd = 0 := not_not.1 (hrc2.not.1 hrc)
      obtain ⟨hnone, hcalls⟩ := hzero (hfd2 ▸ h0)
      exact ⟨by rw [hb2.opened, (hacc2 hrc).1, hnone, h0]; rfl, (hacc2 hrc).2.trans hcalls⟩
    all_goals
      have hb3 : Books (State.after s2 .loadQuit b) := hb2.congr { SameBooks.refl s2 with }
      have hfd3 := hrc2.1 hrc
    · exact @hleave (State.after s2 .loadQuit b) _
        (.inr ⟨rfl, hb3.opened_ne hfd3, .inl (.inl hb)⟩) hc2
    · exact ⟨fun _ => ⟨.inl ⟨hc2, hb3, hn2 hrc⟩, fun _ => hfd3⟩, fun _ ht => by cases ht⟩
  · rcases h with ⟨hc, hb, hn⟩ | ⟨-, -, hrun⟩
    · have hb' : Books (s.after .load s.world.memory) := hb.congr { SameBooks.refl s with }
      have hne := hb'.opened_ne (hfd hc)
      exact @hleave (s.after .load s.world.memory) _ (.inr ⟨rfl, hne, .inr hstop⟩) hc
    · simp [hrun] at hstop

/-- At every point of every run, the rest of the turn keeps to it. -/
theorem entry_of_reaches (h : Reaches files s p) : Keeps Entry p TurnEnded s := by
  refine Env.Reach.ensures (fun s hs => mainLoop_entry (hs.1 rfl).1 (hs.1 rfl).2) ?_ h
  refine keeps_mainStart (fun _ => trivial) (fun _ _ => trivial) ⟨fun _ => ⟨?_, ?_⟩, ?_⟩
  · refine .inr ⟨rfl, ?_, rfl⟩
    constructor <;> rfl
  · exact fun hc => by cases hc
  · exact fun _ ht => by cases ht

/-! ## Capacity -/

/-- Until something is closed, all descriptors that the process has ever had are open. -/
structure Stocked (files : ℤ → Bool) (s : State) : Prop where
  nodup : (opened s.history).Nodup
  new : ∀ fd ∈ opened s.history, 0 ≤ fd ∧ files fd = false
  held : closed s.history = [] → ∀ fd, fd ∈ opened s.history ∨ 0 ≤ fd ∧ files fd = true →
    s.world.descriptors fd ≠ none

/-- A descriptor that was not in use is new. -/
theorem Stocked.handOut (h : Stocked files s) (hc : closed s.history = []) {c : ℤ} (h0 : 0 ≤ c)
    (hn : s.world.descriptors c = none) {o : SysOp} {r : o.Res} {d : Descriptor}
    (ho : opened (s.after o r).history = c :: opened s.history)
    (hd : (s.after o r).world.descriptors = s.world.descriptors.set c (some d)) :
    Stocked files (s.after o r) where
  nodup := by
    rw [ho]
    exact List.nodup_cons.2 ⟨fun hm => h.held hc c (.inl hm) hn, h.nodup⟩
  new := fun fd hfd => by
    rw [ho] at hfd
    rcases List.mem_cons.1 hfd with rfl | hfd
    · exact ⟨h0, Bool.eq_false_iff.2 fun hf => h.held hc fd (.inr ⟨h0, hf⟩) hn⟩
    · exact h.new fd hfd
  held := fun _ fd hfd => by
    rw [hd]
    by_cases he : fd = c
    · simp [he]
    · rw [DescriptorTable.set_of_ne _ _ he]
      refine h.held hc fd (hfd.imp_left fun hm => ?_)
      rw [ho] at hm
      exact (List.mem_cons.1 hm).resolve_left he

theorem Stocked.step {o : SysOp} {r : o.Res} (hr : serverEnv.recorded.allowed s o r)
    (hg : Entry s o r) (h : Stocked files s) : Stocked files (s.after o r) := by
  simp only [serverEnv, Env.recorded_allowed, Bool.and_eq_true] at hr
  cases o with
  | socket =>
    cases r with
    | error e => exact { h with }
    | ok c =>
      simp only [answers, DescriptorTable.unused_iff] at hr
      exact h.handOut hg hr.2.1 hr.2.2 rfl rfl
  | accept fd =>
    cases r with
    | error e => exact { h with }
    | ok x =>
      obtain ⟨c, peer⟩ := x
      simp only [answers, DescriptorTable.unused_iff, Bool.and_eq_true] at hr
      exact h.handOut hg.2.1 hr.2.2.1 hr.2.2.2 rfl rfl
  | listen c n =>
    cases r with
    | error e => exact { h with }
    | ok _ =>
      refine { h with held := fun hc fd hfd => ?_ }
      by_cases he : fd = c
      · simp [he]
      · simpa [DescriptorTable.set_of_ne _ _ he] using h.held hc fd hfd
  | close fd => exact { h with held := fun hc => by simp at hc }
  | send fd buf =>
    cases r with
    | ok n => exact { h with }
    | error e => cases e <;> exact { h with }
  | recv fd len => cases r <;> exact { h with }
  | bind => cases r <;> exact { h with }
  | _ => exact { h with }

theorem stocked_of_reaches (h : Reaches files s p) : Stocked files s := by
  refine Env.Reach.invariant (I := Stocked files) (fun _ _ _ hr hg hs => hs.step hr hg)
    (fun _ hs => mainLoop_entry (hs.1 rfl).1 (hs.1 rfl).2) (entry_of_reaches (.start files)) ?_ h
  refine ⟨List.nodup_nil, fun fd hfd => by simp at hfd, fun _ fd hfd => ?_⟩
  rcases hfd with hfd | hfd
  · simp at hfd
  · simp [World.start, hfd]

/-- Every request takes a connection of its own, and the listener comes on top. -/
structure Counted (s : State) : Prop where
  served : (exchanges s.history).length ≤ (accepted s.history).length
  serving : ∀ fd a, phase s.history = .accepted fd a →
    (exchanges s.history).length < (accepted s.history).length
  listening : accepted s.history ≠ [] →
    (accepted s.history).length < (opened s.history).length

theorem Counted.step {o : SysOp} {r : o.Res} (hr : serverEnv.recorded.allowed s o r)
    (hg : Contract s o r ∧ Entry s o r) (h : Counted s) : Counted (s.after o r) := by
  obtain ⟨hc, he⟩ := hg
  cases o with
  | socket =>
    cases r with
    | error e => exact { h with }
    | ok c => exact { h with listening := fun hne => (h.listening hne).trans (Nat.lt_succ_self _) }
  | accept fd =>
    cases r with
    | error e => exact { h with serving := fun _ _ hp => by simp at hp }
    | ok x =>
      exact { served := h.served.trans (Nat.le_succ _)
              serving := fun _ _ _ => Nat.lt_succ_of_le h.served
              listening := fun _ => Nat.succ_lt_succ he.2.2 }
  | recv fd len =>
    cases r with
    | error e => exact { h with serving := fun _ _ hp => by simp at hp }
    | ok b =>
      simp only [serverEnv, answers, Env.recorded_allowed, Bool.and_eq_true] at hr
      obtain ⟨a, hconn⟩ := hc.2.connected hr.2.1
      have hlt := h.serving fd a hconn.accepted
      refine { h with served := ?_, serving := fun _ _ hp => by simp at hp }
      by_cases hb : b = []
      · simpa [hb] using h.served
      · simpa [hb, hconn.peer] using Nat.succ_le_of_lt hlt
  | send fd buf =>
    cases r with
    | ok n => exact { served := by simpa using h.served, serving := by simpa using h.serving,
                      listening := h.listening }
    | error e => exact { served := by simpa using h.served, serving := by simpa using h.serving,
                         listening := h.listening }
  | loadQuit => exact { h with serving := fun _ _ hp => by simp at hp }
  | _ => exact { h with }

theorem turn_of_reaches (h : Reaches files s p) :
    Keeps (fun s o r => Contract s o r ∧ Entry s o r) p
      (fun t s => TurnEnds t s ∧ TurnEnded t s) s :=
  (contract_of_reaches h).and (entry_of_reaches h)

/-- What the operations preserve holds in every state that a run gets into. -/
theorem invariant_of_reaches {I : State → Prop}
    (hI : ∀ (s : State) o r, serverEnv.recorded.allowed s o r →
      Contract s o r ∧ Entry s o r → I s → I (s.after o r)) (h : Reaches files s p) (hi : I s)
    (hr : serverEnv.recorded.Reach mainLoop (s, p) (s', p')) : I s' :=
  Env.Reach.invariant hI (fun _ hs => (mainLoop_contract (hs.1 rfl)).and
    (mainLoop_entry (hs.2.1 rfl).1 (hs.2.1 rfl).2)) (turn_of_reaches h) hi hr

theorem counted_of_reaches (h : Reaches files s p) : Counted s := by
  refine invariant_of_reaches (fun _ _ _ hr hg hs => hs.step hr hg) (.start files) ?_ h
  exact { served := le_rfl
          serving := fun _ _ hp => by simp at hp
          listening := fun hne => absurd rfl hne }

theorem opened_add_card_le (h : Reaches files s p) {L : ℕ} (hL : ∀ fd ∈ opened s.history, fd < L) :
    (opened s.history).length + ((Finset.range L).filter fun n : ℕ => files n = true).card ≤ L := by
  have hstocked := stocked_of_reaches h
  refine length_add_card_le (P := fun n => files n = true) hstocked.nodup fun fd hfd => ?_
  obtain ⟨h0, hfile⟩ := hstocked.new fd hfd
  refine ⟨h0, hL fd hfd, ?_⟩
  rw [Int.toNat_of_nonneg h0, hfile]
  exact Bool.false_ne_true

theorem Counted.exchanges_lt (h : Counted s) (hne : exchanges s.history ≠ []) :
    (exchanges s.history).length < (opened s.history).length := by
  have hpos : 0 < (exchanges s.history).length := List.length_pos_iff.2 hne
  have haccepted : accepted s.history ≠ [] := List.length_pos_iff.1 (hpos.trans_le h.served)
  exact h.served.trans_lt (h.listening haccepted)

/-- If the process may have `L` descriptors, then it handles fewer than `L` requests in its whole
life, and each file that it has inherited is one request less. -/
theorem capacity (h : Reaches files s p) {L : ℕ} (hL : ∀ fd ∈ opened s.history, fd < L)
    (hne : exchanges s.history ≠ []) :
    (exchanges s.history).length + 1 +
      ((Finset.range L).filter fun n : ℕ => files n = true).card ≤ L := by
  have hroom := opened_add_card_le h hL
  have hhandled := (counted_of_reaches h).exchanges_lt hne
  omega

/-- Three clients, and no room for more than seven descriptors. -/
theorem capacity_oneBanned :
    let s := (oneBanned.play fun _ _ => false).1
    (exchanges s.history).length = 3 ∧ (exchanges s.history).length + 1 +
      ((Finset.range 7).filter fun _ : ℕ => false = true).card ≤ 7 :=
  ⟨by decide, capacity (oneBanned.play_reaches fun _ _ => false) (by decide) (by decide)⟩

/-! ## Deafness -/

/-- Once an `accept` has failed, nobody is being served, and no command can arrive any more. -/
def Deaf (s : State) : Prop :=
  acceptFailures s.history ≠ 0 → phase s.history = .idle ∧ s.world.memory.isServerRunning = true

/-- What a deaf server may still do. -/
theorem Deaf.silent {o : SysOp} {r : o.Res} (hr : serverEnv.recorded.allowed s o r)
    (hg : Contract s o r ∧ Entry s o r) (h : Deaf s) (hf : acceptFailures s.history ≠ 0) :
    exchanges (s.after o r).history = exchanges s.history ∧
      accepted (s.after o r).history = accepted s.history ∧
      phase (s.after o r).history = .idle ∧
      (s.after o r).world.memory.isServerRunning = true := by
  obtain ⟨hc, he⟩ := hg
  obtain ⟨hidle, hrun⟩ := h hf
  cases o with
  | accept fd =>
    cases r with
    | error e => exact ⟨rfl, rfl, rfl, hrun⟩
    | ok x => exact absurd he.1 hf
  | recv fd len =>
    cases r with
    | error e => exact ⟨rfl, rfl, rfl, hrun⟩
    | ok b =>
      simp only [serverEnv, answers, Env.recorded_allowed, Bool.and_eq_true] at hr
      obtain ⟨a, hconn⟩ := hc.2.connected hr.2.1
      cases hidle.symm.trans hconn.accepted
  | send fd buf =>
    obtain ⟨p, data, hp, -⟩ := hc
    cases hidle.symm.trans hp
  | store m =>
    refine ⟨rfl, rfl, hidle, ?_⟩
    by_contra hstop
    obtain ⟨fd, p, hp, -⟩ := hc hrun (by simpa using hstop)
    cases hidle.symm.trans hp
  | loadQuit => exact ⟨rfl, rfl, rfl, hrun⟩
  | socket => cases r <;> exact ⟨rfl, rfl, hidle, hrun⟩
  | listen => cases r <;> exact ⟨rfl, rfl, hidle, hrun⟩
  | bind => cases r <;> exact ⟨rfl, rfl, hidle, hrun⟩
  | _ => exact ⟨rfl, rfl, hidle, hrun⟩

theorem Deaf.step {o : SysOp} {r : o.Res} (hr : serverEnv.recorded.allowed s o r)
    (hg : Contract s o r ∧ Entry s o r) (h : Deaf s) : Deaf (s.after o r) := by
  intro hf
  by_cases hs : acceptFailures s.history = 0
  · -- the failure has just happened
    cases o with
    | accept fd =>
      cases r with
      | error e => exact ⟨rfl, hg.1.2.2⟩
      | ok x => exact absurd hs hf
    | _ => exact absurd hs hf
  · exact (h.silent hr hg hs).2.2

theorem deaf_of_reaches (h : Reaches files s p) : Deaf s :=
  invariant_of_reaches (fun _ _ _ hr hg hs => hs.step hr hg) (.start files)
    (fun hf => absurd rfl hf) h

theorem acceptFailures_ne_zero (o : SysOp) (r : o.Res) {h : List Happening}
    (hf : acceptFailures h ≠ 0) : acceptFailures (⟨o, r⟩ :: h) ≠ 0 := by
  cases o with
  | accept fd => cases r <;> simp [hf]
  | _ => exact hf

/-- What a deaf server has done stays as it is. -/
theorem frozen_of_reach (h : Reaches files s p) (hf : acceptFailures s.history ≠ 0)
    (hr : serverEnv.recorded.Reach mainLoop (s, p) (s', p')) :
    acceptFailures s'.history ≠ 0 ∧ exchanges s'.history = exchanges s.history ∧
      accepted s'.history = accepted s.history := by
  have hinv := invariant_of_reaches (I := fun s' => Deaf s' ∧ acceptFailures s'.history ≠ 0 ∧
    exchanges s'.history = exchanges s.history ∧ accepted s'.history = accepted s.history)
    (fun s' o r ha hg hi => ?_) h ⟨deaf_of_reaches h, hf, rfl, rfl⟩ hr
  · exact hinv.2
  · obtain ⟨hdeaf, hf', hx, hacc⟩ := hi
    obtain ⟨hx', hacc', -⟩ := hdeaf.silent ha hg hf'
    exact ⟨hdeaf.step ha hg, acceptFailures_ne_zero o r hf', hx'.trans hx, hacc'.trans hacc⟩

/-- After a failed `accept` the server never accepts, reads, answers or obeys anybody again, and
it goes on in its loop until it finds `quit` set. -/
theorem failed_accept_is_final (h : Reaches files s p) (hf : acceptFailures s.history ≠ 0)
    (hr : serverEnv.recorded.Reach mainLoop (s, p) (s', p')) :
    exchanges s'.history = exchanges s.history ∧ accepted s'.history = accepted s.history ∧
      s'.world.memory.isServerRunning = true ∧
      ∀ code, p' = .done (.halt code) → quitSeen s'.history := by
  obtain ⟨hf', hx, hacc⟩ := frozen_of_reach h hf hr
  have hrun := (deaf_of_reaches (h.trans hr) hf').2
  refine ⟨hx, hacc, hrun, ?_⟩
  rintro code rfl
  rcases (entry_of_reaches (h.trans hr)).2 code rfl with ⟨-, -, hcalls⟩ | ⟨-, -, hquit | hstop⟩
  · have heq := acceptCalls_eq s'.history
    omega
  · exact hquit
  · exact absurd (hrun.symm.trans hstop) (by decide)

/-- Two clients that give up before `accept` returns. -/
def abortedTwice : Script := [.error .ECONNABORTED, .error .EBADF]

/-- The run of the server against it, after its first turn and after `n` more. -/
def abortedTwice.turns (n : ℕ) : State × Sys (Turn ℤ) :=
  serverEnv.recorded.loopRun
    (serverEnv.recorded.checked (abortedTwice.answerUntil fun _ _ => false)) mainLoop n
    (abortedTwice.playTurns 1 fun _ _ => false)

theorem abortedTwice.turns_reach (n : ℕ) : serverEnv.recorded.Reach mainLoop
    (abortedTwice.playTurns 1 fun _ _ => false) (abortedTwice.turns n) :=
  Env.loopRun_checked_reach ..

theorem failed_accept_is_final_abortedTwice :
    exchanges (abortedTwice.turns 1).1.history = [] ∧
      quitSeen (abortedTwice.turns 1).1.history := by
  have h := failed_accept_is_final (abortedTwice.playTurns_reaches 1 fun _ _ => false) (by decide)
    (abortedTwice.turns_reach 1)
  exact ⟨h.1, h.2.2.2 exitSuccess rfl⟩

/-! ## The end -/

/-- The server leaves `main` with failure exactly if its listener is descriptor 0. In that case it
has never tried to accept anybody; otherwise it has been asked to stop, by SIGINT or by a shutdown
command from the administrator that came before any banned peer. -/
theorem exit_code {code : ℤ} (h : Reaches files s (.done (.halt code))) :
    (code = exitFailure ↔ opened s.history = [0]) ∧
      (code = exitFailure → acceptCalls s.history = 0) ∧
      (code ≠ exitFailure → code = exitSuccess ∧ (quitSeen s.history ∨
        ∃ later x past, requests s.history = later ++ x :: past ∧ x.peer = adminAddr ∧
          cString x.payload = ascii "SHUTDOWN" ∧ ∀ y ∈ past, ¬ Banned y.peer)) := by
  have hrunning := running_of_done h
  rcases (entry_of_reaches h).2 code rfl with ⟨rfl, hopened, hcalls⟩ | ⟨rfl, hopened, hreason⟩
  · exact ⟨iff_of_true rfl hopened, fun _ => hcalls, fun hn => absurd rfl hn⟩
  · refine ⟨iff_of_false (by decide) hopened, fun hf => absurd hf (by decide), fun _ => ⟨rfl, ?_⟩⟩
    refine hreason.imp_right fun hstop => ?_
    rw [hrunning, echoService_stopped_iff] at hstop
    exact hstop

theorem exit_code_oneBanned :
    let s := (oneBanned.play fun _ _ => false).1
    opened s.history ≠ [0] ∧ (quitSeen s.history ∨
      ∃ later x past, requests s.history = later ++ x :: past ∧ x.peer = adminAddr ∧
        cString x.payload = ascii "SHUTDOWN" ∧ ∀ y ∈ past, ¬ Banned y.peer) := by
  have h := exit_code (show Reaches _ _ (.done (.halt exitSuccess)) from
    oneBanned.play_reaches fun _ _ => false)
  exact ⟨h.1.not.1 (by decide), (h.2.2 (by decide)).2⟩

end KCNet.Server
