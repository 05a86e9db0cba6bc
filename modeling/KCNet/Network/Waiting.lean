import KCNet.Network.Links
import KCNet.Network.Schedule

/-!
# Waiting clients

When a client that is blocked in its `recv` has something to wait for. `Sound` rules out the steps
after which one may wait in vain: a client that sends nothing on an open connection, or whose `send`
fails there, and a server whose `recv` fails, that drops a request because an earlier peer was
banned, or whose answer fails before its first byte.

## Main definitions

- `Waiting`, `Hopeful` — a blocked client, and what it may wait for
- `Attended` — the server is not done with a connection
- `Sound` — the condition on a step
- `Minded` — the invariant of the runs whose steps are all sound
-/

namespace KCNet.Network

open Interaction Client

variable {ι : Type}

/-- The client is blocked in its `recv`. -/
def Waiting (x : System ι) (i : ι) : Prop :=
  ∃ s fd len k, x.client i = (s, .call (.recv fd len) k) ∧ s.world.alive = true ∧
    s.world.descriptors.connected fd = true

/-- The same, to be computed. -/
def waits (x : System ι) (i : ι) : Bool :=
  match x.client i with
  | (s, .call (.recv fd _) _) => s.world.alive && s.world.descriptors.connected fd
  | _ => false

theorem waiting_of_waits {x : System ι} {i : ι} (h : waits x i = true) : Waiting x i := by
  unfold waits at h
  split at h
  · next s fd len k hx =>
    rw [Bool.and_eq_true] at h
    exact ⟨s, fd, len, k, hx, h⟩
  · exact nomatch h

/-- The server has accepted the connection or read a request from it, and is not done with it. -/
def AtHand (s : Server.State) (fd : ℤ) : Prop :=
  (∃ a, Server.phase s.history = .accepted fd a) ∨ ∃ p, Server.phase s.history = .requested fd p

theorem not_atHand_of_idle {s : Server.State} (h : Server.phase s.history = .idle) (fd : ℤ) :
    ¬ AtHand s fd := by
  rintro (⟨a, ha⟩ | ⟨p, hp⟩)
  · simp [h] at ha
  · simp [h] at hp

/-- The server has still to accept the connection, or to read or answer what comes over it. -/
inductive Attended (x : System ι) (i : ι) : Prop where
  | pending (h : (x.link i).status = .pending)
  | atHand (fd : ℤ) (h : (x.link i).status = .accepted fd) (hs : AtHand x.server.1 fd)

/-- There is something to wait for. Bytes of the request count only if the server is still to read
them. -/
inductive Hopeful (x : System ι) (i : ι) : Prop where
  | request (h : (x.link i).toServer ≠ []) (ha : Attended x i)
  | reply (h : (x.link i).toClient ≠ [])
  | attended (h : Attended x i) (hr : (x.link i).request ≠ [])
  | closed (h : (x.link i).status = .closed)

/-- A waiting client has something to wait for and has sent its request, and the server has answered
each client that still holds its connection before turning away. -/
structure NotOrphaned (x : System ι) (i : ι) : Prop where
  hopeful : Waiting x i → Hopeful x i
  answered : (x.link i).hungUp = false → ∀ fd, (x.link i).status = .accepted fd →
    ¬ AtHand x.server.1 fd → (x.link i).reply ≠ []
  asked : Waiting x i → (x.link i).status ≠ .closed → (x.link i).request ≠ []

/-- The connection has been set up, and the server has not closed it. -/
def Link.Open (l : Link) : Prop := l.status ≠ .unconnected ∧ l.status ≠ .closed

/-- The condition on a step. Only a client that runs a request prints while its connection is open,
and its `send` fails there only with the reset that ends its process. The server's `recv` does not
fail on a connection that a client still holds, it reads no message of a client that is not banned
after one of a banned peer, and its `send` does not fail before the first byte of an answer, unless
the failure is the reset that ends the server. Clients that have hung up do not count. -/
def Sound (addr : ι → InAddr) (command : ι → ServerCommand) (x : System ι) : Move ι → Prop
  | .client i (.stdout _) _ => (command i).Sends ∨ ¬ (x.link i).Open
  | .client i (.send ..) (.error e) => e = .EPIPE ∨ ¬ (x.link i).Open
  | .server i (.recv ..) (.ok _) =>
    Server.Banned (addr i) ∨ ¬ Server.bannedSeen x.server.1.history ∨ (x.link i).hungUp = true
  | .server _ (.recv fd _) (.error _) =>
    ∀ i, (x.link i).status = .accepted fd → (x.link i).hungUp = true
  | .server _ (.send fd _) (.error e) =>
    e = .EPIPE ∨
      ∀ i, (x.link i).status = .accepted fd → (x.link i).reply ≠ [] ∨ (x.link i).hungUp = true
  | _ => True

/-! ## The connection that a client still holds -/

/-- How the server treats the connection that it has accepted as `fd`. -/
structure Cared (s : Server.State) (l : Link) (fd : ℤ) : Prop where
  owed : ∀ p, Server.phase s.history = .requested fd p →
    p ≠ [] ∧ ∃ data, data ≠ [] ∧ Server.Owes s.history fd p data
  failed : Server.sendError fd s.history ≠ none → l.reply ≠ []
  answered : ¬ AtHand s fd → l.reply ≠ []

variable {s : Server.State} {h : List Client.Happening} {a : InAddr} {c : ServerCommand}
  {l l' : Link} {fd : ℤ}

theorem Cared.congr (hc : Cared s l fd) (hreply : l'.reply = l.reply) : Cared s l' fd where
  owed := hc.owed
  failed := hreply ▸ hc.failed
  answered := hreply ▸ hc.answered

/-- The client does not touch what is the server's, and does not come back once it has hung up. -/
theorem Asks.leaves_reply {cs : Client.State} {o : Client.SysOp} {r : o.Res}
    (h : Asks l cs o r l') : l'.reply = l.reply ∧ (l'.hungUp = false → l.hungUp = false) := by
  cases h with
  | broken | close => exact ⟨rfl, nofun⟩
  | _ => exact ⟨rfl, id⟩

theorem Cared.of_idle {o : Server.SysOp} {r : o.Res} (hc : Cared s l fd)
    (hp : Server.phase (s.after o r).history = .idle)
    (he : Server.sendError fd (s.after o r).history = Server.sendError fd s.history)
    (ha : AtHand s fd → l.reply ≠ []) : Cared (s.after o r) l fd where
  owed := fun p hp' => by rw [hp] at hp'; exact nomatch hp'
  failed := by rw [he]; exact hc.failed
  answered := fun _ => by
    by_cases hat : AtHand s fd
    · exact ha hat
    · exact hc.answered hat

theorem Cared.of_same {o : Server.SysOp} {r : o.Res} (hc : Cared s l fd)
    (hp : Server.phase (s.after o r).history = Server.phase s.history)
    (ho : ∀ p data, Server.Owes s.history fd p data → Server.Owes (s.after o r).history fd p data)
    (he : Server.sendError fd (s.after o r).history = Server.sendError fd s.history) :
    Cared (s.after o r) l fd where
  owed := fun p hp' => by
    obtain ⟨hne, data, hd, howes⟩ := hc.owed p (hp ▸ hp')
    exact ⟨hne, data, hd, ho p data howes⟩
  failed := by rw [he]; exact hc.failed
  answered := by
    unfold AtHand
    rw [hp]
    exact hc.answered

/-- At the end of a turn the connection at hand has been read from, and what was read has been
answered. -/
theorem Cared.of_answered (hc : Cared s l fd) (ha : Accepted s a l fd)
    (hrec : Server.Received s.history) (hans : Server.Answered s.history) (hat : AtHand s fd) :
    l.reply ≠ [] := by
  rcases hat with ⟨a', hp⟩ | ⟨p, hp⟩
  · exact absurd hp (hrec fd a')
  · obtain ⟨hne, data, hd, ho⟩ := hc.owed p hp
    rcases (hans fd p data hp hne ho).2 with hsent | herr
    · rw [← ha.sent, hsent]
      exact hd
    · exact hc.failed herr

/-- A connection that the server is about to read from is the only one at hand. -/
theorem not_atHand_of_atRecv {fd' : ℤ} (h : Server.AtRecv s fd') (hne : fd' ≠ fd) :
    ¬ AtHand s fd := by
  rcases h.connection with ⟨-, hidle⟩ | ⟨a', hfd⟩
  · exact not_atHand_of_idle hidle fd
  · rintro (⟨a'', hp⟩ | ⟨p, hp⟩)
    · exact hne (Server.Phase.accepted.inj (hfd.accepted.symm.trans hp)).1
    · exact absurd (hfd.accepted.symm.trans hp) (by simp)

/-- The operations that leave the connections alone, a failing `recv` and `send` among them. -/
theorem Cared.plain {o : Server.SysOp} {r : o.Res} (hc : Cared s l fd) (ha : Accepted s a l fd)
    (hcon : Server.Contract s o r) (hp : Plain o r)
    (hrecv : ∀ len e, (⟨o, r⟩ : Server.Happening) ≠ ⟨.recv fd len, .error e⟩)
    (hsend : ∀ buf e, (⟨o, r⟩ : Server.Happening) = ⟨.send fd buf, .error e⟩ → l.reply ≠ []) :
    Cared (s.after o r) l fd := by
  cases o with
  | accept lfd =>
    cases r with
    | ok => exact hp.elim
    | error e =>
      -- `accept` is called when no connection is at hand
      exact hc.of_idle rfl rfl fun hat => absurd hat (not_atHand_of_idle hcon.2.1 fd)
  | recv fd' len =>
    cases r with
    | ok => exact hp.elim
    | error e =>
      -- the server turns away from the connection that has failed, which is not this one
      have hne : fd' ≠ fd := fun he => hrecv len e (he ▸ rfl)
      exact hc.of_idle rfl rfl fun hat => absurd hat (not_atHand_of_atRecv hcon.2 hne)
  -- the turn ends with an answer
  | loadQuit => exact hc.of_idle rfl rfl (hc.of_answered ha hcon.1 hcon.2)
  | send fd' buf =>
    cases r with
    | ok => exact hp.elim
    | error e =>
      by_cases he : fd' = fd
      · subst he
        exact { owed := hc.owed, failed := fun _ => hsend buf e rfl, answered := hc.answered }
      · exact hc.of_same rfl (fun _ _ => id) (by simp [he])
  | close => exact hp.elim
  | socket | bind | listen => cases r <;> exact hc.of_same rfl (fun _ _ => id) rfl
  | _ => exact hc.of_same rfl (fun _ _ => id) rfl

theorem Cared.accept (lfd : ℤ) : Cared (s.after (.accept lfd) (.ok (fd, a))) l fd where
  owed := by simp
  failed := by simp
  answered := fun hat => absurd (.inl ⟨a, rfl⟩) hat

theorem Cared.accept_other (hc : Cared s l fd) {lfd fd' : ℤ} {peer : InAddr} (hne : fd' ≠ fd)
    (hcon : Server.Contract s (.accept lfd) (.ok (fd', peer))) :
    Cared (s.after (.accept lfd) (.ok (fd', peer))) l fd where
  owed := by simp
  failed := by simpa [hne] using hc.failed
  answered := fun _ => hc.answered (not_atHand_of_idle hcon.2.1 fd)

theorem Cared.recv (hc : Cared s l fd) (ha : Accepted s a l fd) {len : ℕ} {b : Bytes}
    (hne : b ≠ []) (hb : Server.Banned a ∨ ¬ Server.bannedSeen s.history) :
    Cared (s.after (.recv fd len) (.ok b)) { l with read := l.read + b.length } fd where
  owed := fun p hp => by
    obtain ⟨-, rfl⟩ := Server.Phase.requested.inj hp
    by_cases hban : Server.Banned a
    · exact ⟨hne, Server.TcpServer.bannedMessage, by decide, a, ha.peer, .inl ⟨hban, rfl⟩⟩
    · -- the flag is not set, so the message will be echoed
      have hseen := hb.resolve_left hban
      refine ⟨hne, b, hne, a, ha.peer, .inr ⟨?_, rfl⟩⟩
      simp [ha.peer, hban, hseen]
  failed := hc.failed
  answered := fun hat => absurd (.inr ⟨b, rfl⟩) hat

theorem Cared.recv_other (hc : Cared s l fd) {fd' : ℤ} (hne : fd' ≠ fd) {len : ℕ} {b : Bytes}
    (hat : Server.AtRecv s fd') : Cared (s.after (.recv fd' len) (.ok b)) l fd where
  owed := by simp [hne]
  failed := hc.failed
  answered := fun _ => hc.answered (not_atHand_of_atRecv hat hne)

theorem Cared.send (hc : Cared s l fd) {buf : Bytes} {n : ℕ} (hn : 0 < n)
    (hle : n ≤ buf.length) :
    Cared (s.after (.send fd buf) (.ok n)) { l with reply := l.reply ++ buf.take n } fd := by
  have hne : l.reply ++ buf.take n ≠ [] := by
    have hlen : (buf.take n).length = n := by simp [hle]
    exact fun he => by simp [List.append_eq_nil_iff.1 he] at hlen; omega
  exact { owed := hc.owed, failed := fun _ => hne, answered := fun _ => hne }

/-! ## Runs of sound steps -/

section Runs

variable [DecidableEq ι] {addr : ι → InAddr} {files : ℤ → Bool} {world : ι → Client.World}
  {command : ι → ServerCommand} {x y : System ι} {m : Move ι} {link link' : ι → Link}

/-- What holds of a client in a run of sound steps. -/
structure Sincere (c : ServerCommand) (cs : Client.State) (l : Link) : Prop where
  refused : ¬ c.Sends → 0 < stdoutCalls cs.history → ¬ l.Open
  failed : cs.world.alive = true → 0 < sendFailures cs.history → ¬ l.Open
  hungUp : l.hungUp = true → cs.world.alive = false ∨ 0 < recvCalls cs.history

/-- What holds in every state of a run of sound steps. -/
structure Minded (addr : ι → InAddr) (files : ℤ → Bool) (command : ι → ServerCommand)
    (x : System ι) : Prop extends Coherent addr files command x where
  sincere : ∀ i, Sincere (command i) (x.client i).1 (x.link i)
  cared : ∀ i fd, (x.link i).status = .accepted fd → (x.link i).hungUp = false →
    Cared x.server.1 (x.link i) fd

omit [DecidableEq ι] in
theorem Link.shut_steady (l : Link) : (l.shut.Open → l.Open) ∧ l.shut.hungUp = l.hungUp := by
  unfold Link.shut
  split
  · exact ⟨id, rfl⟩
  · exact ⟨fun h => absurd rfl h.2, rfl⟩

/-- The server opens no connection, and it does not hang up for a client. -/
theorem Served.steady {i : ι} {o : Server.SysOp} {r : o.Res} (hl : Served addr link i o r link')
    (j : ι) : ((link' j).Open → (link j).Open) ∧ (link' j).hungUp = (link j).hungUp := by
  cases hl with
  | accept fd c hs =>
    by_cases hj : j = i
    · subst hj
      simp [Link.Open, hs]
    · simp [hj]
  | recv fd len b hs => rcases eq_or_ne j i with rfl | hj <;> simp_all [Link.Open]
  | send fd buf n hs => rcases eq_or_ne j i with rfl | hj <;> simp_all [Link.Open]
  | close fd h =>
    rcases h j with hj | ⟨hj, -⟩
    · rw [hj]
      exact (link j).shut_steady
    · rw [hj]
      exact ⟨id, rfl⟩
  | plain => exact ⟨id, rfl⟩

omit [DecidableEq ι] in
theorem settle_steady (sc : ServerConfig) (link : ι → Link) (j : ι) :
    ((settle sc link j).Open → (link j).Open) ∧
      (settle sc link j).hungUp = (link j).hungUp := by
  unfold settle
  split
  · exact (link j).shut_steady
  · exact ⟨id, rfl⟩

omit [DecidableEq ι] in
/-- A connection is left open only by a server that has not ended. -/
theorem settle_accepted {sc : ServerConfig} {j : ι}
    (h : (settle sc link j).status = .accepted fd) :
    ended sc = false ∧ (link j).status = .accepted fd ∧ settle sc link j = link j := by
  unfold settle at h ⊢
  split at h
  · exact absurd h (Link.shut_status _ _)
  · next hended => exact ⟨by simpa using hended, h, by rw [if_neg hended]⟩

theorem alive_of_not_ended {sc : ServerConfig} (h : ended sc = false) :
    sc.1.world.alive = true := by
  unfold ended at h
  split at h <;> simp_all

theorem cared_served {i : ι} {o : Server.SysOp} {r : o.Res} (hl : Served addr link i o r link')
    (ha : Server.serverEnv.allowed s.world o r = true) (hcon : Server.Contract s o r)
    {hist : ι → List Client.Happening}
    (hw : ∀ j, Wired s (hist j) (addr j) (command j) (link j)) (hd : Distinct link)
    (hc : ∀ j fd, (link j).status = .accepted fd → (link j).hungUp = false → Cared s (link j) fd)
    (hrecv : ∀ fd len b, (⟨o, r⟩ : Server.Happening) = ⟨.recv fd len, .ok b⟩ →
      Server.Banned (addr i) ∨ ¬ Server.bannedSeen s.history ∨ (link i).hungUp = true)
    (hfail : ∀ fd len e, (⟨o, r⟩ : Server.Happening) = ⟨.recv fd len, .error e⟩ → ∀ j,
      (link j).status = .accepted fd → (link j).hungUp = true)
    (hsend : ∀ fd buf e, (⟨o, r⟩ : Server.Happening) = ⟨.send fd buf, .error e⟩ → ∀ j,
      (link j).status = .accepted fd → (link j).reply ≠ [] ∨ (link j).hungUp = true)
    (j : ι) {fd : ℤ} (hs : (link' j).status = .accepted fd) (hh : (link' j).hungUp = false) :
    Cared (s.after o r) (link' j) fd := by
  have hother {fd' : ℤ} (hi : (link i).status = .accepted fd') (hj : j ≠ i)
      (hs : (link j).status = .accepted fd) : fd' ≠ fd := fun he => hj (hd j i fd hs (he ▸ hi))
  cases hl with
  | accept lfd c hst =>
    by_cases hj : j = i
    · subst hj
      rw [Function.update_self] at hs ⊢
      obtain rfl := Status.accepted.inj hs
      exact .accept lfd
    · rw [Function.update_of_ne hj] at hs hh ⊢
      exact (hc j fd hs hh).accept_other (((hw j).accepted fd hs).ne_new ha) hcon
  | recv fd' len b hst hb hend =>
    by_cases hj : j = i
    · subst hj
      rw [Function.update_self] at hs hh ⊢
      obtain rfl := Status.accepted.inj (hst.symm.trans hs)
      have hopen : ¬ (link j).hungUp = true := Bool.eq_false_iff.1 hh
      -- the end of the stream comes only from a client that has hung up
      apply (hc j fd' hst hh).recv ((hw j).accepted fd' hst) fun hb => hopen (hend hb)
      exact (hrecv fd' len b rfl).imp_right fun h => h.resolve_right hopen
    · rw [Function.update_of_ne hj] at hs hh ⊢
      exact (hc j fd hs hh).recv_other (hother hst hj hs) hcon.2
  | send fd' buf n hst =>
    simp only [Server.serverEnv, Server.answers, Bool.and_eq_true, decide_eq_true_eq] at ha
    by_cases hj : j = i
    · subst hj
      rw [Function.update_self] at hs hh ⊢
      obtain rfl := Status.accepted.inj (hst.symm.trans hs)
      exact (hc j fd' hst hh).send ha.2.1.2 ha.2.2
    · rw [Function.update_of_ne hj] at hs hh ⊢
      exact (hc j fd hs hh).of_same rfl (fun _ _ => id) (by simp)
  | close fd' h =>
    rcases h j with hj | ⟨hj, -⟩
    · exact absurd (hj ▸ hs) (Link.shut_status _ _)
    · rw [hj] at hs hh ⊢
      exact (hc j fd hs hh).of_same rfl (fun _ _ => id) rfl
  | plain hp =>
    apply (hc j fd hs hh).plain ((hw j).accepted fd hs) hcon hp
    · intro len e he
      simp [hfail fd len e he j hs] at hh
    · intro buf e he
      exact (hsend fd buf e he j hs).resolve_right (by simp [hh])

theorem Sincere.congr {cs : Client.State} (h : Sincere c cs l) (ho : l'.Open → l.Open)
    (hh : l'.hungUp = l.hungUp) : Sincere c cs l' where
  refused := fun hc hp hopen => h.refused hc hp (ho hopen)
  failed := fun ha hf hopen => h.failed ha hf (ho hopen)
  hungUp := fun he => h.hungUp (hh ▸ he)

/-- Where an operation leaves the connection alone, only a refusal and a failed `send` matter. -/
theorem Sincere.plain {cs : Client.State} {o : Client.SysOp} {r : o.Res} (h : Sincere c cs l)
    (ha : cs.world.alive = true) (hcon : ¬ Connects o r)
    (hprint : ∀ t, o = .stdout t → c.Sends ∨ ¬ l.Open)
    (hsend : ∀ fd buf e, (⟨o, r⟩ : Client.Happening) = ⟨.send fd buf, .error e⟩ →
      e = .EPIPE ∨ ¬ l.Open) : Sincere c (cs.after o r) l := by
  cases o with
  | connect fd port =>
    cases r with
    | error e => exact { h with }
    | ok u => exact absurd trivial hcon
  | send fd buf =>
    cases r with
    | error e =>
      refine { h with failed := fun ha' _ => ?_, hungUp := fun hh => ?_ }
      · -- after the reset there is no process left
        apply (hsend fd buf e rfl).resolve_left
        rintro rfl
        simp at ha'
      · rcases h.hungUp hh with hd | hc
        · simp [ha] at hd
        · exact .inr hc
    | ok n => exact { h with }
  | recv fd len =>
    cases r <;> exact { h with hungUp := fun _ => .inr (Nat.succ_pos _) }
  | openUrandom | socket => cases r <;> exact { h with }
  | close fd =>
    refine { h with failed := fun _ => h.failed ha,
                    hungUp := fun hh => (h.hungUp hh).imp_left fun hd => ?_ }
    simp [ha] at hd
  | stdout t => exact { h with refused := fun hc _ => (hprint t rfl).resolve_left hc }
  | _ => exact { h with }

/-- The client's part in a sound step. -/
theorem Sincere.asks {cs : Client.State} {o : Client.SysOp} {r : o.Res} (h : Sincere c cs l)
    (ha : cs.world.alive = true) (hw : Wired s cs.history a c l) (hl : Asks l cs o r l')
    (hcon : Client.Contract c cs o r) (hprint : ∀ t, o = .stdout t → c.Sends ∨ ¬ l.Open)
    (hsend : ∀ fd buf e, (⟨o, r⟩ : Client.Happening) = ⟨.send fd buf, .error e⟩ →
      e = .EPIPE ∨ ¬ l.Open) : Sincere c (cs.after o r) l' := by
  cases hl with
  | connect fd port hs =>
    -- nothing has been printed or sent before the connection is set up
    obtain ⟨-, hfail, hnone⟩ := hcon
    exact { hungUp := h.hungUp
            refused := fun _ hp => absurd hnone (Nat.pos_iff_ne_zero.1 hp)
            failed := fun _ hf => absurd hfail (Nat.pos_iff_ne_zero.1 hf) }
  | send fd buf n => exact { h with }
  | broken fd buf =>
    exact { h with failed := fun hd => absurd hd (by simp), hungUp := fun _ => .inl rfl }
  | recv fd len b hb => exact { h with hungUp := fun _ => .inr (Nat.succ_pos _) }
  | close fd hs =>
    have hc : hasConnected cs.history = true :=
      Bool.not_eq_false _ ▸ fun hf => hs (hw.unconnected.2 hf)
    exact { h with failed := fun _ => h.failed ha, hungUp := fun _ => .inr (hcon hc) }
  | plain hc => exact h.plain ha hc hprint hsend

theorem Minded.step (h : Minded addr files command x) (hs : Step addr x m y)
    (hsound : Sound addr command x m) : Minded addr files command y := by
  have hco := h.toCoherent.step hs
  cases hs with
  | @server s o k i r link' hx ha hl =>
    have hreach : Server.Reaches files s (.call o k) := by simpa [hx] using h.server
    obtain ⟨hc, -⟩ := Server.contract_of_reaches hreach r ha
    have hserved := served_of_serve hl
    have hw (j : ι) : Wired s (x.client j).1.history (addr j) (command j) (x.link j) := by
      simpa [hx] using h.wired j
    refine { hco with sincere := fun j => ?_, cared := fun j fd hst hh => ?_ }
    · obtain ⟨hs1, hh1⟩ := hserved.steady j
      obtain ⟨hs2, hh2⟩ := settle_steady (s.after o r, k r) link' j
      exact (h.sincere j).congr (fun hopen => hs1 (hs2 hopen)) (hh2.trans hh1)
    · obtain ⟨hgoes, hst, hset⟩ := settle_accepted hst
      simp only [hset] at hh ⊢
      apply cared_served hserved ha hc hw h.distinct (by simpa [hx] using h.cared) ?_ ?_ ?_ j hst hh
      · rintro fd' len b ⟨⟩
        simpa [Sound, hx] using hsound
      · rintro fd' len e ⟨⟩
        exact hsound
      · rintro fd' buf e ⟨⟩
        -- a server that has met a reset has ended
        refine hsound.resolve_left ?_
        rintro rfl
        have halive := alive_of_not_ended hgoes
        simp at halive
  | again hx =>
    exact { hco with sincere := h.sincere, cared := by simpa [hx] using h.cared }
  | @client s o k i r l hx ha hcon hl =>
    have hkeeps := h.client i
    rw [hx] at hkeeps
    obtain ⟨hc, -⟩ := hkeeps r ha
    have hasks := asks_of_ask hl
    refine { hco with sincere := fun j => ?_, cared := fun j fd hst hh => ?_ }
    · by_cases hj : j = i
      · subst hj
        have hw : Wired x.server.1 s.history (addr j) (command j) (x.link j) := by
          simpa [hx] using h.wired j
        have hsin : Sincere (command j) s (x.link j) := by simpa [hx] using h.sincere j
        have halive : s.world.alive = true := by
          simp only [clientEnv, Env.recorded_allowed, Bool.and_eq_true] at ha
          exact ha.1
        simp only [Function.update_self]
        apply hsin.asks halive hw hasks hc
        · rintro t rfl
          exact hsound
        · rintro fd' buf e ⟨⟩
          exact hsound
      · simpa [hj] using h.sincere j
    · by_cases hj : j = i
      · subst hj
        simp only [Function.update_self] at hst hh ⊢
        obtain ⟨hreply, hopen⟩ := hasks.leaves_reply
        exact (h.cared j fd (hasks.status hst) (hopen hh)).congr hreply
      · simp only [Function.update_of_ne hj] at hst hh ⊢
        exact h.cared j fd hst hh
  | quit i =>
    refine { hco with sincere := fun j => ?_, cared := fun j fd hst hh => ?_ }
    · by_cases hj : j = i
      · subst hj
        simp only [Function.update_self]
        exact { h.sincere j with failed := fun hd => absurd hd (by simp [kill])
                                 hungUp := fun _ => .inl rfl }
      · simpa [hj] using h.sincere j
    · by_cases hj : j = i
      · subst hj
        simp at hh
      · simp only [Function.update_of_ne hj] at hst hh ⊢
        exact h.cared j fd hst hh

/-- The runs of sound steps. -/
def SoundlyReaches (addr : ι → InAddr) (files : ℤ → Bool) (world : ι → Client.World)
    (command : ι → ServerCommand) : System ι → Prop :=
  Relation.ReflTransGen (fun x y => ∃ m, Step addr x m y ∧ Sound addr command x m)
    (.start files world command)

theorem minded_of_soundlyReaches (h : SoundlyReaches addr files world command x) :
    Minded addr files command x := by
  induction h with
  | refl =>
    exact { Coherent.start with
      sincere := fun _ => { refused := by simp [System.start], failed := by simp [System.start],
                            hungUp := by simp [System.start] }
      cared := by simp [System.start] }
  | tail _ hs ih =>
    obtain ⟨m, hs, hm⟩ := hs
    exact ih.step hs hm

/-- How a client has come to wait: it holds a connection on which it has read nothing yet. -/
structure InWait (x : System ι) (i : ι) : Prop where
  connected : (x.link i).status ≠ .unconnected
  holds : (x.link i).hungUp = false
  unread : (x.link i).got = 0
  asked : (x.link i).Open → (x.link i).request ≠ []

omit [DecidableEq ι] in
theorem Minded.inWait (hm : Minded addr files command x) {i : ι} (hwait : Waiting x i) :
    InWait x i := by
  obtain ⟨s, fd, len, k, hx, halive, hconn⟩ := hwait
  have hkeeps := hm.client i
  have hw := hm.wired i
  have hsin := hm.sincere i
  rw [hx] at hkeeps hw hsin
  -- any answer will do to read off what the contract of the client says before its `recv`
  have hallowed : clientEnv.recorded.allowed s (.recv fd len) (.error .EBADF) := by
    simp [clientEnv, answers, halive]
  obtain ⟨hcalls, hrec, hcon, htaken, hrefused⟩ := (hkeeps _ hallowed).1
  have hcon := hcon (DescriptorTable.connected_iff.1 hconn).1
  refine { connected := ?_, holds := ?_, unread := hw.got_eq_zero hrec, asked := ?_ }
  · intro hs
    have hnot := hw.unconnected.1 hs
    simp [hcon] at hnot
  · rw [Bool.eq_false_iff]
    intro hh
    rcases hsin.hungUp hh with hd | hp
    · simp [halive] at hd
    · omega
  · intro hopen
    rw [← hw.request]
    by_cases hsends : (command i).Sends
    · exact (htaken hsends).resolve_right fun hf => hsin.failed halive hf hopen
    · exact absurd hopen (hsin.refused hsends (hrefused hsends))

/-- In every state of every run of sound steps, no client is orphaned. -/
theorem not_orphaned (h : SoundlyReaches addr files world command x) (i : ι) : NotOrphaned x i := by
  have hm := minded_of_soundlyReaches h
  have hanswered (hholds : (x.link i).hungUp = false) (fd : ℤ)
      (hs : (x.link i).status = .accepted fd) : ¬ AtHand x.server.1 fd → (x.link i).reply ≠ [] :=
    (hm.cared i fd hs hholds).answered
  have hasked (hwait : Waiting x i) (hn : (x.link i).status ≠ .closed) :
      (x.link i).request ≠ [] :=
    (hm.inWait hwait).asked ⟨(hm.inWait hwait).connected, hn⟩
  refine { hopeful := ?_, answered := hanswered, asked := hasked }
  intro hwait
  obtain ⟨hconn, hholds, hgot, -⟩ := hm.inWait hwait
  cases hs : (x.link i).status with
  | unconnected => exact absurd hs hconn
  | pending => exact .attended (.pending hs) (hasked hwait (by simp [hs]))
  | closed => exact .closed hs
  | accepted fd =>
    by_cases hat : AtHand x.server.1 fd
    · exact .attended (.atHand fd hs hat) (hasked hwait (by simp [hs]))
    · -- the server has turned away, so it has answered
      have hreply := hanswered hholds fd hs hat
      exact .reply (by simpa [Link.toClient, hgot] using hreply)

end Runs

/-- A client without a selection. The server waits for its request, and it waits for a reply. -/
def silentClient : System Unit := exchange ⟨10, 0, 0, 1⟩ .NONE (ascii "?") [] 4

/-- Nothing has been sent and nothing is on its way, on a connection that is open at both ends. -/
theorem silentClient_orphaned :
    Reaches (fun _ => ⟨10, 0, 0, 1⟩) (fun _ => false) (fun _ => .start) (fun _ => .NONE)
        silentClient ∧
      Waiting silentClient () ∧ ¬ Hopeful silentClient () := by
  have hstatus : (silentClient.link ()).status = .accepted 4 := by decide +kernel
  have hrequest : (silentClient.link ()).request = [] := by decide +kernel
  refine ⟨exchange_reaches .., waiting_of_waits (by decide +kernel), fun h => ?_⟩
  cases h with
  | request h _ => exact h (by simp [Link.toServer, hrequest])
  | reply h => exact h (by decide +kernel)
  | attended _ hr => exact hr hrequest
  | closed h => exact absurd (hstatus.symm.trans h) (by simp)

/-- Moves that are sound in every state. -/
def gentle : Move ι → Bool
  | .server _ (.recv ..) _ => false
  | .server _ (.send ..) (.error _) => false
  | .client _ (.stdout _) _ => false
  | .client _ (.send ..) (.error _) => false
  | _ => true

theorem sound_of_gentle {addr : ι → InAddr} {command : ι → ServerCommand} {x : System ι}
    {m : Move ι} (hm : gentle m = true) : Sound addr command x m := by
  unfold Sound
  split
  · exact nomatch hm
  · exact nomatch hm
  · exact nomatch hm
  · exact nomatch hm
  · exact nomatch hm
  · trivial

/-- A client that has sent its request, and whose connection the server has accepted. -/
def requestSent : System Unit :=
  (oneClient .RELOAD_COMMAND).play (fun _ => ⟨10, 0, 0, 1⟩)
    ⟨Server.Script.answer [.ok (⟨10, 0, 0, 1⟩, ascii "RELOAD")], obliging [], gentle⟩ (inTurns 4)

theorem not_orphaned_requestSent : Waiting requestSent () ∧ Hopeful requestSent () := by
  have hwait : Waiting requestSent () := waiting_of_waits (by decide +kernel)
  have hsound : SoundlyReaches (fun _ => ⟨10, 0, 0, 1⟩) (fun _ => false) (fun _ => .start)
      (fun _ => .RELOAD_COMMAND) requestSent :=
    ((oneClient .RELOAD_COMMAND).play_steps _ _ _).lift id fun _ _ ⟨m, hs, hm⟩ =>
      ⟨m, hs, sound_of_gentle hm⟩
  exact ⟨hwait, (not_orphaned hsound ()).hopeful hwait⟩

end KCNet.Network
