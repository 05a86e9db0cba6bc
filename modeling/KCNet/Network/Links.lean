import KCNet.Network.System

/-!
# What the connections carry

The invariant that ties a connection to what its two ends remember: the server has read an initial
part of what the client has sent, and what the client gets is an initial part of the notice or of
its own request.

## Main definitions

- `Wired` — the invariant of one connection
- `Coherent` — the invariant of the whole system
-/

namespace KCNet.Network

open Interaction Client

/-- The operations of the server that leave the connections alone. -/
def Plain : (o : Server.SysOp) → o.Res → Prop
  | .accept _, .ok _ | .recv .., .ok _ | .send .., .ok _ | .close _, _ => False
  | _, _ => True

section Served

variable {ι : Type} [DecidableEq ι] (addr : ι → InAddr) (link : ι → Link) (s : Server.State) (i : ι)

/-- What the server's operations do to the connections, case by case. -/
inductive Served : (o : Server.SysOp) → o.Res → (ι → Link) → Prop where
  | accept (fd c : ℤ) (h : (link i).status = .pending) :
      Served (.accept fd) (.ok (c, addr i))
        (Function.update link i { link i with status := .accepted c })
  | recv (fd : ℤ) (len : ℕ) (b : Bytes) (h : (link i).status = .accepted fd)
      (hb : b <+: (link i).toServer) (hend : b = [] → (link i).hungUp = true) :
      Served (.recv fd len) (.ok b)
        (Function.update link i { link i with read := (link i).read + b.length })
  | send (fd : ℤ) (buf : Bytes) (n : ℕ) (h : (link i).status = .accepted fd) :
      Served (.send fd buf) (.ok n)
        (Function.update link i { link i with reply := (link i).reply ++ buf.take n })
  | close (fd : ℤ) {link' : ι → Link} (h : ∀ j, link' j = (link j).shut ∨
        link' j = link j ∧ (link j).status ≠ .accepted fd) : Served (.close fd) () link'
  | plain {o : Server.SysOp} {r : o.Res} (h : Plain o r) : Served o r link

variable {addr link s i}

theorem served_of_serve {o : Server.SysOp} {r : o.Res} {link' : ι → Link}
    (h : serve addr link s i o r = some link') : Served addr link i o r link' := by
  cases o with
  | accept fd =>
    cases r with
    | error e =>
      obtain rfl : link = link' := Option.some.inj h
      exact .plain trivial
    | ok x =>
      simp only [serve, Option.ite_none_right_eq_some, Option.some.injEq] at h
      obtain ⟨⟨hs, ha⟩, rfl⟩ := h
      obtain ⟨c, peer⟩ := x
      obtain rfl : addr i = peer := ha
      exact .accept fd c hs
  | recv fd len =>
    cases r with
    | error e =>
      obtain rfl : link = link' := Option.some.inj h
      exact .plain trivial
    | ok b =>
      simp only [serve, Option.ite_none_right_eq_some, Option.some.injEq] at h
      obtain ⟨⟨hs, hb, he⟩, rfl⟩ := h
      exact .recv fd len b hs hb fun hn => (he hn).1
  | send fd buf =>
    cases r with
    | error e =>
      obtain rfl : link = link' := Option.some.inj h
      exact .plain trivial
    | ok n =>
      simp only [serve, Option.ite_none_right_eq_some, Option.some.injEq] at h
      obtain ⟨hs, rfl⟩ := h
      exact .send fd buf n hs
  | close fd =>
    obtain rfl := Option.some.inj h
    refine .close fd ?_
    intro j
    by_cases hc : (link j).status = .accepted fd ∨
        (link j).status = .pending ∧ s.world.descriptors fd = some .listener
    · exact .inl (if_pos hc)
    · exact .inr ⟨if_neg hc, fun hs => hc (.inl hs)⟩
  | _ =>
    obtain rfl : link = link' := Option.some.inj h
    exact .plain trivial

end Served

/-- What a client's operations do to its connection, case by case. -/
inductive Asks (l : Link) (s : Client.State) : (o : Client.SysOp) → o.Res → Link → Prop where
  | connect (fd : ℤ) (port : ℕ) (h : l.status = .unconnected) :
      Asks l s (.connect fd port) (.ok ()) { l with status := .pending }
  | send (fd : ℤ) (buf : Bytes) (n : ℕ) :
      Asks l s (.send fd buf) (.ok n) { l with request := l.request ++ buf.take n }
  | broken (fd : ℤ) (buf : Bytes) :
      Asks l s (.send fd buf) (.error .EPIPE) { l with hungUp := true }
  | recv (fd : ℤ) (len : ℕ) (b : Bytes) (hb : b <+: l.toClient) :
      Asks l s (.recv fd len) (.ok b) { l with got := l.got + b.length }
  | close (fd : ℤ) (h : l.status ≠ .unconnected) : Asks l s (.close fd) () { l with hungUp := true }
  | plain {o : Client.SysOp} {r : o.Res} (hc : ¬ Connects o r)
      (ht : ∀ h, taken (⟨o, r⟩ :: h) = taken h) (hr : ∀ h, received (⟨o, r⟩ :: h) = received h) :
      Asks l s o r l

theorem Asks.status {l l' : Link} {s : Client.State} {o : Client.SysOp} {r : o.Res} {fd : ℤ}
    (h : Asks l s o r l') (hs : l'.status = .accepted fd) : l.status = .accepted fd := by
  cases h with
  | connect => exact nomatch hs
  | _ => exact hs

theorem asks_of_ask {l l' : Link} {s : Client.State} {o : Client.SysOp} {r : o.Res}
    (h : ask l s o r = some l') : Asks l s o r l' := by
  cases o with
  | connect fd port =>
    cases r with
    | error e =>
      obtain rfl : l = l' := Option.some.inj h
      exact .plain id (fun _ => rfl) fun _ => rfl
    | ok u =>
      simp only [ask, Option.ite_none_right_eq_some, Option.some.injEq] at h
      obtain ⟨hs, rfl⟩ := h
      exact .connect fd port hs
  | send fd buf =>
    cases r with
    | error e =>
      cases e with
      | EPIPE =>
        obtain rfl := Option.some.inj h
        exact .broken fd buf
      | _ =>
        obtain rfl : l = l' := Option.some.inj h
        exact .plain id (fun _ => rfl) fun _ => rfl
    | ok n =>
      obtain rfl := Option.some.inj h
      exact .send fd buf n
  | recv fd len =>
    cases r with
    | error e =>
      obtain rfl : l = l' := Option.some.inj h
      exact .plain id (fun _ => rfl) fun _ => rfl
    | ok b =>
      simp only [ask, Option.ite_none_right_eq_some, Option.some.injEq] at h
      obtain ⟨⟨hb, -⟩, rfl⟩ := h
      exact .recv fd len b hb
  | close fd =>
    obtain rfl := Option.some.inj h
    split
    · next hc => exact .close fd hc.1
    · exact .plain id (fun _ => rfl) fun _ => rfl
  | _ =>
    obtain rfl : l = l' := Option.some.inj h
    exact .plain id (fun _ => rfl) fun _ => rfl

/-! ## One connection -/

/-- What the server remembers of the connection that it has accepted as `fd`. -/
structure Accepted (s : Server.State) (a : InAddr) (l : Link) (fd : ℤ) : Prop where
  opened : s.world.descriptors fd ≠ none
  peer : Server.acceptedFrom fd s.history = some a
  sent : Server.sentOn fd s.history = l.reply
  fresh : ∀ a', Server.phase s.history = .accepted fd a' → l.read = 0
  current : ∀ p, Server.phase s.history = .requested fd p → p = l.request.take l.read

/-- What holds of a connection between the server in state `s` and a client with history `h`. -/
structure Wired (s : Server.State) (h : List Client.Happening) (a : InAddr)
    (c : ServerCommand) (l : Link) : Prop where
  request : taken h = l.request
  asked : l.request = [] ∨ ∃ buf, Request c buf ∧ l.request <+: buf
  read_le : l.read ≤ l.request.length
  received : Client.received h = l.reply.take l.got
  got_le : l.got ≤ l.reply.length
  unconnected : l.status = .unconnected ↔ hasConnected h = false
  early : l.status = .unconnected ∨ l.status = .pending → l.read = 0 ∧ l.reply = []
  notice : Server.Banned a → l.reply <+: Server.TcpServer.bannedMessage
  echo : ¬ Server.Banned a → l.reply <+: l.request.take l.read
  accepted : ∀ fd, l.status = .accepted fd → Accepted s a l fd

variable {s : Server.State} {h : List Client.Happening} {a : InAddr} {c : ServerCommand} {l : Link}
  {fd : ℤ}

theorem Accepted.plain {o : Server.SysOp} {r : o.Res} (ha : Accepted s a l fd) (hp : Plain o r) :
    Accepted (s.after o r) a l fd := by
  cases o with
  | accept =>
    cases r with
    | ok => exact hp.elim
    | error => exact { ha with fresh := by simp, current := by simp }
  | recv =>
    cases r with
    | ok => exact hp.elim
    | error => exact { ha with fresh := by simp, current := by simp }
  | loadQuit => exact { ha with fresh := by simp, current := by simp }
  | send =>
    cases r with
    | ok => exact hp.elim
    | error e => cases e <;> exact { ha with }
  | close => exact hp.elim
  | socket =>
    cases r with
    | error => exact { ha with }
    | ok c =>
      refine { ha with opened := ?_ }
      by_cases he : fd = c
      · simp [he]
      · simpa [DescriptorTable.set_of_ne _ _ he] using ha.opened
  | listen c =>
    cases r with
    | error => exact { ha with }
    | ok =>
      refine { ha with opened := ?_ }
      by_cases he : fd = c
      · simp [he]
      · simpa [DescriptorTable.set_of_ne _ _ he] using ha.opened
  | _ => exact { ha with }

/-- An operation on another connection. -/
theorem Accepted.other {o : Server.SysOp} {r : o.Res} (ha : Accepted s a l fd)
    (ho : (s.after o r).world.descriptors fd = s.world.descriptors fd)
    (hp : Server.acceptedFrom fd (s.after o r).history = Server.acceptedFrom fd s.history)
    (hs : Server.sentOn fd (s.after o r).history = Server.sentOn fd s.history)
    (hf : ∀ a', Server.phase (s.after o r).history = .accepted fd a' →
      Server.phase s.history = .accepted fd a')
    (hc : ∀ p, Server.phase (s.after o r).history = .requested fd p →
      Server.phase s.history = .requested fd p) : Accepted (s.after o r) a l fd where
  opened := by rw [ho]; exact ha.opened
  peer := hp.trans ha.peer
  sent := hs.trans ha.sent
  fresh := fun a' h => ha.fresh a' (hf a' h)
  current := fun p h => ha.current p (hc p h)

theorem Link.shut_status (l : Link) (fd : ℤ) : l.shut.status ≠ .accepted fd := by
  unfold Link.shut
  split
  · next h => simp [h]
  · simp

theorem Wired.shut (hw : Wired s h a c l) (s' : Server.State) : Wired s' h a c l.shut := by
  unfold Link.shut
  split
  · next hs => exact { hw with accepted := fun fd h => by rw [hs] at h; exact nomatch h }
  · next hs =>
    exact { hw with
      unconnected := iff_of_false (by simp) fun hf => hs (hw.unconnected.2 hf)
      early := by simp
      accepted := fun fd h => nomatch h }

/-- While a message is being answered, a banned peer has been seen if the sender is one. -/
theorem bannedSeen_of_phase {h : List Server.Happening} {p : Bytes}
    (hp : Server.phase h = .requested fd p) (hne : p ≠ [])
    (ha : Server.acceptedFrom fd h = some a) (hb : Server.Banned a) : Server.bannedSeen h := by
  induction h with
  | nil => exact nomatch hp
  | cons e h ih =>
    obtain ⟨o, r⟩ := e
    cases o with
    | accept => cases r <;> exact nomatch hp
    | recv fd' len =>
      cases r with
      | error => exact nomatch hp
      | ok b =>
        obtain ⟨rfl, rfl⟩ := Server.Phase.requested.inj hp
        exact .inl ⟨hne, a, ha, hb⟩
    | loadQuit => exact nomatch hp
    | socket | bind | listen => cases r <;> exact ih hp ha
    | send => cases r <;> exact ih hp ha
    | _ => exact ih hp ha

/-- What the server owes on a connection is the notice or the echo of what it has read. -/
theorem Accepted.owes {p data : Bytes} (ha : Accepted s a l fd)
    (hp : Server.phase s.history = .requested fd p) (hne : p ≠ [])
    (ho : Server.Owes s.history fd p data) :
    (Server.Banned a → data = Server.TcpServer.bannedMessage) ∧
      (¬ Server.Banned a → data = l.request.take l.read) := by
  obtain ⟨a', ha', ho⟩ := ho
  obtain rfl := Option.some.inj (ha.peer.symm.trans ha')
  rcases ho with ⟨hb, rfl⟩ | ⟨hseen, rfl⟩
  · exact ⟨fun _ => rfl, fun hn => absurd hb hn⟩
  · -- an echo is owed only while no banned peer has been seen, so the sender is not one
    exact ⟨fun hb => absurd (bannedSeen_of_phase hp hne ha' hb) hseen, fun _ => ha.current _ hp⟩

/-- A pending connection is accepted as a descriptor that was not in use. -/
theorem Wired.accept (hw : Wired s h a c l) (hs : l.status = .pending) (lfd fd : ℤ) :
    Wired (s.after (.accept lfd) (.ok (fd, a))) h a c { l with status := .accepted fd } := by
  obtain ⟨hread, hreply⟩ := hw.early (.inr hs)
  refine { hw with unconnected := ?_, early := by simp, accepted := fun fd' he => ?_ }
  · have hne : l.status ≠ .unconnected := by simp [hs]
    exact iff_of_false (by simp) fun hf => hne (hw.unconnected.2 hf)
  · obtain rfl := Status.accepted.inj he
    exact { opened := by simp
            peer := by simp
            sent := by simp [hreply]
            fresh := fun _ _ => hread
            current := by simp }

/-- A new connection gets a descriptor of its own. -/
theorem Accepted.ne_new (ha : Accepted s a l fd) {lfd fd' : ℤ} {peer : InAddr}
    (hr : Server.serverEnv.allowed s.world (.accept lfd) (.ok (fd', peer)) = true) : fd' ≠ fd := by
  rintro rfl
  simp only [Server.serverEnv, Server.answers, Bool.and_eq_true, DescriptorTable.unused_iff] at hr
  exact ha.opened hr.2.2.2

theorem Accepted.accept_other (ha : Accepted s a l fd) {fd' : ℤ} (hne : fd' ≠ fd) (lfd : ℤ)
    (peer : InAddr) : Accepted (s.after (.accept lfd) (.ok (fd', peer))) a l fd :=
  ha.other (by simp [DescriptorTable.set_of_ne _ _ hne.symm]) (by simp [hne]) (by simp [hne])
    (by simp [hne]) (by simp)

/-- The server reads from a connection once, from its beginning. -/
theorem Wired.recv (hw : Wired s h a c l) (hs : l.status = .accepted fd) {len : ℕ} {b : Bytes}
    (hb : b <+: l.toServer) (hc : Server.Contract s (.recv fd len) (.ok b))
    (hconn : s.world.descriptors.connected fd = true) :
    Wired (s.after (.recv fd len) (.ok b)) h a c { l with read := l.read + b.length } := by
  have ha := hw.accepted fd hs
  obtain ⟨a', hfd⟩ := hc.2.connected hconn
  -- the connection has just been accepted, so nothing has been read from it or sent on it
  have hread : l.read = 0 := ha.fresh a' hfd.accepted
  have hreply : l.reply = [] := ha.sent.symm.trans hfd.quiet
  have hb : b <+: l.request := by simpa [Link.toServer, hread] using hb
  refine { hw with read_le := ?_, early := fun he => ?_, notice := ?_, echo := ?_, accepted := ?_ }
  · simpa [hread] using hb.length_le
  · exact absurd he (by simp [hs])
  · exact fun _ => by simp [hreply]
  · exact fun _ => by simp [hreply]
  · intro fd' he
    obtain rfl := Status.accepted.inj (hs.symm.trans he)
    refine { ha with fresh := by simp, current := fun p hp => ?_ }
    obtain ⟨-, rfl⟩ := Server.Phase.requested.inj hp
    simpa [hread] using List.prefix_iff_eq_take.1 hb

theorem Accepted.recv_other (ha : Accepted s a l fd) {fd' : ℤ} (hne : fd' ≠ fd) (len : ℕ)
    (b : Bytes) : Accepted (s.after (.recv fd' len) (.ok b)) a l fd :=
  ha.other rfl rfl rfl (by simp) (by simp [hne])

/-- What the server adds to a reply is a part of what it owes. -/
theorem Wired.send (hw : Wired s h a c l) (hs : l.status = .accepted fd) {buf : Bytes} {n : ℕ}
    (hc : Server.Contract s (.send fd buf) (.ok n)) :
    Wired (s.after (.send fd buf) (.ok n)) h a c { l with reply := l.reply ++ buf.take n } := by
  have ha := hw.accepted fd hs
  obtain ⟨p, data, hp, hne, ho, hdata⟩ := hc
  obtain ⟨hnotice, hecho⟩ := ha.owes hp hne ho
  have hpre : l.reply ++ buf.take n <+: data := by
    rw [← hdata, ha.sent]
    exact (List.prefix_append_right_inj _).2 (List.take_prefix _ _)
  refine { hw with
    received := ?_
    got_le := hw.got_le.trans (by simp)
    early := fun he => absurd he (by simp [hs])
    notice := fun hb => hnotice hb ▸ hpre
    echo := fun hb => hecho hb ▸ hpre
    accepted := fun fd' he => ?_ }
  · rw [List.take_append_of_le_length hw.got_le]
    exact hw.received
  · obtain rfl := Status.accepted.inj (hs.symm.trans he)
    exact { ha with sent := by simp [ha.sent] }

theorem Accepted.send_other (ha : Accepted s a l fd) {fd' : ℤ} (hne : fd' ≠ fd) (buf : Bytes)
    (n : ℕ) : Accepted (s.after (.send fd' buf) (.ok n)) a l fd :=
  ha.other rfl rfl (by simp [hne]) (by simp) (by simp)

theorem Accepted.close_other (ha : Accepted s a l fd) {fd' : ℤ} (hne : fd ≠ fd') :
    Accepted (s.after (.close fd') ()) a l fd :=
  ha.other (by simp [DescriptorTable.set_of_ne _ _ hne]) rfl rfl (by simp) (by simp)

/-! ## The operations of a client -/

variable {cs : Client.State}

/-- Where the client only adds to what it has sent, the server's memory stays true. -/
theorem Accepted.append (ha : Accepted s a l fd) (hr : l.read ≤ l.request.length) (more : Bytes) :
    Accepted s a { l with request := l.request ++ more } fd := by
  refine { ha with current := fun p hp => ?_ }
  rw [List.take_append_of_le_length hr]
  exact ha.current p hp

theorem Wired.got_eq_zero (hw : Wired s h a c l) (hr : Client.received h = []) : l.got = 0 := by
  have hlen := congrArg List.length (hw.received.symm.trans hr)
  have hle := hw.got_le
  simp only [List.length_take, List.length_nil] at hlen
  omega

/-- The client's end of its connection, after any of its operations. -/
theorem Wired.asks (hw : Wired s cs.history a c l) {o : Client.SysOp} {r : o.Res} {l' : Link}
    (hl : Asks l cs o r l') (hc : Client.Contract c cs o r) :
    Wired s (⟨o, r⟩ :: cs.history) a c l' := by
  cases hl with
  | connect fd port hs =>
    exact { hw with
      unconnected := iff_of_false (by simp) (by simp)
      early := fun _ => hw.early (.inl hs)
      accepted := by simp }
  | send fd buf n =>
    obtain ⟨ht, -, hreq⟩ := hc
    have hnil : l.request = [] := hw.request.symm.trans ht
    refine { hw with
      request := ?_
      asked := .inr ⟨buf, hreq, ?_⟩
      read_le := ?_
      echo := ?_
      accepted := ?_ }
    · rw [taken, hw.request]
    · simpa [hnil] using List.take_prefix n buf
    · exact hw.read_le.trans (by simp)
    · intro hb
      rw [List.take_append_of_le_length hw.read_le]
      exact hw.echo hb
    · exact fun fd' hs => (hw.accepted fd' hs).append hw.read_le _
  | broken fd buf => exact { hw with accepted := fun fd' hs => { hw.accepted fd' hs with } }
  | recv fd len b hb =>
    obtain ⟨-, hrec, -⟩ := hc
    have hgot := hw.got_eq_zero hrec
    have hb : b <+: l.reply := by simpa [Link.toClient, hgot] using hb
    refine { hw with
      received := ?_
      got_le := by simpa [hgot] using hb.length_le
      accepted := fun fd' hs => { hw.accepted fd' hs with } }
    rw [Client.received, hrec, hgot, List.nil_append, Nat.zero_add]
    exact List.prefix_iff_eq_take.1 hb
  | close fd hs => exact { hw with accepted := fun fd' hs => { hw.accepted fd' hs with } }
  | plain hcon ht hr =>
    refine { hw with
      request := (ht _).trans hw.request
      received := (hr _).trans hw.received
      unconnected := ?_ }
    rw [hw.unconnected]
    cases o with
    | connect =>
      cases r with
      | error => rfl
      | ok => exact absurd trivial hcon
    | _ => rfl

/-- A client that has ended does nothing more. -/
theorem ensures_kill {command : ServerCommand} {c : ClientConfig}
    (h : c.2.Ensures clientEnv.recorded (Client.Contract command) Judged c.1) :
    (kill c).2.Ensures clientEnv.recorded (Client.Contract command) Judged (kill c).1 := by
  obtain ⟨s, p⟩ := c
  cases p with
  | done r => exact h
  | call o k => exact fun r hr => absurd hr (by simp [kill, clientEnv])

/-! ## The whole system -/

section Coherent

variable {ι : Type} [DecidableEq ι] {addr : ι → InAddr} {files : ℤ → Bool}
  {world : ι → Client.World} {command : ι → ServerCommand} {x y : System ι} {m : Move ι}

/-- No descriptor of the server stands for two connections. -/
def Distinct (link : ι → Link) : Prop :=
  ∀ i j fd, (link i).status = .accepted fd → (link j).status = .accepted fd → i = j

/-- What holds in every state that the system gets into. -/
structure Coherent (addr : ι → InAddr) (files : ℤ → Bool) (command : ι → ServerCommand)
    (x : System ι) : Prop where
  server : Server.Reaches files x.server.1 x.server.2
  client : ∀ i, (x.client i).2.Ensures clientEnv.recorded (Client.Contract (command i)) Judged
    (x.client i).1
  wired : ∀ i, Wired x.server.1 (x.client i).1.history (addr i) (command i) (x.link i)
  distinct : Distinct x.link

omit [DecidableEq ι] in
theorem Coherent.start : Coherent addr files command (.start files world command) where
  server := .start files
  client _ :=
    connectToServer_contract { connected := rfl, taken := rfl, failures := rfl, calls := rfl,
                               received := rfl, printed := rfl }
  wired _ :=
    { request := rfl
      asked := .inl rfl
      read_le := le_rfl
      received := rfl
      got_le := le_rfl
      unconnected := iff_of_true rfl rfl
      early := fun _ => ⟨rfl, rfl⟩
      notice := fun _ => List.nil_prefix
      echo := fun _ => List.nil_prefix
      accepted := fun _ h => nomatch h }
  distinct := fun _ _ _ h => nomatch h

variable {link link' : ι → Link} {s : Server.State} {hist : ι → List Client.Happening}

omit [DecidableEq ι] in
theorem Distinct.mono (hd : Distinct link)
    (h : ∀ j fd, (link' j).status = .accepted fd → (link j).status = .accepted fd) :
    Distinct link' := fun i j fd hi hj => hd i j fd (h i fd hi) (h j fd hj)

theorem Distinct.update (hd : Distinct link) {i : ι} {l : Link}
    (hl : ∀ fd, l.status = .accepted fd → (link i).status = .accepted fd) :
    Distinct (Function.update link i l) := by
  apply hd.mono
  intro j fd hj
  by_cases hne : j = i
  · subst hne
    rw [Function.update_self] at hj
    exact hl fd hj
  · rwa [Function.update_of_ne hne] at hj

/-- Each connection that the operation does not concern is left as it is. -/
theorem wired_served {i : ι} {o : Server.SysOp} {r : o.Res} (hl : Served addr link i o r link')
    (ha : Server.serverEnv.allowed s.world o r = true) (hc : Server.Contract s o r)
    (hw : ∀ j, Wired s (hist j) (addr j) (command j) (link j)) (hd : Distinct link) (j : ι) :
    Wired (s.after o r) (hist j) (addr j) (command j) (link' j) := by
  -- the descriptor of the connection concerned is not that of any other
  have hother {fd : ℤ} (hi : (link i).status = .accepted fd) (hj : j ≠ i) {fd' : ℤ}
      (hs : (link j).status = .accepted fd') : fd ≠ fd' := fun he => hj (hd j i fd' hs (he ▸ hi))
  cases hl with
  | accept fd c hs =>
    by_cases hj : j = i
    · subst hj
      rw [Function.update_self]
      exact (hw j).accept hs fd c
    · rw [Function.update_of_ne hj]
      exact { hw j with accepted := fun fd' hs' =>
        ((hw j).accepted fd' hs').accept_other (((hw j).accepted fd' hs').ne_new ha) fd _ }
  | recv fd len b hs hb =>
    have hconn : s.world.descriptors.connected fd = true := by
      simp only [Server.serverEnv, Server.answers, Bool.and_eq_true] at ha
      exact ha.2.1
    by_cases hj : j = i
    · subst hj
      rw [Function.update_self]
      exact (hw j).recv hs hb hc hconn
    · rw [Function.update_of_ne hj]
      exact { hw j with accepted := fun fd' hs' =>
        ((hw j).accepted fd' hs').recv_other (hother hs hj hs') len b }
  | send fd buf n hs =>
    by_cases hj : j = i
    · subst hj
      rw [Function.update_self]
      exact (hw j).send hs hc
    · rw [Function.update_of_ne hj]
      exact { hw j with accepted := fun fd' hs' =>
        ((hw j).accepted fd' hs').send_other (hother hs hj hs') buf n }
  | close fd h =>
    rcases h j with hj | ⟨hj, hne⟩
    · rw [hj]
      exact (hw j).shut _
    · rw [hj]
      exact { hw j with accepted := fun fd' hs' =>
        ((hw j).accepted fd' hs').close_other fun he => hne (he ▸ hs') }
  | plain hp => exact { hw j with accepted := fun fd hs => ((hw j).accepted fd hs).plain hp }

theorem distinct_served {i : ι} {o : Server.SysOp} {r : o.Res} (hl : Served addr link i o r link')
    (ha : Server.serverEnv.allowed s.world o r = true)
    (hw : ∀ j, Wired s (hist j) (addr j) (command j) (link j)) (hd : Distinct link) :
    Distinct link' := by
  cases hl with
  | accept fd c hs =>
    -- the kernel hands out no descriptor that is open
    have hnew (j : ι) : (link j).status ≠ .accepted c := fun hj =>
      ((hw j).accepted c hj).ne_new ha rfl
    intro j j' fd' hj hj'
    rw [Function.update_apply] at hj hj'
    split at hj
    · split at hj'
      · simp_all
      · obtain rfl := Status.accepted.inj hj
        exact absurd hj' (hnew j')
    · split at hj'
      · obtain rfl := Status.accepted.inj hj'
        exact absurd hj (hnew j)
      · exact hd j j' fd' hj hj'
  | recv fd len b hs hb => exact hd.update fun _ => id
  | send fd buf n hs => exact hd.update fun _ => id
  | close fd h =>
    apply hd.mono
    intro j fd' hj
    rcases h j with he | ⟨he, -⟩
    · exact absurd (he ▸ hj) (Link.shut_status _ _)
    · exact he ▸ hj
  | plain hp => exact hd

omit [DecidableEq ι] in
theorem wired_settle {c : ServerConfig} (hist : ι → List Client.Happening) {j : ι}
    (hw : Wired c.1 (hist j) (addr j) (command j) (link j)) :
    Wired c.1 (hist j) (addr j) (command j) (settle c link j) := by
  unfold settle
  split
  · exact hw.shut c.1
  · exact hw

omit [DecidableEq ι] in
theorem distinct_settle {c : ServerConfig} (hd : Distinct link) : Distinct (settle c link) := by
  unfold settle
  split
  · exact fun j j' fd h => absurd h (Link.shut_status _ _)
  · exact hd

/-- Every step, of whichever party, keeps the system coherent. -/
theorem Coherent.step (h : Coherent addr files command x) (hs : Step addr x m y) :
    Coherent addr files command y := by
  cases hs with
  | @server s o k i r link' hx ha hl =>
    have hreach : Server.Reaches files s (.call o k) := by simpa [hx] using h.server
    obtain ⟨hc, -⟩ := Server.contract_of_reaches hreach r ha
    have hserved := served_of_serve hl
    have hw (j : ι) : Wired s (x.client j).1.history (addr j) (command j) (x.link j) := by
      simpa [hx] using h.wired j
    exact { server := hreach.tail (.call s o k r ha)
            client := h.client
            wired := fun j => wired_settle (fun j => (x.client j).1.history)
              (wired_served hserved ha hc hw h.distinct j)
            distinct := distinct_settle (distinct_served hserved ha hw h.distinct) }
  | @again s hx =>
    have hreach : Server.Reaches files s (.done .again) := by simpa [hx] using h.server
    exact { server := hreach.tail (.again s)
            client := h.client
            wired := fun j => by simpa [hx] using h.wired j
            distinct := h.distinct }
  | @client s o k i r l hx ha hcon hl =>
    have hkeeps := h.client i
    rw [hx] at hkeeps
    obtain ⟨hc, hrest⟩ := hkeeps r ha
    have hw : Wired x.server.1 s.history (addr i) (command i) (x.link i) := by
      simpa [hx] using h.wired i
    refine { server := h.server, client := fun j => ?_, wired := fun j => ?_, distinct := ?_ }
    · by_cases hj : j = i
      · subst hj
        simp only [Function.update_self]
        exact hrest
      · simpa [hj] using h.client j
    · by_cases hj : j = i
      · subst hj
        simpa using hw.asks (asks_of_ask hl) hc
      · simpa [hj] using h.wired j
    · exact h.distinct.update fun _ => (asks_of_ask hl).status
  | quit i =>
    refine { server := h.server, client := fun j => ?_, wired := fun j => ?_, distinct := ?_ }
    · by_cases hj : j = i
      · subst hj
        simpa using ensures_kill (h.client j)
      · simpa [hj] using h.client j
    · by_cases hj : j = i
      · subst hj
        have hw := h.wired j
        simp only [Function.update_self]
        exact { hw with accepted := fun fd hs => { hw.accepted fd hs with } }
      · simpa [hj] using h.wired j
    · exact h.distinct.update fun _ => id

theorem coherent_of_reaches (h : Reaches addr files world command x) :
    Coherent addr files command x := by
  induction h with
  | refl => exact .start
  | tail _ hs ih =>
    obtain ⟨m, hs⟩ := hs
    exact ih.step hs

end Coherent

end KCNet.Network
