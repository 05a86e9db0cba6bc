import KCNet.Network.Links
import KCNet.Network.Schedule
import KCNet.Server.Service

/-!
# The clients see one service

However the steps of the parties are interleaved, the clients are served as if the service took
their requests one after the other, each of them at once. The order in which it does only grows at
its end, so it respects the order in which the calls have been made.

## Main definitions

- `System.message` — the request of a client, as far as the server has read it
- `Linearizes` — the service explains what the clients get, in a given order of their requests
- `Ordered` — the invariant that ties the order to the history of the server
-/

namespace KCNet.Network

open Interaction Client

/-- The request that a connection has carried, and what has been sent back. -/
def Link.carried (l : Link) (a : InAddr) : Server.Request × Bytes :=
  (⟨a, l.request.take l.read⟩, l.reply)

/-- The same, as the history of the server has it. -/
def carriedBy (e : Server.Exchange) : Server.Request × Bytes := (e.toRequest, e.sent)

/-- The request of a client, as far as the server has read it. -/
def System.message {ι : Type} (addr : ι → InAddr) (x : System ι) (i : ι) : Server.Request :=
  ((x.link i).carried (addr i)).1

/-- What the clients in `order` get, the latest first, is the beginning of what the service answers
to their requests in this order. Nobody else gets anything. -/
structure Linearizes {ι : Type} (addr : ι → InAddr) (x : System ι) (order : List ι) : Prop where
  once : order.Nodup
  connected : ∀ i ∈ order, hasConnected (x.client i).1.history = true
  replies : List.Forall₂ (fun i out => (x.link i).reply <+: out.reply) order
    (Server.echoService.outputs (order.map (x.message addr)))
  complete : ∀ i, (x.link i).reply ≠ [] → i ∈ order
  received : ∀ i, x.readBy i <+: (x.link i).reply

/-- The clients in `order` are those of which the server has read anything, the latest first. -/
structure Ordered {ι : Type} (addr : ι → InAddr) (link : ι → Link) (h : List Server.Happening)
    (order : List ι) : Prop where
  once : order.Nodup
  agrees : order.map (fun i => (link i).carried (addr i)) = (Server.exchanges h).map carriedBy
  mem_iff : ∀ i, i ∈ order ↔ (link i).read ≠ 0
  silent : ∀ i, (link i).read = 0 → (link i).reply = []
  latest : ∀ fd p, Server.phase h = .requested fd p → p ≠ [] → ∃ i rest, order = i :: rest ∧
    ∀ j, (link j).status = .accepted fd → j = i

/-- A connection on which the server has neither read nor written. -/
structure Spared (l l' : Link) : Prop where
  request : l'.request.take l'.read = l.request.take l.read
  read : l'.read = l.read
  reply : l'.reply = l.reply

theorem Spared.refl (l : Link) : Spared l l := ⟨rfl, rfl, rfl⟩

theorem Spared.carried {l l' : Link} (h : Spared l l') (a : InAddr) :
    l'.carried a = l.carried a := by
  rw [Link.carried, Link.carried, h.request, h.reply]

theorem Link.shut_spared (l : Link) : Spared l l.shut := by
  unfold Link.shut
  split
  · exact .refl l
  · exact ⟨rfl, rfl, rfl⟩

variable {ι : Type} {addr : ι → InAddr} {link link' : ι → Link} {h h' : List Server.Happening}
  {order : List ι}

theorem settle_spared (c : ServerConfig) (link : ι → Link) (j : ι) :
    Spared (link j) (settle c link j) := by
  unfold settle
  split
  · exact (link j).shut_spared
  · exact .refl _

theorem settle_status {c : ServerConfig} {j : ι} {fd : ℤ}
    (hs : (settle c link j).status = .accepted fd) : (link j).status = .accepted fd := by
  unfold settle at hs
  split at hs
  · exact absurd hs (Link.shut_status _ _)
  · exact hs

/-- The order stays as it is while the server neither reads nor writes. -/
theorem Ordered.congr (ho : Ordered addr link h order) (hl : ∀ j, Spared (link j) (link' j))
    (hx : (Server.exchanges h').map carriedBy = (Server.exchanges h).map carriedBy)
    (hlatest : ∀ fd p, Server.phase h' = .requested fd p → p ≠ [] →
      Server.phase h = .requested fd p ∧
        ∀ j, (link' j).status = .accepted fd → (link j).status = .accepted fd) :
    Ordered addr link' h' order where
  once := ho.once
  agrees := by
    rw [hx, ← ho.agrees]
    exact List.map_congr_left fun i _ => (hl i).carried (addr i)
  mem_iff := fun i => by rw [(hl i).read, ho.mem_iff]
  silent := fun i hi => by
    rw [(hl i).read] at hi
    rw [(hl i).reply, ho.silent i hi]
  latest := fun fd p hp hne => by
    obtain ⟨hp, hs⟩ := hlatest fd p hp hne
    obtain ⟨i, rest, heq, hi⟩ := ho.latest fd p hp hne
    exact ⟨i, rest, heq, fun j hj => hi j (hs j hj)⟩

/-! ## The steps of the server -/

/-- An operation of the server that leaves the connections alone. -/
theorem Ordered.plain (ho : Ordered addr link h order) {o : Server.SysOp} {r : o.Res}
    (hp : Plain o r) : Ordered addr link (⟨o, r⟩ :: h) order := by
  have hsame (hx : (Server.exchanges (⟨o, r⟩ :: h)).map carriedBy =
      (Server.exchanges h).map carriedBy) (hphase : Server.phase (⟨o, r⟩ :: h) = .idle ∨
        Server.phase (⟨o, r⟩ :: h) = Server.phase h) : Ordered addr link (⟨o, r⟩ :: h) order := by
    refine ho.congr (fun j => .refl _) hx fun fd p hph _ => ?_
    rcases hphase with hidle | hsame
    · cases hidle.symm.trans hph
    · exact ⟨hsame.symm.trans hph, fun j => id⟩
  cases o with
  | accept fd =>
    cases r with
    | ok => exact hp.elim
    | error e => exact hsame rfl (.inl rfl)
  | recv fd len =>
    cases r with
    | ok => exact hp.elim
    | error e => exact hsame rfl (.inl rfl)
  | send fd buf =>
    cases r with
    | ok => exact hp.elim
    | error e =>
      refine hsame ?_ (.inr rfl)
      cases hx : Server.exchanges h <;> simp [hx, carriedBy]
  | loadQuit => exact hsame rfl (.inl rfl)
  | close fd => exact hp.elim
  | _ => exact hsame rfl (.inr rfl)

section Served

variable [DecidableEq ι] {hist : ι → List Client.Happening} {command : ι → ServerCommand}
  {s : Server.State} {i : ι} {fd : ℤ}

theorem map_carried_update {l : Link} {is : List ι} (hi : i ∉ is) :
    is.map (fun j => (Function.update link i l j).carried (addr j)) =
      is.map fun j => (link j).carried (addr j) := by
  apply List.map_congr_left
  intro j hj
  rw [Function.update_of_ne fun (he : j = i) => hi (he ▸ hj)]

/-- A client whose request is read is the next one. -/
theorem Ordered.recv (ho : Ordered addr link s.history order)
    (hw : ∀ j, Wired s (hist j) (addr j) (command j) (link j)) (hd : Distinct link)
    (hs : (link i).status = .accepted fd) {len : ℕ} {b : Bytes} (hne : b ≠ [])
    (hb : b <+: (link i).toServer) (hc : Server.Contract s (.recv fd len) (.ok b))
    (hconn : s.world.descriptors.connected fd = true) :
    Ordered addr (Function.update link i { link i with read := (link i).read + b.length })
      (⟨.recv fd len, .ok b⟩ :: s.history) (i :: order) := by
  have ha := (hw i).accepted fd hs
  obtain ⟨a, hfd⟩ := hc.2.connected hconn
  -- the connection has just been accepted, so nothing has been read from it or sent on it
  have hread : (link i).read = 0 := ha.fresh a hfd.accepted
  have hreply : (link i).reply = [] := ho.silent i hread
  have hi : i ∉ order := fun hi => (ho.mem_iff i).1 hi hread
  have hb : b <+: (link i).request := by simpa [Link.toServer, hread] using hb
  refine { once := List.nodup_cons.2 ⟨hi, ho.once⟩, agrees := ?_, mem_iff := fun j => ?_,
           silent := fun j hj => ?_, latest := fun fd' p hp _ => ?_ }
  · rw [List.map_cons, map_carried_update hi, ho.agrees, Function.update_self, Server.exchanges,
      if_neg hne, ha.peer, List.map_cons]
    simp [Link.carried, carriedBy, hread, hreply, ← List.prefix_iff_eq_take.1 hb]
  · by_cases hj : j = i
    · subst hj
      simp [hread, hne]
    · simp [hj, ho.mem_iff]
  · by_cases hji : j = i
    · subst hji
      simpa using hreply
    · rw [Function.update_of_ne hji] at hj ⊢
      exact ho.silent j hj
  · obtain ⟨rfl, -⟩ := Server.Phase.requested.inj hp
    refine ⟨i, order, rfl, fun j hj => ?_⟩
    by_cases hji : j = i
    · exact hji
    · rw [Function.update_of_ne hji] at hj
      exact hd j i _ hj hs

/-- What is sent goes to the latest client. -/
theorem Ordered.send (ho : Ordered addr link s.history order) (hs : (link i).status = .accepted fd)
    {buf : Bytes} {n : ℕ} (hc : Server.Contract s (.send fd buf) (.ok n)) :
    Ordered addr (Function.update link i { link i with reply := (link i).reply ++ buf.take n })
      (⟨.send fd buf, .ok n⟩ :: s.history) order := by
  obtain ⟨p, data, hp, hne, -⟩ := hc
  obtain ⟨i', rest, rfl, hlatest⟩ := ho.latest fd p hp hne
  obtain rfl := hlatest i hs
  have hagrees := ho.agrees
  have hi : i ∉ rest := (List.nodup_cons.1 ho.once).1
  refine { once := ho.once, agrees := ?_, mem_iff := fun j => ?_, silent := fun j hj => ?_,
           latest := fun fd' p' hp' hne' => ?_ }
  · cases hx : Server.exchanges s.history with
    | nil => simp [hx] at hagrees
    | cons e es =>
      rw [hx, List.map_cons, List.map_cons, List.cons.injEq] at hagrees
      obtain ⟨hhead, htail⟩ := hagrees
      rw [List.map_cons, map_carried_update hi, htail, Server.exchanges, hx, List.modifyHead_cons,
        List.map_cons, Function.update_self]
      obtain ⟨hrequest, hreply⟩ := Prod.mk.inj hhead
      simp [Link.carried, carriedBy, ← hrequest, ← hreply]
  · by_cases hj : j = i
    · subst hj
      simp [← ho.mem_iff]
    · simp [hj, ← ho.mem_iff]
  · by_cases hji : j = i
    · subst hji
      rw [Function.update_self] at hj
      exact absurd hj ((ho.mem_iff j).1 (List.mem_cons_self ..))
    · rw [Function.update_of_ne hji] at hj ⊢
      exact ho.silent j hj
  · obtain ⟨rfl, rfl⟩ := Server.Phase.requested.inj (hp.symm.trans hp')
    refine ⟨i, rest, rfl, fun j hj => ?_⟩
    by_cases hji : j = i
    · exact hji
    · rw [Function.update_of_ne hji] at hj
      exact hlatest j hj

/-- No operation of the server takes anybody out of the order, or goes back behind the latest. -/
theorem Ordered.served {o : Server.SysOp} {r : o.Res} (ho : Ordered addr link s.history order)
    (hl : Served addr link i o r link') (ha : Server.serverEnv.allowed s.world o r = true)
    (hc : Server.Contract s o r)
    (hw : ∀ j, Wired s (hist j) (addr j) (command j) (link j)) (hd : Distinct link) :
    ∃ order', order <:+ order' ∧ Ordered addr link' (⟨o, r⟩ :: s.history) order' := by
  cases hl with
  | accept fd c hs =>
    refine ⟨order, List.suffix_rfl, ho.congr (fun j => ?_) rfl fun _ _ hp => by simp at hp⟩
    by_cases hj : j = i
    · subst hj
      rw [Function.update_self]
      exact ⟨rfl, rfl, rfl⟩
    · rw [Function.update_of_ne hj]
      exact .refl _
  | recv fd len b hs hb =>
    simp only [Server.serverEnv, Server.answers, Bool.and_eq_true] at ha
    by_cases hne : b = []
    · -- the end of the stream is no request
      refine ⟨order, List.suffix_rfl, ho.congr (fun j => ?_) (by simp [hne]) fun _ p hp hp' => ?_⟩
      · subst hne
        by_cases hj : j = i
        · subst hj
          rw [Function.update_self]
          exact .refl _
        · rw [Function.update_of_ne hj]
          exact .refl _
      · exact absurd ((Server.Phase.requested.inj hp).2.symm.trans hne) hp'
    · exact ⟨i :: order, List.suffix_cons .., ho.recv hw hd hs hne hb hc ha.2.1⟩
  | send fd buf n hs => exact ⟨order, List.suffix_rfl, ho.send hs hc⟩
  | close fd h =>
    refine ⟨order, List.suffix_rfl, ho.congr (fun j => ?_) rfl fun fd' p hp _ =>
      ⟨hp, fun j hj => ?_⟩⟩
    · rcases h j with he | ⟨he, -⟩
      · exact he ▸ (link j).shut_spared
      · exact he ▸ .refl _
    · rcases h j with he | ⟨he, -⟩
      · exact absurd (he ▸ hj) (Link.shut_status _ _)
      · exact he ▸ hj
  | plain hp => exact ⟨order, List.suffix_rfl, ho.plain hp⟩

end Served

/-! ## The steps of all parties -/

/-- A client does not change what the server has read. -/
theorem Asks.spared {l l' : Link} {s : Client.State} {o : Client.SysOp} {r : o.Res}
    (h : Asks l s o r l') (hread : l.read ≤ l.request.length) : Spared l l' := by
  cases h with
  | send fd buf n => exact ⟨List.take_append_of_le_length hread, rfl, rfl⟩
  | plain => exact .refl l
  | _ => exact ⟨rfl, rfl, rfl⟩

variable [DecidableEq ι] {files : ℤ → Bool} {world : ι → Client.World}
  {command : ι → ServerCommand} {x y : System ι} {m : Move ι}

/-- What a client does to its connection does not concern the order. -/
theorem Ordered.update (ho : Ordered addr link h order) {i : ι} {l : Link}
    (hl : Spared (link i) l) (hs : ∀ fd, l.status = .accepted fd → (link i).status = .accepted fd) :
    Ordered addr (Function.update link i l) h order := by
  refine ho.congr (fun j => ?_) rfl fun fd p hp _ => ⟨hp, fun j hj => ?_⟩
  · by_cases hj : j = i
    · subst hj
      rwa [Function.update_self]
    · rw [Function.update_of_ne hj]
      exact .refl _
  · by_cases hji : j = i
    · subst hji
      rw [Function.update_self] at hj
      exact hs fd hj
    · rwa [Function.update_of_ne hji] at hj

/-- Every step, of whichever party, keeps the order and may add a client to it. -/
theorem Ordered.step (ho : Ordered addr x.link x.server.1.history order)
    (hco : Coherent addr files command x) (hs : Step addr x m y) :
    ∃ order', order <:+ order' ∧ Ordered addr y.link y.server.1.history order' := by
  cases hs with
  | @server s o k i r link' hx ha hl =>
    have hreach : Server.Reaches files s (.call o k) := by simpa [hx] using hco.server
    obtain ⟨hc, -⟩ := Server.contract_of_reaches hreach r ha
    have hw (j : ι) : Wired s (x.client j).1.history (addr j) (command j) (x.link j) := by
      simpa [hx] using hco.wired j
    rw [hx] at ho
    obtain ⟨order', hle, ho'⟩ := ho.served (served_of_serve hl) ha hc hw hco.distinct
    exact ⟨order', hle, ho'.congr (settle_spared _ link') rfl fun _ _ hp _ =>
      ⟨hp, fun _ => settle_status⟩⟩
  | @again s hx =>
    rw [hx] at ho
    exact ⟨order, List.suffix_rfl, ho⟩
  | @client s o k i r l hx ha hcon hl =>
    have hasks := asks_of_ask hl
    exact ⟨order, List.suffix_rfl,
      ho.update (hasks.spared (hco.wired i).read_le) fun _ => hasks.status⟩
  | quit i => exact ⟨order, List.suffix_rfl, ho.update ⟨rfl, rfl, rfl⟩ fun _ => id⟩

/-- In every run the order only grows. -/
theorem Ordered.steps (ho : Ordered addr x.link x.server.1.history order)
    (hx : Reaches addr files world command x) (hs : Steps addr x y) :
    ∃ order', order <:+ order' ∧ Ordered addr y.link y.server.1.history order' := by
  induction hs with
  | refl => exact ⟨order, List.suffix_rfl, ho⟩
  | @tail y z hxy hs ih =>
    obtain ⟨m, hs⟩ := hs
    obtain ⟨order', hle, ho'⟩ := ih
    obtain ⟨order'', hle', ho''⟩ := ho'.step (coherent_of_reaches (hx.trans hxy)) hs
    exact ⟨order'', hle.trans hle', ho''⟩

theorem exists_ordered (hx : Reaches addr files world command x) :
    ∃ order, Ordered addr x.link x.server.1.history order := by
  have hstart : Ordered addr (System.start files world command).link
      (System.start files world command).server.1.history [] :=
    { once := List.nodup_nil
      agrees := rfl
      mem_iff := fun i => iff_of_false (List.not_mem_nil) (by simp [System.start])
      silent := fun _ _ => rfl
      latest := fun _ _ hp => by cases hp }
  obtain ⟨order, -, ho⟩ := hstart.steps (.refl : Reaches addr files world command _) hx
  exact ⟨order, ho⟩

/-! ## Linearizability -/

omit [DecidableEq ι] in
theorem Ordered.messages (ho : Ordered addr x.link x.server.1.history order) :
    order.map (x.message addr) = Server.requests x.server.1.history := by
  have h := congrArg (List.map Prod.fst) ho.agrees
  rwa [List.map_map, List.map_map] at h

omit [DecidableEq ι] in
/-- The service explains what the clients get, since it explains what the server sends. -/
theorem Ordered.linearizes (ho : Ordered addr x.link x.server.1.history order)
    (hco : Coherent addr files command x) : Linearizes addr x order where
  once := ho.once
  connected := fun i hi => by
    have hw := hco.wired i
    have hne : (x.link i).status ≠ .unconnected := fun hs =>
      (ho.mem_iff i).1 hi (hw.early (.inl hs)).1
    rwa [Ne, hw.unconnected, Bool.not_eq_false] at hne
  replies := by
    have hreplies : List.Forall₂ (fun b (out : Server.Response) => b <+: out.reply)
        ((Server.exchanges x.server.1.history).map Server.Exchange.sent)
        (Server.echoService.outputs (Server.requests x.server.1.history)) :=
      List.forall₂_map_left_iff.2 (Server.consistent_of_reaches hco.server).replies
    have hsent : order.map (fun i => (x.link i).reply) =
        (Server.exchanges x.server.1.history).map Server.Exchange.sent := by
      have h := congrArg (List.map Prod.snd) ho.agrees
      rwa [List.map_map, List.map_map] at h
    rw [← hsent] at hreplies
    rw [ho.messages]
    exact List.forall₂_map_left_iff.1 hreplies
  complete := fun i hi => (ho.mem_iff i).2 fun hread => hi (ho.silent i hread)
  received := fun i => by
    rw [System.readBy, (hco.wired i).received]
    exact List.take_prefix ..

/-- Whatever has happened, some order explains what the clients have got so far, and whatever
happens next, the order only goes on: it is never revised. -/
theorem linearizable (hx : Reaches addr files world command x) :
    ∃ order, Linearizes addr x order ∧
      ∀ y, Steps addr x y → ∃ order', order <:+ order' ∧ Linearizes addr y order' := by
  obtain ⟨order, ho⟩ := exists_ordered hx
  refine ⟨order, ho.linearizes (coherent_of_reaches hx), fun y hy => ?_⟩
  obtain ⟨order', hle, ho'⟩ := ho.steps hx hy
  exact ⟨order', hle, ho'.linearizes (coherent_of_reaches (hx.trans hy))⟩

/-- A client that has been echoed its request. -/
def reloaded : System Unit :=
  exchange ⟨10, 0, 0, 1⟩ .RELOAD_COMMAND (ascii "RELOAD") (ascii "RELOAD") 23

theorem linearizable_reloaded :
    reloaded.readBy () = ascii "RELOAD" ∧
      ∃ order, Linearizes (fun _ => ⟨10, 0, 0, 1⟩) reloaded order ∧
        ∀ y, Steps (fun _ => ⟨10, 0, 0, 1⟩) reloaded y →
          ∃ order', order <:+ order' ∧ Linearizes (fun _ => ⟨10, 0, 0, 1⟩) y order' :=
  ⟨by decide +kernel, linearizable (exchange_reaches ..)⟩

end KCNet.Network
