import KCNet.Network.Influence
import KCNet.Server.Lifetime

/-!
# Clients that the server has no room for

What limits the life of the server is felt by its clients. Each client that it has heard of costs
it one descriptor for good, so only so many can ever succeed; and all that are waiting when an
`accept` fails wait in vain.

## Main definitions

- `Heard` — the server has read from a client, or the client has got something from it
- `Stranded` — between two states, a client gets nothing from the server
-/

namespace KCNet.Network

open Interaction Client

variable {ι : Type} {addr : ι → InAddr} {order : List ι} {x y : System ι}

theorem Ordered.length (ho : Ordered addr x.link x.server.1.history order) :
    order.length = (Server.exchanges x.server.1.history).length := by
  simpa using congrArg List.length ho.agrees

/-- A client that shows in any way that the server has dealt with it. -/
inductive Heard (x : System ι) (i : ι) : Prop where
  | read (h : (x.link i).read ≠ 0)
  | answered (h : (x.link i).reply ≠ [])
  | succeeded (h : x.outcome i = some (.ok exitSuccess))

/-- From the state `x` to the state `y`, the server neither reads from the client nor writes to it
nor accepts its connection, and without a reply the client does not succeed. -/
structure Stranded (x y : System ι) (i : ι) : Prop where
  read : (y.link i).read = (x.link i).read
  reply : (y.link i).reply = (x.link i).reply
  accepted : ∀ fd, (y.link i).status = .accepted fd → (x.link i).status = .accepted fd
  unsuccessful : (x.link i).reply = [] → y.outcome i ≠ some (.ok exitSuccess)

variable [DecidableEq ι] {files : ℤ → Bool} {world : ι → Client.World}
  {command : ι → ServerCommand} {m : Move ι}

/-- However its steps are interleaved with those of the clients, the server runs on its own. -/
theorem server_of_steps (h : Steps addr x y) :
    Server.serverEnv.recorded.Reach Server.mainLoop x.server y.server := by
  induction h with
  | refl => exact .refl
  | tail _ hs ih =>
    obtain ⟨m, hs⟩ := hs
    cases hs with
    | server i r hx ha hl =>
      rw [hx] at ih
      exact ih.tail (.call _ _ _ r ha)
    | again hx =>
      rw [hx] at ih
      exact ih.tail (.again _)
    | client => exact ih
    | quit => exact ih

/-! ## Capacity -/

/-- A client that gets a reply, or reports success, has been read from. -/
theorem Heard.mem {i : ι} (h : Heard x i) (hx : Reaches addr files world command x)
    (ho : Ordered addr x.link x.server.1.history order) : i ∈ order := by
  rw [ho.mem_iff]
  have hanswered (hr : (x.link i).reply ≠ []) : (x.link i).read ≠ 0 :=
    fun hread => hr (ho.silent i hread)
  cases h with
  | read h => exact h
  | answered h => exact hanswered h
  | succeeded h => exact hanswered (reply_ne_nil_of_success hx h)

/-- If the server may have `L` descriptors, then fewer than `L` clients are ever heard by it, and
each file that it has inherited is one client less, however many there are. -/
theorem heard_add_card_le (hx : Reaches addr files world command x) {L : ℕ}
    (hL : ∀ fd ∈ Server.opened x.server.1.history, fd < L) {heard : Finset ι}
    (hne : heard.Nonempty) (hheard : ∀ i ∈ heard, Heard x i) :
    heard.card + 1 + ((Finset.range L).filter fun n : ℕ => files n = true).card ≤ L := by
  obtain ⟨order, ho⟩ := exists_ordered hx
  have hserver := (coherent_of_reaches hx).server
  have hsub : heard ⊆ order.toFinset := fun i hi =>
    List.mem_toFinset.2 ((hheard i hi).mem hx ho)
  have hcard : heard.card ≤ (Server.exchanges x.server.1.history).length :=
    calc heard.card ≤ order.toFinset.card := Finset.card_le_card hsub
      _ = order.length := List.toFinset_card_of_nodup ho.once
      _ = _ := ho.length
  have hexchanges : Server.exchanges x.server.1.history ≠ [] := by
    rw [← List.length_pos_iff]
    exact (Finset.card_pos.2 hne).trans_le hcard
  have hroom := Server.opened_add_card_le hserver hL
  have hhandled := (Server.counted_of_reaches hserver).exchanges_lt hexchanges
  omega

/-- The standard streams are open. -/
def stdStreams (fd : ℤ) : Bool := 0 ≤ fd ∧ fd < 3

/-- A server with room for one client. -/
def roomForOne : System Unit :=
  (System.start stdStreams (fun _ => .start) fun _ => .RELOAD_COMMAND).play
    (fun _ => ⟨10, 0, 0, 1⟩)
    ⟨Server.Script.answer [.ok (⟨10, 0, 0, 1⟩, ascii "RELOAD")], obliging (ascii "RELOAD"),
      fun _ => true⟩ (inTurns 23)

theorem heard_add_card_le_roomForOne :
    Heard roomForOne () ∧
      1 + 1 + ((Finset.range 5).filter fun n : ℕ => stdStreams n = true).card ≤ 5 := by
  have hheard : ∀ i ∈ ({()} : Finset Unit), Heard roomForOne i :=
    fun i _ => .read (by decide +revert +kernel)
  exact ⟨hheard () (by simp), heard_add_card_le (System.play_steps ..).steps (by decide +kernel)
    (Finset.singleton_nonempty ()) hheard⟩

/-! ## A failed accept -/

theorem accepted_of_update {link : ι → Link} {i j : ι} {l : Link} {fd : ℤ}
    (hj : (Function.update link i l j).status = .accepted fd)
    (hl : l.status = .accepted fd → (link i).status = .accepted fd) :
    (link j).status = .accepted fd := by
  by_cases hji : j = i
  · subst hji
    rw [Function.update_self] at hj
    exact hl hj
  · rwa [Function.update_of_ne hji] at hj

/-- Only an `accept` that succeeds makes a connection an accepted one. -/
theorem Served.accepted {link link' : ι → Link} {i j : ι} {o : Server.SysOp} {r : o.Res} {fd : ℤ}
    {h : List Server.Happening} (hl : Served addr link i o r link')
    (ha : Server.accepted (⟨o, r⟩ :: h) = Server.accepted h)
    (hj : (link' j).status = .accepted fd) : (link j).status = .accepted fd := by
  cases hl with
  | accept lfd c hs => exact absurd ha (by simp)
  | recv fd' len b hs => exact accepted_of_update hj id
  | send fd' buf n hs => exact accepted_of_update hj id
  | close fd' h =>
    rcases h j with he | ⟨he, -⟩
    · exact absurd (he ▸ hj) (Link.shut_status _ _)
    · exact he ▸ hj
  | plain => exact hj

theorem Step.accepted (hs : Step addr x m y)
    (ha : Server.accepted y.server.1.history = Server.accepted x.server.1.history) {i : ι} {fd : ℤ}
    (hi : (y.link i).status = .accepted fd) : (x.link i).status = .accepted fd := by
  cases hs with
  | server j r hx hr hl =>
    rw [hx] at ha
    exact (served_of_serve hl).accepted ha (settle_status hi)
  | again => exact hi
  | client j r hx hr hcon hl => exact accepted_of_update hi (asks_of_ask hl).status
  | quit j => exact accepted_of_update hi id

/-- Once an `accept` has failed, no connection becomes an accepted one. -/
theorem accepted_of_steps (hx : Reaches addr files world command x)
    (hf : Server.acceptFailures x.server.1.history ≠ 0) (hy : Steps addr x y) {i : ι} {fd : ℤ}
    (hi : (y.link i).status = .accepted fd) : (x.link i).status = .accepted fd := by
  have hfrozen (z : System ι) (hz : Steps addr x z) :
      Server.accepted z.server.1.history = Server.accepted x.server.1.history :=
    (Server.frozen_of_reach (coherent_of_reaches hx).server hf (server_of_steps hz)).2.2
  induction hy with
  | refl => exact hi
  | @tail z y hz hs ih =>
    obtain ⟨m, hs⟩ := hs
    have hsame := (hfrozen y (hz.tail ⟨m, hs⟩)).trans (hfrozen z hz).symm
    exact ih (hs.accepted hsame hi)

/-- The handled requests are the same, so the order is the same and what it records. -/
theorem Ordered.same {order' : List ι} {i : ι}
    (ho : Ordered addr x.link x.server.1.history order)
    (ho' : Ordered addr y.link y.server.1.history order') (hle : order <:+ order')
    (he : Server.exchanges y.server.1.history = Server.exchanges x.server.1.history)
    (hx : Coherent addr files command x) (hy : Coherent addr files command y) :
    (y.link i).read = (x.link i).read ∧ (y.link i).reply = (x.link i).reply := by
  obtain rfl : order = order' := hle.eq_of_length (by rw [ho.length, ho'.length, he])
  by_cases hi : i ∈ order
  · have hagrees := ho'.agrees
    rw [he, ← ho.agrees] at hagrees
    obtain ⟨hrequest, hreply⟩ := Prod.mk.inj (List.map_inj_left.1 hagrees i hi)
    refine ⟨?_, hreply⟩
    have hlength := congrArg (fun r => r.payload.length) hrequest
    simpa [(hx.wired i).read_le, (hy.wired i).read_le] using hlength
  · have hread (z : System ι) (hz : Ordered addr z.link z.server.1.history order) :
        (z.link i).read = 0 := by
      by_contra hne
      exact hi ((hz.mem_iff i).2 hne)
    rw [hread x ho, hread y ho', ho.silent i (hread x ho), ho'.silent i (hread y ho')]
    exact ⟨rfl, rfl⟩

/-- After a failed `accept` all clients are left alone for good: whatever happens next, the server
reads nothing more and sends nothing more to anybody, and it goes on as if nothing had happened. -/
theorem stranded (hx : Reaches addr files world command x)
    (hf : Server.acceptFailures x.server.1.history ≠ 0) (hy : Steps addr x y) :
    y.server.1.world.memory.isServerRunning = true ∧ ∀ i, Stranded x y i := by
  have hxserver := (coherent_of_reaches hx).server
  have hyserver := (coherent_of_reaches (hx.trans hy)).server
  obtain ⟨hfy, hexchanges, -⟩ := Server.frozen_of_reach hxserver hf (server_of_steps hy)
  obtain ⟨order, ho⟩ := exists_ordered hx
  obtain ⟨order', hle, ho'⟩ := ho.steps hx hy
  refine ⟨(Server.deaf_of_reaches hyserver hfy).2, fun i => ?_⟩
  obtain ⟨hread, hreply⟩ := ho.same (i := i) ho' hle hexchanges (coherent_of_reaches hx)
    (coherent_of_reaches (hx.trans hy))
  refine { read := hread, reply := hreply, accepted := fun fd => accepted_of_steps hx hf hy,
           unsuccessful := ?_ }
  intro hnil hsuccess
  exact reply_ne_nil_of_success (hx.trans hy) hsuccess (hreply.trans hnil)

/-- The `accept` that fails comes when a client is waiting already. -/
def failingOracle : Oracle Unit where
  server := Server.Script.answer [.error .ECONNABORTED]
  client := obliging []
  allows _ := true

def acceptFailed : System Unit :=
  (oneClient .RELOAD_COMMAND).play (fun _ => ⟨10, 0, 0, 1⟩) failingOracle
    (List.replicate 20 (.server ()) ++ List.replicate 44 (.client ()) ++
      List.replicate 2 (.server ()))

/-- The server goes round its loop, and then the client reads. -/
def leftAlone : System Unit :=
  acceptFailed.play (fun _ => ⟨10, 0, 0, 1⟩) failingOracle
    (List.replicate 30 (.server ()) ++ List.replicate 3 (.client ()))

theorem stranded_leftAlone :
    (acceptFailed.link ()).request = ascii "RELOAD" ∧ Stranded acceptFailed leftAlone () :=
  ⟨by decide +kernel, (stranded (System.play_steps ..).steps (by decide +kernel)
    (System.play_steps ..).steps).2 ()⟩

end KCNet.Network
