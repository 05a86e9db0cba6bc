import KCNet.Network.Influence

/-!
# One client after the other

The server reads once from each client. When it has turned to the next one, it does not come back:
what an earlier client has been sent by then, whole or cut short, is all that it ever gets.

## Main definitions

- `Kept` — the server has not come back to a connection
-/

namespace KCNet.Network

open Interaction Client

variable {ι : Type} {addr : ι → InAddr} {link link' : ι → Link} {order order' : List ι}

/-- Between `l` and `l'` nothing has been read from the connection, and if the server has turned to
another client before, nothing has been written to it. -/
structure Kept (turned : Prop) (l l' : Link) : Prop where
  read : l'.read = l.read
  reply : turned → l'.reply = l.reply

theorem Spared.kept {l l' : Link} (h : Spared l l') (turned : Prop) : Kept turned l l' :=
  ⟨h.read, fun _ => h.reply⟩

theorem Kept.spared {l l' l'' : Link} {turned : Prop} (h : Kept turned l l') (h' : Spared l' l'') :
    Kept turned l l'' :=
  ⟨h'.read.trans h.read, fun ht => h'.reply.trans (h.reply ht)⟩

variable [DecidableEq ι] {files : ℤ → Bool} {world : ι → Client.World}
  {command : ι → ServerCommand} {x y z : System ι} {m : Move ι}

theorem kept_update {turned : Prop} {i j : ι} {l : Link}
    (h : i = j → Kept turned (link j) l) : Kept turned (link i) (Function.update link j l i) := by
  by_cases hij : i = j
  · subst hij
    rw [Function.update_self]
    exact h rfl
  · rw [Function.update_of_ne hij]
    exact (Spared.refl _).kept _

/-- What the server does to a client whose request it has read already. -/
theorem Ordered.kept_served {s : Server.State} {hist : ι → List Client.Happening} {i j : ι}
    {o : Server.SysOp} {r : o.Res} (ho : Ordered addr link s.history order)
    (hl : Served addr link j o r link') (ha : Server.serverEnv.allowed s.world o r = true)
    (hc : Server.Contract s o r)
    (hw : ∀ j, Wired s (hist j) (addr j) (command j) (link j)) (hi : i ∈ order) :
    Kept (i ∈ order.tail) (link i) (link' i) := by
  cases hl with
  | accept fd c hs => exact kept_update fun _ => ⟨rfl, fun _ => rfl⟩
  | recv fd len b hs hb =>
    apply kept_update
    rintro rfl
    -- the server reads from a connection only right after it has accepted it
    simp only [Server.serverEnv, Server.answers, Bool.and_eq_true] at ha
    obtain ⟨a, hfd⟩ := hc.2.connected ha.2.1
    have hread := ((hw i).accepted fd hs).fresh a hfd.accepted
    exact absurd hread ((ho.mem_iff i).1 hi)
  | send fd buf n hs =>
    apply kept_update
    rintro rfl
    -- it writes to the latest client only
    obtain ⟨p, data, hp, hne, -⟩ := hc
    obtain ⟨i', rest, rfl, hlatest⟩ := ho.latest fd p hp hne
    obtain rfl := hlatest i hs
    exact ⟨rfl, fun ht => absurd ht (List.nodup_cons.1 ho.once).1⟩
  | close fd h =>
    rcases h i with he | ⟨he, -⟩
    · rw [he]
      exact (link i).shut_spared.kept _
    · rw [he]
      exact (Spared.refl _).kept _
  | plain => exact (Spared.refl _).kept _

/-- No step, of whichever party, makes the server come back to an earlier client. -/
theorem Ordered.kept (ho : Ordered addr x.link x.server.1.history order)
    (hco : Coherent addr files command x) (hs : Step addr x m y) {i : ι} (hi : i ∈ order) :
    Kept (i ∈ order.tail) (x.link i) (y.link i) := by
  cases hs with
  | @server s o k j r link' hx ha hl =>
    have hreach : Server.Reaches files s (.call o k) := by simpa [hx] using hco.server
    obtain ⟨hc, -⟩ := Server.contract_of_reaches hreach r ha
    have hw (j : ι) : Wired s (x.client j).1.history (addr j) (command j) (x.link j) := by
      simpa [hx] using hco.wired j
    rw [hx] at ho
    exact (ho.kept_served (served_of_serve hl) ha hc hw hi).spared (settle_spared _ link' i)
  | again => exact (Spared.refl _).kept _
  | client j r hx ha hcon hl =>
    exact kept_update fun _ => ((asks_of_ask hl).spared (hco.wired j).read_le).kept _
  | quit j => exact kept_update fun _ => ⟨rfl, fun _ => rfl⟩

end KCNet.Network
