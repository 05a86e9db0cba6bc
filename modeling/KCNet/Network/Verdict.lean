import KCNet.Network.Links
import KCNet.Network.Schedule

/-!
# The verdict of the client

What `ConnectToServer` returns after a reply, against what the server has done: the two programs
have the text of the notice in common, and no request looks like it, but the client judges a reply
by the chunk that its only `recv` returns.

## Main definitions

- `Notified`, `EchoedTo` — what the server has sent, and why
-/

namespace KCNet.Network

open Interaction Client

/-- The server has sent the ban notice, because the address is on the ban list. -/
def Notified (a : InAddr) (l : Link) : Prop :=
  Server.Banned a ∧ l.reply ≠ [] ∧ l.reply <+: Server.TcpServer.bannedMessage

/-- The server has echoed what it has read of the client's own request. -/
def EchoedTo (a : InAddr) (c : ServerCommand) (l : Link) : Prop :=
  ¬ Server.Banned a ∧ l.reply ≠ [] ∧ l.reply <+: l.request.take l.read ∧
    ∃ buf, Request c buf ∧ l.request <+: buf

/-- The two programs have the same text. -/
theorem bannedMessage_eq : TcpClient.bannedMessage = Server.TcpServer.bannedMessage := rfl

variable {s : Server.State} {h : List Client.Happening} {a : InAddr} {c : ServerCommand} {l : Link}

theorem Wired.received_prefix (hw : Wired s h a c l) : Client.received h <+: l.reply :=
  hw.received ▸ List.take_prefix _ _

/-- Whoever has got something has been notified or echoed to, not both. -/
theorem Wired.notified_or_echoedTo (hw : Wired s h a c l) (hr : Client.received h ≠ []) :
    Notified a l ∧ ¬ EchoedTo a c l ∨ EchoedTo a c l ∧ ¬ Notified a l := by
  have hne : l.reply ≠ [] := fun he => hr (List.prefix_nil.1 (he ▸ hw.received_prefix))
  by_cases hb : Server.Banned a
  · exact .inl ⟨⟨hb, hne, hw.notice hb⟩, fun he => he.1 hb⟩
  · have hecho := hw.echo hb
    refine .inr ⟨⟨hb, hne, hecho, hw.asked.resolve_left fun hnil => hne ?_⟩, fun hn => hb hn.1⟩
    simpa [hnil] using hecho

/-- An echo is never taken for the notice. -/
theorem EchoedTo.verdict (he : EchoedTo a c l) {b : Bytes} (hb : b <+: l.reply) :
    verdictOf b = exitSuccess := by
  obtain ⟨-, -, hreply, buf, hreq, hbuf⟩ := he
  apply if_neg
  intro hv
  apply hreq.apart
  have hc : cString b <+: b := List.takeWhile_prefix _
  calc TcpClient.bannedMessage = cString b := hv.symm
    _ <+: buf := hc.trans (hb.trans (hreply.trans ((List.take_prefix _ _).trans hbuf)))

/-- Of the notice the client has to get the whole. -/
theorem Notified.verdict (hn : Notified a l) {b : Bytes} (hb : b <+: l.reply) :
    verdictOf b = exitFailure ↔ b = Server.TcpServer.bannedMessage := by
  have hz : (0 : UInt8) ∉ b := fun hz =>
    absurd ((hb.trans hn.2.2).subset hz) (by decide)
  rw [verdictOf, cString_eq_self hz, bannedMessage_eq]
  split
  · next he => simp [he]
  · next he => simp [he, exitSuccess, exitFailure]

theorem verdictOf_eq_success_iff {b : Bytes} :
    verdictOf b = exitSuccess ↔ verdictOf b ≠ exitFailure := by
  unfold verdictOf
  split <;> decide

variable {ι : Type} [DecidableEq ι] {addr : ι → InAddr} {files : ℤ → Bool}
  {world : ι → Client.World} {command : ι → ServerCommand} {x : System ι}

/-- In every state of the system, a call that has returned from a non-empty reply has failed if and
only if the server has sent the notice and its first chunk was the whole of it, and has succeeded if
and only if the server has echoed the client's own request, or the first chunk was less than the
notice. -/
theorem verdict_agrees (hx : Reaches addr files world command x) (i : ι) {r : Except Thrown ℤ}
    (hi : x.outcome i = some r) (hr : x.readBy i ≠ []) :
    ∃ v, r = .ok v ∧ x.readBy i <+: (x.link i).reply ∧
      (v = exitFailure ↔ Notified (addr i) (x.link i) ∧
        x.readBy i = Server.TcpServer.bannedMessage) ∧
      (v = exitSuccess ↔ EchoedTo (addr i) (command i) (x.link i) ∨
        Notified (addr i) (x.link i) ∧ x.readBy i ≠ Server.TcpServer.bannedMessage) := by
  have hco := coherent_of_reaches hx
  have hw := hco.wired i
  have hjudged : Judged r (x.client i).1 := by
    have hend := hco.client i
    rw [System.client_of_outcome hi] at hend
    exact hend
  obtain ⟨v, rfl, rfl⟩ := hjudged hr
  have hpre := hw.received_prefix
  refine ⟨_, rfl, hpre, ?_⟩
  rcases hw.notified_or_echoedTo hr with ⟨hn, he⟩ | ⟨he, hn⟩
  · have hv := hn.verdict hpre
    exact ⟨hv.trans (and_iff_right hn).symm,
      verdictOf_eq_success_iff.trans (hv.not.trans (by simp [he, hn, System.readBy]))⟩
  · simp [he, hn, he.verdict hpre, exitSuccess, exitFailure]

/-- A banned client whose notice arrives in pieces, the first of them "You". -/
def noticeSplit : System Unit :=
  exchange ⟨192, 168, 1, 81⟩ .RELOAD_COMMAND (ascii "RELOAD") (ascii "You") 11

theorem noticeSplit_reaches : Reaches (fun _ => ⟨192, 168, 1, 81⟩) (fun _ => false)
    (fun _ => .start) (fun _ => .RELOAD_COMMAND) noticeSplit := exchange_reaches ..

/-- The server has sent the whole notice, and the client reports success. -/
theorem noticeSplit_success :
    Reaches (fun _ => ⟨192, 168, 1, 81⟩) (fun _ => false) (fun _ => .start)
        (fun _ => .RELOAD_COMMAND) noticeSplit ∧
      noticeSplit.outcome () = some (.ok exitSuccess) ∧ noticeSplit.readBy () = ascii "You" ∧
      Server.Banned ⟨192, 168, 1, 81⟩ ∧
      (noticeSplit.link ()).reply = Server.TcpServer.bannedMessage :=
  ⟨noticeSplit_reaches, by decide +kernel, by decide +kernel, by decide, by decide +kernel⟩

theorem verdict_agrees_noticeSplit :
    Notified ⟨192, 168, 1, 81⟩ (noticeSplit.link ()) ∧
      noticeSplit.readBy () ≠ Server.TcpServer.bannedMessage := by
  obtain ⟨v, hv, -, -, hsuccess⟩ := verdict_agrees noticeSplit_reaches ()
    (by decide +kernel : noticeSplit.outcome () = some (.ok exitSuccess)) (by decide +kernel)
  refine (hsuccess.1 (Except.ok.inj hv).symm).resolve_left fun he => he.1 (by decide)

end KCNet.Network
