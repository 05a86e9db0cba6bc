import KCNet.Server.Descriptors
import KCNet.Server.Script
import Mathlib.Data.List.Basic

/-!
# Descriptor discipline

When a complete run of the server, from start-up through the destructor, closes every descriptor
exactly once. `client_fd` is overwritten by every `accept` and closed by the destructor only, and
the listener is closed by every failed `accept` and by the destructor, so this is the case of the
runs with one connection.
-/

namespace KCNet.Server

open Interaction

/-- The head of the loop, after a turn. -/
def AtHead (h : List Happening) : Prop := ∃ b t, h = ⟨.loadQuit, b⟩ :: t

/-- At no time has a descriptor been closed more often than it has been handed out. -/
def Orderly (h : List Happening) : Prop :=
  ∀ h', h' <:+ h → ∀ fd, (closed h').count fd ≤ (opened h').count fd

/-- Every descriptor is closed exactly once, nothing else is ever closed, and there is never more
than one client descriptor open at the head of the loop. -/
structure Disciplined (h : List Happening) : Prop where
  closedOnce : (closed h).Perm (opened h)
  orderly : Orderly h
  bounded : ∀ h', h' <:+ h → AtHead h' → ((accepted h').diff (closed h')).length ≤ 1

variable {files : ℤ → Bool} {s : State} {p : Sys (Turn ℤ)}

theorem Orderly.cons {h : List Happening} (ho : Orderly h) (e : Happening)
    (he : ∀ fd, (closed (e :: h)).count fd ≤ (opened (e :: h)).count fd) : Orderly (e :: h) := by
  intro h' hs
  rcases List.suffix_cons_iff.1 hs with rfl | hs
  · exact he
  · exact ho h' hs

theorem orderly_of_closed {h : List Happening} (hc : closed h = []) : Orderly h := by
  intro h' hs fd
  have hsuf := suffix_of_suffix closed_suffix_cons hs
  rw [hc, List.suffix_nil] at hsuf
  simp [hsuf]

/-- The ledger keeps the order, unless an `accept` fails. -/
theorem orderly_step {s : State} (o : SysOp) (r : o.Res) (hl : Ledger s o r)
    (h : acceptFailures s.history = 0 → 0 < acceptCalls s.history → Orderly s.history) :
    acceptFailures (s.after o r).history = 0 → 0 < acceptCalls (s.after o r).history →
      Orderly (s.after o r).history := by
  intro hf hn
  cases o with
  | accept fd =>
    cases r with
    | error e => simp at hf
    | ok c =>
      -- nothing has been closed before the first failure
      exact orderly_of_closed (hl hf)
  | close fd =>
    apply (h hf hn).cons _
    intro fd'
    have hlt := hl hf hn
    have hle := h hf hn s.history List.suffix_rfl fd'
    simp only [closed, opened, List.count_cons, beq_iff_eq]
    split
    · next heq => rw [← heq]; omega
    · omega
  | socket =>
    cases r with
    | error e => exact (h hf hn).cons _ (h hf hn s.history List.suffix_rfl)
    | ok c =>
      exact (h hf hn).cons _ fun fd' =>
        (h hf hn s.history List.suffix_rfl fd').trans List.count_le_count_cons
  | _ => exact (h hf hn).cons _ (h hf hn s.history List.suffix_rfl)

theorem orderly_of_reaches (h : Reaches files s p) :
    acceptFailures s.history = 0 → 0 < acceptCalls s.history → Orderly s.history :=
  Env.Reach.invariant
    (I := fun s => acceptFailures s.history = 0 → 0 < acceptCalls s.history → Orderly s.history)
    (fun _ o r _ hl hi => orderly_step o r hl hi) (fun s hs => mainLoop_ledger (hs.1 rfl))
    (ledger_of_reaches (.start files)) (by simp) h

theorem acceptCalls_eq (h : List Happening) :
    acceptCalls h = (accepted h).length + acceptFailures h := by
  induction h with
  | nil => rfl
  | cons e h ih =>
    obtain ⟨o, r⟩ := e
    cases o with
    | accept fd =>
      cases r with
      | error e => simp [ih, Nat.add_assoc]
      | ok c => simp [ih, Nat.add_right_comm]
    | _ => exact ih

/-- A complete run, ended by `SHUTDOWN` or SIGINT, closes every descriptor exactly once if and only
if it has served one connection and `accept` has never failed. -/
theorem disciplined_iff (h : Reaches files s (.done (.halt exitSuccess))) :
    Disciplined s.history ↔ acceptCalls s.history = 1 ∧ acceptFailures s.history = 0 := by
  obtain ⟨hn, serverFd, clientFd, ho, hc, hapart, hclient⟩ := (ledger_of_reaches h).2 rfl
  have hcalls := acceptCalls_eq s.history
  constructor
  · intro hd
    have hcount := hd.closedOnce.count_eq serverFd
    have hlen := hd.closedOnce.length_eq
    rw [ho, hc] at hcount hlen
    -- the listener has been opened once, and closed once more than `accept` has failed
    have hopened : (accepted s.history ++ [serverFd]).count serverFd = 1 := by
      rw [List.count_append, List.count_eq_zero.2 hapart, List.count_singleton_self]
    have hclosed : acceptFailures s.history + 1 ≤ (serverFd :: clientFd ::
        List.replicate (acceptFailures s.history) serverFd).count serverFd := by
      rw [List.count_cons_self, List.count_cons, List.count_replicate_self]
      omega
    have hf : acceptFailures s.history = 0 := by omega
    simp only [hf, List.replicate_zero, List.length_cons, List.length_nil,
      List.length_append] at hlen
    omega
  · rintro ⟨h1, hf⟩
    obtain ⟨c, hacc⟩ : ∃ c, accepted s.history = [c] := List.length_eq_one_iff.1 (by omega)
    have hcl : clientFd = c := by simpa [hacc] using hclient hf
    subst hcl
    refine { closedOnce := ?_, orderly := orderly_of_reaches h hf hn, bounded := fun h' hs _ => ?_ }
    · rw [ho, hc, hacc, hf]
      exact List.Perm.swap ..
    · -- there is only one client descriptor to be left open
      have hle := (suffix_of_suffix accepted_suffix_cons hs).length_le
      have hdiff := (List.diff_sublist (accepted h') (closed h')).length_le
      rw [hacc, List.length_singleton] at hle
      exact hdiff.trans hle

/-- SIGINT ends the server after two clients. The descriptor of the first one is never closed. -/
theorem not_disciplined_twoClients :
    let s := (twoClients.play fun _ _ => false).1
    Reaches (fun _ => false) s (.done (.halt exitSuccess)) ∧ ¬ Disciplined s.history := by
  intro s
  refine ⟨twoClients.play_reaches fun _ _ => false, fun hd => ?_⟩
  have hcount := hd.closedOnce.count_eq 4
  exact absurd hcount (by decide)

theorem disciplined_iff_twoClients :
    let s := (twoClients.play fun _ _ => false).1
    Disciplined s.history ↔ acceptCalls s.history = 1 ∧ acceptFailures s.history = 0 :=
  disciplined_iff (twoClients.play_reaches fun _ _ => false)

end KCNet.Server
