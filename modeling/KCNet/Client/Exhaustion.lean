import KCNet.Client.Descriptors

/-!
# The lifetime of a client

A call of `ConnectToServer` that gets what it has asked for leaves a descriptor open, and nothing in
the program ever closes it. So the descriptors that the process may have limit how many of its
calls succeed, however many it makes.

## Main definitions

- `Served` — a call that has got its random bytes or a reply
-/

namespace KCNet.Client

open Interaction

variable {s s' s'' : State} {X Y : List ℤ} {calls : List (State × State)}

/-- What two stretches of a run leave open. -/
theorem LeftOpen.trans (h : LeftOpen s s' X) (h' : LeftOpen s' s'' Y) :
    LeftOpen s s'' (Y ++ X) where
  nodup := by
    refine List.nodup_append.2 ⟨h'.nodup, h.nodup, ?_⟩
    rintro fd hY _ hX rfl
    exact (h.fresh fd hX).2.2 (h'.fresh fd hY).2.1
  fresh := by
    intro fd hfd
    by_cases hX : fd ∈ X
    · have hY : fd ∉ Y := fun hY => (h.fresh fd hX).2.2 (h'.fresh fd hY).2.1
      obtain ⟨h0, hnone, hsome⟩ := h.fresh fd hX
      exact ⟨h0, hnone, by rwa [h'.same fd hY]⟩
    · have hY := (List.mem_append.1 hfd).resolve_right hX
      obtain ⟨h0, hnone, hsome⟩ := h'.fresh fd hY
      exact ⟨h0, by rwa [← h.same fd hX], hsome⟩
  same := by
    intro fd hfd
    rw [List.mem_append, not_or] at hfd
    rw [h'.same fd hfd.1, h.same fd hfd.2]
  count := by
    intro fd h0
    have hX := h.count fd h0
    have hY := h'.count fd h0
    rw [List.count_append]
    omega

/-- A call that has got its random bytes or a reply. -/
def Served (call : State × State) : Prop :=
  randomReads call.2.history ≠ randomReads call.1.history ∨
    replies call.2.history ≠ replies call.1.history

instance : DecidablePred Served := fun _ => inferInstanceAs (Decidable (_ ∨ _))

/-- Nothing that has been closed is forgotten. -/
theorem closed_count_le {command : ServerCommand} {r : Except Thrown ℤ} (fd : ℤ)
    (hs : clientEnv.recorded.Steps (s, (TcpClient.connectToServer command).run) (s', .done r)) :
    (closed s.history).count fd ≤ (closed s'.history).count fd := by
  have hmono := (connectToServer_leftOpen command s).frame
    (I := fun t => (closed s.history).count fd ≤ (closed t.history).count fd)
    (fun t o r _ _ ht => ?_) le_rfl
  · exact (hmono.steps hs).2
  · refine ht.trans (List.Sublist.count_le fd ?_)
    cases o with
    | close fd' => exact List.sublist_cons_self ..
    | _ => exact List.Sublist.refl _

/-- Every call that has been served leaves a descriptor open. -/
theorem Session.leftOpen (h : Session s calls s') :
    ∃ X, LeftOpen s s' X ∧ calls.countP Served ≤ X.length ∧
      ∀ fd, (closed s.history).count fd ≤ (closed s'.history).count fd := by
  induction h with
  | start => exact ⟨[], .refl s, Nat.zero_le _, fun _ => le_rfl⟩
  | @call calls s' s'' h command r hs ih =>
    obtain ⟨X, hX, hcount, hclosed⟩ := ih
    obtain ⟨Y, hY, ht⟩ := (connectToServer_leftOpen command s').steps hs
    refine ⟨Y ++ X, hX.trans hY, ?_, fun fd => (hclosed fd).trans (closed_count_le fd hs)⟩
    rw [List.length_append, List.countP_cons]
    split
    · next hserved =>
      have hne : Y ≠ [] := fun hnil => by
        obtain ⟨hr, hp⟩ := ht.nil_iff.1 hnil
        exact (of_decide_eq_true hserved).elim (· hr) (· hp)
      have := List.length_pos_iff.2 hne
      omega
    · omega

/-- If the process may have `L` descriptors, then at most `L` of its calls are ever served, and each
descriptor that is open beforehand is one call less. -/
theorem session_capacity (h : Session s calls s') {L : ℕ} (hL : ∀ fd ∈ opened s'.history, fd < L) :
    calls.countP Served +
      ((Finset.range L).filter fun n : ℕ => (s.world.descriptors n).isSome = true).card ≤ L := by
  obtain ⟨X, hX, hcount, hclosed⟩ := h.leftOpen
  have hroom := length_add_card_le (P := fun n => (s.world.descriptors n).isSome = true) hX.nodup
    fun fd hfd => by
      obtain ⟨h0, hnone, -⟩ := hX.fresh fd hfd
      refine ⟨h0, hL fd ?_, ?_⟩
      · -- it has been opened since, as it has not been closed
        have hone := List.count_pos_iff.2 hfd
        have hopen := hX.count fd h0
        have hmono := hclosed fd
        exact List.count_pos_iff.1 (by omega)
      · rw [Int.toNat_of_nonneg h0, hnone]
        exact Bool.false_ne_true
  omega

/-- With the three standard streams and a limit of twelve there is room for nine such calls. -/
theorem session_capacity_echoed :
    [((⟨.start, []⟩ : State), echoed.1)].countP Served = 1 ∧
      [((⟨.start, []⟩ : State), echoed.1)].countP Served + ((Finset.range 12).filter fun n : ℕ =>
        (World.start.descriptors n).isSome = true).card ≤ 12 :=
  ⟨by decide, session_capacity echoed_session (by decide)⟩

end KCNet.Client
