import KCNet.Client.Generator
import Mathlib.Data.List.Count

/-!
# Descriptors of the client

Which of the descriptors that one call of `ConnectToServer` opens are still open when it returns or
throws. Two places leave one open: `GenerateRandom` returns its string before it closes its own
descriptor, and `ConnectToServer` returns from a reply before it closes the socket.

## Main definitions

- `LeftOpen` — the descriptors that have been opened since a state and not closed
- `Balanced` — what one call does to the descriptors when it closes all it opens
- `Session` — the calls of one process, one after the other
-/

namespace KCNet.Client

open Interaction

/-- Since the state `s`, exactly the descriptors in `L` have been opened and not closed. -/
structure LeftOpen (s s' : State) (L : List ℤ) : Prop where
  nodup : L.Nodup
  fresh : ∀ fd ∈ L, 0 ≤ fd ∧ s.world.descriptors fd = none ∧ s'.world.descriptors fd ≠ none
  same : ∀ fd, fd ∉ L → s'.world.descriptors fd = s.world.descriptors fd
  count : ∀ fd, 0 ≤ fd → (opened s'.history).count fd + (closed s.history).count fd =
    (opened s.history).count fd + (closed s'.history).count fd + L.count fd

/-- The call between `s` and `s'` has closed every descriptor as often as it has opened it, and the
table of open descriptors is what it was. -/
structure Balanced (s s' : State) : Prop where
  table : s'.world.descriptors = s.world.descriptors
  count : ∀ fd, 0 ≤ fd → (opened s'.history).count fd + (closed s.history).count fd =
    (opened s.history).count fd + (closed s'.history).count fd

namespace LeftOpen

variable {s s' : State} {L : List ℤ}

theorem refl (s : State) : LeftOpen s s [] where
  nodup := List.nodup_nil
  fresh := by simp
  same := fun _ _ => rfl
  count := by simp

theorem balanced_iff (h : LeftOpen s s' L) : Balanced s s' ↔ L = [] := by
  constructor
  · intro hb
    apply List.eq_nil_iff_forall_not_mem.2
    intro fd hfd
    obtain ⟨-, hnone, hsome⟩ := h.fresh fd hfd
    exact hsome (by rw [hb.table, hnone])
  · rintro rfl
    refine { table := ?_, count := by simpa using h.count }
    funext fd
    exact h.same fd (by simp)

/-- Other operations leave the descriptors alone. -/
theorem after (h : LeftOpen s s' L) {o : SysOp} {r : o.Res}
    (hd : (effect s'.world o r).descriptors = s'.world.descriptors)
    (ho : opened (⟨o, r⟩ :: s'.history) = opened s'.history)
    (hc : closed (⟨o, r⟩ :: s'.history) = closed s'.history) : LeftOpen s (s'.after o r) L where
  nodup := h.nodup
  fresh := by simpa only [State.after_world, hd] using h.fresh
  same := by simpa only [State.after_world, hd] using h.same
  count := by simpa only [State.after_history, ho, hc] using h.count

/-- A descriptor is opened. -/
theorem cons (h : LeftOpen s s' L) {fd : ℤ} (hu : s'.world.descriptors.unused fd = true) {t : State}
    {d : Descriptor} (hd : t.world.descriptors = s'.world.descriptors.set fd (some d))
    (ho : opened t.history = fd :: opened s'.history) (hc : closed t.history = closed s'.history) :
    LeftOpen s t (fd :: L) := by
  obtain ⟨h0, hnone⟩ := DescriptorTable.unused_iff.1 hu
  have hnew : fd ∉ L := fun hm => (h.fresh fd hm).2.2 hnone
  refine { nodup := List.nodup_cons.2 ⟨hnew, h.nodup⟩, fresh := ?_, same := ?_, count := ?_ }
  · intro fd' hm
    rcases List.mem_cons.1 hm with rfl | hm
    · exact ⟨h0, (h.same fd' hnew).symm.trans hnone, by simp [hd]⟩
    · have hne : fd' ≠ fd := fun he => hnew (he ▸ hm)
      obtain ⟨h0', hn, hs⟩ := h.fresh fd' hm
      exact ⟨h0', hn, by rwa [hd, DescriptorTable.set_of_ne _ _ hne]⟩
  · intro fd' hm
    obtain ⟨hne, hm⟩ := not_or.1 (mt List.mem_cons.2 hm)
    rw [hd, DescriptorTable.set_of_ne _ _ hne, h.same fd' hm]
  · intro fd' h0'
    have := h.count fd' h0'
    rw [ho, hc, List.count_cons, List.count_cons]
    omega

/-- A descriptor is closed. -/
theorem erase (h : LeftOpen s s' L) {fd : ℤ} (hm : fd ∈ L) :
    LeftOpen s (s'.after (.close fd) ()) (L.erase fd) := by
  obtain ⟨h0, hnone, -⟩ := h.fresh fd hm
  have hd : (s'.after (.close fd) ()).world.descriptors = s'.world.descriptors.set fd none := by
    simp [h0]
  refine { nodup := h.nodup.erase fd, fresh := ?_, same := ?_, count := ?_ }
  · intro fd' hm'
    obtain ⟨hne, hm'⟩ := (h.nodup.mem_erase_iff).1 hm'
    obtain ⟨h0', hn, hs⟩ := h.fresh fd' hm'
    exact ⟨h0', hn, by rwa [hd, DescriptorTable.set_of_ne _ _ hne]⟩
  · intro fd' hm'
    by_cases he : fd' = fd
    · rw [hd, he, DescriptorTable.set_self, hnone]
    · have hm'' : fd' ∉ L := fun hin => hm' ((h.nodup.mem_erase_iff).2 ⟨he, hin⟩)
      rw [hd, DescriptorTable.set_of_ne _ _ he, h.same fd' hm'']
  · intro fd' h0'
    have hcount := h.count fd' h0'
    have herase := (List.perm_cons_erase hm).count_eq fd'
    rw [List.count_cons] at herase
    simp only [State.after_history, opened, closed, List.count_cons]
    omega

/-- The descriptor that was opened last is closed. -/
theorem close_head {fd : ℤ} (h : LeftOpen s s' (fd :: L)) :
    LeftOpen s (s'.after (.close fd) ()) L := by
  have h' := h.erase (List.mem_cons_self ..)
  rwa [List.erase_cons_head] at h'

/-- `close(-1)` does nothing. -/
theorem close_neg (h : LeftOpen s s' L) : LeftOpen s (s'.after (.close (-1)) ()) L where
  nodup := h.nodup
  fresh := h.fresh
  same := h.same
  count := by
    intro fd h0
    have hcount := h.count fd h0
    have hne : ((-1 : ℤ) == fd) = false := by
      rw [beq_eq_false_iff_ne]
      omega
    simpa [List.count_cons, hne] using hcount

end LeftOpen

/-- Between the two states something was left open if and only if a read of `RANDOM_BYTES` bytes
or a reply has delivered. -/
structure Tally (s s' : State) (L : List ℤ) : Prop where
  reads_le : randomReads s.history ≤ randomReads s'.history
  replies_le : replies s.history ≤ replies s'.history
  nil_iff : L = [] ↔ randomReads s'.history = randomReads s.history ∧
    replies s'.history = replies s.history

theorem Tally.nil {s s' : State} (hr : randomReads s'.history = randomReads s.history)
    (hp : replies s'.history = replies s.history) : Tally s s' [] where
  reads_le := hr.ge
  replies_le := hp.ge
  nil_iff := iff_of_true rfl ⟨hr, hp⟩

theorem Tally.append {s s' s'' : State} {L L' : List ℤ} (h : Tally s s' L) (h' : Tally s' s'' L') :
    Tally s s'' (L' ++ L) where
  reads_le := h.reads_le.trans h'.reads_le
  replies_le := h.replies_le.trans h'.replies_le
  nil_iff := by
    obtain ⟨hr, hp, hn⟩ := h
    obtain ⟨hr', hp', hn'⟩ := h'
    rw [List.append_eq_nil_iff, hn, hn']
    omega

/-! ## The generator -/

section Passes

variable {s₀ s : State} {L : List ℤ}

theorem Generating.counts {s : State} {o : SysOp} {r : o.Res} (h : Generating s o r) {n m : ℕ}
    (hs : n ≤ randomReads s.history ∧ replies s.history = m) :
    n ≤ randomReads (s.after o r).history ∧ replies (s.after o r).history = m := by
  cases o with
  | recv fd len => exact h.elim
  | read fd len =>
    cases r with
    | error e => exact hs
    | ok b =>
      refine ⟨?_, hs.2⟩
      simp only [State.after_history, randomReads]
      split <;> omega
  | _ => exact hs

theorem leftOpen_read (h : LeftOpen s₀ s L) (fd : ℤ) (len : ℕ) (r : Except Errno Bytes) :
    LeftOpen s₀ (s.after (.read fd len) r) L := by
  cases r <;> exact h.after rfl rfl rfl

theorem readExactLoop_leftOpen (h : LeftOpen s₀ s L) (fd : ℤ) (n gas : ℕ) (dst : Bytes) :
    Keeps Generating (Urandom.readExactLoop fd n gas dst) (fun _ s' => LeftOpen s₀ s' L) s := by
  induction gas generalizing s dst with
  | zero => exact h
  | succ gas ih =>
    simp only [Urandom.readExactLoop, Program.ensures_run_ite, Program.ensures_run_bind, keeps_read,
      Program.onOk_ok, Program.ensures_run_pure]
    refine ⟨fun _ r _ _ => ⟨trivial, ?_⟩, fun _ => h⟩
    have h' := leftOpen_read h fd (n - dst.length) r
    cases r with
    | error e => exact h'
    | ok b =>
      simp only [Program.ensures_run_ite, Program.ensures_run_throw]
      exact ⟨fun _ => h', fun _ => ih h' _⟩

theorem randomFromAlphabet_leftOpen (h : LeftOpen s₀ s L) (rng : Urandom) (count : ℕ)
    (alphabet : Bytes) : Keeps Generating (rng.randomFromAlphabet count alphabet)
      (fun _ s' => LeftOpen s₀ s' L) s := by
  simp only [Urandom.randomFromAlphabet, Urandom.readExact, Program.ensures_run_ite,
    Program.ensures_run_throw]
  refine ⟨fun _ => h, fun _ => ?_⟩
  exact (readExactLoop_leftOpen h _ _ _ _).runSeq (fun _ _ h' => h') fun _ _ h' => h'

theorem shuffle_leftOpen (h : LeftOpen s₀ s L) (rng : Urandom) (i : ℕ) (a : Bytes) :
    Keeps Generating (rng.shuffle i a) (fun _ s' => LeftOpen s₀ s' L) s := by
  induction i, a using Urandom.shuffle.induct generalizing s with
  | case1 a => exact h
  | case2 a => exact h
  | case3 i a ih =>
    rw [Urandom.shuffle]
    apply (readExactLoop_leftOpen h _ _ _ _).runSeq (fun _ _ h' => h')
    intro x s' h'
    exact ih x h'

theorem randomPasswordCounts_leftOpen (h : LeftOpen s₀ s L) (rng : Urandom) (a b c : ℕ) :
    Keeps Generating (rng.randomPasswordCounts a b c) (fun _ s' => LeftOpen s₀ s' L) s := by
  unfold Urandom.randomPasswordCounts
  apply (randomFromAlphabet_leftOpen h _ _ _).runSeq (fun _ _ h' => h')
  intro a s1 h1
  apply (randomFromAlphabet_leftOpen h1 _ _ _).runSeq (fun _ _ h' => h')
  intro b s2 h2
  apply (randomFromAlphabet_leftOpen h2 _ _ _).runSeq (fun _ _ h' => h')
  intro c s3 h3
  exact shuffle_leftOpen h3 _ _ _

theorem urandomString_leftOpen (h : LeftOpen s₀ s L) (length : ℕ) (alphabet : Bytes) :
    Keeps Generating (Urandom.urandomString length alphabet) (fun _ s' => LeftOpen s₀ s' L) s := by
  simp only [Urandom.urandomString, Program.ensures_run_ite, Program.ensures_run_bind,
    Program.ensures_run_pure, keeps_openUrandom, Program.onOk_ok]
  refine ⟨fun _ => h, fun _ r _ hr => ⟨trivial, ?_⟩⟩
  cases r with
  | error e => exact h.after rfl rfl rfl
  | ok fd =>
    have h1 : LeftOpen s₀ (s.after .openUrandom (.ok fd)) (fd :: L) := h.cons hr rfl rfl rfl
    simp only [Program.ensures_run_bind, keeps_read, keeps_close, Program.onOk_ok]
    intro got _ _
    refine ⟨trivial, fun _ => ⟨trivial, ?_⟩⟩
    have h2 := (leftOpen_read h1 fd length got).close_head
    cases got with
    | error e => exact h2
    | ok buf =>
      simp only [Program.ensures_run_ite, Program.ensures_run_pure, Program.ensures_run_throw]
      exact ⟨fun _ => h2, fun _ => h2⟩

theorem construct_leftOpen (h : LeftOpen s₀ s L) :
    Keeps Generating Urandom.construct
      (Program.onOk (fun rng s' => LeftOpen s₀ s' (rng.fd :: L) ∧ Tally s s' [])
        fun _ s' => LeftOpen s₀ s' L ∧ Tally s s' []) s := by
  simp only [Urandom.construct, Program.ensures_run_bind, keeps_openUrandom, Program.onOk_ok]
  intro r _ hr
  refine ⟨trivial, ?_⟩
  cases r with
  | error e => exact ⟨h.after rfl rfl rfl, .nil rfl rfl⟩
  | ok fd => exact ⟨h.cons hr rfl rfl rfl, .nil rfl rfl⟩

/-- The destructor closes the descriptor of the object. -/
theorem destruct_leftOpen {G : State → (o : SysOp) → o.Res → Prop} {rng : Urandom}
    {Q : State → Prop} (h : LeftOpen s₀ s L) (hm : rng.fd ∈ L)
    (hG : ∀ s, G s (.close rng.fd) ())
    (hQ : LeftOpen s₀ (s.after (.close rng.fd) ()) (L.erase rng.fd) →
      Q (s.after (.close rng.fd) ())) :
    Program.Ensures clientEnv.recorded G rng.destruct (fun _ => Q) s := by
  rw [Urandom.destruct, if_pos (h.fresh _ hm).1, keeps_perform]
  exact fun _ _ _ => ⟨hG s, hQ (h.erase hm)⟩

theorem generatePassword_leftOpen (h : LeftOpen s₀ s L) (a b c : ℕ) :
    Keeps Generating (Urandom.generatePassword a b c) (fun _ s' => LeftOpen s₀ s' L) s := by
  have hstring {s : State} {length : ℕ} {alphabet : Bytes} {f : Bytes → Sys Bytes}
      (hf : ∀ a s, LeftOpen s₀ s L → Keeps Generating (f a) (fun _ s' => LeftOpen s₀ s' L) s)
      (h : LeftOpen s₀ s L) : Keeps Generating (Urandom.urandomString length alphabet >>= f)
        (fun _ s' => LeftOpen s₀ s' L) s :=
    (urandomString_leftOpen h _ _).runSeq (fun _ _ h' => h') hf
  unfold Urandom.generatePassword
  refine hstring (fun _ _ => hstring fun _ _ => hstring fun _ _ => hstring fun _ _ =>
    hstring fun _ s5 h5 => ?_) h
  refine keeps_inScope ((construct_leftOpen h5).post fun r s6 h6 => ?_)
  cases r with
  | error e => exact h6.1
  | ok rng =>
    apply (randomPasswordCounts_leftOpen h6.1 rng _ _ _).post
    intro r s7 h7
    apply destruct_leftOpen h7 (List.mem_cons_self ..) (fun _ => trivial)
    intro h8
    rwa [List.erase_cons_head] at h8

/-- `GenerateRandom` leaves its own descriptor open exactly when its own read delivers. -/
theorem generateRandom_leftOpen (h : LeftOpen s₀ s L) (n m k : ℕ) :
    Keeps (fun _ _ _ => True) (Urandom.generateRandom n m k) (fun _ s' =>
      ∃ X, LeftOpen s₀ s' (X ++ L) ∧ Tally s s' X) s := by
  simp only [Urandom.generateRandom, Program.ensures_run_bind, keeps_openUrandom, Program.onOk_ok]
  intro r _ hr
  refine ⟨trivial, ?_⟩
  cases r with
  | error e =>
    simp only [Program.ensures_run_bind, keeps_perror, Program.onOk_ok, Program.ensures_run_pure]
    exact fun _ => ⟨trivial, [], (h.after rfl rfl rfl).after rfl rfl rfl, .nil rfl rfl⟩
  | ok fd =>
    have h1 : LeftOpen s₀ (s.after .openUrandom (.ok fd)) (fd :: L) := h.cons hr rfl rfl rfl
    simp only [Program.ensures_run_bind, keeps_read, Program.onOk_ok, Program.ensures_run_ite,
      keeps_perror, keeps_close, Program.ensures_run_pure]
    intro got _ _
    refine ⟨trivial, fun hgot => ?_, fun hgot => ?_⟩
    · cases got with
      | error e => simp [Except.toOption] at hgot
      | ok b =>
        have hb : b.length = Urandom.randomBytes := by simpa [Except.toOption] using hgot
        have hread : randomReads
            ((s.after .openUrandom (.ok fd)).after (.read fd Urandom.randomBytes) (.ok b)).history =
              randomReads s.history + 1 := by simp [hb]
        have hpass := (generatePassword_leftOpen
          (leftOpen_read h1 fd Urandom.randomBytes (.ok b)) n m k).frame
          (fun w o r _ hg hi => Generating.counts hg hi) ⟨hread.ge, rfl⟩
        apply hpass.mono (fun _ _ _ _ _ => trivial)
        intro _ s' hpost
        obtain ⟨h', hn, hp⟩ := hpost
        exact ⟨[fd], h', { reads_le := (Nat.le_succ _).trans hn
                           replies_le := hp.ge
                           nil_iff := iff_of_false (by simp) fun he => by omega }⟩
    · intro _
      refine ⟨trivial, fun _ => ⟨trivial, ?_⟩⟩
      have hread : randomReads
          ((s.after .openUrandom (.ok fd)).after (.read fd Urandom.randomBytes) got).history =
            randomReads s.history := by
        cases got with
        | error e => simp
        | ok b =>
          have hb : b.length ≠ Urandom.randomBytes := by simpa [Except.toOption] using hgot
          simp [hb]
      have h2 := (leftOpen_read h1 fd Urandom.randomBytes got).after
        (o := .perror Urandom.failedToRead) (r := ()) rfl rfl rfl
      refine ⟨[], h2.close_head, .nil hread ?_⟩
      cases got <;> rfl

/-- `connect` gives the socket a peer. -/
theorem leftOpen_connect (h : LeftOpen s₀ s L) {fd : ℤ} (hm : fd ∈ L) (port : ℕ)
    (r : Except Errno Unit) : LeftOpen s₀ (s.after (.connect fd port) r) L := by
  cases r with
  | error e => exact h.after rfl rfl rfl
  | ok u =>
    refine { h with fresh := fun fd' hm' => ?_, same := fun fd' hm' => ?_ }
    · obtain ⟨h0, hn, hs⟩ := h.fresh fd' hm'
      refine ⟨h0, hn, ?_⟩
      by_cases he : fd' = fd
      · simp [he]
      · simpa [DescriptorTable.set_of_ne _ _ he] using hs
    · have he : fd' ≠ fd := fun he => hm' (he ▸ hm)
      simpa [DescriptorTable.set_of_ne _ _ he] using h.same fd' hm'

/-- `create_tcp_client` returns a socket, or -1 with everything closed. -/
theorem createTcpClient_leftOpen (h : LeftOpen s₀ s L) (ip : Bytes) (port : ℕ) :
    Keeps (fun _ _ _ => True) (createTcpClient ip port) (fun r s' => ∃ sock, r = .ok sock ∧
      Tally s s' [] ∧ (sock = -1 ∧ LeftOpen s₀ s' L ∨ LeftOpen s₀ s' (sock :: L))) s := by
  simp only [createTcpClient, Program.ensures_run_bind, keeps_socket, Program.onOk_ok]
  intro r _ hr
  refine ⟨trivial, ?_⟩
  cases r with
  | error e =>
    simp only [Program.ensures_run_bind, keeps_messageBox, Program.onOk_ok, keeps_exit, and_true,
      imp_true_iff]
  | ok fd =>
    have h1 : LeftOpen s₀ (s.after .socket (.ok fd)) (fd :: L) := h.cons hr rfl rfl rfl
    simp only [Program.ensures_run_bind, keeps_inetPton, Program.onOk_ok, Program.ensures_run_ite,
      keeps_connect, keeps_messageBox, keeps_close, Program.ensures_run_pure]
    intro valid _
    refine ⟨trivial, fun _ => ?_, fun _ => ?_⟩
    · intro r _ _
      refine ⟨trivial, ?_⟩
      have h2 := leftOpen_connect (h1.after (o := .inetPton ip) (r := valid) rfl rfl rfl)
        (List.mem_cons_self ..) port r
      cases r with
      | error e =>
        simp only [Program.ensures_run_bind, keeps_messageBox, keeps_close, Program.onOk_ok,
          Program.ensures_run_pure]
        intro _
        refine ⟨trivial, fun _ => ⟨trivial, -1, rfl, .nil rfl rfl, .inl ⟨rfl, .close_head ?_⟩⟩⟩
        exact h2.after rfl rfl rfl
      | ok u => exact ⟨fd, rfl, .nil rfl rfl, .inr h2⟩
    · intro _
      refine ⟨trivial, fun _ => ⟨trivial, -1, rfl, .nil rfl rfl, .inl ⟨rfl, .close_head ?_⟩⟩⟩
      exact (h1.after rfl rfl rfl).after rfl rfl rfl

theorem sendCommand_leftOpen (h : LeftOpen s₀ s L) (command : ServerCommand) (sock : ℤ)
    (randomValue : Bytes) :
    Keeps (fun _ _ _ => True) (TcpClient.sendCommand command sock randomValue) (fun r s' =>
      r = .ok () ∧ LeftOpen s₀ s' L ∧ Tally s s' []) s := by
  have hsend (message : Bytes) : Keeps (fun _ _ _ => True)
      (TcpClient.sendMessageToServer sock message) (fun r s' =>
        r = .ok () ∧ LeftOpen s₀ s' L ∧ Tally s s' []) s := by
    simp only [TcpClient.sendMessageToServer, Program.ensures_run_bind, keeps_send, Program.onOk_ok,
      Program.ensures_run_pure]
    intro r _ _
    refine ⟨trivial, trivial, ?_, .nil rfl rfl⟩
    cases r with
    | error e => cases e <;> exact h.after rfl rfl rfl
    | ok n => exact h.after rfl rfl rfl
  cases command with
  | URANDOM_MESSAGE => exact hsend _
  | RELOAD_COMMAND => exact hsend _
  | SHUTDOWN_COMMAND => exact hsend _
  | _ =>
    exact (keeps_stdout _ _).2 fun _ => ⟨trivial, rfl, h.after rfl rfl rfl, .nil rfl rfl⟩

/-- The socket stays open exactly when a reply has been read. -/
theorem awaitReply_leftOpen {M : List ℤ} {sock : ℤ} (h : LeftOpen s₀ s M)
    (hM : sock = -1 ∧ M = L ∨ M = sock :: L) :
    Keeps (fun _ _ _ => True) (TcpClient.awaitReply sock) (fun _ s' =>
      ∃ X, LeftOpen s₀ s' (X ++ L) ∧ Tally s s' X) s := by
  have hclose {s' : State} (h' : LeftOpen s₀ s' M) :
      LeftOpen s₀ (s'.after (.close sock) ()) L := by
    rcases hM with ⟨rfl, rfl⟩ | rfl
    · exact h'.close_neg
    · exact h'.close_head
  simp only [TcpClient.awaitReply, Program.ensures_run_bind, keeps_recv, Program.onOk_ok]
  intro r _ hr
  refine ⟨trivial, ?_⟩
  cases r with
  | error e =>
    simp only [Program.ensures_run_bind, keeps_close, Program.onOk_ok, Program.ensures_run_pure]
    exact fun _ => ⟨trivial, [], hclose (h.after rfl rfl rfl), .nil rfl rfl⟩
  | ok b =>
    simp only [answers, Bool.and_eq_true, decide_eq_true_eq] at hr
    simp only [Program.ensures_run_ite, Program.ensures_run_bind, keeps_close, Program.onOk_ok,
      Program.ensures_run_pure, List.length_pos_iff]
    refine ⟨fun hb => ?_, fun hb _ =>
      ⟨trivial, [], hclose (h.after rfl rfl rfl), .nil rfl ?_⟩⟩
    · -- a reply cannot come from -1
      have hsock : M = sock :: L := by
        rcases hM with ⟨rfl, -⟩ | hM
        · exact absurd (DescriptorTable.connected_iff.1 hr.1).1 (by decide)
        · exact hM
      subst hsock
      have hreply {s' : State} (hr : randomReads s'.history = randomReads s.history)
          (hp : replies s'.history = replies s.history + 1) : Tally s s' [sock] :=
        { reads_le := hr.ge
          replies_le := (Nat.le_succ _).trans hp.ge
          nil_iff := iff_of_false (by simp) fun he => by omega }
      simp only [TcpClient.verdict, logOutput, Program.ensures_run_ite, Program.ensures_run_bind,
        keeps_stdout, Program.onOk_ok, Program.ensures_run_pure]
      have hopen := h.after (o := .recv sock (1024 - 1)) (r := .ok b) rfl rfl rfl
      exact ⟨fun _ _ => ⟨trivial, [sock], hopen.after rfl rfl rfl, hreply rfl (by simp [hb])⟩,
        fun _ _ => ⟨trivial, [sock], hopen.after rfl rfl rfl, hreply rfl (by simp [hb])⟩⟩
    · simp [not_not.1 hb]

/-- One call leaves something open exactly when the read of `GenerateRandom` or a reply has
delivered. -/
theorem connectToServer_leftOpen (command : ServerCommand) (s : State) :
    Keeps (fun _ _ _ => True) (TcpClient.connectToServer command)
      (fun _ s' => ∃ X, LeftOpen s s' X ∧ Tally s s' X) s := by
  refine keeps_inScope (((construct_leftOpen (.refl s)).mono (fun _ _ _ _ _ => trivial)
    fun _ _ h => h).post fun r s1 h1 => ?_)
  cases r with
  | error e => exact ⟨[], h1⟩
  | ok rng =>
    have hdestruct {s' : State} {X : List ℤ} (h' : LeftOpen s s' (X ++ [rng.fd]))
        (ht : Tally s1 s' X) : Program.Ensures clientEnv.recorded (fun _ _ _ => True) rng.destruct
          (fun _ s' => ∃ X, LeftOpen s s' X ∧ Tally s s' X) s' := by
      refine destruct_leftOpen h' (by simp) (fun _ => trivial) fun h'' => ⟨X, ?_, ?_⟩
      · have hnew : rng.fd ∉ X := fun hm =>
          (List.nodup_append.1 h'.nodup).2.2 _ hm _ (List.mem_singleton_self _) rfl
        rwa [List.erase_append_right _ hnew, List.erase_cons_head, List.append_nil] at h''
      · have ht' := h1.2.append ht
        rw [List.append_nil] at ht'
        exact { ht' with }
    simp only [Program.onOk_ok, Program.ensures_run_bind]
    apply (generateRandom_leftOpen h1.1 4 10 4).post
    intro r s2 h2
    obtain ⟨X, h2, ht2⟩ := h2
    cases r with
    | error e => exact hdestruct h2 ht2
    | ok randomValue =>
    apply (createTcpClient_leftOpen h2 serverIp serverPort).post
    intro r s3 h3
    obtain ⟨sock, rfl, ht3, h3⟩ := h3
    -- the socket is one more descriptor to be closed, unless it is -1
    obtain ⟨M, h3, hM⟩ : ∃ M, LeftOpen s s3 M ∧
        (sock = -1 ∧ M = X ++ [rng.fd] ∨ M = sock :: (X ++ [rng.fd])) := by
      rcases h3 with ⟨rfl, h3⟩ | h3
      · exact ⟨_, h3, .inl ⟨rfl, rfl⟩⟩
      · exact ⟨_, h3, .inr rfl⟩
    apply (sendCommand_leftOpen h3 command sock randomValue).post
    intro r s4 h4
    obtain ⟨rfl, h4, ht4⟩ := h4
    have ht := (ht2.append ht3).append ht4
    apply (awaitReply_leftOpen h4 hM).post
    intro r s5 h5
    obtain ⟨Y, h5, ht5⟩ := h5
    exact hdestruct (X := Y ++ X) (by rwa [List.append_assoc]) (by simpa using ht.append ht5)

end Passes

/-! ## Many calls -/

/-- The calls of `ConnectToServer` that a process has made since `s`, the latest first, each with
the states before and after it. A call is over when it returns or throws. -/
inductive Session (s : State) : List (State × State) → State → Prop where
  | start : Session s [] s
  | call {calls : List (State × State)} {s' s'' : State} (h : Session s calls s')
      (command : ServerCommand) (r : Except Thrown ℤ)
      (hs : clientEnv.recorded.Steps (s', (TcpClient.connectToServer command).run) (s'', .done r)) :
      Session s ((s', s'') :: calls) s''

variable {s s' : State} {calls : List (State × State)}

/-- What the calls of a session leave open adds up. -/
theorem Session.tally (h : Session s calls s') :
    ∃ X, Tally s s' X ∧ (X = [] ↔ ∀ c ∈ calls, Balanced c.1 c.2) := by
  induction h with
  | start => exact ⟨[], .nil rfl rfl, by simp⟩
  | @call calls s' s'' h command r hs ih =>
    obtain ⟨X, ht, hX⟩ := ih
    obtain ⟨Y, ho, ht'⟩ := (connectToServer_leftOpen command s').steps hs
    refine ⟨Y ++ X, ht.append ht', ?_⟩
    rw [List.append_eq_nil_iff, hX, ← ho.balanced_iff, List.forall_mem_cons]

/-- In a session every call closes exactly once what it has opened if and only if no call has got
the random bytes that `GenerateRandom` reads, and none has got a reply. -/
theorem session_balanced_iff (h : Session s calls s') :
    (∀ c ∈ calls, Balanced c.1 c.2) ↔
      randomReads s'.history = randomReads s.history ∧ replies s'.history = replies s.history := by
  obtain ⟨X, ht, hX⟩ := h.tally
  rw [← hX, ht.nil_iff]

/-- One call in which everything succeeds and the request comes back. -/
def echoed : State × Program SysOp SysOp.Res (Except Thrown ℤ) :=
  runObliging (ascii "RELOAD") .RELOAD_COMMAND

theorem echoed_session :
    Session ⟨.start, []⟩ [(⟨.start, []⟩, echoed.1)] echoed.1 :=
  .call .start .RELOAD_COMMAND (.ok exitSuccess)
    (runObliging_steps (ascii "RELOAD") .RELOAD_COMMAND)

/-- The descriptor of `GenerateRandom`, number 4, and the socket are still open. -/
theorem not_balanced_echoed :
    Session ⟨.start, []⟩ [(⟨.start, []⟩, echoed.1)] echoed.1 ∧
      ¬ Balanced ⟨.start, []⟩ echoed.1 := by
  refine ⟨echoed_session, fun h => ?_⟩
  have htable := congrFun h.table 4
  exact absurd htable (by decide)

theorem session_balanced_iff_echoed :
    (∀ c ∈ [((⟨.start, []⟩ : State), echoed.1)], Balanced c.1 c.2) ↔
      randomReads echoed.1.history = 0 ∧ replies echoed.1.history = 0 :=
  session_balanced_iff echoed_session

end KCNet.Client
