import KCNet.Client.Environment
import Mathlib.Data.List.Count
import Mathlib.Data.List.GetD

/-!
# What the generator returns

`random_password_counts` returns as many characters of each of its three alphabets as it is asked
for, however the reads deliver their bytes. `GenerateRandom` returns such a string or one of its two
error texts.

## Main definitions

- `Generating` — the operations of the generator
- `Mixed` — the strings of `random_password_counts` for given counts
- `Password` — the strings of `random_password_counts` by their length
-/

namespace KCNet.Client

open Interaction

/-- The operations of the generator: it neither connects nor sends nor receives, and it prints
nothing. -/
def Generating (_ : State) : (o : SysOp) → o.Res → Prop
  | .connect .., _ | .send .., _ | .recv .., _ | .stdout _, _ => False
  | _, _ => True

/-- The strings of `n` characters from the alphabets of `random_password_counts`. -/
structure Password (n : ℕ) (p : Bytes) : Prop where
  length : p.length = n
  chars : ∀ b ∈ p, b ∈ Urandom.digits ++ Urandom.letters ++ Urandom.symbols

/-- The strings of `a` digits, `b` letters and `c` symbols, in any order. -/
structure Mixed (a b c : ℕ) (p : Bytes) : Prop where
  length : p.length = a + b + c
  digits : p.countP (· ∈ Urandom.digits) = a
  letters : p.countP (· ∈ Urandom.letters) = b
  symbols : p.countP (· ∈ Urandom.symbols) = c

/-- The texts that the client sends as its random message. -/
def RandomValue (n : ℕ) (value : Bytes) : Prop :=
  Password n value ∨ value = Urandom.failedToOpen ∨ value = Urandom.failedToRead

/-! ## Characters -/

theorem mem_lookUp {alphabet buf : Bytes} (ha : alphabet ≠ []) {b : UInt8}
    (hb : b ∈ lookUp alphabet buf) : b ∈ alphabet := by
  obtain ⟨x, -, rfl⟩ := List.mem_map.1 hb
  have hlt : x.toNat % alphabet.length < alphabet.length :=
    Nat.mod_lt _ (List.length_pos_iff.2 ha)
  rw [List.getD_eq_getElem _ _ hlt]
  exact List.getElem_mem hlt

@[simp] theorem length_lookUp (alphabet buf : Bytes) :
    (lookUp alphabet buf).length = buf.length := List.length_map ..

@[simp] theorem length_swapAt (a : Bytes) (i j : ℕ) : (swapAt a i j).length = a.length := by
  simp [swapAt]

/-- A swap within a string loses, duplicates and alters nothing. -/
theorem swapAt_perm {a : Bytes} {i j : ℕ} (hi : i < a.length) (hj : j < a.length) :
    (swapAt a i j).Perm a := by
  rw [swapAt, List.getD_eq_getElem _ _ hi, List.getD_eq_getElem _ _ hj]
  exact List.set_set_perm hi hj

/-! ## Counts -/

/-- No character belongs to two of the alphabets. -/
theorem alphabets_disjoint : (∀ x ∈ Urandom.digits, x ∉ Urandom.letters ∧ x ∉ Urandom.symbols) ∧
    (∀ x ∈ Urandom.letters, x ∉ Urandom.digits ∧ x ∉ Urandom.symbols) ∧
    ∀ x ∈ Urandom.symbols, x ∉ Urandom.digits ∧ x ∉ Urandom.letters := by decide +kernel

theorem countP_mem_eq_length {p alphabet : Bytes} (h : ∀ x ∈ p, x ∈ alphabet) :
    p.countP (· ∈ alphabet) = p.length :=
  List.countP_eq_length.2 fun x hx => decide_eq_true (h x hx)

theorem countP_mem_eq_zero {p alphabet : Bytes} (h : ∀ x ∈ p, x ∉ alphabet) :
    p.countP (· ∈ alphabet) = 0 :=
  List.countP_eq_zero.2 fun x hx => by simpa using h x hx

/-- Digits, letters and symbols one after the other. -/
theorem Mixed.append {x y z : Bytes} (hx : ∀ b ∈ x, b ∈ Urandom.digits)
    (hy : ∀ b ∈ y, b ∈ Urandom.letters) (hz : ∀ b ∈ z, b ∈ Urandom.symbols) :
    Mixed x.length y.length z.length (x ++ y ++ z) := by
  obtain ⟨hd, hl, hs⟩ := alphabets_disjoint
  have hxl := countP_mem_eq_zero fun b hb => (hd b (hx b hb)).1
  have hxs := countP_mem_eq_zero fun b hb => (hd b (hx b hb)).2
  have hyd := countP_mem_eq_zero fun b hb => (hl b (hy b hb)).1
  have hys := countP_mem_eq_zero fun b hb => (hl b (hy b hb)).2
  have hzd := countP_mem_eq_zero fun b hb => (hs b (hz b hb)).1
  have hzl := countP_mem_eq_zero fun b hb => (hs b (hz b hb)).2
  constructor
  · simp [Nat.add_assoc]
  · rw [List.countP_append, List.countP_append, countP_mem_eq_length hx, hyd, hzd]
    rfl
  · rw [List.countP_append, List.countP_append, countP_mem_eq_length hy, hxl, hzl]
    omega
  · rw [List.countP_append, List.countP_append, countP_mem_eq_length hz, hxs, hys]
    omega

theorem Mixed.perm {a b c : ℕ} {p q : Bytes} (h : Mixed a b c p) (hq : q.Perm p) :
    Mixed a b c q where
  length := hq.length_eq.trans h.length
  digits := (hq.countP_eq _).trans h.digits
  letters := (hq.countP_eq _).trans h.letters
  symbols := (hq.countP_eq _).trans h.symbols

/-- A character is counted for one alphabet at most. -/
theorem countP_alphabets_le (p : Bytes) :
    p.countP (· ∈ Urandom.digits) + p.countP (· ∈ Urandom.letters) +
        p.countP (· ∈ Urandom.symbols) ≤
      p.countP (· ∈ Urandom.digits ++ Urandom.letters ++ Urandom.symbols) := by
  obtain ⟨hd, hl, -⟩ := alphabets_disjoint
  induction p with
  | nil => exact le_rfl
  | cons x p ih =>
    simp only [List.countP_cons, decide_eq_true_eq, List.mem_append] at ih ⊢
    by_cases hxd : x ∈ Urandom.digits
    · obtain ⟨hxl, hxs⟩ := hd x hxd
      simp only [hxd, hxl, hxs, if_true, if_false, true_or]
      omega
    · by_cases hxl : x ∈ Urandom.letters
      · simp only [hxd, hxl, (hl x hxl).2, if_true, if_false, or_true, true_or]
        omega
      · by_cases hxs : x ∈ Urandom.symbols
        · simp only [hxd, hxl, hxs, if_true, if_false, or_true]
          omega
        · simp only [hxd, hxl, hxs, if_false, or_self]
          omega

/-- The counts leave no room for other characters. -/
theorem Mixed.password {a b c : ℕ} {p : Bytes} (h : Mixed a b c p) : Password (a + b + c) p where
  length := h.length
  chars := by
    have hle := countP_alphabets_le p
    rw [h.digits, h.letters, h.symbols, ← h.length] at hle
    have hall := List.countP_eq_length.1 (le_antisymm List.countP_le_length hle)
    exact fun x hx => of_decide_eq_true (hall x hx)

/-! ## The functions of the class -/

variable {s : State}

/-- The value of a call that returns. -/
def Returns {α : Type} (P : α → Prop) (r : Except Thrown α) (_ : State) : Prop :=
  ∀ a, r = .ok a → P a

theorem returns_error {α : Type} (P : α → Prop) (e : Thrown) (s : State) :
    Returns P (.error e) s := fun _ h => nomatch h

/-- The loop delivers exactly the bytes that are missing. The induction is on the bound of its
rounds, which is never reached before the bytes are there. -/
theorem readExactLoop_returns (fd : ℤ) (n gas : ℕ) (dst : Bytes) (hdst : dst.length ≤ n)
    (hgas : n - dst.length ≤ gas) :
    Keeps Generating (Urandom.readExactLoop fd n gas dst)
      (Returns fun b => b.length = n) s := by
  induction gas generalizing s dst with
  | zero =>
    rintro _ ⟨⟩
    omega
  | succ gas ih =>
    simp only [Urandom.readExactLoop, Program.ensures_run_ite, Program.ensures_run_bind, keeps_read,
      Program.onOk_ok, Program.ensures_run_pure]
    refine ⟨fun hlt r _ hr => ⟨trivial, ?_⟩, fun hge => ?_⟩
    · cases r with
      | error e => exact returns_error _ _ s
      | ok b =>
        simp only [answers, Bool.and_eq_true, decide_eq_true_eq] at hr
        simp only [Program.ensures_run_ite, Program.ensures_run_throw]
        -- a read that delivers nothing throws; any other shortens what is missing
        refine ⟨fun _ => returns_error _ _ _, fun hb => ih (dst ++ b) ?_ ?_⟩
        · rw [List.length_append]
          omega
        · have hpos := List.length_pos_iff.2 hb
          rw [List.length_append]
          omega
    · rintro _ ⟨⟩
      omega

theorem readExact_returns (rng : Urandom) (n : ℕ) :
    Keeps Generating (rng.readExact n) (Returns fun b => b.length = n) s :=
  readExactLoop_returns _ _ _ _ (Nat.zero_le n) le_rfl

theorem randomFromAlphabet_returns (rng : Urandom) (count : ℕ) (alphabet : Bytes) :
    Keeps Generating (rng.randomFromAlphabet count alphabet)
      (Returns fun p => p.length = count ∧ ∀ b ∈ p, b ∈ alphabet) s := by
  simp only [Urandom.randomFromAlphabet, Program.ensures_run_ite, Program.ensures_run_throw]
  refine ⟨fun _ => returns_error _ _ s, fun ha => ?_⟩
  apply (readExact_returns rng count).runSeq (fun e s' _ => returns_error _ e s')
  rintro buf s' hr _ ⟨⟩
  exact ⟨(length_lookUp _ _).trans (hr buf rfl), fun b hb => mem_lookUp ha hb⟩

/-- The shuffle only moves characters. -/
theorem shuffle_returns (rng : Urandom) (i : ℕ) (a : Bytes) (hi : i ≤ a.length) :
    Keeps Generating (rng.shuffle i a) (Returns fun p => p.Perm a) s := by
  induction i, a using Urandom.shuffle.induct generalizing s with
  | case1 a =>
    rintro _ ⟨⟩
    exact List.Perm.refl a
  | case2 a =>
    rintro _ ⟨⟩
    exact List.Perm.refl a
  | case3 i a ih =>
    rw [Urandom.shuffle]
    apply (readExact_returns rng 8).runSeq (fun e s' _ => returns_error _ e s')
    intro x s' _
    -- both indices of the swap are in range
    have hj : uint64OfBytes x % (i + 2) < i + 2 := Nat.mod_lt _ (by omega)
    have hswap := swapAt_perm (by omega : i + 1 < a.length) (hj.trans_le hi)
    apply (ih x (by rw [length_swapAt]; omega)).post
    intro r s'' hr p hp
    exact (hr p hp).trans hswap

/-- The strings of `random_password_counts`, for any counts. -/
theorem randomPasswordCounts_returns (rng : Urandom) (numNumbers numLetters numSymbols : ℕ) :
    Keeps Generating (rng.randomPasswordCounts numNumbers numLetters numSymbols)
      (Returns (Mixed numNumbers numLetters numSymbols)) s := by
  unfold Urandom.randomPasswordCounts
  apply (randomFromAlphabet_returns rng _ _).runSeq (fun e s' _ => returns_error _ e s')
  intro a s1 h1
  apply (randomFromAlphabet_returns rng _ _).runSeq (fun e s' _ => returns_error _ e s')
  intro b s2 h2
  apply (randomFromAlphabet_returns rng _ _).runSeq (fun e s' _ => returns_error _ e s')
  intro c s3 h3
  obtain ⟨rfl, ha⟩ := h1 a rfl
  obtain ⟨rfl, hb⟩ := h2 b rfl
  obtain ⟨rfl, hc⟩ := h3 c rfl
  apply (shuffle_returns rng _ _ le_rfl).post
  intro r s4 hr p hp
  exact (Mixed.append ha hb hc).perm (hr p hp)

theorem urandomString_generating (length : ℕ) (alphabet : Bytes) :
    Keeps Generating (Urandom.urandomString length alphabet) (fun _ _ => True) s := by
  simp only [Urandom.urandomString, Program.ensures_run_ite, Program.ensures_run_bind,
    Program.ensures_run_pure, keeps_openUrandom, Program.onOk_ok]
  refine ⟨fun _ => trivial, fun _ r _ _ => ⟨trivial, ?_⟩⟩
  cases r with
  | error e => trivial
  | ok fd =>
    simp only [Program.ensures_run_bind, keeps_read, keeps_close, Program.onOk_ok]
    intro got _ _
    refine ⟨trivial, fun _ => ⟨trivial, ?_⟩⟩
    cases got with
    | error e => trivial
    | ok buf =>
      simp only [Program.ensures_run_ite, Program.ensures_run_pure, Program.ensures_run_throw]
      exact ⟨fun _ => trivial, fun _ => trivial⟩

theorem construct_generating : Keeps Generating Urandom.construct (fun _ _ => True) s := by
  simp only [Urandom.construct, Program.ensures_run_bind, keeps_openUrandom, Program.onOk_ok]
  intro r _ _
  refine ⟨trivial, ?_⟩
  cases r <;> trivial

theorem destruct_generating (rng : Urandom) {Q : State → Prop} (h : ∀ s, Q s) :
    Program.Ensures clientEnv.recorded Generating rng.destruct (fun _ => Q) s := by
  rw [Urandom.destruct, Program.ensures_ite]
  exact ⟨fun _ => (keeps_perform _ _).2 fun _ _ _ => ⟨trivial, h _⟩, fun _ => h s⟩

theorem generatePassword_returns (numNumbers numLetters numSymbols : ℕ) :
    Keeps Generating (Urandom.generatePassword numNumbers numLetters numSymbols)
      (Returns (Mixed numNumbers numLetters numSymbols)) s := by
  have hstring {s : State} {length : ℕ} {alphabet : Bytes} {f : Bytes → Sys Bytes}
      {P : Bytes → Prop} (hf : ∀ a s, Keeps Generating (f a) (Returns P) s) :
      Keeps Generating (Urandom.urandomString length alphabet >>= f) (Returns P) s :=
    (urandomString_generating _ _).runSeq (fun e s' _ => returns_error _ e s') fun a s' _ => hf a s'
  unfold Urandom.generatePassword
  refine hstring fun _ _ => hstring fun _ _ => hstring fun _ _ => hstring fun _ _ =>
    hstring fun _ s5 => ?_
  refine keeps_inScope (construct_generating.post fun r s6 _ => ?_)
  cases r with
  | error e => exact returns_error _ e s6
  | ok rng =>
    apply (randomPasswordCounts_returns rng _ _ _).post
    intro r s7 hr
    exact destruct_generating rng fun _ => hr

/-- `GenerateRandom` returns a password, or one of its error texts. -/
theorem generateRandom_returns (numNumbers numLetters numSymbols : ℕ) :
    Keeps Generating (Urandom.generateRandom numNumbers numLetters numSymbols)
      (Returns (RandomValue (numNumbers + numLetters + numSymbols))) s := by
  simp only [Urandom.generateRandom, Program.ensures_run_bind, keeps_openUrandom, Program.onOk_ok]
  intro r _ _
  refine ⟨trivial, ?_⟩
  cases r with
  | error e =>
    simp only [Program.ensures_run_bind, keeps_perror, Program.onOk_ok, Program.ensures_run_pure]
    intro _
    refine ⟨trivial, ?_⟩
    rintro _ ⟨⟩
    exact .inr (.inl rfl)
  | ok fd =>
    simp only [Program.ensures_run_bind, keeps_read, Program.onOk_ok, Program.ensures_run_ite,
      keeps_perror, keeps_close, Program.ensures_run_pure]
    intro got _ _
    refine ⟨trivial, fun _ => ?_, fun _ => ?_⟩
    · exact (generatePassword_returns _ _ _).post fun r s' hr a ha => .inl (hr a ha).password
    · intro _
      refine ⟨trivial, fun _ => ⟨trivial, ?_⟩⟩
      rintro _ ⟨⟩
      exact .inr (.inr rfl)

end KCNet.Client
