import KCNet.Client.Alphabet
import KCNet.Random.FisherYates
import Mathlib.GroupTheory.GroupAction.Ring

/-!
# The passwords of `random_password_counts`

What the function returns over all random streams, and how evenly its shuffle spreads. Both come
from the same fact: the shuffle on the draws `x` is the Fisher-Yates loop of `x`.

## Main definitions

- `Supplies` — the bytes on which a program returns a value
- `drawBytes` — a sequence of draws as bytes of the device
- `Realises` — the draws with which the shuffle moves the characters by a given permutation
-/

namespace KCNet.Client

open Interaction Urandom KCNet.Random Equiv

/-! ## Programs on a stream -/

/-- The next bytes of the device are those of `stream`. -/
def Device.Holds (d : Device) (pos : Position) (stream : Bytes) : Prop :=
  d.bytes pos.consumed stream.length = stream

theorem Device.holds_append {d : Device} {pos : Position} {s t : Bytes} (m : ℕ) :
    d.Holds pos (s ++ t) ↔ d.Holds pos s ∧ d.Holds (pos.advance s.length m) t := by
  rw [Holds, List.length_append, bytes_add]
  constructor
  · intro h
    exact List.append_inj h (bytes_length ..)
  · rintro ⟨hs, ht⟩
    exact congrArg₂ _ hs ht

theorem Device.holds_withBuffer (d : Device) (pos : Position) (stream : Bytes) :
    (d.withBuffer pos.consumed stream.get).Holds pos stream := by
  rw [Holds, bytes_withBuffer, List.ofFn_get]

/-- Without failures the program uses up `stream` and returns `a`. -/
def Supplies {α : Type} (p : Sys α) (stream : Bytes) (a : α) : Prop :=
  ∀ (d : Device) (pos : Position), d.Unfailing → d.Holds pos stream →
    ∃ m, d.run p pos = (pos.advance stream.length m, .done (.ok a))

variable {α β : Type} {p : Sys α} {f : α → Sys β} {s t : Bytes} {a : α} {b : β}

theorem supplies_pure (a : α) : Supplies (pure a) [] a := fun _ _ _ _ => ⟨0, rfl⟩

theorem Supplies.bind (hp : Supplies p s a) (hf : Supplies (f a) t b) :
    Supplies (p >>= f) (s ++ t) b := by
  intro d pos hd hold
  obtain ⟨m, hrun⟩ := hp d pos hd ((Device.holds_append 0).1 hold).1
  obtain ⟨m', hrun'⟩ := hf d (pos.advance s.length m) hd ((Device.holds_append m).1 hold).2
  refine ⟨m + m', ?_⟩
  rw [Device.run_bind_ok hrun, hrun', Position.advance_advance, List.length_append]

theorem Supplies.map (hp : Supplies p s a) (g : α → β) :
    Supplies (p >>= fun a => pure (g a)) s (g a) := by
  rw [← List.append_nil s]
  exact hp.bind (supplies_pure (g a))

theorem Supplies.returns (hp : Supplies p s a) {d : Device} (hd : d.Unfailing) (pos : Position)
    (h : d.Holds pos s) : d.Returns p pos a := by
  obtain ⟨m, hrun⟩ := hp d pos hd h
  exact ⟨_, hrun⟩

theorem supplies_readExact (rng : Urandom) (s : Bytes) : Supplies (rng.readExact s.length) s s := by
  intro d pos hd hold
  obtain ⟨m, -, hrun⟩ := run_readExact rng (hd.delivers pos.reads s.length)
  exact ⟨m, by rw [hrun, hold]⟩

/-- Any string over the alphabet can be supplied. -/
theorem exists_supplies_randomFromAlphabet (rng : Urandom) {alphabet w : Bytes}
    (hnd : alphabet.Nodup) (ha : alphabet ≠ []) (hw : ∀ c ∈ w, c ∈ alphabet) :
    ∃ s, Supplies (rng.randomFromAlphabet w.length alphabet) s w := by
  obtain ⟨buf, hbuf⟩ := exists_lookUp_eq hnd hw
  have hread := supplies_readExact rng (List.ofFn buf)
  rw [List.length_ofFn] at hread
  have hchoice := hread.map (lookUp alphabet)
  rw [hbuf] at hchoice
  refine ⟨List.ofFn buf, ?_⟩
  rw [randomFromAlphabet, if_neg ha]
  exact hchoice

/-! ## The shuffle -/

/-- The `n` bytes of a number, the lowest first. -/
def littleEndian : ℕ → ℕ → Bytes
  | 0, _ => []
  | n + 1, x => UInt8.ofNat x :: littleEndian n (x / 256)

@[simp] theorem littleEndian_length (n x : ℕ) : (littleEndian n x).length = n := by
  induction n generalizing x with
  | zero => rfl
  | succ n ih => rw [littleEndian, List.length_cons, ih]

theorem uint64OfBytes_littleEndian {n x : ℕ} (h : x < 256 ^ n) :
    uint64OfBytes (littleEndian n x) = x := by
  induction n generalizing x with
  | zero =>
    rw [Nat.pow_zero, Nat.lt_one_iff] at h
    exact h.symm
  | succ n ih =>
    have hrest : x / 256 < 256 ^ n := by
      rw [Nat.div_lt_iff_lt_mul (by decide), ← Nat.pow_succ]
      exact h
    calc uint64OfBytes (littleEndian (n + 1) x)
        = (UInt8.ofNat x).toNat + 256 * uint64OfBytes (littleEndian n (x / 256)) := rfl
      _ = x % 256 + 256 * (x / 256) := by
        rw [ih hrest]
        rfl
      _ = x := Nat.mod_add_div x 256

/-- The bytes that the shuffle draws as `x n`, ..., `x 2`. -/
def drawBytes (x : ℕ → ℕ) : ℕ → Bytes
  | 0 => []
  | 1 => []
  | i + 2 => littleEndian 8 (x (i + 2)) ++ drawBytes x (i + 1)

/-- A swap exchanges two positions. -/
theorem rearranged_swapAt {a : Bytes} {i j : ℕ} (hi : i < a.length) (hj : j < a.length) :
    Rearranged (swap i j) a (swapAt a i j) := by
  intro k
  rw [swapAt, List.getD_eq_getElem _ _ hi, List.getD_eq_getElem _ _ hj]
  by_cases hkj : k = j
  · subst hkj
    rw [swap_apply_right, List.getElem?_set_self (by rwa [List.length_set]),
      List.getElem?_eq_getElem hi]
  · rw [List.getElem?_set_ne (Ne.symm hkj)]
    by_cases hki : k = i
    · subst hki
      rw [swap_apply_left, List.getElem?_set_self hi, List.getElem?_eq_getElem hj]
    · rw [List.getElem?_set_ne (Ne.symm hki), swap_apply_of_ne_of_ne hki hkj]

/-- The shuffle on the draws `x` is the Fisher-Yates loop of `x`. -/
theorem exists_supplies_shuffle (rng : Urandom) (x : ℕ → ℕ) (n : ℕ) (a : Bytes)
    (hn : n ≤ a.length) (hx : ∀ i, x i < 2 ^ 64) :
    ∃ w, Rearranged (loop n x) a w ∧ Supplies (rng.shuffle n a) (drawBytes x n) w := by
  induction n, a using shuffle.induct with
  | case1 a => exact ⟨a, Rearranged.one a, supplies_pure a⟩
  | case2 a => exact ⟨a, Rearranged.one a, supplies_pure a⟩
  | case3 i a ih =>
    have hlt : x (i + 2) < 256 ^ 8 := hx (i + 2)
    have hj : x (i + 2) % (i + 2) < i + 2 := Nat.mod_lt _ (by omega)
    have hswap := rearranged_swapAt (by omega : i + 1 < a.length) (hj.trans_le hn)
    -- the first draw is the eight bytes of `x (i + 2)`
    have hword := supplies_readExact rng (littleEndian 8 (x (i + 2)))
    have hrest := ih (littleEndian 8 (x (i + 2)))
    rw [littleEndian_length] at hword
    rw [uint64OfBytes_littleEndian hlt] at hrest
    obtain ⟨w, hloop, hw⟩ := hrest (by rw [length_swapAt]; omega)
    refine ⟨w, hswap.trans hloop, ?_⟩
    rw [shuffle, drawBytes]
    apply hword.bind
    rwa [uint64OfBytes_littleEndian hlt]

/-! ## Arrangements -/

/-- Every arrangement of the characters can be supplied. -/
theorem exists_supplies_shuffle_perm (rng : Urandom) {u w : Bytes} (h : w.Perm u)
    (hu : u.length < 2 ^ 64) : ∃ s, Supplies (rng.shuffle u.length u) s w := by
  obtain ⟨j, hj⟩ := exists_rearranged h
  -- an index is less than the length, so it is a number of 64 bits
  have hx : ∀ i, atIndex (fun k => (j k : ℕ)) i < 2 ^ 64 := by
    apply atIndex_lt (by decide)
    intro k
    have := (j k).isLt
    omega
  obtain ⟨w', hw', hs⟩ := exists_supplies_shuffle rng _ u.length u le_rfl hx
  exact ⟨_, hj.unique hw' ▸ hs⟩

theorem count_filter_mem (p alphabet : Bytes) (ch : UInt8) :
    (p.filter (· ∈ alphabet)).count ch = if ch ∈ alphabet then p.count ch else 0 := by
  split
  · next h => exact List.count_filter (decide_eq_true h)
  · next h => exact List.count_eq_zero.2 fun hmem => h (by simpa using (List.mem_filter.1 hmem).2)

/-- The characters of each kind, one kind after the other. -/
theorem Mixed.split {a b c : ℕ} {p : Bytes} (h : Mixed a b c p) :
    ∃ x y z : Bytes, (x.length = a ∧ ∀ ch ∈ x, ch ∈ Urandom.digits) ∧
      (y.length = b ∧ ∀ ch ∈ y, ch ∈ Urandom.letters) ∧
      (z.length = c ∧ ∀ ch ∈ z, ch ∈ Urandom.symbols) ∧ p.Perm (x ++ y ++ z) := by
  refine ⟨p.filter (· ∈ Urandom.digits), p.filter (· ∈ Urandom.letters),
    p.filter (· ∈ Urandom.symbols), ⟨?_, by simp⟩, ⟨?_, by simp⟩, ⟨?_, by simp⟩, ?_⟩
  · rw [← List.countP_eq_length_filter, h.digits]
  · rw [← List.countP_eq_length_filter, h.letters]
  · rw [← List.countP_eq_length_filter, h.symbols]
  · obtain ⟨hd, hl, -⟩ := alphabets_disjoint
    rw [List.perm_iff_count]
    intro ch
    simp only [List.count_append, count_filter_mem]
    by_cases hdigit : ch ∈ Urandom.digits
    · simp [hdigit, hd ch hdigit]
    · by_cases hletter : ch ∈ Urandom.letters
      · simp [hletter, hl ch hletter]
      · by_cases hsymbol : ch ∈ Urandom.symbols
        · simp [hdigit, hletter, hsymbol]
        · -- there are no other characters
          have hother : ch ∉ p := by
            intro hmem
            have hkind := h.password.chars ch hmem
            simp [hdigit, hletter, hsymbol] at hkind
          simp [hdigit, hletter, hsymbol, List.count_eq_zero.2 hother]

/-! ## Which passwords are returned -/

/-- The parts of a run that returns. -/
theorem Device.Returns.of_bind {d : Device} {pos : Position} (h : d.Returns (p >>= f) pos b) :
    ∃ a pos', d.run p pos = (pos', .done (.ok a)) ∧ d.Returns (f a) pos' b := by
  obtain ⟨pos'', hrun⟩ := h
  obtain ⟨a, pos', hp, hf⟩ := exists_run_of_bind_ok hrun
  exact ⟨a, pos', hp, pos'', hf⟩

theorem perm_of_returns_shuffle (rng : Urandom) {d : Device} {pos : Position} {n : ℕ}
    {a w : Bytes} (hn : n ≤ a.length) (h : d.Returns (rng.shuffle n a) pos w) : w.Perm a := by
  induction n, a using shuffle.induct generalizing pos with
  | case1 a =>
    obtain ⟨pos', hrun⟩ := h
    cases hrun
    exact List.Perm.refl _
  | case2 a =>
    obtain ⟨pos', hrun⟩ := h
    cases hrun
    exact List.Perm.refl _
  | case3 i a ih =>
    rw [shuffle] at h
    obtain ⟨x, pos', -, hrest⟩ := h.of_bind
    have hj : uint64OfBytes x % (i + 2) < i + 2 := Nat.mod_lt _ (by omega)
    have hswap := swapAt_perm (by omega : i + 1 < a.length) (hj.trans_le hn)
    exact (ih x (by rw [length_swapAt]; omega) hrest).trans hswap

/-- Every password returned has the counts asked for, whatever the device does. -/
theorem mixed_of_returns (rng : Urandom) {d : Device} {pos : Position} {a b c : ℕ} {w : Bytes}
    (h : d.Returns (rng.randomPasswordCounts a b c) pos w) : Mixed a b c w := by
  have hchars {alphabet x : Bytes} {n : ℕ} {pos pos' : Position} (ha : alphabet ≠ [])
      (hx : d.run (rng.randomFromAlphabet n alphabet) pos = (pos', .done (.ok x))) :
      x.length = n ∧ ∀ ch ∈ x, ch ∈ alphabet := by
    obtain ⟨-, rfl⟩ := (returns_randomFromAlphabet_iff rng ha).1 ⟨pos', hx⟩
    exact ⟨by simp, fun ch hc => mem_lookUp ha hc⟩
  obtain ⟨x, pos1, hx, h1⟩ := h.of_bind
  obtain ⟨y, pos2, hy, h2⟩ := h1.of_bind
  obtain ⟨z, pos3, hz, h3⟩ := h2.of_bind
  obtain ⟨rfl, hdigits⟩ := hchars (by decide) hx
  obtain ⟨rfl, hletters⟩ := hchars (by decide) hy
  obtain ⟨rfl, hsymbols⟩ := hchars (by decide) hz
  exact (Mixed.append hdigits hletters hsymbols).perm (perm_of_returns_shuffle rng le_rfl h3)

/-- Every string with the counts asked for can be supplied. -/
theorem exists_supplies_randomPasswordCounts (rng : Urandom) {a b c : ℕ} {w : Bytes}
    (h : Mixed a b c w) (hlt : a + b + c < 2 ^ 64) :
    ∃ s, Supplies (rng.randomPasswordCounts a b c) s w := by
  obtain ⟨x, y, z, ⟨rfl, hx⟩, ⟨rfl, hy⟩, ⟨rfl, hz⟩, hperm⟩ := h.split
  obtain ⟨s1, h1⟩ := exists_supplies_randomFromAlphabet rng (by decide +kernel) (by decide) hx
  obtain ⟨s2, h2⟩ := exists_supplies_randomFromAlphabet rng (by decide +kernel) (by decide) hy
  obtain ⟨s3, h3⟩ := exists_supplies_randomFromAlphabet rng (by decide +kernel) (by decide) hz
  obtain ⟨s4, h4⟩ := exists_supplies_shuffle_perm rng hperm (by simpa [Nat.add_assoc] using hlt)
  exact ⟨_, h1.bind (h2.bind (h3.bind h4))⟩

/-- `random_password_counts` returns the strings with the counts asked for, all of them and no
others. Which of them it returns is up to the bytes; the schedule of the reads makes no difference
as long as none fails. -/
theorem randomPasswordCounts_range (rng : Urandom) {a b c : ℕ} (h : a + b + c < 2 ^ 64) :
    (∀ (d : Device) (pos : Position) (w : Bytes),
      d.Returns (rng.randomPasswordCounts a b c) pos w → Mixed a b c w) ∧
    ∀ (d : Device) (pos : Position), d.Unfailing →
      {w | ∃ byte : ℕ → UInt8,
        Device.Returns ⟨byte, d.result⟩ (rng.randomPasswordCounts a b c) pos w} =
      {w | Mixed a b c w} := by
  refine ⟨fun d pos w hw => mixed_of_returns rng hw, fun d pos hd => ?_⟩
  ext w
  constructor
  · rintro ⟨byte, hw⟩
    exact mixed_of_returns rng hw
  · intro hw
    obtain ⟨s, hs⟩ := exists_supplies_randomPasswordCounts rng hw h
    have hunf : (d.withBuffer pos.consumed s.get).Unfailing := hd
    exact ⟨_, hs.returns hunf pos (d.holds_withBuffer pos s)⟩

/-- Two digits and a letter come out in any order. -/
theorem randomPasswordCounts_range_threes : ∃ byte : ℕ → UInt8,
    Device.Returns ⟨byte, threes.result⟩ (randomPasswordCounts ⟨4⟩ 2 1 0) ⟨0, 0⟩ (ascii "7x3") := by
  have hd : threes.Unfailing := fun _ => Nat.succ_pos 2
  have hw : ascii "7x3" ∈ {w | Mixed 2 1 0 w} :=
    ⟨rfl, by decide +kernel, by decide +kernel, by decide +kernel⟩
  rwa [← (randomPasswordCounts_range ⟨4⟩ (by decide)).2 threes ⟨0, 0⟩ hd] at hw

/-! ## How evenly the shuffle spreads -/

/-- On the draws `v`, the last index first, the shuffle of any `n` characters moves the character
at `p k` to the position `k`. -/
def Realises (rng : Urandom) (n : ℕ) (v : Fin (n - 1) → ℕ) (p : Perm (Fin n)) : Prop :=
  ∀ a : Bytes, a.length = n → ∀ (d : Device) (pos : Position), d.Unfailing →
    d.Holds pos (drawBytes (atIndex v) n) →
    d.Returns (rng.shuffle n a) pos (List.ofFn fun k => a.getD (p k) 0)

theorem Device.Returns.unique {d : Device} {pos : Position} {a' : α} (h : d.Returns p pos a)
    (h' : d.Returns p pos a') : a = a' := by
  obtain ⟨pos1, hrun⟩ := h
  obtain ⟨pos2, hrun'⟩ := h'
  rw [hrun] at hrun'
  cases hrun'
  rfl

theorem rearranged_permutation {n : ℕ} {x : ℕ → ℕ} {a : Bytes} (ha : a.length = n) :
    Rearranged (loop n x) a (List.ofFn fun k => a.getD (permutation n x k) 0) := by
  intro k
  rw [List.getElem?_ofFn]
  split
  · next hk =>
    have hlt : loop n x k < a.length := (loop_lt hk).trans_eq ha.symm
    rw [permutation_apply, List.getD_eq_getElem _ _ hlt, List.getElem?_eq_getElem hlt]
  · next hk => rw [loop_of_le (not_lt.1 hk), List.getElem?_eq_none (by omega)]

/-- The draws realise the permutation of the Fisher-Yates loop, and no other. -/
theorem realises_iff (rng : Urandom) {n : ℕ} {v : Fin (n - 1) → ℕ} (hv : ∀ k, v k < 2 ^ 64)
    {p : Perm (Fin n)} : Realises rng n v p ↔ permutation n (atIndex v) = p := by
  have hshuffle {a : Bytes} (ha : a.length = n) : Supplies (rng.shuffle n a)
      (drawBytes (atIndex v) n) (List.ofFn fun k => a.getD (permutation n (atIndex v) k) 0) := by
    obtain ⟨w, hw, hs⟩ := exists_supplies_shuffle rng (atIndex v) n a ha.ge
      (atIndex_lt (by decide) hv)
    rwa [hw.unique (rearranged_permutation ha)] at hs
  constructor
  · intro h
    apply Equiv.ext
    intro k
    -- a string that differs from zero at `p k` only
    have ha : (List.ofFn fun i => if i = p k then (1 : UInt8) else 0).length = n := List.length_ofFn
    have hmark (q : Fin n) : (List.ofFn fun i => if i = p k then (1 : UInt8) else 0).getD q 0 =
        if q = p k then 1 else 0 := by
      rw [List.getD_eq_getElem _ _ (by simp), List.getElem_ofFn]
    have hunf : (threes.withBuffer 0 (drawBytes (atIndex v) n).get).Unfailing :=
      fun _ => Nat.succ_pos 2
    have hold := threes.holds_withBuffer ⟨0, 0⟩ (drawBytes (atIndex v) n)
    have heq := ((hshuffle ha).returns hunf _ hold).unique (h _ ha _ _ hunf hold)
    have hk := congrFun (List.ofFn_injective heq) k
    simp only [hmark, if_true] at hk
    by_contra hne
    rw [if_neg hne] at hk
    exact absurd hk (by decide)
  · rintro rfl a ha d pos hd hold
    exact (hshuffle ha).returns hd pos hold

/-- The shuffle favours no arrangement beyond the bias of the residues. The index vectors, drawn as
they are, realise every permutation of the `n` positions exactly once, and all permutations are
realised by nearly the same number of draw sequences. -/
theorem shuffle_unbiased (rng : Urandom) {n : ℕ} (hn : n ≤ 2 ^ 64) :
    (∃ f : Indices n → Perm (Fin n), Function.Bijective f ∧
      ∀ j p, Realises rng n (fun k => j k) p ↔ f j = p) ∧
    ∀ p : Perm (Fin n),
      ∏ i ∈ Finset.Icc 2 n, 2 ^ 64 / i ≤
          Nat.card {x : Fin (n - 1) → Fin (2 ^ 64) // Realises rng n (fun k => x k) p} ∧
        Nat.card {x : Fin (n - 1) → Fin (2 ^ 64) // Realises rng n (fun k => x k) p} ≤
          ∏ i ∈ Finset.Icc 2 n, 2 ^ 64 ⌈/⌉ i := by
  constructor
  · refine ⟨fun j => permutation n (atIndex fun k => j k), permutation_bijective n, fun j p => ?_⟩
    apply realises_iff
    intro k
    have := (j k).isLt
    omega
  · intro p
    simp only [realises_iff rng fun k => Fin.isLt _]
    rw [Nat.card_eq_fintype_card, Fintype.card_subtype]
    exact card_draws_bounds (2 ^ 64) p

/-- The reversal of three positions has at least `2 ^ 63 * (2 ^ 64 / 3)` draw sequences. -/
theorem shuffle_unbiased_three : 2 ^ 63 * (2 ^ 64 / 3) ≤
    Nat.card {x : Fin 2 → Fin (2 ^ 64) // Realises ⟨4⟩ 3 (fun k => x k) (swap 0 2)} := by
  have h := ((shuffle_unbiased ⟨4⟩ (by decide : 3 ≤ 2 ^ 64)).2 (swap 0 2)).1
  have hprod : ∏ i ∈ Finset.Icc 2 3, 2 ^ 64 / i = 2 ^ 63 * (2 ^ 64 / 3) := by decide
  rwa [hprod] at h

end KCNet.Client
