import KCNet.Client.Generator
import KCNet.Client.ReadExact
import KCNet.Random.Residues
import Mathlib.Algebra.BigOperators.Fin
import Mathlib.SetTheory.Cardinal.Finite

/-!
# Characters from an alphabet

The two functions that turn random bytes into characters. How far their strings are from uniform is
a matter of residues: of the 256 bytes, those that lead to one character are counted exactly. The
two functions read the device differently, so they do not return the same strings.

## Main definitions

- `Device.withBuffer` — a device whose next bytes are given
-/

namespace KCNet.Client

open Interaction Urandom Finset KCNet.Random

variable {d : Device} {pos : Position} {alphabet w : Bytes} {n : ℕ}

theorem run_randomFromAlphabet (rng : Urandom) (ha : alphabet ≠ [])
    (h : d.Delivers pos.reads n) :
    ∃ m ≤ n, d.run (rng.randomFromAlphabet n alphabet) pos =
      (pos.advance n m, .done (.ok (lookUp alphabet (d.bytes pos.consumed n)))) := by
  obtain ⟨m, hm, hrun⟩ := run_readExact rng h
  refine ⟨m, hm, ?_⟩
  rw [randomFromAlphabet, if_neg ha, Device.run_bind_ok hrun]
  rfl

theorem run_randomFromAlphabet_fails (rng : Urandom) (ha : alphabet ≠ [])
    (h : d.FailsWithin pos.reads n) :
    ∃ pos', d.run (rng.randomFromAlphabet n alphabet) pos =
      (pos', .done (.error (.runtimeError readFailed))) := by
  obtain ⟨k, -, m, -, -, hrun⟩ := run_readExact_fails rng h
  refine ⟨pos.advance k (m + 1), ?_⟩
  rw [randomFromAlphabet, if_neg ha, Device.run_bind_error hrun]

/-- `random_from_alphabet` returns a string if and only if its bytes arrive before a failure, and
then the string is the one they select. -/
theorem returns_randomFromAlphabet_iff (rng : Urandom) (ha : alphabet ≠ []) :
    d.Returns (rng.randomFromAlphabet n alphabet) pos w ↔
      d.Delivers pos.reads n ∧ lookUp alphabet (d.bytes pos.consumed n) = w := by
  constructor
  · rintro ⟨pos', hrun⟩
    rcases d.failsWithin_or_delivers pos.reads n with hfail | hdel
    · obtain ⟨pos'', hrun'⟩ := run_randomFromAlphabet_fails rng ha hfail
      rw [hrun'] at hrun
      cases hrun
    · obtain ⟨m, -, hrun'⟩ := run_randomFromAlphabet rng ha hdel
      rw [hrun'] at hrun
      cases hrun
      exact ⟨hdel, rfl⟩
  · rintro ⟨hdel, rfl⟩
    obtain ⟨m, -, hrun⟩ := run_randomFromAlphabet rng ha hdel
    exact ⟨_, hrun⟩

/-! ## The bias of the choice -/

/-- The same device with the bytes of `buf` from the position `c` on. -/
def Device.withBuffer (d : Device) (c : ℕ) (buf : Fin n → UInt8) : Device :=
  { d with byte := fun i => if h : c ≤ i ∧ i - c < n then buf ⟨i - c, h.2⟩ else d.byte i }

theorem Device.bytes_withBuffer (d : Device) (c : ℕ) (buf : Fin n → UInt8) :
    (d.withBuffer c buf).bytes c n = List.ofFn buf := by
  apply List.ext_getElem
  · simp
  · intro i hi _
    rw [Device.bytes_length] at hi
    simp [Device.bytes, withBuffer, hi]

instance byteFintype : Fintype UInt8 :=
  Fintype.ofEquiv (Fin 256) ⟨UInt8.ofFin, UInt8.toFin, fun _ => rfl, fun _ => rfl⟩

theorem card_byte : Fintype.card UInt8 = 256 :=
  (Fintype.ofEquiv_card _).trans (Fintype.card_fin 256)

/-- How many bytes select the character number `v` of an alphabet of `m` characters. -/
theorem card_byte_mod_eq {m v : ℕ} (hv : v < m) :
    #{b : UInt8 | b.toNat % m = v} = residueCount 256 m v := by
  rw [← card_mod_eq hv]
  apply Finset.card_bij fun b _ => b.toFin
  · simp
  · intro a _ b _ h
    exact UInt8.toFin_inj.1 h
  · intro y hy
    exact ⟨UInt8.ofFin y, by simpa using hy, rfl⟩

/-- A character of the alphabet is selected by the bytes that have its index as their residue. -/
theorem getD_eq_iff (b : UInt8) {c : UInt8} (hnd : alphabet.Nodup) (hc : c ∈ alphabet) :
    alphabet.getD (b.toNat % alphabet.length) 0 = c ↔
      b.toNat % alphabet.length = alphabet.idxOf c := by
  have hlt : b.toNat % alphabet.length < alphabet.length :=
    Nat.mod_lt _ (List.length_pos_of_mem hc)
  rw [List.getD_eq_getElem _ _ hlt]
  constructor
  · rintro rfl
    exact (hnd.idxOf_getElem _ hlt).symm
  · intro h
    simp only [h, List.getElem_idxOf]

theorem lookUp_ofFn_eq_iff (hnd : alphabet.Nodup) (hmem : ∀ c ∈ w, c ∈ alphabet)
    (buf : Fin w.length → UInt8) :
    lookUp alphabet (List.ofFn buf) = w ↔
      ∀ k, (buf k).toNat % alphabet.length = alphabet.idxOf (w.get k) := by
  have hget (k : Fin w.length) := getD_eq_iff (buf k) hnd (hmem _ (List.get_mem w k))
  calc lookUp alphabet (List.ofFn buf) = w
      ↔ List.ofFn (fun k => alphabet.getD ((buf k).toNat % alphabet.length) 0) =
          List.ofFn w.get := by
        rw [lookUp, List.map_ofFn, List.ofFn_get]
        rfl
    _ ↔ (fun k => alphabet.getD ((buf k).toNat % alphabet.length) 0) = w.get :=
        List.ofFn_injective.eq_iff
    _ ↔ ∀ k, (buf k).toNat % alphabet.length = alphabet.idxOf (w.get k) :=
        funext_iff.trans (forall_congr' hget)

/-- The buffers that lead to a string are counted character by character. -/
theorem card_lookUp_eq (hnd : alphabet.Nodup) (hmem : ∀ c ∈ w, c ∈ alphabet) :
    Nat.card {buf : Fin w.length → UInt8 // lookUp alphabet (List.ofFn buf) = w} =
      (w.map fun c => residueCount 256 alphabet.length (alphabet.idxOf c)).prod := by
  classical
  have hidx (k : Fin w.length) : alphabet.idxOf (w.get k) < alphabet.length :=
    List.idxOf_lt_length_iff.2 (hmem _ (List.get_mem w k))
  simp only [lookUp_ofFn_eq_iff hnd hmem]
  rw [Nat.card_eq_fintype_card, Fintype.card_subtype,
    card_forall fun (k : Fin w.length) (b : UInt8) =>
      b.toNat % alphabet.length = alphabet.idxOf (w.get k)]
  calc ∏ k, #{b : UInt8 | b.toNat % alphabet.length = alphabet.idxOf (w.get k)}
      = ∏ k, residueCount 256 alphabet.length (alphabet.idxOf (w.get k)) :=
        Finset.prod_congr rfl fun k _ => card_byte_mod_eq (hidx k)
    _ = (List.ofFn fun k => residueCount 256 alphabet.length (alphabet.idxOf (w.get k))).prod :=
        (List.prod_ofFn).symm
    _ = (w.map fun c => residueCount 256 alphabet.length (alphabet.idxOf c)).prod := by
        rw [← List.ofFn_getElem_eq_map]
        rfl

/-- An alphabet has at most 256 different characters, so each of them is selected by some byte. -/
theorem exists_byte (hnd : alphabet.Nodup) {c : UInt8} (hc : c ∈ alphabet) :
    ∃ b : UInt8, b.toNat % alphabet.length = alphabet.idxOf c := by
  have hcard : alphabet.length ≤ 256 := hnd.length_le_card.trans_eq card_byte
  have hlt : alphabet.idxOf c < alphabet.length := List.idxOf_lt_length_iff.2 hc
  have hsize : alphabet.idxOf c < UInt8.size := hlt.trans_le hcard
  refine ⟨UInt8.ofNat (alphabet.idxOf c), ?_⟩
  rw [UInt8.toNat_ofNat_of_lt' hsize, Nat.mod_eq_of_lt hlt]

/-- Any string over the alphabet is the choice of some buffer. -/
theorem exists_lookUp_eq (hnd : alphabet.Nodup) (hmem : ∀ c ∈ w, c ∈ alphabet) :
    ∃ buf : Fin w.length → UInt8, lookUp alphabet (List.ofFn buf) = w := by
  choose buf hbuf using fun k : Fin w.length => exists_byte hnd (hmem _ (List.get_mem w k))
  exact ⟨buf, (lookUp_ofFn_eq_iff hnd hmem buf).2 hbuf⟩

/-- The exact bias of `random_from_alphabet`: of the buffers that `read_exact` may fill, those that
lead to a string are counted position by position. Every string over the alphabet is returned for
some buffer, and no other string ever is. -/
theorem randomFromAlphabet_bias (rng : Urandom) (hnd : alphabet.Nodup) (ha : alphabet ≠ [])
    (hdel : d.Delivers pos.reads n) :
    (∀ w : Bytes, w.length = n → (∀ c ∈ w, c ∈ alphabet) →
      Nat.card {buf : Fin n → UInt8 // (d.withBuffer pos.consumed buf).Returns
          (rng.randomFromAlphabet n alphabet) pos w} =
        (w.map fun c => if alphabet.idxOf c < 256 % alphabet.length then
          256 / alphabet.length + 1 else 256 / alphabet.length).prod ∧
      ∃ buf : Fin n → UInt8,
        (d.withBuffer pos.consumed buf).Returns (rng.randomFromAlphabet n alphabet) pos w) ∧
    ∀ (d' : Device) (pos' : Position) (w : Bytes),
      d'.Returns (rng.randomFromAlphabet n alphabet) pos' w →
        w.length = n ∧ ∀ c ∈ w, c ∈ alphabet := by
  have hreturns (buf : Fin n → UInt8) (w : Bytes) : (d.withBuffer pos.consumed buf).Returns
      (rng.randomFromAlphabet n alphabet) pos w ↔ lookUp alphabet (List.ofFn buf) = w := by
    rw [returns_randomFromAlphabet_iff rng ha, Device.bytes_withBuffer]
    exact and_iff_right hdel
  refine ⟨fun w hw hmem => ?_, fun d' pos' w h => ?_⟩
  · subst hw
    simp only [hreturns]
    refine ⟨?_, exists_lookUp_eq hnd hmem⟩
    rw [card_lookUp_eq hnd hmem]
    congr 1
    apply List.map_congr_left
    intro c _
    rw [residueCount]
    split <;> rfl
  · obtain ⟨-, rfl⟩ := (returns_randomFromAlphabet_iff rng ha).1 h
    exact ⟨by simp, fun c hc => mem_lookUp ha hc⟩

/-- Of the three-byte buffers, 25 * 26 * 26 lead to `942`: the index of the first digit is not below
`256 % 10`, the others are. -/
theorem randomFromAlphabet_bias_digits :
    Nat.card {buf : Fin 3 → UInt8 // (threes.withBuffer 0 buf).Returns
      (randomFromAlphabet ⟨4⟩ 3 digits) ⟨0, 0⟩ (ascii "942")} = 25 * 26 * 26 := by
  have hdel : threes.Delivers (Position.mk 0 0).reads 3 := ⟨1, by decide, by decide⟩
  have hnd : digits.Nodup := by decide +kernel
  have hmem : ∀ c ∈ ascii "942", c ∈ digits := by decide +kernel
  have h := (randomFromAlphabet_bias ⟨4⟩ hnd (by decide) hdel).1 (ascii "942") rfl hmem
  rw [Position.consumed] at h
  rw [h.1]
  decide +kernel

/-! ## Two ways to read -/

/-- `urandom_string` asks once, and takes no less than all. -/
theorem returns_urandomString_iff (ha : alphabet ≠ []) :
    d.Returns (urandomString n alphabet) pos w ↔
      (∃ k, d.result pos.reads = .ok k ∧ n ≤ k) ∧
        lookUp alphabet (d.bytes pos.consumed n) = w := by
  have hopen : d.run Sys.openUrandom pos = (pos, .done (.ok (.ok 3))) := rfl
  cases hres : d.result pos.reads with
  | error e =>
    have hrun : d.run (urandomString n alphabet) pos =
        (⟨pos.consumed, pos.reads + 1⟩, .done (.error (.runtimeError readFailed))) := by
      rw [urandomString, if_neg ha, Device.run_bind_ok hopen]
      dsimp only
      rw [Device.run_bind_ok (Device.run_invoke (Device.read_error hres 3 n))]
      rfl
    simp [Device.Returns, hrun]
  | ok k =>
    have hrun : d.run (urandomString n alphabet) pos =
        d.run (if (d.bytes pos.consumed (min k n)).length = n then
            return lookUp alphabet (d.bytes pos.consumed (min k n))
          else
            throw (.runtimeError readFailed)) ⟨pos.consumed + min k n, pos.reads + 1⟩ := by
      rw [urandomString, if_neg ha, Device.run_bind_ok hopen]
      dsimp only
      rw [Device.run_bind_ok (Device.run_invoke (Device.read_ok hres 3 n))]
      rfl
    rw [Device.bytes_length] at hrun
    rcases Nat.lt_or_ge k n with hlt | hge
    · -- a short read throws
      rw [if_neg (by omega)] at hrun
      simp [Device.Returns, hrun, hlt]
    · rw [if_pos (by omega), Nat.min_eq_right hge] at hrun
      simp [Device.Returns, hrun, hge]

/-- A first read that brings everything is enough for both. -/
theorem Device.delivers_of_result {k : ℕ} (h : d.result pos.reads = .ok k) (hk : n ≤ k) :
    d.Delivers pos.reads n := by
  cases n with
  | zero => exact d.delivers_zero _
  | succ n =>
    have hsize : d.size pos.reads = k := by simp [Device.size, h]
    refine ⟨1, fun i hi => ?_, ?_⟩
    · obtain rfl : i = 0 := by omega
      rw [Nat.add_zero, hsize]
      omega
    · simpa [hsize] using hk

/-- The two generators agree on a schedule if and only if the first read brings all the bytes, or
they do not arrive before a failure at all. -/
theorem generators_agree_iff (rng : Urandom) (d : Device) (pos : Position) (n : ℕ)
    (ha : alphabet ≠ []) :
    (∀ w, d.Returns (urandomString n alphabet) pos w ↔
        d.Returns (rng.randomFromAlphabet n alphabet) pos w) ↔
      (∃ k, d.result pos.reads = .ok k ∧ n ≤ k) ∨ ¬ d.Delivers pos.reads n := by
  simp only [returns_urandomString_iff ha, returns_randomFromAlphabet_iff rng ha]
  constructor
  · intro h
    by_cases hdel : d.Delivers pos.reads n
    · exact .inl ((h _).2 ⟨hdel, rfl⟩).1
    · exact .inr hdel
  · rintro (⟨k, hres, hk⟩ | hdel) w
    · have hdel := Device.delivers_of_result hres hk
      exact and_congr_left fun _ => iff_of_true ⟨k, hres, hk⟩ hdel
    · refine and_congr_left fun _ => iff_of_false ?_ hdel
      rintro ⟨k, hres, hk⟩
      exact hdel (Device.delivers_of_result hres hk)

/-- On a device that delivers three bytes at a time only one of them returns. -/
theorem generators_disagree_threes :
    threes.Returns (randomFromAlphabet ⟨4⟩ 5 digits) ⟨0, 0⟩ (ascii "01234") ∧
      ¬ threes.Returns (urandomString 5 digits) ⟨0, 0⟩ (ascii "01234") := by
  have hd : digits ≠ [] := by decide
  constructor
  · rw [returns_randomFromAlphabet_iff _ hd]
    exact ⟨⟨2, by decide, by decide⟩, by decide⟩
  · rw [returns_urandomString_iff hd]
    rintro ⟨⟨k, hres, hk⟩, -⟩
    obtain rfl : 3 = k := Except.ok.inj hres
    omega

theorem generators_agree_iff_threes :
    threes.Returns (urandomString 2 digits) ⟨0, 0⟩ =
      threes.Returns (randomFromAlphabet ⟨4⟩ 2 digits) ⟨0, 0⟩ := by
  funext w
  have hne : digits ≠ [] := by decide
  have hagree := generators_agree_iff ⟨4⟩ threes ⟨0, 0⟩ 2 hne
  exact propext (hagree.2 (.inl ⟨3, rfl, by decide⟩) w)

end KCNet.Client
