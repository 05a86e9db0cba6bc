import KCNet.Client.Password

/-!
# The bounded numbers of `urandom_bounded`

`urandom_bounded` takes the remainder of a 64-bit number. How often it returns each value over all
the bytes that it may read, and when all values are equally likely.

## Main definitions

- `urandomU64`, `urandomBounded` — the functions of the source
- `bufferOfWord` — a number as the bytes that it is read from
- `Bounds` — the buffers that lead to a value
-/

namespace KCNet.Client

open Interaction Urandom KCNet.Random Finset

namespace Urandom

/-- `Urandom::urandom_u64` -/
def urandomU64 : Sys ℕ := do
  match ← Sys.openUrandom with
  | .error _ => throw (.runtimeError openFailed)
  | .ok fd =>
    let got ← Sys.read fd 8
    -- closed before the outcome of the read is looked at
    Sys.close fd
    match got with
    | .error _ => throw (.runtimeError readFailed)
    | .ok x =>
      if x.length = 8 then
        return uint64OfBytes x
      else
        throw (.runtimeError readFailed)

/-- `Urandom::urandom_bounded` -/
def urandomBounded (maxExclusive : ℕ) : Sys ℕ := do
  if maxExclusive = 0 then
    throw (.invalidArgument (ascii "maxExclusive must be > 0"))
  else
    let x ← urandomU64
    return x % maxExclusive

end Urandom

variable {d : Device} {pos : Position} {m v : ℕ}

/-- Like `urandom_string` it asks once, and takes no less than all. -/
theorem returns_urandomU64_iff : d.Returns urandomU64 pos v ↔
    (∃ k, d.result pos.reads = .ok k ∧ 8 ≤ k) ∧ uint64OfBytes (d.bytes pos.consumed 8) = v := by
  have hopen : d.run Sys.openUrandom pos = (pos, .done (.ok (.ok 3))) := rfl
  cases hres : d.result pos.reads with
  | error e =>
    have hrun : d.run urandomU64 pos =
        (⟨pos.consumed, pos.reads + 1⟩, .done (.error (.runtimeError readFailed))) := by
      rw [urandomU64, Device.run_bind_ok hopen]
      dsimp only
      rw [Device.run_bind_ok (Device.run_invoke (Device.read_error hres 3 8))]
      rfl
    simp [Device.Returns, hrun]
  | ok k =>
    have hrun : d.run urandomU64 pos =
        d.run (if (d.bytes pos.consumed (min k 8)).length = 8 then
            return uint64OfBytes (d.bytes pos.consumed (min k 8))
          else
            throw (.runtimeError readFailed)) ⟨pos.consumed + min k 8, pos.reads + 1⟩ := by
      rw [urandomU64, Device.run_bind_ok hopen]
      dsimp only
      rw [Device.run_bind_ok (Device.run_invoke (Device.read_ok hres 3 8))]
      rfl
    rw [Device.bytes_length] at hrun
    rcases Nat.lt_or_ge k 8 with hlt | hge
    · rw [if_neg (by omega)] at hrun
      simp [Device.Returns, hrun, hlt]
    · rw [if_pos (by omega), Nat.min_eq_right hge] at hrun
      simp [Device.Returns, hrun, hge]

theorem returns_urandomBounded_iff (hm : 0 < m) : d.Returns (urandomBounded m) pos v ↔
    (∃ k, d.result pos.reads = .ok k ∧ 8 ≤ k) ∧
      uint64OfBytes (d.bytes pos.consumed 8) % m = v := by
  rw [urandomBounded, if_neg hm.ne']
  constructor
  · intro h
    obtain ⟨x, pos', hx, pos'', hret⟩ := h.of_bind
    obtain ⟨hres, rfl⟩ := returns_urandomU64_iff.1 ⟨pos', hx⟩
    exact ⟨hres, Except.ok.inj (Program.done.inj (congrArg Prod.snd hret))⟩
  · rintro ⟨hres, rfl⟩
    obtain ⟨pos', hx⟩ := returns_urandomU64_iff.2 ⟨hres, rfl⟩
    exact ⟨pos', Device.run_bind_ok hx _⟩

/-! ## The numbers of eight bytes -/

/-- The buffer that a number is read from. -/
def bufferOfWord (x : Fin (2 ^ 64)) (k : Fin 8) : UInt8 :=
  (littleEndian 8 x).get (k.cast (littleEndian_length 8 x).symm)

theorem ofFn_bufferOfWord (x : Fin (2 ^ 64)) : List.ofFn (bufferOfWord x) = littleEndian 8 x := by
  apply List.ext_getElem
  · rw [List.length_ofFn, littleEndian_length]
  · intro i _ _
    rw [List.getElem_ofFn]
    rfl

theorem uint64OfBytes_bufferOfWord (x : Fin (2 ^ 64)) :
    uint64OfBytes (List.ofFn (bufferOfWord x)) = x := by
  have hlt : (x : ℕ) < 256 ^ 8 := x.isLt
  rw [ofFn_bufferOfWord, uint64OfBytes_littleEndian hlt]

/-- Every buffer of eight bytes is read as exactly one number. -/
theorem bufferOfWord_bijective : Function.Bijective bufferOfWord := by
  rw [Fintype.bijective_iff_injective_and_card]
  constructor
  · intro x y h
    apply Fin.ext
    rw [← uint64OfBytes_bufferOfWord, h, uint64OfBytes_bufferOfWord]
  · rw [Fintype.card_pi_const, Fintype.card_fin, card_byte]
    decide

/-! ## How the numbers spread -/

/-- The buffers that lead to the value `v`. -/
abbrev Bounds (d : Device) (pos : Position) (m v : ℕ) : Type :=
  {buf : Fin 8 → UInt8 // (d.withBuffer pos.consumed buf).Returns (urandomBounded m) pos v}

theorem card_bounds {k : ℕ} (hres : d.result pos.reads = .ok k) (hk : 8 ≤ k) (hv : v < m) :
    Nat.card (Bounds d pos m v) = residueCount (2 ^ 64) m v := by
  have hreturns (x : Fin (2 ^ 64)) : (x : ℕ) % m = v ↔
      (d.withBuffer pos.consumed (bufferOfWord x)).Returns (urandomBounded m) pos v := by
    rw [returns_urandomBounded_iff ((Nat.zero_le v).trans_lt hv), Device.bytes_withBuffer,
      uint64OfBytes_bufferOfWord]
    exact (and_iff_right ⟨k, hres, hk⟩).symm
  have hcard := Nat.card_congr ((Equiv.ofBijective _ bufferOfWord_bijective).subtypeEquiv
    (q := fun buf => (d.withBuffer pos.consumed buf).Returns (urandomBounded m) pos v) hreturns)
  rw [Bounds, ← hcard, Nat.card_eq_fintype_card, Fintype.card_subtype, card_mod_eq hv]

/-- `urandom_bounded` returns nothing but values below its bound, and the values below the remainder
of `2 ^ 64` for one buffer more than the others. All of them are equally likely if and only if the
bound divides `2 ^ 64`. -/
theorem urandomBounded_spread {k : ℕ} (hres : d.result pos.reads = .ok k) (hk : 8 ≤ k)
    (hm : 0 < m) :
    (∀ v, Nat.card (Bounds d pos m v) = if v < m then residueCount (2 ^ 64) m v else 0) ∧
      ((∀ v < m, ∀ v' < m, Nat.card (Bounds d pos m v) = Nat.card (Bounds d pos m v')) ↔
        m ∣ 2 ^ 64) := by
  have hcard (v : ℕ) :
      Nat.card (Bounds d pos m v) = if v < m then residueCount (2 ^ 64) m v else 0 := by
    split
    · next hv => exact card_bounds hres hk hv
    · next hv =>
      have hempty : IsEmpty (Bounds d pos m v) := by
        refine ⟨fun ⟨buf, hbuf⟩ => hv ?_⟩
        obtain ⟨-, rfl⟩ := (returns_urandomBounded_iff hm).1 hbuf
        exact Nat.mod_lt _ hm
      exact Nat.card_of_isEmpty
  refine ⟨hcard, ?_⟩
  rw [← residueCount_uniform_iff hm]
  refine forall₂_congr fun v hv => forall₂_congr fun v' hv' => ?_
  rw [hcard, hcard, if_pos hv, if_pos hv']

/-- Six faces of a die are not equally likely. -/
theorem urandomBounded_spread_six :
    ¬ ∀ v < 6, ∀ v' < 6,
      Nat.card (Bounds ⟨fun _ => 0, fun _ => .ok 8⟩ ⟨0, 0⟩ 6 v) =
        Nat.card (Bounds ⟨fun _ => 0, fun _ => .ok 8⟩ ⟨0, 0⟩ 6 v') := by
  rw [(urandomBounded_spread rfl le_rfl (by decide)).2]
  decide

end KCNet.Client
