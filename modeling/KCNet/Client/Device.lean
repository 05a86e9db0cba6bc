import KCNet.Client.Urandom
import Mathlib.Algebra.Order.BigOperators.Group.Finset
import Mathlib.Algebra.BigOperators.Intervals

/-!
# The random device

`/dev/urandom` as a stream of bytes and a schedule of read results: how each call of `read` ends,
whatever the number of bytes that it asks for. The functions of `Urandom` are run against a device
from a position, which counts the bytes and the calls that are gone.

## Main definitions

- `Device`, `Device.run` — a device and the run of a program on it
- `Device.Delivers`, `Device.FailsWithin` — the two ways a request for `n` bytes can go
- `Returns` — a run that ends with a value
-/

namespace KCNet.Client

open Interaction

/-- The bytes of the device in order, and the result of each call of `read`: an error, or how many
bytes it delivers if so many are asked for. -/
structure Device where
  byte : ℕ → UInt8
  result : ℕ → Except Errno ℕ

/-- How many bytes have been delivered, and how many calls of `read` have been made. -/
structure Position where
  consumed : ℕ
  reads : ℕ
deriving DecidableEq

/-- The position after `k` more bytes and `m` more calls of `read`. -/
def Position.advance (pos : Position) (k m : ℕ) : Position := ⟨pos.consumed + k, pos.reads + m⟩

@[simp] theorem Position.advance_zero (pos : Position) : pos.advance 0 0 = pos := rfl

theorem Position.advance_advance (pos : Position) (k m k' m' : ℕ) :
    (pos.advance k m).advance k' m' = pos.advance (k + k') (m + m') := by
  simp only [advance, Nat.add_assoc]

theorem Position.advance_inj {pos : Position} {k m k' m' : ℕ} :
    pos.advance k m = pos.advance k' m' ↔ k = k' ∧ m = m' := by
  simp [advance]

namespace Device

/-- The result of the call number `i` as a number, 0 for an error or the end of the file. -/
def size (d : Device) (i : ℕ) : ℕ :=
  match d.result i with
  | .ok k => k
  | .error _ => 0

theorem result_of_size_pos {d : Device} {i : ℕ} (h : 0 < d.size i) :
    d.result i = .ok (d.size i) := by
  unfold size at h ⊢
  split
  · next hk => exact hk
  · next he =>
    rw [he] at h
    exact absurd h (Nat.lt_irrefl 0)

theorem result_of_size_zero {d : Device} {i : ℕ} (h : d.size i = 0) :
    d.result i = .ok 0 ∨ ∃ e, d.result i = .error e := by
  cases hr : d.result i with
  | ok k =>
    rw [size, hr] at h
    exact .inl (congrArg Except.ok h)
  | error e => exact .inr ⟨e, rfl⟩

/-- The `n` bytes from position `c` on. -/
def bytes (d : Device) (c n : ℕ) : Bytes := (List.range n).map fun i => d.byte (c + i)

/-- What `read` returns. It never delivers more than it is asked for. -/
def read (d : Device) (pos : Position) (len : ℕ) : Except Errno Bytes :=
  match d.result pos.reads with
  | .ok k => .ok (d.bytes pos.consumed (min k len))
  | .error e => .error e

/-- The answers of a device that can be opened. Nothing is sent or received. -/
def answer (d : Device) (pos : Position) : (o : SysOp) → Option o.Res
  | .openUrandom => some (.ok 3)
  | .read _ len => some (d.read pos len)
  | .close _ | .stdout _ | .perror _ | .messageBox _ => some ()
  | _ => none

/-- Only `read` moves the position. -/
def env : Env SysOp SysOp.Res Position where
  allowed _ _ _ := true
  next pos
    | .read .., .ok b => ⟨pos.consumed + b.length, pos.reads + 1⟩
    | .read .., .error _ => ⟨pos.consumed, pos.reads + 1⟩
    | _, _ => pos

/-- The run of a program on the device. -/
def run {α : Type} (d : Device) (p : Sys α) (pos : Position) :
    Position × Program SysOp SysOp.Res (Except Thrown α) := env.run d.answer p.run pos

/-- From the call number `r` on, `n` bytes arrive before a result that is not positive. -/
def Delivers (d : Device) (r n : ℕ) : Prop :=
  ∃ m, (∀ i < m, 0 < d.size (r + i)) ∧ n ≤ ∑ i ∈ Finset.range m, d.size (r + i)

/-- From the call number `r` on, a result that is not positive comes before `n` bytes. -/
def FailsWithin (d : Device) (r n : ℕ) : Prop :=
  ∃ m, (∀ i < m, 0 < d.size (r + i)) ∧ d.size (r + m) = 0 ∧
    ∑ i ∈ Finset.range m, d.size (r + i) < n

/-- No call of `read` fails. -/
def Unfailing (d : Device) : Prop := ∀ i, 0 < d.size i

variable {d : Device} {r n : ℕ}

@[simp] theorem bytes_length (d : Device) (c n : ℕ) : (d.bytes c n).length = n := by
  simp [bytes]

@[simp] theorem bytes_zero (d : Device) (c : ℕ) : d.bytes c 0 = [] := rfl

theorem bytes_add (d : Device) (c m n : ℕ) :
    d.bytes c (m + n) = d.bytes c m ++ d.bytes (c + m) n := by
  simp only [bytes, List.range_add, List.map_append, List.map_map, Nat.add_assoc]
  rfl

theorem delivers_zero (d : Device) (r : ℕ) : d.Delivers r 0 := ⟨0, by simp, Nat.zero_le _⟩

/-- The first result brings a part of what is missing, and the rest follows. -/
theorem Delivers.step (h : d.Delivers r n) (hn : 0 < n) :
    0 < d.size r ∧ d.Delivers (r + 1) (n - d.size r) := by
  obtain ⟨m, hpos, hsum⟩ := h
  cases m with
  | zero => exact absurd hsum (by simpa using hn.ne')
  | succ m =>
    rw [Finset.sum_range_succ'] at hsum
    refine ⟨hpos 0 (Nat.succ_pos m), m, fun i hi => ?_, ?_⟩
    · have := hpos (i + 1) (by omega)
      rwa [Nat.add_comm i 1, ← Nat.add_assoc] at this
    · have hshift : ∀ i ∈ Finset.range m, d.size (r + 1 + i) = d.size (r + (i + 1)) := by
        intro i _
        rw [Nat.add_comm i 1, Nat.add_assoc]
      rw [Finset.sum_congr rfl hshift]
      simp only [Nat.add_zero] at hsum
      omega

theorem FailsWithin.step (h : d.FailsWithin r n) :
    d.size r = 0 ∨ d.size r < n ∧ d.FailsWithin (r + 1) (n - d.size r) := by
  obtain ⟨m, hpos, hzero, hsum⟩ := h
  cases m with
  | zero => exact .inl hzero
  | succ m =>
    rw [Finset.sum_range_succ'] at hsum
    have hshift (i : ℕ) : d.size (r + 1 + i) = d.size (r + (i + 1)) := by
      rw [Nat.add_comm i 1, Nat.add_assoc]
    simp only [Nat.add_zero] at hsum
    refine .inr ⟨by omega, m, fun i hi => ?_, (hshift m).trans hzero, ?_⟩
    · rw [hshift]
      exact hpos (i + 1) (by omega)
    · rw [Finset.sum_congr rfl fun i _ => hshift i]
      omega

/-- One of the two happens, as every positive result brings at least one byte. -/
theorem failsWithin_or_delivers (d : Device) (r n : ℕ) : d.FailsWithin r n ∨ d.Delivers r n := by
  by_cases hzero : ∃ i, d.size (r + i) = 0
  · -- look at what has arrived before the first failure
    have hpos : ∀ i < Nat.find hzero, 0 < d.size (r + i) := fun i hi =>
      Nat.pos_of_ne_zero (Nat.find_min hzero hi)
    rcases Nat.lt_or_ge (∑ i ∈ Finset.range (Nat.find hzero), d.size (r + i)) n with hlt | hge
    · exact .inl ⟨_, hpos, Nat.find_spec hzero, hlt⟩
    · exact .inr ⟨_, hpos, hge⟩
  · have hpos : ∀ i, 0 < d.size (r + i) := fun i =>
      Nat.pos_of_ne_zero fun h => hzero ⟨i, h⟩
    refine .inr ⟨n, fun i _ => hpos i, ?_⟩
    calc n = ∑ _i ∈ Finset.range n, 1 := by rw [← Finset.card_eq_sum_ones, Finset.card_range]
      _ ≤ ∑ i ∈ Finset.range n, d.size (r + i) := Finset.sum_le_sum fun i _ => hpos i

/-- If no call fails, any number of bytes arrives. -/
theorem Unfailing.delivers (h : d.Unfailing) (r n : ℕ) : d.Delivers r n := by
  rcases d.failsWithin_or_delivers r n with ⟨m, -, hzero, -⟩ | hdel
  · exact absurd (h (r + m)) (by simp [hzero])
  · exact hdel

/-! ## Running programs -/

section Run

variable {α β : Type} {pos pos' : Position}

@[simp] theorem run_pure (a : α) : d.run (pure a) pos = (pos, .done (.ok a)) := rfl

@[simp] theorem run_throw (e : Thrown) :
    d.run (throw e : Sys α) pos = (pos, .done (.error e)) := rfl

theorem run_bind_ok {p : Sys α} {a : α} (h : d.run p pos = (pos', .done (.ok a))) (f : α → Sys β) :
    d.run (p >>= f) pos = d.run (f a) pos' := Interaction.run_bind_ok h f

theorem run_bind_error {p : Sys α} {e : Thrown} (h : d.run p pos = (pos', .done (.error e)))
    (f : α → Sys β) : d.run (p >>= f) pos = (pos', .done (.error e)) :=
  Interaction.run_bind_error h f

theorem read_ok {k : ℕ} (h : d.result pos.reads = .ok k) (fd : ℤ) (len : ℕ) :
    env.run d.answer (perform (SysOp.read fd len)) pos =
      (⟨pos.consumed + min k len, pos.reads + 1⟩,
        .done (.ok (d.bytes pos.consumed (min k len)))) := by
  have hread : d.read pos len = .ok (d.bytes pos.consumed (min k len)) := by simp [read, h]
  have hrun : env.run d.answer (perform (SysOp.read fd len)) pos =
      (env.next pos (.read fd len) (d.read pos len), .done (d.read pos len)) := rfl
  rw [hrun, hread]
  simp [env]

theorem read_error {e : Errno} (h : d.result pos.reads = .error e) (fd : ℤ) (len : ℕ) :
    env.run d.answer (perform (SysOp.read fd len)) pos =
      (⟨pos.consumed, pos.reads + 1⟩, .done (.error e)) := by
  have hread : d.read pos len = .error e := by simp [read, h]
  have hrun : env.run d.answer (perform (SysOp.read fd len)) pos =
      (env.next pos (.read fd len) (d.read pos len), .done (d.read pos len)) := rfl
  rw [hrun, hread]
  rfl

theorem run_invoke {o : SysOp} {r : o.Res}
    (h : env.run d.answer (perform o) pos = (pos', .done r)) :
    d.run (invoke o) pos = (pos', .done (.ok r)) := by
  have hmap : (invoke o : Sys o.Res).run = perform o >>= fun r => pure (.ok r) :=
    map_eq_pure_bind Except.ok (perform o)
  rw [run, hmap, Env.run_bind _ _ h]
  rfl

/-- A run moves on. -/
theorem reads_le (d : Device) (p : Sys α) (pos : Position) : pos.reads ≤ (d.run p pos).1.reads := by
  suffices h : ∀ q : Program SysOp SysOp.Res (Except Thrown α),
      pos.reads ≤ (env.run d.answer q pos).1.reads from h p.run
  intro q
  induction q generalizing pos with
  | done r => exact le_rfl
  | call o k ih =>
    rw [Env.run]
    split
    · next r _ =>
      refine le_trans ?_ (ih r (env.next pos o r))
      cases o with
      | read fd len => cases r <;> exact Nat.le_succ _
      | _ => exact le_rfl
    · exact le_rfl

/-- A run that ends with the value `a`. -/
def Returns (d : Device) (p : Sys α) (pos : Position) (a : α) : Prop :=
  ∃ pos', d.run p pos = (pos', .done (.ok a))

end Run

end Device

end KCNet.Client
