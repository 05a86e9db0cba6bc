import KCNet.Client.Device
import Mathlib.Data.List.GetD

/-!
# Reading exactly `n` bytes

`read_exact` on a device, whatever the chunks in which the bytes arrive: the value that it reads,
and the memory that it writes. Programs that reach the device through `read_exact` only do not
notice the chunks at all.

## Main definitions

- `Memory` — the memory of the process
- `Urandom.readExactAt` — `read_exact` with the memory it writes to
- `ReadsExactly` — the programs that read through `read_exact` only
-/

namespace KCNet.Client

open Interaction

/-- What memory holds at each address. -/
abbrev Memory := ℕ → UInt8

/-- Write the bytes `b` from the address `p` on. -/
def Memory.store (mem : Memory) (p : ℕ) (b : Bytes) : Memory :=
  fun i => if p ≤ i then b.getD (i - p) (mem i) else mem i

/-- Nothing is written before the address. -/
theorem Memory.store_of_lt (mem : Memory) {p i : ℕ} (b : Bytes) (h : i < p) :
    mem.store p b i = mem i := if_neg (by omega)

/-- Nothing is written after the last byte. -/
theorem Memory.store_of_ge (mem : Memory) {p i : ℕ} {b : Bytes} (h : p + b.length ≤ i) :
    mem.store p b i = mem i := by
  rw [store, if_pos (by omega), List.getD_eq_default _ _ (by omega)]

theorem Memory.store_add (mem : Memory) {p i : ℕ} {b : Bytes} (h : i < b.length) :
    mem.store p b (p + i) = b[i] := by
  rw [store, if_pos (by omega), Nat.add_sub_cancel_left, List.getD_eq_getElem _ _ h]

@[simp] theorem Memory.store_nil (mem : Memory) (p : ℕ) : mem.store p [] = mem := by
  funext i
  simp [store]

/-- Two pieces, one after the other. -/
theorem Memory.store_store (mem : Memory) (p : ℕ) (a b : Bytes) :
    (mem.store p a).store (p + a.length) b = mem.store p (a ++ b) := by
  funext i
  rcases Nat.lt_or_ge i p with hlt | hge
  · rw [store_of_lt _ _ (by omega), store_of_lt _ _ hlt, store_of_lt _ _ hlt]
  obtain ⟨j, rfl⟩ := Nat.exists_eq_add_of_le hge
  rcases Nat.lt_or_ge j a.length with hj | hj
  · rw [store_of_lt _ _ (by omega), store_add _ hj,
      store_add _ (by rw [List.length_append]; omega), List.getElem_append_left hj]
  · rw [store, if_pos (by omega), store_of_ge _ (by omega), store, if_pos (by omega),
      Nat.add_sub_cancel_left, Nat.add_sub_add_left, List.getD_append_right _ _ _ _ hj]

namespace Urandom

/-- The loop of `read_exact` with the memory: `done` bytes stand from the address `p` on. -/
def readExactLoopAt (fd : ℤ) (p n : ℕ) :
    ℕ → ℕ → Memory → Program SysOp SysOp.Res (Except Thrown Unit × Memory)
  | 0, _, mem => return (.ok (), mem)
  | gas + 1, done, mem =>
    if done < n then do
      match ← perform (SysOp.read fd (n - done)) with
      | .ok r =>
        if r = [] then
          return (.error (.runtimeError readFailed), mem)
        else
          readExactLoopAt fd p n gas (done + r.length) (mem.store (p + done) r)
      | .error _ => return (.error (.runtimeError readFailed), mem)
    else
      return (.ok (), mem)

/-- `Urandom::read_exact`, called with `dst` at the address `p`. -/
def readExactAt (rng : Urandom) (p n : ℕ) (mem : Memory) :
    Program SysOp SysOp.Res (Except Thrown Unit × Memory) :=
  readExactLoopAt rng.fd p n n 0 mem

end Urandom

/-! ## One call -/

open Urandom

variable {d : Device} {n : ℕ} {dst : Bytes} {pos : Position}

/-- A round of the loop in which something arrives. -/
theorem run_readExactLoop_round (fd : ℤ) (gas : ℕ) (hlt : dst.length < n)
    (hpos : 0 < d.size pos.reads) :
    let b := d.bytes pos.consumed (min (d.size pos.reads) (n - dst.length))
    d.run (readExactLoop fd n (gas + 1) dst) pos =
      d.run (readExactLoop fd n gas (dst ++ b)) (pos.advance b.length 1) := by
  intro b
  have hlen : b.length = min (d.size pos.reads) (n - dst.length) := Device.bytes_length ..
  have hb : b ≠ [] := List.ne_nil_of_length_pos (by omega)
  have hread := Device.read_ok (Device.result_of_size_pos hpos) fd (n - dst.length)
  rw [readExactLoop, if_pos hlt, Device.run_bind_ok (Device.run_invoke hread)]
  simp only [Position.advance, hlen]
  exact congrArg₂ _ (if_neg hb) rfl

/-- A round of the loop in which the read fails. -/
theorem run_readExactLoop_fail (fd : ℤ) (gas : ℕ) (hlt : dst.length < n)
    (hzero : d.size pos.reads = 0) :
    d.run (readExactLoop fd n (gas + 1) dst) pos =
      (pos.advance 0 1, .done (.error (.runtimeError readFailed))) := by
  rw [readExactLoop, if_pos hlt]
  rcases Device.result_of_size_zero hzero with hres | ⟨e, hres⟩
  · have hread := Device.read_ok hres fd (n - dst.length)
    rw [Nat.zero_min] at hread
    rw [Device.run_bind_ok (Device.run_invoke hread)]
    rfl
  · have hread := Device.read_error hres fd (n - dst.length)
    rw [Device.run_bind_ok (Device.run_invoke hread)]
    rfl

/-- Nothing is missing. -/
theorem run_readExactLoop_full (d : Device) (fd : ℤ) (n gas : ℕ) (dst : Bytes) (pos : Position)
    (h : n ≤ dst.length) : d.run (readExactLoop fd n gas dst) pos = (pos, .done (.ok dst)) := by
  cases gas with
  | zero => rfl
  | succ gas =>
    rw [readExactLoop, if_neg (by omega)]
    rfl

/-- The loop when enough bytes arrive. The induction is on the bound of its rounds; every round
brings at least one of the bytes that are missing. -/
theorem run_readExactLoop_delivers (fd : ℤ) (gas : ℕ) (dst : Bytes)
    (hgas : n - dst.length ≤ gas) (h : d.Delivers pos.reads (n - dst.length)) :
    ∃ m ≤ n - dst.length,
      d.run (readExactLoop fd n gas dst) pos = (pos.advance (n - dst.length) m,
        .done (.ok (dst ++ d.bytes pos.consumed (n - dst.length)))) := by
  induction gas generalizing dst pos with
  | zero =>
    have hzero : n - dst.length = 0 := by omega
    have hfull := run_readExactLoop_full d fd n 0 dst pos (by omega)
    exact ⟨0, Nat.zero_le _, by simpa [hzero] using hfull⟩
  | succ gas ih =>
    rcases Nat.lt_or_ge dst.length n with hlt | hge
    · obtain ⟨hpos, hrest⟩ := h.step (by omega)
      have hround := run_readExactLoop_round fd gas hlt hpos
      set b := d.bytes pos.consumed (min (d.size pos.reads) (n - dst.length)) with hb
      have hlen : b.length = min (d.size pos.reads) (n - dst.length) := Device.bytes_length ..
      have hleft : n - (dst ++ b).length = n - dst.length - d.size pos.reads := by
        rw [List.length_append]
        omega
      have hbytes : d.bytes pos.consumed (n - dst.length) =
          b ++ d.bytes (pos.advance b.length 1).consumed (n - (dst ++ b).length) := by
        have hsplit : n - dst.length = b.length + (n - (dst ++ b).length) := by
          rw [List.length_append]
          omega
        rw [hsplit, Device.bytes_add, hlen]
        rfl
      have hrest' : d.Delivers (pos.advance b.length 1).reads (n - (dst ++ b).length) := by
        rwa [hleft]
      obtain ⟨m, hm, hval⟩ := ih (dst ++ b) (by omega) hrest'
      have hadv : (pos.advance b.length 1).advance (n - (dst ++ b).length) m =
          pos.advance (n - dst.length) (m + 1) := by
        rw [Position.advance_advance, List.length_append, Nat.add_comm 1 m]
        congr 1
        omega
      refine ⟨m + 1, by omega, ?_⟩
      rw [hround, hval, hadv, hbytes, List.append_assoc]
    · have hzero : n - dst.length = 0 := by omega
      have hfull := run_readExactLoop_full d fd n (gas + 1) dst pos hge
      exact ⟨0, Nat.zero_le _, by simpa [hzero] using hfull⟩

/-- The loop when a read fails first. -/
theorem run_readExactLoop_fails (fd : ℤ) (gas : ℕ) (dst : Bytes)
    (hgas : n - dst.length ≤ gas) (h : d.FailsWithin pos.reads (n - dst.length)) :
    ∃ k < n - dst.length, ∃ m < n - dst.length, d.size (pos.reads + m) = 0 ∧
      d.run (readExactLoop fd n gas dst) pos =
        (pos.advance k (m + 1), .done (.error (.runtimeError readFailed))) := by
  have hmissing : 0 < n - dst.length := by
    obtain ⟨m, -, -, hsum⟩ := h
    omega
  induction gas generalizing dst pos with
  | zero => omega
  | succ gas ih =>
    have hlt : dst.length < n := by omega
    rcases Nat.eq_zero_or_pos (d.size pos.reads) with hzero | hpos
    · exact ⟨0, hmissing, 0, hmissing, hzero, run_readExactLoop_fail fd gas hlt hzero⟩
    · obtain hzero | ⟨hsize, hrest⟩ := h.step
      · omega
      have hround := run_readExactLoop_round fd gas hlt hpos
      set b := d.bytes pos.consumed (min (d.size pos.reads) (n - dst.length)) with hb
      have hlen : b.length = d.size pos.reads := by
        rw [hb, Device.bytes_length]
        omega
      have hleft : n - (dst ++ b).length = n - dst.length - d.size pos.reads := by
        rw [List.length_append]
        omega
      have hrest' : d.FailsWithin (pos.advance b.length 1).reads (n - (dst ++ b).length) := by
        rwa [hleft]
      obtain ⟨k, hk, m, hm, hzero, hval⟩ := ih (dst ++ b) (by omega) hrest' (by omega)
      have hadv : (pos.advance b.length 1).advance k (m + 1) =
          pos.advance (b.length + k) (m + 1 + 1) := by
        rw [Position.advance_advance, Nat.add_comm 1]
      refine ⟨b.length + k, by omega, m + 1, by omega, ?_, ?_⟩
      · rwa [Nat.add_comm m 1, ← Nat.add_assoc]
      · rw [hround, hval, hadv]

/-- `read_exact` gets the next `n` bytes of the device, however they are cut into chunks. -/
theorem run_readExact (rng : Urandom) (h : d.Delivers pos.reads n) :
    ∃ m ≤ n, d.run (rng.readExact n) pos =
      (pos.advance n m, .done (.ok (d.bytes pos.consumed n))) :=
  run_readExactLoop_delivers rng.fd n [] (Nat.sub_le n 0) h

theorem run_readExact_fails (rng : Urandom) (h : d.FailsWithin pos.reads n) :
    ∃ k < n, ∃ m < n, d.size (pos.reads + m) = 0 ∧ d.run (rng.readExact n) pos =
      (pos.advance k (m + 1), .done (.error (.runtimeError readFailed))) :=
  run_readExactLoop_fails rng.fd n [] (Nat.sub_le n 0) h

/-! ## The memory -/

/-- The loop ends in the same way with the memory as without it, and what has arrived by then, be it
enough or not, stands in memory behind what was there. -/
theorem run_readExactLoopAt (d : Device) (fd : ℤ) (p n gas : ℕ) (dst : Bytes) (mem : Memory)
    (pos : Position) : ∃ k m r,
      d.run (readExactLoop fd n gas dst) pos = (pos.advance k m, .done r) ∧
      Device.env.run d.answer (readExactLoopAt fd p n gas dst.length mem) pos =
        (pos.advance k m, .done (r.map fun _ => (),
          mem.store (p + dst.length) (d.bytes pos.consumed k))) := by
  induction gas generalizing dst mem pos with
  | zero => exact ⟨0, 0, .ok dst, rfl, by rw [Device.bytes_zero, Memory.store_nil]; rfl⟩
  | succ gas ih =>
    rcases Nat.lt_or_ge dst.length n with hlt | hge
    · rcases Nat.eq_zero_or_pos (d.size pos.reads) with hzero | hpos
      · -- the read fails, and nothing more arrives
        refine ⟨0, 1, _, run_readExactLoop_fail fd gas hlt hzero, ?_⟩
        rw [readExactLoopAt, if_pos hlt, Device.bytes_zero, Memory.store_nil]
        rcases Device.result_of_size_zero hzero with hres | ⟨e, hres⟩
        · have hread := Device.read_ok hres fd (n - dst.length)
          rw [Nat.zero_min] at hread
          rw [Env.run_bind _ _ hread]
          rfl
        · rw [Env.run_bind _ _ (Device.read_error hres fd (n - dst.length))]
          rfl
      · have hround := run_readExactLoop_round fd gas hlt hpos
        have hread := Device.read_ok (Device.result_of_size_pos hpos) fd (n - dst.length)
        set b := d.bytes pos.consumed (min (d.size pos.reads) (n - dst.length)) with hb
        have hlen : b.length = min (d.size pos.reads) (n - dst.length) := Device.bytes_length ..
        have hne : b ≠ [] := List.ne_nil_of_length_pos (by omega)
        obtain ⟨k, m, r, hval, hmem⟩ := ih (dst ++ b) (mem.store (p + dst.length) b)
          (pos.advance b.length 1)
        have hbytes : d.bytes pos.consumed (b.length + k) =
            b ++ d.bytes (pos.advance b.length 1).consumed k := by
          rw [Device.bytes_add, hb, Device.bytes_length]
          rfl
        refine ⟨b.length + k, 1 + m, r, ?_, ?_⟩
        · rw [hround, hval, Position.advance_advance]
        · rw [List.length_append, Position.advance_advance, ← Nat.add_assoc p, Memory.store_store,
            ← hbytes] at hmem
          rw [readExactLoopAt, if_pos hlt, Env.run_bind _ _ hread, ← hlen]
          simp only [if_neg hne]
          exact hmem
    · refine ⟨0, 0, .ok dst, run_readExactLoop_full d fd n (gas + 1) dst pos hge, ?_⟩
      rw [readExactLoopAt, if_neg (by omega), Device.bytes_zero, Memory.store_nil]
      rfl

/-- What `read_exact` leaves in memory is what has arrived, and it ends as it does without it. -/
theorem run_readExactAt (rng : Urandom) (p : ℕ) (mem : Memory) {k m : ℕ} {r : Except Thrown Bytes}
    (h : d.run (rng.readExact n) pos = (pos.advance k m, .done r)) :
    Device.env.run d.answer (rng.readExactAt p n mem) pos = (pos.advance k m,
      .done (r.map fun _ => (), mem.store p (d.bytes pos.consumed k))) := by
  obtain ⟨k', m', r', hval, hmem⟩ := run_readExactLoopAt d rng.fd p n n [] mem pos
  obtain ⟨hpos, hr⟩ := Prod.mk.inj (h.symm.trans hval)
  obtain ⟨rfl, rfl⟩ := Position.advance_inj.1 hpos
  obtain rfl := Program.done.inj hr
  exact hmem

/-! ## Many calls -/

section Calls

variable {α β : Type} {rng : Urandom}

/-- The programs that ask the device through `read_exact` only. How many calls there are, and how
long each of them is, may depend on what has been read. -/
inductive ReadsExactly (rng : Urandom) : Sys α → Prop where
  | stop (r : Except Thrown α) : ReadsExactly rng (ExceptT.mk (pure r))
  | read (n : ℕ) (f : Bytes → Sys α) (h : ∀ b, ReadsExactly rng (f b)) :
      ReadsExactly rng (rng.readExact n >>= f)

theorem ReadsExactly.bind {p : Sys α} {f : α → Sys β} (hp : ReadsExactly rng p)
    (hf : ∀ a, ReadsExactly rng (f a)) : ReadsExactly rng (p >>= f) := by
  induction hp with
  | stop r =>
    cases r with
    | error e => exact .stop (.error e)
    | ok a => exact hf a
  | read n g _ ih =>
    rw [bind_assoc]
    exact .read n _ ih

theorem readExact_readsExactly (rng : Urandom) (n : ℕ) : ReadsExactly rng (rng.readExact n) := by
  rw [← bind_pure (rng.readExact n)]
  exact .read n _ fun b => .stop (.ok b)

theorem randomFromAlphabet_readsExactly (rng : Urandom) (count : ℕ) (alphabet : Bytes) :
    ReadsExactly rng (rng.randomFromAlphabet count alphabet) := by
  unfold randomFromAlphabet
  split
  · exact .stop (.error _)
  · exact .read count _ fun buf => .stop (.ok _)

theorem shuffle_readsExactly (rng : Urandom) (i : ℕ) (a : Bytes) :
    ReadsExactly rng (rng.shuffle i a) := by
  induction i, a using shuffle.induct with
  | case1 a => exact .stop (.ok a)
  | case2 a => exact .stop (.ok a)
  | case3 i a ih =>
    rw [shuffle]
    exact .read 8 _ ih

/-- All the reads of `random_password_counts` are made by `read_exact`. -/
theorem randomPasswordCounts_readsExactly (rng : Urandom) (a b c : ℕ) :
    ReadsExactly rng (rng.randomPasswordCounts a b c) := by
  unfold randomPasswordCounts
  apply (randomFromAlphabet_readsExactly rng _ _).bind
  intro _
  apply (randomFromAlphabet_readsExactly rng _ _).bind
  intro _
  apply (randomFromAlphabet_readsExactly rng _ _).bind
  intro _
  exact shuffle_readsExactly rng _ _

/-- No call of `read` that the run makes has failed. -/
def Smooth (d : Device) (p : Sys α) (pos : Position) : Prop :=
  ∀ i, pos.reads ≤ i → i < (d.run p pos).1.reads → 0 < d.size i

/-- In a run without failures the first call of `read_exact` succeeds. -/
theorem Smooth.readExact {f : Bytes → Sys α} (h : Smooth d (rng.readExact n >>= f) pos) :
    ∃ m, d.run (rng.readExact n >>= f) pos =
        d.run (f (d.bytes pos.consumed n)) (pos.advance n m) ∧
      Smooth d (f (d.bytes pos.consumed n)) (pos.advance n m) := by
  rcases d.failsWithin_or_delivers pos.reads n with hfail | hdel
  · obtain ⟨k, -, m, -, hzero, hrun⟩ := run_readExact_fails rng hfail
    have hend := Device.run_bind_error hrun f
    -- the failing call is one that the run makes
    have hsize := h (pos.reads + m) (Nat.le_add_right _ _)
      (by rw [hend]; exact Nat.add_lt_add_left (Nat.lt_succ_self m) _)
    omega
  · obtain ⟨m, -, hrun⟩ := run_readExact rng hdel
    have hrest := Device.run_bind_ok hrun f
    refine ⟨m, hrest, fun i hi hlt => h i ?_ ?_⟩
    · exact (Nat.le_add_right _ _).trans hi
    · rwa [hrest]

/-- Two devices with the same bytes, in whatever chunks they deliver them, give the same result and
the same number of bytes consumed. -/
theorem ReadsExactly.run_eq {p : Sys α} (hp : ReadsExactly rng p) {d d' : Device}
    (hbyte : d.byte = d'.byte) {pos pos' : Position} (hpos : pos.consumed = pos'.consumed)
    (h : Smooth d p pos) (h' : Smooth d' p pos') :
    ∃ r c m m', d.run p pos = (⟨c, m⟩, .done r) ∧ d'.run p pos' = (⟨c, m'⟩, .done r) := by
  induction hp generalizing pos pos' with
  | stop r => exact ⟨r, pos.consumed, pos.reads, pos'.reads, rfl, by rw [hpos]; rfl⟩
  | read n f _ ih =>
    obtain ⟨m, hrun, hsmooth⟩ := h.readExact
    obtain ⟨m', hrun', hsmooth'⟩ := h'.readExact
    have hbytes : d'.bytes pos'.consumed n = d.bytes pos.consumed n := by
      rw [Device.bytes, Device.bytes, hbyte, hpos]
    rw [hbytes] at hrun' hsmooth'
    rw [hrun, hrun']
    exact ih _ (congrArg (· + n) hpos) hsmooth hsmooth'

/-- `read_exact` does not depend on the chunks. If `n` bytes arrive before a result that is not
positive, it gets the next `n` bytes of the device with at most `n` calls of `read`, and stores them
at `p` and nothing elsewhere; if such a result comes first, it throws. Two runs of a program that
reads through `read_exact` only give the same result if none of their reads fails. -/
theorem readExact_independent (rng : Urandom) (d : Device) (pos : Position) (p n : ℕ)
    (mem : Memory) :
    (d.Delivers pos.reads n → ∃ m ≤ n, ∃ mem' : Memory,
      d.run (rng.readExact n) pos = (pos.advance n m, .done (.ok (d.bytes pos.consumed n))) ∧
      Device.env.run d.answer (rng.readExactAt p n mem) pos =
        (pos.advance n m, .done (.ok (), mem')) ∧
      (∀ i < n, mem' (p + i) = d.byte (pos.consumed + i)) ∧
      ∀ i, i < p ∨ p + n ≤ i → mem' i = mem i) ∧
    (d.FailsWithin pos.reads n → ∃ pos' : Position, ∃ mem' : Memory,
      d.run (rng.readExact n) pos = (pos', .done (.error (.runtimeError readFailed))) ∧
      Device.env.run d.answer (rng.readExactAt p n mem) pos =
        (pos', .done (.error (.runtimeError readFailed), mem')) ∧
      ∀ i, i < p ∨ p + n ≤ i → mem' i = mem i) ∧
    (∀ (d' : Device) (pos' : Position) (α : Type) (q : Sys α), ReadsExactly rng q →
      d'.byte = d.byte → pos'.consumed = pos.consumed → Smooth d q pos → Smooth d' q pos' →
      ∃ r c m m', d.run q pos = (⟨c, m⟩, .done r) ∧ d'.run q pos' = (⟨c, m'⟩, .done r)) ∧
    ∀ a b c, ReadsExactly rng (rng.randomPasswordCounts a b c) := by
  have houtside (b : Bytes) (hb : b.length ≤ n) (i : ℕ) (hi : i < p ∨ p + n ≤ i) :
      mem.store p b i = mem i := by
    rcases hi with hi | hi
    · exact Memory.store_of_lt _ _ hi
    · exact Memory.store_of_ge _ (by omega)
  refine ⟨fun h => ?_, fun h => ?_, ?_, randomPasswordCounts_readsExactly rng⟩
  · obtain ⟨m, hm, hval⟩ := run_readExact rng h
    refine ⟨m, hm, _, hval, run_readExactAt rng p mem hval, fun i hi => ?_,
      houtside _ (Device.bytes_length ..).le⟩
    have hi' : i < (d.bytes pos.consumed n).length := by rwa [Device.bytes_length]
    calc mem.store p (d.bytes pos.consumed n) (p + i)
        = (d.bytes pos.consumed n)[i] := Memory.store_add _ hi'
      _ = d.byte (pos.consumed + i) := by simp [Device.bytes]
  · obtain ⟨k, hk, m, -, -, hval⟩ := run_readExact_fails rng h
    exact ⟨_, _, hval, run_readExactAt rng p mem hval,
      houtside _ ((Device.bytes_length ..).trans_le hk.le)⟩
  · intro d' pos' α q hq hbyte hpos h h'
    exact hq.run_eq hbyte.symm hpos.symm h h'

/-- A device that delivers three bytes at a time. -/
def threes : Device := ⟨fun i => i.toUInt8, fun _ => .ok 3⟩

/-- The same bytes, one at a time. -/
def ones : Device := { threes with result := fun _ => .ok 1 }

/-- Eight bytes that arrive in chunks of three, and a password for which it makes no difference in
which chunks the bytes arrive. -/
theorem readExact_independent_threes :
    (∃ m ≤ 8, ∃ mem' : Memory,
      threes.run (readExact ⟨3⟩ 8) ⟨0, 0⟩ = (⟨8, m⟩, .done (.ok [0, 1, 2, 3, 4, 5, 6, 7])) ∧
      ∀ i, i < 100 ∨ 108 ≤ i → mem' i = 0) ∧
    ∃ r c m m', threes.run (randomPasswordCounts ⟨3⟩ 2 4 2) ⟨0, 0⟩ = (⟨c, m⟩, .done r) ∧
      ones.run (randomPasswordCounts ⟨3⟩ 2 4 2) ⟨0, 0⟩ = (⟨c, m'⟩, .done r) := by
  obtain ⟨hone, -, htwo, hpassword⟩ :=
    readExact_independent ⟨3⟩ threes ⟨0, 0⟩ 100 8 fun _ => 0
  have hdel : threes.Delivers 0 8 := ⟨3, by decide, by decide⟩
  obtain ⟨m, hm, mem', hval, -, -, hout⟩ := hone hdel
  rw [Position.advance, Nat.zero_add, Nat.zero_add] at hval
  have hthrees : Smooth threes (randomPasswordCounts ⟨3⟩ 2 4 2) ⟨0, 0⟩ :=
    fun _ _ _ => Nat.succ_pos 2
  have hones : Smooth ones (randomPasswordCounts ⟨3⟩ 2 4 2) ⟨0, 0⟩ := fun _ _ _ => Nat.succ_pos 0
  exact ⟨⟨m, hm, mem', hval, hout⟩,
    htwo ones ⟨0, 0⟩ Bytes _ (hpassword 2 4 2) rfl rfl hthrees hones⟩

end Calls

end KCNet.Client
