import Mathlib.Data.List.TakeWhile

/-!
# Byte strings and C strings

Buffers, payloads and texts are lists of bytes. A C string is what stands in a buffer before its
first NUL byte; a stream reaches a reader cut into non-empty chunks.
-/

namespace KCNet

abbrev Bytes := List UInt8

/-- The bytes of a text literal. All texts of the programs are ASCII. -/
def ascii (s : String) : Bytes := s.toList.map fun c => c.toNat.toUInt8

/-- What `std::string(const char *)` and `operator<<` read from a buffer. -/
def cString (buf : Bytes) : Bytes := buf.takeWhile (· != 0)

/-- A buffer `char buf[n] = {0}` after `data` has been written to its front. -/
def zeroFilled (n : ℕ) (data : Bytes) : Bytes := data ++ List.replicate (n - data.length) 0

/-- The zero fill is invisible to a reader of C strings. -/
@[simp] theorem cString_zeroFilled (n : ℕ) (data : Bytes) :
    cString (zeroFilled n data) = cString data := by
  have hz : cString (List.replicate (n - data.length) 0) = [] := by
    simp [cString]
  unfold zeroFilled cString at *
  rw [List.takeWhile_append, hz, List.append_nil]
  split
  · next h => exact ((List.takeWhile_prefix _).eq_of_length h).symm
  · rfl

@[simp] theorem take_zeroFilled (n : ℕ) (data : Bytes) :
    (zeroFilled n data).take data.length = data := by
  simp [zeroFilled]

theorem cString_eq_self {data : Bytes} (h : (0 : UInt8) ∉ data) : cString data = data := by
  rw [cString, List.takeWhile_eq_self_iff]
  intro b hb
  have : b ≠ 0 := fun h0 => h (h0 ▸ hb)
  simpa using this

/-- A stream `m` cut into non-empty chunks. -/
def Segments (cs : List Bytes) (m : Bytes) : Prop := (∀ c ∈ cs, c ≠ []) ∧ cs.flatten = m

instance (cs : List Bytes) (m : Bytes) : Decidable (Segments cs m) :=
  inferInstanceAs (Decidable (_ ∧ _))

/-- The chunk that arrives first is a non-empty initial part of the stream. -/
theorem Segments.head {c m : Bytes} {cs : List Bytes} (h : Segments (c :: cs) m) :
    c ≠ [] ∧ c <+: m := by
  obtain ⟨hne, rfl⟩ := h
  exact ⟨hne c (by simp), by simp⟩

end KCNet
