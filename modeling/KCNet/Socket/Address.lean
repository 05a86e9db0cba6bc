import KCNet.Socket.Bytes

/-!
# IPv4 socket addresses

`inetNtop` renders an address in canonical dotted decimal, as the library function does for
`AF_INET`. Distinct addresses have distinct texts, so a comparison of texts is a comparison of
addresses.
-/

namespace KCNet

/-- `struct in_addr`, in network byte order. -/
structure InAddr where
  b0 : UInt8
  b1 : UInt8
  b2 : UInt8
  b3 : UInt8
deriving DecidableEq, Repr

/-- `AF_INET` on Linux. -/
def afInet : ℕ := 2

/-- The fields of `sockaddr_in` that the server reads. -/
structure SockAddrIn where
  sinFamily : ℕ
  sinAddr : InAddr
deriving DecidableEq, Repr

/-- A value-initialised `sockaddr_in{}`. -/
def SockAddrIn.zero : SockAddrIn := ⟨0, ⟨0, 0, 0, 0⟩⟩

/-- The address `accept` reports for an IPv4 peer. -/
def InAddr.toSockAddr (a : InAddr) : SockAddrIn := ⟨afInet, a⟩

/-- `INET_ADDRSTRLEN`. -/
def inetAddrStrLen : ℕ := 16

/-- One octet in decimal, without leading zeros. -/
def octetText (n : UInt8) : Bytes :=
  if n < 10 then [48 + n]
  else if n < 100 then [48 + n / 10, 48 + n % 10]
  else [48 + n / 100, 48 + n / 10 % 10, 48 + n % 10]

def octetValue (digits : Bytes) : UInt8 := digits.foldl (fun v d => 10 * v + (d - 48)) 0

theorem octetValue_octetText (n : UInt8) : octetValue (octetText n) = n := by
  have h : ∀ k : Fin 256, octetValue (octetText (UInt8.ofFin k)) = UInt8.ofFin k := by
    decide +kernel
  exact h n.toFin

/-- An octet contains no dot. -/
theorem dot_notMem_octetText (n : UInt8) : (46 : UInt8) ∉ octetText n := by
  have h : ∀ k : Fin 256, (46 : UInt8) ∉ octetText (UInt8.ofFin k) := by decide +kernel
  exact h n.toFin

theorem octetText_length_le (n : UInt8) : (octetText n).length ≤ 3 := by
  unfold octetText
  split
  · simp
  · split <;> simp

theorem octetText_injective : Function.Injective octetText :=
  Function.LeftInverse.injective octetValue_octetText

/-- `inet_ntop(AF_INET, …)`. -/
def inetNtop (a : InAddr) : Bytes :=
  octetText a.b0 ++ 46 :: (octetText a.b1 ++ 46 :: (octetText a.b2 ++ 46 :: octetText a.b3))

/-- The text fits the buffer of `INET_ADDRSTRLEN` bytes with its NUL, so `inet_ntop` cannot fail. -/
theorem inetNtop_length_lt (a : InAddr) : (inetNtop a).length < inetAddrStrLen := by
  have h0 := octetText_length_le a.b0
  have h1 := octetText_length_le a.b1
  have h2 := octetText_length_le a.b2
  have h3 := octetText_length_le a.b3
  simp only [inetNtop, inetAddrStrLen, List.length_append, List.length_cons]
  omega

/-- Two lists cut at the first occurrence of `a` agree piece by piece. -/
theorem append_cons_inj_of_notMem_left {a : UInt8} {x x' y y' : Bytes} (hx : a ∉ x) (hx' : a ∉ x')
    (h : x ++ a :: y = x' ++ a :: y') : x = x' ∧ y = y' := by
  rcases List.append_eq_append_iff.1 h with ⟨c, rfl, hc⟩ | ⟨c, rfl, hc⟩
  -- `c` stands before the cut in one list and after it in the other, so it does not start with `a`
  all_goals
    cases c with
    | nil => simpa [eq_comm] using hc
    | cons b c =>
      obtain ⟨rfl, -⟩ := List.cons.inj hc
      simp at hx hx'

/-- Equal texts mean equal addresses. -/
theorem inetNtop_injective : Function.Injective inetNtop := by
  rintro ⟨a0, a1, a2, a3⟩ ⟨b0, b1, b2, b3⟩ h
  simp only [inetNtop] at h
  have dot := dot_notMem_octetText
  obtain ⟨h0, h⟩ := append_cons_inj_of_notMem_left (dot _) (dot _) h
  obtain ⟨h1, h⟩ := append_cons_inj_of_notMem_left (dot _) (dot _) h
  obtain ⟨h2, h3⟩ := append_cons_inj_of_notMem_left (dot _) (dot _) h
  rw [octetText_injective h0, octetText_injective h1, octetText_injective h2,
    octetText_injective h3]

example : inetNtop ⟨192, 168, 1, 108⟩ = ascii "192.168.1.108" := by decide

end KCNet
