import KCNet.Client.Password
import KCNet.Random.Arrangements

/-!
# How the passwords spread

How many byte streams lead `random_password_counts` to each of the passwords that it can return.
Every byte that it reads selects a character or an index of the shuffle, so a password is counted
over the arrangements that lead to it: the choice of its characters is counted exactly, and each
arrangement is drawn nearly equally often.

## Main definitions

- `Kind`, `kindOf`, `kindAt` — the three alphabets, and which of them a place draws from
- `charWeight` — how many bytes select a character
- `ways` — in how many ways a password can come about
- `bufferOf` — a choice of characters and draws as the bytes that are read
-/

namespace KCNet.Client

open Interaction Urandom KCNet.Random Equiv Finset

/-- The kinds of characters. -/
inductive Kind where
  | digit
  | letter
  | symbol
deriving DecidableEq

namespace Kind

instance : Fintype Kind := ⟨{digit, letter, symbol}, fun kind => by cases kind <;> decide⟩

def alphabet : Kind → Bytes
  | digit => digits
  | letter => letters
  | symbol => symbols

/-- The character that a byte selects. -/
def pick (kind : Kind) (byte : UInt8) : UInt8 :=
  kind.alphabet.getD (byte.toNat % kind.alphabet.length) 0

theorem alphabet_ne_nil (kind : Kind) : kind.alphabet ≠ [] := by cases kind <;> decide

theorem alphabet_nodup (kind : Kind) : kind.alphabet.Nodup := by cases kind <;> decide +kernel

theorem lookUp_ofFn (kind : Kind) {n : ℕ} (buf : Fin n → UInt8) :
    lookUp kind.alphabet (List.ofFn buf) = List.ofFn fun k => kind.pick (buf k) := by
  rw [lookUp, List.map_ofFn]
  rfl

end Kind

/-- The kind of a character of a password. -/
def kindOf (ch : UInt8) : Kind :=
  if ch ∈ digits then .digit else if ch ∈ letters then .letter else .symbol

/-- The kind of the characters that are drawn for the place `k`. -/
def kindAt (a b k : ℕ) : Kind :=
  if k < a then .digit else if k < a + b then .letter else .symbol

/-- How many of the 256 bytes select the character. -/
def charWeight (ch : UInt8) : ℕ :=
  residueCount 256 (kindOf ch).alphabet.length ((kindOf ch).alphabet.idxOf ch)

theorem kindOf_of_mem {kind : Kind} {ch : UInt8} (h : ch ∈ kind.alphabet) : kindOf ch = kind := by
  obtain ⟨-, hl, hs⟩ := alphabets_disjoint
  cases kind with
  | digit => exact if_pos h
  | letter => exact (if_neg (hl ch h).1).trans (if_pos h)
  | symbol => exact (if_neg (hs ch h).1).trans (if_neg (hs ch h).2)

theorem mem_alphabet_kindOf {ch : UInt8} (h : ch ∈ digits ++ letters ++ symbols) :
    ch ∈ (kindOf ch).alphabet := by
  rw [List.mem_append, List.mem_append] at h
  obtain (h | h) | h := h
  · rwa [show kindOf ch = .digit from kindOf_of_mem h]
  · rwa [show kindOf ch = .letter from kindOf_of_mem h]
  · rwa [show kindOf ch = .symbol from kindOf_of_mem h]

theorem kindOf_pick (kind : Kind) (byte : UInt8) : kindOf (kind.pick byte) = kind := by
  apply kindOf_of_mem
  have hlt : byte.toNat % kind.alphabet.length < kind.alphabet.length :=
    Nat.mod_lt _ (List.length_pos_iff.2 kind.alphabet_ne_nil)
  rw [Kind.pick, List.getD_eq_getElem _ _ hlt]
  exact List.getElem_mem hlt

/-! ## The bytes that are read -/

section Streams

variable {a b c : ℕ}

/-- The places, kind by kind. -/
theorem ofFn_kindAt {α : Type} (F : Kind → Fin (a + b + c) → α) :
    List.ofFn (fun k : Fin (a + b + c) => F (kindAt a b k) k) =
      List.ofFn (fun k : Fin a => F .digit ((k.castAdd b).castAdd c)) ++
        (List.ofFn (fun k : Fin b => F .letter ((k.natAdd a).castAdd c)) ++
          List.ofFn fun k : Fin c => F .symbol (k.natAdd (a + b))) := by
  have hdigit (k : Fin a) : kindAt a b k = .digit := if_pos k.isLt
  have hletter (k : Fin b) : kindAt a b (a + k) = .letter := by
    rw [kindAt, if_neg (by omega), if_pos (by omega)]
  have hsymbol (k : Fin c) : kindAt a b (a + b + k) = .symbol := by
    rw [kindAt, if_neg (by omega), if_neg (by omega)]
  rw [List.ofFn_add, List.ofFn_add, List.append_assoc]
  congr 1
  · congr 1
    funext k
    exact congrArg (F · _) (hdigit k)
  · congr 2
    · funext k
      exact congrArg (F · _) (hletter k)
    · funext k
      exact congrArg (F · _) (hsymbol k)

theorem supplies_randomFromAlphabet (rng : Urandom) (kind : Kind) {n : ℕ} (buf : Fin n → UInt8) :
    Supplies (rng.randomFromAlphabet n kind.alphabet) (List.ofFn buf)
      (List.ofFn fun k => kind.pick (buf k)) := by
  have hread := supplies_readExact rng (List.ofFn buf)
  rw [List.length_ofFn] at hread
  rw [randomFromAlphabet, if_neg kind.alphabet_ne_nil, ← kind.lookUp_ofFn]
  exact hread.map (lookUp kind.alphabet)

/-- The shuffle on the draws `v` moves the characters by the permutation of the loop. -/
theorem supplies_shuffle (rng : Urandom) {n : ℕ} {v : Fin (n - 1) → ℕ} (hv : ∀ k, v k < 2 ^ 64)
    (g : Fin n → UInt8) : Supplies (rng.shuffle n (List.ofFn g)) (drawBytes (atIndex v) n)
      (List.ofFn fun k => g (permutation n (atIndex v) k)) := by
  have hlength : (List.ofFn g).length = n := List.length_ofFn
  obtain ⟨w, hw, hs⟩ := exists_supplies_shuffle rng (atIndex v) n (List.ofFn g) hlength.ge
    (atIndex_lt (by decide) hv)
  have hmoved : (fun k => (List.ofFn g).getD (permutation n (atIndex v) k) 0) =
      fun k => g (permutation n (atIndex v) k) := by
    funext k
    rw [List.getD_eq_getElem _ _ ((permutation n _ k).isLt.trans_eq hlength.symm),
      List.getElem_ofFn]
  rwa [hw.unique (rearranged_permutation hlength), hmoved] at hs

/-- The password that the characters and the draws lead to. -/
theorem supplies_randomPasswordCounts (rng : Urandom) (buf : Fin (a + b + c) → UInt8)
    {v : Fin (a + b + c - 1) → ℕ} (hv : ∀ k, v k < 2 ^ 64) :
    Supplies (rng.randomPasswordCounts a b c)
      (List.ofFn buf ++ drawBytes (atIndex v) (a + b + c))
      (List.ofFn (arrange (fun k : Fin (a + b + c) => kindAt a b k) Kind.pick buf
        (permutation (a + b + c) (atIndex v)))) := by
  have hsplit := ofFn_kindAt (a := a) (b := b) (c := c) fun _ k => buf k
  have hpicked := ofFn_kindAt (a := a) (b := b) (c := c) fun kind k => kind.pick (buf k)
  rw [hsplit, List.append_assoc, List.append_assoc, randomPasswordCounts]
  refine (supplies_randomFromAlphabet rng .digit _).bind
    ((supplies_randomFromAlphabet rng .letter _).bind
      ((supplies_randomFromAlphabet rng .symbol _).bind ?_))
  rw [List.append_assoc, ← hpicked, List.length_ofFn]
  exact supplies_shuffle rng hv _

/-- How many bytes a password of `n` characters takes. -/
def streamLength (n : ℕ) : ℕ := n + 8 * (n - 1)

theorem drawBytes_length (x : ℕ → ℕ) (n : ℕ) : (drawBytes x n).length = 8 * (n - 1) := by
  induction n using drawBytes.induct with
  | case1 | case2 => rfl
  | case3 i ih =>
    rw [drawBytes, List.length_append, littleEndian_length, ih]
    omega

/-- The bytes of the draws tell the draws. -/
theorem eq_of_drawBytes_eq {x y : ℕ → ℕ} (hx : ∀ i, x i < 2 ^ 64) (hy : ∀ i, y i < 2 ^ 64) {n : ℕ}
    (h : drawBytes x n = drawBytes y n) : ∀ i, 2 ≤ i → i ≤ n → x i = y i := by
  induction n using drawBytes.induct with
  | case1 | case2 =>
    intro i h2 hi
    omega
  | case3 m ih =>
    rw [drawBytes, drawBytes] at h
    obtain ⟨hword, hrest⟩ := List.append_inj h (by rw [littleEndian_length, littleEndian_length])
    intro i h2 hi
    rcases Nat.lt_or_ge i (m + 2) with hlt | hge
    · exact ih hrest i h2 (by omega)
    · obtain rfl : i = m + 2 := by omega
      have hlt : x (m + 2) < 256 ^ 8 := hx (m + 2)
      have hlt' : y (m + 2) < 256 ^ 8 := hy (m + 2)
      rw [← uint64OfBytes_littleEndian hlt, hword, uint64OfBytes_littleEndian hlt']

/-- The choice of the characters, and the draws of the shuffle. -/
abbrev Choice (n : ℕ) := (Fin n → UInt8) × (Fin (n - 1) → Fin (2 ^ 64))

/-- The bytes that a choice is read from. -/
def streamOf {n : ℕ} (z : Choice n) : Bytes :=
  List.ofFn z.1 ++ drawBytes (atIndex fun k => z.2 k) n

theorem streamOf_length {n : ℕ} (z : Choice n) : (streamOf z).length = streamLength n := by
  rw [streamOf, List.length_append, List.length_ofFn, drawBytes_length, streamLength]

theorem streamOf_injective (n : ℕ) : Function.Injective (streamOf (n := n)) := by
  rintro ⟨x, y⟩ ⟨x', y'⟩ h
  obtain ⟨hchars, hdraws⟩ := List.append_inj h (by rw [List.length_ofFn, List.length_ofFn])
  have hlt (v : Fin (n - 1) → Fin (2 ^ 64)) := atIndex_lt (by decide) fun k => (v k).isLt
  have hvalue := eq_of_drawBytes_eq (hlt y) (hlt y') hdraws
  refine Prod.ext (List.ofFn_injective hchars) (funext fun k => Fin.ext ?_)
  have hk := hvalue (k + 2) (by omega) (by omega)
  rwa [atIndex_add_two, atIndex_add_two] at hk

/-- A choice as the bytes that are read. -/
def bufferOf {n : ℕ} (z : Choice n) (k : Fin (streamLength n)) : UInt8 :=
  (streamOf z).get (k.cast (streamOf_length z).symm)

theorem ofFn_bufferOf {n : ℕ} (z : Choice n) : List.ofFn (bufferOf z) = streamOf z := by
  apply List.ext_getElem
  · rw [List.length_ofFn, streamOf_length]
  · intro i _ _
    rw [List.getElem_ofFn]
    rfl

/-- Every byte buffer of the right length is read as exactly one choice. -/
theorem bufferOf_bijective (n : ℕ) : Function.Bijective (bufferOf (n := n)) := by
  rw [Fintype.bijective_iff_injective_and_card]
  constructor
  · intro z z' h
    apply streamOf_injective n
    rw [← ofFn_bufferOf, h, ofFn_bufferOf]
  · have hword : (2 : ℕ) ^ 64 = 256 ^ 8 := by decide
    rw [Fintype.card_prod, Fintype.card_pi_const, Fintype.card_pi_const, Fintype.card_pi_const,
      Fintype.card_fin, card_byte, hword, streamLength, pow_add, pow_mul]

end Streams

/-! ## The permutations that fit a password -/

section Fits

variable {a b c : ℕ} {w : Bytes}

theorem card_fiber {α : Type} [DecidableEq α] {n : ℕ} (g : Fin n → α) (i : α) :
    Fintype.card {k // g k = i} = (List.ofFn g).count i := by
  have h := Fin.card_filter_univ_eq_vector_get_eq_count i (List.Vector.ofFn g)
  simp only [List.Vector.get_ofFn, List.Vector.toList_ofFn] at h
  rw [Fintype.card_subtype, h]

theorem map_kindOf {kind : Kind} {x : Bytes} (h : ∀ ch ∈ x, ch ∈ kind.alphabet) :
    x.map kindOf = List.replicate x.length kind := by
  rw [List.eq_replicate_iff, List.length_map]
  simpa using fun ch hch => kindOf_of_mem (h ch hch)

theorem ofFn_kindAt_eq (a b c : ℕ) : List.ofFn (fun k : Fin (a + b + c) => kindAt a b k) =
    List.replicate a .digit ++ (List.replicate b .letter ++ List.replicate c .symbol) := by
  rw [ofFn_kindAt fun kind _ => kind, List.ofFn_const, List.ofFn_const, List.ofFn_const]

/-- The kinds of the characters of a password are those of the places, in another order. -/
theorem Mixed.kinds (h : Mixed a b c w) :
    (w.map kindOf).Perm (List.ofFn fun k : Fin (a + b + c) => kindAt a b k) := by
  obtain ⟨x, y, z, ⟨rfl, hx⟩, ⟨rfl, hy⟩, ⟨rfl, hz⟩, hperm⟩ := h.split
  have hdigits : x.map kindOf = List.replicate x.length .digit := map_kindOf hx
  have hletters : y.map kindOf = List.replicate y.length .letter := map_kindOf hy
  have hsymbols : z.map kindOf = List.replicate z.length .symbol := map_kindOf hz
  have hmap := hperm.map kindOf
  rw [List.map_append, List.map_append, hdigits, hletters, hsymbols] at hmap
  rw [ofFn_kindAt_eq, ← List.append_assoc]
  exact hmap

/-- There are as many permutations that fit as ways to permute the characters of each kind. -/
theorem Mixed.card_fits {g : Fin (a + b + c) → UInt8} (h : Mixed a b c (List.ofFn g)) :
    #{p : Perm (Fin (a + b + c)) | (fun k : Fin (a + b + c) => kindAt a b k) ∘ ⇑p = kindOf ∘ g} =
      a.factorial * b.factorial * c.factorial := by
  have hkinds : (List.ofFn (kindOf ∘ g)).Perm
      (List.ofFn fun k : Fin (a + b + c) => kindAt a b k) := by
    rw [← List.map_ofFn]
    exact h.kinds
  rw [card_comp_perm_eq fun kind => by rw [card_fiber, card_fiber, hkinds.count_eq]]
  have hprod (F : Kind → ℕ) : ∏ kind, F kind = F .digit * F .letter * F .symbol := by
    rw [Nat.mul_assoc]
    exact (Finset.prod_insert (by decide)).trans
      (congrArg _ ((Finset.prod_insert (by decide)).trans (congrArg _ (Finset.prod_singleton ..))))
  simp only [hprod, card_fiber, ofFn_kindAt_eq]
  simp [List.count_replicate]

theorem weight_eq {n : ℕ} (g : Fin n → UInt8) (h : ∀ k, g k ∈ (kindOf (g k)).alphabet) :
    weight Kind.pick kindOf g = ((List.ofFn g).map charWeight).prod := by
  rw [List.map_ofFn, List.prod_ofFn, weight]
  refine Finset.prod_congr rfl fun k _ => ?_
  have hlt := List.idxOf_lt_length_iff.2 (h k)
  simp only [Kind.pick, getD_eq_iff _ (Kind.alphabet_nodup _) (h k)]
  exact card_byte_mod_eq hlt

end Fits

/-- In how many ways a password can come about, by its characters and by the order in which they
have been drawn. -/
def ways (a b c : ℕ) (w : Bytes) : ℕ :=
  a.factorial * b.factorial * c.factorial * (w.map charWeight).prod

/-- How evenly `random_password_counts` spreads over the passwords. Of the byte buffers that it
reads, nearly the same number leads to a password in each of the ways in which it can come about,
so that the order is not biased beyond the residues of the shuffle. -/
theorem randomPasswordCounts_spread (rng : Urandom) {d : Device} (hd : d.Unfailing)
    (pos : Position) {a b c : ℕ} {w : Bytes} (h : Mixed a b c w) :
    ways a b c w * ∏ i ∈ Finset.Icc 2 (a + b + c), 2 ^ 64 / i ≤
        Nat.card {buf : Fin (streamLength (a + b + c)) → UInt8 //
          (d.withBuffer pos.consumed buf).Returns (rng.randomPasswordCounts a b c) pos w} ∧
      Nat.card {buf : Fin (streamLength (a + b + c)) → UInt8 //
          (d.withBuffer pos.consumed buf).Returns (rng.randomPasswordCounts a b c) pos w} ≤
        ways a b c w * ∏ i ∈ Finset.Icc 2 (a + b + c), 2 ^ 64 ⌈/⌉ i := by
  obtain ⟨g, rfl⟩ : ∃ g : Fin (a + b + c) → UInt8, w = List.ofFn g := by
    refine ⟨fun k => w.get (k.cast h.length.symm), List.ext_getElem ?_ fun i _ _ => ?_⟩
    · exact h.length.trans List.length_ofFn.symm
    · rw [List.getElem_ofFn]
      rfl
  have hmem (k : Fin (a + b + c)) : g k ∈ (kindOf (g k)).alphabet :=
    mem_alphabet_kindOf (h.password.chars _ (List.mem_ofFn.2 ⟨k, rfl⟩))
  -- a buffer leads to the password that its choice leads to
  have hreturns (z : Choice (a + b + c)) : arrange (fun k : Fin (a + b + c) => kindAt a b k)
        Kind.pick z.1 (permutation (a + b + c) (atIndex fun k => z.2 k)) = g ↔
      (d.withBuffer pos.consumed (bufferOf z)).Returns (rng.randomPasswordCounts a b c) pos
        (List.ofFn g) := by
    have hold : (d.withBuffer pos.consumed (bufferOf z)).Holds pos (streamOf z) := by
      rw [Device.Holds, streamOf_length, Device.bytes_withBuffer, ofFn_bufferOf]
    have hs := (supplies_randomPasswordCounts rng z.1 fun k => (z.2 k).isLt).returns
      (d := d.withBuffer pos.consumed (bufferOf z)) hd pos hold
    constructor
    · rintro rfl
      exact hs
    · intro hg
      exact List.ofFn_injective (hs.unique hg)
  have hcard := Nat.card_congr ((Equiv.ofBijective _ (bufferOf_bijective (a + b + c))).subtypeEquiv
    (q := fun buf => (d.withBuffer pos.consumed buf).Returns (rng.randomPasswordCounts a b c) pos
      (List.ofFn g)) hreturns)
  rw [Nat.card_eq_fintype_card, Fintype.card_subtype] at hcard
  rw [← hcard, ways, ← h.card_fits, ← weight_eq g hmem]
  exact card_arrangements_bounds kindOf_pick (card_draws_bounds (2 ^ 64)) g

/-- The two digits of `7x3` are drawn by 25 and 26 bytes, its letter by 4, and the digits in either
order. -/
theorem randomPasswordCounts_spread_threes :
    2 * (25 * 4 * 26) * (2 ^ 63 * (2 ^ 64 / 3)) ≤ Nat.card {buf : Fin 19 → UInt8 //
      (threes.withBuffer 0 buf).Returns (randomPasswordCounts ⟨4⟩ 2 1 0) ⟨0, 0⟩ (ascii "7x3")} := by
  have hd : threes.Unfailing := fun _ => Nat.succ_pos 2
  have hw : Mixed 2 1 0 (ascii "7x3") :=
    ⟨rfl, by decide +kernel, by decide +kernel, by decide +kernel⟩
  have h := (randomPasswordCounts_spread ⟨4⟩ hd ⟨0, 0⟩ hw).1
  have hways : ways 2 1 0 (ascii "7x3") = 2 * (25 * 4 * 26) := by decide +kernel
  have hprod : ∏ i ∈ Finset.Icc 2 3, 2 ^ 64 / i = 2 ^ 63 * (2 ^ 64 / 3) := by decide
  rwa [hways, hprod] at h

end KCNet.Client
