import KCNet.Socket.Bytes

/-!
# The base64 library

`lib/base64/include/base64.hpp`, which the repository carries with it, on a little-endian machine:
the encoder, the decoder with the texts of its errors, and the round trip.

## Main results

- `decodeInto_encodeInto` — the decoder undoes the encoder
- `encodeInto_injective`
- `zero_notMem_encodeInto` — an encoded text is a C string
-/

namespace KCNet.Base64

def alphabet : Bytes := ascii "ABCDEFGHIJKLMNOPQRSTUVWXYZabcdefghijklmnopqrstuvwxyz0123456789+/"

/-- `padding_char` -/
def paddingChar : UInt8 := 61

/-- `bad_char` -/
def badChar : UInt32 := 0x01FFFFFF

/-! ## The tables -/

/-- `encode_table_0`, where each character stands four times -/
def encodeTable0 (t : UInt8) : UInt8 := alphabet.getD (t.toNat / 4) 0

/-- `encode_table_1`, where the alphabet stands four times -/
def encodeTable1 (t : UInt8) : UInt8 := alphabet.getD (t.toNat % 64) 0

/-- The six bits that a character stands for. -/
def sextet (c : UInt8) : Option UInt32 :=
  if c ∈ alphabet then some (alphabet.idxOf c).toUInt32 else none

/-- A table of the decoder: the six bits at their place, or `bad_char`. -/
def decodeTable (place : UInt32 → UInt32) (c : UInt8) : UInt32 :=
  ((sextet c).map place).getD badChar

def place0 (v : UInt32) : UInt32 := v <<< 2

def place1 (v : UInt32) : UInt32 := (v >>> 4) ||| ((v &&& 0x0F) <<< 12)

def place2 (v : UInt32) : UInt32 := ((v >>> 2) <<< 8) ||| ((v &&& 0x03) <<< 22)

def place3 (v : UInt32) : UInt32 := v <<< 16

/-- `decode_table_0` -/
def decodeTable0 : UInt8 → UInt32 := decodeTable place0

/-- `decode_table_1` -/
def decodeTable1 : UInt8 → UInt32 := decodeTable place1

/-- `decode_table_2` -/
def decodeTable2 : UInt8 → UInt32 := decodeTable place2

/-- `decode_table_3` -/
def decodeTable3 : UInt8 → UInt32 := decodeTable place3

/-! ## The encoder -/

/-- `encode_into` -/
def encodeInto : Bytes → Bytes
  | t1 :: t2 :: t3 :: bytes =>
    encodeTable0 t1 ::
    encodeTable1 (((t1 &&& 0x03) <<< 4) ||| ((t2 >>> 4) &&& 0x0F)) ::
    encodeTable1 (((t2 &&& 0x0F) <<< 2) ||| ((t3 >>> 6) &&& 0x03)) ::
    encodeTable1 t3 ::
    encodeInto bytes
  | [t1, t2] =>
    [encodeTable0 t1,
      encodeTable1 (((t1 &&& 0x03) <<< 4) ||| ((t2 >>> 4) &&& 0x0F)),
      encodeTable1 ((t2 &&& 0x0F) <<< 2),
      paddingChar]
  | [t1] => [encodeTable0 t1, encodeTable1 ((t1 &&& 0x03) <<< 4), paddingChar, paddingChar]
  | [] => []

/-! ## The decoder -/

def notDivisibleBy4 : Bytes := ascii "Invalid base64 encoded data - Size not divisible by 4"

def tooMuchPadding : Bytes := ascii "Invalid base64 encoded data - Found more than 2 padding signs"

def invalidCharacter : Bytes := ascii "Invalid base64 encoded data - Invalid character"

def invalidPadding : Bytes := ascii "Invalid base64 encoded data - Invalid padding number"

/-- `tempBytes`, at the indices `decidx0` to `decidx2` -/
def tempBytes (temp : UInt32) : Bytes :=
  [temp.toUInt8, (temp >>> 8).toUInt8, (temp >>> 16).toUInt8]

/-- The first `n` bytes of a group, unless a character was bad. -/
def groupBytes (n : ℕ) (temp : UInt32) : Except Bytes Bytes :=
  if badChar ≤ temp then .error invalidCharacter else .ok ((tempBytes temp).take n)

/-- The loop over the full groups: what `i` of them decode to, and the text after them. -/
def decodeGroups : ℕ → Bytes → Except Bytes (Bytes × Bytes)
  | i + 1, t1 :: t2 :: t3 :: t4 :: bytes => do
    let group ← groupBytes 3
      (decodeTable0 t1 ||| decodeTable1 t2 ||| decodeTable2 t3 ||| decodeTable3 t4)
    let (decoded, rest) ← decodeGroups i bytes
    return (group ++ decoded, rest)
  | _, bytes => return ([], bytes)

/-- The `switch` over the padding. -/
def decodeLast (numPadding : ℕ) (bytes : Bytes) : Except Bytes Bytes :=
  match numPadding, bytes with
  | 0, _ => .ok []
  | 1, t1 :: t2 :: t3 :: _ => groupBytes 2 (decodeTable0 t1 ||| decodeTable1 t2 ||| decodeTable2 t3)
  | 2, t1 :: t2 :: _ => groupBytes 1 (decodeTable0 t1 ||| decodeTable1 t2)
  | _, _ => .error invalidPadding

/-- The padding signs among the last four characters. -/
def numPadding (base64Text : Bytes) : ℕ :=
  (base64Text.drop (base64Text.length - 4)).count paddingChar

/-- `decode_into` -/
def decodeInto (base64Text : Bytes) : Except Bytes Bytes :=
  if base64Text = [] then .ok []
  else if base64Text.length % 4 ≠ 0 then .error notDivisibleBy4
  else if 2 < numPadding base64Text then .error tooMuchPadding
  else do
    let full := base64Text.length / 4 - (if numPadding base64Text ≠ 0 then 1 else 0)
    let (decoded, rest) ← decodeGroups full base64Text
    let last ← decodeLast (numPadding base64Text) rest
    return decoded ++ last

/-- `from_base64` -/
def fromBase64 (data : Bytes) : Except Bytes Bytes := decodeInto data

/-! ## One group -/

/-- What holds of the 256 bytes holds of every byte. -/
theorem forall_byte {P : UInt8 → Prop} (h : ∀ i : Fin 256, P ⟨⟨i⟩⟩) (t : UInt8) : P t :=
  h t.toBitVec.toFin

theorem alphabet_length : alphabet.length = 64 := by decide +kernel

theorem alphabet_nodup : alphabet.Nodup := by decide +kernel

theorem mod_lt_alphabet (t : UInt8) : t.toNat % 64 < alphabet.length :=
  alphabet_length ▸ Nat.mod_lt _ (by decide)

theorem encodeTable1_eq (t : UInt8) :
    encodeTable1 t = alphabet.get ⟨t.toNat % 64, mod_lt_alphabet t⟩ := by
  rw [encodeTable1, List.getD_eq_getElem?_getD, List.getElem?_eq_getElem (mod_lt_alphabet t)]
  rfl

theorem encodeTable1_mem (t : UInt8) : encodeTable1 t ∈ alphabet := by
  rw [encodeTable1_eq]
  exact List.get_mem _ _

theorem encodeTable0_eq (t : UInt8) : encodeTable0 t = encodeTable1 (t >>> 2) := by
  have hlt := t.toNat_lt
  have hshift : (t >>> 2).toNat = t.toNat / 4 := by simp [Nat.shiftRight_eq_div_pow]
  rw [encodeTable0, encodeTable1, hshift, Nat.mod_eq_of_lt (by omega)]

theorem sextet_encodeTable1 (t : UInt8) : sextet (encodeTable1 t) = some (t &&& 63).toUInt32 := by
  have hmask : ∀ t : UInt8, (t.toNat % 64).toUInt32 = (t &&& 63).toUInt32 :=
    forall_byte (by decide +kernel)
  rw [sextet, if_pos (encodeTable1_mem t), encodeTable1_eq, List.get_eq_getElem,
    alphabet_nodup.idxOf_getElem, hmask]

/-- A table reads the six bits back. -/
theorem decodeTable_encodeTable1 (place : UInt32 → UInt32) (t : UInt8) :
    decodeTable place (encodeTable1 t) = place (t &&& 63).toUInt32 := by
  rw [decodeTable, sextet_encodeTable1]
  rfl

theorem and_or_distrib (a b c : UInt32) : (a ||| b) &&& c = (a &&& c) ||| (b &&& c) := by
  apply UInt32.toNat_inj.1
  rw [UInt32.toNat_and, UInt32.toNat_or, UInt32.toNat_or, UInt32.toNat_and, UInt32.toNat_and]
  exact Nat.and_or_distrib_right ..

theorem or_or_or_comm (a b c d : UInt32) : (a ||| b) ||| (c ||| d) = (a ||| c) ||| (b ||| d) := by
  rw [UInt32.or_assoc, ← UInt32.or_assoc b, UInt32.or_comm b, UInt32.or_assoc c, UInt32.or_assoc]

theorem place1_or (a b : UInt32) : place1 (a ||| b) = place1 a ||| place1 b := by
  rw [place1, UInt32.shiftRight_or, and_or_distrib, UInt32.shiftLeft_or, or_or_or_comm]
  rfl

theorem place2_or (a b : UInt32) : place2 (a ||| b) = place2 a ||| place2 b := by
  rw [place2, UInt32.shiftRight_or, UInt32.shiftLeft_or, and_or_distrib, UInt32.shiftLeft_or,
    or_or_or_comm]
  rfl

/-- The tables take the bits of a character one by one. -/
theorem decodeTable_or {place : UInt32 → UInt32}
    (hplace : ∀ a b, place (a ||| b) = place a ||| place b) (a b : UInt8) :
    decodeTable place (encodeTable1 (a ||| b)) =
      decodeTable place (encodeTable1 a) ||| decodeTable place (encodeTable1 b) := by
  have hand : (a ||| b) &&& 63 = (a &&& 63) ||| (b &&& 63) :=
    UInt8.toBitVec_inj.1 BitVec.and_or_distrib_right
  simp only [decodeTable_encodeTable1]
  rw [hand, UInt8.toUInt32_or, hplace]

/-- The number whose lowest bytes are the given ones. -/
def packed (t1 t2 t3 : UInt8) : UInt32 := t1.toUInt32 ||| t2.toUInt32 <<< 8 ||| t3.toUInt32 <<< 16

/-! Each byte is put together from the two characters that hold its bits. -/

theorem first_byte (t : UInt8) : decodeTable0 (encodeTable0 t) |||
    decodeTable1 (encodeTable1 ((t &&& 0x03) <<< 4)) = t.toUInt32 := by
  have h : ∀ t : UInt8, place0 (t >>> 2 &&& 63).toUInt32 |||
      place1 ((t &&& 0x03) <<< 4 &&& 63).toUInt32 = t.toUInt32 := forall_byte (by decide +kernel)
  rw [encodeTable0_eq, decodeTable0, decodeTable1, decodeTable_encodeTable1,
    decodeTable_encodeTable1, h]

theorem second_byte (t : UInt8) : decodeTable1 (encodeTable1 ((t >>> 4) &&& 0x0F)) |||
    decodeTable2 (encodeTable1 ((t &&& 0x0F) <<< 2)) = t.toUInt32 <<< 8 := by
  have h : ∀ t : UInt8, place1 ((t >>> 4) &&& 0x0F &&& 63).toUInt32 |||
      place2 ((t &&& 0x0F) <<< 2 &&& 63).toUInt32 = t.toUInt32 <<< 8 :=
    forall_byte (by decide +kernel)
  rw [decodeTable1, decodeTable2, decodeTable_encodeTable1, decodeTable_encodeTable1, h]

theorem third_byte (t : UInt8) : decodeTable2 (encodeTable1 ((t >>> 6) &&& 0x03)) |||
    decodeTable3 (encodeTable1 t) = t.toUInt32 <<< 16 := by
  have h : ∀ t : UInt8, place2 ((t >>> 6) &&& 0x03 &&& 63).toUInt32 |||
      place3 (t &&& 63).toUInt32 = t.toUInt32 <<< 16 := forall_byte (by decide +kernel)
  rw [decodeTable2, decodeTable3, decodeTable_encodeTable1, decodeTable_encodeTable1, h]

theorem decode_three (t1 t2 t3 : UInt8) :
    decodeTable0 (encodeTable0 t1) |||
      decodeTable1 (encodeTable1 (((t1 &&& 0x03) <<< 4) ||| ((t2 >>> 4) &&& 0x0F))) |||
      decodeTable2 (encodeTable1 (((t2 &&& 0x0F) <<< 2) ||| ((t3 >>> 6) &&& 0x03))) |||
      decodeTable3 (encodeTable1 t3) = packed t1 t2 t3 := by
  rw [packed, ← first_byte, ← second_byte, ← third_byte, decodeTable1, decodeTable2,
    decodeTable_or place1_or, decodeTable_or place2_or]
  simp only [UInt32.or_assoc]

theorem decode_two (t1 t2 : UInt8) :
    decodeTable0 (encodeTable0 t1) |||
      decodeTable1 (encodeTable1 (((t1 &&& 0x03) <<< 4) ||| ((t2 >>> 4) &&& 0x0F))) |||
      decodeTable2 (encodeTable1 ((t2 &&& 0x0F) <<< 2)) = packed t1 t2 0 := by
  have hzero : packed t1 t2 0 = t1.toUInt32 ||| t2.toUInt32 <<< 8 := UInt32.or_zero
  rw [hzero, ← first_byte, ← second_byte, decodeTable1, decodeTable_or place1_or]
  simp only [UInt32.or_assoc]

theorem decode_one (t1 : UInt8) : decodeTable0 (encodeTable0 t1) |||
    decodeTable1 (encodeTable1 ((t1 &&& 0x03) <<< 4)) = packed t1 0 0 := by
  have hzero : packed t1 0 0 = t1.toUInt32 := UInt32.or_zero.trans UInt32.or_zero
  rw [hzero, first_byte]

theorem tempBytes_packed (t1 t2 t3 : UInt8) : tempBytes (packed t1 t2 t3) = [t1, t2, t3] := by
  have h2 : ∀ t : UInt8, (t.toUInt32 <<< 8).toUInt8 = 0 ∧ t.toUInt32 >>> 8 = 0 ∧
      (t.toUInt32 <<< 8) >>> 8 = t.toUInt32 ∧ (t.toUInt32 <<< 8) >>> 16 = 0 :=
    forall_byte (by decide +kernel)
  have h3 : ∀ t : UInt8, (t.toUInt32 <<< 16).toUInt8 = 0 ∧ t.toUInt32 >>> 16 = 0 ∧
      ((t.toUInt32 <<< 16) >>> 8).toUInt8 = 0 ∧ (t.toUInt32 <<< 16) >>> 16 = t.toUInt32 :=
    forall_byte (by decide +kernel)
  simp [tempBytes, packed, UInt32.shiftRight_or, h2, h3]

theorem packed_lt_badChar (t1 t2 t3 : UInt8) : ¬ badChar ≤ packed t1 t2 t3 := by
  have h1 := t1.toNat_lt
  have h2 : ∀ t : UInt8, (t.toUInt32 <<< 8).toNat < 2 ^ 24 := forall_byte (by decide +kernel)
  have h3 : ∀ t : UInt8, (t.toUInt32 <<< 16).toNat < 2 ^ 24 := forall_byte (by decide +kernel)
  have hlt : (packed t1 t2 t3).toNat < 2 ^ 24 := by
    rw [packed, UInt32.toNat_or, UInt32.toNat_or]
    refine Nat.or_lt_two_pow (Nat.or_lt_two_pow ?_ (h2 t2)) (h3 t3)
    rw [UInt8.toNat_toUInt32]
    omega
  have hbad : badChar.toNat = 0x01FFFFFF := rfl
  rw [UInt32.le_iff_toNat_le]
  omega

theorem groupBytes_packed (n : ℕ) (t1 t2 t3 : UInt8) :
    groupBytes n (packed t1 t2 t3) = .ok ([t1, t2, t3].take n) := by
  rw [groupBytes, if_neg (packed_lt_badChar t1 t2 t3), tempBytes_packed]

/-! ## The length of what is decoded -/

theorem groupBytes_length {n : ℕ} {temp : UInt32} {group : Bytes}
    (h : groupBytes n temp = .ok group) : group.length = min n 3 := by
  rw [groupBytes] at h
  split at h
  · cases h
  · rw [← Except.ok.inj h, List.length_take]
    rfl

theorem decodeGroups_length {i : ℕ} {text decoded rest : Bytes} (hle : 4 * i ≤ text.length)
    (h : decodeGroups i text = .ok (decoded, rest)) :
    decoded.length = 3 * i ∧ rest.length + 4 * i = text.length := by
  induction i generalizing text decoded rest with
  | zero =>
    rw [decodeGroups] at h
    · obtain ⟨rfl, rfl⟩ := Prod.mk.inj (Except.ok.inj h)
      exact ⟨rfl, rfl⟩
    · intro _ _ _ _ _ _ hcontra
      cases hcontra
  | succ i ih =>
    match text with
    | t1 :: t2 :: t3 :: t4 :: bytes =>
      rw [decodeGroups] at h
      cases hgroup : groupBytes 3
          (decodeTable0 t1 ||| decodeTable1 t2 ||| decodeTable2 t3 ||| decodeTable3 t4) with
      | error e =>
        rw [hgroup] at h
        cases h
      | ok group =>
        cases hrec : decodeGroups i bytes with
        | error e =>
          rw [hgroup, hrec] at h
          cases h
        | ok r =>
          rw [hgroup, hrec] at h
          obtain ⟨rfl, rfl⟩ := Prod.mk.inj (Except.ok.inj h)
          simp only [List.length_cons] at hle
          have hlen := ih (by omega) hrec
          simp only [List.length_append, List.length_cons, groupBytes_length hgroup]
          omega
    | [] | [_] | [_, _] | [_, _, _] =>
      simp only [List.length_cons, List.length_nil] at hle
      omega

theorem decodeLast_length {numPadding : ℕ} {rest last : Bytes} (hpad : numPadding ≤ 2)
    (h : decodeLast numPadding rest = .ok last) :
    last.length = if numPadding ≠ 0 then 3 - numPadding else 0 := by
  match numPadding, rest with
  | 0, _ =>
    rw [← Except.ok.inj h]
    rfl
  | 1, t1 :: t2 :: t3 :: _ => exact groupBytes_length h
  | 2, t1 :: t2 :: _ => exact groupBytes_length h
  | 1, [] | 1, [_] | 1, [_, _] | 2, [] | 2, [_] => cases h
  | n + 3, _ => omega

/-- The output buffer is filled: it is made `decodedsize` bytes long. -/
theorem decodeInto_length {base64Text decoded : Bytes} (h : decodeInto base64Text = .ok decoded) :
    decoded.length = base64Text.length * 3 / 4 - numPadding base64Text := by
  rw [decodeInto] at h
  split at h
  · next hempty =>
    rw [← Except.ok.inj h, hempty]
    rfl
  split at h
  · cases h
  split at h
  · cases h
  next hempty hdiv hpad =>
  have hpos := List.length_pos_iff.2 hempty
  generalize hfull :
    base64Text.length / 4 - (if numPadding base64Text ≠ 0 then 1 else 0) = full at h
  cases hgroups : decodeGroups full base64Text with
  | error e =>
    simp only [hgroups] at h
    cases h
  | ok r =>
    cases hlast : decodeLast (numPadding base64Text) r.2 with
    | error e =>
      simp only [hgroups] at h
      simp only [bind, Except.bind, hlast] at h
      cases h
    | ok last =>
      simp only [hgroups] at h
      simp only [bind, Except.bind, hlast] at h
      have hlen := decodeGroups_length (by split at hfull <;> omega) hgroups
      have hlen' := decodeLast_length (by omega) hlast
      rw [← Except.ok.inj h, List.length_append, hlen.1, hlen', ← hfull]
      split <;> omega

/-! ## The round trip -/

theorem encodeInto_length (b : Bytes) : (encodeInto b).length = (b.length + 2) / 3 * 4 := by
  induction b using encodeInto.induct with
  | case1 t1 t2 t3 bytes ih =>
    simp only [encodeInto, List.length_cons, ih]
    omega
  | case2 t1 t2 => simp [encodeInto]
  | case3 t1 => simp [encodeInto]
  | case4 => rfl

theorem encodeTable1_ne_padding (t : UInt8) : encodeTable1 t ≠ paddingChar :=
  ne_of_mem_of_not_mem (encodeTable1_mem t) (by decide +kernel)

/-- The last group alone has padding. -/
theorem numPadding_encodeInto (b : Bytes) :
    numPadding (encodeInto b) = (3 - b.length % 3) % 3 := by
  induction b using encodeInto.induct with
  | case1 t1 t2 t3 bytes ih =>
    have hmod : (t1 :: t2 :: t3 :: bytes).length % 3 = bytes.length % 3 :=
      Nat.add_mod_right bytes.length 3
    rw [hmod, ← ih, encodeInto]
    cases bytes with
    | nil => simp [numPadding, encodeInto, encodeTable0_eq, encodeTable1_ne_padding]
    | cons t rest =>
      -- the last four characters are those of the rest
      have hlen := encodeInto_length (t :: rest)
      have hpos : 4 ≤ (encodeInto (t :: rest)).length := by
        rw [List.length_cons] at hlen
        omega
      obtain ⟨k, hk⟩ := Nat.exists_eq_add_of_le hpos
      simp [numPadding, hk, Nat.add_comm 4 k]
  | case2 t1 t2 => simp [numPadding, encodeInto, encodeTable0_eq, encodeTable1_ne_padding]
  | case3 t1 => simp [numPadding, encodeInto, encodeTable0_eq, encodeTable1_ne_padding]
  | case4 => rfl

/-- Each round of the decoder undoes one round of the encoder. -/
theorem decodeGroups_encodeInto (i : ℕ) (b : Bytes) (h : 3 * i ≤ b.length) :
    decodeGroups i (encodeInto b) = .ok (b.take (3 * i), encodeInto (b.drop (3 * i))) := by
  induction i generalizing b with
  | zero => simp [decodeGroups, pure, Except.pure]
  | succ i ih =>
    match b with
    | t1 :: t2 :: t3 :: bytes =>
      have hle : 3 * i ≤ bytes.length := by
        simp only [List.length_cons] at h
        omega
      rw [encodeInto, decodeGroups, decode_three, groupBytes_packed, ih bytes hle]
      rfl
    | [] | [_] | [_, _] =>
      simp only [List.length_cons, List.length_nil] at h
      omega

/-- The remainder of one or two bytes. -/
theorem decodeLast_encodeInto {b : Bytes} (h : b.length < 3) :
    decodeLast ((3 - b.length % 3) % 3) (encodeInto b) = .ok b := by
  match b with
  | [] => rfl
  | [t1] =>
    show groupBytes 1 (_ ||| _) = _
    rw [decode_one, groupBytes_packed]
    rfl
  | [t1, t2] =>
    show groupBytes 2 (_ ||| _ ||| _) = _
    rw [decode_two, groupBytes_packed]
    rfl
  | _ :: _ :: _ :: bytes =>
    simp only [List.length_cons] at h
    omega

/-- The decoder undoes the encoder. -/
theorem decodeInto_encodeInto (b : Bytes) : decodeInto (encodeInto b) = .ok b := by
  have hlen := encodeInto_length b
  have hpad := numPadding_encodeInto b
  by_cases hempty : b = []
  · subst hempty
    rfl
  have hpos := List.length_pos_iff.2 hempty
  have hne' : encodeInto b ≠ [] := List.ne_nil_of_length_pos (by omega)
  have hgroups : (encodeInto b).length / 4 - (if numPadding (encodeInto b) ≠ 0 then 1 else 0) =
      b.length / 3 := by
    split <;> omega
  have hrest : (b.drop (3 * (b.length / 3))).length = b.length % 3 := by
    rw [List.length_drop]
    omega
  have hlast : decodeLast (numPadding (encodeInto b)) (encodeInto (b.drop (3 * (b.length / 3)))) =
      .ok (b.drop (3 * (b.length / 3))) := by
    rw [hpad, ← Nat.mod_mod b.length 3, ← hrest]
    exact decodeLast_encodeInto (by omega)
  rw [decodeInto, if_neg hne', if_neg (by omega), if_neg (by omega)]
  simp only [hgroups]
  rw [decodeGroups_encodeInto _ _ (by omega)]
  simp only [bind, Except.bind, hlast]
  exact congrArg Except.ok (List.take_append_drop ..)

-- the sample in `urandom_test.cpp`
example : decodeInto (ascii "SGVsbG8sIFdvcmxkIQ==") = .ok (ascii "Hello, World!") := rfl

theorem encodeInto_injective : Function.Injective encodeInto := by
  intro a b h
  have hdec := congrArg decodeInto h
  rw [decodeInto_encodeInto, decodeInto_encodeInto] at hdec
  exact Except.ok.inj hdec

/-- An encoded text is a C string. -/
theorem zero_notMem_encodeInto (b : Bytes) : (0 : UInt8) ∉ encodeInto b := by
  have hchar : ∀ t, 0 ≠ encodeTable1 t := fun t h =>
    absurd (h ▸ encodeTable1_mem t) (by decide +kernel)
  have hpad : (0 : UInt8) ≠ paddingChar := by decide
  induction b using encodeInto.induct with
  | case1 t1 t2 t3 bytes ih => simp [encodeInto, encodeTable0_eq, hchar, ih]
  | case2 t1 t2 => simp [encodeInto, encodeTable0_eq, hchar, hpad]
  | case3 t1 => simp [encodeInto, encodeTable0_eq, hchar, hpad]
  | case4 => simp [encodeInto]

end KCNet.Base64
