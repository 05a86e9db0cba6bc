import KCNet.Lib.Base64
import Mathlib.Tactic.MkIffOfInductiveProp
import Mathlib.SetTheory.Cardinal.Finite

/-!
# The texts that the base64 decoder accepts

The grammar of the accepted texts, the error for every other text, and what the decoder forgets: the
bits of the last character that belong to no byte. A text is given back by the encoder if and only
if these bits are zero.

## Main definitions

- `WellFormed` — the grammar
- `encodeWith` — the encoder, with given bits where `encodeInto` leaves zeros
- `slack` — these bits of a text
-/

namespace KCNet.Base64

/-- Groups of four characters, of which the last may end with padding. -/
inductive WellFormed : Bytes → Prop where
  | nil : WellFormed []
  | one {t1 t2 : UInt8} (h1 : t1 ∈ alphabet) (h2 : t2 ∈ alphabet) :
    WellFormed [t1, t2, paddingChar, paddingChar]
  | two {t1 t2 t3 : UInt8} (h1 : t1 ∈ alphabet) (h2 : t2 ∈ alphabet) (h3 : t3 ∈ alphabet) :
    WellFormed [t1, t2, t3, paddingChar]
  | group {t1 t2 t3 t4 : UInt8} {text : Bytes} (h1 : t1 ∈ alphabet) (h2 : t2 ∈ alphabet)
    (h3 : t3 ∈ alphabet) (h4 : t4 ∈ alphabet) (h : WellFormed text) :
    WellFormed (t1 :: t2 :: t3 :: t4 :: text)

/-- `encodeInto`, with bits of `slack` at the end of the last character. -/
def encodeWith (slack : UInt8) : Bytes → Bytes
  | t1 :: t2 :: t3 :: bytes =>
    encodeTable0 t1 ::
    encodeTable1 (((t1 &&& 0x03) <<< 4) ||| ((t2 >>> 4) &&& 0x0F)) ::
    encodeTable1 (((t2 &&& 0x0F) <<< 2) ||| ((t3 >>> 6) &&& 0x03)) ::
    encodeTable1 t3 ::
    encodeWith slack bytes
  | [t1, t2] =>
    [encodeTable0 t1,
      encodeTable1 (((t1 &&& 0x03) <<< 4) ||| ((t2 >>> 4) &&& 0x0F)),
      encodeTable1 (((t2 &&& 0x0F) <<< 2) ||| (slack &&& 0x03)),
      paddingChar]
  | [t1] =>
    [encodeTable0 t1, encodeTable1 (((t1 &&& 0x03) <<< 4) ||| (slack &&& 0x0F)), paddingChar,
      paddingChar]
  | [] => []

/-- The number of padding signs for `n` bytes. -/
def padding (n : ℕ) : ℕ := (3 - n % 3) % 3

/-- The bits of the last character before the padding that belong to no byte. -/
def slack (text : Bytes) : ℕ :=
  alphabet.idxOf (text.getD (text.length - 1 - numPadding text) 0) % 4 ^ numPadding text

/-- `decode_into`, once it has checked the length and the padding. -/
def decodeBody (base64Text : Bytes) : Except Bytes Bytes := do
  let full := base64Text.length / 4 - (if numPadding base64Text ≠ 0 then 1 else 0)
  let (decoded, rest) ← decodeGroups full base64Text
  let last ← decodeLast (numPadding base64Text) rest
  return decoded ++ last

/-! ## One group after the other -/

variable {t1 t2 t3 t4 : UInt8} {text b : Bytes}

theorem decodeInto_eq_body (hne : text ≠ []) (hdiv : text.length % 4 = 0)
    (hpad : numPadding text ≤ 2) : decodeInto text = decodeBody text := by
  rw [decodeInto, if_neg hne, if_neg (not_not.2 hdiv), if_neg (not_lt.2 hpad)]
  rfl

theorem numPadding_cons (h : 4 ≤ text.length) :
    numPadding (t1 :: t2 :: t3 :: t4 :: text) = numPadding text := by
  obtain ⟨k, hk⟩ := Nat.exists_eq_add_of_le h
  simp [numPadding, hk, Nat.add_comm 4 k]

/-- The groups are decoded on their own. -/
theorem decodeBody_cons (h : 4 ≤ text.length) :
    decodeBody (t1 :: t2 :: t3 :: t4 :: text) = (do
      let group ← groupBytes 3
        (decodeTable0 t1 ||| decodeTable1 t2 ||| decodeTable2 t3 ||| decodeTable3 t4)
      let decoded ← decodeBody text
      return group ++ decoded) := by
  have hfull : (t1 :: t2 :: t3 :: t4 :: text).length / 4 - (if numPadding text ≠ 0 then 1 else 0) =
      text.length / 4 - (if numPadding text ≠ 0 then 1 else 0) + 1 := by
    simp only [List.length_cons]
    split <;> omega
  simp only [decodeBody, numPadding_cons h, hfull, decodeGroups]
  cases groupBytes 3
    (decodeTable0 t1 ||| decodeTable1 t2 ||| decodeTable2 t3 ||| decodeTable3 t4) with
  | error e => rfl
  | ok group =>
    cases decodeGroups (text.length / 4 - (if numPadding text ≠ 0 then 1 else 0)) text with
    | error e => rfl
    | ok r =>
      cases hlast : decodeLast (numPadding text) r.2 with
      | error e => simp [bind, Except.bind, pure, Except.pure, hlast]
      | ok last => simp [bind, Except.bind, pure, Except.pure, hlast]

/-! ## Characters -/

/-- What the masks and shifts of the two coders leave of a byte. -/
@[mk_iff]
structure Masked (t : UInt8) : Prop where
  mod_64 : t.toNat % 64 = (t &&& 63).toNat
  mod_16 : t.toNat % 16 = (t &&& 0x0F).toNat
  mod_4 : t.toNat % 4 = (t &&& 0x03).toNat
  all : (t <<< 2) >>> 2 = t &&& 63
  high_2 : ((t >>> 4) &&& 0x03) <<< 4 = t &&& 0x30
  low_4 : ((t <<< 4) >>> 4) &&& 0x0F = t &&& 0x0F
  high_4 : ((t >>> 2) &&& 0x0F) <<< 2 = t &&& 0x3C
  low_2 : ((t <<< 6) >>> 6) &&& 0x03 = t &&& 0x03
  two_four : t &&& 0x30 ||| t &&& 0x0F = t &&& 63
  four_two : t &&& 0x3C ||| t &&& 0x03 = t &&& 63
  none_after_2 : ((t <<< 2) &&& 0x03) <<< 4 = 0 ∧ ((t &&& 63) >>> 4) >>> 2 = 0
  none_after_4 : ((t <<< 4) &&& 0x0F) <<< 2 = 0 ∧ (((t &&& 63) >>> 2) >>> 4) &&& 0x0F = 0
  none_after_6 : (t <<< 6) &&& 63 = 0 ∧ ((t &&& 63) >>> 6) &&& 0x03 = 0
  slack_4 : ((t &&& 0x03) <<< 4) &&& 0x0F = 0 ∧ (t &&& 0x0F) &&& 0x0F = t &&& 0x0F
  slack_2 : ((t &&& 0x0F) <<< 2) &&& 0x03 = 0 ∧ (t &&& 0x03) &&& 0x03 = t &&& 0x03
  placed_4 : place1 (t &&& 0x0F &&& 63).toUInt32 = (t <<< 4).toUInt32 <<< 8
  placed_2 : place2 (t &&& 0x03 &&& 63).toUInt32 = (t <<< 6).toUInt32 <<< 16

theorem masked : ∀ t : UInt8, Masked t := by
  simp only [masked_iff]
  exact forall_byte (by decide +kernel)

/-- Only the last six bits select a character. -/
theorem encodeTable1_congr {v v' : UInt8} (h : v &&& 63 = v' &&& 63) :
    encodeTable1 v = encodeTable1 v' := by
  rw [encodeTable1, encodeTable1, (masked v).mod_64, (masked v').mod_64, h]

theorem exists_encodeTable1 (h : t1 ∈ alphabet) : ∃ v, v &&& 63 = v ∧ t1 = encodeTable1 v := by
  have hidx := List.idxOf_lt_length_of_mem h
  have hlt : alphabet.idxOf t1 < 64 := alphabet_length ▸ hidx
  have hnat : (UInt8.ofNat (alphabet.idxOf t1)).toNat = alphabet.idxOf t1 :=
    UInt8.toNat_ofNat_of_lt' (hlt.trans (by decide))
  refine ⟨UInt8.ofNat (alphabet.idxOf t1), ?_, ?_⟩
  · rw [← UInt8.toNat_inj, ← (masked _).mod_64, hnat, Nat.mod_eq_of_lt hlt]
  · rw [encodeTable1, hnat, Nat.mod_eq_of_lt hlt, List.getD_eq_getElem?_getD,
      List.getElem?_eq_getElem hidx, List.getElem_idxOf, Option.getD_some]

theorem ne_padding (h : t1 ∈ alphabet) : t1 ≠ paddingChar := by
  obtain ⟨v, -, rfl⟩ := exists_encodeTable1 h
  exact encodeTable1_ne_padding v

theorem byte_and_or_distrib (a b c : UInt8) : (a ||| b) &&& c = (a &&& c) ||| (b &&& c) :=
  UInt8.toBitVec_inj.1 BitVec.and_or_distrib_right

/-! Four characters of six bits make three bytes, from which the encoder takes them again. -/

section Join

variable {u v w x : UInt8}

theorem join_first (hu : u &&& 63 = u) (hv : v &&& 63 = v) :
    encodeTable0 ((u <<< 2) ||| (v >>> 4)) = encodeTable1 u := by
  rw [encodeTable0_eq, UInt8.shiftRight_or, (masked u).all, hu, ← hv, (masked v).none_after_2.2,
    UInt8.or_zero]

/-- The bits that the second character has in the first byte. -/
theorem join_second_high (u v : UInt8) :
    (((u <<< 2) ||| (v >>> 4)) &&& 0x03) <<< 4 = v &&& 0x30 := by
  rw [byte_and_or_distrib, UInt8.shiftLeft_or, (masked u).none_after_2.1, (masked v).high_2,
    UInt8.zero_or]

theorem join_second_low (hw : w &&& 63 = w) :
    (((v <<< 4) ||| (w >>> 2)) >>> 4) &&& 0x0F = v &&& 0x0F := by
  rw [UInt8.shiftRight_or, byte_and_or_distrib, (masked v).low_4, ← hw, (masked w).none_after_4.2,
    UInt8.or_zero]

theorem join_third_high (v w : UInt8) :
    (((v <<< 4) ||| (w >>> 2)) &&& 0x0F) <<< 2 = w &&& 0x3C := by
  rw [byte_and_or_distrib, UInt8.shiftLeft_or, (masked v).none_after_4.1, (masked w).high_4,
    UInt8.zero_or]

theorem join_third_low (hx : x &&& 63 = x) :
    (((w <<< 6) ||| x) >>> 6) &&& 0x03 = w &&& 0x03 := by
  rw [UInt8.shiftRight_or, byte_and_or_distrib, (masked w).low_2, ← hx, (masked x).none_after_6.2,
    UInt8.or_zero]

theorem join_fourth (w x : UInt8) : encodeTable1 ((w <<< 6) ||| x) = encodeTable1 x := by
  apply encodeTable1_congr
  rw [byte_and_or_distrib, (masked w).none_after_6.1, UInt8.zero_or]

end Join

/-- A text of the grammar is what the encoder gives, up to the bits at the end. -/
theorem WellFormed.exists_encodeWith (h : WellFormed text) :
    ∃ slack b, text = encodeWith slack b := by
  induction h with
  | nil => exact ⟨0, [], rfl⟩
  | one h1 h2 =>
    obtain ⟨u, hu, rfl⟩ := exists_encodeTable1 h1
    obtain ⟨v, hv, rfl⟩ := exists_encodeTable1 h2
    refine ⟨v, [(u <<< 2) ||| (v >>> 4)], ?_⟩
    rw [encodeWith, join_first hu hv, join_second_high, (masked _).two_four, hv]
  | two h1 h2 h3 =>
    obtain ⟨u, hu, rfl⟩ := exists_encodeTable1 h1
    obtain ⟨v, hv, rfl⟩ := exists_encodeTable1 h2
    obtain ⟨w, hw, rfl⟩ := exists_encodeTable1 h3
    refine ⟨w, [(u <<< 2) ||| (v >>> 4), (v <<< 4) ||| (w >>> 2)], ?_⟩
    rw [encodeWith, join_first hu hv, join_second_high, join_second_low hw, (masked _).two_four, hv,
      join_third_high, (masked _).four_two, hw]
  | group h1 h2 h3 h4 _ ih =>
    obtain ⟨u, hu, rfl⟩ := exists_encodeTable1 h1
    obtain ⟨v, hv, rfl⟩ := exists_encodeTable1 h2
    obtain ⟨w, hw, rfl⟩ := exists_encodeTable1 h3
    obtain ⟨x, hx, rfl⟩ := exists_encodeTable1 h4
    obtain ⟨slack, b, rfl⟩ := ih
    refine ⟨slack, ((u <<< 2) ||| (v >>> 4)) :: ((v <<< 4) ||| (w >>> 2)) :: ((w <<< 6) ||| x) :: b,
      ?_⟩
    rw [encodeWith, join_first hu hv, join_second_high, join_second_low hw, (masked _).two_four, hv,
      join_third_high, join_third_low hx, (masked _).four_two, hw, join_fourth]

/-! ## What is decoded -/

theorem encodeWith_wellFormed (slack : UInt8) (b : Bytes) : WellFormed (encodeWith slack b) := by
  have hmem := encodeTable1_mem
  induction b using encodeInto.induct with
  | case1 t1 t2 t3 bytes ih =>
    rw [encodeWith, encodeTable0_eq]
    exact .group (hmem _) (hmem _) (hmem _) (hmem _) ih
  | case2 t1 t2 =>
    rw [encodeWith, encodeTable0_eq]
    exact .two (hmem _) (hmem _) (hmem _)
  | case3 t1 =>
    rw [encodeWith, encodeTable0_eq]
    exact .one (hmem _) (hmem _)
  | case4 => exact .nil

theorem WellFormed.length_mod (h : WellFormed text) : text.length % 4 = 0 := by
  induction h with
  | nil => rfl
  | one | two => simp
  | group _ _ _ _ _ ih =>
    simp only [List.length_cons]
    omega

/-- A group ends in none, one or two padding signs. -/
theorem WellFormed.numPadding_le (h : WellFormed text) : numPadding text ≤ 2 := by
  induction h with
  | nil => exact Nat.zero_le 2
  | one h1 h2 => simp [numPadding, ne_padding h1, ne_padding h2]
  | two h1 h2 h3 => simp [numPadding, ne_padding h1, ne_padding h2, ne_padding h3]
  | @group t1 t2 t3 t4 text h1 h2 h3 h4 h ih =>
    cases text with
    | nil => simp [numPadding, ne_padding h1, ne_padding h2, ne_padding h3, ne_padding h4]
    | cons t text =>
      have hmod := h.length_mod
      rwa [numPadding_cons (by rw [List.length_cons] at *; omega)]

/-- The last group without padding. -/
theorem decodeBody_full (h : numPadding [t1, t2, t3, t4] = 0) :
    decodeBody [t1, t2, t3, t4] = groupBytes 3
      (decodeTable0 t1 ||| decodeTable1 t2 ||| decodeTable2 t3 ||| decodeTable3 t4) := by
  have hfull : [t1, t2, t3, t4].length / 4 - (if 0 ≠ 0 then 1 else 0) = 1 := by simp
  rw [decodeBody, h]
  simp only [hfull, decodeGroups]
  cases groupBytes 3
    (decodeTable0 t1 ||| decodeTable1 t2 ||| decodeTable2 t3 ||| decodeTable3 t4) with
  | error e => rfl
  | ok group => simp [decodeLast, bind, Except.bind, pure, Except.pure]

/-- The last group with padding. -/
theorem decodeBody_padded (h : numPadding [t1, t2, t3, t4] ≠ 0) :
    decodeBody [t1, t2, t3, t4] = decodeLast (numPadding [t1, t2, t3, t4]) [t1, t2, t3, t4] := by
  have hfull : [t1, t2, t3, t4].length / 4 - 1 = 0 := by simp
  have hgroups : decodeGroups 0 [t1, t2, t3, t4] = .ok ([], [t1, t2, t3, t4]) := by
    simp [decodeGroups, pure, Except.pure]
  rw [decodeBody, if_pos h]
  simp only [hfull, hgroups]
  cases hlast : decodeLast (numPadding [t1, t2, t3, t4]) [t1, t2, t3, t4] with
  | error e => simp [bind, Except.bind, hlast]
  | ok last => simp [bind, Except.bind, pure, Except.pure, hlast]

/-- The bits at the end become the third byte, which is not taken. -/
theorem decode_two_with (slack t1 t2 : UInt8) :
    decodeTable0 (encodeTable0 t1) |||
      decodeTable1 (encodeTable1 (((t1 &&& 0x03) <<< 4) ||| ((t2 >>> 4) &&& 0x0F))) |||
      decodeTable2 (encodeTable1 (((t2 &&& 0x0F) <<< 2) ||| (slack &&& 0x03))) =
        packed t1 t2 (slack <<< 6) := by
  have hzero : packed t1 t2 0 = t1.toUInt32 ||| t2.toUInt32 <<< 8 := UInt32.or_zero
  have htwo := decode_two t1 t2
  rw [decodeTable2] at htwo ⊢
  rw [decodeTable_or place2_or, ← UInt32.or_assoc, htwo, decodeTable_encodeTable1,
    (masked slack).placed_2, hzero, packed]

/-- The bits at the end become the second byte. -/
theorem decode_one_with (slack t1 : UInt8) :
    decodeTable0 (encodeTable0 t1) |||
      decodeTable1 (encodeTable1 (((t1 &&& 0x03) <<< 4) ||| (slack &&& 0x0F))) =
        packed t1 (slack <<< 4) 0 := by
  have hzero (t2 : UInt8) : packed t1 t2 0 = t1.toUInt32 ||| t2.toUInt32 <<< 8 := UInt32.or_zero
  rw [decodeTable1, decodeTable_or place1_or, ← UInt32.or_assoc, ← decodeTable1, first_byte,
    decodeTable1, decodeTable_encodeTable1, (masked slack).placed_4, hzero]

theorem encodeWith_ne_nil (slack : UInt8) (hb : b ≠ []) : encodeWith slack b ≠ [] := by
  induction b using encodeInto.induct with
  | case1 | case2 | case3 => simp [encodeWith]
  | case4 => exact absurd rfl hb

/-- The decoder undoes the encoder, whatever bits are left over at the end. -/
theorem decodeBody_encodeWith (slack : UInt8) (hb : b ≠ []) :
    decodeBody (encodeWith slack b) = .ok b := by
  induction b using encodeInto.induct with
  | case1 t1 t2 t3 bytes ih =>
    rw [encodeWith]
    cases bytes with
    | nil =>
      rw [encodeWith, decodeBody_full, decode_three, groupBytes_packed]
      · rfl
      · simp [numPadding, encodeTable0_eq, encodeTable1_ne_padding]
    | cons t bytes =>
      have hmod := (encodeWith_wellFormed slack (t :: bytes)).length_mod
      have hne : encodeWith slack (t :: bytes) ≠ [] := encodeWith_ne_nil slack (by simp)
      have hpos := List.length_pos_iff.2 hne
      rw [decodeBody_cons (by omega), decode_three, groupBytes_packed, ih (by simp)]
      rfl
  | case2 t1 t2 =>
    have hpad : numPadding (encodeWith slack [t1, t2]) = 1 := by
      simp [numPadding, encodeWith, encodeTable0_eq, encodeTable1_ne_padding]
    rw [encodeWith] at hpad ⊢
    rw [decodeBody_padded (by rw [hpad]; decide), hpad, decodeLast, decode_two_with,
      groupBytes_packed]
    rfl
  | case3 t1 =>
    have hpad : numPadding (encodeWith slack [t1]) = 2 := by
      simp [numPadding, encodeWith, encodeTable0_eq, encodeTable1_ne_padding]
    rw [encodeWith] at hpad ⊢
    rw [decodeBody_padded (by rw [hpad]; decide), hpad, decodeLast, decode_one_with,
      groupBytes_packed]
    rfl
  | case4 => exact absurd rfl hb

theorem decodeInto_encodeWith (slack : UInt8) (b : Bytes) :
    decodeInto (encodeWith slack b) = .ok b := by
  cases b with
  | nil => rfl
  | cons t bytes =>
    have hb : t :: bytes ≠ [] := by simp
    have h := encodeWith_wellFormed slack (t :: bytes)
    rw [decodeInto_eq_body (encodeWith_ne_nil slack hb) h.length_mod h.numPadding_le,
      decodeBody_encodeWith slack hb]

/-! ## What is refused -/

theorem badChar_le_decodeTable (place : UInt32 → UInt32) (h : t1 ∉ alphabet) :
    badChar ≤ decodeTable place t1 := by
  rw [decodeTable, sextet, if_neg h]
  exact UInt32.le_refl _

theorem badChar_le_or {x y : UInt32} (h : badChar ≤ x ∨ badChar ≤ y) : badChar ≤ x ||| y := by
  rw [UInt32.le_iff_toNat_le, UInt32.le_iff_toNat_le] at h
  rw [UInt32.le_iff_toNat_le, UInt32.toNat_or]
  exact h.elim (·.trans Nat.left_le_or) (·.trans Nat.right_le_or)

/-- One bad character spoils its group. -/
theorem badChar_le_two (h : ¬ (t1 ∈ alphabet ∧ t2 ∈ alphabet)) :
    badChar ≤ decodeTable0 t1 ||| decodeTable1 t2 :=
  badChar_le_or ((not_and_or.1 h).imp (badChar_le_decodeTable _) (badChar_le_decodeTable _))

theorem badChar_le_three (h : ¬ ((t1 ∈ alphabet ∧ t2 ∈ alphabet) ∧ t3 ∈ alphabet)) :
    badChar ≤ decodeTable0 t1 ||| decodeTable1 t2 ||| decodeTable2 t3 :=
  badChar_le_or ((not_and_or.1 h).imp badChar_le_two (badChar_le_decodeTable _))

theorem badChar_le_four
    (h : ¬ (((t1 ∈ alphabet ∧ t2 ∈ alphabet) ∧ t3 ∈ alphabet) ∧ t4 ∈ alphabet)) :
    badChar ≤ decodeTable0 t1 ||| decodeTable1 t2 ||| decodeTable2 t3 ||| decodeTable3 t4 :=
  badChar_le_or ((not_and_or.1 h).imp badChar_le_three (badChar_le_decodeTable _))

theorem groupBytes_eq_error {n : ℕ} {temp : UInt32} (h : badChar ≤ temp) :
    groupBytes n temp = .error invalidCharacter := if_pos h

theorem groupBytes_eq_ok_or (n : ℕ) (temp : UInt32) :
    (∃ group, groupBytes n temp = .ok group) ∨ groupBytes n temp = .error invalidCharacter := by
  unfold groupBytes
  split
  · exact .inr rfl
  · exact .inl ⟨_, rfl⟩

theorem numPadding_four :
    numPadding [t1, t2, t3, t4] = [t1, t2, t3, t4].count paddingChar := by
  simp [numPadding]

/-- The last group is refused if it is not one of the grammar. -/
theorem decodeBody_four_error (hpad : numPadding [t1, t2, t3, t4] ≤ 2)
    (h : ¬ WellFormed [t1, t2, t3, t4]) :
    decodeBody [t1, t2, t3, t4] = .error invalidCharacter := by
  obtain hn | hn | hn : numPadding [t1, t2, t3, t4] = 0 ∨ numPadding [t1, t2, t3, t4] = 1 ∨
      numPadding [t1, t2, t3, t4] = 2 := by omega
  · rw [decodeBody_full hn]
    refine groupBytes_eq_error (badChar_le_four ?_)
    rintro ⟨⟨⟨h1, h2⟩, h3⟩, h4⟩
    exact h (.group h1 h2 h3 h4 .nil)
  · rw [decodeBody_padded (by omega), hn, decodeLast]
    refine groupBytes_eq_error (badChar_le_three ?_)
    rintro ⟨⟨h1, h2⟩, h3⟩
    -- the only padding sign is the last character
    have h4 : t4 = paddingChar := by
      simpa [numPadding_four, List.count_cons, ne_padding h1, ne_padding h2, ne_padding h3] using hn
    exact h (h4 ▸ .two h1 h2 h3)
  · rw [decodeBody_padded (by omega), hn, decodeLast]
    refine groupBytes_eq_error (badChar_le_two ?_)
    rintro ⟨h1, h2⟩
    have h34 : t3 = paddingChar ∧ t4 = paddingChar := by
      have hcount : [t3, t4].count paddingChar = [t3, t4].length := by
        simpa [numPadding_four, List.count_cons, ne_padding h1, ne_padding h2] using hn
      have hall := List.count_eq_length.1 hcount
      exact ⟨(hall t3 (by simp)).symm, (hall t4 (by simp)).symm⟩
    obtain ⟨rfl, rfl⟩ := h34
    exact h (.one h1 h2)

theorem decodeBody_error {k : ℕ} (hlen : text.length = 4 * (k + 1)) (hpad : numPadding text ≤ 2)
    (h : ¬ WellFormed text) : decodeBody text = .error invalidCharacter := by
  induction k generalizing text with
  | zero =>
    match text with
    | [t1, t2, t3, t4] => exact decodeBody_four_error hpad h
  | succ k ih =>
    match text with
    | t1 :: t2 :: t3 :: t4 :: rest =>
      have hrest : rest.length = 4 * (k + 1) := by
        simp only [List.length_cons] at hlen
        omega
      rw [numPadding_cons (by omega)] at hpad
      rw [decodeBody_cons (by omega)]
      rcases groupBytes_eq_ok_or 3
        (decodeTable0 t1 ||| decodeTable1 t2 ||| decodeTable2 t3 ||| decodeTable3 t4) with
        ⟨group, hgroup⟩ | hgroup
      · -- the group is in order, so the rest is not
        have hwf : ¬ WellFormed rest := by
          intro hwf
          by_cases hall : ((t1 ∈ alphabet ∧ t2 ∈ alphabet) ∧ t3 ∈ alphabet) ∧ t4 ∈ alphabet
          · exact h (.group hall.1.1.1 hall.1.1.2 hall.1.2 hall.2 hwf)
          · rw [groupBytes_eq_error (badChar_le_four hall)] at hgroup
            cases hgroup
        rw [hgroup, ih hrest hpad hwf]
        rfl
      · rw [hgroup]
        rfl

/-- The decoder accepts the texts of the grammar and no others. It complains about the length first,
then about the padding, and then about the characters; it never reports a wrong padding number. -/
theorem decodeInto_accepts (text : Bytes) :
    ((∃ b, decodeInto text = .ok b) ↔ WellFormed text) ∧
      ∀ what, decodeInto text = .error what ↔ ¬ WellFormed text ∧
        what = if text.length % 4 ≠ 0 then notDivisibleBy4
          else if 2 < numPadding text then tooMuchPadding
          else invalidCharacter := by
  by_cases hwf : WellFormed text
  · obtain ⟨slack, b, rfl⟩ := hwf.exists_encodeWith
    simp [decodeInto_encodeWith, hwf]
  · have hne : text ≠ [] := by
      rintro rfl
      exact hwf .nil
    have herror : decodeInto text = .error (if text.length % 4 ≠ 0 then notDivisibleBy4
        else if 2 < numPadding text then tooMuchPadding else invalidCharacter) := by
      by_cases hmod : text.length % 4 ≠ 0
      · rw [decodeInto, if_neg hne, if_pos hmod, if_pos hmod]
      · by_cases hpad : 2 < numPadding text
        · rw [decodeInto, if_neg hne, if_neg hmod, if_neg hmod, if_pos hpad, if_pos hpad]
        · have hpos := List.length_pos_iff.2 hne
          obtain ⟨k, hk⟩ : ∃ k, text.length = 4 * (k + 1) := ⟨text.length / 4 - 1, by omega⟩
          rw [if_neg hmod, if_neg hpad, decodeInto_eq_body hne (not_not.1 hmod) (not_lt.1 hpad),
            decodeBody_error hk (not_lt.1 hpad) hwf]
    rw [herror]
    simp [hwf, eq_comm]

/-! ## What is forgotten -/

theorem decodeInto_ok_iff : decodeInto text = .ok b ↔ ∃ slack, text = encodeWith slack b := by
  constructor
  · intro h
    obtain ⟨slack, b', rfl⟩ := ((decodeInto_accepts text).1.1 ⟨b, h⟩).exists_encodeWith
    rw [decodeInto_encodeWith] at h
    exact ⟨slack, by rw [Except.ok.inj h]⟩
  · rintro ⟨slack, rfl⟩
    exact decodeInto_encodeWith slack b

theorem encodeWith_zero (b : Bytes) : encodeWith 0 b = encodeInto b := by
  induction b using encodeInto.induct with
  | case1 t1 t2 t3 bytes ih => rw [encodeWith, encodeInto, ih]
  | case2 | case3 => simp [encodeWith, encodeInto]
  | case4 => rfl

theorem padding_cons (t1 t2 t3 : UInt8) (b : Bytes) :
    padding (t1 :: t2 :: t3 :: b).length = padding b.length := by
  simp [padding, Nat.add_assoc]

theorem numPadding_encodeWith (s : UInt8) (b : Bytes) :
    numPadding (encodeWith s b) = padding b.length := by
  induction b using encodeInto.induct with
  | case1 t1 t2 t3 bytes ih =>
    rw [padding_cons, ← ih, encodeWith]
    cases bytes with
    | nil => simp [numPadding, encodeWith, encodeTable0_eq, encodeTable1_ne_padding]
    | cons t rest =>
      have hmod := (encodeWith_wellFormed s (t :: rest)).length_mod
      have hpos := List.length_pos_iff.2 (encodeWith_ne_nil s (by simp : t :: rest ≠ []))
      exact numPadding_cons (by omega)
  | case2 t1 t2 =>
    simp [numPadding, encodeWith, padding, encodeTable0_eq, encodeTable1_ne_padding]
  | case3 t1 => simp [numPadding, encodeWith, padding, encodeTable0_eq, encodeTable1_ne_padding]
  | case4 => rfl

theorem slack_cons (h : 4 ≤ text.length) (hpad : numPadding text ≤ 2) :
    slack (t1 :: t2 :: t3 :: t4 :: text) = slack text := by
  have hindex : (t1 :: t2 :: t3 :: t4 :: text).length - 1 - numPadding text =
      text.length - 1 - numPadding text + 4 := by
    simp only [List.length_cons]
    omega
  rw [slack, numPadding_cons h, hindex]
  rfl

theorem idxOf_encodeTable1 (t : UInt8) : alphabet.idxOf (encodeTable1 t) = t.toNat % 64 := by
  rw [encodeTable1_eq, List.get_eq_getElem, alphabet_nodup.idxOf_getElem]

theorem slack_encodeWith (s : UInt8) (b : Bytes) :
    slack (encodeWith s b) = s.toNat % 4 ^ padding b.length := by
  induction b using encodeInto.induct with
  | case1 t1 t2 t3 bytes ih =>
    cases bytes with
    | nil =>
      have hpad := numPadding_encodeWith s [t1, t2, t3]
      have hnone : padding [t1, t2, t3].length = 0 := by simp [padding]
      rw [slack, hpad, hnone, pow_zero, Nat.mod_one, Nat.mod_one]
    | cons t rest =>
      have h := encodeWith_wellFormed s (t :: rest)
      have hmod := h.length_mod
      have hpos := List.length_pos_iff.2 (encodeWith_ne_nil s (by simp : t :: rest ≠ []))
      rw [padding_cons, ← ih, encodeWith, slack_cons (by omega) h.numPadding_le]
  | case2 t1 t2 =>
    have hpad : numPadding (encodeWith s [t1, t2]) = 1 := numPadding_encodeWith s [t1, t2]
    rw [slack, hpad]
    show alphabet.idxOf (encodeTable1 (((t2 &&& 0x0F) <<< 2) ||| (s &&& 0x03))) % 4 = s.toNat % 4
    rw [idxOf_encodeTable1, Nat.mod_mod_of_dvd _ (by decide), (masked _).mod_4,
      byte_and_or_distrib, (masked t2).slack_2.1, (masked s).slack_2.2, UInt8.zero_or,
      (masked s).mod_4]
  | case3 t1 =>
    have hpad : numPadding (encodeWith s [t1]) = 2 := numPadding_encodeWith s [t1]
    rw [slack, hpad]
    show alphabet.idxOf (encodeTable1 (((t1 &&& 0x03) <<< 4) ||| (s &&& 0x0F))) % 16 =
      s.toNat % 16
    rw [idxOf_encodeTable1, Nat.mod_mod_of_dvd _ (by decide), (masked _).mod_16,
      byte_and_or_distrib, (masked t1).slack_4.1, (masked s).slack_4.2, UInt8.zero_or,
      (masked s).mod_16]
  | case4 =>
    have hnone : numPadding (encodeWith s []) = 0 := rfl
    rw [slack, hnone, pow_zero, Nat.mod_one]
    exact (Nat.mod_one _).symm

theorem encodeWith_eq_iff {s s' : UInt8} : encodeWith s b = encodeWith s' b ↔
    s.toNat % 4 ^ padding b.length = s'.toNat % 4 ^ padding b.length := by
  constructor
  · intro h
    rw [← slack_encodeWith, h, slack_encodeWith]
  · intro h
    induction b using encodeInto.induct with
    | case1 t1 t2 t3 bytes ih =>
      rw [padding_cons] at h
      rw [encodeWith, encodeWith, ih h]
    | case2 t1 t2 =>
      have h3 : s.toNat % 4 = s'.toNat % 4 := h
      rw [(masked s).mod_4, (masked s').mod_4, UInt8.toNat_inj] at h3
      rw [encodeWith, encodeWith, h3]
    | case3 t1 =>
      have h15 : s.toNat % 16 = s'.toNat % 16 := h
      rw [(masked s).mod_16, (masked s').mod_16, UInt8.toNat_inj] at h15
      rw [encodeWith, encodeWith, h15]
    | case4 => rfl

theorem padding_le (n : ℕ) : padding n ≤ 2 := by
  rw [padding]
  omega

/-- The encoder gives an accepted text back if and only if the bits that belong to no byte are zero,
and as many texts stand for some bytes as these bits can have values. -/
theorem decodeInto_fibre (b : Bytes) :
    (∀ text, decodeInto text = .ok b → (encodeInto b = text ↔ slack text = 0)) ∧
      Nat.card {text // decodeInto text = .ok b} = 4 ^ padding b.length := by
  have hlt : 4 ^ padding b.length < 256 :=
    (Nat.pow_le_pow_right (by decide) (padding_le _)).trans_lt (by decide : 4 ^ 2 < 256)
  have hnat (i : Fin (4 ^ padding b.length)) :
      (UInt8.ofNat i).toNat % 4 ^ padding b.length = i := by
    rw [UInt8.toNat_ofNat_of_lt' (i.isLt.trans hlt), Nat.mod_eq_of_lt i.isLt]
  constructor
  · intro text h
    obtain ⟨s, rfl⟩ := decodeInto_ok_iff.1 h
    rw [← encodeWith_zero, encodeWith_eq_iff, slack_encodeWith, eq_comm]
    rfl
  · let f (i : Fin (4 ^ padding b.length)) : {text // decodeInto text = .ok b} :=
      ⟨encodeWith (UInt8.ofNat i) b, decodeInto_encodeWith _ b⟩
    have hf : Function.Bijective f := by
      constructor
      · intro i j h
        have heq := encodeWith_eq_iff.1 (congrArg Subtype.val h)
        rw [hnat, hnat] at heq
        exact Fin.ext heq
      · rintro ⟨text, h⟩
        obtain ⟨s, rfl⟩ := decodeInto_ok_iff.1 h
        have hs : s.toNat % 4 ^ padding b.length < 4 ^ padding b.length :=
          Nat.mod_lt _ (Nat.pow_pos (by decide))
        exact ⟨⟨_, hs⟩, Subtype.ext (encodeWith_eq_iff.2 (hnat ⟨_, hs⟩))⟩
    rw [← Nat.card_eq_of_bijective f hf, Nat.card_eq_fintype_card, Fintype.card_fin]

/-- `QR==` is one of sixteen texts for the letter A, and not the one that the encoder gives. -/
theorem decodeInto_fibre_A : encodeInto (ascii "A") ≠ ascii "QR==" ∧
    Nat.card {text // decodeInto text = .ok (ascii "A")} = 16 := by
  have h := decodeInto_fibre (ascii "A")
  refine ⟨?_, h.2⟩
  rw [Ne, h.1 (ascii "QR==") (by decide +kernel)]
  decide +kernel

end KCNet.Base64
