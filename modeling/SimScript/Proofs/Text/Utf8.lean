import Mathlib.Data.List.Infix
import SimScript.Text.Utf8

/-!
# Characters as bytes

The bytes of a character are read back as that character, whatever follows them, and what
is left of them after a cut is read as one replacement character.  So bytes that are cut
off anywhere are read as the characters that fit, and a replacement character where the
cut lies within one more.
-/

namespace SimScript.Text

variable {char : Char} {chars kept : List Char} {rest : List UInt8} {room : Nat}

/-- The bytes that a character may have, by their number. -/
inductive Spells (char : Char) : List UInt8 → Prop
  | one {first : UInt8} (low : first < 0x80) (code : Char.ofNat first.toNat = char) :
      Spells char [first]
  | two {first second : UInt8} (high : ¬first < 0x80)
      (opens : (0xC2 ≤ first && first ≤ 0xDF && isTail second) = true)
      (code : Char.ofNat (first.toNat % 0x20 * 0x40 + tailBits second) = char) :
      Spells char [first, second]
  | three {first second third : UInt8} (high : ¬first < 0x80)
      (notTwo : (0xC2 ≤ first && first ≤ 0xDF && isTail second) = false)
      (opens : opensThree first second = true) (tail : isTail third = true)
      (code : Char.ofNat (first.toNat % 0x10 * 0x1000 + tailBits second * 0x40
        + tailBits third) = char) : Spells char [first, second, third]
  | four {first second third fourth : UInt8} (high : ¬first < 0x80)
      (notTwo : (0xC2 ≤ first && first ≤ 0xDF && isTail second) = false)
      (notThree : opensThree first second = false)
      (opens : opensFour first second = true) (tail : isTail third = true)
      (tail' : isTail fourth = true)
      (code : Char.ofNat (first.toNat % 0x08 * 0x40000 + tailBits second * 0x1000
        + tailBits third * 0x40 + tailBits fourth) = char) :
      Spells char [first, second, third, fourth]

theorem toNat_toUInt8 (code : Nat) (small : code < 256) : code.toUInt8.toNat = code := by
  rw [Nat.toUInt8_eq, UInt8.toNat_ofNat']
  omega

/-- A byte that continues a character, by its number. -/
def IsTail (byte : Nat) : Prop :=
  0x80 ≤ byte ∧ byte ≤ 0xBF

theorem lt_iff_toNat {byte : UInt8} : byte < 0x80 ↔ byte.toNat < 0x80 := by
  rw [UInt8.lt_iff_toNat_lt]
  rfl

theorem isTail_iff {byte : UInt8} : isTail byte = true ↔ IsTail byte.toNat := by
  simp [isTail, IsTail, UInt8.le_iff_toNat_le]

theorem opensTwo_iff {first second : UInt8} :
    (0xC2 ≤ first && first ≤ 0xDF && isTail second) = true ↔
      0xC2 ≤ first.toNat ∧ first.toNat ≤ 0xDF ∧ IsTail second.toNat := by
  simp [isTail_iff, UInt8.le_iff_toNat_le, and_assoc]

theorem opensThree_iff {first second : UInt8} : opensThree first second = true ↔
    0xE0 ≤ first.toNat ∧ first.toNat ≤ 0xEF ∧ IsTail second.toNat ∧
      (first.toNat = 0xE0 → 0xA0 ≤ second.toNat) ∧ (first.toNat = 0xED → second.toNat ≤ 0x9F) := by
  have least : first = 0xE0 ↔ first.toNat = 0xE0 := UInt8.toNat_inj.symm
  have surrogates : first = 0xED ↔ first.toNat = 0xED := UInt8.toNat_inj.symm
  simp only [opensThree, least, surrogates]
  split
  · simp [UInt8.le_iff_toNat_le, IsTail]
    omega
  · split
    · simp [UInt8.le_iff_toNat_le, IsTail]
      omega
    · simp [UInt8.le_iff_toNat_le, isTail_iff, IsTail]
      omega

theorem opensFour_iff {first second : UInt8} : opensFour first second = true ↔
    0xF0 ≤ first.toNat ∧ first.toNat ≤ 0xF4 ∧ IsTail second.toNat ∧
      (first.toNat = 0xF0 → 0x90 ≤ second.toNat) ∧ (first.toNat = 0xF4 → second.toNat ≤ 0x8F) := by
  have least : first = 0xF0 ↔ first.toNat = 0xF0 := UInt8.toNat_inj.symm
  have greatest : first = 0xF4 ↔ first.toNat = 0xF4 := UInt8.toNat_inj.symm
  simp only [opensFour, least, greatest]
  split
  · simp [UInt8.le_iff_toNat_le, IsTail]
    omega
  · split
    · simp [UInt8.le_iff_toNat_le, IsTail]
      omega
    · simp [UInt8.le_iff_toNat_le, isTail_iff, IsTail]
      omega

theorem encodeChar_spells (char : Char) : Spells char (encodeChar char) := by
  have same : Char.ofNat char.toNat = char := Char.ofNat_toNat char
  have valid : char.toNat.isValidChar := char.valid
  simp only [Nat.isValidChar] at valid
  simp only [encodeChar]
  generalize char.toNat = code at *
  split
  · have first := toNat_toUInt8 code (by omega)
    exact .one (lt_iff_toNat.mpr (by omega)) (by rw [first, same])
  · split
    · have first := toNat_toUInt8 (0xC0 + code / 0x40) (by omega)
      have second := toNat_toUInt8 (0x80 + code % 0x40) (by omega)
      refine .two ?_ ?_ ?_
      · rw [lt_iff_toNat]
        omega
      · rw [opensTwo_iff, IsTail]
        omega
      · rw [tailBits, ← same]
        congr 1
        omega
    · split
      · have first := toNat_toUInt8 (0xE0 + code / 0x1000) (by omega)
        have second := toNat_toUInt8 (0x80 + code / 0x40 % 0x40) (by omega)
        have third := toNat_toUInt8 (0x80 + code % 0x40) (by omega)
        refine .three ?_ ?_ ?_ ?_ ?_
        · rw [lt_iff_toNat]
          omega
        · rw [Bool.eq_false_iff, ne_eq, opensTwo_iff]
          omega
        · rw [opensThree_iff, IsTail]
          omega
        · rw [isTail_iff, IsTail]
          omega
        · rw [tailBits, tailBits, ← same]
          congr 1
          omega
      · have first := toNat_toUInt8 (0xF0 + code / 0x40000) (by omega)
        have second := toNat_toUInt8 (0x80 + code / 0x1000 % 0x40) (by omega)
        have third := toNat_toUInt8 (0x80 + code / 0x40 % 0x40) (by omega)
        have fourth := toNat_toUInt8 (0x80 + code % 0x40) (by omega)
        refine .four ?_ ?_ ?_ ?_ ?_ ?_ ?_
        · rw [lt_iff_toNat]
          omega
        · rw [Bool.eq_false_iff, ne_eq, opensTwo_iff]
          omega
        · rw [Bool.eq_false_iff, ne_eq, opensThree_iff]
          omega
        · rw [opensFour_iff, IsTail]
          omega
        · rw [isTail_iff, IsTail]
          omega
        · rw [isTail_iff, IsTail]
          omega
        · rw [tailBits, tailBits, tailBits, ← same]
          congr 1
          omega

/-! ## Reading characters back -/

theorem decodeChars_encodeChar (char : Char) (rest : List UInt8) :
    decodeChars (encodeChar char ++ rest) = char :: decodeChars rest := by
  have spells := encodeChar_spells char
  generalize encodeChar char = bytes at spells
  cases spells with
  | one low code =>
      rw [List.singleton_append, decodeChars.eq_def]
      simp only [low, code, if_true]
  | two high opens code =>
      rw [List.cons_append, List.singleton_append, decodeChars.eq_def]
      simp only [high, opens, code, if_true, if_false]
  | three high notTwo opens tail code =>
      rw [List.cons_append, List.cons_append, List.singleton_append, decodeChars.eq_def]
      simp only [high, notTwo, opens, tail, code, if_true, if_false, Bool.false_eq_true]
  | four high notTwo notThree opens tail tail' code =>
      rw [List.cons_append, List.cons_append, List.cons_append, List.singleton_append,
        decodeChars.eq_def]
      simp only [high, notTwo, notThree, opens, tail, tail', code, if_true, if_false,
        Bool.false_eq_true]

/-- What is left of the bytes of a character after a cut is read as one replacement character. -/
theorem decodeChars_take_encodeChar (begun : 0 < room) (cut : room < (encodeChar char).length) :
    decodeChars ((encodeChar char).take room) = [replacement] := by
  have spells := encodeChar_spells char
  generalize encodeChar char = bytes at spells cut
  cases spells with
  | one low code =>
      simp at cut
      omega
  | two high opens code =>
      obtain rfl : room = 1 := by
        simp at cut
        omega
      simp [decodeChars, high]
  | three high notTwo opens tail code =>
      have lengths : room = 1 ∨ room = 2 := by
        simp at cut
        omega
      rcases lengths with rfl | rfl
      · simp [decodeChars, high]
      · simp only [List.take_succ_cons, List.take_zero]
        rw [decodeChars.eq_def]
        simp only [high, notTwo, opens, if_true, if_false, Bool.false_eq_true]
  | four high notTwo notThree opens tail tail' code =>
      have lengths : room = 1 ∨ room = 2 ∨ room = 3 := by
        simp at cut
        omega
      rcases lengths with rfl | rfl | rfl
      · simp [decodeChars, high]
      · simp only [List.take_succ_cons, List.take_zero]
        rw [decodeChars.eq_def]
        simp only [high, notTwo, notThree, opens, if_true, if_false, Bool.false_eq_true]
      · simp only [List.take_succ_cons, List.take_zero]
        rw [decodeChars.eq_def]
        simp only [high, notTwo, notThree, opens, tail, if_true, if_false, Bool.false_eq_true]

theorem ne_zero_of_mem_encodeChar {byte : UInt8} (notNull : char.toNat ≠ 0)
    (member : byte ∈ encodeChar char) : byte ≠ 0 := by
  have spells := encodeChar_spells char
  generalize encodeChar char = bytes at spells member
  rw [ne_eq, ← UInt8.toNat_inj, UInt8.toNat_zero]
  cases spells with
  | one low code =>
      obtain rfl := List.mem_singleton.mp member
      intro zero
      rw [zero] at code
      exact notNull (congrArg Char.toNat code).symm
  | two high opens code =>
      rw [lt_iff_toNat] at high
      have second := (opensTwo_iff.mp opens).2.2.1
      simp only [List.mem_cons, List.not_mem_nil, or_false] at member
      rcases member with rfl | rfl <;> omega
  | three high notTwo opens tail code =>
      rw [lt_iff_toNat] at high
      have second := (opensThree_iff.mp opens).2.2.1.1
      have third := (isTail_iff.mp tail).1
      simp only [List.mem_cons, List.not_mem_nil, or_false] at member
      rcases member with rfl | rfl | rfl <;> omega
  | four high notTwo notThree opens tail tail' code =>
      rw [lt_iff_toNat] at high
      have second := (opensFour_iff.mp opens).2.2.1.1
      have third := (isTail_iff.mp tail).1
      have fourth := (isTail_iff.mp tail').1
      simp only [List.mem_cons, List.not_mem_nil, or_false] at member
      rcases member with rfl | rfl | rfl | rfl <;> omega

/-! ## Reading texts back -/

/-- A cut after `room` bytes of a text lies within `char`, and the characters before that are
`kept`. -/
structure Cuts (text : String) (room : Nat) (kept : String) (char : Char) : Prop where
  along : kept.toList ++ [char] <+: text.toList
  begun : (encode kept).length < room
  unfinished : room < (encode kept).length + (encodeChar char).length

theorem decodeChars_flatMap (chars : List Char) (rest : List UInt8) :
    decodeChars (chars.flatMap encodeChar ++ rest) = chars ++ decodeChars rest := by
  induction chars with
  | nil => rfl
  | cons char chars induction =>
      rw [List.flatMap_cons, List.append_assoc, decodeChars_encodeChar, induction,
        List.cons_append]

/-- A text ends, or is cut, between two characters or within one. -/
theorem take_flatMap_cases (chars : List Char) (room : Nat) :
    (∃ kept, kept <+: chars ∧ (chars.flatMap encodeChar).take room = kept.flatMap encodeChar) ∨
    ∃ kept char, kept ++ [char] <+: chars ∧ (kept.flatMap encodeChar).length < room ∧
      room < (kept.flatMap encodeChar).length + (encodeChar char).length := by
  induction chars generalizing room with
  | nil => exact .inl ⟨[], List.nil_prefix, by simp⟩
  | cons char chars induction =>
      by_cases fits : (encodeChar char).length ≤ room
      · rcases induction (room - (encodeChar char).length) with
          ⟨kept, along, taken⟩ | ⟨kept, next, along, begun, unfinished⟩
        · refine .inl ⟨char :: kept, (List.prefix_cons_inj char).mpr along, ?_⟩
          rw [List.flatMap_cons, List.take_append, List.take_of_length_le fits, taken,
            List.flatMap_cons]
        · refine .inr ⟨char :: kept, next, (List.prefix_cons_inj char).mpr along, ?_, ?_⟩
          · rw [List.flatMap_cons, List.length_append]
            omega
          · rw [List.flatMap_cons, List.length_append]
            omega
      · by_cases begun : room = 0
        · exact .inl ⟨[], List.nil_prefix, by simp [begun]⟩
        · refine .inr ⟨[], char, by simp, ?_, ?_⟩
          · simpa using Nat.pos_of_ne_zero begun
          · simpa using fits

variable {text kept : String}

theorem decode_encode (text : String) : decode (encode text) = text := by
  have read := decodeChars_flatMap text.toList []
  rw [List.append_nil] at read
  rw [decode, encode, read, decodeChars, List.append_nil, String.ofList_toList]

/-- What is left of a text after a cut between two of its characters is what fits of it. -/
theorem decode_take_of_not_cuts (whole : ∀ kept char, ¬Cuts text room kept char) :
    (decode ((encode text).take room)).toList <+: text.toList ∧
      (encode (decode ((encode text).take room))).length = min room (encode text).length := by
  rcases take_flatMap_cases text.toList room with
    ⟨kept, along, taken⟩ | ⟨kept, char, along, begun, unfinished⟩
  · have fits : (encode text).take room = encode (String.ofList kept) := by
      rw [encode, taken, encode, String.toList_ofList]
    rw [fits, decode_encode, String.toList_ofList, ← fits, List.length_take]
    exact ⟨along, rfl⟩
  · refine absurd ⟨?_, ?_, ?_⟩ (whole (String.ofList kept) char)
    · rwa [String.toList_ofList]
    · rwa [encode, String.toList_ofList]
    · rwa [encode, String.toList_ofList]

/-- What is left of a text after a cut within a character ends with a replacement character. -/
theorem decode_take_of_cuts (cuts : Cuts text room kept char) :
    decode ((encode text).take room) = kept.push replacement := by
  obtain ⟨⟨later, same⟩, begun, unfinished⟩ := cuts
  rw [encode] at begun unfinished
  have bytes : (encode text).take room = kept.toList.flatMap encodeChar ++
      (encodeChar char).take (room - (kept.toList.flatMap encodeChar).length) := by
    have short : room - (kept.toList.flatMap encodeChar).length ≤ (encodeChar char).length := by
      omega
    rw [encode, ← same, List.append_assoc, List.flatMap_append, List.singleton_append,
      List.flatMap_cons, List.take_append, List.take_of_length_le begun.le,
      List.take_append_of_le_length short]
  have broken : decodeChars ((encodeChar char).take
      (room - (kept.toList.flatMap encodeChar).length)) = [replacement] :=
    decodeChars_take_encodeChar (by omega) (by omega)
  rw [decode, bytes, decodeChars_flatMap, broken, ← String.toList_inj, String.toList_ofList,
    String.toList_push]

theorem ne_zero_of_mem_encode (noNull : Char.ofNat 0 ∉ text.toList) :
    ∀ byte ∈ encode text, byte ≠ 0 := by
  intro byte member
  obtain ⟨char, inText, inChar⟩ := List.mem_flatMap.mp member
  refine ne_zero_of_mem_encodeChar (fun null => noNull ?_) inChar
  rw [← null, Char.ofNat_toNat]
  exact inText

end SimScript.Text
