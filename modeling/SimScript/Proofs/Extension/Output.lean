import SimScript.Extension.Buffer
import SimScript.Proofs.Text.Utf8

/-!
# What is read of an output

An extension writes its text from the start of the buffer, and the text is cut where the
buffer ends, between two bytes.  What is read is the text up to the cut, except that a
character that is cut in two is read as a replacement character.
-/

namespace SimScript.Extension

open Text (encode decode Cuts replacement)

variable {buffer : Buffer} {text : String} {room : Nat}

theorem writeOutput_eq (size : buffer.length = room + 1) (text : String) :
    ∃ later, writeOutput buffer text = (encode text).take room ++ 0 :: later := by
  have short : ((encode text).take room ++ [0]).length ≤ buffer.length := by
    rw [List.length_append, List.length_take, List.length_singleton, size]
    omega
  simp only [writeOutput, size, overwrite]
  rw [← size, List.take_of_length_le short, List.append_assoc]
  exact ⟨_, rfl⟩

/-- A text without a zero is read back as far as its bytes fit. -/
theorem readOutput_writeOutput (size : buffer.length = room + 1)
    (noNull : Char.ofNat 0 ∉ text.toList) :
    readOutput (writeOutput buffer text) = (decode ((encode text).take room), true) := by
  obtain ⟨later, written⟩ := writeOutput_eq size text
  have noZero : ∀ byte ∈ (encode text).take room, (byte != 0) = true := by
    intro byte member
    simpa using Text.ne_zero_of_mem_encode noNull byte (List.mem_of_mem_take member)
  rw [written, readOutput, List.takeWhile_append_of_pos noZero]
  simp

/-- A text without a zero that is written into a buffer of `room + 1` bytes, whatever these held, is
read back with its end.  It is read whole where its bytes fit, and as those of its first characters
that fit where the cut lies between two characters.  Where the cut lies within a character, what is
read ends with a replacement character in its place, and begins the text only if the text has a
replacement character there. -/
theorem output_is_read_back_unless_a_character_is_cut (size : buffer.length = room + 1)
    (noNull : Char.ofNat 0 ∉ text.toList) :
    ∃ read, readOutput (writeOutput buffer text) = (read, true) ∧
      ((encode text).length ≤ room → read = text) ∧
      ((∀ kept char, ¬Cuts text room kept char) →
        read.toList <+: text.toList ∧ (encode read).length = min room (encode text).length) ∧
      ∀ kept char, Cuts text room kept char →
        read = kept.push replacement ∧
          (read.toList <+: text.toList ↔ char = replacement) := by
  refine ⟨_, readOutput_writeOutput size noNull, ?_, Text.decode_take_of_not_cuts, ?_⟩
  · intro fits
    rw [List.take_of_length_le fits, Text.decode_encode]
  · intro kept char cuts
    have read := Text.decode_take_of_cuts cuts
    refine ⟨read, ?_⟩
    obtain ⟨later, same⟩ := cuts.along
    rw [read, String.toList_push, ← same, List.append_assoc, List.prefix_append_right_inj,
      List.singleton_append, List.cons_prefix_cons]
    simp [eq_comm]

/-- Three bytes hold one letter and the first byte of the next one, which is read as a replacement
character; four bytes hold both letters. -/
theorem output_of_two_letters :
    readOutput (writeOutput [7, 7, 7] "aé") = ("a\ufffd", true) ∧
    readOutput (writeOutput [7, 7, 7, 7] "aé") = ("aé", true) := by
  have noNull : Char.ofNat 0 ∉ "aé".toList := by decide
  have three : ([7, 7, 7] : Buffer).length = 2 + 1 := rfl
  have four : ([7, 7, 7, 7] : Buffer).length = 3 + 1 := rfl
  obtain ⟨read, short, _, _, cut⟩ := output_is_read_back_unless_a_character_is_cut three noNull
  obtain ⟨whole, long, fits, _, _⟩ := output_is_read_back_unless_a_character_is_cut four noNull
  have cuts : Cuts "aé" 2 "a" 'é' := ⟨by decide, by decide, by decide⟩
  rw [short, long, (cut _ _ cuts).1, fits (by decide)]
  exact ⟨by decide, rfl⟩

/-- What is read need not begin the text that was written. -/
theorem truncation_can_invent_a_character :
    ¬∀ (buffer : Buffer) (text : String), buffer ≠ [] → Char.ofNat 0 ∉ text.toList →
      ∃ read, readOutput (writeOutput buffer text) = (read, true) ∧
        read.toList <+: text.toList := by
  intro begins
  obtain ⟨read, same, start⟩ := begins [7, 7, 7] "aé" (by decide) (by decide)
  have invented : readOutput (writeOutput [7, 7, 7] "aé") = ("a\ufffd", true) := by decide +kernel
  obtain rfl := congrArg Prod.fst (invented.symm.trans same)
  exact absurd start (by decide)

end SimScript.Extension
