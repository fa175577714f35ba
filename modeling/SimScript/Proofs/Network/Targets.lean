import SimScript.Network.Sessions

/-!
# Targets of sessions

A target is written as a host, a colon and a port.  The colon is the last one of the text,
so a host may have colons of its own; a port may have a plus sign and zeros in front.  What
is read is exactly what is written like that.
-/

namespace SimScript

namespace Decimal

/-- How a count is written: some decimal digits, with a plus sign before them or without. -/
inductive CountText : List Char → Nat → Prop where
  | plain {digits : List Char} (some : digits ≠ [])
      (decimal : ∀ char ∈ digits, char.isDigit = true) :
      CountText digits (Nat.ofDigitChars 10 digits 0)
  | signed {digits : List Char} (some : digits ≠ [])
      (decimal : ∀ char ∈ digits, char.isDigit = true) :
      CountText ('+' :: digits) (Nat.ofDigitChars 10 digits 0)

variable {chars : List Char} {bound count : Nat} {text : String}

theorem digitsValue_eq (digits : List Char) : digitsValue digits =
    Nat.ofDigitChars 10 digits 0 := by
  simp only [digitsValue, Nat.ofDigitChars_eq_foldl, Nat.mul_comm]

theorem readDigits_eq_some_iff :
    (if chars.isEmpty || !chars.all Char.isDigit then none
      else if digitsValue chars < bound then some (digitsValue chars) else none) = some count ↔
      (chars ≠ [] ∧ ∀ char ∈ chars, char.isDigit = true) ∧
        Nat.ofDigitChars 10 chars 0 = count ∧ count < bound := by
  rw [← List.all_eq_true, ← List.isEmpty_eq_false_iff, digitsValue_eq]
  cases chars.isEmpty <;> cases chars.all Char.isDigit <;> simp
  rw [and_comm]
  exact and_congr_right fun same => by rw [same]

/-- A count is read exactly where it is written and below the bound. -/
theorem readCount?_eq_some_iff :
    readCount? bound text = some count ↔ CountText text.toList count ∧ count < bound := by
  have signs : ∀ {rest}, ¬∀ char ∈ '+' :: rest, char.isDigit = true :=
    fun decimal => absurd (decimal '+' List.mem_cons_self) (by decide)
  unfold readCount?
  dsimp only
  split
  case h_1 rest list =>
      rw [readDigits_eq_some_iff, list]
      constructor
      · rintro ⟨⟨some, decimal⟩, rfl, below⟩
        exact ⟨.signed some decimal, below⟩
      · rintro ⟨written, below⟩
        cases written with
        | plain some decimal => exact absurd decimal signs
        | signed some decimal => exact ⟨⟨some, decimal⟩, rfl, below⟩
  case h_2 unsigned =>
      rw [readDigits_eq_some_iff]
      constructor
      · rintro ⟨⟨some, decimal⟩, rfl, below⟩
        exact ⟨.plain some decimal, below⟩
      · rintro ⟨written, below⟩
        generalize text.toList = chars at written unsigned ⊢
        cases written with
        | plain some decimal => exact ⟨⟨some, decimal⟩, rfl, below⟩
        | signed some decimal => exact absurd rfl (unsigned _)

theorem countText_toString (count : Nat) : CountText (toString count).toList count := by
  have written : CountText (Nat.toDigits 10 count)
      (Nat.ofDigitChars 10 (Nat.toDigits 10 count) 0) :=
    .plain Nat.toDigits_ne_nil fun char member =>
      Nat.isDigit_of_mem_toDigits (by decide) (by decide) member
  rw [Nat.ofDigitChars_ten_toDigits] at written
  rwa [Nat.toString_eq_repr, Nat.toList_repr]

theorem CountText.no_colon (written : CountText chars count) : ':' ∉ chars := by
  cases written with
  | plain _ decimal => exact fun member => absurd (decimal _ member) (by decide)
  | signed _ decimal =>
      intro member
      rcases List.mem_cons.mp member with same | member
      · exact absurd same (by decide)
      · exact absurd (decimal _ member) (by decide)

end Decimal

namespace Network

open Decimal

variable {chars before after : List Char} {text host : String} {port : Nat}

/-- The last colon is the one with no other after it. -/
theorem splitLastColon?_eq_some_iff :
    splitLastColon? chars = some (before, after) ↔ chars = before ++ ':' :: after ∧
      ':' ∉ after := by
  unfold splitLastColon?
  dsimp only
  constructor
  · intro split
    split at split
    case h_1 => cases split
    case h_2 head rest list =>
        obtain ⟨rfl, rfl⟩ := Prod.mk.inj (Option.some.inj split)
        have stops := List.head?_dropWhile_not (· != ':') chars.reverse
        have whole : chars.reverse.takeWhile (· != ':') ++ head :: rest = chars.reverse :=
          list ▸ List.takeWhile_append_dropWhile
        obtain rfl : head = ':' := by simpa [list] using stops
        constructor
        · simpa using (congrArg List.reverse whole).symm
        · intro member
          have passed := List.all_eq_true.mp List.all_takeWhile _ (List.mem_reverse.mp member)
          simp at passed
  · rintro ⟨rfl, last⟩
    have apart : ∀ char ∈ after.reverse, (char != ':') = true := by
      intro char member
      rw [bne_iff_ne]
      rintro rfl
      exact last (List.mem_reverse.mp member)
    simp [List.dropWhile_append_of_pos apart, List.takeWhile_append_of_pos apart]

def IsHost (host : String) : Prop :=
  host ≠ "" ∧ ∀ char ∈ host.toList, Text.isBlank char = false

theorem isHost_iff : IsHost host ↔
    (host.toList.isEmpty || host.toList.any Text.isBlank) = false := by
  simp [IsHost]

/-- A text is read as a target exactly if it is the host, a colon and a way to write the port. -/
theorem Target.parse?_eq_some_iff :
    Target.parse? text = some ⟨host, port⟩ ↔
      ∃ number, text = host ++ ":" ++ number ∧ ':' ∉ number.toList ∧ IsHost host ∧
        CountText number.toList port ∧ port < Nat.pow 2 16 := by
  have joined : ∀ number : String, text = host ++ ":" ++ number ↔
      text.toList = host.toList ++ ':' :: number.toList := by
    intro number
    rw [← String.toList_inj]
    simp
  unfold Target.parse?
  constructor
  · intro parsed
    split at parsed
    case h_1 => cases parsed
    case h_2 before after split =>
        obtain ⟨whole, last⟩ := splitLastColon?_eq_some_iff.mp split
        split at parsed
        case isTrue => cases parsed
        case isFalse fits =>
            obtain ⟨count, read, same⟩ := Option.map_eq_some_iff.mp parsed
            obtain ⟨rfl, rfl⟩ := Target.mk.inj same
            obtain ⟨written, below⟩ := readCount?_eq_some_iff.mp read
            refine ⟨String.ofList after, (joined _).mpr ?_, ?_, ?_, written, below⟩
            · rwa [String.toList_ofList, String.toList_ofList]
            · rwa [String.toList_ofList]
            · rwa [isHost_iff, String.toList_ofList, ← Bool.not_eq_true]
  · rintro ⟨number, whole, last, isHost, written, below⟩
    have split := splitLastColon?_eq_some_iff.mpr ⟨(joined number).mp whole, last⟩
    have read : readCount? (Nat.pow 2 16) number = some port :=
      readCount?_eq_some_iff.mpr ⟨written, below⟩
    simp only [split, isHost_iff.mp isHost, Bool.false_eq_true, if_false, String.ofList_toList,
      read, Option.map_some]

/-- A text is read as a host and a port exactly if it is the host, a colon, and behind it, without
another colon, a plus sign or none and some digits of which the port is the value, where the host
is not empty and has no blanks and the port is at most 65535.  So a host may have colons, and
whatever the host and the port are, they are read back from the host, a colon and the port. -/
theorem targets_are_hosts_and_ports :
    (∀ (text host : String) (port : Nat), Target.parse? text = some ⟨host, port⟩ ↔
      ∃ number, text = host ++ ":" ++ number ∧ ':' ∉ number.toList ∧
        (host ≠ "" ∧ ∀ char ∈ host.toList, Text.isBlank char = false) ∧
        CountText number.toList port ∧ port ≤ 65535) ∧
    ∀ (host : String) (port : Nat),
      (host ≠ "" ∧ ∀ char ∈ host.toList, Text.isBlank char = false) → port ≤ 65535 →
        Target.parse? (host ++ ":" ++ toString port) = some ⟨host, port⟩ := by
  have room : ∀ port, port < Nat.pow 2 16 ↔ port ≤ 65535 := fun _ => Nat.lt_succ_iff
  constructor
  · intro text host port
    simp only [Target.parse?_eq_some_iff, room, IsHost]
  · intro host port isHost most
    have written := countText_toString port
    exact Target.parse?_eq_some_iff.mpr
      ⟨_, rfl, written.no_colon, isHost, written, (room port).mpr most⟩

/-- A host with colons is read up to the last colon, and a port with a sign and with zeros is the
same port; one more than the last port is none. -/
theorem target_of_a_host_with_colons :
    Target.parse? "[::1]:2302" = some ⟨"[::1]", 2302⟩ ∧
      Target.parse? "[::1]:+002302" = some ⟨"[::1]", 2302⟩ ∧
      Target.parse? "[::1]:65536" ≠ some ⟨"[::1]", 65536⟩ := by
  obtain ⟨reads, again⟩ := targets_are_hosts_and_ports
  have unspaced : "[::1]".toList.any Text.isBlank = false := by decide
  have isHost : "[::1]" ≠ "" ∧ ∀ char ∈ "[::1]".toList, Text.isBlank char = false :=
    ⟨by decide, fun char member =>
      Bool.eq_false_iff.mpr (List.any_eq_false.mp unspaced char member)⟩
  refine ⟨again "[::1]" 2302 isHost (by decide), ?_, ?_⟩
  · refine (reads _ _ _).mpr ⟨"+002302", rfl, by decide, isHost, ?_, by decide⟩
    exact @CountText.signed "002302".toList (by decide) (List.all_eq_true.mp (by decide))
  · intro read
    obtain ⟨_, _, _, _, _, most⟩ := (reads _ _ _).mp read
    exact absurd most (by decide)

end Network

end SimScript
