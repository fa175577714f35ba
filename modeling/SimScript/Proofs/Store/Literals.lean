import SimScript.Proofs.Store.Depth

/-!
# Reading literals back

The literal form of data tells what the data is: nothing, truth values, texts and arrays
of them.  Each part of it ends by itself, whatever follows, because a text ends at the
first quote that is not doubled, and what follows an element never is a quote.
-/

namespace SimScript

/-! ## Texts in quotes -/

/-- The characters of a text with its quotes doubled. -/
def doubled (chars : List Char) : List Char :=
  chars.flatMap fun char => if char = '"' then ['"', '"'] else [char]

/-- Reads doubled quotes and other characters up to a single quote, and what follows that. -/
def readDoubled : List Char → List Char × List Char
  | '"' :: '"' :: rest => (readDoubled rest).map ('"' :: ·) id
  | '"' :: rest => ([], rest)
  | char :: rest => (readDoubled rest).map (char :: ·) id
  | [] => ([], [])

theorem readDoubled_doubled {rest : List Char} (start : rest.head? ≠ some '"')
    (chars : List Char) : readDoubled (doubled chars ++ '"' :: rest) = (chars, rest) := by
  induction chars with
  | nil =>
      cases rest with
      | nil => rfl
      | cons char rest =>
          have other : char ≠ '"' := fun quote => start (congrArg some quote)
          simp [doubled, readDoubled, other]
  | cons char chars induction =>
      rw [doubled] at induction
      by_cases quote : char = '"' <;> simp [doubled, readDoubled, quote, induction]

theorem toList_quotedText (content : String) :
    (quotedText content).toList = '"' :: (doubled content.toList ++ ['"']) := by
  simp [quotedText, Text.replaceChar, doubled]

namespace Store

/-- Data: nothing, truth values, texts and arrays of data. -/
inductive IsData (store : Store) : Value → Prop
  | nil : IsData store .nil
  | boolean (flag : Bool) : IsData store (.boolean flag)
  | text (content : String) : IsData store (.text content)
  | array {cell : CellId} (items : ∀ item ∈ store.items cell, IsData store item) :
      IsData store (.array cell)

variable {store : Store} {value : Value} {cell : CellId}

/-- Data is finite, so no array of it leads back to itself. -/
theorem IsData.loopless (data : store.IsData value) : store.Loopless value := by
  induction data with
  | array _ induction =>
      rintro cell ⟨start, ⟨⟩, reaches⟩ next link back
      cases reaches with
      | refl =>
          obtain ⟨item, member, array⟩ := exists_of_mem_links link
          exact induction item member _ ⟨next, array, back⟩ next link back
      | step first rest =>
          obtain ⟨item, member, array⟩ := exists_of_mem_links first
          exact induction item member cell ⟨_, array, rest⟩ next link back
  | _ => nofun

/-! ## The characters of literals -/

/-- The characters of the literal form of a value. -/
def spelling (store : Store) (value : Value) : List Char :=
  (store.literal value).toList

theorem spelling_nil : store.spelling .nil = ['a', 'n', 'y'] := by
  simp [spelling, literal, render]

theorem spelling_boolean (flag : Bool) :
    store.spelling (.boolean flag) =
      if flag then ['t', 'r', 'u', 'e'] else ['f', 'a', 'l', 's', 'e'] := by
  cases flag <;> simp [spelling, literal, render, flagText]

theorem spelling_text (content : String) :
    store.spelling (.text content) = '"' :: (doubled content.toList ++ ['"']) :=
  toList_quotedText content

theorem spelling_array (loopless : store.Loopless (.array cell)) :
    store.spelling (.array cell) =
      '[' :: ([','].intercalate ((store.items cell).toList.map store.spelling) ++ [']']) := by
  simp [spelling, literal_array loopless, String.toList_intercalate]
  rfl

/-- The character that data starts with. -/
def opening : Value → Char
  | .boolean flag => if flag then 't' else 'f'
  | .text _ => '"'
  | .array _ => '['
  | _ => 'a'

namespace IsData

variable {other : Value} {rest rest' : List Char}

theorem head?_spelling (data : store.IsData value) :
    (store.spelling value ++ rest).head? = some (opening value) := by
  cases data with
  | nil => simp [spelling_nil, opening]
  | boolean flag => cases flag <;> simp [spelling_boolean, opening]
  | text => simp [spelling_text, opening]
  | array items => simp [spelling_array (IsData.array items).loopless, opening]

theorem spelling_ne_closing (data : store.IsData value) :
    store.spelling value ++ rest ≠ ']' :: rest' := by
  intro same
  have opens := congrArg List.head? same
  rw [data.head?_spelling, List.head?_cons, Option.some.injEq] at opens
  cases data with
  | boolean flag => cases flag <;> simp [opening] at opens
  | _ => simp [opening] at opens

theorem type_eq (data : store.IsData value) (otherData : store.IsData other)
    (same : store.spelling value ++ rest = store.spelling other ++ rest') :
    value.type = other.type := by
  have opens := congrArg List.head? same
  rw [data.head?_spelling, otherData.head?_spelling, Option.some.injEq] at opens
  cases data <;> cases otherData <;> grind [opening, Value.type]

end IsData

/-- What follows an element: the other elements, each after a comma, and the closing bracket. -/
def continued (store : Store) (items : List Value) (rest : List Char) : List Char :=
  items.flatMap (',' :: store.spelling ·) ++ ']' :: rest

/-- The elements of an array and the closing bracket. -/
def listed (store : Store) (items : List Value) (rest : List Char) : List Char :=
  [','].intercalate (items.map store.spelling) ++ ']' :: rest

/-- A value that is told by its characters whatever follows it, except a quote. -/
def IsTold (store : Store) (value : Value) : Prop :=
  ∀ other rest rest', store.IsData other → rest.head? ≠ some '"' → rest'.head? ≠ some '"' →
    store.spelling value ++ rest = store.spelling other ++ rest' →
      store.equals value other = true ∧ rest = rest'

section Lists

variable {items others : List Value} {rest rest' : List Char}

theorem listed_cons (first : Value) (items : List Value) (rest : List Char) :
    store.listed (first :: items) rest = store.spelling first ++ store.continued items rest := by
  induction items generalizing first with
  | nil => simp [listed, continued]
  | cons next items induction =>
      simp only [listed, List.map_cons] at induction ⊢
      rw [List.intercalate_cons_cons, List.append_assoc, induction]
      simp [continued]

theorem head?_continued : (store.continued items rest).head? ≠ some '"' := by
  cases items <;> simp [continued]

theorem continued_inj (told : ∀ item ∈ items, store.IsTold item)
    (data : ∀ other ∈ others, store.IsData other)
    (same : store.continued items rest = store.continued others rest') :
    List.Forall₂ (fun item other => store.equals item other = true) items others ∧
      rest = rest' := by
  induction items generalizing others with
  | nil =>
      cases others with
      | nil => exact ⟨.nil, List.tail_eq_of_cons_eq same⟩
      | cons other others => simp [continued] at same
  | cons item items induction =>
      obtain ⟨first, later⟩ := List.forall_mem_cons.mp told
      cases others with
      | nil => simp [continued] at same
      | cons other others =>
          obtain ⟨otherData, othersData⟩ := List.forall_mem_cons.mp data
          have sameChars : store.spelling item ++ store.continued items rest =
              store.spelling other ++ store.continued others rest' := by
            simpa [continued] using same
          obtain ⟨equal, onward⟩ :=
            first other _ _ otherData head?_continued head?_continued sameChars
          obtain ⟨allEqual, ends⟩ := induction later othersData onward
          exact ⟨.cons equal allEqual, ends⟩

theorem listed_inj (told : ∀ item ∈ items, store.IsTold item)
    (data : ∀ item ∈ items, store.IsData item) (data' : ∀ other ∈ others, store.IsData other)
    (same : store.listed items rest = store.listed others rest') :
    List.Forall₂ (fun item other => store.equals item other = true) items others ∧
      rest = rest' := by
  cases items with
  | nil =>
      cases others with
      | nil => exact ⟨.nil, List.tail_eq_of_cons_eq same⟩
      | cons other others =>
          rw [listed_cons] at same
          exact absurd same.symm (data' other (by simp)).spelling_ne_closing
  | cons item items =>
      cases others with
      | nil =>
          rw [listed_cons] at same
          exact absurd same (data item (by simp)).spelling_ne_closing
      | cons other others =>
          rw [listed_cons, listed_cons] at same
          obtain ⟨first, later⟩ := List.forall_mem_cons.mp told
          obtain ⟨otherData, othersData⟩ := List.forall_mem_cons.mp data'
          obtain ⟨equal, onward⟩ := first other _ _ otherData head?_continued head?_continued same
          obtain ⟨allEqual, ends⟩ := continued_inj later othersData onward
          exact ⟨.cons equal allEqual, ends⟩

end Lists

theorem IsData.told (data : store.IsData value) : store.IsTold value := by
  induction data with
  | nil =>
      intro other rest rest' otherData start start' same
      have types := IsData.nil.type_eq otherData same
      cases otherData with
      | nil => exact ⟨by simp [equals, equalsTo], List.append_cancel_left same⟩
      | _ => cases types
  | boolean flag =>
      intro other rest rest' otherData start start' same
      have types := (IsData.boolean flag).type_eq otherData same
      cases otherData with
      | boolean flag' =>
          obtain rfl : flag = flag' := by
            cases flag <;> cases flag' <;> simp [spelling_boolean] at same ⊢
          exact ⟨by simp [equals, equalsTo], List.append_cancel_left same⟩
      | _ => cases types
  | text content =>
      intro other rest rest' otherData start start' same
      have types := (IsData.text content).type_eq otherData same
      cases otherData with
      | text content' =>
          have chars : doubled content.toList ++ '"' :: rest =
              doubled content'.toList ++ '"' :: rest' := by
            simpa [spelling_text] using same
          have read := congrArg readDoubled chars
          rw [readDoubled_doubled start, readDoubled_doubled start', Prod.mk.injEq,
            String.toList_inj] at read
          obtain ⟨rfl, ends⟩ := read
          exact ⟨by simp [equals, equalsTo], ends⟩
      | _ => cases types
  | @array cell items induction =>
      intro other rest rest' otherData start start' same
      have types := (IsData.array items).type_eq otherData same
      cases otherData with
      | @array cell' others =>
          have loopless := (IsData.array items).loopless
          have body : store.listed (store.items cell).toList rest =
              store.listed (store.items cell').toList rest' := by
            simpa [listed, spelling_array loopless, spelling_array (IsData.array others).loopless]
              using same
          simp only [← Array.mem_toList_iff] at items others induction
          obtain ⟨allEqual, ends⟩ := listed_inj induction items others body
          exact ⟨(equals_array loopless).mpr (.inr allEqual), ends⟩
      | _ => cases types

/-- Data with the same literal form is equal, whatever characters its texts are made of. -/
theorem literal_tells_data_apart {left right : Value} (leftData : store.IsData left)
    (rightData : store.IsData right) (same : store.literal left = store.literal right) :
    store.equals left right = true := by
  have spelled : store.spelling left ++ [] = store.spelling right ++ [] := by
    rw [spelling, spelling, same]
  exact (leftData.told right [] [] rightData (by simp) (by simp) spelled).1

/-- Two arrays of a text with quotes, a comma and brackets in it, and of an array of nothing. -/
theorem arrays_of_quotes_are_told :
    let content := "\"],[\"\","
    let store : Store :=
      { cells := #[#[.nil], #[.text content, .array 0], #[.text content, .array 0]] }
    store.equals (.array 1) (.array 2) = true := by
  intro content store
  have inner : store.IsData (.array 0) := by
    refine .array fun item member => ?_
    obtain rfl := Array.mem_singleton.mp member
    exact .nil
  have outer : ∀ item ∈ #[Value.text content, .array 0], store.IsData item := by
    simp [IsData.text, inner]
  exact literal_tells_data_apart (.array outer) (.array outer) rfl

end Store

end SimScript
