import SimScript.Command.Format
import SimScript.Proofs.Report.Grading

/-!
# Templates as tokens

A template is made of tokens in one way only, because digits after a percent sign belong
together as far as they go.  Filling in goes from token to token: it never looks back,
and looks ahead no further than the next one starts.  So what it comes to is made of what
each token comes to, and each token that names no argument is reported where it starts.
-/

namespace SimScript.Command

/-- A piece of a template. -/
inductive Token where
  | plain (char : Char)
  | percent
  /-- A percent sign and the digits after it. -/
  | argument (digits : List Char)
  /-- A percent sign with neither a digit nor another one after it. -/
  | lone
  deriving DecidableEq

namespace Token

def chars : Token → List Char
  | .plain char => [char]
  | .percent => ['%', '%']
  | .argument digits => '%' :: digits
  | .lone => ['%']

/-- A token may stand before the characters `rest`. -/
inductive StandsBefore (rest : List Char) : Token → Prop
  | plain {char : Char} (other : char ≠ '%') : StandsBefore rest (.plain char)
  | percent : StandsBefore rest .percent
  | argument {digits : List Char} (some : digits ≠ [])
      (digit : ∀ char ∈ digits, char.isDigit = true)
      (ends : ∀ char ∈ rest.head?, char.isDigit = false) : StandsBefore rest (.argument digits)
  | lone (single : rest.head? ≠ some '%') (undigit : ∀ char ∈ rest.head?, char.isDigit = false) :
      StandsBefore rest .lone

def isInvalid (args : List Value) : Token → Bool
  | .plain _ | .percent => false
  | .argument digits =>
      !(1 ≤ Decimal.digitsValue digits && Decimal.digitsValue digits ≤ args.length)
  | .lone => true

/-- What a token comes to.  The arguments are counted from 1. -/
def text (store : Store) (args : List Value) (token : Token) : String :=
  if token.isInvalid args then String.ofList token.chars
  else
    match token with
    | .plain char => String.singleton char
    | .percent | .lone => "%"
    | .argument digits => store.display (args.getD (Decimal.digitsValue digits - 1) .nil)

/-- The character that is reported of a token before the characters `rest`. -/
def placeholder (rest : List Char) : Token → Char
  | .argument digits => digits.headD '0'
  | _ => rest.headD '%'

end Token

inductive MadeOf : List Char → List Token → Prop
  | nil : MadeOf [] []
  | cons {token : Token} {rest : List Char} {later : List Token}
      (stands : token.StandsBefore rest) (onward : MadeOf rest later) :
      MadeOf (token.chars ++ rest) (token :: later)

/-- What is reported of some tokens, the first of which stands at a position. -/
def notices (args : List Value) (location : Location) (position : Nat) : List Token → List Event
  | [] => []
  | token :: later =>
      let after := notices args location (position + token.chars.length) later
      if token.isInvalid args then
        ⟨Fault.formatInvalidPlaceholder (token.placeholder (later.flatMap Token.chars)) position,
          location⟩ :: after
      else
        after

variable {chars rest rest' digits : List Char} {token token' : Token} {tokens later : List Token}
  {store : Store} {args : List Value} {position : Nat} {filled : String} {site : Site}

/-! ## One way to read a template -/

def nextToken? : List Char → Option (Token × List Char)
  | [] => none
  | '%' :: '%' :: rest => some (.percent, rest)
  | '%' :: rest =>
      if (rest.takeWhile Char.isDigit).isEmpty then some (.lone, rest)
      else some (.argument (rest.takeWhile Char.isDigit), rest.dropWhile Char.isDigit)
  | char :: rest => some (.plain char, rest)

theorem takeWhile_isDigit_append (digit : ∀ char ∈ digits, char.isDigit = true)
    (ends : ∀ char ∈ rest.head?, char.isDigit = false) :
    (digits ++ rest).takeWhile Char.isDigit = digits := by
  rw [List.takeWhile_append_of_pos digit]
  cases rest with
  | nil => simp
  | cons char rest => simp [ends char rfl]

theorem dropWhile_isDigit_append (digit : ∀ char ∈ digits, char.isDigit = true)
    (ends : ∀ char ∈ rest.head?, char.isDigit = false) :
    (digits ++ rest).dropWhile Char.isDigit = rest := by
  rw [List.dropWhile_append_of_pos digit]
  cases rest with
  | nil => simp
  | cons char rest => simp [ends char rfl]

theorem Token.StandsBefore.nextToken?_eq (stands : token.StandsBefore rest) :
    nextToken? (token.chars ++ rest) = some (token, rest) := by
  cases stands with
  | plain other => simp [chars, nextToken?, other]
  | percent => rfl
  | @argument digits some digit ends =>
      obtain ⟨first, others, rfl⟩ := List.exists_cons_of_ne_nil some
      have notPercent : first ≠ '%' := by
        rintro rfl
        exact absurd (digit '%' List.mem_cons_self) (by decide)
      have taken := takeWhile_isDigit_append digit ends
      have dropped := dropWhile_isDigit_append digit ends
      simp only [List.cons_append] at taken dropped
      simp [chars, nextToken?, notPercent, taken, dropped]
  | lone single undigit =>
      cases rest with
      | nil => rfl
      | cons next rest =>
          have notPercent : next ≠ '%' := by simpa using single
          have notDigit := undigit next rfl
          simp [chars, nextToken?, notPercent, notDigit]

theorem standsBefore_of_nextToken? (read : nextToken? chars = some (token, rest)) :
    chars = token.chars ++ rest ∧ token.StandsBefore rest := by
  unfold nextToken? at read
  split at read
  · cases read
  · cases read
    exact ⟨rfl, .percent⟩
  case h_3 run single =>
    split at read
    case isTrue noDigits =>
      cases read
      refine ⟨rfl, .lone ?_ ?_⟩
      · intro starts
        obtain ⟨later, rfl⟩ := List.head?_eq_some_iff.mp starts
        exact single later rfl
      · cases rest with
        | nil => simp
        | cons char later => simpa [List.takeWhile_cons] using noDigits
    case isFalse someDigits =>
      cases read
      refine ⟨?_, .argument ?_ ?_ ?_⟩
      · rw [Token.chars, List.cons_append, List.takeWhile_append_dropWhile]
      · simpa [List.isEmpty_iff] using someDigits
      · intro char member
        exact List.all_eq_true.mp List.all_takeWhile char member
      · intro char starts
        have stops := List.head?_dropWhile_not Char.isDigit run
        simpa [Option.mem_def.mp starts] using stops
  case h_4 char rest' _ other =>
    cases read
    exact ⟨rfl, .plain other⟩

theorem MadeOf.unique (made : MadeOf chars tokens) (made' : MadeOf chars later) :
    tokens = later := by
  induction made generalizing later with
  | nil =>
      generalize none : ([] : List Char) = chars at made'
      cases made' with
      | nil => rfl
      | @cons token _ _ _ _ => cases token <;> simp [Token.chars] at none
  | @cons token rest tokens stands onward induction =>
      generalize same : token.chars ++ rest = chars at made'
      cases made' with
      | nil => cases token <;> simp [Token.chars] at same
      | cons stands' onward' =>
          have read := stands.nextToken?_eq
          rw [same, stands'.nextToken?_eq] at read
          cases read
          rw [induction onward']

theorem Token.length_chars_pos (token : Token) : 0 < token.chars.length := by
  cases token <;> simp [chars]

theorem isSome_nextToken? (char : Char) (rest : List Char) :
    (nextToken? (char :: rest)).isSome = true := by
  unfold nextToken?
  split <;> try split
  all_goals simp_all

theorem exists_madeOf (chars : List Char) : ∃ tokens, MadeOf chars tokens := by
  cases chars with
  | nil => exact ⟨[], .nil⟩
  | cons char rest =>
      obtain ⟨⟨token, after⟩, read⟩ := Option.isSome_iff_exists.mp (isSome_nextToken? char rest)
      obtain ⟨same, stands⟩ := standsBefore_of_nextToken? read
      have shorter : after.length < (char :: rest).length := by
        have pos := token.length_chars_pos
        rw [same, List.length_append]
        omega
      obtain ⟨tokens, onward⟩ := exists_madeOf after
      rw [same]
      exact ⟨token :: tokens, .cons stands onward⟩
termination_by chars.length
decreasing_by exact shorter

theorem MadeOf.chars_eq (made : MadeOf chars tokens) : chars = tokens.flatMap Token.chars := by
  induction made with
  | nil => rfl
  | cons stands onward induction => rw [List.flatMap_cons, ← induction]

/-! ## Filling in -/

section Filling

variable {template : Array Char} {char : Char}

theorem drop_eq_cons_iff : template.toList.drop position = char :: rest ↔
    ∃ inside : position < template.size,
      template[position] = char ∧ template.toList.drop (position + 1) = rest := by
  constructor
  · intro left
    have inside : position < template.toList.length := by
      refine Nat.lt_of_not_le fun outside => ?_
      rw [List.drop_of_length_le outside] at left
      cases left
    rw [List.drop_eq_getElem_cons inside, List.cons.injEq] at left
    exact ⟨by simpa using inside, by simpa using left.1, left.2⟩
  · rintro ⟨inside, same, onward⟩
    have inside' : position < template.toList.length := by simpa using inside
    rw [List.drop_eq_getElem_cons inside', onward, ← same, Array.getElem_toList]

theorem digitsAt_eq (template : Array Char) (position : Nat) :
    digitsAt template position = (template.toList.drop position).takeWhile Char.isDigit := by
  fun_induction digitsAt with
  | case1 position inside digit induction =>
      rw [drop_eq_cons_iff.mpr ⟨inside, rfl, rfl⟩, List.takeWhile_cons_of_pos digit, induction]
  | case2 position inside other =>
      rw [drop_eq_cons_iff.mpr ⟨inside, rfl, rfl⟩, List.takeWhile_cons_of_neg other]
  | case3 position outside =>
      rw [List.drop_of_length_le (by simpa using outside), List.takeWhile_nil]

theorem argumentOf?_eq (args : List Value) (digits : List Char) :
    argumentOf? args digits =
      if (Token.argument digits).isInvalid args then none
      else some (args.getD (Decimal.digitsValue digits - 1) .nil) := by
  unfold argumentOf?
  split
  case h_1 zero => simp [Token.isInvalid, zero]
  case h_2 number value =>
    by_cases inside : number < args.length
    · simp [Token.isInvalid, value, inside, Nat.succ_le_of_lt inside]
    · have beyond : ¬ number + 1 ≤ args.length := inside
      simp [Token.isInvalid, value, inside, beyond]

theorem append_percent (filled : String) : filled ++ "%" = filled.push '%' := by
  rw [← String.toList_inj, String.toList_append, String.toList_push]
  rfl

theorem note_bind_apply {α : Type} (message : Message) (next : Unit → Report α)
    (site : Site) : (Report.note message >>= next) site =
      let event : Event := ⟨message, site.location⟩
      ⟨(next () (site.after [event])).result, event :: (next () (site.after [event])).events⟩ :=
  Report.bind_of_ok rfl

/-- One token is filled in, and reported where it is invalid, before the rest of the template. -/
theorem fillFrom_step (stands : token.StandsBefore rest)
    (starts : template.toList.drop position = token.chars ++ rest) :
    fillFrom store args template position filled site =
      let after := fillFrom store args template (position + token.chars.length)
        (filled ++ token.text store args)
      if token.isInvalid args then
        let event : Event :=
          ⟨Fault.formatInvalidPlaceholder (token.placeholder rest) position, site.location⟩
        ⟨(after (site.after [event])).result, event :: (after (site.after [event])).events⟩
      else after site := by
  cases stands with
  | @plain char other =>
      have starts : template.toList.drop position = char :: rest := starts
      obtain ⟨inside, same, onward⟩ := drop_eq_cons_iff.mp starts
      rw [fillFrom]
      simp [inside, same, other, Token.chars, Token.text, Token.isInvalid]
  | percent =>
      have starts : template.toList.drop position = '%' :: '%' :: rest := starts
      obtain ⟨inside, same, onward⟩ := drop_eq_cons_iff.mp starts
      obtain ⟨inside', same', onward'⟩ := drop_eq_cons_iff.mp onward
      have noDigits : digitsAt template (position + 1) = [] := by
        rw [digitsAt_eq, onward]
        rfl
      rw [fillFrom]
      simp [inside, same, noDigits, inside', same', Token.chars, Token.text, Token.isInvalid,
        append_percent]
  | @argument digits some digit ends =>
      have starts : template.toList.drop position = '%' :: (digits ++ rest) := starts
      obtain ⟨inside, same, onward⟩ := drop_eq_cons_iff.mp starts
      have run : digitsAt template (position + 1) = digits := by
        rw [digitsAt_eq, onward, takeWhile_isDigit_append digit ends]
      have next : position + 1 + digits.length = position + (digits.length + 1) := by omega
      rw [fillFrom]
      by_cases invalid : (Token.argument digits).isInvalid args = true
      · have kept : String.ofList ('%' :: digits) = "%" ++ String.ofList digits := by
          rw [← String.toList_inj, String.toList_append]
          simp
        simp [inside, same, run, some, next, argumentOf?_eq, invalid, Token.text, Token.chars,
          Token.placeholder, note_bind_apply, kept, String.append_assoc]
      · simp [inside, same, run, some, next, argumentOf?_eq, invalid, Token.text, Token.chars]
  | lone single undigit =>
      have starts : template.toList.drop position = '%' :: rest := starts
      obtain ⟨inside, same, onward⟩ := drop_eq_cons_iff.mp starts
      have noDigits : digitsAt template (position + 1) = [] := by
        have none : ([] ++ rest).takeWhile Char.isDigit = [] :=
          takeWhile_isDigit_append (by simp) undigit
        rwa [digitsAt_eq, onward]
      have next : template[position + 1]? = rest.head? := by
        rw [← onward, List.head?_drop, Array.getElem?_toList]
      rw [fillFrom]
      simp [inside, same, noDigits, next, single, Token.text, Token.isInvalid, Token.chars,
        Token.placeholder, note_bind_apply, append_percent]

/-- Filling in goes from token to token. -/
theorem fillFrom_of_madeOf (made : MadeOf (template.toList.drop position) tokens) :
    fillFrom store args template position filled site =
      ⟨.ok (filled ++ String.join (tokens.map (Token.text store args))),
        notices args site.location position tokens⟩ := by
  generalize left : template.toList.drop position = chars at made
  induction made generalizing position filled site with
  | nil =>
      have outside : ¬position < template.size := by simpa using left
      rw [fillFrom, dif_neg outside, List.map_nil, String.join_nil, String.append_empty]
      rfl
  | @cons token rest later stands onward induction =>
      have left' : template.toList.drop (position + token.chars.length) = rest := by
        rw [← List.drop_drop, left, List.drop_left]
      rw [fillFrom_step stands left]
      simp only [induction left', onward.chars_eq, List.map_cons, String.join_cons,
        String.append_assoc, notices]
      split <;> rfl

end Filling

theorem fillTemplate_of_madeOf {template : String} (made : MadeOf template.toList tokens) :
    fillTemplate store template args site =
      ⟨.ok (String.join (tokens.map (Token.text store args))),
        notices args site.location 0 tokens⟩ := by
  have filled : fillFrom store args template.toList.toArray 0 "" site = _ :=
    fillFrom_of_madeOf (by simpa using made)
  rw [fillTemplate, filled, String.empty_append]

/-! ## Doubled percent signs -/

theorem notices_eq_nil {location : Location}
    (valid : ∀ token ∈ tokens, token.isInvalid args = false) :
    notices args location position tokens = [] := by
  induction tokens generalizing position with
  | nil => rfl
  | cons token later induction =>
      obtain ⟨first, onward⟩ := List.forall_mem_cons.mp valid
      simp [notices, first, induction onward]

/-- The token that a character with its percent sign doubled is. -/
def Token.ofChar (char : Char) : Token :=
  if char = '%' then .percent else .plain char

theorem Token.isInvalid_ofChar (char : Char) : (ofChar char).isInvalid args = false := by
  unfold ofChar
  split <;> rfl

theorem Token.text_ofChar (char : Char) :
    (ofChar char).text store args = String.singleton char := by
  unfold ofChar
  split
  case isTrue sign =>
    subst sign
    rfl
  case isFalse => rfl

theorem madeOf_doubled (chars : List Char) :
    MadeOf (chars.flatMap fun char => if char = '%' then ['%', '%'] else [char])
      (chars.map Token.ofChar) := by
  induction chars with
  | nil => exact .nil
  | cons char chars induction =>
      rw [List.flatMap_cons, List.map_cons, Token.ofChar]
      split
      case isTrue => exact .cons .percent induction
      case isFalse other => exact .cons (.plain other) induction

theorem fillTemplate_doubled (store : Store) (args : List Value) (content : String)
    (site : Site) :
    fillTemplate store (Text.replaceChar '%' ['%', '%'] content) args site =
      ⟨.ok content, []⟩ := by
  have made : MadeOf (Text.replaceChar '%' ['%', '%'] content).toList
      (content.toList.map Token.ofChar) := by
    rw [Text.replaceChar, String.toList_ofList]
    exact madeOf_doubled _
  have valid : ∀ token ∈ content.toList.map Token.ofChar, token.isInvalid args = false := by
    intro token member
    obtain ⟨char, _, rfl⟩ := List.mem_map.mp member
    exact Token.isInvalid_ofChar char
  have same : String.join ((content.toList.map Token.ofChar).map (Token.text store args)) =
      content := by
    rw [← String.toList_inj, String.toList_join]
    simp [List.flatMap_map, Token.text_ofChar]
  rw [fillTemplate_of_madeOf made, notices_eq_nil valid, same]

theorem format_apply {exec : Execution} {right : Value} {template : String}
    (items : exec.world.store.itemsOf right = .text template :: args) (site : Site) :
    let filled := fillTemplate exec.world.store template args site
    format right exec site =
      ⟨filled.result.map fun text => .value (.text text), filled.events⟩ := by
  have plan : format right exec = (fillTemplate exec.world.store template args >>= fun text =>
      reply (.text text)) := by
    simp only [format, items]
    rfl
  rw [plan]
  exact Report.map_apply _ _ _

/-- Whatever text and arguments are formatted, the text is made of tokens in exactly one way, and
formatting it comes to an end with what the tokens come to, one after the other.  Digits after a
percent sign that number one of the arguments come to how it is displayed; other digits are kept
with the sign, and a percent sign alone is kept, and for each of these, and for nothing else, one
fault tells where it starts, in order.  A text with its percent signs doubled comes to itself,
without a fault. -/
theorem format_fills_in_token_by_token {exec : Execution} {right : Value} {template : String}
    (items : exec.world.store.itemsOf right = .text template :: args) (site : Site) :
    (∃ tokens, MadeOf template.toList tokens ∧
      (∀ others, MadeOf template.toList others → others = tokens) ∧
      format right exec site =
        ⟨.ok (.value (.text (String.join (tokens.map (Token.text exec.world.store args))))),
          notices args site.location 0 tokens⟩) ∧
    ∀ content, template = Text.replaceChar '%' ['%', '%'] content →
      format right exec site = ⟨.ok (.value (.text content)), []⟩ := by
  have applied := format_apply items site
  constructor
  · obtain ⟨tokens, made⟩ := exists_madeOf template.toList
    refine ⟨tokens, made, fun others made' => made'.unique made, ?_⟩
    rw [applied, fillTemplate_of_madeOf made]
    rfl
  · rintro content rfl
    rw [applied, fillTemplate_doubled]
    rfl

/-- An argument, a doubled percent sign, digits that number no argument, and a percent sign at the
end; and a text with its percent sign doubled. -/
theorem format_of_each_token :
    let sign := Text.replaceChar '%' ['%', '%'] "5%"
    let store : Store := { cells := #[#[.text "%1%%%4%", .text "a"], #[.text sign]] }
    let exec := Execution.resume { World.ofSettings {} with store } { id := 1, stack := [] }
    format (.array 0) exec exec.site =
      ⟨.ok (.value (.text "a%%4%")),
        [⟨Fault.formatInvalidPlaceholder '4' 4, Location.host⟩,
          ⟨Fault.formatInvalidPlaceholder '%' 6, Location.host⟩]⟩ ∧
    format (.array 1) exec exec.site = ⟨.ok (.value (.text "5%")), []⟩ := by
  intro sign store exec
  have first : exec.world.store.itemsOf (.array 0) = .text "%1%%%4%" :: [.text "a"] := rfl
  have second : exec.world.store.itemsOf (.array 1) = .text sign :: [] := rfl
  obtain ⟨⟨tokens, _, unique, filled⟩, _⟩ := format_fills_in_token_by_token first exec.site
  obtain ⟨_, doubled⟩ := format_fills_in_token_by_token second exec.site
  have made : MadeOf "%1%%%4%".toList [.argument ['1'], .percent, .argument ['4'], .lone] := by
    have one : Token.StandsBefore ['%', '%', '%', '4', '%'] (.argument ['1']) :=
      .argument (List.cons_ne_nil _ _) (List.forall_mem_singleton.mpr rfl) (by rintro _ ⟨⟩; rfl)
    have four : Token.StandsBefore ['%'] (.argument ['4']) :=
      .argument (List.cons_ne_nil _ _) (List.forall_mem_singleton.mpr rfl) (by rintro _ ⟨⟩; rfl)
    have alone : Token.StandsBefore [] .lone := .lone (by nofun) (by nofun)
    exact .cons one (.cons .percent (.cons four (.cons alone .nil)))
  obtain rfl := unique _ made
  refine ⟨?_, doubled "5%" rfl⟩
  rw [filled]
  rfl

end SimScript.Command
