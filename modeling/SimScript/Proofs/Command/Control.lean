import SimScript.Proofs.Command.Obedience

/-!
# Commands that steer scripts

The commands that enter code, leave frames, suspend and start or end scripts are
graded and ask for sanctioned effects.  The frames they enter run code of the store
in the current environment or in a stricter one.
-/

namespace SimScript

theorem CallStack.findNamed?_lt {stack : CallStack} {scopes : Scopes} {name : String} {depth : Nat}
    (found : stack.findNamed? scopes name = some depth) : depth < stack.length := by
  induction stack with
  | nil => simp [CallStack.findNamed?] at found
  | cons frame outer induction =>
      unfold CallStack.findNamed? at found
      split at found
      · cases found
        simp
      · exact Nat.lt_succ_of_lt (induction found)

namespace Plan

open Command (checkSuspension)

variable {exec : Execution} {operands : List Value}

/-! ## Entering code -/

theorem supplies_codeOf (store : Store) (value : Value) : store.Supplies (store.codeOf value) :=
  ⟨value, rfl⟩

theorem supplies_nil (store : Store) : store.Supplies [] :=
  ⟨.nil, rfl⟩

theorem enterable_code {kind : FrameKind} {environment : Environment} {bindings : Bindings}
    (code : Value) (noLoop : kind.isController = false)
    (bound : ∀ binding ∈ bindings, binding.2.Held exec.world.store operands)
    (inherits : environment = exec.environment ∨ environment = .unscheduled) :
    kind.Enterable (Value.Held exec.world.store operands) exec.world.store.Supplies exec
      (exec.world.store.codeOf code) environment bindings where
  supplied := by
    intro block member
    have none : kind.codes = [] := by
      cases kind <;> simp_all [FrameKind.isController, FrameKind.codes]
    rw [none, List.mem_singleton] at member
    exact member ▸ supplies_codeOf _ code
  held := by
    intro item member
    have none : kind.items = [] := by
      cases kind <;> simp_all [FrameKind.isController, FrameKind.items]
    simp [none] at member
  bound := bound
  loops := by simp [noLoop]
  inherits := inherits
  waits := by
    intro waits
    cases kind <;> simp_all [FrameKind.isController, FrameKind.waits]
  begins := by cases kind <;> simp_all [FrameKind.isController, FrameKind.awaits]

theorem enterable_loop {kind : FrameKind}
    (supplied : ∀ block ∈ kind.codes, exec.world.store.Supplies block)
    (held : ∀ item ∈ kind.items, item.Held exec.world.store operands)
    (waits : kind.waits = true → exec.canSuspend = true) (begins : kind.awaits = false) :
    kind.Enterable (Value.Held exec.world.store operands) exec.world.store.Supplies exec []
      exec.environment [] where
  supplied := by
    intro block member
    rcases List.mem_cons.mp member with rfl | inside
    · exact supplies_nil _
    · exact supplied block inside
  held := held
  bound := by simp
  loops := fun _ => rfl
  inherits := .inl rfl
  waits := fun waiting => by simpa [Execution.canSuspend] using waits waiting
  begins := begins

theorem enterCode_sanctioned {kind : FrameKind} (code : Value) {bindings : Bindings}
    (noLoop : kind.isController = false)
    (bound : ∀ binding ∈ bindings, binding.2.Held exec.world.store operands) :
    (enterCode kind code bindings exec).Sanctioned exec operands :=
  .pure (enterable_code code noLoop bound (.inl rfl))

theorem whenHolds_sanctioned {kind : FrameKind} (left right : Value)
    (noLoop : kind.isController = false) :
    (whenHolds kind left right exec).Sanctioned exec operands :=
  .ite (fun _ => enterCode_sanctioned right noLoop (by simp)) fun _ => nothing_sanctioned

theorem thenBranches_sanctioned (left right : Value) :
    (thenBranches left right exec).Sanctioned exec operands := by
  refine .after (Check.size_graded _ _ _) fun _ => .ite (fun _ => nothing_sanctioned) fun _ => ?_
  refine .after (Check.types_graded _ _ _) fun _ =>
    .ite (fun _ => nothing_sanctioned) fun _ => ?_
  exact enterCode_sanctioned _ rfl (by simp)

theorem enterIsNil_sanctioned (code : Value) :
    (enterIsNil code exec).Sanctioned exec operands :=
  .pure (enterable_code code rfl (by simp) (.inr rfl))

theorem forDo_sanctioned (left right : Value) :
    (forDo left right exec).Sanctioned exec operands := by
  unfold forDo
  split
  · refine .pure (enterable_loop ?_ (by simp [FrameKind.items]) (by simp [FrameKind.waits]) rfl)
    simpa [FrameKind.codes] using supplies_codeOf _ right
  · exact nothing_sanctioned

theorem forEach_sanctioned (left right : Value) :
    (forEach left right exec).Sanctioned exec operands := by
  have snapshot : ∀ item ∈ exec.world.store.itemsOf right,
      item.Held exec.world.store operands := fun item member => .ofItemsOf member
  refine .pure (enterable_loop ?_ snapshot (by simp [FrameKind.waits]) rfl)
  simpa [FrameKind.codes] using supplies_codeOf _ left

theorem whileDo_sanctioned (left right : Value) :
    (whileDo left right exec).Sanctioned exec operands := by
  refine .pure (enterable_loop ?_ (by simp [FrameKind.items]) (by simp [FrameKind.waits]) rfl)
  simp only [FrameKind.codes, List.forall_mem_cons, List.not_mem_nil, false_imp_iff,
    implies_true, and_true]
  exact ⟨supplies_codeOf _ left, supplies_codeOf _ right⟩

/-! ## Scopes and frames -/

theorem declareNames_sanctioned (names : List String) :
    (declareNames names exec).Sanctioned exec operands := by
  unfold declareNames
  split
  · exact fail_sanctioned _ rfl
  · exact change_sanctioned trivial

theorem declareItems_sanctioned (right : Value) :
    (declareItems right exec).Sanctioned exec operands :=
  .after (Check.allOf_graded _ _ _) fun _ =>
    .ite (fun _ => declareNames_sanctioned _) fun _ => nothing_sanctioned

theorem nameScope_sanctioned (right : Value) :
    (nameScope right exec).Sanctioned exec operands := by
  unfold nameScope
  split
  · exact change_sanctioned trivial
  · exact fail_sanctioned _ rfl

theorem breakOut_sanctioned {value : Value} (held : value.Held exec.world.store operands)
    (name : String) : (breakOut value name exec).Sanctioned exec operands := by
  unfold breakOut
  split
  · next found => exact .pure ⟨⟨name, found⟩, held⟩
  · exact fail_sanctioned _ rfl

/-! ## Scripts -/

theorem checkSuspension_runs :
    (checkSuspension exec).Runs fun _ => exec.canSuspend = true := by
  unfold checkSuspension
  refine .ite (fun _ => .abort rfl rfl) fun allowed => ?_
  refine .ite (fun _ => .abort rfl rfl) fun scheduled => .pure ?_
  cases environment : exec.environment with
  | scheduled => simpa [Execution.canSuspend, environment] using allowed
  | unscheduled => exact (scheduled environment).elim

theorem sleep_sanctioned (right : Value) : (sleep right exec).Sanctioned exec operands :=
  .bind checkSuspension_runs fun _ suspends =>
    .pure ⟨suspends, _, Scalar.isTime_larger right.number, rfl⟩

theorem waitUntil_sanctioned (right : Value) :
    (waitUntil right exec).Sanctioned exec operands := by
  refine .bind checkSuspension_runs fun _ suspends =>
    .pure (enterable_loop ?_ (by simp [FrameKind.items]) (fun _ => suspends) rfl)
  simpa [FrameKind.codes] using supplies_codeOf _ right

theorem spawn_sanctioned (left right : Value) :
    (spawn left right exec).Sanctioned exec [left, right] := by
  refine answer_sanctioned ⟨supplies_codeOf _ right, ?_⟩ (Value.Held.ofPlain rfl)
  intro binding member
  rw [List.mem_singleton] at member
  subst member
  exact .ofOperand (by simp)

theorem endNotice?_mild {state : HandleState} {notice : Fault}
    (ended : state.endNotice? = some notice) : Message.Mild notice := by
  cases state <;> cases ended <;> rfl

theorem terminate_sanctioned (right : Value) :
    (terminate right exec).Sanctioned exec operands := by
  unfold terminate
  split
  · exact nothing_sanctioned
  · refine .ite (fun _ => change_sanctioned trivial) fun other => ?_
    split
    · exact fail_sanctioned _ rfl
    · split
      · next ended =>
          exact .after (.note (endNotice?_mild ended) trivial) fun _ => nothing_sanctioned
      · exact change_sanctioned other

theorem nameScript_sanctioned (right : Value) :
    (nameScript right exec).Sanctioned exec operands := by
  unfold nameScript
  split
  · exact fail_sanctioned _ rfl
  · exact change_sanctioned trivial

end Plan

namespace Command

variable {exec : Execution} {operands : List Value}

theorem forPart_offers (set : ForSpec → Float → ForSpec) (left right : Value) :
    (forPart set left right exec).Offers exec operands := by
  unfold forPart
  split
  · split
    · exact reply_offers (.ofPlain rfl)
    · exact .after (.note rfl trivial) fun _ => nothing_offers
  · exact nothing_offers

theorem assert_offers (right : Value) : (assert right exec).Offers exec [right] :=
  .ite (fun _ => reply_offers (.ofOperand (by simp))) fun _ =>
    failWith_offers _ (.ofOperand (by simp)) rfl

theorem logValue_offers (right : Value) : (logValue right exec).Offers exec operands :=
  .after (.note rfl trivial) fun _ => nothing_offers

/-! ## Plans that look at scopes -/

theorem declareNames_keepsFrames (names : List String) :
    (Plan.declareNames names exec).Runs fun effect => effect.remaining? = none := by
  unfold Plan.declareNames
  split
  · exact .after (.raise _ trivial rfl) fun _ => .pure rfl
  · exact .pure rfl

theorem declareName_obeys (right : Value) :
    ∃ design, (Unary.mk "private" .string declareName).Obeys right design :=
  ⟨.plan (.declareNames [right.content]),
    { follows := declareName_follows right
      sanctioned := fun _ => Plan.declareNames_sanctioned _
      single := trivial
      unaware := .inr (.inr fun _ _ _ _ => rfl)
      keepsFrames := .inr fun _ =>
        Design.keepsFrames_of_runs (declareNames_keepsFrames _) }⟩

theorem declareItems_obeys (right : Value) :
    ∃ design, (Unary.mk "private" .array declareItems).Obeys right design :=
  ⟨.plan (.declareItems right),
    { follows := declareItems_follows right
      sanctioned := fun _ => Plan.declareItems_sanctioned right
      single := trivial
      unaware := .inr (.inr fun _ _ _ _ => rfl)
      keepsFrames := .inr fun _ => Design.keepsFrames_of_runs <|
        .after (Check.allOf_graded _ _ _) fun _ =>
          .ite (fun _ => declareNames_keepsFrames _) fun _ => .pure rfl }⟩

theorem nameScope_keepsFrames (right : Value) :
    (Plan.nameScope right exec).Runs fun effect => effect.remaining? = none := by
  unfold Plan.nameScope
  split
  · exact .pure rfl
  · exact .after (.raise _ trivial rfl) fun _ => .pure rfl

theorem nameScope_obeys (right : Value) :
    ∃ design, (Unary.mk "scopeName" .string nameScope).Obeys right design :=
  ⟨.plan (.nameScope right),
    { follows := nameScope_follows right
      sanctioned := fun _ => Plan.nameScope_sanctioned right
      single := trivial
      unaware := .inr (.inr fun _ _ _ _ => rfl)
      keepsFrames := .inr fun _ => Design.keepsFrames_of_runs (nameScope_keepsFrames right) }⟩

theorem breakOutOf_obeys (right : Value) :
    ∃ design, (Unary.mk "breakOut" .string fun right => breakOut .nil right.content).Obeys
      right design :=
  ⟨.plan (.breakOut .nil right.content),
    { follows := breakOut_follows .nil right.content
      sanctioned := fun _ => Plan.breakOut_sanctioned Value.held_nil _
      single := trivial
      unaware := .inr (.inr fun _ _ _ _ => rfl)
      keepsFrames := .inl ⟨rfl, rfl⟩ }⟩

theorem breakOutWith_obeys (left right : Value) :
    ∃ design, (Binary.mk "breakOut" .any .string fun left right =>
      breakOut left right.content).Obeys left right design :=
  ⟨.plan (.breakOut left right.content),
    { follows := breakOut_follows left right.content
      sanctioned := fun _ =>
        Design.Sanctioned.widen (Plan.breakOut_sanctioned (.ofOperand (by simp)) _)
      single := .inr trivial
      unaware := fun _ _ _ _ => rfl
      keepsFrames := .inl ⟨rfl, rfl⟩ }⟩

/-- The command looks at the other scripts. -/
theorem terminate_obeys (right : Value) :
    ∃ design, (Unary.mk "terminate" .script terminate).Obeys right design := by
  have sanctioned (exec : Execution) : (Plan.terminate right exec).Sanctioned exec [right] :=
    Plan.terminate_sanctioned right
  exact ⟨.plan (.terminate right),
    { follows := terminate_follows right
      sanctioned
      single := trivial
      unaware := .inl ⟨rfl, rfl⟩
      keepsFrames := .inr fun _ =>
        Design.keepsFrames_of_scopeless (fun _ _ => rfl) sanctioned }⟩

theorem scriptDone_obeys (right : Value) :
    ∃ design, (unary "scriptDone" .script fun right exec =>
      reply (.boolean (isDone exec right))).Obeys right design :=
  ⟨.plan (.ofQuery fun exec => reply (.boolean (isDone exec right))),
    { follows := ask_follows _
      sanctioned := fun _ => Plan.ofQuery_sanctioned (reply_offers (.ofPlain rfl))
      single := trivial
      unaware := .inr (.inl rfl)
      keepsFrames := .inr fun _ => Design.ofQuery_keepsFrames _ }⟩

/-! ## The tables -/

theorem flow_obeys : flow.Obeys where
  nulars := by
    intro command member
    simp only [flow, List.mem_cons, List.not_mem_nil, or_false] at member
    rcases member with rfl | rfl | rfl
    all_goals exact nular_obeys (fun _ => reply_offers (.ofPlain rfl)) fun _ _ _ _ => rfl
  unaries := by
    intro command member right
    simp only [flow, List.mem_cons, List.not_mem_nil, or_false] at member
    rcases member with
      rfl | rfl | rfl | rfl | rfl | rfl | rfl | rfl | rfl | rfl | rfl | rfl
    · exact unary_obeys (fun _ => reply_offers (.ofPlain rfl)) fun _ _ _ _ => rfl
    · refine unary_obeys (fun _ => ?_) fun _ _ _ _ => rfl
      cases right <;> exact reply_offers (.ofPlain rfl)
    · exact unary_obeys (fun _ => reply_offers (.ofPlain rfl)) fun _ _ _ _ => rfl
    · exact unary_obeys_plan (enterCode_follows _ right)
        (fun _ => Plan.enterCode_sanctioned right rfl (by simp)) (fun _ _ _ _ => rfl) fun _ _ => rfl
    · exact unary_obeys (fun _ => reply_offers (.ofPlain rfl)) fun _ _ _ _ => rfl
    · exact unary_obeys_plan (enterIsNil_follows right) (fun _ => Plan.enterIsNil_sanctioned right)
        (fun _ _ _ _ => rfl) fun _ _ => rfl
    · exact declareName_obeys right
    · exact declareItems_obeys right
    · exact nameScope_obeys right
    · exact breakOutOf_obeys right
    · exact unary_obeys (fun _ => assert_offers right) fun _ _ _ _ => rfl
    · exact unary_obeys (fun _ => logValue_offers right) fun _ _ _ _ => rfl
  binaries := by
    intro command member left right
    simp only [flow, List.mem_cons, List.not_mem_nil, or_false] at member
    rcases member with
      rfl | rfl | rfl | rfl | rfl | rfl | rfl | rfl | rfl | rfl | rfl | rfl
    · exact binary_obeys_plan (whenHolds_follows _ left right)
        (fun _ => Plan.whenHolds_sanctioned left right rfl) (fun _ _ _ _ => rfl) fun _ _ => rfl
    · exact binary_obeys_plan (thenBranches_follows left right)
        (fun _ => Plan.thenBranches_sanctioned left right) (fun _ _ _ _ => rfl) fun _ _ => rfl
    · refine binary_obeys (fun _ => replyArray_offers fun item member => ?_) fun _ _ _ _ => rfl
      exact .ofOperand (by simpa using member)
    · exact binary_obeys_plan (whenHolds_follows _ left right)
        (fun _ => Plan.whenHolds_sanctioned left right rfl) (fun _ _ _ _ => rfl) fun _ _ => rfl
    · exact binary_obeys_plan (whileDo_follows left right)
        (fun _ => Plan.whileDo_sanctioned left right) (fun _ _ _ _ => rfl) fun _ _ => rfl
    · exact binary_obeys (fun _ => forPart_offers _ left right) fun _ _ _ _ => rfl
    · exact binary_obeys (fun _ => forPart_offers _ left right) fun _ _ _ _ => rfl
    · exact binary_obeys (fun _ => forPart_offers _ left right) fun _ _ _ _ => rfl
    · exact binary_obeys_plan (forDo_follows left right)
        (fun _ => Plan.forDo_sanctioned left right) (fun _ _ _ _ => rfl) fun _ _ => rfl
    · exact binary_obeys_plan (forEach_follows left right)
        (fun _ => Plan.forEach_sanctioned left right) (fun _ _ _ _ => rfl) fun _ _ => rfl
    · exact binary_obeys_plan (enterWith_follows left right)
        (fun _ => Plan.enterCode_sanctioned right rfl (by simp [Value.Held]))
        (fun _ _ _ _ => rfl) fun _ _ => rfl
    · exact breakOutWith_obeys left right

theorem script_obeys : script.Obeys where
  nulars := by
    intro command member
    simp only [script, List.mem_cons, List.not_mem_nil, or_false] at member
    rcases member with rfl | rfl | rfl
    all_goals exact nular_obeys (fun _ => reply_offers (.ofPlain rfl)) fun _ _ _ _ => rfl
  unaries := by
    intro command member right
    simp only [script, List.mem_cons, List.not_mem_nil, or_false] at member
    rcases member with rfl | rfl | rfl | rfl | rfl | rfl
    · exact unary_obeys_plan (sleep_follows right) (fun _ => Plan.sleep_sanctioned right)
        (fun _ _ _ _ => rfl) fun _ _ => rfl
    · exact unary_obeys_plan (sleep_follows right) (fun _ => Plan.sleep_sanctioned right)
        (fun _ _ _ _ => rfl) fun _ _ => rfl
    · exact unary_obeys_plan (waitUntil_follows right) (fun _ => Plan.waitUntil_sanctioned right)
        (fun _ _ _ _ => rfl) fun _ _ => rfl
    · exact terminate_obeys right
    · exact scriptDone_obeys right
    · exact unary_obeys_plan (nameScript_follows right)
        (fun _ => Plan.nameScript_sanctioned right) (fun _ _ _ _ => rfl) fun _ _ => rfl
  binaries := by
    intro command member left right
    simp only [script, List.mem_singleton] at member
    subst member
    exact binary_obeys_plan (spawn_follows left right)
      (fun _ => Plan.spawn_sanctioned left right) (fun _ _ _ _ => rfl) fun _ _ => rfl

end Command

end SimScript
