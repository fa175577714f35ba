import SimScript.Proofs.Command.Bridges

/-!
# Commands on objects, crews and groups

The commands that look at objects, move them, seat them, create and delete them obey
sanctioned designs.  What they reply holds numbers, texts and references to objects, and
never an array that was there before.
-/

namespace SimScript.Command

variable {exec : Execution} {operands : List Value} {recruits : Prop}

/-! ## Live and null objects -/

theorem eq_object_of_get? {table : ObjectTable} {value : Value} {data : ObjectData}
    (found : table.get? value.objectRef = some data) : value = .object value.objectRef := by
  cases value
  case object ref => rfl
  all_goals cases found

theorem withLive_offers (value : Value) {query : ObjectRef → ObjectData → Query}
    (live : ∀ ref data, value = .object ref → (objectsOf exec).get? ref = some data →
      (query ref data exec).Offers exec operands) :
    (withLive value query exec).Offers exec operands := by
  unfold withLive
  split
  case h_1 data found => exact live _ data (eq_object_of_get? found) found
  case h_2 => exact fail_offers _ rfl

theorem withLiveOr_offers (value : Value) {notice : Option Fault} {fallback : Value}
    {query : ObjectRef → ObjectData → Query} (mild : ∀ fault ∈ notice, Message.Mild fault)
    (held : fallback.Held exec.world.store operands)
    (live : ∀ ref data, value = .object ref → (objectsOf exec).get? ref = some data →
      (query ref data exec).Offers exec operands) :
    (withLiveOr value notice fallback query exec).Offers exec operands := by
  unfold withLiveOr
  split
  case h_1 data found => exact live _ data (eq_object_of_get? found) found
  · refine .after (.raise _ trivial rfl) fun _ => ?_
    cases notice with
    | none => exact reply_offers held
    | some fault => exact .after (.note (mild fault rfl) trivial) fun _ => reply_offers held

theorem expectLive_graded (value : Value) (strength : Strength) :
    (expectLive exec value strength).Graded :=
  .ite (fun _ => .pure trivial) fun _ => .recover _ trivial rfl

theorem replyObjects_offers {refs : List ObjectRef}
    (mentioned : ∀ ref ∈ refs, (objectsOf exec).Mentions ref) :
    (replyArray (refs.map objectValue)).Offers exec operands := by
  apply replyArray_offers
  intro item member
  obtain ⟨ref, inRefs, rfl⟩ := List.mem_map.mp member
  exact .ofMentioned (mentioned ref inRefs)

theorem mentions_of_live {table : ObjectTable} {ref : ObjectRef} (member : ref ∈ table.live) :
    table.Mentions ref :=
  .registered (List.mem_filter.mp member).1

theorem replyVector_offers (vector : Vec3) :
    (replyVector vector).Offers exec operands := by
  apply replyArray_offers
  intro item member
  obtain ⟨number, -, rfl⟩ := List.mem_map.mp member
  exact .ofPlain rfl

theorem update_sanctioned (ref : ObjectRef) {update : ObjectData → ObjectData}
    (inert : ObjectData.Inert update) :
    (Plan.change (.updateObjects [(ref, update)])).SanctionedIf recruits exec operands :=
  Plan.change_sanctioned (.inert fun _ only => List.mem_singleton.mp only ▸ inert)

/-! ## Points -/

theorem readPoint_graded (store : Store) (value : Value) : (readPoint store value).Graded :=
  .after (Check.sizeBetween_graded _ _ _ _) fun _ => .ite (fun _ => .pure trivial) fun _ =>
    .after (Check.allOf_graded _ _ _) fun _ =>
      .ite (fun _ => .pure trivial) fun _ => .pure trivial

theorem readTriple_graded (store : Store) (value : Value) : (readTriple store value).Graded :=
  .after (Check.uniform_graded _ _ _ _) fun _ =>
    .ite (fun _ => .pure trivial) fun _ => .pure trivial

theorem readNestedTriple_graded (store : Store) (outer : Nat) (value : Value) :
    (readNestedTriple store outer value).Graded :=
  .after (Check.size_graded _ _ _) fun _ => .ite (fun _ => .pure trivial) fun _ =>
    .after (Check.subTypes_graded _ _ _ _ _) fun _ =>
      .ite (fun _ => .pure trivial) fun _ => .pure trivial

theorem locate_graded (value : Value) : (locate exec value).Graded := by
  unfold locate
  split
  · exact readPoint_graded _ _
  · split
    · exact .pure trivial
    · exact .recover _ trivial rfl
  · exact .pure trivial

theorem ifLive_sanctioned (value : Value) (strength : Strength) {plan : Report Effect}
    (live : plan.SanctionedIf recruits exec operands) :
    Report.SanctionedIf recruits exec operands
      (do if ← expectLive exec value strength then plan else Plan.nothing) :=
  .after (expectLive_graded value strength) fun _ =>
    .ite (fun _ => live) fun _ => Plan.nothing_sanctioned

theorem atPoint_sanctioned {work : Report (Option Vec3)} {plan : Vec3 → Report Effect}
    (graded : work.Graded) (each : ∀ point, (plan point).SanctionedIf recruits exec operands) :
    (work >>= fun found =>
      match found with
      | none => Plan.nothing
      | some point => plan point).SanctionedIf recruits exec operands := by
  refine .after graded fun found => ?_
  cases found with
  | none => exact Plan.nothing_sanctioned
  | some point => exact each point

/-! ## Objects -/

theorem kindOfInConfig_offers (left right : Value) :
    (kindOfInConfig left right exec).Offers exec operands := by
  have denied : (do
      Report.note Fault.returningFalse
      reply (.boolean false)).Offers exec operands :=
    .after (.note rfl trivial) fun _ => reply_offers (.ofPlain rfl)
  unfold kindOfInConfig
  refine .after (Check.size_graded _ _ _) fun _ => .ite (fun _ => nothing_offers) fun _ => ?_
  refine .after (Check.types_graded _ _ _) fun _ =>
    .ite (fun _ => nothing_offers) fun _ => ?_
  split
  · refine .after (ConfigTree.lookupChecked_graded _ _ _) fun entry => ?_
    cases entry with
    | none => exact denied
    | some _ => exact reply_offers (.ofPlain rfl)
  · exact .after (.raise _ trivial rfl) fun _ => denied

theorem setData_sanctioned (value : Value) {update : ObjectData → ObjectData}
    (inert : ObjectData.Inert update) :
    (Plan.setData value update exec).Sanctioned exec operands :=
  ifLive_sanctioned value _ (update_sanctioned _ inert)

theorem setVector_sanctioned {set : ObjectData → Vec3 → ObjectData}
    (inert : ∀ vector, ObjectData.Inert fun data => set data vector) (left right : Value) :
    (Plan.setVector set left right exec).Sanctioned exec operands :=
  ifLive_sanctioned left _ <| atPoint_sanctioned (readTriple_graded _ _) fun vector =>
    update_sanctioned _ (inert vector)

theorem moveUnit_onlyObjects (left right : Value) :
    (Plan.moveUnit left right exec).Runs Effect.OnlyObjects := by
  have refused : ∀ {chosen : Report Effect}, chosen.Runs Effect.OnlyObjects →
      (do Report.raise (Fault.expectedUnit .strong); chosen : Report Effect).Runs
        Effect.OnlyObjects :=
    fun chosen => .after (.raise _ trivial rfl) fun _ => chosen
  refine .after (expectLive_graded _ _) fun _ => .ite (fun _ => ?_) fun _ => .pure (.nothing _)
  refine .ite (fun _ => refused (.pure (.nothing _))) fun _ => ?_
  refine .after (readPoint_graded _ _) fun found => ?_
  cases found with
  | none => exact .pure (.nothing _)
  | some point =>
      refine .pure (.update (fun update only => ?_) _)
      exact List.mem_singleton.mp only ▸ fun _ => rfl

theorem moveUnit_sanctioned (left right : Value) :
    (Plan.moveUnit left right exec).Sanctioned exec operands := by
  refine ifLive_sanctioned left _ (.ite (fun _ => Plan.fail_sanctioned _ rfl) fun _ => ?_)
  exact atPoint_sanctioned (readPoint_graded _ _) fun _ => update_sanctioned _ fun _ => rfl

theorem moveUnits_sanctioned (left right : Value) :
    (Design.moveUnits left right).Sanctioned recruits exec operands := by
  refine .after (Check.subTypes_graded _ _ _ _ _) fun _ => .ite (fun _ => ?_) fun _ => ?_
  · refine .pure fun plan member later => ?_
    obtain ⟨unit, -, rfl⟩ := List.mem_map.mp member
    exact moveUnit_onlyObjects unit right
  · exact .pure (by simp)

theorem measure_offers (name : String) (flat : Bool) (left right : Value) :
    (measure name flat left right exec).Offers exec operands := by
  refine .ite (fun _ => fail_offers _ rfl) fun _ => .after (locate_graded _) fun start => ?_
  cases start with
  | none => exact nothing_offers
  | some start =>
      refine .ite (fun _ => fail_offers _ rfl) fun _ => .after (locate_graded _) fun stop => ?_
      cases stop with
      | none => exact nothing_offers
      | some stop => exact reply_offers (.ofPlain rfl)

theorem mem_live_of_mem_objectsNear {center : Vec3} {classes : List String} {radius : Float}
    {flat : Bool} {ref : ObjectRef} (member : ref ∈ objectsNear exec center classes radius flat) :
    ref ∈ (objectsOf exec).live := by
  unfold objectsNear at member
  obtain ⟨⟨away, other⟩, sorted, rfl⟩ := List.mem_map.mp member
  obtain ⟨live, inLive, found⟩ := List.mem_filterMap.mp (List.mem_mergeSort.mp sorted)
  split at found
  case h_1 => cases found
  case h_2 =>
      dsimp only at found
      split at found
      · cases found
        exact inLive
      · cases found

theorem nearestObjects_offers (right : Value) :
    (nearestObjects right exec).Offers exec operands := by
  unfold nearestObjects
  refine .after (Check.sizeBetween_graded _ _ _ _) fun _ =>
    .ite (fun _ => nothing_offers) fun _ => ?_
  refine .after (Check.subType_graded _ _ _ _) fun _ =>
    .ite (fun _ => nothing_offers) fun _ => ?_
  refine .after (Check.types_graded _ _ _) fun _ =>
    .ite (fun _ => nothing_offers) fun _ => ?_
  refine .after (Check.subTypes_graded _ _ _ _ _) fun _ =>
    .ite (fun _ => nothing_offers) fun _ => ?_
  refine .after (locate_graded _) fun center => ?_
  cases center with
  | none => exact nothing_offers
  | some center =>
      refine replyObjects_offers fun ref member => mentions_of_live ?_
      exact mem_live_of_mem_objectsNear member

theorem side_offers (right : Value) : (side right exec).Offers exec operands :=
  withLiveOr_offers right (by simp) (.ofPlain rfl) fun _ _ _ _ =>
    reply_offers (.ofPlain rfl)

theorem damage_offers (right : Value) : (damage right exec).Offers exec operands :=
  withLive_offers right fun _ _ _ _ => reply_offers (.ofPlain rfl)

theorem position_offers (right : Value) : (position right exec).Offers exec operands :=
  withLive_offers right fun _ _ _ _ => replyVector_offers _

/-- Commands that follow plans to change objects only, one after the other, come to a series. -/
theorem forM_followAll {α : Type} {body : α → Command} {made : α → Plan}
    (meets : ∀ item exec, (body item).Meets exec (made item exec))
    (only : ∀ item exec, (made item exec).Runs Effect.OnlyObjects) (items : List α)
    (exec : Execution) (site : Site) (here : site.location = exec.location) :
    let work : Work Execution Unit := items.forM fun item => do let _ ← body item
    exec.followAll (items.map made) = ((work site exec).1,
      match (work site exec).1.result with
      | .ok _ => (work site exec).2.pushOperand .nil
      | .error _ => (work site exec).2) := by
  intro work
  induction items generalizing exec site with
  | nil => rfl
  | cons item items induction =>
      let rest : Work Execution Unit := items.forM fun item => do let _ ← body item
      have whole : work = body item >>= fun _ => rest := by
        change (body item >>= fun _ => pure ()) >>= (fun _ => rest) = _
        simp only [bind_assoc, pure_bind]
      have told : made item exec exec.site = made item exec site := by
        have blind := (only item exec).blind site exec.world.logger
        rw [← blind, here]
        rfl
      have worked := meets item exec site
      rw [whole, List.map_cons, Execution.followAll, Execution.attempt]
      cases asked : (made item exec site).result with
      | error abort =>
          rw [Execution.conclude, asked] at worked
          rw [Work.bind_of_error worked, Report.bind_of_error (by rw [told, asked])]
          simp only [told]
      | ok effect =>
          rw [Execution.conclude, asked] at worked
          have stays : (effect.changed exec).location = exec.location := by
            cases ((only item exec).each site).yields effect asked <;> rfl
          have onward := induction (effect.changed exec) (site.after (made item exec site).events)
            (here.trans stays.symm)
          rw [Work.bind_of_ok worked, Report.bind_of_ok (by rw [told, asked])]
          simp only [Report.pure_apply, List.append_nil, told]
          rw [onward]

theorem moveUnits_follows (left right : Value) :
    (moveUnits left right).Follows (.moveUnits left right) := by
  intro exec
  let units := exec.world.store.itemsOf left
  have followed := forM_followAll (fun unit _ => moveUnit_meets unit right)
    (fun unit _ => moveUnit_onlyObjects unit right) units exec
  rw [Execution.carryOut, moveUnits, Work.bind_of_silent (Work.get_apply _ _),
    Design.moveUnits, Execution.fulfil]
  dsimp only
  cases checked : Check.subTypes [] [.object] .strong 0 units exec.site with
  | mk result events =>
    have done : (liftM (Check.subTypes [] [.object] .strong 0 units) : Work Execution Bool)
        exec.site exec = (⟨result, events⟩, exec) := by
      rw [Work.lift_apply, checked]
    cases result with
    | error abort =>
        rw [Work.bind_of_error done, Report.bind_of_error (by rw [checked]), checked]
    | ok found =>
        rw [Work.bind_of_ok done, Report.bind_of_ok (by rw [checked]), checked]
        cases found with
        | false =>
            simp only [Bool.false_eq_true, if_false, Work.pure_apply, Report.pure_apply,
              Execution.followAll, List.append_nil]
            rfl
        | true =>
            have moved := followed (exec.site.after events) rfl
            simp only [if_true, Report.pure_apply, List.append_nil]
            rw [moved]
            rcases worked : (units.forM fun unit => do let _ ← moveUnit unit right :
              Work Execution Unit) (exec.site.after events) exec with ⟨⟨result, more⟩, after⟩
            cases result with
            | error abort => rw [Work.bind_of_error worked]
            | ok => rw [Work.bind_of_ok worked, Work.pure_apply, List.append_nil]; rfl

theorem moveUnits_obeys (left right : Value) :
    ∃ design, (Binary.mk "doMove" .array .array moveUnits).Obeys left right design :=
  ⟨.moveUnits left right,
    { follows := moveUnits_follows left right
      sanctioned := fun _ => moveUnits_sanctioned left right
      single := .inl ⟨rfl, rfl, rfl, rfl⟩
      unaware := fun _ _ _ _ => rfl
      keepsFrames := .inr fun _ => trivial }⟩

theorem setVector_obeys {name : String} {set : ObjectData → Vec3 → ObjectData}
    (inert : ∀ vector, ObjectData.Inert fun data => set data vector) (left right : Value) :
    ∃ design, (Binary.mk name .object .array (setVector set)).Obeys left right design :=
  binary_obeys_plan (setVector_follows set left right)
    (fun _ => setVector_sanctioned inert left right) (fun _ _ _ _ => rfl) fun _ _ => rfl

theorem object_obeys : object.Obeys where
  nulars := by
    intro command member
    simp only [object, List.mem_cons, List.not_mem_nil, or_false] at member
    rcases member with
      rfl | rfl | rfl | rfl | rfl | rfl | rfl | rfl | rfl | rfl | rfl | rfl
    · exact nular_obeys (fun _ => reply_offers (.ofMentioned (.null rfl))) fun _ _ _ _ => rfl
    · exact nular_obeys (fun _ => reply_offers (.ofMentioned (.null rfl))) fun _ _ _ _ => rfl
    · exact nular_obeys (fun _ => reply_offers (.ofMentioned .player)) fun _ _ _ _ => rfl
    case inr.inr.inr.inr.inr.inr.inr.inr.inr.inr.inr =>
      refine nular_obeys (fun _ => replyObjects_offers fun ref member => ?_) fun _ _ _ _ => rfl
      exact mentions_of_live (List.mem_filter.mp member).1
    all_goals exact nular_obeys (fun _ => reply_offers (.ofPlain rfl)) fun _ _ _ _ => rfl
  unaries := by
    intro command member right
    simp only [object, List.mem_cons, List.not_mem_nil, or_false] at member
    rcases member with
      rfl | rfl | rfl | rfl | rfl | rfl | rfl | rfl | rfl | rfl | rfl | rfl | rfl | rfl | rfl
    · exact unary_obeys (fun _ => reply_offers (.ofPlain rfl)) fun _ _ _ _ => rfl
    · exact unary_obeys (fun _ => reply_offers (.ofPlain rfl)) fun _ _ _ _ => rfl
    · refine unary_obeys (fun _ => ?_) fun _ _ _ _ => rfl
      cases right <;> exact reply_offers (.ofPlain rfl)
    · refine unary_obeys (fun _ => ?_) fun _ _ _ _ => rfl
      cases right <;> exact reply_offers (.ofPlain rfl)
    · exact unary_obeys (fun _ => side_offers right) fun _ _ _ _ => rfl
    · exact unary_obeys (fun _ => side_offers right) fun _ _ _ _ => rfl
    · refine unary_obeys (fun _ => withLiveOr_offers right ?_ (.ofPlain rfl) fun _ _ _ _ =>
        reply_offers (.ofPlain rfl)) fun _ _ _ _ => rfl
      rintro fault ⟨⟩
      rfl
    · exact unary_obeys (fun _ => withLiveOr_offers right (by simp) (.ofPlain rfl) fun _ _ _ _ =>
        reply_offers (.ofPlain rfl)) fun _ _ _ _ => rfl
    · exact unary_obeys (fun _ => damage_offers right) fun _ _ _ _ => rfl
    · exact unary_obeys (fun _ => damage_offers right) fun _ _ _ _ => rfl
    · exact unary_obeys (fun _ => withLive_offers right fun _ _ _ _ => reply_offers (.ofPlain rfl))
        fun _ _ _ _ => rfl
    · exact unary_obeys (fun _ => position_offers right) fun _ _ _ _ => rfl
    · exact unary_obeys (fun _ => position_offers right) fun _ _ _ _ => rfl
    · exact unary_obeys (fun _ => withLive_offers right fun _ _ _ _ => replyVector_offers _)
        fun _ _ _ _ => rfl
    · exact unary_obeys (fun _ => nearestObjects_offers right) fun _ _ _ _ => rfl
  binaries := by
    intro command member left right
    simp only [object, List.mem_cons, List.not_mem_nil, or_false] at member
    rcases member with rfl | rfl | rfl | rfl | rfl | rfl | rfl | rfl | rfl | rfl | rfl
    · refine binary_obeys (fun _ => withLiveOr_offers left ?_ (.ofPlain rfl) fun _ _ _ _ =>
        reply_offers (.ofPlain rfl)) fun _ _ _ _ => rfl
      rintro fault ⟨⟩
      rfl
    · exact binary_obeys (fun _ => reply_offers (.ofPlain rfl)) fun _ _ _ _ => rfl
    · exact binary_obeys (fun _ => kindOfInConfig_offers left right) fun _ _ _ _ => rfl
    · exact binary_obeys_plan (setData_follows left _)
        (fun _ => setData_sanctioned left fun _ => rfl) (fun _ _ _ _ => rfl) fun _ _ => rfl
    · exact binary_obeys_plan (setData_follows left _)
        (fun _ => setData_sanctioned left fun _ => rfl) (fun _ _ _ _ => rfl) fun _ _ => rfl
    · refine setVector_obeys ?_ left right
      exact fun _ _ => rfl
    · refine setVector_obeys ?_ left right
      exact fun _ _ => rfl
    · exact binary_obeys_plan (moveUnit_follows left right)
        (fun _ => moveUnit_sanctioned left right) (fun _ _ _ _ => rfl) fun _ _ => rfl
    · exact moveUnits_obeys left right
    · exact binary_obeys (fun _ => measure_offers _ _ left right) fun _ _ _ _ => rfl
    · exact binary_obeys (fun _ => measure_offers _ _ left right) fun _ _ _ _ => rfl

/-! ## Crews and groups -/

theorem crew_offers (right : Value) : (crew right exec).Offers exec operands := by
  refine withLive_offers right fun ref data _ found => .ite (fun _ => ?_) fun _ => ?_
  · refine .after (.raise _ trivial rfl) fun _ => .after (.note rfl trivial) fun _ => ?_
    exact replyArray_offers (by simp)
  · exact replyObjects_offers fun other member => .listed found (List.mem_filter.mp member).1

theorem mem_listed_of_seat {data : ObjectData} {seat : Seat} {ref : ObjectRef}
    (sits : data.seat seat = some ref) : ref ∈ data.listed := by
  cases seat <;> simp_all [ObjectData.seat, ObjectData.listed]

theorem held_operand {value : Value} {ref : ObjectRef} (same : value = .object ref)
    (member : value ∈ operands) : Value.Held exec.world.store operands (.object ref) :=
  same ▸ .ofOperand member

theorem occupant_offers (seat : Seat) (right : Value) :
    (occupant seat right exec).Offers exec [right] := by
  refine withLive_offers right fun ref data same found => .ite (fun _ => ?_) fun _ => ?_
  · exact failWith_offers _ (held_operand same (by simp)) rfl
  · refine reply_offers (.ofMentioned ?_)
    cases sits : (data.seat seat).filter fun other => !(objectsOf exec).isNull other with
    | none => exact .null rfl
    | some other => exact .listed found (mem_listed_of_seat (Option.filter_eq_some_iff.mp sits).1)

theorem vehicleOr_offers {fallback : ObjectRef → ObjectRef} (right : Value)
    (held : ∀ ref, right = .object ref →
      Value.Held exec.world.store operands (.object (fallback ref))) :
    (vehicleOr fallback right exec).Offers exec operands := by
  refine withLive_offers right fun ref _ same _ => reply_offers ?_
  cases found : (objectsOf exec).vehicleOf? ref with
  | none => exact held ref same
  | some vehicle => exact .ofMentioned (mentions_of_live (List.mem_of_find?_eq_some found))

def IsLive (exec : Execution) (value : Value) (kind : ObjectKind) : Prop :=
  value = .object value.objectRef ∧ value.objectRef.kind = kind ∧
    (objectsOf exec).isNull value.objectRef = false

theorem expectKind_runs {value : Value} {kind : ObjectKind} {unexpected : Fault}
    (unreserved : Message.isReserved unexpected = false) :
    (expectKind exec value kind unexpected).Runs fun found =>
      found = true → IsLive exec value kind := by
  refine .ite (fun _ => .recover _ nofun rfl) fun present => ?_
  refine .ite (fun _ => ?_) fun alike => ?_
  · exact .after (.raise _ trivial unreserved) fun _ =>
      .after (.note rfl trivial) fun _ => .pure nofun
  · obtain ⟨data, found⟩ : ∃ data, dataOf? exec value = some data :=
      Option.ne_none_iff_exists'.mp (by simpa using present)
    have there : (objectsOf exec).get? value.objectRef = some data := found
    exact .pure fun _ =>
      ⟨eq_object_of_get? there, by simpa using alike, by simp [ObjectTable.isNull, there]⟩

theorem expectUnit_runs {value : Value} :
    (expectUnit exec value).Runs fun found => found = true → IsLive exec value .unit :=
  expectKind_runs rfl

theorem expectUnit_graded (value : Value) : (expectUnit exec value).Graded :=
  expectUnit_runs.mono fun _ _ => trivial

theorem expectBoarding_runs {unit vehicle : Value} :
    (expectBoarding exec unit vehicle).Runs fun found =>
      found = true → IsLive exec unit .unit ∧ IsLive exec vehicle .vehicle := by
  refine .bind expectUnit_runs fun found isUnit => .ite (fun yes => ?_) fun _ => .pure nofun
  exact (expectKind_runs rfl).mono fun _ isVehicle also => ⟨isUnit yes, isVehicle also⟩

theorem expectBoarding_graded (unit vehicle : Value) :
    (expectBoarding exec unit vehicle).Graded :=
  expectBoarding_runs.mono fun _ _ => trivial

theorem captive_offers (right : Value) : (captive right exec).Offers exec operands :=
  .after (expectUnit_graded _) fun _ =>
    .ite (fun _ => reply_offers (.ofPlain rfl)) fun _ => reply_offers (.ofPlain rfl)

theorem setCaptive_sanctioned (left right : Value) :
    (Plan.setCaptive left right exec).Sanctioned exec operands :=
  .after (expectUnit_graded _) fun _ =>
    .ite (fun _ => update_sanctioned _ fun _ => rfl) fun _ => Plan.nothing_sanctioned

theorem board_sanctioned (seat : Option Seat) (left right : Value) :
    (Plan.board seat left right exec).Sanctioned exec [left, right] := by
  refine .bind expectBoarding_runs fun expected live => ?_
  refine .ite (fun _ => Plan.nothing_sanctioned) fun yes => ?_
  refine .ite (fun _ => Plan.nothing_sanctioned) fun free => Plan.change_sanctioned ?_
  obtain ⟨⟨unit, unitKind, unitLive⟩, vehicle, vehicleKind, vehicleLive⟩ :=
    live (by simpa using yes)
  refine .boarding ⟨unitKind, unitLive, vehicleKind, vehicleLive, ?_⟩
    (held_operand unit (by simp)) (held_operand vehicle (by simp))
  intro wanted member
  obtain rfl : seat = some wanted := member
  exact Bool.eq_false_iff.mpr free

theorem board_obeys (seat : Option Seat) {name : String} (left right : Value) :
    ∃ design, (Binary.mk name .object .object (board seat)).Obeys left right design :=
  binary_obeys_plan (board_follows seat left right) (fun _ => board_sanctioned seat left right)
    (fun _ _ _ _ => rfl) fun _ _ => rfl

theorem isAboard_offers (left right : Value) :
    (isAboard left right exec).Offers exec operands :=
  .after (expectBoarding_graded _ _) fun _ =>
    .ite (fun _ => reply_offers (.ofPlain rfl)) fun _ => reply_offers (.ofPlain rfl)

theorem checkClass_graded (className : String) : (checkClass exec className).Graded := by
  refine .ite (fun _ => ?_) fun _ => .pure trivial
  refine .after (ConfigTree.lookupChecked_graded _ _ _) fun entry => ?_
  cases entry with
  | none => exact .after (.note rfl trivial) fun _ => .pure trivial
  | some _ => exact .pure trivial

theorem create_sanctioned {kind : ObjectKind} (className : String) (point : Vec3)
    {group : Option ObjectRef} {answer : ObjectRef → Value}
    (joins : group.isSome = true → recruits ∧ kind = .unit)
    (answers : ∀ ref, (answer ref).isPlain = true ∨ answer ref = .object ref) :
    (Plan.create exec kind className point group answer).SanctionedIf recruits exec operands := by
  refine .after (checkClass_graded _) fun _ =>
    .ite (fun _ => ?_) fun _ => Plan.nothing_sanctioned
  refine .pure ⟨⟨⟨rfl, rfl⟩, joins⟩, ?_⟩
  exact (answers ((objectsOf exec).next kind)).imp Value.Held.ofPlain id

theorem createVehicle_sanctioned (left right : Value) :
    (Plan.createVehicle left right exec).Sanctioned exec operands :=
  atPoint_sanctioned (readTriple_graded _ _) fun _ => create_sanctioned _ _ nofun fun _ => .inr rfl

theorem createVehicleFrom_sanctioned (right : Value) :
    (Plan.createVehicleFrom right exec).Sanctioned exec operands := by
  refine .after (Check.sizeBetween_graded _ _ _ _) fun _ =>
    .ite (fun _ => Plan.nothing_sanctioned) fun _ => ?_
  refine .after (Check.types_graded _ _ _) fun _ =>
    .ite (fun _ => Plan.nothing_sanctioned) fun _ => ?_
  exact atPoint_sanctioned (readNestedTriple_graded _ _ _) fun _ =>
    create_sanctioned _ _ nofun fun _ => .inr rfl

theorem createMember_sanctioned (joins : recruits) (left right : Value) :
    (Plan.createMember left right exec).SanctionedIf recruits exec operands := by
  refine ifLive_sanctioned left _ (.after (Check.size_graded _ _ _) fun _ => ?_)
  refine .ite (fun _ => Plan.nothing_sanctioned) fun _ => ?_
  refine .after (Check.types_graded _ _ _) fun _ =>
    .ite (fun _ => Plan.nothing_sanctioned) fun _ => ?_
  exact atPoint_sanctioned (readNestedTriple_graded _ _ _) fun _ =>
    create_sanctioned _ _ (fun _ => ⟨joins, rfl⟩) fun _ => .inr rfl

theorem createUnit_sanctioned (joins : recruits) (left right : Value) :
    (Plan.createUnit left right exec).SanctionedIf recruits exec operands := by
  refine .after (Check.sizeAtLeast_graded _ _ _) fun _ =>
    .ite (fun _ => Plan.nothing_sanctioned) fun _ => ?_
  refine .after (Check.types_graded _ _ _) fun _ =>
    .ite (fun _ => Plan.nothing_sanctioned) fun _ => ?_
  exact atPoint_sanctioned (readNestedTriple_graded _ _ _) fun _ =>
    ifLive_sanctioned _ _ (create_sanctioned _ _ (fun _ => ⟨joins, rfl⟩) fun _ => .inl rfl)

theorem createGroup_sanctioned (right : Value) :
    (Plan.createGroup right exec).Sanctioned exec operands := by
  refine .pure ⟨⟨?_, nofun⟩, .inr rfl⟩
  cases right <;> exact ⟨rfl, rfl⟩

theorem deleteVehicle_sanctioned (right : Value) :
    (Plan.deleteVehicle right exec).Sanctioned exec operands :=
  ifLive_sanctioned right _ (Plan.change_sanctioned trivial)

theorem deleteGroup_sanctioned (right : Value) :
    (Plan.deleteGroup right exec).Sanctioned exec operands :=
  ifLive_sanctioned right _ <|
    .ite (fun _ => Plan.fail_sanctioned _ rfl) fun _ => Plan.change_sanctioned trivial

theorem members_offers (right : Value) :
    (replyArray (((dataOf? exec right).map (members (objectsOf exec))).getD []
      |>.map objectValue)).Offers exec operands := by
  refine replyObjects_offers fun ref member => ?_
  cases found : dataOf? exec right with
  | none => simp [found] at member
  | some data =>
      have inCrew : ref ∈ data.crew := by
        simp only [found, Option.map_some, Option.getD_some] at member
        exact (List.mem_filter.mp member).1
      exact .listed found (List.mem_append_right _ inCrew)

theorem crews_obeys : crews.Obeys where
  nulars := by simp [crews]
  unaries := by
    intro command member right
    simp only [crews, List.mem_cons, List.not_mem_nil, or_false] at member
    rcases member with
      rfl | rfl | rfl | rfl | rfl | rfl | rfl | rfl | rfl | rfl | rfl | rfl
    · exact unary_obeys (fun _ => crew_offers right) fun _ _ _ _ => rfl
    · exact unary_obeys (fun _ => occupant_offers _ right) fun _ _ _ _ => rfl
    · exact unary_obeys (fun _ => occupant_offers _ right) fun _ _ _ _ => rfl
    · exact unary_obeys (fun _ => occupant_offers _ right) fun _ _ _ _ => rfl
    · exact unary_obeys (fun _ => vehicleOr_offers right fun _ same => held_operand same (by simp))
        fun _ _ _ _ => rfl
    · exact unary_obeys (fun _ => vehicleOr_offers right fun _ _ => .ofMentioned (.null rfl))
        fun _ _ _ _ => rfl
    · exact unary_obeys (fun _ => captive_offers right) fun _ _ _ _ => rfl
    · exact unary_obeys_plan (createVehicleFrom_follows right)
        (fun _ => createVehicleFrom_sanctioned right) (fun _ _ _ _ => rfl) fun _ _ => rfl
    · exact unary_obeys_plan (deleteVehicle_follows right)
        (fun _ => deleteVehicle_sanctioned right) (fun _ _ _ _ => rfl) fun _ _ => rfl
    · exact unary_obeys_plan (createGroup_follows right)
        (fun _ => createGroup_sanctioned right) (fun _ _ _ _ => rfl) fun _ _ => rfl
    · exact unary_obeys_plan (deleteGroup_follows right)
        (fun _ => deleteGroup_sanctioned right) (fun _ _ _ _ => rfl) fun _ _ => rfl
    · exact unary_obeys (fun _ => members_offers right) fun _ _ _ _ => rfl
  binaries := by
    intro command member left right
    simp only [crews, List.mem_cons, List.not_mem_nil, or_false] at member
    rcases member with rfl | rfl | rfl | rfl | rfl | rfl | rfl | rfl | rfl | rfl
    · exact binary_obeys_plan (setCaptive_follows left right)
        (fun _ => setCaptive_sanctioned left right) (fun _ _ _ _ => rfl) fun _ _ => rfl
    · exact board_obeys _ left right
    · exact board_obeys _ left right
    · exact board_obeys _ left right
    · exact board_obeys _ left right
    · exact binary_obeys (fun _ => isAboard_offers left right) fun _ _ _ _ => rfl
    · exact binary_obeys_plan (createVehicle_follows left right)
        (fun _ => createVehicle_sanctioned left right) (fun _ _ _ _ => rfl) fun _ _ => rfl
    · exact binary_obeys_plan (createVehicle_follows left right)
        (fun _ => createVehicle_sanctioned left right) (fun _ _ _ _ => rfl) fun _ _ => rfl
    · exact createUnit_obeys_plan (createMember_follows left right)
        (fun _ => createMember_sanctioned trivial left right) (fun _ _ _ _ => rfl) fun _ _ => rfl
    · exact createUnit_obeys_plan (createUnit_follows left right)
        (fun _ => createUnit_sanctioned trivial left right) (fun _ _ _ _ => rfl) fun _ _ => rfl

end SimScript.Command
