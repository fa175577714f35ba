import SimScript.Command.Config
import SimScript.Proofs.Command.Obedience
import SimScript.Proofs.Plan.Bridges

/-!
# Commands on the config tree, extensions and sessions

What lies outside the machine is looked up, called and connected to by work that is
graded whatever it answers, and the commands on it obey sanctioned plans.
-/

namespace SimScript

theorem ConfigTree.lookupChecked_graded (tree : ConfigTree) (path : List String)
    (strength : Strength) : (tree.lookupChecked path strength).Graded := by
  unfold ConfigTree.lookupChecked
  split
  · exact .recover _ trivial rfl
  · exact .pure trivial

/-- An exchange that always settles is graded, whatever a failure of the host would make of it. -/
theorem Extension.Exchange.run_graded {failure α : Type} {exchange : Exchange failure α}
    {post : Registry failure → Except failure α → Registry failure → Prop}
    (settles : ∀ registry, exchange.Settles registry (post registry)) :
    exchange.run.Graded := by
  intro registry
  have rehearsed (site : Site) : ∃ outcome events after,
      Work.rehearse exchange.run registry site = ⟨.ok (outcome, after), events⟩ ∧
        ∀ event ∈ events, event.message.Mild := by
    obtain ⟨outcome, events, after, run, _, mild⟩ := (settles registry).each site
    exact ⟨outcome, events, after, by rw [Work.rehearse, run]; rfl, mild⟩
  refine ⟨fun site => ?_, fun site logger => ?_⟩
  · obtain ⟨outcome, events, after, comes, mild⟩ := rehearsed site
    rw [comes]
    refine ⟨?_, Checked.closes_of_ok rfl, fun _ _ => trivial, fun event member => ?_⟩
    · exact List.filterMap_eq_nil_iff.mpr fun event member => mild event member
    · exact (mild event member).unreserved
  · rw [Work.rehearse, Work.rehearse, (settles registry).blind site logger]

namespace Extension.Registry

variable {failure : Type}

theorem call_graded (name function : String) :
    (call name function : Exchange failure _).run.Graded :=
  Exchange.run_graded fun _ => call_settles _ _ _

theorem callArgs_graded (name function : String) (args : List String) :
    (callArgs name function args : Exchange failure _).run.Graded :=
  Exchange.run_graded fun _ => callArgs_settles _ _ _ _

end Extension.Registry

theorem Network.SessionTable.connect_graded (enabled : Bool) (text : String) :
    (connect enabled text).Graded := by
  unfold connect
  refine .ite (fun _ => .bind (.lift (.raise _ trivial rfl)) fun _ => .pure _) fun _ => ?_
  split
  · exact .bind (.lift (.raise _ trivial rfl)) fun _ => .pure _
  · refine .bind .get fun table => .ite (fun _ => ?_) fun _ => ?_
    · exact .bind (.lift (.raise _ trivial rfl)) fun _ => .pure _
    · refine .bind .get fun table => .bind (.modify _) fun _ => .bind (.modifyGet _) fun state => ?_
      refine .bind (.modify _) fun _ => .ite (fun _ => ?_) fun _ => .pure _
      exact .bind (.lift (.raise _ trivial rfl)) fun _ => .pure _

namespace Command

variable {exec : Execution} {operands : List Value}

/-! ## The config tree -/

theorem navigate_offers (left right : Value) :
    (navigate left right exec).Offers exec operands := by
  unfold navigate
  split
  · refine .after (ConfigTree.lookupChecked_graded _ _ _) fun entry => ?_
    cases entry with
    | none => exact .after (.note rfl trivial) fun _ => reply_offers (.ofPlain rfl)
    | some _ => exact reply_offers (.ofPlain rfl)
  · exact reply_offers (.ofPlain rfl)

theorem readEntry_offers (expected : ValueType) {notice : Fault} {fallback : Reply}
    (mild : Message.Mild notice)
    (sanctioned : fallback.Sanctioned (Value.Held exec.world.store operands)) (right : Value) :
    (readEntry expected notice fallback right exec).Offers exec operands := by
  have missing : (do
      Report.note notice
      return fallback : Report Reply).Offers exec operands :=
    .after (.note mild trivial) fun _ => .pure sanctioned
  unfold readEntry
  split
  · exact missing
  · exact .after (.raise _ trivial rfl) fun _ => missing
  · refine .ite (fun _ => .pure trivial) fun _ => ?_
    exact .after (.raise _ trivial rfl) fun _ => missing

theorem config_obeys : config.Obeys where
  nulars := by
    intro command member
    simp only [config, List.mem_cons, List.not_mem_nil, or_false] at member
    rcases member with rfl | rfl
    all_goals exact nular_obeys (fun _ => reply_offers (.ofPlain rfl)) fun _ _ _ _ => rfl
  unaries := by
    intro command member right
    simp only [config, List.mem_cons, List.not_mem_nil, or_false] at member
    rcases member with rfl | rfl | rfl | rfl | rfl | rfl | rfl | rfl
    · refine unary_obeys (fun _ => readEntry_offers _ ?_ ?_ right) fun _ _ _ _ => rfl
      · rfl
      · exact Value.Held.ofPlain rfl
    · refine unary_obeys (fun _ => readEntry_offers _ ?_ ?_ right) fun _ _ _ _ => rfl
      · rfl
      · exact Value.Held.ofPlain rfl
    · refine unary_obeys (fun _ => readEntry_offers _ ?_ ?_ right) fun _ _ _ _ => rfl
      · rfl
      · simp [Reply.Sanctioned]
    · exact unary_obeys (fun _ => reply_offers (.ofPlain rfl)) fun _ _ _ _ => rfl
    · exact unary_obeys (fun _ => reply_offers (.ofPlain rfl)) fun _ _ _ _ => rfl
    · exact unary_obeys (fun _ => reply_offers (.ofPlain rfl)) fun _ _ _ _ => rfl
    · exact unary_obeys (fun _ => reply_offers (.ofPlain rfl)) fun _ _ _ _ => rfl
    · refine unary_obeys (fun _ => ?_) fun _ _ _ _ => rfl
      cases right <;> exact reply_offers (.ofPlain rfl)
  binaries := by
    intro command member left right
    simp only [config, List.mem_cons, List.not_mem_nil, or_false] at member
    rcases member with rfl | rfl
    all_goals exact binary_obeys (fun _ => navigate_offers left right) fun _ _ _ _ => rfl

/-! ## Extensions -/

theorem callPlain_sanctioned (left right : Value) :
    (Plan.callPlain left right exec).Sanctioned exec operands := by
  refine .after (Extension.Registry.call_graded _ _ exec.world.extensions) ?_
  rintro ⟨outcome, extensions⟩
  cases outcome with
  | ok output => exact Plan.answer_sanctioned trivial (Value.Held.ofPlain rfl)
  | error what => exact what.elim

theorem callWithArgs_sanctioned (left right : Value) :
    (Plan.callWithArgs left right exec).Sanctioned exec operands := by
  refine .after (Check.size_graded _ _ _) fun _ => .after (Check.types_graded _ _ _) fun _ => ?_
  refine .after (Extension.Registry.callArgs_graded _ _ _ exec.world.extensions) ?_
  rintro ⟨outcome, extensions⟩
  cases outcome with
  | error what => exact what.elim
  | ok answer =>
      obtain ⟨output, code⟩ := answer
      refine .when (.note rfl trivial) (Plan.answer_sanctioned trivial ?_)
      intro item member
      simp only [List.mem_cons, List.not_mem_nil, or_false] at member
      rcases member with rfl | rfl | rfl
      all_goals exact .ofPlain rfl

theorem extension_obeys : extension.Obeys where
  nulars := by simp [extension]
  unaries := by simp [extension]
  binaries := by
    intro command member left right
    simp only [extension, List.mem_cons, List.not_mem_nil, or_false] at member
    rcases member with rfl | rfl
    · exact binary_obeys_plan (callPlain_follows left right)
        (fun _ => callPlain_sanctioned left right) (fun _ _ _ _ => rfl) fun _ _ => rfl
    · exact binary_obeys_plan (callWithArgs_follows left right)
        (fun _ => callWithArgs_sanctioned left right) (fun _ _ _ _ => rfl) fun _ _ => rfl

/-! ## Sessions -/

theorem connectTo_sanctioned (right : Value) :
    (Plan.connectTo right exec).Sanctioned exec operands := by
  refine .bind (.somewhere (Network.SessionTable.connect_graded _ _ exec.world.network)) ?_
  rintro ⟨session, table⟩ ⟨site, rehearsed⟩
  refine Plan.answer_sanctioned ?_ (held_countOrMinusOne _)
  obtain ⟨events, connected⟩ := Work.of_rehearse rehearsed
  exact .connect connected

theorem disconnect_sanctioned (right : Value) :
    (Plan.disconnect right exec).Sanctioned exec operands := by
  unfold Plan.disconnect
  split
  · exact Plan.answer_sanctioned trivial (Value.Held.ofPlain rfl)
  case h_2 id _ => exact Plan.answer_sanctioned (.disconnect id) (Value.Held.ofPlain rfl)

theorem network_obeys : network.Obeys where
  nulars := by simp [network]
  unaries := by
    intro command member right
    simp only [network, List.mem_cons, List.not_mem_nil, or_false] at member
    rcases member with rfl | rfl | rfl
    · exact unary_obeys_plan (connectTo_follows right) (fun _ => connectTo_sanctioned right)
        (fun _ _ _ _ => rfl) fun _ _ => rfl
    · exact unary_obeys (fun _ => reply_offers (.ofPlain rfl)) fun _ _ _ _ => rfl
    · exact unary_obeys_plan (disconnect_follows right) (fun _ => disconnect_sanctioned right)
        (fun _ _ _ _ => rfl) fun _ _ => rfl
  binaries := by simp [network]

end Command

end SimScript
