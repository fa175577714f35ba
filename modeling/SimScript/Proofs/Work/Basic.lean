import SimScript.Proofs.Report.Grading
import SimScript.Work

/-!
# Work on a state

What work comes to, put together from what its parts come to.  Work that is graded for
every state it may begin in is so by the rules for checks, because changing the state is no
event.
-/

namespace SimScript

theorem Site.after_nil (site : Site) : site.after [] = site := rfl

namespace Work

variable {σ τ α β : Type} {work : Work σ α} {next : α → Work σ β} {site : Site} {state after : σ}
  {value : α} {events : List Event}

theorem pure_apply (value : α) (site : Site) (state : σ) :
    (pure value : Work σ α) site state = (⟨.ok value, []⟩, state) := rfl

theorem lift_apply (report : Report α) (site : Site) (state : σ) :
    (liftM report : Work σ α) site state = (report site, state) := rfl

theorem get_apply (site : Site) (state : σ) :
    (get : Work σ σ) site state = (⟨.ok state, []⟩, state) := rfl

theorem bind_of_ok (worked : work site state = (⟨.ok value, events⟩, after)) :
    (work >>= next) site state =
      (⟨(next value (site.after events) after).1.result,
        events ++ (next value (site.after events) after).1.events⟩,
        (next value (site.after events) after).2) := by
  simp only [Bind.bind, worked]

theorem bind_of_silent (worked : work site state = (⟨.ok value, []⟩, after)) :
    (work >>= next) site state = next value site after := by
  rw [bind_of_ok worked, Site.after_nil]
  rfl

theorem bind_of_error {abort : Abort}
    (worked : work site state = (⟨.error abort, events⟩, after)) :
    (work >>= next) site state = (⟨.error abort, events⟩, after) := by
  simp only [Bind.bind, worked]

instance : LawfulMonad (Work σ) := by
  refine LawfulMonad.mk' (Work σ) ?_ ?_ ?_
  · intro α work
    funext site state
    change (work >>= pure) site state = work site state
    rcases worked : work site state with ⟨⟨result, events⟩, after⟩
    cases result with
    | error abort => rw [bind_of_error worked]
    | ok value => rw [bind_of_ok worked, pure_apply, List.append_nil]
  · intro α β value next
    funext site state
    rw [bind_of_silent (pure_apply value site state)]
  · intro α β γ work next last
    funext site state
    rcases worked : work site state with ⟨⟨result, events⟩, after⟩
    cases result with
    | error abort =>
        rw [bind_of_error (bind_of_error worked), bind_of_error worked]
    | ok value =>
        rcases later : next value (site.after events) after with ⟨⟨result, more⟩, final⟩
        have both : (work >>= next) site state = (⟨result, events ++ more⟩, final) := by
          rw [bind_of_ok worked, later]
        rw [bind_of_ok worked]
        cases result with
        | error abort => rw [bind_of_error both, bind_of_error later]
        | ok second =>
            rw [bind_of_ok both, bind_of_ok later, Site.after_append, List.append_assoc]

/-- What the work would come to, and the state that it would leave, as a check. -/
def rehearse (work : Work σ α) (state : σ) : Report (α × σ) := fun site =>
  let (checked, after) := work site state
  ⟨checked.result.map fun value => (value, after), checked.events⟩

theorem of_rehearse (rehearsed : (work.rehearse state site).result = .ok (value, after)) :
    ∃ events, work site state = (⟨.ok value, events⟩, after) := by
  rcases worked : work site state with ⟨⟨result, events⟩, left⟩
  cases result with
  | error abort => simp [rehearse, worked, Except.map] at rehearsed
  | ok other =>
      obtain ⟨rfl, rfl⟩ : other = value ∧ left = after := by
        simpa [rehearse, worked, Except.map] using rehearsed
      exact ⟨events, rfl⟩

def Graded (work : Work σ α) : Prop :=
  ∀ state, (work.rehearse state).Graded

theorem rehearse_bind (work : Work σ α) (next : α → Work σ β) (state : σ) :
    (work >>= next).rehearse state =
      work.rehearse state >>= fun done => (next done.1).rehearse done.2 := by
  funext site
  cases worked : work site state with
  | mk checked after =>
    obtain ⟨result, events⟩ := checked
    have rehearsed : work.rehearse state site =
        ⟨result.map fun value => (value, after), events⟩ := by
      rw [rehearse, worked]
    cases result with
    | error abort =>
        rw [Report.bind_of_error (by rw [rehearsed]; rfl), rehearsed, rehearse,
          bind_of_error worked]
        rfl
    | ok value =>
        rw [Report.bind_of_ok (by rw [rehearsed]; rfl), rehearsed, rehearse, bind_of_ok worked]
        rfl

namespace Graded

theorem pure (value : α) : (pure value : Work σ α).Graded :=
  fun _ => .pure trivial

theorem bind (first : work.Graded) (second : ∀ value, (next value).Graded) :
    (work >>= next).Graded := by
  intro state
  rw [rehearse_bind]
  exact .after (first state) fun done => second done.1 done.2

theorem get : (get : Work σ σ).Graded :=
  fun _ => .pure trivial

theorem modify (change : σ → σ) : (modify change : Work σ PUnit).Graded :=
  fun _ => .pure trivial

theorem modifyGet (change : σ → α × σ) : (modifyGet change : Work σ α).Graded :=
  fun _ => .pure trivial

theorem lift {report : Report α} (graded : report.Graded) : (liftM report : Work σ α).Graded := by
  intro state
  have rehearsed : (liftM report : Work σ α).rehearse state =
      (fun value => (value, state)) <$> report := by
    funext site
    rw [Report.map_apply]
    rfl
  rw [rehearsed, ← bind_pure_comp]
  exact .after graded fun _ => .pure trivial

theorem ite {condition : Prop} [Decidable condition] {first second : Work σ α}
    (holds : condition → first.Graded) (fails : ¬condition → second.Graded) :
    (if condition then first else second).Graded := by
  split
  case isTrue choice => exact holds choice
  case isFalse choice => exact fails choice

theorem onPart {part : σ → τ} {put : τ → σ → σ} {work : Work τ α} (graded : work.Graded) :
    (onPart part put work).Graded := by
  intro state
  have rehearsed : (Work.onPart part put work).rehearse state =
      (fun done => (done.1, put done.2 state)) <$> work.rehearse (part state) := by
    funext site
    rw [Report.map_apply]
    cases worked : work site (part state) with
    | mk checked after =>
      obtain ⟨result, events⟩ := checked
      cases result <;> simp [rehearse, Work.onPart, worked, Except.map]
  rw [rehearsed, ← bind_pure_comp]
  exact .after (graded _) fun _ => .pure trivial

end Graded

end Work

end SimScript
