import SimScript.Report

/-!
# Work on a state

Checked work that changes a state as it goes.  What has been changed by the time the work
aborts stays changed, so it matters which checks are made before a change and which after.
-/

namespace SimScript

/-- Checked work on a state, where it raises its events and in which state it begins: what it comes
to, and the state that it leaves. -/
def Work (σ α : Type) : Type :=
  Site → σ → Checked α × σ

namespace Work

variable {σ τ α : Type}

instance : Monad (Work σ) where
  pure value := fun _ state => (⟨.ok value, []⟩, state)
  bind work next := fun site state =>
    let (first, middle) := work site state
    match first.result with
    | .error abort => (⟨.error abort, first.events⟩, middle)
    | .ok value =>
        let (second, last) := next value (site.after first.events) middle
        (⟨second.result, first.events ++ second.events⟩, last)

instance : MonadLift Report (Work σ) where
  monadLift report := fun site state => (report site, state)

instance : MonadStateOf σ (Work σ) where
  get := fun _ state => (⟨.ok state, []⟩, state)
  set state := fun _ _ => (⟨.ok (), []⟩, state)
  modifyGet change := fun _ state => (⟨.ok (change state).1, []⟩, (change state).2)

def onPart (part : σ → τ) (put : τ → σ → σ) (work : Work τ α) : Work σ α := fun site state =>
  let (checked, after) := work site (part state)
  (checked, put after state)

end Work

end SimScript
