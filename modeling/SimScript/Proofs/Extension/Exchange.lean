import SimScript.Extension.Registry
import SimScript.Proofs.Work.Basic

/-!
# Exchanges with extensions

What an exchange comes to, put together from what its parts come to: a failure of the host
ends it, and then the parts that would follow are left out.
-/

namespace SimScript.Extension.Exchange

variable {failure α β : Type} {registry : Registry failure}

/-- An exchange that is never given up: from a registry, it comes to what has the property `post`,
reports nothing above a warning and never looks at the log. -/
structure Settles (exchange : Exchange failure α) (registry : Registry failure)
    (post : Except failure α → Registry failure → Prop) : Prop where
  each : ∀ site, ∃ outcome events after,
    exchange.run site registry = (⟨.ok outcome, events⟩, after) ∧ post outcome after ∧
      ∀ event ∈ events, event.message.Mild
  blind : ∀ (site : Site) logger,
    exchange.run { site with logger } registry = exchange.run site registry

namespace Settles

variable {exchange : Exchange failure α} {next : α → Exchange failure β} {message : Message}
  {post : Except failure α → Registry failure → Prop}
  {last : Except failure β → Registry failure → Prop}

theorem mono {weaker : Except failure α → Registry failure → Prop}
    (settles : exchange.Settles registry post)
    (implies : ∀ outcome after, post outcome after → weaker outcome after) :
    exchange.Settles registry weaker where
  each site :=
    have ⟨outcome, events, after, run, holds, mild⟩ := settles.each site
    ⟨outcome, events, after, run, implies outcome after holds, mild⟩
  blind := settles.blind

theorem bind (first : exchange.Settles registry post)
    (second : ∀ value after, post (.ok value) after → (next value).Settles after last)
    (ended : ∀ what after, post (.error what) after → last (.error what) after) :
    (exchange >>= next).Settles registry last := by
  constructor
  · intro site
    obtain ⟨outcome, events, after, run, holds, mild⟩ := first.each site
    rw [ExceptT.run_bind, Work.bind_of_ok run]
    cases outcome with
    | error what =>
        dsimp only
        rw [Work.pure_apply]
        exact ⟨_, _, _, rfl, ended what after holds, by simpa using mild⟩
    | ok value =>
        obtain ⟨final, more, end_, ran, post, mildLater⟩ :=
          (second value after holds).each (site.after events)
        dsimp only
        rw [ran]
        exact ⟨_, _, _, rfl, post, List.forall_mem_append.mpr ⟨mild, mildLater⟩⟩
  · intro site logger
    obtain ⟨outcome, events, after, run, holds, _⟩ := first.each site
    rw [ExceptT.run_bind, Work.bind_of_ok run,
      Work.bind_of_ok ((first.blind site logger).trans run)]
    cases outcome with
    | error what => rfl
    | ok value =>
        have same : (next value).run (Site.after { site with logger } events) after =
            (next value).run (site.after events) after :=
          (second value after holds).blind (site.after events) _
        dsimp only
        rw [same]

theorem pure {value : α} (holds : post (.ok value) registry) :
    (pure value : Exchange failure α).Settles registry post :=
  ⟨fun _ => ⟨.ok value, [], registry, rfl, holds, by simp⟩, fun _ _ => rfl⟩

theorem throw {what : failure} (holds : post (.error what) registry) :
    (throw what : Exchange failure α).Settles registry post :=
  ⟨fun _ => ⟨.error what, [], registry, rfl, holds, by simp⟩, fun _ _ => rfl⟩

private theorem step (message? : Option Message) {value : α} {after : Registry failure}
    (run : ∀ site, exchange.run site registry =
      (⟨.ok (.ok value), message?.toList.map fun message => ⟨message, site.location⟩⟩, after))
    (mild : ∀ message ∈ message?, message.Mild) (rest : (next value).Settles after last) :
    (exchange >>= next).Settles registry last := by
  have settles : exchange.Settles registry fun outcome later =>
      outcome = .ok value ∧ later = after := by
    refine ⟨fun site => ⟨_, _, _, run site, ⟨rfl, rfl⟩, ?_⟩, fun site logger => ?_⟩
    · cases message? with
      | none => simp
      | some message => exact List.forall_mem_singleton.mpr (mild message rfl)
    · rw [run, run]
  refine settles.bind ?_ ?_
  · rintro _ _ ⟨⟨⟩, rfl⟩
    exact rest
  · rintro what later ⟨⟨⟩, _⟩

theorem look {next : Registry failure → Exchange failure β}
    (rest : (next registry).Settles registry last) :
    (do next (← get) : Exchange failure β).Settles registry last :=
  step none (fun _ => rfl) (by simp) rest

theorem change {update : Registry failure → Registry failure} {next : PUnit → Exchange failure β}
    (rest : (next ()).Settles (update registry) last) :
    (modify update >>= next : Exchange failure β).Settles registry last :=
  step none (fun _ => rfl) (by simp) rest

theorem ask {update : Registry failure → α × Registry failure}
    (rest : (next (update registry).1).Settles (update registry).2 last) :
    (modifyGet update >>= next : Exchange failure β).Settles registry last :=
  step none (fun _ => rfl) (by simp) rest

theorem raise {next : Unit → Exchange failure β} (mild : message.Mild)
    (rest : (next ()).Settles registry last) :
    (do next (← Report.raise message) : Exchange failure β).Settles registry last := by
  refine step (some message) (fun site => ?_) (by simpa using mild) rest
  have raised : Report.raise message site = ⟨.ok (), [⟨message, site.location⟩]⟩ := by
    rw [Message.Mild] at mild
    simp only [Report.raise, mild]
  change (liftM (Report.raise message) >>= fun value => Pure.pure (Except.ok value) : Work _ _)
    site registry = _
  rw [Work.bind_of_ok (by rw [Work.lift_apply, raised]), Work.pure_apply]
  rfl

theorem note {next : Unit → Exchange failure β} (mild : message.Mild)
    (rest : (next ()).Settles registry last) :
    (do next (← Report.note message) : Exchange failure β).Settles registry last :=
  step (some message) (fun _ => rfl) (by simpa using mild) rest

theorem when {condition : Prop} [Decidable condition] {work : Exchange failure β}
    (mild : message.Mild) (rest : work.Settles registry last) :
    (if condition then do Report.raise message; work else work).Settles registry last := by
  split
  case isTrue => exact raise mild rest
  case isFalse => exact rest

end Settles

end SimScript.Extension.Exchange
