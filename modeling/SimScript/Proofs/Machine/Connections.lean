import SimScript.Proofs.Execution.Calls
import SimScript.Proofs.Execution.Resources
import SimScript.Proofs.Machine.Course
import SimScript.Proofs.Network.Sessions

/-!
# Connections

Scripts and the host share the sessions.  Whatever they ask for and in whatever order,
numbers are not given twice and no session is forgotten.  No two sessions to one target
are up unless the host sets the state of one beside another that is up.
-/

namespace SimScript

/-- What becomes of the sessions in one go; `sets` says which states the host may set. -/
inductive Network.SessionTable.Passes (sets : SessionId → ConnectionState → Prop)
    (before : SessionTable) : SessionTable → Prop where
  | asked {after : SessionTable} (asked : Relation.ReflTransGen Asked before after) :
      Passes sets before after
  | equip (connector : Connector) : Passes sets before { before with connector := some connector }
  | setState {id : SessionId} {state : ConnectionState} (allowed : sets id state) :
      Passes sets before (before.setState id state).2

/-- An operation that, if it sets the state of a session, does not do so beside another session to
its target that is up. -/
def World.SetsApart (world : World) : Operation → Prop
  | .setState id state => ¬world.network.RaisesBeside id state
  | _ => True

/-- Connecting is rejected, for a reason that is reported as a fault. -/
inductive Network.SessionTable.Rejects (table : SessionTable) (text : String) : Fault → Prop where
  | malformed (unread : Target.parse? text = none) :
      Rejects table text (.networkingFormatMismatch text)
  | occupied {target : Target} (named : Target.parse? text = some target)
      (active : table.isActive target = true) : Rejects table text .alreadyConnected

namespace Network.SessionTable

variable {table before after : SessionTable} {text : String} {fault : Fault} {site : Site}
  {sets : SessionId → ConnectionState → Prop}

theorem Passes.exclusive (passes : before.Passes sets after)
    (apart : ∀ id state, sets id state → ¬before.RaisesBeside id state)
    (exclusive : before.Exclusive) : after.Exclusive := by
  cases passes with
  | asked asked =>
      induction asked with
      | refl => exact exclusive
      | tail _ asked induction => exact asked.exclusive induction
  | equip => exact exclusive.congr rfl
  | setState allowed => exact (exclusive_setState_iff exclusive).mpr (apart _ _ allowed)

theorem Passes.numbered (passes : before.Passes sets after) (numbered : before.Numbered) :
    after.Numbered := by
  cases passes with
  | asked asked =>
      induction asked with
      | refl => exact numbered
      | tail _ asked induction => exact asked.numbered induction
  | equip => exact numbered.congr rfl rfl
  | setState => exact numbered.setState

theorem Passes.continues (passes : before.Passes sets after) : before.Continues after := by
  cases passes with
  | asked asked =>
      induction asked with
      | refl => exact .refl before
      | tail _ asked induction => exact induction.trans asked.continues
  | equip => exact .ofSame rfl rfl
  | setState => exact .ofSame roll_setState rfl

theorem Rejects.connect (rejects : table.Rejects text fault) :
    connect true text site table = (⟨.error .statement, [⟨fault, site.location⟩]⟩, table) := by
  have attempts := table.connect_attempts true text site
  generalize SessionTable.connect true text site table = outcome at attempts ⊢
  cases rejects with
  | malformed unread =>
      cases attempts with
      | malformed => rfl
      | occupied named | opened named => rw [unread] at named; cases named
  | occupied named active =>
      cases attempts with
      | malformed unread => rw [unread] at named; cases named
      | occupied => rfl
      | opened same free =>
          obtain rfl := Option.some.inj (named.symm.trans same)
          rw [active] at free
          cases free

theorem rejects_of_reported {enabled : Bool}
    (rejection : fault = .networkingFormatMismatch text ∨ fault = .alreadyConnected)
    (reported : ⟨fault, site.location⟩ ∈ (connect enabled text site table).1.events) :
    enabled = true ∧ table.Rejects text fault := by
  have attempts := table.connect_attempts enabled text site
  generalize connect enabled text site table = outcome at attempts reported
  cases attempts with
  | disabled =>
      obtain rfl : fault = .networkingDisabled := by simpa using reported
      simp at rejection
  | malformed unread =>
      obtain rfl : fault = .networkingFormatMismatch text := by simpa using reported
      exact ⟨rfl, .malformed unread⟩
  | occupied named active =>
      obtain rfl : fault = .alreadyConnected := by simpa using reported
      exact ⟨rfl, .occupied named active⟩
  | opened _ _ told =>
      obtain rfl : fault = .failedToEstablishConnection := by simpa using told _ reported
      simp at rejection

end Network.SessionTable

namespace Situation

open Network (SessionTable)

variable {permits : Store → Value → Prop} {orderly : World → Operation → Prop}
  {situation before after : Situation}

theorem Next.network (next : before.Next permits after)
    (works : ¬∃ world changed, before = .idle world ∧ after = .idle changed) :
    Relation.ReflTransGen SessionTable.Asked before.world.network after.world.network := by
  by_cases steps : before.Steps after
  · obtain ⟨exec, batch, rfl, rfl⟩ := steps
    exact Execution.moves_network (Execution.advance_moves exec)
  · exact (next.spares works steps).2 ▸ .refl

/-- Whatever is done in one go changes the sessions as scripts ask for, or as the host alone may. -/
theorem Proceeds.network (proceeds : Proceeds permits orderly before after) :
    before.world.network.Passes (fun id state => orderly before.world (.setState id state))
      after.world.network := by
  cases proceeds with
  | work next works => exact .asked (next.network works)
  | @serve machine after _ _ _ done permitted allowed served =>
      obtain ⟨world⟩ := machine
      obtain ⟨changed⟩ := after
      have made : world.Served permits _ changed := World.served_of_serve done permitted served
      cases made with
      | aside _ _ same => exact same ▸ .asked .refl
      | create | update | destroy | setPlayer => exact .asked .refl
      | sessions asked => exact .asked (.single asked)
      | setConnector connector => exact .equip connector
      | setState => exact .setState allowed

/-- Sessions keep their numbers and targets, whoever is in charge. -/
theorem Leads.network (leads : Leads permits orderly before after)
    (numbered : before.world.network.Numbered) :
    after.world.network.Numbered ∧ before.world.network.Continues after.world.network := by
  induction leads with
  | refl => exact ⟨numbered, .refl _⟩
  | tail _ proceeds induction =>
      have passes := proceeds.network
      exact ⟨passes.numbered induction.1, induction.2.trans passes.continues⟩

theorem Arises.numbered (arises : situation.Arises permits orderly) :
    situation.world.network.Numbered := by
  obtain ⟨settings, leads⟩ := arises
  exact (leads.network ⟨.nil, nofun⟩).1

theorem Arises.exclusive (arises : situation.Arises permits World.SetsApart) :
    situation.world.network.Exclusive :=
  arises.preserved (fun _ => SessionTable.exclusive_empty) fun _ _ exclusive proceeds =>
    proceeds.network.exclusive (fun _ _ apart => apart) exclusive

end Situation

open Network (SessionTable)

theorem Machine.connect_rejected {machine : Machine} {text : String} {fault : Fault}
    (rejection : fault = .networkingFormatMismatch text ∨ fault = .alreadyConnected)
    (reported : ⟨fault, Location.host⟩ ∈ (SessionTable.connect
      machine.world.settings.networkingEnabled text machine.site machine.world.network).1.events) :
    machine.connect text =
      (none, machine.mapLogger fun logger => logger.emitAll #[⟨fault, Location.host⟩]) := by
  obtain ⟨enabled, rejects⟩ := SessionTable.rejects_of_reported rejection reported
  simp only [Machine.connect, enabled, rejects.connect]
  rfl

namespace Command

variable {exec : Execution} {name text : String} {fault : Fault} {site : Site}

theorem unariesOf_connectTo (named : Text.sameName name "connectTo" = true) :
    unariesOf name = [⟨"connectTo", .string, connectTo⟩] := by
  rw [unariesOf, named_sameName unaryTable named]
  rfl

/-- A script that connects comes to what opening the session comes to, and has the table that it
leaves, also where it is given up. -/
theorem connectTo_of_connect {result : Except Abort (Option Network.SessionId)}
    {events : List Event} {network : SessionTable}
    (connected : SessionTable.connect exec.world.settings.networkingEnabled text site
      exec.world.network = (⟨result, events⟩, network)) :
    connectTo (.text text) site exec =
      (⟨result.map fun opened => .value (countOrMinusOne opened), events⟩,
        { exec with world := { exec.world with network } }) := by
  have worked : onNetwork (SessionTable.connect exec.world.settings.networkingEnabled text) site
      exec = (⟨result, events⟩, { exec with world := { exec.world with network } }) := by
    rw [onNetwork, Work.onPart, connected]
  rw [connectTo, Work.bind_of_silent (Work.get_apply site exec)]
  cases result with
  | error abort => exact Work.bind_of_error worked
  | ok opened =>
      rw [Except.map, ← List.append_nil events]
      exact Work.bind_of_ok worked

end Command

namespace Execution

variable {exec : Execution} {name text : String} {fault : Fault}

theorem callUnary_connectTo (named : Text.sameName name "connectTo" = true) :
    exec.callUnary name (.text text) = exec.carryOut (Command.connectTo (.text text)) := by
  unfold callUnary
  rw [Command.unariesOf_connectTo named]
  rfl

theorem callUnary_connectTo_events (named : Text.sameName name "connectTo" = true) :
    (exec.callUnary name (.text text)).1.events = (SessionTable.connect
      exec.world.settings.networkingEnabled text exec.site exec.world.network).1.events := by
  rcases connected : SessionTable.connect exec.world.settings.networkingEnabled text exec.site
    exec.world.network with ⟨⟨result, events⟩, network⟩
  rw [callUnary_connectTo named, carryOut, Command.connectTo_of_connect connected]
  cases result <;> rfl

/-- A script whose connection is rejected gives up its statement, and nothing else happens. -/
theorem callUnary_rejected (named : Text.sameName name "connectTo" = true)
    (rejection : fault = .networkingFormatMismatch text ∨ fault = .alreadyConnected)
    (reported : ⟨fault, exec.location⟩ ∈ (exec.callUnary name (.text text)).1.events) :
    exec.callUnary name (.text text) =
      (⟨.error .statement, [⟨fault, exec.location⟩]⟩, exec) := by
  rw [callUnary_connectTo_events named] at reported
  obtain ⟨enabled, rejects⟩ := SessionTable.rejects_of_reported rejection reported
  have rejected : SessionTable.connect true text exec.site exec.world.network = _ :=
    rejects.connect
  rw [← enabled] at rejected
  rw [callUnary_connectTo named, carryOut, Command.connectTo_of_connect rejected]
  rfl

end Execution

/-- No two sessions to one target are up in any situation that a host brings about that does not set
the state of a session beside another one to its target that is up.  Setting the state of a
session that is up is never like that, and whatever is like that brings two of them up at once.
Whatever the host does, numbers ascend and are never given again, and no session is forgotten.
Connecting that is rejected, by the host or by a script, is reported; the sessions stay as they
were, and the connector is not asked. -/
theorem targets_are_shared_only_where_the_host_raises_a_session_beside_another
    (permits : Store → Value → Prop) (situation : Situation) :
    (situation.Arises permits World.SetsApart → situation.world.network.Exclusive ∧
      ∀ session ∈ situation.world.network.sessions, session.isUp = true →
        ∀ state, situation.world.SetsApart (.setState session.id state)) ∧
    (∀ (table : SessionTable) (id : Network.SessionId) (state : Network.ConnectionState),
      table.Exclusive → ((table.setState id state).2.Exclusive ↔ ¬table.RaisesBeside id state)) ∧
    (∀ (orderly : World → Operation → Prop) (after : Situation),
      situation.Arises permits orderly → situation.Leads permits orderly after →
        after.world.network.Numbered ∧
          situation.world.network.Continues after.world.network) ∧
    (∀ (machine : Machine) (text : String) (fault : Fault),
      fault = .networkingFormatMismatch text ∨ fault = .alreadyConnected →
      ⟨fault, Location.host⟩ ∈ (SessionTable.connect machine.world.settings.networkingEnabled text
        machine.site machine.world.network).1.events →
        machine.connect text = (none,
          machine.mapLogger fun logger => logger.emitAll #[⟨fault, Location.host⟩])) ∧
    ∀ (exec : Execution) (name text : String) (fault : Fault),
      Text.sameName name "connectTo" = true →
      fault = .networkingFormatMismatch text ∨ fault = .alreadyConnected →
      ⟨fault, exec.location⟩ ∈ (exec.callUnary name (.text text)).1.events →
        exec.callUnary name (.text text) =
          (⟨.error .statement, [⟨fault, exec.location⟩]⟩, exec) := by
  refine ⟨fun arises => ⟨arises.exclusive, ?_⟩, fun _ _ _ => SessionTable.exclusive_setState_iff,
    ?_, fun _ _ _ => Machine.connect_rejected, fun _ _ _ _ => Execution.callUnary_rejected⟩
  · intro session member up state
    exact SessionTable.not_raisesBeside_of_isUp arises.exclusive arises.numbered member up
  · intro orderly after arises leads
    exact leads.network arises.numbered

/-- A host that connects to a target, takes the session down, and connects again. -/
def Operation.reconnecting : List Operation :=
  [.setConnector { answer := fun _ _ => .connected }, .connect "a:1", .disconnect 1,
    .connect "a:1"]

theorem Machine.reconnects : ∃ answers machine,
    (Machine.ofSettings { networkingEnabled := true }).serveAll 0 Operation.reconnecting =
      some (answers, machine) ∧
    machine.world.settings.networkingEnabled = true ∧ machine.world.network.sessions =
      [⟨1, ⟨"a", 1⟩, .disconnected⟩, ⟨2, ⟨"a", 1⟩, .connected⟩] := by
  have seen : ((Machine.ofSettings { networkingEnabled := true }).serveAll 0
      Operation.reconnecting).map (fun served =>
        (served.2.world.settings.networkingEnabled, served.2.world.network.sessions)) =
      some (true, [⟨1, ⟨"a", 1⟩, .disconnected⟩, ⟨2, ⟨"a", 1⟩, .connected⟩]) := by
    decide +kernel
  obtain ⟨⟨answers, machine⟩, served, same⟩ := Option.map_eq_some_iff.mp seen
  obtain ⟨enabled, sessions⟩ := Prod.mk.inj same
  exact ⟨answers, machine, served, enabled, sessions⟩

/-- After a target was left and connected to again, its first session must not be set to be up.  A
third connection is rejected, whoever asks for it. -/
theorem reconnecting_leaves_one_session_up : ∃ machine : Machine,
    Situation.Arises (fun _ _ => True) World.SetsApart (.idle machine.world) ∧
    machine.world.network.sessions =
      [⟨1, ⟨"a", 1⟩, .disconnected⟩, ⟨2, ⟨"a", 1⟩, .connected⟩] ∧
    machine.world.network.Exclusive ∧ machine.world.SetsApart (.setState 2 .connecting) ∧
    ¬(machine.world.network.setState 1 .connected).2.Exclusive ∧
    machine.world.network.Numbered ∧ (machine.connect "a:1").1 = none ∧
    ∀ exec : Execution, exec.world = machine.world →
      (exec.callUnary "ConnectTo" (.text "a:1")).2 = exec := by
  obtain ⟨answers, machine, served, enabled, sessions⟩ := Machine.reconnects
  obtain ⟨exclusive, breaks, numbered, host, script⟩ :=
    targets_are_shared_only_where_the_host_raises_a_session_beside_another (fun _ _ => True)
      (.idle machine.world)
  have fresh : Situation.Arises (fun _ _ => True) World.SetsApart
      (.idle (Machine.ofSettings { networkingEnabled := true }).world) := ⟨_, .refl⟩
  have arises : Situation.Arises (fun _ _ => True) World.SetsApart (.idle machine.world) := by
    refine fresh.serveAll (fun _ _ => trivial) (fun _ _ _ _ _ => trivial) ?_ served
    simp [Operation.reconnecting, World.SetsApart]
  obtain ⟨alone, apart⟩ := exclusive arises
  have named : Network.Target.parse? "a:1" = some ⟨"a", 1⟩ := by decide +kernel
  have rejects : machine.world.network.Rejects "a:1" .alreadyConnected :=
    .occupied named (by simp [SessionTable.isActive, sessions])
  refine ⟨machine, arises, sessions, alone, ?_, ?_, ?_, ?_, ?_⟩
  · exact apart ⟨2, ⟨"a", 1⟩, .connected⟩ (by simp [Situation.world, sessions]) rfl _
  · refine fun both => (breaks machine.world.network _ _ alone).mp both ?_
    exact ⟨by decide, ⟨1, ⟨"a", 1⟩, .disconnected⟩, by simp [sessions], rfl,
      ⟨2, ⟨"a", 1⟩, .connected⟩, by simp [sessions], by decide, rfl, rfl⟩
  · exact (numbered _ _ arises .refl).1
  · have reported : (⟨Fault.alreadyConnected, Location.host⟩ : Event) ∈
        (SessionTable.connect machine.world.settings.networkingEnabled "a:1" machine.site
          machine.world.network).1.events := by
      rw [enabled, rejects.connect]
      exact List.mem_cons_self
    rw [host machine "a:1" _ (.inr rfl) reported]
  · intro exec same
    have named : Text.sameName "ConnectTo" "connectTo" = true := by decide
    have reported : (⟨Fault.alreadyConnected, exec.location⟩ : Event) ∈
        (exec.callUnary "ConnectTo" (.text "a:1")).1.events := by
      rw [Execution.callUnary_connectTo_events named, same, enabled, rejects.connect]
      exact List.mem_cons_self
    rw [script exec "ConnectTo" "a:1" _ named (.inr rfl) reported]

/-- Where the host raises a session that was taken down, after its target was connected to again,
two sessions to the target are up. -/
theorem raising_a_session_that_was_taken_down_shares_its_target :
    ¬∀ situation : Situation, situation.Arises (fun _ _ => True) (fun _ _ => True) →
      situation.world.network.Exclusive := by
  intro exclusive
  obtain ⟨answers, machine, served, -, sessions⟩ := Machine.reconnects
  have fresh : Situation.Arises (fun _ _ => True) (fun _ _ => True)
      (.idle (Machine.ofSettings { networkingEnabled := true }).world) := ⟨_, .refl⟩
  have arises : Situation.Arises (fun _ _ => True) (fun _ _ => True) (.idle machine.world) :=
    fresh.serveAll (fun _ _ => trivial) (fun _ _ _ _ _ => trivial) (fun _ _ _ => trivial) served
  let raised := machine.mapNetwork fun table => (table.setState 1 .connected).2
  have raises : machine.serveAll 0 [.setState 1 .connected] = some ([.flag _], raised) := rfl
  have after : raised.world.network.Exclusive := exclusive _ <|
    arises.serveAll (fun _ _ => trivial) (by simp [Operation.values]) (fun _ _ _ => trivial) raises
  have both : raised.world.network.sessions =
      [⟨1, ⟨"a", 1⟩, .connected⟩, ⟨2, ⟨"a", 1⟩, .connected⟩] := by
    simp [raised, Machine.mapNetwork, Machine.mapWorld, SessionTable.setState, sessions]
  have same : (1 : Network.SessionId) = 2 :=
    after ⟨1, ⟨"a", 1⟩, .connected⟩ (by simp [both]) ⟨2, ⟨"a", 1⟩, .connected⟩ (by simp [both])
      rfl rfl rfl
  cases same

end SimScript
