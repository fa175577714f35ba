import Mathlib.Data.List.Nodup
import SimScript.Proofs.Command.Requests
import SimScript.Proofs.Work.Basic

/-!
# The table of sessions

Sessions are added at the end under fresh numbers, and none is ever dropped; only their
states change.  A target is looked up among the sessions that are up when a session is
opened, so opening and taking down sessions never lets two sessions to one target be up.
Setting the state of a session can, and `RaisesBeside` says exactly when.
-/

namespace SimScript.Network

def Session.isUp (session : Session) : Bool :=
  session.state != .disconnected

namespace SessionTable

/-- No two sessions to one target are up. -/
def Exclusive (table : SessionTable) : Prop :=
  ∀ one ∈ table.sessions, ∀ other ∈ table.sessions, one.target = other.target →
    one.isUp = true → other.isUp = true → one.id = other.id

def roll (table : SessionTable) : List (SessionId × Target) :=
  table.sessions.map fun session => (session.id, session.target)

/-- The numbers of the sessions ascend, and none of them is still to be given. -/
structure Numbered (table : SessionTable) : Prop where
  ascending : table.roll.Pairwise fun earlier later => earlier.1 < later.1
  given : ∀ entry ∈ table.roll, entry.1 ≤ table.lastId

/-- Every session stays under its number and with its target, and those that are added have numbers
that were never given before. -/
structure Continues (before after : SessionTable) : Prop where
  lastId : before.lastId ≤ after.lastId
  roll : ∃ newer, after.roll = before.roll ++ newer ∧ ∀ entry ∈ newer, before.lastId < entry.1

/-- A session is brought up, or stays up, while another one to its target is up. -/
def RaisesBeside (table : SessionTable) (id : SessionId) (state : ConnectionState) : Prop :=
  state ≠ .disconnected ∧ ∃ session ∈ table.sessions, session.id = id ∧
    ∃ other ∈ table.sessions, other.id ≠ id ∧ other.target = session.target ∧ other.isUp = true

/-- The table with a new session to a target, for which the connector was asked. -/
def openedTo (table : SessionTable) (target : Target) : SessionTable :=
  { (table.dial target).2 with
    lastId := table.lastId + 1
    sessions := table.sessions ++ [⟨table.lastId + 1, target, (table.dial target).1⟩] }

/-- What an attempt to open a session comes to, and the table that it leaves.  One that is rejected
leaves the table as it is, with the connector and all that it was asked. -/
inductive Attempts (table : SessionTable) (text : String) (site : Site) :
    Bool → Checked (Option SessionId) × SessionTable → Prop where
  | disabled : Attempts table text site false
      (⟨.ok none, [⟨Fault.networkingDisabled, site.location⟩]⟩, table)
  | malformed (unread : Target.parse? text = none) : Attempts table text site true
      (⟨.error .statement, [⟨Fault.networkingFormatMismatch text, site.location⟩]⟩, table)
  | occupied {target : Target} (named : Target.parse? text = some target)
      (active : table.isActive target = true) : Attempts table text site true
      (⟨.error .statement, [⟨Fault.alreadyConnected, site.location⟩]⟩, table)
  | opened {target : Target} {events : List Event} (named : Target.parse? text = some target)
      (free : table.isActive target = false)
      (told : ∀ event ∈ events, event.message = .fault .failedToEstablishConnection) :
      Attempts table text site true
        (⟨.ok (some (table.lastId + 1)), events⟩, table.openedTo target)

variable {table before middle after : SessionTable} {enabled : Bool} {text : String}
  {site : Site} {target : Target} {id : SessionId} {state : ConnectionState}

theorem openedTo_eq (table : SessionTable) (target : Target) :
    let dialed := ({ table with lastId := table.lastId + 1 } : SessionTable).dial target
    { dialed.2 with sessions := dialed.2.sessions ++ [⟨table.lastId + 1, target, dialed.1⟩] } =
      table.openedTo target := by
  obtain ⟨sessions, lastId, connector⟩ := table
  cases connector <;> rfl

theorem connect_of_named (named : Target.parse? text = some target) (site : Site) :
    connect true text site table =
      if table.isActive target then
        (⟨.error .statement, [⟨Fault.alreadyConnected, site.location⟩]⟩, table)
      else
        (⟨.ok (some (table.lastId + 1)),
          if (({ table with lastId := table.lastId + 1 } : SessionTable).dial target).1 =
              .disconnected then
            [⟨Fault.failedToEstablishConnection, site.location⟩]
          else []⟩, table.openedTo target) := by
  rw [← openedTo_eq]
  simp only [connect, named]
  change (do if (← get).isActive target then _ else _ : Work SessionTable _) site table = _
  rw [Work.bind_of_silent (Work.get_apply site table)]
  cases table.isActive target with
  | true => rfl
  | false =>
      let dialed := ({ table with lastId := table.lastId + 1 } : SessionTable).dial target
      change (if dialed.1 = .disconnected then do
          Report.raise Fault.failedToEstablishConnection
          return some (table.lastId + 1)
        else return some (table.lastId + 1) : Work SessionTable _) site _ = _
      by_cases down : dialed.1 = .disconnected
      · rw [if_pos down]
        simp only [dialed] at down
        rw [if_pos down]
        rfl
      · rw [if_neg down]
        simp only [dialed] at down
        rw [if_neg down]
        rfl

theorem connect_attempts (table : SessionTable) (enabled : Bool) (text : String)
    (site : Site) : table.Attempts text site enabled (connect enabled text site table) := by
  cases enabled with
  | false => exact .disabled
  | true =>
      cases named : Target.parse? text with
      | none =>
          have asks : connect true text site table = (⟨.error .statement,
              [⟨Fault.networkingFormatMismatch text, site.location⟩]⟩, table) := by
            simp only [connect, named]
            rfl
          exact asks ▸ .malformed named
      | some target =>
          rw [connect_of_named named]
          split
          case isTrue active => exact .occupied named active
          case isFalse free =>
            refine .opened named (by simpa using free) fun event member => ?_
            split at member
            · rw [List.mem_singleton.mp member]
            · cases member

theorem connect_blind (table : SessionTable) (enabled : Bool) (text : String) (site : Site)
    (logger : Logger) :
    connect enabled text { site with logger } table = connect enabled text site table := by
  cases enabled with
  | false => rfl
  | true =>
      cases named : Target.parse? text with
      | none =>
          simp only [connect, named]
          rfl
      | some target => rw [connect_of_named named, connect_of_named named]

theorem isActive_eq_false_iff :
    table.isActive target = false ↔
      ∀ session ∈ table.sessions, session.target = target → session.isUp = false := by
  simp [isActive, Session.isUp]

theorem connect_ok {opened : Option SessionId} {events : List Event}
    (connected : connect enabled text site table = (⟨.ok opened, events⟩, after)) :
    opened = none ∧ after = table ∨ ∃ target, table.isActive target = false ∧
      opened = some (table.lastId + 1) ∧ after = table.openedTo target := by
  have attempts := table.connect_attempts enabled text site
  rw [connected] at attempts
  cases attempts with
  | disabled => exact .inl ⟨rfl, rfl⟩
  | opened _ free _ => exact .inr ⟨_, free, rfl, rfl⟩

theorem connect_error {abort : Abort} {events : List Event}
    (connected : connect enabled text site table = (⟨.error abort, events⟩, after)) :
    after = table := by
  have attempts := table.connect_attempts enabled text site
  rw [connected] at attempts
  cases attempts <;> rfl

/-! ## Numbers -/

theorem roll_openedTo :
    (table.openedTo target).roll = table.roll ++ [(table.lastId + 1, target)] := by
  simp [roll, openedTo]

theorem roll_setState : (table.setState id state).2.roll = table.roll := by
  simp only [roll, setState, List.map_map]
  refine List.map_congr_left fun session _ => ?_
  dsimp only [Function.comp]
  split <;> rfl

theorem disconnect_eq (table : SessionTable) (id : SessionId) :
    (table.disconnect id).2 = table ∨ ∃ connector,
      (table.disconnect id).2 = { (table.setState id .disconnected).2 with connector } := by
  unfold disconnect
  split
  · exact .inl rfl
  · split
    · exact .inl rfl
    · exact .inr ⟨_, rfl⟩

theorem Numbered.congr (numbered : before.Numbered) (roll : after.roll = before.roll)
    (lastId : after.lastId = before.lastId) : after.Numbered :=
  ⟨roll ▸ numbered.ascending, roll ▸ lastId ▸ numbered.given⟩

theorem Numbered.openedTo (numbered : table.Numbered) : (table.openedTo target).Numbered := by
  have given : ∀ entry ∈ table.roll, entry.1 < table.lastId + 1 :=
    fun entry member => Nat.lt_succ_of_le (numbered.given entry member)
  constructor
  · rw [roll_openedTo, List.pairwise_append]
    refine ⟨numbered.ascending, List.pairwise_singleton _ _, ?_⟩
    simpa using given
  · rw [roll_openedTo]
    intro entry member
    rcases List.mem_append.mp member with old | new
    · exact Nat.le_of_lt (given entry old)
    · exact Nat.le_of_eq (congrArg Prod.fst (List.mem_singleton.mp new))

theorem Numbered.setState (numbered : table.Numbered) : (table.setState id state).2.Numbered :=
  numbered.congr roll_setState rfl

theorem Numbered.disconnect (numbered : table.Numbered) : (table.disconnect id).2.Numbered := by
  rcases table.disconnect_eq id with same | ⟨connector, same⟩
  · rwa [same]
  · rw [same]
    exact numbered.congr roll_setState rfl

theorem Numbered.eq_of_id {one other : Session} (numbered : table.Numbered)
    (first : one ∈ table.sessions) (second : other ∈ table.sessions) (same : one.id = other.id) :
    one = other := by
  have ascending : table.sessions.Pairwise fun earlier later => earlier.id < later.id :=
    (List.pairwise_map (f := fun session : Session => (session.id, session.target))).mp
      numbered.ascending
  have distinct : (table.sessions.map Session.id).Nodup := by
    rw [List.Nodup, List.pairwise_map]
    exact ascending.imp Nat.ne_of_lt
  exact List.inj_on_of_nodup_map distinct first second same

theorem Continues.ofSame (roll : after.roll = before.roll) (lastId : after.lastId = before.lastId) :
    before.Continues after :=
  ⟨Nat.le_of_eq lastId.symm, [], by simpa using roll, by simp⟩

theorem Continues.refl (table : SessionTable) : table.Continues table :=
  .ofSame rfl rfl

theorem Continues.trans (first : before.Continues middle) (second : middle.Continues after) :
    before.Continues after := by
  obtain ⟨newer, roll, fresh⟩ := first.roll
  obtain ⟨newest, last, freshest⟩ := second.roll
  refine ⟨Nat.le_trans first.lastId second.lastId, newer ++ newest, by simp [last, roll], ?_⟩
  intro entry member
  rcases List.mem_append.mp member with old | new
  · exact fresh entry old
  · exact Nat.lt_of_le_of_lt first.lastId (freshest entry new)

theorem continues_openedTo (table : SessionTable) (target : Target) :
    table.Continues (table.openedTo target) :=
  ⟨Nat.le_succ _, [(table.lastId + 1, target)], roll_openedTo, by simp⟩

theorem continues_disconnect (table : SessionTable) (id : SessionId) :
    table.Continues (table.disconnect id).2 := by
  rcases table.disconnect_eq id with same | ⟨connector, same⟩
  · rw [same]
    exact .refl table
  · rw [same]
    exact .ofSame roll_setState rfl

/-! ## Sessions to one target -/

theorem Exclusive.congr (exclusive : before.Exclusive)
    (sessions : after.sessions = before.sessions) : after.Exclusive := by
  rwa [Exclusive, sessions]

theorem exclusive_empty : Exclusive {} :=
  nofun

theorem Exclusive.openedTo (exclusive : table.Exclusive) (free : table.isActive target = false) :
    (table.openedTo target).Exclusive := by
  have down := isActive_eq_false_iff.mp free
  intro one first other second same oneUp otherUp
  rcases List.mem_append.mp first with oneOld | oneNew
  · rcases List.mem_append.mp second with otherOld | otherNew
    · exact exclusive one oneOld other otherOld same oneUp otherUp
    · obtain rfl := List.mem_singleton.mp otherNew
      exact absurd oneUp (Bool.eq_false_iff.mp (down one oneOld same))
  · obtain rfl := List.mem_singleton.mp oneNew
    rcases List.mem_append.mp second with otherOld | otherNew
    · exact absurd otherUp (Bool.eq_false_iff.mp (down other otherOld same.symm))
    · obtain rfl := List.mem_singleton.mp otherNew
      rfl

theorem mem_setState_sessions {session : Session} :
    session ∈ (table.setState id state).2.sessions ↔
      (∃ old ∈ table.sessions, old.id = id ∧ session = { old with state }) ∨
        session ∈ table.sessions ∧ session.id ≠ id := by
  rw [setState, List.mem_map]
  constructor
  · rintro ⟨old, member, rfl⟩
    by_cases same : old.id = id
    · exact .inl ⟨old, member, same, if_pos same⟩
    · rw [if_neg same]
      exact .inr ⟨member, same⟩
  · rintro (⟨old, member, same, rfl⟩ | ⟨member, other⟩)
    · exact ⟨old, member, if_pos same⟩
    · exact ⟨session, member, if_neg other⟩

/-- Setting the state of a session brings two sessions to one target up exactly where it does so
beside another one that is up. -/
theorem exclusive_setState_iff (exclusive : table.Exclusive) :
    (table.setState id state).2.Exclusive ↔ ¬table.RaisesBeside id state := by
  constructor
  · rintro both ⟨up, session, member, rfl, other, otherMember, apart, same, otherUp⟩
    refine apart (both other ?_ { session with state } ?_ same otherUp (by simpa [Session.isUp]))
    · exact mem_setState_sessions.mpr (.inr ⟨otherMember, apart⟩)
    · exact mem_setState_sessions.mpr (.inl ⟨session, member, rfl, rfl⟩)
  · intro lone one first other second same oneUp otherUp
    rcases mem_setState_sessions.mp first with
      ⟨raised, member, rfl, rfl⟩ | ⟨member, apart⟩
    · rcases mem_setState_sessions.mp second with
        ⟨again, _, sameId, rfl⟩ | ⟨otherMember, apart⟩
      · exact sameId.symm
      · refine absurd ⟨?_, raised, member, rfl, other, otherMember, apart, same.symm, otherUp⟩ lone
        simpa [Session.isUp] using oneUp
    · rcases mem_setState_sessions.mp second with
        ⟨raised, otherMember, rfl, rfl⟩ | ⟨otherMember, _⟩
      · refine absurd ⟨?_, raised, otherMember, rfl, one, member, apart, same, oneUp⟩ lone
        simpa [Session.isUp] using otherUp
      · exact exclusive one member other otherMember same oneUp otherUp

theorem Exclusive.disconnect (exclusive : table.Exclusive) :
    (table.disconnect id).2.Exclusive := by
  rcases table.disconnect_eq id with same | ⟨connector, same⟩
  · rwa [same]
  · have down : (table.setState id .disconnected).2.Exclusive :=
      (exclusive_setState_iff exclusive).mpr fun raises => raises.1 rfl
    rw [same]
    exact down.congr rfl

theorem not_raisesBeside_of_isUp {session : Session} (exclusive : table.Exclusive)
    (numbered : table.Numbered) (member : session ∈ table.sessions) (up : session.isUp = true) :
    ¬table.RaisesBeside session.id state := by
  rintro ⟨-, raised, inTable, same, other, otherMember, apart, target, otherUp⟩
  obtain rfl := numbered.eq_of_id inTable member same
  exact apart (exclusive other otherMember raised inTable target otherUp up)

/-! ## What scripts ask for -/

theorem Asked.exclusive (asked : before.Asked after) (exclusive : before.Exclusive) :
    after.Exclusive := by
  cases asked with
  | connect connected =>
      rcases connect_ok connected with ⟨-, rfl⟩ | ⟨target, free, -, rfl⟩
      · exact exclusive
      · exact exclusive.openedTo free
  | disconnect id => exact exclusive.disconnect

theorem Asked.numbered (asked : before.Asked after) (numbered : before.Numbered) :
    after.Numbered := by
  cases asked with
  | connect connected =>
      rcases connect_ok connected with ⟨-, rfl⟩ | ⟨target, -, -, rfl⟩
      · exact numbered
      · exact numbered.openedTo
  | disconnect id => exact numbered.disconnect

theorem Asked.continues (asked : before.Asked after) : before.Continues after := by
  cases asked with
  | connect connected =>
      rcases connect_ok connected with ⟨-, rfl⟩ | ⟨target, -, -, rfl⟩
      · exact .refl _
      · exact continues_openedTo before target
  | disconnect id => exact continues_disconnect before id

end SessionTable

end SimScript.Network
