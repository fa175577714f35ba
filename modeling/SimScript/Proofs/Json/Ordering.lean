import Mathlib.Data.String.Basic
import SimScript.Json.Parser

/-!
# The order of members

The members of an object ascend by their keys.  Building an object member by member
keeps them in that order, and so does reading a document, at every depth.
-/

namespace SimScript.Json

/-- At every depth, the members of an object ascend by their keys. -/
inductive Ordered : Json → Prop where
  | null : Ordered .null
  | bool (value : Bool) : Ordered (.bool value)
  | integer (value : Int) : Ordered (.integer value)
  | decimal (value : Float) : Ordered (.decimal value)
  | string (value : String) : Ordered (.string value)
  | array {items : List Json} (each : ∀ item ∈ items, Ordered item) : Ordered (.array items)
  | object {members : List (String × Json)}
      (ascending : members.Pairwise fun one other => one.1 < other.1)
      (each : ∀ member ∈ members, Ordered member.2) : Ordered (.object members)

variable {key : String} {value json : Json} {members : List (String × Json)}

/-! ## Building an object -/

theorem mem_of_mem_insertMember {member : String × Json}
    (mem : member ∈ insertMember key value members) :
    member = (key, value) ∨ member ∈ members := by
  induction members with
  | nil => exact .inl (List.mem_singleton.mp mem)
  | cons head rest induction =>
      rw [insertMember] at mem
      split at mem
      · exact (List.mem_cons.mp mem).imp_right (List.mem_cons_of_mem _)
      · split at mem
        · exact List.mem_cons.mp mem
        · rcases List.mem_cons.mp mem with here | later
          · exact .inr (List.mem_cons.mpr (.inl here))
          · exact (induction later).imp_right (List.mem_cons_of_mem _)

theorem insertMember_ascending (ascending : members.Pairwise fun one other => one.1 < other.1) :
    (insertMember key value members).Pairwise fun one other => one.1 < other.1 := by
  induction members with
  | nil => exact List.pairwise_singleton _ _
  | cons head rest induction =>
      obtain ⟨least, ascending⟩ := List.pairwise_cons.mp ascending
      rw [insertMember]
      split
      · next same =>
          apply List.pairwise_cons.mpr ⟨_, ascending⟩
          intro member mem
          exact same ▸ least member mem
      · split
        · next below =>
            refine List.pairwise_cons.mpr ⟨?_, List.pairwise_cons.mpr ⟨least, ascending⟩⟩
            intro member mem
            rcases List.mem_cons.mp mem with rfl | later
            · exact below
            · exact lt_trans below (least member later)
        · next differ notBelow =>
            refine List.pairwise_cons.mpr ⟨?_, induction ascending⟩
            intro member mem
            rcases mem_of_mem_insertMember mem with rfl | later
            · exact lt_of_le_of_ne (not_lt.mp notBelow) (Ne.symm differ)
            · exact least member later

theorem ordered_ofMembers (each : ∀ member ∈ members, member.2.Ordered) :
    (ofMembers members).Ordered := by
  suffices built : ∀ held : List (String × Json),
      (held.Pairwise fun one other => one.1 < other.1) → (∀ member ∈ held, member.2.Ordered) →
      Ordered (.object (members.foldl (fun built member =>
        insertMember member.1 member.2 built) held)) from
    built [] .nil (by simp)
  induction members with
  | nil => exact fun held ascending ordered => .object ascending ordered
  | cons head rest induction =>
      intro held ascending ordered
      apply induction (fun member mem => each member (List.mem_cons_of_mem _ mem)) _
        (insertMember_ascending ascending)
      intro member mem
      rcases mem_of_mem_insertMember mem with rfl | earlier
      · exact each head List.mem_cons_self
      · exact ordered member earlier

/-! ## Reading a document -/

theorem scalar?_ordered {negative : Bool} {decimal : Decimal.Scaled}
    (read : scalar? negative decimal = some json) : json.Ordered := by
  obtain ⟨magnitude, _, rfl⟩ := Option.map_eq_some_iff.mp read
  exact .decimal _

theorem wholeNumber?_ordered {negative : Bool} {digits : List Char}
    (read : wholeNumber? negative digits = some json) : json.Ordered := by
  simp only [wholeNumber?] at read
  split at read
  · cases read
    exact .integer _
  · split at read
    · cases read
      exact .integer _
    · exact scalar?_ordered read

theorem number?_ordered {chars rest : List Char}
    (read : number? chars = some (json, rest)) : json.Ordered := by
  unfold number? at read
  split at read
  extract_lets whole afterWhole at read
  split at read
  · cases read
  · split at read
    split at read
    · cases read
    · extract_lets exponent at read
      cases powered : exponent with
      | none =>
          rw [powered] at read
          cases read
      | some power =>
          rw [powered] at read
          dsimp only at read
          revert read
          split
          · intro read
            obtain ⟨_, integral, same⟩ := Option.map_eq_some_iff.mp read
            cases same
            exact wholeNumber?_ordered integral
          · intro read
            obtain ⟨_, scaled, same⟩ := Option.map_eq_some_iff.mp read
            cases same
            exact scalar?_ordered scaled

/-- What the readers give with a number of steps is ordered. -/
structure ReadsOrdered (fuel : Nat) : Prop where
  value : ∀ {depth chars json rest},
    value? fuel depth chars = some (json, rest) → json.Ordered
  items : ∀ {depth chars items rest},
    items? fuel depth chars = some (items, rest) → ∀ item ∈ items, item.Ordered
  members : ∀ {depth chars members rest},
    members? fuel depth chars = some (members, rest) → ∀ member ∈ members, member.2.Ordered

namespace ReadsOrdered

variable {fuel depth : Nat} {chars rest : List Char} {items : List Json}

theorem value_succ (reads : ReadsOrdered fuel)
    (read : value? (fuel + 1) depth chars = some (json, rest)) : json.Ordered := by
  rw [value?] at read
  split at read
  · obtain ⟨_, _, same⟩ := Option.map_eq_some_iff.mp read
    cases same
    exact .string _
  · split at read
    · cases read
    · split at read
      · cases read
        exact .array (by simp)
      · obtain ⟨_, inside, same⟩ := Option.map_eq_some_iff.mp read
        cases same
        exact .array (reads.items inside)
  · split at read
    · cases read
    · split at read
      · cases read
        exact .object .nil (by simp)
      · obtain ⟨_, inside, same⟩ := Option.map_eq_some_iff.mp read
        cases same
        exact ordered_ofMembers (reads.members inside)
  · obtain ⟨_, _, same⟩ := Option.map_eq_some_iff.mp read
    cases same
    exact .null
  · obtain ⟨_, _, same⟩ := Option.map_eq_some_iff.mp read
    cases same
    exact .bool true
  · obtain ⟨_, _, same⟩ := Option.map_eq_some_iff.mp read
    cases same
    exact .bool false
  · exact number?_ordered read

theorem items_succ (reads : ReadsOrdered fuel)
    (read : items? (fuel + 1) depth chars = some (items, rest)) :
    ∀ item ∈ items, item.Ordered := by
  rw [items?] at read
  split at read
  · cases read
  · next item rest single =>
      have first := reads.value single
      split at read
      · obtain ⟨⟨others, _⟩, more, same⟩ := Option.map_eq_some_iff.mp read
        cases same
        exact List.forall_mem_cons.mpr ⟨first, reads.items more⟩
      · cases read
        exact List.forall_mem_singleton.mpr first
      · cases read

theorem members_succ (reads : ReadsOrdered fuel)
    (read : members? (fuel + 1) depth chars = some (members, rest)) :
    ∀ member ∈ members, member.2.Ordered := by
  rw [members?] at read
  split at read
  · split at read
    · cases read
    · split at read
      · split at read
        · cases read
        · next value rest single =>
            have first := reads.value single
            split at read
            · obtain ⟨⟨others, _⟩, more, same⟩ := Option.map_eq_some_iff.mp read
              cases same
              exact List.forall_mem_cons.mpr ⟨first, reads.members more⟩
            · cases read
              exact List.forall_mem_singleton.mpr first
            · cases read
      · cases read
  · cases read

end ReadsOrdered

theorem readsOrdered (fuel : Nat) : ReadsOrdered fuel := by
  induction fuel with
  | zero => exact ⟨by simp [value?], by simp [items?], by simp [members?]⟩
  | succ fuel reads => exact ⟨reads.value_succ, reads.items_succ, reads.members_succ⟩

theorem ordered_of_parse? {text : String} (read : parse? text = some json) : json.Ordered := by
  simp only [parse?] at read
  split at read
  · next found rest single =>
      split at read
      · cases read
        exact (readsOrdered _).value single
      · cases read
  · cases read

end SimScript.Json
