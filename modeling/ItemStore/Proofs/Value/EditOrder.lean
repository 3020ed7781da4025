import ItemStore.Proofs.Value.EditSequences

/-!
The order in which new values are written. It matters only for values that go to the end of one
list: all others may be written in any order.
-/

namespace ItemStore

namespace AttributeValue

/-- Two positions of one list, or places below them, where the value has an element at neither. To
write at either of them puts a new element at the end of the list. -/
def Compete (value : AttributeValue) (a b : List Segment) : Prop :=
  ∃ (way restA restB : List Segment) (i j : Nat), i ≠ j ∧
    a = way ++ .index i :: restA ∧ b = way ++ .index j :: restB ∧
    value.at? (way ++ [.index i]) = none ∧ value.at? (way ++ [.index j]) = none

variable {value after child : AttributeValue} {a b : List Segment} {segment : Segment}

theorem Compete.symm (compete : value.Compete a b) : value.Compete b a := by
  obtain ⟨way, restA, restB, i, j, different, sameA, sameB, missingA, missingB⟩ := compete
  exact ⟨way, restB, restA, j, i, Ne.symm different, sameB, sameA, missingB, missingA⟩

theorem Compete.cons (here : value.child? segment = some child) (below : child.Compete a b) :
    value.Compete (segment :: a) (segment :: b) := by
  obtain ⟨way, restA, restB, i, j, different, rfl, rfl, missingA, missingB⟩ := below
  refine ⟨segment :: way, restA, restB, i, j, different, rfl, rfl, ?_, ?_⟩
  · rw [List.cons_append, at?_cons, here]
    exact missingA
  · rw [List.cons_append, at?_cons, here]
    exact missingB

theorem missing_of_childDisturbs {second : Segment}
    (disturbed : value.childDisturbs false segment second = true) :
    ∃ i j, segment = .index i ∧ second = .index j ∧
      value.child? segment = none ∧ value.child? second = none := by
  cases segment with
  | key name => cases disturbed
  | index i =>
      cases second with
      | key name => cases disturbed
      | index j =>
          rw [childDisturbs] at disturbed
          split at disturbed
          · cases disturbed
          · rename_i missing
            exact ⟨i, j, rfl, rfl, by simpa using disturbed, by simpa using missing⟩

theorem compete_of_disturbs (disturbed : disturbs false a b value = true) : value.Compete a b := by
  induction a generalizing b value with
  | nil => cases b <;> cases disturbed
  | cons first rest ih =>
      cases b with
      | nil => cases disturbed
      | cons second others =>
          rw [disturbs] at disturbed
          by_cases same : first = second
          · subst same
            rw [if_pos rfl] at disturbed
            cases here : value.child? first with
            | none =>
                rw [here] at disturbed
                cases disturbed
            | some child =>
                rw [here] at disturbed
                exact Compete.cons here (ih disturbed)
          · rw [if_neg same] at disturbed
            obtain ⟨i, j, rfl, rfl, missingA, missingB⟩ := missing_of_childDisturbs disturbed
            refine ⟨[], rest, others, i, j, fun equal => same (by rw [equal]), rfl, rfl, ?_, ?_⟩
            · rw [List.nil_append, at?_cons, missingA]
              rfl
            · rw [List.nil_append, at?_cons, missingB]
              rfl

theorem isSome_at?_of_extends (more : Extends (a ++ b) value after)
    (stands : (value.at? a).isSome = true) : (after.at? a).isSome = true := by
  induction a generalizing value after with
  | nil => rfl
  | cons first rest ih =>
      rw [at?_cons] at stands ⊢
      rcases more with missing | ⟨x, y, here, there, below⟩
      · rw [missing] at stands
        cases stands
      · rw [here] at stands
        rw [there]
        exact ih below stands

theorem Compete.of_extends (first : Extends a value after) (second : Extends b value after)
    (compete : after.Compete a b) : value.Compete a b := by
  obtain ⟨way, restA, restB, i, j, different, rfl, rfl, missingA, missingB⟩ := compete
  refine ⟨way, restA, restB, i, j, different, rfl, rfl, ?_, ?_⟩
  · refine Option.not_isSome_iff_eq_none.mp fun stands => ?_
    have standing := isSome_at?_of_extends (b := restA) (by simpa using first) stands
    rw [missingA] at standing
    cases standing
  · refine Option.not_isSome_iff_eq_none.mp fun stands => ?_
    have standing := isSome_at?_of_extends (b := restB) (by simpa using second) stands
    rw [missingB] at standing
    cases standing

end AttributeValue

namespace Edit

open AttributeValue (Compete Extends)

structure Writes (start value : AttributeValue) (edits : List Edit) : Prop where
  ordered : value.Ordered
  fits : ∀ edit ∈ edits, AttributeValue.OrderedIf edit.new
  written : ∀ edit ∈ edits, edit.new.isSome = true
  apart : edits.Pairwise fun a b => Apart a.target.way b.target.way
  extended : ∀ edit ∈ edits, Extends edit.target.way start value

variable {start value after : AttributeValue} {edit head first second : Edit}
  {edits others before behind rest : List Edit}

namespace Writes

theorem perm (writes : Writes start value edits) (same : others.Perm edits) :
    Writes start value others where
  ordered := writes.ordered
  fits other member := writes.fits other (same.subset member)
  written other member := writes.written other (same.subset member)
  apart := (same.pairwise_iff Apart.symm).mpr writes.apart
  extended other member := writes.extended other (same.subset member)

theorem after_head (writes : Writes start value (head :: rest))
    (made : head.make? value = some after) : Writes start after rest where
  ordered := ordered_make? writes.ordered (writes.fits head List.mem_cons_self) made
  fits other member := writes.fits other (List.mem_cons_of_mem _ member)
  written other member := writes.written other (List.mem_cons_of_mem _ member)
  apart := (List.pairwise_cons.mp writes.apart).2
  extended other member := by
    obtain ⟨new, same⟩ := Option.isSome_iff_exists.mp (writes.written head List.mem_cons_self)
    rw [make?, same] at made
    exact (writes.extended other (List.mem_cons_of_mem _ member)).trans
      (AttributeValue.extends_of_edit? ((List.pairwise_cons.mp writes.apart).1 other member) made)

theorem nodup (writes : Writes start value edits) : edits.Nodup := by
  refine writes.apart.imp ?_
  rintro edit _ apart rfl
  exact apart.1 List.prefix_rfl

theorem undisturbed (writes : Writes start value edits) (one : first ∈ edits)
    (two : second ∈ edits) (free : ¬start.Compete first.target.way second.target.way) :
    AttributeValue.disturbs first.new.isNone first.target.way second.target.way value = false := by
  rw [← Option.not_isSome, writes.written first one]
  refine Bool.eq_false_iff.mpr fun disturbed => free ?_
  exact (AttributeValue.compete_of_disturbs disturbed).of_extends (writes.extended first one)
    (writes.extended second two)

theorem swap (writes : Writes start value (head :: edit :: rest))
    (free : ¬start.Compete head.target.way edit.target.way) :
    (head.make? value).bind edit.make? = (edit.make? value).bind head.make? := by
  have apart := (List.pairwise_cons.mp writes.apart).1 edit List.mem_cons_self
  have one : head ∈ head :: edit :: rest := List.mem_cons_self
  have two : edit ∈ head :: edit :: rest := List.mem_cons_of_mem _ List.mem_cons_self
  exact AttributeValue.edit?_comm writes.ordered apart (writes.undisturbed one two free)
    (writes.undisturbed two one fun compete => free compete.symm)

theorem toFront (writes : Writes start value (before ++ edit :: behind))
    (free : ∀ other ∈ before, ¬start.Compete other.target.way edit.target.way) :
    makeAll? (before ++ edit :: behind) value = makeAll? (edit :: (before ++ behind)) value := by
  induction before generalizing value with
  | nil => rfl
  | cons head rest ih =>
      have second : (head :: (rest ++ edit :: behind)).Perm (head :: edit :: (rest ++ behind)) :=
        List.perm_middle.cons head
      have swapped := (writes.perm second.symm).swap (free head List.mem_cons_self)
      calc makeAll? (head :: rest ++ edit :: behind) value
          = (head.make? value).bind (makeAll? (rest ++ edit :: behind)) := rfl
        _ = (head.make? value).bind (makeAll? (edit :: (rest ++ behind))) := by
            cases made : head.make? value with
            | none => rfl
            | some after =>
                exact ih (writes.after_head made)
                  fun other member => free other (List.mem_cons_of_mem _ member)
        _ = ((head.make? value).bind edit.make?).bind (makeAll? (rest ++ behind)) := by
            rw [Option.bind_assoc]
            rfl
        _ = ((edit.make? value).bind head.make?).bind (makeAll? (rest ++ behind)) := by
            rw [swapped]
        _ = makeAll? (edit :: (head :: rest ++ behind)) value := by
            rw [Option.bind_assoc]
            rfl

/-- Values come to the same in two orders in which those that compete follow each other alike. -/
theorem reorder (writes : Writes start value edits) (same : others.Perm edits)
    (inOrder : ∀ first second, [first, second].Sublist others →
      start.Compete first.target.way second.target.way → [first, second].Sublist edits) :
    makeAll? others value = makeAll? edits value := by
  -- What is written first in one order is moved to the front of the other. It competes with nothing
  -- that it passes, since those values come after it in the one and before it in the other.
  induction edits generalizing value others with
  | nil => rw [same.eq_nil]
  | cons head rest ih =>
      obtain ⟨before, behind, rfl⟩ := List.append_of_mem (same.symm.subset List.mem_cons_self)
      have remaining : (before ++ behind).Perm rest :=
        (List.perm_cons head).mp (List.perm_middle.symm.trans same)
      have once : head ∉ rest := (List.nodup_cons.mp writes.nodup).1
      have free : ∀ other ∈ before, ¬start.Compete other.target.way head.target.way := by
        intro other member compete
        have pair : [other, head].Sublist (before ++ head :: behind) :=
          List.Sublist.append (List.singleton_sublist.mpr member)
            (List.singleton_sublist.mpr List.mem_cons_self)
        rcases List.sublist_cons_iff.mp (inOrder _ _ pair compete) with later | ⟨_, first, later⟩
        · exact once (later.subset (List.mem_cons_of_mem _ List.mem_cons_self))
        · cases first
          exact once (later.subset List.mem_cons_self)
      rw [(writes.perm same).toFront free, makeAll?_cons, makeAll?_cons]
      cases made : head.make? value with
      | none => rfl
      | some after =>
          refine ih (writes.after_head made) remaining fun first second pair compete => ?_
          have listed : first ∈ rest := remaining.subset (pair.subset List.mem_cons_self)
          have wider : [first, second].Sublist (before ++ head :: behind) :=
            pair.trans (List.Sublist.append_left (List.sublist_cons_self _ _) _)
          rcases List.sublist_cons_iff.mp (inOrder _ _ wider compete) with later | ⟨_, same, _⟩
          · exact later
          · cases same
            exact absurd listed once

end Writes
end Edit
end ItemStore
