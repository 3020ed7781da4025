import ItemStore.Proofs.Value.Children

/-!
Edits inside a value: a new value is written at a place, or what stands there is dropped. Edits that
do not disturb each other leave each other's places as they are and can be made in either order.
-/

namespace ItemStore

def Apart (a b : List Segment) : Prop :=
  ¬a <+: b ∧ ¬b <+: a

namespace Apart

variable {a b : List Segment}

theorem symm (apart : Apart a b) : Apart b a :=
  And.symm apart

theorem ne_nil (apart : Apart a b) : a ≠ [] := by
  rintro rfl
  exact apart.1 List.nil_prefix

theorem tail {segment : Segment} (apart : Apart (segment :: a) (segment :: b)) : Apart a b :=
  ⟨fun start => apart.1 (List.cons_prefix_cons.mpr ⟨rfl, start⟩),
    fun start => apart.2 (List.cons_prefix_cons.mpr ⟨rfl, start⟩)⟩

end Apart

/-! Ways are ordered. -/

instance : Std.TransOrd Segment where
  eq_swap {a b} := by
    cases a <;> cases b
    case key.key => exact Std.OrientedOrd.eq_swap (α := String)
    case index.index => exact Std.OrientedOrd.eq_swap (α := Nat)
    all_goals rfl
  isLE_trans {a b c} first second := by
    cases a <;> cases b <;> cases c
    case key.key.key => exact Std.TransOrd.isLE_trans (α := String) first second
    case index.index.index => exact Std.TransOrd.isLE_trans (α := Nat) first second
    all_goals first | rfl | exact Bool.noConfusion first | exact Bool.noConfusion second

instance : Std.LawfulEqOrd Segment where
  compare_self {a} := by
    cases a with
    | key name => exact Std.ReflOrd.compare_self (α := String)
    | index position => exact Std.ReflOrd.compare_self (α := Nat)
  eq_of_compare {a b} same := by
    cases a <;> cases b
    case key.key => exact congrArg Segment.key (Std.LawfulEqOrd.eq_of_compare (α := String) same)
    case index.index => exact congrArg Segment.index (Std.LawfulEqOrd.eq_of_compare (α := Nat) same)
    all_goals cases same

namespace Location

instance : Std.TransOrd Location :=
  inferInstanceAs (Std.TransCmp (compareLex (compareOn Location.top) (compareOn Location.within)))

def way (location : Location) : List Segment :=
  .key location.top :: location.within

theorem way_ne_nil (location : Location) : location.way ≠ [] :=
  List.cons_ne_nil _ _

def IsAttribute (location : Location) : Prop :=
  ∃ name, location.way.getLast? = some (.key name)

theorem compare_way (a b : Location) : compare a.way b.way = compare a b :=
  List.compare_cons_cons

theorem apart_of_meets_eq_false {a b : Location} (separate : a.meets b = false) :
    Apart a.way b.way := by
  obtain ⟨top, within⟩ := a
  obtain ⟨other, beside⟩ := b
  simp only [meets, Bool.and_eq_false_iff, Bool.or_eq_false_iff, beq_eq_false_iff_ne] at separate
  simp only [Apart, way, List.cons_prefix_cons, Segment.key.injEq, not_and]
  rcases separate with different | ⟨left, right⟩
  · exact ⟨fun same => absurd same different, fun same => absurd same.symm different⟩
  · refine ⟨fun _ start => ?_, fun _ start => ?_⟩
    · rw [List.isPrefixOf_iff_prefix.mpr start] at left
      cases left
    · rw [List.isPrefixOf_iff_prefix.mpr start] at right
      cases right

end Location

namespace AttributeValue

def edit? (new : Option AttributeValue) : List Segment → AttributeValue → Option AttributeValue
  | [], _ => none
  | segment :: rest, value =>
      (if rest = [] then some new
        else ((value.child? segment).bind (edit? new rest)).map some).bind (value.change? segment)

def disturbs (drops : Bool) : List Segment → List Segment → AttributeValue → Bool
  | first :: a, second :: b, value =>
      if first = second then (value.child? first).any (disturbs drops a b)
      else value.childDisturbs (drops && a.isEmpty) first second
  | _, _, _ => false

/-! The way down. -/

def remade? (new : Option AttributeValue) (rest : List Segment) (child : Option AttributeValue) :
    Option (Option AttributeValue) :=
  if rest = [] then some new else (child.bind (edit? new rest)).map some

def Alike : List Segment → AttributeValue → AttributeValue → Prop
  | [], a, b => a = b
  | segment :: rest, a, b =>
      (a.child? segment = none ∧ b.child? segment = none) ∨
        ∃ x y, a.child? segment = some x ∧ b.child? segment = some y ∧ Alike rest x y

def Extends : List Segment → AttributeValue → AttributeValue → Prop
  | [], _, _ => True
  | segment :: rest, a, b =>
      a.child? segment = none ∨
        ∃ x y, a.child? segment = some x ∧ b.child? segment = some y ∧ Extends rest x y

section Ways

variable {value after : AttributeValue} {a b : List Segment} {first second : Segment}
  {new other : Option AttributeValue} {drops : Bool}

theorem Alike.refl (way : List Segment) (value : AttributeValue) : Alike way value value := by
  induction way generalizing value with
  | nil => rfl
  | cons segment rest ih =>
      cases here : value.child? segment with
      | none => exact Or.inl ⟨here, here⟩
      | some child => exact Or.inr ⟨child, child, here, here, ih child⟩

theorem Alike.trans {way : List Segment} {x y z : AttributeValue} (left : Alike way x y)
    (right : Alike way y z) : Alike way x z := by
  induction way generalizing x y z with
  | nil => exact Eq.trans left right
  | cons segment rest ih =>
      rcases left with ⟨first, middle⟩ | ⟨p, q, first, middle, below⟩
      · rcases right with ⟨_, last⟩ | ⟨_, _, other, _⟩
        · exact Or.inl ⟨first, last⟩
        · rw [middle] at other
          cases other
      · rcases right with ⟨other, _⟩ | ⟨_, r, other, last, further⟩
        · rw [middle] at other
          cases other
        · rw [middle] at other
          cases other
          exact Or.inr ⟨p, r, first, last, ih below further⟩

theorem Alike.of_child?_eq (same : after.child? first = value.child? first) (rest : List Segment) :
    Alike (first :: rest) value after := by
  cases here : value.child? first with
  | none => exact Or.inl ⟨here, same.trans here⟩
  | some child => exact Or.inr ⟨child, child, here, same.trans here, Alike.refl rest child⟩

theorem Alike.isSome_eq (alike : Alike (first :: b) value after) :
    (after.child? first).isSome = (value.child? first).isSome := by
  rcases alike with ⟨here, there⟩ | ⟨_, _, here, there, _⟩ <;> rw [here, there] <;> rfl

theorem at?_of_alike (alike : Alike a value after) : after.at? a = value.at? a := by
  induction a generalizing value after with
  | nil =>
      cases alike
      rfl
  | cons segment rest ih =>
      rw [at?_cons, at?_cons]
      rcases alike with ⟨here, there⟩ | ⟨x, y, here, there, below⟩
      · rw [here, there]
      · rw [here, there]
        exact ih below

theorem Extends.refl (way : List Segment) (value : AttributeValue) : Extends way value value := by
  induction way generalizing value with
  | nil => trivial
  | cons segment rest ih =>
      cases here : value.child? segment with
      | none => exact Or.inl here
      | some child => exact Or.inr ⟨child, child, here, here, ih child⟩

theorem Extends.trans {way : List Segment} {x y z : AttributeValue} (left : Extends way x y)
    (right : Extends way y z) : Extends way x z := by
  induction way generalizing x y z with
  | nil => trivial
  | cons segment rest ih =>
      rcases left with first | ⟨p, q, first, middle, below⟩
      · exact Or.inl first
      · rcases right with other | ⟨_, r, other, last, further⟩
        · rw [middle] at other
          cases other
        · rw [middle] at other
          cases other
          exact Or.inr ⟨p, r, first, last, ih below further⟩

theorem edit?_cons (new : Option AttributeValue) (segment : Segment) (rest : List Segment)
    (value : AttributeValue) :
    value.edit? new (segment :: rest) =
      (remade? new rest (value.child? segment)).bind (value.change? segment) := rfl

theorem remade?_isNone {child remade : Option AttributeValue}
    (made : remade? new a child = some remade) : remade.isNone = (new.isNone && a.isEmpty) := by
  unfold remade? at made
  split at made
  · rename_i last
    cases made
    rw [last]
    simp
  · rename_i more
    obtain ⟨below, _, rfl⟩ := Option.map_eq_some_iff.mp made
    simp [more]

theorem remade?_of_ne_nil {child remade : Option AttributeValue} (more : a ≠ [])
    (made : remade? new a child = some remade) :
    ∃ x y, child = some x ∧ x.edit? new a = some y ∧ remade = some y := by
  rw [remade?, if_neg more] at made
  obtain ⟨y, below, rfl⟩ := Option.map_eq_some_iff.mp made
  obtain ⟨x, here, edited⟩ := Option.bind_eq_some_iff.mp below
  exact ⟨x, y, here, edited, rfl⟩

theorem ordered_edit? (ordered : value.Ordered) (fits : OrderedIf new)
    (edited : value.edit? new a = some after) : after.Ordered := by
  induction a generalizing value after with
  | nil => cases edited
  | cons segment rest ih =>
      rw [edit?_cons] at edited
      obtain ⟨remade, made, changed⟩ := Option.bind_eq_some_iff.mp edited
      refine ordered_change? ordered ?_ changed
      by_cases last : rest = []
      · rw [remade?, if_pos last] at made
        cases made
        exact fits
      · obtain ⟨x, y, here, below, rfl⟩ := remade?_of_ne_nil last made
        intro found same
        cases same
        exact ih (ordered_child? ordered here) below

/-! One place: what is written there stands there, and of two edits only the second one counts. -/

theorem at?_of_edit? (settled : (∃ name, a.getLast? = some (.key name)) ∨
      new.isSome = true ∧ (value.at? a).isSome = true)
    (edited : value.edit? new a = some after) : after.at? a = new := by
  induction a generalizing value after with
  | nil => cases edited
  | cons segment rest ih =>
      rw [edit?_cons] at edited
      obtain ⟨remade, made, changed⟩ := Option.bind_eq_some_iff.mp edited
      rw [at?_cons] at settled ⊢
      by_cases last : rest = []
      · subst last
        cases made
        have left : after.child? segment = new := by
          rcases settled with ⟨name, key⟩ | ⟨written, stands⟩
          · cases key
            exact child?_change?_key changed
          · obtain ⟨child, rfl⟩ := Option.isSome_iff_exists.mp written
            refine child?_change?_self ?_ changed
            cases here : value.child? segment with
            | none =>
                rw [here] at stands
                cases stands
            | some _ => rfl
        rw [left]
        cases new <;> rfl
      · obtain ⟨x, y, here, below, rfl⟩ := remade?_of_ne_nil last made
        rw [child?_change?_self (by rw [here]; rfl) changed]
        refine ih ?_ below
        rw [here] at settled
        rwa [List.getLast?_cons_of_ne_nil last] at settled

theorem edit?_of_stands (more : a ≠ []) (stands : (value.at? a).isSome = true)
    (written : AttributeValue) : ∃ after, value.edit? (some written) a = some after := by
  induction a generalizing value with
  | nil => exact absurd rfl more
  | cons segment rest ih =>
      rw [at?_cons] at stands
      rw [edit?_cons]
      cases here : value.child? segment with
      | none =>
          rw [here] at stands
          cases stands
      | some child =>
          rw [here] at stands
          have standing : (value.child? segment).isSome = true := by rw [here]; rfl
          by_cases last : rest = []
          · rw [remade?, if_pos last]
            exact change?_of_stands standing written
          · obtain ⟨remade, edited⟩ := ih last stands
            rw [remade?, if_neg last, Option.bind_some, edited]
            exact change?_of_stands standing remade

theorem edit?_edit?_self (ordered : value.Ordered) (stands : (value.at? a).isSome = true)
    {written : AttributeValue} (edited : value.edit? (some written) a = some after)
    (last : Option AttributeValue) : after.edit? last a = value.edit? last a := by
  induction a generalizing value after with
  | nil => rfl
  | cons segment rest ih =>
      rw [edit?_cons] at edited
      obtain ⟨remade, made, changed⟩ := Option.bind_eq_some_iff.mp edited
      rw [at?_cons] at stands
      cases here : value.child? segment with
      | none =>
          rw [here] at stands
          cases stands
      | some child =>
          have standing : (value.child? segment).isSome = true := by rw [here]; rfl
          rw [here] at stands made
          rw [edit?_cons, edit?_cons, here]
          by_cases ends : rest = []
          · subst ends
            cases made
            exact change?_change?_self ordered standing changed last
          · obtain ⟨_, y, same, below, rfl⟩ := remade?_of_ne_nil ends made
            cases same
            rw [child?_change?_self standing changed, remade?, remade?, if_neg ends, if_neg ends,
              Option.bind_some, Option.bind_some, ih (ordered_child? ordered here) stands below]
            cases child.edit? last rest with
            | none => rfl
            | some remade => exact change?_change?_self ordered standing changed (some remade)

theorem alike_of_edit? (apart : Apart a b) (undisturbed : disturbs new.isNone a b value = false)
    (edited : value.edit? new a = some after) : Alike b value after := by
  induction a generalizing b value after with
  | nil => cases edited
  | cons first rest ih =>
      rw [edit?_cons] at edited
      obtain ⟨remade, made, changed⟩ := Option.bind_eq_some_iff.mp edited
      cases b with
      | nil => exact absurd rfl apart.symm.ne_nil
      | cons second others =>
          by_cases same : first = second
          · subst same
            obtain ⟨x, y, here, below, rfl⟩ := remade?_of_ne_nil apart.tail.ne_nil made
            have stands : (value.child? first).isSome = true := by rw [here]; rfl
            rw [disturbs, if_pos rfl, here] at undisturbed
            exact Or.inr ⟨x, y, here, child?_change?_self stands changed,
              ih apart.tail undisturbed below⟩
          · rw [disturbs, if_neg same, ← remade?_isNone made] at undisturbed
            exact Alike.of_child?_eq (child?_change?_of_ne changed same undisturbed) others

theorem extends_of_edit? {written : AttributeValue} (apart : Apart a b)
    (edited : value.edit? (some written) a = some after) : Extends b value after := by
  induction a generalizing b value after with
  | nil => cases edited
  | cons first rest ih =>
      rw [edit?_cons] at edited
      obtain ⟨remade, made, changed⟩ := Option.bind_eq_some_iff.mp edited
      cases b with
      | nil => exact absurd rfl apart.symm.ne_nil
      | cons second others =>
          by_cases same : first = second
          · subst same
            obtain ⟨x, y, here, below, rfl⟩ := remade?_of_ne_nil apart.tail.ne_nil made
            have stands : (value.child? first).isSome = true := by rw [here]; rfl
            exact Or.inr ⟨x, y, here, child?_change?_self stands changed, ih apart.tail below⟩
          · cases here : value.child? second with
            | none => exact Or.inl here
            | some child =>
                have undisturbed : value.childDisturbs remade.isNone first second = false := by
                  rw [remade?_isNone made]
                  cases first <;> cases second <;> simp [childDisturbs, here]
                have there := child?_change?_of_ne changed same undisturbed
                exact Or.inr ⟨child, child, here, there.trans here, Extends.refl others child⟩

theorem childDisturbs_congr (one : (after.child? first).isSome = (value.child? first).isSome)
    (two : (after.child? second).isSome = (value.child? second).isSome) :
    after.childDisturbs drops first second = value.childDisturbs drops first second := by
  cases first <;> cases second <;> simp only [childDisturbs, ← Option.not_isSome, one, two]

theorem disturbs_of_alike (first : Alike a value after) (second : Alike b value after) :
    disturbs drops a b after = disturbs drops a b value := by
  induction a generalizing b value after with
  | nil => cases b <;> rfl
  | cons s rest ih =>
      cases b with
      | nil => rfl
      | cons t others =>
          rw [disturbs, disturbs]
          by_cases same : s = t
          · subst same
            rw [if_pos rfl, if_pos rfl]
            rcases first with ⟨here, there⟩ | ⟨x, y, here, there, one⟩
            · rw [here, there]
            · rcases second with ⟨missing, _⟩ | ⟨_, _, again, too, two⟩
              · rw [here] at missing
                cases missing
              · rw [here] at again
                rw [there] at too
                cases again
                cases too
                rw [here, there]
                exact ih one two
          · rw [if_neg same, if_neg same]
            exact childDisturbs_congr first.isSome_eq second.isSome_eq

theorem disturbs_of_extends (first : Extends a value after) (second : Alike b value after)
    (undisturbed : disturbs false a b value = false) : disturbs false a b after = false := by
  induction a generalizing b value after with
  | nil => cases b <;> rfl
  | cons s rest ih =>
      cases b with
      | nil => rfl
      | cons t others =>
          rw [disturbs] at undisturbed ⊢
          by_cases same : s = t
          · subst same
            rw [if_pos rfl] at undisturbed ⊢
            rcases second with ⟨_, there⟩ | ⟨x, y, here, there, two⟩
            · rw [there]
              rfl
            · rcases first with missing | ⟨_, _, again, too, one⟩
              · rw [here] at missing
                cases missing
              · rw [here] at again
                rw [there] at too
                cases again
                cases too
                rw [here] at undisturbed
                rw [there]
                exact ih one two undisturbed
          · rw [if_neg same] at undisturbed ⊢
            have two := second.isSome_eq
            rcases first with missing | ⟨_, _, here, there, _⟩
            · cases s <;> cases t <;> simp_all [childDisturbs]
            · cases s <;> cases t <;> simp [childDisturbs, there]

theorem indexes_of_disturbs (disturbed : disturbs drops a b value = true) :
    (∃ i, Segment.index i ∈ a) ∧ ∃ j, Segment.index j ∈ b := by
  induction a generalizing b value with
  | nil => cases b <;> cases disturbed
  | cons s rest ih =>
      cases b with
      | nil => cases disturbed
      | cons t others =>
          rw [disturbs] at disturbed
          split at disturbed
          · obtain ⟨child, _, below⟩ := (Option.any_eq_true _ _).mp disturbed
            obtain ⟨⟨i, one⟩, j, two⟩ := ih below
            exact ⟨⟨i, List.mem_cons_of_mem _ one⟩, j, List.mem_cons_of_mem _ two⟩
          · cases s with
            | key name => cases disturbed
            | index i =>
                cases t with
                | key name => cases disturbed
                | index j => exact ⟨⟨i, List.mem_cons_self⟩, j, List.mem_cons_self⟩

theorem disturbs_of_stands (stands : (value.at? b).isSome = true) :
    disturbs false a b value = false := by
  induction a generalizing b value with
  | nil => cases b <;> rfl
  | cons s rest ih =>
      cases b with
      | nil => rfl
      | cons t others =>
          rw [at?_cons] at stands
          rw [disturbs]
          cases here : value.child? t with
          | none =>
              rw [here] at stands
              cases stands
          | some child =>
              rw [here] at stands
              by_cases same : s = t
              · subst same
                rw [if_pos rfl, here]
                exact ih stands
              · rw [if_neg same]
                cases s <;> cases t <;> simp [childDisturbs, here]

theorem disturbs_of_isLE (stands : (value.at? a).isSome = true)
    (inTurn : (compare b a).isLE = true) : disturbs true a b value = false := by
  induction a generalizing b value with
  | nil => cases b <;> rfl
  | cons s rest ih =>
      cases b with
      | nil => rfl
      | cons t others =>
          rw [List.compare_cons_cons, Ordering.isLE_then_iff_or] at inTurn
          rw [at?_cons] at stands
          rw [disturbs]
          cases here : value.child? s with
          | none =>
              rw [here] at stands
              cases stands
          | some child =>
              by_cases same : s = t
              · subst same
                rw [here] at stands
                rw [if_pos rfl]
                rcases inTurn with less | ⟨_, later⟩
                · rw [Std.ReflOrd.compare_self] at less
                  cases less
                · exact ih stands later
              · rw [if_neg same]
                cases s with
                | key name => cases t <;> rfl
                | index position =>
                    cases t with
                    | key name => rfl
                    | index other =>
                        have before : (compare other position).isLE = true := by
                          rcases inTurn with less | ⟨equal, _⟩
                          · exact Ordering.isLE_of_eq_lt less
                          · exact Ordering.isLE_of_eq_eq equal
                        have behind := Nat.isLE_compare.mp before
                        simp [childDisturbs, here, Nat.not_lt.mpr behind]

theorem edit?_edit?_within (ordered : value.Ordered) {child : AttributeValue}
    (here : value.child? first = some child) (more : a ≠ []) (others : b ≠ []) :
    (value.edit? new (first :: a)).bind (edit? other (first :: b)) =
      ((child.edit? new a).bind (edit? other b)).bind
        fun remade => value.change? first (some remade) := by
  have stands : (value.child? first).isSome = true := by rw [here]; rfl
  rw [edit?_cons, here, remade?, if_neg more, Option.bind_some]
  cases child.edit? new a with
  | none => rfl
  | some middle =>
      obtain ⟨after, changed⟩ := change?_of_stands stands middle
      rw [Option.map_some, Option.bind_some, changed, Option.bind_some, edit?_cons,
        child?_change?_self stands changed, remade?, if_neg others, Option.bind_some]
      cases middle.edit? other b with
      | none => rfl
      | some last =>
          exact change?_change?_self ordered stands changed (some last)

theorem edit?_edit?_beside (different : first ≠ second)
    (undisturbed : value.childDisturbs (new.isNone && a.isEmpty) first second = false) :
    (value.edit? new (first :: a)).bind (edit? other (second :: b)) =
      (remade? new a (value.child? first)).bind fun x =>
        (remade? other b (value.child? second)).bind fun y =>
          (value.change? first x).bind fun after => after.change? second y := by
  rw [edit?_cons]
  cases made : remade? new a (value.child? first) with
  | none => rfl
  | some x =>
      rw [← remade?_isNone made] at undisturbed
      rw [Option.bind_some, Option.bind_some]
      cases changed : value.change? first x with
      | none => cases remade? other b (value.child? second) <;> rfl
      | some after =>
          rw [Option.bind_some, edit?_cons, child?_change?_of_ne changed different undisturbed]
          rfl

/-- Edits that do not disturb each other can be made in either order. -/
theorem edit?_comm (ordered : value.Ordered) (apart : Apart a b)
    (undisturbed : disturbs new.isNone a b value = false)
    (undisturbing : disturbs other.isNone b a value = false) :
    (value.edit? new a).bind (edit? other b) = (value.edit? other b).bind (edit? new a) := by
  induction a generalizing b value with
  | nil => exact absurd rfl apart.ne_nil
  | cons s rest ih =>
      cases b with
      | nil => exact absurd rfl apart.symm.ne_nil
      | cons t others =>
          rw [disturbs] at undisturbed undisturbing
          by_cases same : s = t
          · subst same
            have more := apart.tail.ne_nil
            have further := apart.tail.symm.ne_nil
            rw [if_pos rfl] at undisturbed undisturbing
            cases here : value.child? s with
            | none =>
                rw [edit?_cons, edit?_cons, here, remade?, remade?, if_neg more, if_neg further]
                rfl
            | some child =>
                rw [here] at undisturbed undisturbing
                rw [edit?_edit?_within ordered here more further,
                  edit?_edit?_within ordered here further more,
                  ih (ordered_child? ordered here) apart.tail undisturbed undisturbing]
          · rw [if_neg same] at undisturbed
            rw [if_neg (Ne.symm same)] at undisturbing
            rw [edit?_edit?_beside same undisturbed,
              edit?_edit?_beside (Ne.symm same) undisturbing]
            cases one : remade? new rest (value.child? s) with
            | none => cases remade? other others (value.child? t) <;> rfl
            | some x =>
                cases two : remade? other others (value.child? t) with
                | none => rfl
                | some y =>
                    rw [← remade?_isNone one] at undisturbed
                    rw [← remade?_isNone two] at undisturbing
                    exact change?_comm ordered same undisturbed undisturbing

end Ways

/-! The edits of a value by which updates are carried out. -/

theorem place?_cons (new : AttributeValue) (segment : Segment) (rest : List Segment)
    (value : AttributeValue) : place? new (segment :: rest) (some value) =
      ((place? new rest (value.child? segment)).map some).bind (value.change? segment) := by
  cases value <;> cases segment
  case map.key entries name =>
    change Option.map _ (place? new rest (Dict.get? entries name)) =
      (Option.map some (place? new rest (Dict.get? entries name))).bind _
    cases place? new rest (Dict.get? entries name) <;> rfl
  case list.index elements position =>
    change Option.map _ (place? new rest elements[position]?) =
      (Option.map some (place? new rest elements[position]?)).bind _
    cases place? new rest elements[position]? <;> rfl
  all_goals
    change none = (Option.map some (place? new rest none)).bind _
    cases place? new rest none <;> rfl

theorem remade?_some (new : AttributeValue) (way : List Segment) (child : Option AttributeValue) :
    remade? (some new) way child = (place? new way child).map some := by
  induction way generalizing child with
  | nil => rfl
  | cons segment rest ih =>
      cases child with
      | none => cases segment <;> rfl
      | some value =>
          rw [place?_cons, ← ih, ← edit?_cons]
          rfl

theorem isSome_at?_of_edit? {way : List Segment} {value after : AttributeValue}
    (dropped : value.edit? none way = some after) : (value.at? way).isSome = true := by
  induction way generalizing value after with
  | nil => cases dropped
  | cons segment rest ih =>
      rw [edit?_cons] at dropped
      obtain ⟨remade, made, changed⟩ := Option.bind_eq_some_iff.mp dropped
      rw [at?_cons]
      by_cases last : rest = []
      · subst last
        cases made
        obtain ⟨child, here⟩ := Option.isSome_iff_exists.mp (isSome_child?_of_change? changed)
        rw [here]
        rfl
      · obtain ⟨x, y, here, below, rfl⟩ := remade?_of_ne_nil last made
        rw [here]
        exact ih below

theorem edit?_eq_takeOut {way : List Segment} (more : way ≠ []) {value : AttributeValue}
    (stands : (value.at? way).isSome = true) :
    value.edit? none way = some (takeOut way value) := by
  induction way generalizing value with
  | nil => exact absurd rfl more
  | cons segment rest ih =>
      rw [at?_cons] at stands
      rw [edit?_cons]
      cases here : value.child? segment with
      | none =>
          rw [here] at stands
          cases stands
      | some child =>
          rw [here] at stands
          by_cases last : rest = []
          · subst last
            unfold child? at here
            split at here
            · simp [remade?, change?, here, takeOut]
            · have inside := (List.getElem?_eq_some_iff.mp here).1
              simp [remade?, change?, inside, takeOut]
            · cases here
          · rw [remade?, if_neg last, Option.bind_some, ih last stands]
            unfold child? at here
            split at here
            · simp [change?, takeOut, here]
            · have inside := (List.getElem?_eq_some_iff.mp here).1
              simp only [takeOut, List.modify_eq_set, here, Option.getD_some, Option.map_some,
                Option.bind_some, change?, putAt, if_pos inside]
            · cases here

theorem takeOut_of_at?_eq_none {way : List Segment} {value : AttributeValue}
    (ordered : value.Ordered) (missing : value.at? way = none) : takeOut way value = value := by
  induction way generalizing value with
  | nil => cases missing
  | cons segment rest ih =>
      rw [at?_cons] at missing
      have unchanged : ∀ child, value.child? segment = some child →
          rest ≠ [] ∧ takeOut rest child = child := by
        intro child here
        rw [here] at missing
        refine ⟨?_, ih (ordered_child? ordered here) missing⟩
        rintro rfl
        cases missing
      unfold takeOut
      split
      · rename_i name entries same
        cases same
        cases bound : Dict.get? entries name with
        | none => rw [Dict.erase_of_get?_eq_none (ordered_map.mp ordered).1 bound]
        | some child => exact absurd rfl (unchanged child bound).1
      · rename_i position elements same
        cases same
        cases here : elements[position]? with
        | none => rw [List.eraseIdx_of_length_le (List.getElem?_eq_none_iff.mp here)]
        | some child => exact absurd rfl (unchanged child here).1
      · rename_i name _ entries _ same
        cases same
        split
        · rename_i child bound
          rw [(unchanged child bound).2, Dict.insert_get? (ordered_map.mp ordered).1 bound]
        · rfl
      · rename_i position _ elements _ same
        cases same
        cases here : elements[position]? with
        | none => rw [List.modify_eq_self (List.getElem?_eq_none_iff.mp here)]
        | some child =>
            rw [List.modify_eq_set, here, Option.getD_some, (unchanged child here).2]
            obtain ⟨inside, rfl⟩ := List.getElem?_eq_some_iff.mp here
            rw [List.set_getElem_self]
      · rfl

end AttributeValue
end ItemStore
