import ItemStore.Proofs.Expression.Completions

/-!
The placeholders that are collected from an expression are those that its evaluation depends on: an
undefined placeholder that is reported is among them, and bindings that agree on them come to the
same result. Each combination of steps is treated once; each form of expression is then made of
steps whose placeholders have been collected.
-/

namespace ItemStore

namespace Placeholders

structure Within (part used : Placeholders) : Prop where
  names : part.names ⊆ used.names
  values : part.values ⊆ used.values

namespace Within

variable {a b used : Placeholders}

theorem refl (used : Placeholders) : used.Within used := ⟨List.Subset.refl _, List.Subset.refl _⟩

theorem left (within : (a ++ b).Within used) : a.Within used :=
  ⟨fun _ member => within.names (List.mem_append_left _ member),
    fun _ member => within.values (List.mem_append_left _ member)⟩

theorem right (within : (a ++ b).Within used) : b.Within used :=
  ⟨fun _ member => within.names (List.mem_append_right _ member),
    fun _ member => within.values (List.mem_append_right _ member)⟩

theorem each {α : Type} {of : α → Placeholders} {elements : List α}
    (within : (ofAll of elements).Within used) :
    ∀ element ∈ elements, (of element).Within used := by
  induction elements with
  | nil => simp
  | cons first rest ih =>
      intro element member
      rcases List.mem_cons.mp member with rfl | there
      · exact within.left
      · exact ih within.right element there

end Within

end Placeholders

def Plain {α : Type} : Except ExpressionError α → Prop
  | .error (.undefinedName _) | .error (.undefinedValue _) => False
  | _ => True

namespace Plain

variable {α β : Type}

theorem bind {outcome : Except ExpressionError α} {next : α → Except ExpressionError β}
    (first : Plain outcome) (later : ∀ value, Plain (next value)) : Plain (outcome >>= next) := by
  cases outcome with
  | ok value => exact later value
  | error error => cases error <;> exact first

theorem of_error {error : ExpressionError}
    (plain : Plain (.error error : Except ExpressionError α)) :
    Plain (.error error : Except ExpressionError β) := by
  cases error <;> exact plain

end Plain

structure Bindings.AgreeOn (used : Placeholders) (given other : Bindings) : Prop where
  names : ∀ text ∈ used.names, given.names.get? text = other.names.get? text
  values : ∀ text ∈ used.values, given.values.get? text = other.values.get? text

/-- A computation looks up no placeholder but those in `used`. -/
structure UsesOnly {α : Type} (used : Placeholders) (run : Bindings → Except ExpressionError α) :
    Prop where
  agree : ∀ given other, Bindings.AgreeOn used given other → run given = run other
  undefinedName : ∀ given text, run given = .error (.undefinedName text) →
    text ∈ used.names ∧ given.names.get? text = none
  undefinedValue : ∀ given text, run given = .error (.undefinedValue text) →
    text ∈ used.values ∧ given.values.get? text = none

namespace UsesOnly

variable {α β : Type} {used : Placeholders}

theorem const {outcome : Except ExpressionError α} (plain : Plain outcome) :
    UsesOnly used fun _ => outcome where
  agree _ _ _ := rfl
  undefinedName _ _ failed := by
    rw [failed] at plain
    exact plain.elim
  undefinedValue _ _ failed := by
    rw [failed] at plain
    exact plain.elim

theorem ok (value : α) : UsesOnly used fun _ => .ok value := const trivial

theorem bind {run : Bindings → Except ExpressionError α}
    {next : α → Bindings → Except ExpressionError β} (first : UsesOnly used run)
    (later : ∀ value, UsesOnly used (next value)) :
    UsesOnly used fun given => run given >>= fun value => next value given where
  agree given other same := by
    simp only [first.agree given other same, (later _).agree given other same]
  undefinedName given text failed := by
    rcases bind_error failed with failed | ⟨value, _, failed⟩
    · exact first.undefinedName given text failed
    · exact (later value).undefinedName given text failed
  undefinedValue given text failed := by
    rcases bind_error failed with failed | ⟨value, _, failed⟩
    · exact first.undefinedValue given text failed
    · exact (later value).undefinedValue given text failed

theorem map {run : Bindings → Except ExpressionError α} (first : UsesOnly used run)
    (change : α → β) : UsesOnly used fun given => (run given).map change := by
  have steps : (fun given => (run given).map change) =
      fun given => run given >>= fun value => .ok (change value) := by
    funext given
    cases run given <;> rfl
  rw [steps]
  exact first.bind fun value => ok _

theorem mapM {step : Bindings → α → Except ExpressionError β} {values : List α}
    (each : ∀ value ∈ values, UsesOnly used fun given => step given value) :
    UsesOnly used fun given => values.mapM (step given) := by
  induction values with
  | nil => exact ok _
  | cons value rest ih =>
      simp only [List.mapM_cons]
      exact (each value List.mem_cons_self).bind fun _ =>
        (ih fun other member => each other (List.mem_cons_of_mem _ member)).bind fun _ => ok _

theorem foldlM {step : Bindings → β → α → Except ExpressionError β} {values : List α}
    (each : ∀ value ∈ values, ∀ state, UsesOnly used fun given => step given state value)
    (start : β) : UsesOnly used fun given => values.foldlM (step given) start := by
  induction values generalizing start with
  | nil => exact ok _
  | cons value rest ih =>
      simp only [List.foldlM_cons]
      exact (each value List.mem_cons_self start).bind fun next =>
        ih (fun other member => each other (List.mem_cons_of_mem _ member)) next

end UsesOnly

variable {used : Placeholders}

namespace Bindings

theorem usesOnly_name {ref : NameRef} (within : (Placeholders.ofName ref).Within used) :
    UsesOnly used fun given => given.name ref := by
  cases ref with
  | literal name => exact .ok name
  | placeholder text =>
      have member : text ∈ used.names := within.names List.mem_cons_self
      constructor
      case agree =>
        intro given other same
        simp only [Bindings.name, same.names text member]
      case undefinedName =>
        intro given missing failed
        simp only [Bindings.name] at failed
        split at failed <;> cases failed
        exact ⟨member, by assumption⟩
      case undefinedValue =>
        intro given missing failed
        simp only [Bindings.name] at failed
        split at failed <;> cases failed

theorem usesOnly_value {placeholder : String}
    (within : (Placeholders.ofValue placeholder).Within used) :
    UsesOnly used fun given => given.value placeholder := by
  have member : placeholder ∈ used.values := within.values List.mem_cons_self
  constructor
  case agree =>
    intro given other same
    simp only [Bindings.value, same.values placeholder member]
  case undefinedName =>
    intro given missing failed
    simp only [Bindings.value] at failed
    split at failed <;> cases failed
  case undefinedValue =>
    intro given missing failed
    simp only [Bindings.value] at failed
    split at failed <;> cases failed
    exact ⟨member, by assumption⟩

theorem usesOnly_segment {step : PathStep} (within : (Placeholders.ofStep step).Within used) :
    UsesOnly used fun given => given.segment step := by
  cases step with
  | field ref => exact (usesOnly_name within).map _
  | index position => exact .ok _

theorem usesOnly_location {path : Path} (within : (Placeholders.ofPath path).Within used) :
    UsesOnly used fun given => given.location path :=
  (usesOnly_name within.left).bind fun _ =>
    (UsesOnly.mapM fun step member => usesOnly_segment (within.right.each step member)).bind
      fun _ => .ok _

theorem usesOnly_lookup (item : Item) {path : Path}
    (within : (Placeholders.ofPath path).Within used) :
    UsesOnly used fun given => given.lookup item path :=
  (usesOnly_location within).map _

end Bindings

open Bindings

theorem AttributeValue.plain_size (value : AttributeValue) : Plain value.size := by
  cases value <;> exact trivial

theorem Operand.usesOnly (item : Item) {operand : Operand}
    (within : (Placeholders.ofOperand operand).Within used) :
    UsesOnly used fun given => operand.evaluate given item := by
  cases operand with
  | path target => exact usesOnly_lookup item within
  | value placeholder => exact (usesOnly_value within).map _
  | size target =>
      refine (usesOnly_lookup item within).bind fun found => ?_
      cases found with
      | none => exact .ok _
      | some found => exact (UsesOnly.const found.plain_size).bind fun _ => .ok _

namespace Condition

theorem plain_checkBounds (low high : Option AttributeValue) : Plain (checkBounds low high) := by
  unfold checkBounds
  split
  · split <;> exact trivial
  · exact trivial

theorem plain_evaluateType (subject type : Option AttributeValue) :
    Plain (evaluateType subject type) := by
  unfold evaluateType
  split
  · split <;> exact trivial
  · exact trivial

theorem plain_evaluateBeginsWith (subject start : Option AttributeValue) :
    Plain (evaluateBeginsWith subject start) := by
  unfold evaluateBeginsWith
  split
  · exact trivial
  · split <;> exact trivial

theorem usesOnly_anyEqual (item : Item) (value : AttributeValue) : ∀ {candidates : List Operand},
    (Placeholders.ofAll Placeholders.ofOperand candidates).Within used →
      UsesOnly used fun given => anyEqual given item value candidates
  | [], _ => .ok _
  | candidate :: rest, within => by
      refine (Operand.usesOnly item within.left).bind fun found => ?_
      cases found with
      | none => exact usesOnly_anyEqual item value within.right
      | some found =>
          dsimp only
          split
          · exact .ok _
          · exact usesOnly_anyEqual item value within.right

theorem usesOnly (item : Item) : ∀ {condition : Condition},
    (Placeholders.ofCondition condition).Within used →
      UsesOnly used fun given => condition.evaluate given item
  | .compare left _ right, within =>
      (Operand.usesOnly item within.left).bind fun left =>
        (Operand.usesOnly item within.right).bind fun right => by
          cases left <;> cases right <;> exact .ok _
  | .between value low high, within =>
      (Operand.usesOnly item within.left.right).bind fun _ =>
        (Operand.usesOnly item within.right).bind fun _ =>
          (UsesOnly.const (plain_checkBounds _ _)).bind fun _ =>
            (Operand.usesOnly item within.left.left).bind fun _ => .ok _
  | .among value candidates, within =>
      (Operand.usesOnly item within.left).bind fun found => by
        cases found with
        | none => exact .ok _
        | some found => exact usesOnly_anyEqual item found within.right
  | .logical .and left right, within =>
      (usesOnly item within.left).bind fun holds => by
        cases holds with
        | true => exact usesOnly item within.right
        | false => exact .ok _
  | .logical .or left right, within =>
      (usesOnly item within.left).bind fun holds => by
        cases holds with
        | true => exact .ok _
        | false => exact usesOnly item within.right
  | .not inner, within => (@usesOnly item inner within).bind fun _ => .ok _
  | .attributeExists target, within => (usesOnly_lookup item within).bind fun _ => .ok _
  | .attributeNotExists target, within => (usesOnly_lookup item within).bind fun _ => .ok _
  | .attributeType target type, within =>
      (usesOnly_lookup item within.left).bind fun _ =>
        (Operand.usesOnly item within.right).bind fun _ => .const (plain_evaluateType _ _)
  | .beginsWith target start, within =>
      (usesOnly_lookup item within.left).bind fun _ =>
        (Operand.usesOnly item within.right).bind fun _ => .const (plain_evaluateBeginsWith _ _)
  | .contains target part, within =>
      (usesOnly_lookup item within.left).bind fun _ =>
        (Operand.usesOnly item within.right).bind fun _ => .ok _

end Condition

theorem UpdateOperand.usesOnly (item : Item) : ∀ {operand : UpdateOperand},
    (Placeholders.ofUpdateOperand operand).Within used →
      UsesOnly used fun given => operand.evaluate given item
  | .path target, within => (usesOnly_lookup item within).bind fun found => by
      cases found with
      | none => exact .const trivial
      | some found => exact .ok _
  | .value placeholder, within => usesOnly_value within
  | .ifNotExists target default, within =>
      (usesOnly_lookup item within.left).bind fun found => by
        cases found with
        | none => exact usesOnly item within.right
        | some found => exact .ok _
  | .listAppend head tail, within =>
      (usesOnly item within.left).bind fun head => (usesOnly item within.right).bind fun tail => by
        cases head <;> cases tail <;> exact .const trivial

namespace SetValue

theorem plain_arithmetic (sign : String) (operation : String → String → Except NumberError String)
    (left right : AttributeValue) : Plain (arithmetic sign operation left right) := by
  unfold arithmetic
  split
  · split <;> exact trivial
  · exact trivial
  · exact trivial

theorem usesOnly (item : Item) {source : SetValue}
    (within : (Placeholders.ofSetValue source).Within used) :
    UsesOnly used fun given => source.evaluate given item := by
  cases source with
  | operand source => exact UpdateOperand.usesOnly item within
  | plus left right | minus left right =>
      exact (UpdateOperand.usesOnly item within.left).bind fun _ =>
        (UpdateOperand.usesOnly item within.right).bind fun _ => .const (plain_arithmetic _ _ _ _)

end SetValue

theorem Item.plain_place (item : Item) (location : Location) (value : AttributeValue) :
    Plain (item.place location value) := by
  unfold Item.place
  split <;> exact trivial

namespace Update

theorem plain_added (current : Option AttributeValue) (operand : AttributeValue) :
    Plain (added current operand) := by
  unfold added
  split <;> (try split) <;> (try split) <;> exact trivial

theorem usesOnly_applySet (before item : Item) {action : Path × SetValue}
    (within : (Placeholders.ofPath action.1 ++ Placeholders.ofSetValue action.2).Within used) :
    UsesOnly used fun given => applySet given before item action :=
  (SetValue.usesOnly before within.right).bind fun _ =>
    (usesOnly_location within.left).bind fun _ => .const (item.plain_place _ _)

theorem usesOnly_applyAdd (item : Item) {action : Path × String}
    (within : (Placeholders.ofPath action.1 ++ Placeholders.ofValue action.2).Within used) :
    UsesOnly used fun given => applyAdd given item action :=
  (usesOnly_value within.right).bind fun _ => (usesOnly_location within.left).bind fun _ =>
    (UsesOnly.const (plain_added _ _)).bind fun _ => .const (item.plain_place _ _)

theorem usesOnly_applyDelete (item : Item) {action : Path × String}
    (within : (Placeholders.ofPath action.1 ++ Placeholders.ofValue action.2).Within used) :
    UsesOnly used fun given => applyDelete given item action := by
  refine (usesOnly_value within.right).bind fun operand => ?_
  by_cases set : operand.isSet = true
  · simp only [set, Bool.not_true, Bool.false_eq_true, if_false]
    refine (usesOnly_location within.left).bind fun location => .const ?_
    split
    · exact trivial
    · split
      · exact trivial
      · split
        · exact trivial
        · exact item.plain_place _ _
  · simp only [set, Bool.not_false, if_true]
    exact .const trivial

theorem usesOnly (item : Item) {update : Update}
    (within : (Placeholders.ofUpdate update).Within used) :
    UsesOnly used fun given => update.apply given item :=
  (UsesOnly.foldlM (fun action member before =>
    usesOnly_applySet item before (within.left.left.left.each action member)) item).bind fun _ =>
    (UsesOnly.mapM fun path member =>
      usesOnly_location (within.left.left.right.each path member)).bind fun _ =>
      (UsesOnly.foldlM (fun action member before =>
        usesOnly_applyAdd before (within.left.right.each action member)) _).bind fun _ =>
        UsesOnly.foldlM (fun action member before =>
          usesOnly_applyDelete before (within.right.each action member)) _

theorem targets_within {update : Update} (within : (Placeholders.ofUpdate update).Within used) :
    ∀ path ∈ update.targets, (Placeholders.ofPath path).Within used := by
  intro path member
  simp only [targets, List.mem_append, List.mem_map] at member
  rcases member with ((⟨action, listed, rfl⟩ | listed) | ⟨action, listed, rfl⟩) |
    ⟨action, listed, rfl⟩
  · exact (within.left.left.left.each action listed).left
  · exact within.left.left.right.each path listed
  · exact (within.left.right.each action listed).left
  · exact (within.right.each action listed).left

theorem usesOnly_checkTargets (keyAttributes : List String) : ∀ {paths : List Path}
    (seen : List (Path × Location)), (∀ path ∈ paths, (Placeholders.ofPath path).Within used) →
      UsesOnly used fun given => checkTargets given keyAttributes seen paths
  | [], _, _ => .ok _
  | path :: rest, seen, within => by
      refine (usesOnly_location (within path List.mem_cons_self)).bind fun location => ?_
      split
      · exact .const trivial
      · split
        · refine .const ?_
          unfold meetingError
          split <;> exact trivial
        · exact usesOnly_checkTargets keyAttributes _
            fun other member => within other (List.mem_cons_of_mem _ member)

theorem usesOnly_validate (keyAttributes : List String) {update : Update}
    (within : (Placeholders.ofUpdate update).Within used) :
    UsesOnly used fun given => update.validate given keyAttributes :=
  usesOnly_checkTargets keyAttributes [] (targets_within within)

end Update

theorem Projection.usesOnly (item : Item) {paths : List Path}
    (within : (Placeholders.ofPaths paths).Within used) :
    UsesOnly used fun given => Projection.apply paths given item :=
  (UsesOnly.mapM fun path member => usesOnly_location (within.each path member)).map _

namespace KeyCondition

theorem plain_keyValue (value : AttributeValue) : Plain (keyValue value) := by
  unfold keyValue
  split <;> exact trivial

theorem plain_ofComparator (value : KeyValue) (comparator : Comparator) :
    Plain (ofComparator value comparator) := by
  cases comparator <;> exact trivial

theorem plain_add (hashKey : String) (sortKey : Option String) (known : Known)
    (asked : String × SortCondition) : Plain (known.add hashKey sortKey asked) := by
  unfold Known.add
  split
  · split <;> exact trivial
  · split
    · split <;> exact trivial
    · exact trivial

theorem usesOnly_keyName {target : Path} (within : (Placeholders.ofPath target).Within used) :
    UsesOnly used fun given => keyName given target :=
  (usesOnly_location within).bind fun _ => by
    split
    · exact .ok _
    · exact .const trivial

theorem usesOnly_ofComparison {target : Path} {placeholder : String} (comparator : Comparator)
    (path : (Placeholders.ofPath target).Within used)
    (value : (Placeholders.ofValue placeholder).Within used) :
    UsesOnly used fun given => ofComparison given target comparator placeholder :=
  (usesOnly_value value).bind fun _ => (UsesOnly.const (plain_keyValue _)).bind fun _ =>
    (UsesOnly.const (plain_ofComparator _ _)).bind fun _ =>
      (usesOnly_keyName path).bind fun _ => .ok _

theorem usesOnly_ofTerm {term : Term} (within : (usedByTerm term).Within used) :
    UsesOnly used fun given => ofTerm given term := by
  cases term with
  | compare left comparator right =>
      cases left <;> cases right <;> try exact .const trivial
      case path.value => exact usesOnly_ofComparison comparator within.left within.right
      case value.path => exact usesOnly_ofComparison comparator.flipped within.right within.left
  | between value low high =>
      cases value <;> cases low <;> cases high <;> try exact .const trivial
      exact (usesOnly_value within.left.right).bind fun _ =>
        (usesOnly_value within.right).bind fun _ =>
          (UsesOnly.const (Condition.plain_checkBounds _ _)).bind fun _ =>
            (UsesOnly.const (plain_keyValue _)).bind fun _ =>
              (UsesOnly.const (plain_keyValue _)).bind fun _ =>
                (usesOnly_keyName within.left.left).bind fun _ => .ok _
  | beginsWith target start =>
      cases start <;> try exact .const trivial
      refine (usesOnly_value within.right).bind fun start => ?_
      cases start <;> try exact .const trivial
      all_goals exact (usesOnly_keyName within.left).bind fun _ =>
        (UsesOnly.const (plain_keyValue _)).bind fun _ => .ok _

theorem terms_within : ∀ {condition : Condition} {parts : List Term},
    terms condition = .ok parts → (Placeholders.ofCondition condition).Within used →
      ∀ part ∈ parts, (usedByTerm part).Within used
  | .logical .and left right, parts, ok, within => by
      obtain ⟨lefts, first, ok⟩ := bind_ok ok
      obtain ⟨rights, second, ok⟩ := bind_ok ok
      cases ok
      intro part member
      rcases List.mem_append.mp member with here | there
      · exact terms_within first within.left part here
      · exact terms_within second within.right part there
  | .compare left comparator right, _, rfl, within => List.forall_mem_singleton.mpr within
  | .between value low high, _, rfl, within => List.forall_mem_singleton.mpr within
  | .beginsWith target start, _, rfl, within => List.forall_mem_singleton.mpr within

theorem plain_terms : ∀ condition : Condition, Plain (terms condition)
  | .logical .and left right =>
      (plain_terms left).bind fun _ => (plain_terms right).bind fun _ => trivial
  | .logical .or _ _ | .not _ | .among _ _ | .attributeExists _ | .attributeNotExists _
  | .attributeType _ _ | .contains _ _ | .compare _ _ _ | .between _ _ _ | .beginsWith _ _ =>
      trivial

theorem usesOnly_compile (hashKey : String) (sortKey : Option String) {condition : Condition}
    (within : (Placeholders.ofCondition condition).Within used) :
    UsesOnly used fun given => compile condition given hashKey sortKey := by
  simp only [compile]
  cases split : terms condition with
  | error error =>
      have plain := plain_terms condition
      rw [split] at plain
      exact .const plain.of_error
  | ok parts =>
      refine (UsesOnly.foldlM (fun term member known =>
        (usesOnly_ofTerm (terms_within split within term member)).bind fun _ =>
          .const (plain_add _ _ _ _)) _).bind fun known => ?_
      split
      · exact .ok _
      · exact .const trivial

end KeyCondition

namespace Placeholders

theorem not_mem_of_unusedNames {all : Placeholders} {given : Bindings} {reported : List String}
    (check : all.checkAllUsed given.names given.values = .error (.unusedNames reported)) :
    ∀ text ∈ reported, text ∉ all.names := by
  intro text member
  unfold checkAllUsed at check
  dsimp only at check
  split at check
  · cases check
    simpa using (List.mem_filter.mp member).2
  · split at check <;> cases check

theorem not_mem_of_unusedValues {all : Placeholders} {given : Bindings} {reported : List String}
    (check : all.checkAllUsed given.names given.values = .error (.unusedValues reported)) :
    ∀ text ∈ reported, text ∉ all.values := by
  intro text member
  unfold checkAllUsed at check
  dsimp only at check
  split at check
  · cases check
  · split at check <;> cases check
    simpa using (List.mem_filter.mp member).2

/-- The placeholders in `used`, and no others, decide what `run` comes to. -/
structure Decide {α : Type} (used : Placeholders) (run : Bindings → Except ExpressionError α) :
    Prop where
  defined : ∀ given : Bindings, given.Defines used → ∀ text,
    run given ≠ .error (.undefinedName text) ∧ run given ≠ .error (.undefinedValue text)
  agree : ∀ given other, Bindings.AgreeOn used given other → run given = run other
  /-- Whatever becomes of names that are reported as unused, also by the check of a request that has
  more expressions, makes no difference. -/
  unusedNames : ∀ (given other : Bindings) (all : Placeholders) (reported : List String),
    used.Within all →
    all.checkAllUsed given.names given.values = .error (.unusedNames reported) →
    (∀ text, text ∉ reported → given.names.get? text = other.names.get? text) →
    (∀ text, given.values.get? text = other.values.get? text) → run given = run other
  unusedValues : ∀ (given other : Bindings) (all : Placeholders) (reported : List String),
    used.Within all →
    all.checkAllUsed given.names given.values = .error (.unusedValues reported) →
    (∀ text, given.names.get? text = other.names.get? text) →
    (∀ text, text ∉ reported → given.values.get? text = other.values.get? text) →
    run given = run other

theorem decide_of_usesOnly {α : Type} {run : Bindings → Except ExpressionError α}
    (uses : UsesOnly used run) : used.Decide run where
  defined given defines text := by
    refine ⟨fun failed => ?_, fun failed => ?_⟩
    · obtain ⟨member, missing⟩ := uses.undefinedName given text failed
      have found := defines.names text member
      rw [missing] at found
      cases found
    · obtain ⟨member, missing⟩ := uses.undefinedValue given text failed
      have found := defines.values text member
      rw [missing] at found
      cases found
  agree := uses.agree
  unusedNames given other all reported within check names values :=
    uses.agree given other ⟨fun text member => names text fun listed =>
      not_mem_of_unusedNames check text listed (within.names member), fun text _ => values text⟩
  unusedValues given other all reported within check names values :=
    uses.agree given other ⟨fun text _ => names text, fun text member => values text fun listed =>
      not_mem_of_unusedValues check text listed (within.values member)⟩

/-- The placeholders that are collected from an expression decide everything that is done with
it. -/
theorem decide_expressions :
    (∀ (condition : Condition) (item : Item),
      (ofCondition condition).Decide fun given => condition.evaluate given item) ∧
    (∀ (condition : Condition) (hashKey : String) (sortKey : Option String),
      (ofCondition condition).Decide fun given =>
        KeyCondition.compile condition given hashKey sortKey) ∧
    (∀ (update : Update) (keyAttributes : List String),
      (ofUpdate update).Decide fun given => update.validate given keyAttributes) ∧
    (∀ (update : Update) (item : Item),
      (ofUpdate update).Decide fun given => update.apply given item) ∧
    ∀ (paths : List Path) (item : Item),
      (ofPaths paths).Decide fun given => Projection.apply paths given item :=
  ⟨fun _ item => decide_of_usesOnly (Condition.usesOnly item (.refl _)),
    fun _ hashKey sortKey =>
      decide_of_usesOnly (KeyCondition.usesOnly_compile hashKey sortKey (.refl _)),
    fun _ keyAttributes => decide_of_usesOnly (Update.usesOnly_validate keyAttributes (.refl _)),
    fun _ item => decide_of_usesOnly (Update.usesOnly item (.refl _)),
    fun _ item => decide_of_usesOnly (Projection.usesOnly item (.refl _))⟩

end Placeholders
end ItemStore
