import ItemStore.Dict.Lemmas
import ItemStore.Expression.Condition.Evaluate
import ItemStore.Expression.KeyCondition
import ItemStore.Expression.Placeholders
import ItemStore.Expression.Projection
import ItemStore.Expression.Update.Apply
import ItemStore.Expression.Update.Targets
import ItemStore.Proofs.Outcomes
import ItemStore.Value.Validity

/-!
Placeholders that are used and not defined. Evaluation reports one of them, or it comes to what it
would come to if they were defined, whatever they stood for. Those that are reached in any case are
always reported.
-/

namespace ItemStore

def AgreesUnless {α ε : Type} (kind : ε → Prop) (first second : Except ε α) : Prop :=
  (∃ error, first = .error error ∧ kind error) ∨ first = second

namespace AgreesUnless

variable {α β ε : Type} {kind : ε → Prop}

theorem refl (outcome : Except ε α) : AgreesUnless kind outcome outcome := Or.inr rfl

theorem bind {first second : Except ε α} {next other : α → Except ε β}
    (agree : AgreesUnless kind first second)
    (later : ∀ value, AgreesUnless kind (next value) (other value)) :
    AgreesUnless kind (first >>= next) (second >>= other) := by
  rcases agree with ⟨error, rfl, fits⟩ | rfl
  · exact Or.inl ⟨error, rfl, fits⟩
  · cases first with
    | error error => exact refl _
    | ok value => exact later value

theorem map {first second : Except ε α} (change : α → β)
    (agree : AgreesUnless kind first second) :
    AgreesUnless kind (first.map change) (second.map change) := by
  rcases agree with ⟨error, rfl, fits⟩ | rfl
  · exact Or.inl ⟨error, rfl, fits⟩
  · exact refl _

theorem mapM {step other : α → Except ε β}
    (agree : ∀ value, AgreesUnless kind (step value) (other value)) :
    ∀ values : List α, AgreesUnless kind (values.mapM step) (values.mapM other)
  | [] => refl _
  | value :: rest => by
      rw [List.mapM_cons, List.mapM_cons]
      exact (agree value).bind fun _ => (mapM agree rest).bind fun _ => refl _

theorem foldlM {step other : β → α → Except ε β}
    (agree : ∀ state value, AgreesUnless kind (step state value) (other state value)) :
    ∀ (values : List α) (state : β),
      AgreesUnless kind (values.foldlM step state) (values.foldlM other state)
  | [], _ => refl _
  | value :: rest, state => by
      rw [List.foldlM_cons, List.foldlM_cons]
      exact (agree state value).bind fun next => foldlM agree rest next

end AgreesUnless

inductive GrowsBy {α : Type} (fits : α → Prop) : List α → List α → Prop
  | nil : GrowsBy fits [] []
  | keep {before after : List α} (element : α) :
      GrowsBy fits before after → GrowsBy fits (element :: before) (element :: after)
  | add {before after : List α} {element : α} :
      fits element → GrowsBy fits before after → GrowsBy fits before (element :: after)

namespace GrowsBy

variable {α : Type} {fits : α → Prop}

theorem subset {before after : List α} (grows : GrowsBy fits before after) : before ⊆ after := by
  induction grows with
  | nil => exact fun _ member => member
  | keep element _ ih => exact List.cons_subset_cons element ih
  | add _ _ ih => exact fun _ member => List.mem_cons_of_mem _ (ih member)

theorem unused_eq {used : List String} {before after : Dict String α}
    {fits : String × α → Prop} (fitsUsed : ∀ entry, fits entry → entry.1 ∈ used)
    (grows : GrowsBy fits before after) :
    (before.keys.filter fun text => !used.contains text) =
      after.keys.filter fun text => !used.contains text := by
  induction grows with
  | nil => rfl
  | keep entry _ ih =>
      simp only [Dict.keys, List.map_cons, List.filter_cons] at ih ⊢
      rw [ih]
  | @add _ _ entry fit _ ih =>
      have dropped : (!used.contains entry.1) = false := by simpa using fitsUsed entry fit
      simp only [Dict.keys, List.map_cons, List.filter_cons, dropped] at ih ⊢
      exact ih

theorem validate_eq {before after : Item} {fits : String × AttributeValue → Prop}
    (fitsValid : ∀ entry, fits entry → entry.2.validate entry.1 = .ok ())
    (grows : GrowsBy fits before after) : before.validate = after.validate := by
  simp only [Item.validate]
  induction grows with
  | nil => rfl
  | keep entry _ ih =>
      simp only [AttributeValue.validateEntries, ih]
  | add fit _ ih =>
      simp only [AttributeValue.validateEntries, fitsValid _ fit, ih]
      rfl

end GrowsBy

namespace Bindings

def Lacks (given : Bindings) : ExpressionError → Prop
  | .undefinedName text => given.names.get? text = Option.none
  | .undefinedValue text => given.values.get? text = Option.none
  | _ => False

/-- The bindings are the given ones with more of the used placeholders defined. What is added may
be any name, and any value that may be stored. -/
structure Completes (full : Bindings) (used : Placeholders) (given : Bindings) : Prop where
  names : GrowsBy (fun entry => entry.1 ∈ used.names) given.names full.names
  values : GrowsBy (fun entry => entry.1 ∈ used.values ∧ entry.2.validate entry.1 = .ok ())
    given.values full.values
  namesAscend : full.names.Ascending
  valuesAscend : full.values.Ascending

end Bindings

section Completed

variable {given full : Bindings} {used : Placeholders} (completes : full.Completes used given)

include completes

namespace Bindings

theorem name_agrees (ref : NameRef) :
    AgreesUnless given.Lacks (given.name ref) (full.name ref) := by
  cases ref with
  | literal name => exact .refl _
  | placeholder text =>
      cases found : given.names.get? text with
      | none => exact Or.inl ⟨.undefinedName text, by simp only [Bindings.name, found], found⟩
      | some name =>
          have kept : full.names.get? text = some name :=
            Dict.get?_eq_some_of_mem completes.namesAscend
              (completes.names.subset (Dict.mem_of_get?_eq_some found))
          exact Or.inr (by simp only [Bindings.name, found, kept])

theorem value_agrees (placeholder : String) :
    AgreesUnless given.Lacks (given.value placeholder) (full.value placeholder) := by
  cases found : given.values.get? placeholder with
  | none =>
      exact Or.inl ⟨.undefinedValue placeholder, by simp only [Bindings.value, found], found⟩
  | some value =>
      have kept : full.values.get? placeholder = some value :=
        Dict.get?_eq_some_of_mem completes.valuesAscend
          (completes.values.subset (Dict.mem_of_get?_eq_some found))
      exact Or.inr (by simp only [Bindings.value, found, kept])

theorem segment_agrees (step : PathStep) :
    AgreesUnless given.Lacks (given.segment step) (full.segment step) := by
  cases step with
  | field name => exact (name_agrees completes name).map _
  | index position => exact .refl _

theorem location_agrees (path : Path) :
    AgreesUnless given.Lacks (given.location path) (full.location path) :=
  (name_agrees completes _).bind fun _ =>
    (AgreesUnless.mapM (segment_agrees completes) _).bind fun _ => .refl _

theorem lookup_agrees (item : Item) (path : Path) :
    AgreesUnless given.Lacks (given.lookup item path) (full.lookup item path) :=
  (location_agrees completes path).map _

end Bindings

open Bindings

theorem Operand.evaluate_agrees (item : Item) (operand : Operand) :
    AgreesUnless given.Lacks (operand.evaluate given item) (operand.evaluate full item) := by
  cases operand with
  | path target => exact lookup_agrees completes item target
  | value placeholder => exact (value_agrees completes placeholder).map _
  | size target => exact (lookup_agrees completes item target).bind fun _ => .refl _

namespace Condition

theorem anyEqual_agrees (item : Item) (value : AttributeValue) :
    ∀ candidates : List Operand, AgreesUnless given.Lacks (anyEqual given item value candidates)
      (anyEqual full item value candidates)
  | [] => .refl _
  | candidate :: rest => by
      refine (candidate.evaluate_agrees completes item).bind fun found => ?_
      cases found with
      | none => exact anyEqual_agrees item value rest
      | some found =>
          dsimp only
          split
          · exact .refl _
          · exact anyEqual_agrees item value rest

theorem evaluate_agrees (item : Item) : ∀ condition : Condition,
    AgreesUnless given.Lacks (condition.evaluate given item) (condition.evaluate full item)
  | .compare left _ right =>
      (left.evaluate_agrees completes item).bind fun _ =>
        (right.evaluate_agrees completes item).bind fun _ => .refl _
  | .between value low high =>
      (low.evaluate_agrees completes item).bind fun _ =>
        (high.evaluate_agrees completes item).bind fun _ => (AgreesUnless.refl _).bind fun _ =>
          (value.evaluate_agrees completes item).bind fun _ => .refl _
  | .among value candidates =>
      (value.evaluate_agrees completes item).bind fun found => by
        cases found with
        | none => exact .refl _
        | some found => exact anyEqual_agrees completes item found candidates
  | .logical .and left right =>
      (evaluate_agrees item left).bind fun holds => by
        cases holds with
        | true => exact evaluate_agrees item right
        | false => exact .refl _
  | .logical .or left right =>
      (evaluate_agrees item left).bind fun holds => by
        cases holds with
        | true => exact .refl _
        | false => exact evaluate_agrees item right
  | .not inner => (evaluate_agrees item inner).bind fun _ => .refl _
  | .attributeExists target => (lookup_agrees completes item target).bind fun _ => .refl _
  | .attributeNotExists target => (lookup_agrees completes item target).bind fun _ => .refl _
  | .attributeType target type =>
      (lookup_agrees completes item target).bind fun _ =>
        (type.evaluate_agrees completes item).bind fun _ => .refl _
  | .beginsWith target start =>
      (lookup_agrees completes item target).bind fun _ =>
        (start.evaluate_agrees completes item).bind fun _ => .refl _
  | .contains target part =>
      (lookup_agrees completes item target).bind fun _ =>
        (part.evaluate_agrees completes item).bind fun _ => .refl _

end Condition

theorem UpdateOperand.evaluate_agrees (item : Item) : ∀ operand : UpdateOperand,
    AgreesUnless given.Lacks (operand.evaluate given item) (operand.evaluate full item)
  | .path target => (lookup_agrees completes item target).bind fun _ => .refl _
  | .value placeholder => value_agrees completes placeholder
  | .ifNotExists target default =>
      (lookup_agrees completes item target).bind fun found => by
        cases found with
        | none => exact evaluate_agrees item default
        | some found => exact .refl _
  | .listAppend head tail =>
      (evaluate_agrees item head).bind fun _ => (evaluate_agrees item tail).bind fun _ => .refl _

theorem SetValue.evaluate_agrees (item : Item) (value : SetValue) :
    AgreesUnless given.Lacks (value.evaluate given item) (value.evaluate full item) := by
  cases value with
  | operand source => exact source.evaluate_agrees completes item
  | plus left right =>
      exact (left.evaluate_agrees completes item).bind fun _ =>
        (right.evaluate_agrees completes item).bind fun _ => .refl _
  | minus left right =>
      exact (left.evaluate_agrees completes item).bind fun _ =>
        (right.evaluate_agrees completes item).bind fun _ => .refl _

namespace Update

theorem applySet_agrees (before item : Item) (action : Path × SetValue) :
    AgreesUnless given.Lacks (applySet given before item action)
      (applySet full before item action) :=
  (action.2.evaluate_agrees completes before).bind fun _ =>
    (location_agrees completes action.1).bind fun _ => .refl _

theorem applyAdd_agrees (item : Item) (action : Path × String) :
    AgreesUnless given.Lacks (applyAdd given item action) (applyAdd full item action) :=
  (value_agrees completes action.2).bind fun _ =>
    (location_agrees completes action.1).bind fun _ => .refl _

theorem applyDelete_agrees (item : Item) (action : Path × String) :
    AgreesUnless given.Lacks (applyDelete given item action) (applyDelete full item action) :=
  (value_agrees completes action.2).bind fun operand => by
    split
    · exact .refl _
    · exact (location_agrees completes action.1).bind fun _ => .refl _

theorem apply_agrees (update : Update) (item : Item) :
    AgreesUnless given.Lacks (update.apply given item) (update.apply full item) :=
  (AgreesUnless.foldlM (applySet_agrees completes item) _ _).bind fun _ =>
    (AgreesUnless.mapM (location_agrees completes) _).bind fun _ =>
      (AgreesUnless.foldlM (applyAdd_agrees completes) _ _).bind fun _ =>
        AgreesUnless.foldlM (applyDelete_agrees completes) _ _

theorem checkTargets_agrees (keyAttributes : List String) :
    ∀ (paths : List Path) (seen : List (Path × Location)),
      AgreesUnless given.Lacks (checkTargets given keyAttributes seen paths)
        (checkTargets full keyAttributes seen paths)
  | [], _ => .refl _
  | path :: rest, seen => by
      refine (location_agrees completes path).bind fun location => ?_
      split
      · exact .refl _
      · split
        · exact .refl _
        · exact checkTargets_agrees keyAttributes rest _

theorem validate_agrees (update : Update) (keyAttributes : List String) :
    AgreesUnless given.Lacks (update.validate given keyAttributes)
      (update.validate full keyAttributes) :=
  checkTargets_agrees completes keyAttributes _ _

end Update

theorem Projection.apply_agrees (paths : List Path) (item : Item) :
    AgreesUnless given.Lacks (Projection.apply paths given item)
      (Projection.apply paths full item) :=
  (AgreesUnless.mapM (location_agrees completes) paths).map _

namespace KeyCondition

theorem keyName_agrees (target : Path) :
    AgreesUnless given.Lacks (keyName given target) (keyName full target) :=
  (location_agrees completes target).bind fun _ => .refl _

theorem ofComparison_agrees (target : Path) (comparator : Comparator) (placeholder : String) :
    AgreesUnless given.Lacks (ofComparison given target comparator placeholder)
      (ofComparison full target comparator placeholder) :=
  (value_agrees completes placeholder).bind fun _ => (AgreesUnless.refl _).bind fun _ =>
    (AgreesUnless.refl _).bind fun _ => (keyName_agrees completes target).bind fun _ => .refl _

theorem ofTerm_agrees (term : Term) :
    AgreesUnless given.Lacks (ofTerm given term) (ofTerm full term) := by
  cases term with
  | compare left comparator right =>
      cases left <;> cases right <;>
        first
          | exact ofComparison_agrees completes _ _ _
          | exact .refl _
  | between value low high =>
      cases value <;> cases low <;> cases high <;> try exact .refl _
      exact (value_agrees completes _).bind fun _ => (value_agrees completes _).bind fun _ =>
        (AgreesUnless.refl _).bind fun _ => (AgreesUnless.refl _).bind fun _ =>
          (AgreesUnless.refl _).bind fun _ =>
            (keyName_agrees completes _).bind fun _ => .refl _
  | beginsWith target start =>
      cases start <;> try exact .refl _
      refine (value_agrees completes _).bind fun start => ?_
      cases start <;>
        first
          | exact (keyName_agrees completes target).bind fun _ => .refl _
          | exact .refl _

theorem compile_agrees (condition : Condition) (hashKey : String) (sortKey : Option String) :
    AgreesUnless given.Lacks (compile condition given hashKey sortKey)
      (compile condition full hashKey sortKey) :=
  (AgreesUnless.refl _).bind fun parts =>
    (AgreesUnless.foldlM (fun _ term => (ofTerm_agrees completes term).bind fun _ => .refl _)
      parts _).bind fun _ => .refl _

end KeyCondition

theorem Bindings.Completes.checkAllUsed_eq :
    used.checkAllUsed given.names given.values = used.checkAllUsed full.names full.values := by
  simp only [Placeholders.checkAllUsed, completes.names.unused_eq fun _ fit => fit,
    completes.values.unused_eq fun _ fit => fit.1]

theorem Bindings.Completes.validate_eq : Item.validate given.values = Item.validate full.values :=
  completes.values.validate_eq fun _ fit => fit.2

end Completed

@[simp] theorem Placeholders.none_append (used : Placeholders) : none ++ used = used := rfl

@[simp] theorem Placeholders.append_none (used : Placeholders) : used ++ none = used := by
  change Placeholders.mk (used.names ++ []) (used.values ++ []) = used
  rw [List.append_nil, List.append_nil]

@[simp] theorem Placeholders.ofOption_none {α : Type} (of : α → Placeholders) :
    ofOption of Option.none = none := rfl

/-! What a successful evaluation has looked up. -/

namespace Bindings

structure Defines (given : Bindings) (used : Placeholders) : Prop where
  names : ∀ text ∈ used.names, (given.names.get? text).isSome
  values : ∀ text ∈ used.values, (given.values.get? text).isSome

namespace Defines

variable {given : Bindings} {a b : Placeholders}

theorem none : given.Defines .none := ⟨nofun, nofun⟩

theorem append (first : given.Defines a) (second : given.Defines b) : given.Defines (a ++ b) where
  names text member := (List.mem_append.mp member).elim (first.names text) (second.names text)
  values text member := (List.mem_append.mp member).elim (first.values text) (second.values text)

theorem ofAll {α : Type} {of : α → Placeholders} {elements : List α}
    (each : ∀ element ∈ elements, given.Defines (of element)) :
    given.Defines (Placeholders.ofAll of elements) := by
  induction elements with
  | nil => exact none
  | cons element rest ih =>
      exact (each element List.mem_cons_self).append
        (ih fun other member => each other (List.mem_cons_of_mem _ member))

end Defines

variable {given : Bindings}

theorem name_defines {ref : NameRef} {name : String} (ok : given.name ref = .ok name) :
    given.Defines (.ofName ref) := by
  cases ref with
  | literal _ => exact .none
  | placeholder text =>
      cases found : given.names.get? text with
      | none => simp [Bindings.name, found] at ok
      | some name => exact ⟨fun _ member => by simp_all [Placeholders.ofName], nofun⟩

theorem value_defines {placeholder : String} {value : AttributeValue}
    (ok : given.value placeholder = .ok value) : given.Defines (.ofValue placeholder) := by
  cases found : given.values.get? placeholder with
  | none => simp [Bindings.value, found] at ok
  | some value => exact ⟨nofun, fun _ member => by simp_all [Placeholders.ofValue]⟩

theorem segment_defines {step : PathStep} {segment : Segment}
    (ok : given.segment step = .ok segment) : given.Defines (.ofStep step) := by
  cases step with
  | index _ => exact .none
  | field ref =>
      obtain ⟨name, ok, _⟩ := map_ok ok
      exact name_defines ok

theorem location_defines {path : Path} {location : Location}
    (ok : given.location path = .ok location) : given.Defines (.ofPath path) := by
  obtain ⟨top, named, ok⟩ := bind_ok ok
  obtain ⟨within, steps, _⟩ := bind_ok ok
  refine (name_defines named).append (.ofAll fun step member => ?_)
  obtain ⟨segment, _, ok⟩ := mapM_reaches steps step member
  exact segment_defines ok

theorem lookup_defines {item : Item} {path : Path} {found : Option AttributeValue}
    (ok : given.lookup item path = .ok found) : given.Defines (.ofPath path) := by
  obtain ⟨location, ok, _⟩ := map_ok ok
  exact location_defines ok

end Bindings

namespace Placeholders

/-- What a condition uses wherever it is evaluated: not what stands behind `AND` or `OR`, nor the
candidates of `IN`. -/
def surelyOfCondition : Condition → Placeholders
  | .among value _ => ofOperand value
  | .logical _ left _ => surelyOfCondition left
  | .not inner => surelyOfCondition inner
  | condition => ofCondition condition

def surelyOfUpdateOperand : UpdateOperand → Placeholders
  | .ifNotExists target _ => ofPath target
  | .listAppend head tail => surelyOfUpdateOperand head ++ surelyOfUpdateOperand tail
  | operand => ofUpdateOperand operand

def surelyOfSetValue : SetValue → Placeholders
  | .operand source => surelyOfUpdateOperand source
  | .plus left right => surelyOfUpdateOperand left ++ surelyOfUpdateOperand right
  | .minus left right => surelyOfUpdateOperand left ++ surelyOfUpdateOperand right

def surelyOfUpdate (update : Update) : Placeholders :=
  ofAll (fun action => ofPath action.1 ++ surelyOfSetValue action.2) update.set ++
    ofPaths update.remove ++
    ofAll (fun action => ofPath action.1 ++ ofValue action.2) update.add ++
    ofAll (fun action => ofPath action.1 ++ ofValue action.2) update.delete

end Placeholders

section Evaluated

open Bindings

variable {given : Bindings} {item : Item}

theorem Operand.evaluate_defines {operand : Operand} {value : Option AttributeValue}
    (ok : operand.evaluate given item = .ok value) : given.Defines (.ofOperand operand) := by
  cases operand with
  | path target => exact lookup_defines ok
  | value placeholder =>
      obtain ⟨value, ok, _⟩ := map_ok ok
      exact value_defines ok
  | size target =>
      obtain ⟨found, ok, _⟩ := bind_ok ok
      exact lookup_defines ok

theorem Condition.evaluate_defines : ∀ (condition : Condition) {holds : Bool},
    condition.evaluate given item = .ok holds → given.Defines (.surelyOfCondition condition)
  | .compare left _ right, _, ok => by
      obtain ⟨_, first, ok⟩ := bind_ok ok
      obtain ⟨_, second, _⟩ := bind_ok ok
      exact (Operand.evaluate_defines first).append (Operand.evaluate_defines second)
  | .between value low high, _, ok => by
      obtain ⟨_, first, ok⟩ := bind_ok ok
      obtain ⟨_, second, ok⟩ := bind_ok ok
      obtain ⟨_, _, ok⟩ := bind_ok ok
      obtain ⟨_, third, _⟩ := bind_ok ok
      exact ((Operand.evaluate_defines third).append (Operand.evaluate_defines first)).append
        (Operand.evaluate_defines second)
  | .among value _, _, ok => by
      obtain ⟨_, first, _⟩ := bind_ok ok
      exact Operand.evaluate_defines first
  | .logical .and left _, _, ok => by
      obtain ⟨_, first, _⟩ := bind_ok ok
      exact evaluate_defines left first
  | .logical .or left _, _, ok => by
      obtain ⟨_, first, _⟩ := bind_ok ok
      exact evaluate_defines left first
  | .not inner, _, ok => by
      obtain ⟨_, first, _⟩ := bind_ok ok
      exact evaluate_defines inner first
  | .attributeExists _, _, ok => by
      obtain ⟨_, first, _⟩ := bind_ok ok
      exact lookup_defines first
  | .attributeNotExists _, _, ok => by
      obtain ⟨_, first, _⟩ := bind_ok ok
      exact lookup_defines first
  | .attributeType _ _, _, ok => by
      obtain ⟨_, first, ok⟩ := bind_ok ok
      obtain ⟨_, second, _⟩ := bind_ok ok
      exact (lookup_defines first).append (Operand.evaluate_defines second)
  | .beginsWith _ _, _, ok => by
      obtain ⟨_, first, ok⟩ := bind_ok ok
      obtain ⟨_, second, _⟩ := bind_ok ok
      exact (lookup_defines first).append (Operand.evaluate_defines second)
  | .contains _ _, _, ok => by
      obtain ⟨_, first, ok⟩ := bind_ok ok
      obtain ⟨_, second, _⟩ := bind_ok ok
      exact (lookup_defines first).append (Operand.evaluate_defines second)

theorem UpdateOperand.evaluate_defines : ∀ {operand : UpdateOperand} {value : AttributeValue},
    operand.evaluate given item = .ok value → given.Defines (.surelyOfUpdateOperand operand)
  | .path _, _, ok => by
      obtain ⟨_, first, _⟩ := bind_ok ok
      exact lookup_defines first
  | .value _, _, ok => value_defines ok
  | .ifNotExists _ _, _, ok => by
      obtain ⟨_, first, _⟩ := bind_ok ok
      exact lookup_defines first
  | .listAppend _ _, _, ok => by
      obtain ⟨_, first, ok⟩ := bind_ok ok
      obtain ⟨_, second, _⟩ := bind_ok ok
      exact (evaluate_defines first).append (evaluate_defines second)

theorem SetValue.evaluate_defines {source : SetValue} {value : AttributeValue}
    (ok : source.evaluate given item = .ok value) :
    given.Defines (.surelyOfSetValue source) := by
  cases source with
  | operand operand => exact UpdateOperand.evaluate_defines ok
  | plus left right | minus left right =>
      obtain ⟨_, first, ok⟩ := bind_ok ok
      obtain ⟨_, second, _⟩ := bind_ok ok
      exact (UpdateOperand.evaluate_defines first).append (UpdateOperand.evaluate_defines second)

namespace Update

theorem apply_defines {update : Update} {after : Item} (ok : update.apply given item = .ok after) :
    given.Defines (.surelyOfUpdate update) := by
  obtain ⟨set, sets, ok⟩ := bind_ok ok
  obtain ⟨locations, removes, ok⟩ := bind_ok ok
  obtain ⟨added, adds, deletes⟩ := bind_ok ok
  refine (((Bindings.Defines.ofAll fun action member => ?_).append
    (.ofAll fun path member => ?_)).append (.ofAll fun action member => ?_)).append
    (.ofAll fun action member => ?_)
  · obtain ⟨before, after, ok⟩ := foldlM_reaches sets action member
    obtain ⟨value, first, ok⟩ := bind_ok ok
    obtain ⟨location, second, _⟩ := bind_ok ok
    exact (location_defines second).append (SetValue.evaluate_defines first)
  · obtain ⟨location, _, ok⟩ := mapM_reaches removes path member
    exact location_defines ok
  · obtain ⟨before, after, ok⟩ := foldlM_reaches adds action member
    obtain ⟨operand, first, ok⟩ := bind_ok ok
    obtain ⟨location, second, _⟩ := bind_ok ok
    exact (location_defines second).append (value_defines first)
  · obtain ⟨before, after, ok⟩ := foldlM_reaches deletes action member
    obtain ⟨operand, first, ok⟩ := bind_ok ok
    split at ok
    · cases ok
    · obtain ⟨location, second, _⟩ := bind_ok ok
      exact (location_defines second).append (value_defines first)

theorem checkTargets_defines {keyAttributes : List String} :
    ∀ {paths : List Path} {seen : List (Path × Location)},
      checkTargets given keyAttributes seen paths = .ok () → given.Defines (.ofPaths paths)
  | [], _, _ => .none
  | _ :: _, _, ok => by
      obtain ⟨location, here, ok⟩ := bind_ok ok
      split at ok
      · cases ok
      · split at ok
        · cases ok
        · exact (location_defines here).append (checkTargets_defines ok)

theorem validate_defines {update : Update} {keyAttributes : List String}
    (ok : update.validate given keyAttributes = .ok ()) :
    given.Defines (.ofPaths update.targets) :=
  checkTargets_defines ok

end Update

theorem Projection.apply_defines {paths : List Path} {after : Item}
    (ok : Projection.apply paths given item = .ok after) : given.Defines (.ofPaths paths) := by
  obtain ⟨locations, located, _⟩ := map_ok ok
  refine .ofAll fun path member => ?_
  obtain ⟨location, _, ok⟩ := mapM_reaches located path member
  exact location_defines ok

namespace KeyCondition

def usedByTerm : Term → Placeholders
  | .compare left _ right => .ofOperand left ++ .ofOperand right
  | .between value low high => .ofOperand value ++ .ofOperand low ++ .ofOperand high
  | .beginsWith target start => .ofPath target ++ .ofOperand start

theorem keyName_defines {target : Path} {name : String} (ok : keyName given target = .ok name) :
    given.Defines (.ofPath target) := by
  obtain ⟨location, ok, _⟩ := bind_ok ok
  exact location_defines ok

theorem ofComparison_defines {target : Path} {comparator : Comparator} {placeholder : String}
    {asked : String × SortCondition}
    (ok : ofComparison given target comparator placeholder = .ok asked) :
    given.Defines (.ofPath target) ∧ given.Defines (.ofValue placeholder) := by
  obtain ⟨value, first, ok⟩ := bind_ok ok
  obtain ⟨_, _, ok⟩ := bind_ok ok
  obtain ⟨_, _, ok⟩ := bind_ok ok
  obtain ⟨name, second, _⟩ := bind_ok ok
  exact ⟨keyName_defines second, value_defines first⟩

theorem ofTerm_defines {term : Term} {asked : String × SortCondition}
    (ok : ofTerm given term = .ok asked) : given.Defines (usedByTerm term) := by
  rw [ofTerm.eq_def] at ok
  split at ok
  · obtain ⟨name, value⟩ := ofComparison_defines ok
    exact name.append value
  · obtain ⟨name, value⟩ := ofComparison_defines ok
    exact value.append name
  · cases ok
  · obtain ⟨_, first, ok⟩ := bind_ok ok
    obtain ⟨_, second, ok⟩ := bind_ok ok
    obtain ⟨_, _, ok⟩ := bind_ok ok
    obtain ⟨_, _, ok⟩ := bind_ok ok
    obtain ⟨_, _, ok⟩ := bind_ok ok
    obtain ⟨_, named, _⟩ := bind_ok ok
    exact ((keyName_defines named).append (value_defines first)).append (value_defines second)
  · cases ok
  · rename_i target placeholder
    obtain ⟨start, first, ok⟩ := bind_ok ok
    have named : ∃ name, keyName given target = .ok name := by
      split at ok
      · obtain ⟨name, named, _⟩ := bind_ok ok
        exact ⟨name, named⟩
      · obtain ⟨name, named, _⟩ := bind_ok ok
        exact ⟨name, named⟩
      · cases ok
    obtain ⟨name, named⟩ := named
    exact (keyName_defines named).append (value_defines first)
  · cases ok

theorem terms_defines : ∀ (condition : Condition) {parts : List Term},
    terms condition = .ok parts → (∀ part ∈ parts, given.Defines (usedByTerm part)) →
    given.Defines (.ofCondition condition)
  | .logical .and left right, _, ok, defined => by
      obtain ⟨lefts, first, ok⟩ := bind_ok ok
      obtain ⟨rights, second, ok⟩ := bind_ok ok
      cases ok
      have here := terms_defines left first fun part member =>
        defined part (List.mem_append_left _ member)
      exact here.append (terms_defines right second fun part member =>
        defined part (List.mem_append_right _ member))
  | .compare left comparator right, _, rfl, defined => defined _ List.mem_cons_self
  | .between value low high, _, rfl, defined => defined _ List.mem_cons_self
  | .beginsWith target start, _, rfl, defined => defined _ List.mem_cons_self

theorem compile_defines {condition : Condition} {hashKey : String} {sortKey : Option String}
    {compiled : KeyCondition} (ok : compile condition given hashKey sortKey = .ok compiled) :
    given.Defines (.ofCondition condition) := by
  obtain ⟨parts, split, ok⟩ := bind_ok ok
  obtain ⟨known, gathered, _⟩ := bind_ok ok
  refine terms_defines condition split fun part member => ?_
  obtain ⟨_, _, ok⟩ := foldlM_reaches gathered part member
  obtain ⟨asked, ok, _⟩ := bind_ok ok
  exact ofTerm_defines ok

end KeyCondition

end Evaluated
end ItemStore
