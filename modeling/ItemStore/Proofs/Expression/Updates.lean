import ItemStore.Expression.Update.Targets
import ItemStore.Proofs.Outcomes
import ItemStore.Proofs.Value.Ordered

/-!
What an update leaves as it was. It changes an item action by action, each at one of its targets, so
that what every action keeps the update keeps.
-/

namespace ItemStore
namespace Update

theorem applyRemovals_invariant {item : Item} {locations : List Location} {Holds : Item → Prop}
    (remove : ∀ location ∈ locations, ∀ before : Item, Holds before →
      Holds (before.takeOut location)) (start : Holds item) :
    Holds (applyRemovals item locations) := by
  have sorted : ∀ location ∈ locations.mergeSort fun a b => (compare b a).isLE,
      ∀ before : Item, Holds before → Holds (before.takeOut location) :=
    fun location member => remove location (List.mem_mergeSort.mp member)
  rw [applyRemovals]
  generalize locations.mergeSort (fun a b => (compare b a).isLE) = sequence at sorted
  induction sequence generalizing item with
  | nil => exact start
  | cons location rest ih =>
      exact ih (sorted location List.mem_cons_self item start)
        fun other member => sorted other (List.mem_cons_of_mem _ member)

theorem applyRemovals_nil (item : Item) : applyRemovals item [] = item := by
  rw [applyRemovals, List.mergeSort_nil]
  rfl

theorem apply_of_remove_nil {set : List (Path × SetValue)} {add delete : List (Path × String)}
    (bindings : Bindings) (item : Item) : (⟨set, [], add, delete⟩ : Update).apply bindings item =
      ((set.foldlM (applySet bindings item) item).bind (add.foldlM (applyAdd bindings) ·)).bind
        (delete.foldlM (applyDelete bindings) ·) := by
  rw [apply]
  cases set.foldlM (applySet bindings item) item with
  | error error => rfl
  | ok after =>
      change Except.bind (add.foldlM (applyAdd bindings) (applyRemovals after [])) _ = _
      rw [applyRemovals_nil]
      rfl

/-- What each action of an update keeps the update keeps. -/
theorem apply_invariant {update : Update} {bindings : Bindings} {item new : Item}
    {Holds : Item → Prop}
    (set : ∀ action ∈ update.set, ∀ before after, Holds before →
      applySet bindings item before action = .ok after → Holds after)
    (remove : ∀ path ∈ update.remove, ∀ location, bindings.location path = .ok location →
      ∀ before : Item, Holds before → Holds (before.takeOut location))
    (add : ∀ action ∈ update.add, ∀ before after, Holds before →
      applyAdd bindings before action = .ok after → Holds after)
    (delete : ∀ action ∈ update.delete, ∀ before after, Holds before →
      applyDelete bindings before action = .ok after → Holds after)
    (start : Holds item) (ok : update.apply bindings item = .ok new) : Holds new := by
  obtain ⟨afterSet, setOk, ok⟩ := bind_ok ok
  obtain ⟨locations, located, ok⟩ := bind_ok ok
  obtain ⟨afterAdd, addOk, ok⟩ := bind_ok ok
  have first := foldlM_invariant set start setOk
  have second : Holds (applyRemovals afterSet locations) := by
    refine applyRemovals_invariant (fun location member => ?_) first
    obtain ⟨path, listed, named⟩ := mapM_source located location member
    exact remove path listed location named
  exact foldlM_invariant delete (foldlM_invariant add second addOk) ok

section Clauses

variable {bindings : Bindings} {path : Path} {placeholder : String} {operand : AttributeValue}
  {location : Location} (given : bindings.value placeholder = .ok operand)
  (located : bindings.location path = .ok location)
include given located

theorem applyAdd_eq (item : Item) : applyAdd bindings item (path, placeholder) =
    (added (item.at? location) operand).bind (item.place location) := by
  rw [applyAdd, given, located]
  rfl

theorem applyDelete_eq (set : operand.isSet = true) (item : Item) :
    applyDelete bindings item (path, placeholder) =
      match item.at? location with
      | none => .ok item
      | some current =>
          match current.difference? operand with
          | none => .error (.incorrectOperand "DELETE" current.descriptor)
          | some rest =>
              if rest.isEmptySet then .ok (item.takeOut location)
              else item.place location rest := by
  simp only [applyDelete, given, located, set, bind, Except.bind, Bool.not_true, Bool.false_eq_true,
    if_false]
  rfl

end Clauses

/-- What `ADD` makes of the value at its place: the operand itself where there is none, otherwise
the sum of two numbers or the union of two sets. -/
inductive Adds : Option AttributeValue → AttributeValue → AttributeValue → Prop
  | fresh {operand} : operand.isNumber = true ∨ operand.isSet = true → Adds none operand operand
  | sum {current delta total} : Number.addTexts current delta = .ok total →
      Adds (some (.number current)) (.number delta) (.number total)
  | union {current operand both} : current.union? operand = some both →
      Adds (some current) operand both

theorem adds_of_added {current : Option AttributeValue} {operand result : AttributeValue}
    (ok : added current operand = .ok result) : Adds current operand result := by
  unfold added at ok
  split at ok
  · cases ok; exact .fresh (Or.inl rfl)
  · cases ok; exact .fresh (Or.inr rfl)
  · cases ok; exact .fresh (Or.inr rfl)
  · cases ok; exact .fresh (Or.inr rfl)
  · cases ok
  · split at ok
    · rename_i total sum
      cases ok
      exact .sum sum
    · cases ok
  · split at ok
    · split at ok
      · rename_i both joined
        cases ok
        exact .union joined
      · cases ok
    · split at ok <;> cases ok

end Update

theorem SetValue.arithmetic_ok {sign : String}
    {operation : String → String → Except NumberError String} {left right value : AttributeValue}
    (ok : arithmetic sign operation left right = .ok value) : ∃ a b result,
      operation a b = .ok result ∧ value = .number result := by
  unfold arithmetic at ok
  split at ok
  · split at ok
    · rename_i result computed
      cases ok
      exact ⟨_, _, result, computed, rfl⟩
    · cases ok
  · cases ok
  · cases ok

/-! What values have from their parts the result of an update has too, if what is computed has
it. -/

structure Computed (holds : AttributeValue → Prop) : Prop where
  sum {a b total : String} : Number.addTexts a b = .ok total → holds (.number total)
  difference {a b rest : String} : Number.subTexts a b = .ok rest → holds (.number rest)
  union {a b both : AttributeValue} :
    holds a → holds b → a.union? b = some both → holds both
  rest {a b rest : AttributeValue} : holds a → holds b → a.difference? b = some rest →
    rest.isEmptySet = false → holds rest

theorem Computed.added {holds : AttributeValue → Prop} (computed : Computed holds)
    {current : Option AttributeValue} {operand result : AttributeValue}
    (has : ∀ found, current = some found → holds found) (operandHas : holds operand)
    (ok : Update.added current operand = .ok result) : holds result := by
  cases Update.adds_of_added ok with
  | fresh _ => exact operandHas
  | sum sum => exact computed.sum sum
  | union joined => exact computed.union (has _ rfl) operandHas joined

namespace Inherited

variable {shape : Item → Prop} {holds : AttributeValue → Prop} (inherited : Inherited shape holds)
  {bindings : Bindings} {item new : Item} {value result : AttributeValue}
include inherited

theorem bindingValue (values : holds (.map bindings.values)) {placeholder : String}
    (ok : bindings.value placeholder = .ok value) : holds value := by
  rw [Bindings.value] at ok
  split at ok
  · rename_i found
    cases ok
    exact inherited.get? values found
  · cases ok

theorem operand (has : holds (.map item)) (values : holds (.map bindings.values))
    {operand : UpdateOperand} :
    ∀ {result : AttributeValue}, operand.evaluate bindings item = .ok result → holds result := by
  induction operand with
  | path target =>
      intro result ok
      obtain ⟨found, looked, ok⟩ := bind_ok ok
      obtain ⟨location, _, rfl⟩ := map_ok looked
      split at ok
      · rename_i there
        cases ok
        exact inherited.itemAt? has there
      · cases ok
  | value placeholder =>
      intro result ok
      exact inherited.bindingValue values ok
  | ifNotExists target default ih =>
      intro result ok
      obtain ⟨found, looked, ok⟩ := bind_ok ok
      obtain ⟨location, _, rfl⟩ := map_ok looked
      split at ok
      · rename_i there
        cases ok
        exact inherited.itemAt? has there
      · exact ih ok
  | listAppend head tail ihHead ihTail =>
      intro result ok
      obtain ⟨first, headOk, ok⟩ := bind_ok ok
      obtain ⟨second, tailOk, ok⟩ := bind_ok ok
      have headHas := ihHead headOk
      have tailHas := ihTail tailOk
      split at ok
      · cases ok
        refine inherited.list.mpr fun element member => ?_
        rcases List.mem_append.mp member with left | right
        · exact inherited.list.mp headHas element left
        · exact inherited.list.mp tailHas element right
      · cases ok
      · cases ok

theorem setValue (computed : Computed holds) (has : holds (.map item))
    (values : holds (.map bindings.values)) {source : SetValue}
    (ok : source.evaluate bindings item = .ok result) : holds result := by
  cases source with
  | operand source => exact inherited.operand has values ok
  | plus left right =>
      obtain ⟨_, _, ok⟩ := bind_ok ok
      obtain ⟨_, _, ok⟩ := bind_ok ok
      obtain ⟨_, _, total, sum, rfl⟩ := SetValue.arithmetic_ok ok
      exact computed.sum sum
  | minus left right =>
      obtain ⟨_, _, ok⟩ := bind_ok ok
      obtain ⟨_, _, ok⟩ := bind_ok ok
      obtain ⟨_, _, rest, difference, rfl⟩ := SetValue.arithmetic_ok ok
      exact computed.difference difference

theorem apply (computed : Computed holds) {update : Update} (has : holds (.map item))
    (values : holds (.map bindings.values)) (ok : update.apply bindings item = .ok new) :
    holds (.map new) := by
  refine @Update.apply_invariant update bindings item new (fun after => holds (.map after))
    ?_ ?_ ?_ ?_ has ok
  · intro action _ before after beforeHas stepped
    obtain ⟨value, evaluated, stepped⟩ := bind_ok stepped
    obtain ⟨location, _, placed⟩ := bind_ok stepped
    exact inherited.place beforeHas (inherited.setValue computed has values evaluated) placed
  · intro path _ location _ before beforeHas
    exact inherited.itemTakeOut beforeHas location
  · intro action _ before after beforeHas stepped
    obtain ⟨operand, found, stepped⟩ := bind_ok stepped
    obtain ⟨location, _, stepped⟩ := bind_ok stepped
    obtain ⟨value, sum, placed⟩ := bind_ok stepped
    exact inherited.place beforeHas (computed.added
      (fun _ stands => inherited.itemAt? beforeHas stands)
      (inherited.bindingValue values found) sum) placed
  · intro action _ before after beforeHas stepped
    obtain ⟨operand, found, stepped⟩ := bind_ok stepped
    split at stepped
    · cases stepped
    · obtain ⟨location, _, stepped⟩ := bind_ok stepped
      split at stepped
      · cases stepped
        exact beforeHas
      · rename_i current stands
        split at stepped
        · cases stepped
        · rename_i rest remaining
          split at stepped
          · cases stepped
            exact inherited.itemTakeOut beforeHas location
          · rename_i more
            exact inherited.place beforeHas (computed.rest (inherited.itemAt? beforeHas stands)
              (inherited.bindingValue values found) remaining (Bool.eq_false_iff.mpr more)) stepped

end Inherited

/-! Maps stay in order. -/

theorem AttributeValue.computed_ordered : Computed Ordered where
  sum _ := trivial
  difference _ := trivial
  union _ _ joined := ordered_union? joined
  rest _ _ remaining _ := ordered_difference? remaining

open AttributeValue (inherited_ordered computed_ordered ordered_map)

theorem SetValue.ordered_evaluate {bindings : Bindings} {item : Item} (ordered : item.Ordered)
    (values : Item.Ordered bindings.values) {source : SetValue} {result : AttributeValue}
    (ok : source.evaluate bindings item = .ok result) : result.Ordered :=
  inherited_ordered.setValue computed_ordered (ordered_map.mpr ordered) (ordered_map.mpr values) ok

namespace Update

theorem ordered_added {current : Option AttributeValue} {operand result : AttributeValue}
    (operandOrdered : operand.Ordered) (ok : added current operand = .ok result) :
    result.Ordered := by
  cases adds_of_added ok with
  | fresh _ => exact operandOrdered
  | sum _ => trivial
  | union joined => exact AttributeValue.ordered_union? joined

theorem value_ordered {bindings : Bindings} (values : Item.Ordered bindings.values)
    {placeholder : String} {value : AttributeValue} (ok : bindings.value placeholder = .ok value) :
    value.Ordered :=
  inherited_ordered.bindingValue (ordered_map.mpr values) ok

theorem apply_ordered {update : Update} {bindings : Bindings} {item new : Item}
    (ordered : item.Ordered) (values : Item.Ordered bindings.values)
    (ok : update.apply bindings item = .ok new) : new.Ordered :=
  ordered_map.mp (inherited_ordered.apply computed_ordered (ordered_map.mpr ordered)
    (ordered_map.mpr values) ok)

/-! Attributes that are no targets stay. -/

theorem get?_place_of_ne {item placed : Item} {location : Location} {value : AttributeValue}
    {name : String} (elsewhere : location.top ≠ name)
    (ok : item.place location value = .ok placed) : placed.get? name = item.get? name := by
  rw [Item.place] at ok
  split at ok
  · cases ok
    exact Dict.get?_insert_of_ne (Ne.symm elsewhere) _ _
  · cases ok

theorem get?_takeOut_of_ne {item : Item} {location : Location} {name : String}
    (elsewhere : location.top ≠ name) : (item.takeOut location).get? name = item.get? name := by
  rw [Item.takeOut]
  split
  · exact Dict.get?_erase_of_ne (Ne.symm elsewhere) _
  · split
    · exact Dict.get?_insert_of_ne (Ne.symm elsewhere) _ _
    · rfl

theorem get?_apply_of_untargeted {update : Update} {bindings : Bindings} {item new : Item}
    {name : String} (untargeted : ∀ path ∈ update.targets, ∀ location,
      bindings.location path = .ok location → location.top ≠ name)
    (ok : update.apply bindings item = .ok new) : new.get? name = item.get? name := by
  have targets : ∀ path, (∃ action ∈ update.set, action.1 = path) ∨ path ∈ update.remove ∨
      (∃ action ∈ update.add, action.1 = path) ∨ (∃ action ∈ update.delete, action.1 = path) →
      path ∈ update.targets := by
    intro path listed
    simp only [Update.targets, List.mem_append, List.mem_map, or_assoc]
    exact listed
  let Same (after : Item) := after.get? name = item.get? name
  refine @apply_invariant update bindings item new Same ?_ ?_ ?_ ?_ rfl ok
  · intro action member before after same stepped
    obtain ⟨value, _, stepped⟩ := bind_ok stepped
    obtain ⟨location, located, placed⟩ := bind_ok stepped
    have elsewhere := untargeted _ (targets _ (Or.inl ⟨action, member, rfl⟩)) location located
    exact (get?_place_of_ne elsewhere placed).trans same
  · intro path member location located before same
    have elsewhere := untargeted path (targets _ (Or.inr (Or.inl member))) location located
    exact (get?_takeOut_of_ne elsewhere).trans same
  · intro action member before after same stepped
    obtain ⟨operand, _, stepped⟩ := bind_ok stepped
    obtain ⟨location, located, stepped⟩ := bind_ok stepped
    obtain ⟨value, _, placed⟩ := bind_ok stepped
    have elsewhere := untargeted _ (targets _ (Or.inr (Or.inr (Or.inl ⟨action, member, rfl⟩))))
      location located
    exact (get?_place_of_ne elsewhere placed).trans same
  · intro action member before after same stepped
    obtain ⟨operand, _, stepped⟩ := bind_ok stepped
    split at stepped
    · cases stepped
    · obtain ⟨location, located, stepped⟩ := bind_ok stepped
      have elsewhere := untargeted _ (targets _ (Or.inr (Or.inr (Or.inr ⟨action, member, rfl⟩))))
        location located
      split at stepped
      · cases stepped
        exact same
      · split at stepped
        · cases stepped
        · split at stepped
          · cases stepped
            exact (get?_takeOut_of_ne elsewhere).trans same
          · exact (get?_place_of_ne elsewhere stepped).trans same

section Targets

variable {update : Update} {bindings : Bindings} {names : List String}

theorem meets_symm (a b : Location) : a.meets b = b.meets a := by
  rw [Location.meets, Location.meets, Bool.or_comm, Bool.beq_comm]

theorem checkTargets_ok_iff {seen : List (Path × Location)} {targets : List Path} :
    checkTargets bindings names seen targets = .ok () ↔
      ∃ locations, targets.mapM bindings.location = .ok locations ∧
        (∀ location ∈ locations, location.top ∉ names) ∧
        locations.Pairwise (fun a b => a.meets b = false) ∧
        ∀ earlier ∈ seen, ∀ location ∈ locations, location.meets earlier.2 = false := by
  induction targets generalizing seen with
  | nil => simp [checkTargets, pure, Except.pure]
  | cons path rest ih =>
      constructor
      · intro valid
        obtain ⟨first, located, valid⟩ := bind_ok valid
        split at valid
        · cases valid
        · rename_i noKey
          split at valid
          · cases valid
          · rename_i free
            obtain ⟨locations, placed, noKeys, pairwise, apart⟩ := ih.mp valid
            refine ⟨first :: locations, by rw [List.mapM_cons, located, placed]; rfl, ?_, ?_, ?_⟩
            · refine List.forall_mem_cons.mpr ⟨?_, noKeys⟩
              simpa using noKey
            · refine List.pairwise_cons.mpr ⟨fun location member => ?_, pairwise⟩
              rw [meets_symm]
              exact apart (path, first) (by simp) location member
            · intro earlier member
              refine List.forall_mem_cons.mpr ⟨?_, apart earlier (List.mem_append_left _ member)⟩
              simpa using List.find?_eq_none.mp free earlier member
      · rintro ⟨locations, placed, noKeys, pairwise, apart⟩
        obtain ⟨first, others, located, later, rfl⟩ := mapM_cons_ok placed
        obtain ⟨noKey, noKeys⟩ := List.forall_mem_cons.mp noKeys
        obtain ⟨heads, pairwise⟩ := List.pairwise_cons.mp pairwise
        have free : seen.find? (fun earlier => first.meets earlier.2) = none :=
          List.find?_eq_none.mpr fun earlier member => by
            simp [apart earlier member first List.mem_cons_self]
        have step : checkTargets bindings names seen (path :: rest) =
            checkTargets bindings names (seen ++ [(path, first)]) rest := by
          simp [checkTargets, located, noKey, free, bind, Except.bind]
        rw [step]
        refine ih.mpr ⟨others, later, noKeys, pairwise, fun earlier member location listed => ?_⟩
        rcases List.mem_append.mp member with before | here
        · exact apart earlier before location (List.mem_cons_of_mem _ listed)
        · rw [List.mem_singleton.mp here, meets_symm]
          exact heads location listed

theorem validate_ok_iff : update.validate bindings names = .ok () ↔
    ∃ locations, update.targets.mapM bindings.location = .ok locations ∧
      (∀ location ∈ locations, location.top ∉ names) ∧
      locations.Pairwise fun a b => a.meets b = false := by
  simp [validate, checkTargets_ok_iff]

theorem targets_located (valid : update.validate bindings names = .ok ()) :
    ∃ locations, update.targets.mapM bindings.location = .ok locations := by
  obtain ⟨locations, placed, _⟩ := validate_ok_iff.mp valid
  exact ⟨locations, placed⟩

theorem untargeted_of_validate (valid : update.validate bindings names = .ok ()) {name : String}
    (isKey : name ∈ names) :
    ∀ path ∈ update.targets, ∀ location, bindings.location path = .ok location →
      location.top ≠ name := by
  obtain ⟨locations, placed, noKeys, _⟩ := validate_ok_iff.mp valid
  rintro path member location located rfl
  obtain ⟨_, listed, again⟩ := mapM_reaches placed path member
  cases located.symm.trans again
  exact noKeys location listed isKey

end Targets

end Update

end ItemStore
