import ItemStore.Proofs.Engine.Refinement

/-!
Stores that differ in expired rows alone, and in the rows of indexes that those own. A plan comes to
the same in both, and leaves them to differ in no more.
-/

namespace ItemStore

def Document.Agree : Option Document → Option Document → Prop
  | none, none => True
  | some first, some second => ∃ a b : Item,
      first = ofItem a ∧ second = ofItem b ∧ a.Ordered ∧ b.Ordered ∧ a.equal b = true
  | _, _ => False

namespace Engine

def hides (engine : Engine) (table : Table) (store : Store) (key : RowKey) : Bool :=
  match store.item? ⟨table.name, none⟩ key with
  | some (some item) => engine.isExpired table item
  | _ => false

def liveRow (engine : Engine) (table : Table) (store : Store) (key : RowKey) : Option Document :=
  if engine.hides table store key then none else store.get? ⟨table.name, none⟩ key

def liveEntry (engine : Engine) (table : Table) (index : Index) (store : Store) (key : RowKey) :
    Option Document :=
  if (index.owner? key).any (engine.hides table store) then none
  else store.get? ⟨table.name, some index.name⟩ key

/-- The stores have the same rows, but for those that have expired and what these own in indexes. -/
structure Related (engine : Engine) (first second : Store) : Prop where
  rows : ∀ table, engine.tables.get? table.name = some table → ∀ key,
    engine.liveRow table first key = engine.liveRow table second key
  entries : ∀ table, engine.tables.get? table.name = some table → ∀ index ∈ table.indexes, ∀ key,
    Document.Agree (engine.liveEntry table index first key)
      (engine.liveEntry table index second key)

theorem related_empty {engine : Engine} {store : Store}
    (rows : ∀ table, engine.tables.get? table.name = some table → ∀ key document,
      store.get? ⟨table.name, none⟩ key = some document → engine.hides table store key = true)
    (entries : ∀ table, engine.tables.get? table.name = some table → ∀ index ∈ table.indexes,
      ∀ key document, store.get? ⟨table.name, some index.name⟩ key = some document →
        (index.owner? key).any (engine.hides table store) = true) :
    engine.Related store .empty := by
  have row : ∀ table key, engine.liveRow table .empty key = none := fun _ _ => rfl
  have entry : ∀ table index key, engine.liveEntry table index .empty key = none := by
    intro table index key
    exact ite_self none
  constructor
  · intro table listed key
    rw [row, liveRow]
    split
    · rfl
    · rename_i shown
      cases found : store.get? ⟨table.name, none⟩ key with
      | none => rfl
      | some document => exact absurd (rows table listed key document found) shown
  · intro table listed index member key
    rw [entry, liveEntry]
    split
    · exact trivial
    · rename_i shown
      cases found : store.get? ⟨table.name, some index.name⟩ key with
      | none => exact trivial
      | some document => exact absurd (entries table listed index member key document found) shown

/-! The same, told of the items that the rows were written for. -/

def shows (engine : Engine) (table : Table) (item : Item) : Bool :=
  !(engine.isExpired table item && (Document.ofItem item).toItem?.isSome)

def live (engine : Engine) (map : PlainMap) (table : Table) (key : RowKey) : Option Item :=
  (map table.name key).filter (engine.shows table)

structure Twins (engine : Engine) (first second : Store) (a b : PlainMap) : Prop where
  first : Mirrors engine.tables first a
  second : Mirrors engine.tables second b
  same : ∀ table, engine.tables.get? table.name = some table → ∀ key,
    engine.live a table key = engine.live b table key

section Live

variable {engine : Engine} {table : Table} {store : Store} {map : PlainMap}
  (mirrors : Mirrors engine.tables store map)
  (listed : engine.tables.get? table.name = some table)

include mirrors listed

theorem hides_eq (key : RowKey) :
    engine.hides table store key =
      (map table.name key).any fun item => !engine.shows table item := by
  rw [hides, Store.item?, mirrors.base table listed key]
  cases bound : map table.name key with
  | none => rfl
  | some item =>
      have ordered := (mirrors.accepted table listed key item bound).ordered
      simp only [Option.map_some, Option.any_some, shows, Bool.not_not]
      cases read : (Document.ofItem item).toItem? with
      | none => simp
      | some other =>
          rw [Document.eq_of_toItem?_ofItem ordered read]
          simp

theorem liveRow_eq (key : RowKey) :
    engine.liveRow table store key = (engine.live map table key).map Document.ofItem := by
  rw [liveRow, hides_eq mirrors listed, mirrors.base table listed key, live]
  cases map table.name key with
  | none => rfl
  | some item => cases seen : engine.shows table item <;> simp [Option.filter_some, seen]

theorem stands_liveEntry {index : Index} (member : index ∈ table.indexes) (key : RowKey) :
    Stands (engine.liveEntry table index store key)
      ((index.owner? key).bind fun base =>
        rowAt (oldIndexRow table index (engine.live map table base)) key) := by
  have stands := mirrors.index table listed index member key
  rw [Index.projectedAt] at stands
  rw [liveEntry]
  cases owner : index.owner? key with
  | none =>
      rw [owner] at stands
      exact stands
  | some base =>
      rw [owner] at stands
      simp only [Option.any_some, hides_eq mirrors listed, live, Option.bind_some] at stands ⊢
      cases bound : map table.name base with
      | none =>
          rw [bound] at stands
          exact stands
      | some item =>
          rw [bound] at stands
          cases seen : engine.shows table item
          · simp only [Option.any_some, seen, Bool.not_false, if_true, Option.filter_some,
              Bool.false_eq_true, if_false]
            exact trivial
          · simpa [Option.filter_some, seen] using stands

end Live

section Relations

variable {engine : Engine} {first second : Store} {a b : PlainMap}

theorem agree_of_stands {left right : Option Document} {row : Option Item}
    (one : Stands left row) (other : Stands right row) : Document.Agree left right := by
  cases row with
  | none =>
      cases left <;> cases right
      · trivial
      · exact other.elim
      · exact one.elim
      · exact one.elim
  | some row =>
      cases left with
      | none => exact one.elim
      | some left =>
          cases right with
          | none => exact other.elim
          | some right =>
              obtain ⟨x, rfl, xOrdered, xEqual⟩ := one
              obtain ⟨y, rfl, yOrdered, yEqual⟩ := other
              exact ⟨x, y, rfl, rfl, xOrdered, yOrdered,
                Item.equal_trans xEqual (Item.equal_symm yEqual)⟩

theorem Twins.related (twins : engine.Twins first second a b) : engine.Related first second where
  rows table listed key := by
    rw [liveRow_eq twins.first listed, liveRow_eq twins.second listed, twins.same table listed key]
  entries table listed index member key := by
    have one := stands_liveEntry twins.first listed member key
    have other := stands_liveEntry twins.second listed member key
    simp only [twins.same table listed] at one
    exact agree_of_stands one other

theorem Related.twins (related : engine.Related first second)
    (one : Mirrors engine.tables first a) (other : Mirrors engine.tables second b)
    (readable : first.Readable) (otherReadable : second.Readable) :
    engine.Twins first second a b := by
  refine ⟨one, other, fun table listed key => ?_⟩
  have same := related.rows table listed key
  rw [liveRow_eq one listed, liveRow_eq other listed] at same
  have read : ∀ {store : Store} {map : PlainMap} {item : Item}, Mirrors engine.tables store map →
      store.Readable → engine.live map table key = some item →
      (Document.ofItem item).toItem? = some item := by
    intro store map item mirrors readable seen
    have bound := (Option.filter_eq_some_iff.mp seen).1
    have row : store.get? ⟨table.name, none⟩ key = some (Document.ofItem item) := by
      rw [mirrors.base table listed key, bound]
      rfl
    exact readable.toItem?_ofItem row (mirrors.accepted table listed key item bound).ordered
  cases seen : engine.live a table key with
  | none =>
      rw [seen] at same
      exact (Option.map_eq_none_iff.mp same.symm).symm
  | some item =>
      rw [seen] at same
      obtain ⟨found, alsoSeen, written⟩ := Option.map_eq_some_iff.mp same.symm
      have here := read one readable seen
      rw [← written, read other otherReadable alsoSeen] at here
      rw [alsoSeen, Option.some.inj here]

theorem visible_eq_live {table : Table} {store : Store} {map : PlainMap}
    (mirrors : Mirrors engine.tables store map) (readable : store.Readable)
    (listed : engine.tables.get? table.name = some table) (key : RowKey) :
    engine.visible table (map table.name key) = engine.live map table key := by
  rw [visible, live]
  cases bound : map table.name key with
  | none => rfl
  | some item =>
      have row : store.get? ⟨table.name, none⟩ key = some (Document.ofItem item) := by
        rw [mirrors.base table listed key, bound]
        rfl
      have accepted := mirrors.accepted table listed key item bound
      have read := readable.toItem?_ofItem row accepted.ordered
      simp [Option.filter_some, shows, read]

end Relations

/-! Two runs of one plan. -/

section Plans

variable {engine : Engine} {first second : Store} {a b : PlainMap} {plan : WritePlan}

/-- What a plan comes to is told by what requests see under its key. -/
theorem outcome_eq_outcomeOn (rows : Store) (plan : WritePlan) :
    (engine.effectOn rows plan).map Effect.outcome = plan.outcomeOn (engine.seen rows plan) :=
  effect_outcomeOn plan _

theorem bound_of_ready {rows : Store} {map : PlainMap} (mirrors : Mirrors engine.tables rows map)
    (ready : engine.Ready rows plan) :
    rows.item? plan.space plan.key = some (map.bound plan) := by
  rw [ready.read, PlainMap.bound, mirrors.item?_eq ready.sound.listed ready.read]

theorem mirrors_after_plan {rows : Store} {map : PlainMap}
    (distinct : DistinctIndexes engine.tables) (mirrors : Mirrors engine.tables rows map)
    (ready : engine.Ready rows plan) :
    Mirrors engine.tables (rows.after (engine.writesOn rows plan))
      (settled map plan ((engine.effectOn rows plan).map Effect.outcome)) :=
  holds_after_plan mirrors ready (bound_of_ready mirrors ready) fun _ accepted =>
    replacement_mirrors mirrors distinct ready.sound.listed accepted

theorem live_settled (outcome : Except Failure WriteOutcome) {table : Table} {key : RowKey}
    (same : engine.live a table key = engine.live b table key) :
    engine.live (settled a plan outcome) table key =
      engine.live (settled b plan outcome) table key := by
  rcases outcome with failure | ⟨old, new⟩ | _ | item
  · exact same
  · simp only [live, settled, itemsAfter] at same ⊢
    split
    · rfl
    · exact same
  · exact same
  · exact same

theorem twins_after_plan (distinct : DistinctIndexes engine.tables)
    (twins : engine.Twins first second a b) (one : engine.Ready first plan)
    (other : engine.Ready second plan)
    (same : (engine.effectOn first plan).map Effect.outcome =
      (engine.effectOn second plan).map Effect.outcome) :
    ∃ a b, engine.Twins (first.after (engine.writesOn first plan))
      (second.after (engine.writesOn second plan)) a b := by
  have left := mirrors_after_plan distinct twins.first one
  have right := mirrors_after_plan distinct twins.second other
  rw [same] at left
  exact ⟨_, _, left, right, fun table listed key => live_settled _ (twins.same table listed key)⟩

/-- Plans for different items find in both stores what was there before any of them. -/
theorem twins_after_plans (distinct : DistinctIndexes engine.tables) {plans : List WritePlan}
    (one : ∀ plan ∈ plans, engine.Ready first plan)
    (other : ∀ plan ∈ plans, engine.Ready second plan)
    (outcomes : ∀ plan ∈ plans, (engine.effectOn first plan).map Effect.outcome =
      (engine.effectOn second plan).map Effect.outcome)
    (apart : plans.Pairwise WritePlan.Apart) {left right : Store} {a b : PlainMap}
    (unchanged : ∀ plan ∈ plans, left.item? plan.space plan.key = first.item? plan.space plan.key)
    (alsoUnchanged : ∀ plan ∈ plans,
      right.item? plan.space plan.key = second.item? plan.space plan.key)
    (twins : engine.Twins left right a b) :
    ∃ a b, engine.Twins (left.after (plans.flatMap (engine.writesOn first)))
      (right.after (plans.flatMap (engine.writesOn second))) a b := by
  induction plans generalizing left right a b with
  | nil => exact ⟨a, b, twins⟩
  | cons plan rest ih =>
      obtain ⟨before, later⟩ := List.pairwise_cons.mp apart
      have oneHere := one plan List.mem_cons_self
      have otherHere := other plan List.mem_cons_self
      have leftHere := unchanged plan List.mem_cons_self
      have rightHere := alsoUnchanged plan List.mem_cons_self
      have same : (engine.effectOn left plan).map Effect.outcome =
          (engine.effectOn right plan).map Effect.outcome := by
        rw [effectOn, effectOn, leftHere, rightHere]
        exact outcomes plan List.mem_cons_self
      obtain ⟨a, b, twins⟩ := twins_after_plan distinct twins (oneHere.of_same leftHere)
        (otherHere.of_same rightHere) same
      rw [writesOn_of_same leftHere, writesOn_of_same rightHere] at twins
      rw [List.flatMap_cons, List.flatMap_cons, Store.after_append, Store.after_append]
      refine ih (fun other member => one other (List.mem_cons_of_mem _ member))
        (fun next member => other next (List.mem_cons_of_mem _ member))
        (fun next member => outcomes next (List.mem_cons_of_mem _ member)) later ?_ ?_ twins
      · intro next member
        rw [item?_after_writesOn oneHere (before next member)]
        exact unchanged next (List.mem_cons_of_mem _ member)
      · intro next member
        rw [item?_after_writesOn otherHere (before next member)]
        exact alsoUnchanged next (List.mem_cons_of_mem _ member)

end Plans

end Engine
end ItemStore
