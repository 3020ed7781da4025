import ItemStore.Proofs.Key.Bounds
import ItemStore.Proofs.Store.Rows
import ItemStore.Store.Range

/-!
A range read comes to what is left of all rows when each is looked at: those that match, after the
start, in the direction of the read.
-/

namespace ItemStore

section Lists

variable {α : Type} {keep take : α → Bool} {values : List α}

theorem takeWhile_eq_filter
    (closed : values.Pairwise fun earlier later => keep later = true → keep earlier = true) :
    values.takeWhile keep = values.filter keep := by
  induction values with
  | nil => rfl
  | cons value rest ih =>
      obtain ⟨before, later⟩ := List.pairwise_cons.mp closed
      cases here : keep value with
      | true => rw [List.takeWhile_cons_of_pos here, List.filter_cons_of_pos here, ih later]
      | false =>
          have none : rest.filter keep = [] := by
            refine List.filter_eq_nil_iff.mpr fun other member kept => ?_
            rw [before other member kept] at here
            cases here
          simp [here, none]

theorem dropWhile_not_eq_filter
    (closed : values.Pairwise fun earlier later => keep earlier = true → keep later = true) :
    values.dropWhile (fun value => !keep value) = values.filter keep := by
  induction values with
  | nil => rfl
  | cons value rest ih =>
      obtain ⟨before, later⟩ := List.pairwise_cons.mp closed
      cases here : keep value with
      | false => simp [here, ih later]
      | true =>
          have all : rest.filter keep = rest :=
            List.filter_eq_self.mpr fun other member => before other member here
          simp [here, all]

theorem filter_takeWhile (stops : ∀ value ∈ values, take value = false → keep value = false)
    (ends : values.Pairwise fun earlier later => take earlier = false → keep later = false) :
    (values.takeWhile take).filter keep = values.filter keep := by
  induction values with
  | nil => rfl
  | cons value rest ih =>
      obtain ⟨before, later⟩ := List.pairwise_cons.mp ends
      cases here : take value with
      | true =>
          have same := ih (fun other member => stops other (List.mem_cons_of_mem _ member)) later
          rw [List.takeWhile_cons_of_pos here, List.filter_cons, List.filter_cons, same]
      | false =>
          have none : rest.filter keep = [] := List.filter_eq_nil_iff.mpr fun other member => by
            simp [before other member here]
          simp [here, none, stops value List.mem_cons_self here]

theorem filter_dropWhile (skips : ∀ value, take value = true → keep value = false) :
    (values.dropWhile take).filter keep = values.filter keep := by
  induction values with
  | nil => rfl
  | cons value rest ih =>
      cases here : take value with
      | true => simp [here, ih, skips value here]
      | false => simp [here]

end Lists

namespace RangeQuery

def precedes (forward : Bool) (a b : RowKey) : Bool :=
  if forward then (compare a b).isLT else (compare b a).isLT

def admits (query : RangeQuery) (row : Row) : Bool :=
  query.hash.all fun hash => row.key.hash == hash && matching query.condition row

def selects (query : RangeQuery) (row : Row) : Bool :=
  query.admits row && query.after.all fun start => precedes query.forward start row.key

def selected (query : RangeQuery) (rows : List Row) : List Row :=
  if query.forward then rows.filter query.selects else (rows.filter query.selects).reverse

section Partition

variable {condition : Option SortCondition} {after : Option (List KeyValue)} {rows : List Row}
  {row other : Row}

theorem compare_sort_of_hash_eq {a b : RowKey} (same : a.hash = b.hash) :
    compare a b = compare a.sort b.sort := by
  have lexicographic : compare a b = (compare a.hash b.hash).then (compare a.sort b.sort) := rfl
  rw [lexicographic, same, Std.ReflOrd.compare_self]
  rfl

theorem head_le {a b : List KeyValue} (order : (compare a b).isLE = true) {first : KeyValue}
    (begins : a.head? = some first) :
    ∃ second, b.head? = some second ∧ (compare first second).isLE = true := by
  cases a with
  | nil => cases begins
  | cons head rest =>
      cases begins
      cases b with
      | nil => cases order
      | cons second later =>
          refine ⟨second, rfl, ?_⟩
          rw [List.compare_cons_cons, Ordering.isLE_then_iff_and] at order
          exact order.1

theorem matching_some (condition : SortCondition) :
    matching (some condition) row = row.key.sort.head?.any condition.matching := by
  rw [matching, sortMatches.eq_def]
  cases row.key.sort.head? <;> rfl

theorem above_some (condition : SortCondition) :
    above (some condition) row = row.key.sort.head?.any condition.isAbove := by
  rw [above, beyond.eq_def]
  cases row.key.sort.head? <;> rfl

theorem below_some (condition : SortCondition) :
    below (some condition) row = row.key.sort.head?.any condition.isBelow := by
  rw [below, beyond.eq_def]
  cases row.key.sort.head? <;> rfl

theorem not_matching_of_above (order : (compare row.key.sort other.key.sort).isLE = true)
    (beyond : above condition row = true) : matching condition other = false := by
  cases condition with
  | none => cases beyond
  | some condition =>
      rw [above_some] at beyond
      rw [matching_some]
      obtain ⟨first, begins, beyond⟩ := (Option.any_eq_true _ _).mp beyond
      obtain ⟨second, also, before⟩ := head_le order begins
      have further := SortCondition.isAbove_of_le beyond before
      rw [also]
      cases met : condition.matching second with
      | false => exact met
      | true =>
          rw [SortCondition.not_isAbove met] at further
          cases further

theorem not_matching_of_below (order : (compare other.key.sort row.key.sort).isLE = true)
    (under : below condition row = true) : matching condition other = false := by
  cases condition with
  | none => cases under
  | some condition =>
      rw [below_some] at under
      rw [matching_some]
      cases begins : other.key.sort.head? with
      | none => rfl
      | some first =>
          obtain ⟨second, also, before⟩ := head_le order begins
          rw [also] at under
          have further := SortCondition.isBelow_of_le under before
          cases met : condition.matching first with
          | false => exact met
          | true =>
              rw [SortCondition.not_isBelow met] at further
              cases further

theorem not_before_lowerBound {condition : SortCondition} {low : KeyValue}
    (bound : condition.lowerBound? = some low) (met : matching (some condition) row = true) :
    (compare [low] row.key.sort).isLE = true := by
  rw [matching_some] at met
  obtain ⟨first, begins, met⟩ := (Option.any_eq_true _ _).mp met
  obtain ⟨rest, sort⟩ := List.head?_eq_some_iff.mp begins
  rw [sort, List.compare_cons_cons, Ordering.isLE_then_iff_and]
  refine ⟨SortCondition.lowerBound_le met bound, Or.inr ?_⟩
  cases rest <;> rfl

theorem before_lowerBound {sort : List KeyValue} {low : KeyValue}
    (under : ¬(sort.head?.any fun first => (compare first low).isGE) = true) :
    compare sort [low] = .lt := by
  cases sort with
  | nil => rfl
  | cons first rest =>
      have less : (compare first low).isGE = false := by simpa using under
      rw [← Ordering.not_isLT_eq_isGE, Bool.not_eq_false', Ordering.isLT_iff_eq_lt] at less
      rw [List.compare_cons_cons, less]
      rfl

/-- A forward read begins so that it misses none that match after the start, and sees none up to
the start. -/
theorem admitsFrom_and_matching :
    ((start after condition).admitsFrom row.key.sort && matching condition row) =
      (matching condition row && after.all fun sort => (compare sort row.key.sort).isLT) := by
  rw [Bool.and_comm]
  cases met : matching condition row with
  | false => rfl
  | true =>
      rw [Bool.true_and, Bool.true_and, start.eq_def]
      split
      · rfl
      · exact Std.OrientedCmp.isGT_eq_isLT
      · rename_i low bound
        obtain ⟨condition, rfl, bound⟩ := Option.bind_eq_some_iff.mp bound
        exact Std.OrientedCmp.isGE_of_isLE (not_before_lowerBound bound met)
      · rename_i sort low bound
        obtain ⟨condition, rfl, bound⟩ := Option.bind_eq_some_iff.mp bound
        have reached := not_before_lowerBound bound met
        split
        · exact Std.OrientedCmp.isGT_eq_isLT
        · rename_i under
          have less := Std.TransCmp.lt_of_lt_of_isLE (before_lowerBound under) reached
          rw [Option.all_some, less]
          exact Std.OrientedCmp.isGE_of_isLE reached

theorem ascending_eq_filter
    (sorted : rows.Pairwise fun a b => compare a.key.sort b.key.sort = .lt) :
    ascending after condition rows = rows.filter fun row =>
      matching condition row && after.all fun sort => (compare sort row.key.sort).isLT := by
  have reached : rows.Pairwise fun a b =>
      (start after condition).admitsFrom a.key.sort = true →
      (start after condition).admitsFrom b.key.sort = true :=
    sorted.imp Bound.admitsFrom_mono
  have stops : ∀ row, (!above condition row) = false → matching condition row = false :=
    fun row beyond => not_matching_of_above Std.ReflCmp.isLE_rfl (by simpa using beyond)
  have ends : rows.Pairwise fun a b =>
      (!above condition a) = false → matching condition b = false :=
    sorted.imp fun less beyond => not_matching_of_above (isLE_of_lt less) (by simpa using beyond)
  have endsReached := ends.sublist
    (@List.filter_sublist _ (fun row => (start after condition).admitsFrom row.key.sort) rows)
  rw [ascending, dropWhile_not_eq_filter reached,
    filter_takeWhile (fun row _ => stops row) endsReached, List.filter_filter]
  refine List.filter_congr fun row _ => ?_
  rw [Bool.and_comm, admitsFrom_and_matching]

theorem descending_eq_filter
    (sorted : rows.Pairwise fun a b => compare a.key.sort b.key.sort = .lt) :
    descending after condition rows = (rows.filter fun row => matching condition row &&
      after.all fun sort => (compare row.key.sort sort).isLT).reverse := by
  have earlier : rows.Pairwise fun a b =>
      (after.all fun sort => (compare b.key.sort sort).isLT) = true →
      (after.all fun sort => (compare a.key.sort sort).isLT) = true := by
    refine sorted.imp fun less => ?_
    cases after with
    | none => exact id
    | some sort =>
        simp only [Option.all_some, Ordering.isLT_iff_eq_lt]
        exact fun later => Std.TransCmp.lt_trans less later
  have skips : ∀ row, above condition row = true → matching condition row = false :=
    fun row => not_matching_of_above Std.ReflCmp.isLE_rfl
  have stops : ∀ row, (!below condition row) = false → matching condition row = false :=
    fun row under => not_matching_of_below Std.ReflCmp.isLE_rfl (by simpa using under)
  have ends : rows.reverse.Pairwise fun a b =>
      (!below condition a) = false → matching condition b = false :=
    List.pairwise_reverse.mpr (sorted.imp fun less under =>
      not_matching_of_below (isLE_of_lt less) (by simpa using under))
  rw [descending, takeWhile_eq_filter earlier]
  rw [filter_takeWhile (fun row _ => stops row) (ends.sublist ?_), filter_dropWhile skips,
    List.filter_reverse, List.filter_filter]
  exact (List.dropWhile_sublist _).trans (List.filter_sublist.reverse)

end Partition

theorem precedes_trans {forward : Bool} {a b c : RowKey} (first : precedes forward a b = true)
    (second : precedes forward b c = true) : precedes forward a c = true := by
  cases forward with
  | true =>
      simp only [precedes, if_true, Ordering.isLT_iff_eq_lt] at first second ⊢
      exact Std.TransCmp.lt_trans first second
  | false =>
      simp only [precedes, Bool.false_eq_true, if_false, Ordering.isLT_iff_eq_lt] at first second ⊢
      exact Std.TransCmp.lt_trans second first

theorem precedes_irrefl (forward : Bool) (key : RowKey) : precedes forward key key = false := by
  simp [precedes, Std.ReflOrd.compare_self]

theorem unconditional_eq_filter {forward : Bool} {after : Option RowKey} {rows : List Row}
    (sorted : rows.Pairwise fun a b => compare a.key b.key = .lt) :
    unconditional forward after rows =
      let kept := rows.filter fun row => after.all fun start => precedes forward start row.key
      if forward then kept else kept.reverse := by
  cases forward with
  | true =>
      have passed : (fun row : Row => after.any fun key => (compare row.key key).isLE) =
          fun row => !after.all fun start => precedes true start row.key := by
        funext row
        cases after with
        | none => rfl
        | some start =>
            rw [Option.any_some, Option.all_some, precedes, if_pos rfl,
              Ordering.not_isLT_eq_isGE, Std.OrientedCmp.isGE_eq_isLE]
      rw [unconditional, if_pos rfl, passed, dropWhile_not_eq_filter]
      · rfl
      · refine sorted.imp fun {earlier later} less => ?_
        have order : precedes true earlier.key later.key = true := by simpa [precedes] using less
        cases after with
        | none => exact id
        | some start => exact fun passed => precedes_trans passed order
  | false =>
      rw [unconditional, if_neg nofun, takeWhile_eq_filter]
      · rfl
      · refine sorted.imp fun {earlier later} less => ?_
        have order : precedes false later.key earlier.key = true := by simpa [precedes] using less
        cases after with
        | none => exact id
        | some start =>
            intro passed
            have passed : precedes false start later.key = true := passed
            exact precedes_trans passed order

theorem partition_sorted {rows : List Row} (hash : KeyValue)
    (sorted : rows.Pairwise fun a b => compare a.key b.key = .lt) :
    (rows.filter fun row => row.key.hash == hash).Pairwise fun a b =>
      compare a.key.sort b.key.sort = .lt := by
  refine List.Pairwise.imp_of_mem (fun memberA memberB less => ?_) (sorted.filter _)
  have hashA := beq_iff_eq.mp (List.mem_filter.mp memberA).2
  have hashB := beq_iff_eq.mp (List.mem_filter.mp memberB).2
  exact compare_sort_of_hash_eq (hashA.trans hashB.symm) ▸ less

theorem run_unlimited (query : RangeQuery) {rows : List Row}
    (sorted : rows.Pairwise fun a b => compare a.key b.key = .lt)
    (same : ∀ hash start, query.hash = some hash → query.after = some start → start.hash = hash) :
    run { query with limit := none } rows = query.selected rows := by
  obtain ⟨hash, condition, forward, after, limit⟩ := query
  cases hash with
  | none => exact unconditional_eq_filter sorted
  | some hash =>
      have inPartition := partition_sorted hash sorted
      have starts : after.filter (fun key => key.hash == hash) = after := by
        cases after with
        | none => rfl
        | some start => exact Option.filter_some_pos (beq_iff_eq.mpr (same hash start rfl rfl))
      have selects : ∀ row : Row,
          RangeQuery.selects ⟨some hash, condition, forward, after, limit⟩ row =
            ((matching condition row && (after.map RowKey.sort).all fun sort =>
              if forward then (compare sort row.key.sort).isLT
              else (compare row.key.sort sort).isLT) && row.key.hash == hash) := by
        intro row
        by_cases here : row.key.hash = hash
        · cases after with
          | none => simp [RangeQuery.selects, admits, here]
          | some start =>
              have same : start.hash = row.key.hash := (same hash start rfl rfl).trans here.symm
              simp [RangeQuery.selects, admits, here, precedes, compare_sort_of_hash_eq same,
                compare_sort_of_hash_eq same.symm]
        · have different : (row.key.hash == hash) = false := beq_eq_false_iff_ne.mpr here
          simp [RangeQuery.selects, admits, different]
      have filtered : (rows.filter fun row => row.key.hash == hash).filter
          (fun row => matching condition row && (after.map RowKey.sort).all fun sort =>
            if forward then (compare sort row.key.sort).isLT
            else (compare row.key.sort sort).isLT) =
          rows.filter (RangeQuery.selects ⟨some hash, condition, forward, after, limit⟩) := by
        rw [List.filter_filter]
        exact List.filter_congr fun row _ => (selects row).symm
      simp only [run, starts, selected, ← filtered]
      cases forward with
      | true => exact ascending_eq_filter inPartition
      | false => exact descending_eq_filter inPartition

theorem run_eq_selected (query : RangeQuery) {rows : List Row}
    (sorted : rows.Pairwise fun a b => compare a.key b.key = .lt)
    (same : ∀ hash start, query.hash = some hash → query.after = some start → start.hash = hash) :
    query.run rows = match query.limit with
      | none => query.selected rows
      | some limit => (query.selected rows).take limit := by
  rw [← query.run_unlimited sorted same]
  obtain ⟨hash, condition, forward, after, limit⟩ := query
  cases limit <;> rfl

theorem mem_of_mem_ascending {after : Option (List KeyValue)} {condition : Option SortCondition}
    {rows : List Row} {row : Row} (member : row ∈ ascending after condition rows) : row ∈ rows :=
  (List.dropWhile_sublist _).subset
    ((List.takeWhile_sublist _).subset (List.mem_filter.mp member).1)

theorem mem_of_mem_descending {after : Option (List KeyValue)} {condition : Option SortCondition}
    {rows : List Row} {row : Row} (member : row ∈ descending after condition rows) :
    row ∈ rows := by
  have earlier := (List.dropWhile_sublist _).subset
    ((List.takeWhile_sublist _).subset (List.mem_filter.mp member).1)
  exact (List.takeWhile_sublist _).subset (List.mem_reverse.mp earlier)

theorem mem_of_mem_unconditional {forward : Bool} {after : Option RowKey} {rows : List Row}
    {row : Row} (member : row ∈ unconditional forward after rows) : row ∈ rows := by
  rw [unconditional] at member
  split at member
  · exact (List.dropWhile_sublist _).subset member
  · exact (List.takeWhile_sublist _).subset (List.mem_reverse.mp member)

theorem mem_of_mem_run {query : RangeQuery} {rows : List Row} {row : Row}
    (member : row ∈ query.run rows) : row ∈ rows := by
  have found : ∀ {kept : List Row}, row ∈ (match query.limit with
      | none => kept
      | some limit => kept.take limit) → row ∈ kept := by
    intro kept member
    split at member
    · exact member
    · exact List.mem_of_mem_take member
  have member := found member
  split at member
  · exact mem_of_mem_unconditional member
  · split at member
    · exact (List.mem_filter.mp (mem_of_mem_ascending member)).1
    · exact (List.mem_filter.mp (mem_of_mem_descending member)).1

theorem mem_selected {query : RangeQuery} {rows : List Row} {row : Row} :
    row ∈ query.selected rows ↔ row ∈ rows ∧ query.selects row = true := by
  rw [selected]
  split
  · exact List.mem_filter
  · rw [List.mem_reverse, List.mem_filter]

theorem selected_sorted (query : RangeQuery) {rows : List Row}
    (sorted : rows.Pairwise fun a b => compare a.key b.key = .lt) :
    (query.selected rows).Pairwise fun a b => precedes query.forward a.key b.key = true := by
  have kept := sorted.filter query.selects
  rw [selected]
  cases query.forward with
  | true => exact kept.imp fun less => by simpa [precedes] using less
  | false => exact List.pairwise_reverse.mpr (kept.imp fun less => by simpa [precedes] using less)

end RangeQuery

theorem Store.get?_of_mem_query {store : Store} {space : Space} {query : RangeQuery} {row : Row}
    (member : row ∈ store.query space query) : store.get? space row.key = some row.document :=
  Store.mem_rowsOf.mp (RangeQuery.mem_of_mem_run member)

end ItemStore
