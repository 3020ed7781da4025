import ItemStore.Proofs.Store.Memory
import ItemStore.Proofs.Store.NaiveReads

/-!
Range reads in memory. One of a single partition seeks to a bound and stops early, one of a whole
space goes from partition to partition until it has enough. Both find what the naive read finds in
any list of the rows.
-/

namespace ItemStore

namespace RangeQuery

theorem upTo_map {α β : Type} (limit : Option Nat) (f : α → β) (values : List α) :
    (upTo limit values).map f = upTo limit (values.map f) := by
  cases limit with
  | none => rfl
  | some limit => exact List.map_take

theorem upTo_append {α : Type} (limit : Option Nat) (first second : List α) :
    upTo limit first ++
      upTo (limit.map fun count : Nat => count - (upTo limit first).length) second =
      upTo limit (first ++ second) := by
  cases limit with
  | none => rfl
  | some limit =>
      have missing : limit - (first.take limit).length = limit - first.length := by
        rw [List.length_take]
        omega
      simp only [upTo, Option.map_some, missing, List.take_append]

theorem upTo_append_of_full {α : Type} {limit : Option Nat} {first : List α}
    (full : (limit.any fun count : Nat => count ≤ (upTo limit first).length) = true) (second : List α) :
    upTo limit (first ++ second) = upTo limit first := by
  cases limit with
  | none => cases full
  | some limit =>
      simp only [Option.any_some, decide_eq_true_eq, upTo, List.length_take] at full
      exact List.take_append_of_le_length (by omega)

/-! One partition. -/

section Partition

variable (hash : KeyValue) (partition : Partition) {condition : Option SortCondition}
  {after : Option (List KeyValue)}

theorem ascending_toRow : ascending after condition (partition.entries.map (toRow hash)) =
    (((partition.range (start after condition) .unbounded).takeWhile fun entry =>
      !beyond SortCondition.isAbove condition entry.1).filter fun entry =>
        sortMatches condition entry.1).map (toRow hash) := by
  have reached : partition.entries.dropWhile
      (fun entry => !(start after condition).admitsFrom entry.1) =
        partition.range (start after condition) .unbounded := by
    rw [dropWhile_not_eq_filter (partition.ascending.imp Bound.admitsFrom_mono), SortedDict.range]
    exact List.filter_congr fun _ _ => (Bool.and_true _).symm
  rw [ascending, List.dropWhile_map, List.takeWhile_map, List.filter_map, ← reached]
  rfl

theorem admitsTo_rowBound (sort : List KeyValue) : (rowBound after).admitsTo sort =
      after.all fun start => (compare sort start).isLT := by
  cases after <;> rfl

theorem descending_toRow : descending after condition (partition.entries.map (toRow hash)) =
    ((((partition.range .unbounded (rowBound after)).reverse.dropWhile fun entry =>
      beyond SortCondition.isAbove condition entry.1).takeWhile fun entry =>
        !beyond SortCondition.isBelow condition entry.1).filter fun entry =>
          sortMatches condition entry.1).map (toRow hash) := by
  have earlier : partition.entries.takeWhile
      (fun entry => after.all fun start => (compare entry.1 start).isLT) =
        partition.range .unbounded (rowBound after) := by
    rw [takeWhile_eq_filter]
    · exact List.filter_congr fun entry _ => (admitsTo_rowBound entry.1).symm
    · refine partition.ascending.imp fun {a b} less later => ?_
      cases after with
      | none => rfl
      | some start =>
          simp only [Option.all_some, Ordering.isLT_iff_eq_lt] at later ⊢
          exact Std.TransCmp.lt_trans less later
  simp only [descending, List.takeWhile_map]
  rw [← List.map_reverse, List.dropWhile_map, List.takeWhile_map, List.filter_map, ← earlier]
  rfl

theorem collectPartition_empty (forward : Bool) (limit : Option Nat) :
    collectPartition hash .empty condition forward after limit = [] := by
  cases forward <;> cases limit <;> simp [collectPartition, upTo, SortedDict.range, SortedDict.empty]

theorem collectPartition_eq (forward : Bool) (limit : Option Nat) :
    collectPartition hash partition condition forward after limit = upTo limit
      (if forward then ascending after condition (partition.entries.map (toRow hash))
       else descending after condition (partition.entries.map (toRow hash))) := by
  rw [collectPartition, upTo_map]
  cases forward with
  | true => simp only [if_true, ascending_toRow]
  | false => simp only [Bool.false_eq_true, if_false, descending_toRow]

end Partition

/-! All partitions. -/

def inDirection {α : Type} (forward : Bool) (values : List α) : List α :=
  if forward then values else values.reverse

theorem inDirection_map {α β : Type} (forward : Bool) (f : α → β) (values : List α) :
    inDirection forward (values.map f) = (inDirection forward values).map f := by
  cases forward with
  | true => rfl
  | false => exact List.map_reverse.symm

theorem inDirection_flatMap {α β : Type} (forward : Bool) (f : α → List β) (values : List α) :
    inDirection forward (values.flatMap f) =
      (inDirection forward values).flatMap fun value => inDirection forward (f value) := by
  cases forward with
  | true => rfl
  | false => exact List.reverse_flatMap

def admitsIn {κ : Type} [Ord κ] (forward : Bool) (bound : Bound κ) (key : κ) : Bool :=
  if forward then bound.admitsFrom key else bound.admitsTo key

theorem all_precedes (forward : Bool) (after : Option RowKey) (hash : KeyValue)
    (sort : List KeyValue) : (after.all fun start => precedes forward start ⟨hash, sort⟩) =
      (admitsIn forward (partitionBound after) hash &&
        admitsIn forward (rowBound (startIn after hash)) sort) := by
  cases after with
  | none => cases forward <;> rfl
  | some start =>
      have lexicographic : compare start ⟨hash, sort⟩ =
          (compare start.hash hash).then (compare start.sort sort) := rfl
      have back : compare ⟨hash, sort⟩ start =
          (compare hash start.hash).then (compare sort start.sort) := rfl
      rw [Option.all_some, precedes, lexicographic, back]
      by_cases same : start.hash = hash
      · subst same
        have here : startIn (some start) start.hash = some start.sort := by
          simp [startIn, Option.filter_some]
        rw [here]
        cases forward with
        | true =>
            simp [admitsIn, partitionBound, rowBound, Bound.admitsFrom, Std.ReflOrd.compare_self,
              Std.OrientedCmp.isGT_eq_isLT]
        | false =>
            simp [admitsIn, partitionBound, rowBound, Bound.admitsTo, Std.ReflOrd.compare_self]
      · have elsewhere : startIn (some start) hash = none := by simp [startIn, same]
        rw [elsewhere]
        cases forward with
        | true =>
            have bounds : (compare hash start.hash).isGE = (compare start.hash hash).isLE :=
              Std.OrientedCmp.isGE_eq_isLE
            simp only [admitsIn, partitionBound, rowBound, if_true, Option.elim_some,
              Option.elim_none, Bound.admitsFrom, Bool.and_true, bounds]
            cases order : compare start.hash hash with
            | lt => rfl
            | eq => exact absurd (Std.LawfulEqOrd.eq_of_compare order) same
            | gt => rfl
        | false =>
            simp only [admitsIn, partitionBound, rowBound, Bool.false_eq_true, if_false,
              Option.elim_some, Option.elim_none, Bound.admitsTo, Bool.and_true]
            cases order : compare hash start.hash with
            | lt => rfl
            | eq => exact absurd (Std.LawfulEqOrd.eq_of_compare order).symm same
            | gt => rfl

theorem range_inDirection {κ α : Type} [Ord κ] (forward : Bool) (bound : Bound κ)
    (dict : SortedDict κ α) :
    (if forward then dict.range bound .unbounded else (dict.range .unbounded bound).reverse) =
      inDirection forward (dict.entries.filter fun entry => admitsIn forward bound entry.1) := by
  cases forward with
  | true => simp [inDirection, SortedDict.range, admitsIn, Bound.admitsTo]
  | false => simp [inDirection, SortedDict.range, admitsIn, Bound.admitsFrom]

def rowsAfter (forward : Bool) (after : Option RowKey) (entry : KeyValue × Partition) : List Row :=
  (entry.2.entries.filter fun row =>
    admitsIn forward (rowBound (startIn after entry.1)) row.1).map (toRow entry.1)

/-- The loop over the partitions stops where enough is found, and takes no more from the last one
than is missing. -/
theorem collectEach_eq (forward : Bool) (after : Option RowKey) (limit : Option Nat)
    (partitions : List (KeyValue × Partition)) : ∀ rows,
    collectEach forward after limit (upTo limit rows) partitions = upTo limit
      (rows ++ partitions.flatMap fun entry =>
        inDirection forward (rowsAfter forward after entry)) := by
  induction partitions with
  | nil => simp [collectEach]
  | cons entry rest ih =>
      intro rows
      rw [collectEach]
      split
      · rename_i full
        exact (upTo_append_of_full full _).symm
      · dsimp only
        rw [upTo_map, List.flatMap_cons, ← List.append_assoc, ← ih, upTo_append, entriesAfter,
          range_inDirection, ← inDirection_map]
        rfl

theorem filter_rows (forward : Bool) (after : Option RowKey) (partitions : Partitions) :
    (partitions.rows.filter fun row => after.all fun start => precedes forward start row.key) =
      (partitions.entries.filter fun entry =>
        admitsIn forward (partitionBound after) entry.1).flatMap (rowsAfter forward after) := by
  rw [Partitions.rows]
  induction partitions.entries with
  | nil => rfl
  | cons entry rest ih =>
      have passed : ((fun row : Row => after.all fun start => precedes forward start row.key) ∘
          toRow entry.1) = fun row => _ :=
        funext fun row => all_precedes forward after entry.1 row.1
      rw [List.flatMap_cons, List.filter_append, ih, List.filter_map, passed, List.filter_cons]
      cases admitted : admitsIn forward (partitionBound after) entry.1 with
      | true =>
          simp only [Bool.true_and, if_true, List.flatMap_cons]
          rfl
      | false =>
          have none : (entry.2.entries.filter fun _ => false) = [] :=
            List.filter_eq_nil_iff.mpr fun _ _ => Bool.false_ne_true
          simp only [Bool.false_and, Bool.false_eq_true, if_false, none, List.map_nil,
            List.nil_append]

theorem collectAll_eq (partitions : Partitions) (forward : Bool) (after : Option RowKey)
    (limit : Option Nat) : collectAll partitions forward after limit =
      upTo limit (unconditional forward after partitions.rows) := by
  have started : upTo limit ([] : List Row) = [] := by cases limit <;> simp [upTo]
  have all := fun entries => collectEach_eq forward after limit entries []
  simp only [started, List.nil_append] at all
  simp only [collectAll, range_inDirection, all, unconditional_eq_filter partitions.rows_ascending,
    filter_rows, ← inDirection_flatMap]
  rfl

end RangeQuery

theorem Partitions.filter_hash (partitions : Partitions) (hash : KeyValue) :
    (partitions.rows.filter fun row => row.key.hash == hash) =
      ((partitions.get? hash).getD .empty).entries.map (RangeQuery.toRow hash) := by
  refine eq_of_mem_iff (partitions.rows_ascending.filter _) ?_ fun row => ?_
  · refine List.pairwise_map.mpr ?_
    refine ((partitions.get? hash).getD .empty).ascending.imp fun {a b} less => ?_
    show (compare hash hash).then (compare a.1 b.1) = .lt
    rw [Std.ReflOrd.compare_self]
    exact less
  · obtain ⟨⟨rowHash, sort⟩, document⟩ := row
    rw [List.mem_filter, Partitions.mem_rows, List.mem_map]
    constructor
    · rintro ⟨⟨partition, found, held⟩, same⟩
      obtain rfl : rowHash = hash := eq_of_beq same
      rw [found]
      exact ⟨(sort, document), SortedDict.get?_eq_some_iff.mp held, rfl⟩
    · rintro ⟨⟨_, _⟩, listed, same⟩
      cases same
      cases found : partitions.get? hash with
      | none =>
          rw [found] at listed
          cases listed
      | some partition =>
          rw [found] at listed
          exact ⟨⟨partition, rfl, SortedDict.get?_eq_some_iff.mpr listed⟩, beq_self_eq_true hash⟩

namespace Memory

variable (memory : Memory)

/-- A read in memory is the same read of the rows of the space. -/
theorem query_eq_run (space : Space) (query : RangeQuery) :
    memory.query space query = query.run (memory.rowsOf space) := by
  obtain ⟨hash, condition, forward, after, limit⟩ := query
  rw [Memory.query, rowsOf]
  cases memory.spaces.get? space with
  | none =>
      refine (List.eq_nil_iff_forall_not_mem.mpr fun row member => ?_).symm
      exact List.not_mem_nil (RangeQuery.mem_of_mem_run member)
  | some partitions =>
      cases hash with
      | none => exact RangeQuery.collectAll_eq partitions forward after limit
      | some hash =>
          have asked : RangeQuery.run ⟨some hash, condition, forward, after, limit⟩ partitions.rows =
              RangeQuery.collectPartition hash ((partitions.get? hash).getD .empty) condition
                forward (RangeQuery.startIn after hash) limit := by
            rw [RangeQuery.collectPartition_eq, ← partitions.filter_hash]
            rfl
          refine Eq.trans ?_ asked.symm
          dsimp only
          -- A partition that is not there is read as one without rows.
          cases partitions.get? hash with
          | none => exact (RangeQuery.collectPartition_empty hash forward limit).symm
          | some partition => rfl

theorem query_flat (space : Space) (query : RangeQuery) :
    memory.flat.query space query = memory.query space query := by
  rw [query_eq_run, Store.query, rowsOf_flat]

end Memory

/-- A range read finds what the naive read finds in any list of the rows of the space, unless it
starts in another partition than the one it reads. -/
theorem MemoryTransaction.query_eq_naive (transaction : MemoryTransaction) {space : Space}
    {rows : List Row} {query : RangeQuery} (lists : ListsRows (transaction.get? space) rows)
    (same : ∀ hash start, query.hash = some hash → query.after = some start → start.hash = hash) :
    transaction.query space query = query.naive rows := by
  have found := query.run_eq_naive lists (transaction.memory.rowsOf_ascending space)
    fun row => transaction.memory.mem_rowsOf
  rw [RangeQuery.settled_eq same] at found
  exact (transaction.memory.query_eq_run space query).trans found

/-- Backwards from a number, which comes after all texts, down to a text, and from there on over
the whole space into the partition before. -/
theorem MemoryTransaction.query_eq_naive_backwards :
    let space : Space := ⟨"notes", none⟩
    let two : KeyValue := .number ⟨⟨2, 0, nofun⟩, rfl⟩
    let row (hash : String) (sort : List KeyValue) (document : Document) : Row :=
      ⟨⟨.string hash, sort⟩, document⟩
    let rows := [row "b" [.string "y"] "1", row "b" [two] "2", row "b" [] "3",
      row "b" [.string "x"] "4", row "b" [.string "x", two] "5", row "a" [two] "6",
      row "a" [] "7"]
    let transaction := rows.foldl (fun transaction row =>
      (transaction.put space row.key row.document).2) (MemoryTransaction.begin .empty)
    let condition : SortCondition := .between (.string "x") two
    let within : RangeQuery :=
      ⟨some (.string "b"), some condition, false, some ⟨.string "b", [two]⟩, some 2⟩
    let across : RangeQuery := ⟨none, none, false, some ⟨.string "b", [.string "x"]⟩, some 2⟩
    (transaction.query space within = within.naive rows ∧
      transaction.query space within = [row "b" [.string "y"] "1", row "b" [.string "x", two] "5"]) ∧
    transaction.query space across = across.naive rows ∧
      transaction.query space across = [row "b" [] "3", row "a" [two] "6"] := by
  intro space two row rows transaction condition within across
  have listed : rows.Perm (transaction.memory.rowsOf space) := by decide +kernel
  have lists : ListsRows (transaction.get? space) rows :=
    ⟨by decide +kernel, fun _ => listed.mem_iff.trans transaction.memory.mem_rowsOf⟩
  refine ⟨⟨transaction.query_eq_naive lists ?_, by decide +kernel⟩,
    transaction.query_eq_naive lists nofun, by decide +kernel⟩
  rintro _ _ ⟨rfl⟩ ⟨rfl⟩
  rfl

end ItemStore
