import ItemStore.Proofs.Store.Ranges

/-!
A range read comes to what a reader does who knows of no bounds: sort the rows in the direction of
the read, pass over those up to the start, keep those that match, and count off the limit.
-/

namespace ItemStore

/-- The rows of a space in any order, each once. -/
structure ListsRows (held : RowKey → Option Document) (rows : List Row) : Prop where
  once : rows.Nodup
  mem_iff : ∀ row, row ∈ rows ↔ held row.key = some row.document

theorem ListsRows.perm {held : RowKey → Option Document} {listed rows : List Row}
    (lists : ListsRows held listed) (sorted : rows.Pairwise fun a b => compare a.key b.key = .lt)
    (mem_iff : ∀ row, row ∈ rows ↔ held row.key = some row.document) : listed.Perm rows := by
  have once : rows.Nodup := by
    refine sorted.imp ?_
    rintro row _ less rfl
    rw [Std.ReflOrd.compare_self] at less
    cases less
  exact (List.perm_ext_iff_of_nodup lists.once once).mpr fun row =>
    (lists.mem_iff row).trans (mem_iff row).symm

namespace RangeQuery

def candidates (query : RangeQuery) (rows : List Row) : List Row :=
  match query.hash with
  | none => rows
  | some hash => rows.filter fun row => row.key.hash == hash

/-- A condition is on the first sort value, which a row may lack. Reads of a whole space have
none. -/
def meets (query : RangeQuery) (row : Row) : Bool :=
  query.hash.isNone ||
    query.condition.all fun condition => row.key.sort.head?.any condition.matching

def inTurn (forward : Bool) (a b : Row) : Bool :=
  !precedes forward b.key a.key

def naive (query : RangeQuery) (rows : List Row) : List Row :=
  let sorted := (query.candidates rows).mergeSort (inTurn query.forward)
  let later := sorted.filter fun row =>
    query.after.all fun start => precedes query.forward start row.key
  let met := later.filter query.meets
  match query.limit with
  | none => met
  | some limit => met.take limit

def settled (query : RangeQuery) : RangeQuery :=
  { query with
    after := query.after.filter fun start => query.hash.all fun hash => start.hash == hash }

theorem settled_eq {query : RangeQuery}
    (same : ∀ hash start, query.hash = some hash → query.after = some start → start.hash = hash) :
    query.settled = query := by
  obtain ⟨hash, condition, forward, after, limit⟩ := query
  cases after with
  | none => rfl
  | some start =>
      cases hash with
      | none => rfl
      | some hash => simp [settled, same hash start rfl rfl]

theorem run_settled (query : RangeQuery) (rows : List Row) :
    query.settled.run rows = query.run rows := by
  obtain ⟨hash, condition, forward, after, limit⟩ := query
  cases hash with
  | none => cases after <;> rfl
  | some hash =>
      cases after with
      | none => rfl
      | some start => by_cases same : start.hash = hash <;> simp [settled, run]

theorem settled_same (query : RangeQuery) :
    ∀ hash start, query.settled.hash = some hash → query.settled.after = some start →
      start.hash = hash := by
  intro hash start partitioned started
  have partitioned : query.hash = some hash := partitioned
  have kept := (Option.filter_eq_some_iff.mp started).2
  rw [partitioned] at kept
  exact eq_of_beq kept

/-! The order of a read. -/

section Order

variable {forward : Bool} {a b c : Row}

theorem precedes_total (forward : Bool) {a b : RowKey} (different : a ≠ b) :
    precedes forward a b = true ∨ precedes forward b a = true := by
  have ordered : (compare a b).isLT = true ∨ (compare b a).isLT = true := by
    cases order : compare a b with
    | lt => exact Or.inl rfl
    | eq => exact absurd (Std.LawfulEqOrd.eq_of_compare order) different
    | gt => exact Or.inr (Ordering.isLT_iff_eq_lt.mpr (Std.OrientedCmp.lt_of_gt order))
  cases forward with
  | true => exact ordered
  | false => exact ordered.symm

theorem inTurn_of_precedes (before : precedes forward a.key b.key = true) :
    inTurn forward a b = true := by
  rw [inTurn, Bool.not_eq_true']
  cases back : precedes forward b.key a.key with
  | false => rfl
  | true =>
      have around := precedes_trans before back
      rw [precedes_irrefl] at around
      cases around

theorem inTurn_cases (turn : inTurn forward a b = true) :
    a.key = b.key ∨ precedes forward a.key b.key = true := by
  rw [inTurn, Bool.not_eq_true'] at turn
  by_cases same : a.key = b.key
  · exact Or.inl same
  · rcases precedes_total forward same with before | after
    · exact Or.inr before
    · rw [after] at turn
      cases turn

theorem inTurn_of_key_eq (same : a.key = b.key) : inTurn forward a b = true := by
  rw [inTurn, same, precedes_irrefl]
  rfl

theorem inTurn_trans (first : inTurn forward a b = true) (second : inTurn forward b c = true) :
    inTurn forward a c = true := by
  rcases inTurn_cases first with same | before
  · rw [inTurn, same]
    exact second
  · rcases inTurn_cases second with same | later
    · rw [inTurn, ← same]
      exact first
    · exact inTurn_of_precedes (precedes_trans before later)

theorem inTurn_total (forward : Bool) (a b : Row) :
    (inTurn forward a b || inTurn forward b a) = true := by
  rw [Bool.or_eq_true]
  by_cases same : a.key = b.key
  · exact Or.inl (inTurn_of_key_eq same)
  · exact (precedes_total forward same).imp inTurn_of_precedes inTurn_of_precedes

theorem key_eq_of_inTurn (first : inTurn forward a b = true) (second : inTurn forward b a = true) :
    a.key = b.key := by
  rcases inTurn_cases first with same | before
  · exact same
  · rw [inTurn, before] at second
    cases second

theorem mergeSort_eq (forward : Bool) {listed rows : List Row} (same : listed.Perm rows)
    (sorted : rows.Pairwise fun a b => precedes forward a.key b.key = true)
    (unique : ∀ a ∈ rows, ∀ b ∈ rows, a.key = b.key → a = b) :
    listed.mergeSort (inTurn forward) = rows := by
  have perm := (List.mergeSort_perm listed (inTurn forward)).trans same
  have inTurns : (listed.mergeSort (inTurn forward)).Pairwise fun a b =>
      inTurn forward a b = true :=
    List.pairwise_mergeSort (fun a b c => @inTurn_trans forward a b c) (inTurn_total forward) listed
  refine perm.eq_of_pairwise (fun a b memberA memberB first second => ?_) inTurns
    (sorted.imp inTurn_of_precedes)
  exact unique a (perm.subset memberA) b memberB (key_eq_of_inTurn first second)

end Order

theorem candidates_sublist (query : RangeQuery) (rows : List Row) :
    (query.candidates rows).Sublist rows := by
  rw [candidates]
  cases query.hash with
  | none => exact List.Sublist.refl rows
  | some hash => exact List.filter_sublist

theorem candidates_perm (query : RangeQuery) {listed rows : List Row} (same : listed.Perm rows) :
    (query.candidates listed).Perm (query.candidates rows) := by
  rw [candidates, candidates]
  cases query.hash with
  | none => exact same
  | some hash => exact same.filter _

theorem filter_candidates (query : RangeQuery) (rows : List Row) :
    (query.candidates rows).filter (fun row => query.meets row &&
        query.after.all fun start => precedes query.forward start row.key) =
      rows.filter query.selects := by
  obtain ⟨hash, condition, forward, after, limit⟩ := query
  cases hash with
  | none =>
      refine List.filter_congr fun row _ => ?_
      simp [meets, RangeQuery.selects, admits]
  | some hash =>
      have met : ∀ row : Row, (condition.all fun condition =>
          row.key.sort.head?.any condition.matching) = matching condition row := by
        intro row
        cases condition with
        | none => rfl
        | some condition => exact (matching_some condition).symm
      simp only [candidates, List.filter_filter]
      refine List.filter_congr fun row _ => ?_
      simp only [meets, met, RangeQuery.selects, admits, Option.isNone_some, Bool.false_or,
        Option.all_some]
      cases row.key.hash == hash <;> simp

theorem filter_mergeSort_candidates (query : RangeQuery) {listed rows : List Row}
    (same : listed.Perm rows) (sorted : rows.Pairwise fun a b => compare a.key b.key = .lt)
    (unique : ∀ a ∈ rows, ∀ b ∈ rows, a.key = b.key → a = b) :
    ((query.candidates listed).mergeSort (inTurn query.forward)).filter
        (fun row => query.meets row &&
          query.after.all fun start => precedes query.forward start row.key) =
      query.selected rows := by
  have among := query.candidates_sublist rows
  have candidatesSorted := sorted.sublist among
  have candidatesUnique : ∀ a ∈ query.candidates rows, ∀ b ∈ query.candidates rows,
      a.key = b.key → a = b :=
    fun a memberA b memberB => unique a (among.subset memberA) b (among.subset memberB)
  have perm := query.candidates_perm same
  rw [selected]
  cases direction : query.forward with
  | true =>
      have inOrder := mergeSort_eq true perm
        (candidatesSorted.imp fun less => by simpa [precedes] using less) candidatesUnique
      rw [inOrder, if_pos rfl, ← filter_candidates, direction]
  | false =>
      have inOrder := mergeSort_eq false (perm.trans (List.reverse_perm _).symm)
        (List.pairwise_reverse.mpr
          (candidatesSorted.imp fun less => by simpa [precedes] using less))
        (by simpa using candidatesUnique)
      rw [inOrder, if_neg Bool.false_ne_true, ← filter_candidates, direction, List.filter_reverse]

/-- What a read finds does not depend on how the rows are listed for a naive read. -/
theorem run_eq_naive (query : RangeQuery) {held : RowKey → Option Document}
    {listed rows : List Row} (lists : ListsRows held listed)
    (sorted : rows.Pairwise fun a b => compare a.key b.key = .lt)
    (mem_iff : ∀ row, row ∈ rows ↔ held row.key = some row.document) :
    query.run rows = query.settled.naive listed := by
  have unique : ∀ a ∈ rows, ∀ b ∈ rows, a.key = b.key → a = b := by
    rintro ⟨key, a⟩ memberA ⟨_, b⟩ memberB rfl
    have found := (mem_iff _).mp memberA
    rw [(mem_iff _).mp memberB] at found
    cases found
    rfl
  have selected := query.settled.filter_mergeSort_candidates (lists.perm sorted mem_iff) sorted
    unique
  rw [← run_settled, run_eq_selected _ sorted query.settled_same, ← selected, naive]
  cases query.settled.limit <;> simp only [List.filter_filter]

end RangeQuery
end ItemStore
