import ItemStore.Proofs.Engine.Keeping
import ItemStore.Proofs.Outcomes
import ItemStore.Proofs.Store.Ranges
import ItemStore.Proofs.Store.Rows

/-!
One page of a query or a scan: which rows it returns, and where the next one starts.
-/

namespace ItemStore

def PagePlan.window (plan : PagePlan) (store : Store) : List Row :=
  (plan.range.selected (store.rowsOf plan.space)).take plan.pageSize

def PagePlan.shown (plan : PagePlan) (row : Row) : Except Failure Item := do
  let item ← (Engine.readDocument row.document).result
  (Engine.projected plan.paths ⟨plan.bindings.names, []⟩ item).result

def PagePlan.shownAll (plan : PagePlan) (rows : List Row) : Except Failure (List Item) :=
  if plan.countOnly then .ok [] else rows.mapM plan.shown

theorem PagePlan.shownAll_append {plan : PagePlan} {first second : List Row}
    {items more : List Item} (here : plan.shownAll first = .ok items)
    (there : plan.shownAll second = .ok more) :
    plan.shownAll (first ++ second) = .ok (items ++ more) := by
  rw [shownAll] at here there ⊢
  split at here
  · rename_i counting
    rw [if_pos counting] at there ⊢
    cases here
    cases there
    rfl
  · rename_i listing
    rw [if_neg listing] at there ⊢
    rw [List.mapM_append, here, there]
    rfl

structure Page.Grows (plan : PagePlan) (page : Page) (rows : List Row) (after : Page) : Prop where
  count : after.count = page.count + rows.length
  last : after.lastReturned = (rows.getLast?.map Row.key).or page.lastReturned
  items : ∃ items, plan.shownAll rows = .ok items ∧ after.items = page.items ++ items

namespace Page.Grows

variable {plan : PagePlan} {page middle after : Page} {rows more : List Row}

theorem refl (page : Page) : page.Grows plan [] page := by
  refine ⟨rfl, rfl, [], ?_, (List.append_nil _).symm⟩
  rw [PagePlan.shownAll]
  split <;> rfl

theorem trans (first : page.Grows plan rows middle) (second : middle.Grows plan more after) :
    page.Grows plan (rows ++ more) after := by
  obtain ⟨items, shown, listed⟩ := first.items
  obtain ⟨others, shownMore, listedMore⟩ := second.items
  refine ⟨?_, ?_, items ++ others, PagePlan.shownAll_append shown shownMore, ?_⟩
  · rw [second.count, first.count, List.length_append, Nat.add_assoc]
  · rw [second.last, first.last, List.getLast?_append]
    cases more.getLast? <;> rfl
  · rw [listedMore, listed, List.append_assoc]

end Page.Grows

namespace Engine

open Action

def accepts (engine : Engine) (plan : PagePlan) (row : Row) : Bool :=
  match row.document.toItem? with
  | none => false
  | some item =>
      !engine.isExpired plan.table item &&
        match (passes plan.filter plan.bindings item).result with
        | .ok passed => passed
        | .error _ => false

def returned (engine : Engine) (plan : PagePlan) (store : Store) : List Row :=
  (plan.window store).filter (engine.accepts plan)

variable {engine : Engine} {plan : PagePlan} {page next : Page} {row : Row}

theorem readDocument_ok {document : Document} {item : Item}
    (ok : (readDocument document).result = .ok item) : document.toItem? = some item := by
  rw [readDocument] at ok
  split at ok
  · rename_i found read
    cases ok
    exact read
  · cases ok

theorem addRow_ok (ok : (engine.addRow plan page row).result = .ok next) :
    page.Grows plan ([row].filter (engine.accepts plan)) next := by
  obtain ⟨item, readable, ok⟩ := (still_readDocument _).of_bind_ok ok
  have read := readDocument_ok readable
  by_cases expired : engine.isExpired plan.table item = true
  · have refused : engine.accepts plan row = false := by simp [accepts, read, expired]
    rw [if_pos expired] at ok
    cases ok
    rw [List.filter_cons_of_neg (by simp [refused])]
    exact .refl page
  · rw [if_neg expired] at ok
    obtain ⟨passed, evaluated, ok⟩ := (still_passes _ _ _).of_bind_ok ok
    have accepted : engine.accepts plan row = passed := by
      simp [accepts, read, expired, evaluated]
    cases passed with
    | false =>
        cases ok
        rw [List.filter_cons_of_neg (by simp [accepted])]
        exact ⟨rfl, rfl, (Page.Grows.refl page).items⟩
    | true =>
        rw [List.filter_cons_of_pos accepted]
        rw [if_pos rfl] at ok
        split at ok
        · rename_i counting
          cases ok
          refine ⟨rfl, rfl, [], ?_, (List.append_nil _).symm⟩
          rw [PagePlan.shownAll, if_pos counting]
        · rename_i listing
          obtain ⟨shown, projecting, ok⟩ := (still_projected _ _ _).of_bind_ok ok
          cases ok
          refine ⟨rfl, rfl, [shown], ?_, rfl⟩
          have one : plan.shown row = .ok shown := by
            rw [PagePlan.shown, readable]
            exact projecting
          rw [PagePlan.shownAll, if_neg listing, List.mapM_cons, one]
          rfl

theorem addRows_ok {rows : List Row}
    (ok : (rows.foldlM (engine.addRow plan) page).result = .ok next) :
    page.Grows plan (rows.filter (engine.accepts plan)) next := by
  induction rows generalizing page with
  | nil =>
      cases ok
      exact .refl _
  | cons row rest ih =>
      rw [List.foldlM_cons] at ok
      obtain ⟨middle, first, ok⟩ := (engine.still_addRow _ _ _).of_bind_ok ok
      have grown := (addRow_ok first).trans (ih ok)
      rwa [← List.filter_append, List.singleton_append] at grown

def nextStart (engine : Engine) (plan : PagePlan) (store : Store) : Option RowKey :=
  if (plan.range.selected (store.rowsOf plan.space)).length > plan.pageSize then
    ((engine.returned plan store).getLast?.map Row.key).or
      ((plan.window store).getLast?.map Row.key)
  else none

structure Answers (engine : Engine) (plan : PagePlan) (store : Store)
    (response : PageResponse) : Prop where
  count : response.count = (engine.returned plan store).length
  items : plan.shownAll (engine.returned plan store) = .ok response.items
  lastKey : response.lastKey = (engine.nextStart plan store).map (Cursor.encode plan.space)

theorem queryRows_ok {space : Space} {query : RangeQuery} {session after : Session}
    {found : List Row} (ok : (engine.queryRows space query).exec session = (.ok found, after)) :
    found = query.run (session.transaction.rows.rowsOf space) := by
  obtain ⟨_, called, calling, ok⟩ := of_exec_bind_ok ok
  cases engine.exec_call_ok calling
  obtain ⟨_, _, getting, ok⟩ := of_exec_bind_ok ok
  cases getting
  cases ok
  rfl

theorem begin_ok {session after : Session}
    (ok : engine.begin.exec session = (.ok (), after)) :
    after.transaction.rows = session.store := by
  obtain ⟨_, called, calling, ok⟩ := of_exec_bind_ok ok
  cases engine.exec_call_ok calling
  cases ok
  rfl

theorem readPage_ok {detail : Option CapacityDetail} {session after : Session}
    {response : PageResponse}
    (inPartition : ∀ hash start, plan.range.hash = some hash → plan.range.after = some start →
      start.hash = hash)
    (ok : (engine.readPage plan detail).exec session = (.ok response, after)) :
    engine.Answers plan session.store response := by
  obtain ⟨_, cleared, clearing, ok⟩ := of_exec_bind_ok ok
  have same : cleared.store = session.store := by
    cases clearing
    rfl
  obtain ⟨_, opened, beginning, ok⟩ := of_exec_bind_ok ok
  obtain ⟨found, queried, querying, ok⟩ := of_exec_bind_ok ok
  obtain ⟨_, closed, closing, ok⟩ := of_exec_bind_ok ok
  obtain ⟨page, added, adding, ok⟩ := of_exec_bind_ok ok
  obtain ⟨_, charged, charging, ok⟩ := of_exec_bind_ok ok
  obtain ⟨consumed, _, _, ok⟩ := of_exec_bind_ok ok
  cases ok
  have foundRows : found = (plan.range.selected (session.store.rowsOf plan.space)).take
      (plan.pageSize + 1) := by
    rw [queryRows_ok querying, begin_ok beginning, same]
    exact RangeQuery.run_eq_selected _ (session.store.rowsOf_ascending plan.space) inPartition
  have window : found.take plan.pageSize = plan.window session.store := by
    rw [foundRows, List.take_take, PagePlan.window]
    congr 1
    omega
  have more : found.length > plan.pageSize ↔
      (plan.range.selected (session.store.rowsOf plan.space)).length > plan.pageSize := by
    rw [foundRows, List.length_take]
    omega
  have grown : Page.empty.Grows plan (engine.returned plan session.store) page := by
    have grown := addRows_ok ((Still.foldlM (engine.still_addRow plan) _ _).result_eq adding)
    rwa [window] at grown
  obtain ⟨items, shown, listed⟩ := grown.items
  refine ⟨?_, ?_, ?_⟩
  · exact congrArg Int.ofNat (grown.count.trans (Nat.zero_add _))
  · rw [shown, listed]
    rfl
  · have last : page.lastReturned = (engine.returned plan session.store).getLast?.map Row.key := by
      rw [grown.last]
      exact Option.or_none
    simp only [more, nextStart, window, nextKey, last]

section Rows

variable {store : Store} {key : RowKey}

theorem window_sorted : (plan.window store).Pairwise fun a b =>
    RangeQuery.precedes plan.range.forward a.key b.key = true :=
  (plan.range.selected_sorted (store.rowsOf_ascending plan.space)).sublist (List.take_sublist _ _)

theorem returned_sorted : (engine.returned plan store).Pairwise fun a b =>
    RangeQuery.precedes plan.range.forward a.key b.key = true :=
  window_sorted.sublist List.filter_sublist

theorem of_mem_returned (member : row ∈ engine.returned plan store) :
    row ∈ plan.range.selected (store.rowsOf plan.space) ∧ engine.accepts plan row = true :=
  ⟨List.mem_of_mem_take (List.mem_filter.mp member).1, (List.mem_filter.mp member).2⟩

theorem eq_or_precedes_last {forward : Bool} {rows : List Row} {last : Row}
    (sorted : rows.Pairwise fun a b => RangeQuery.precedes forward a.key b.key = true)
    (ends : rows.getLast? = some last) (member : row ∈ rows) :
    row = last ∨ RangeQuery.precedes forward row.key last.key = true := by
  obtain ⟨before, rfl⟩ := List.getLast?_eq_some_iff.mp ends
  rcases List.mem_append.mp member with earlier | final
  · exact Or.inr ((List.pairwise_append.mp sorted).2.2 row earlier last (List.mem_singleton_self _))
  · exact Or.inl (List.mem_singleton.mp final)

/-- The next page starts after a row of this one, and none that is returned comes after it. -/
theorem nextStart_some (next : engine.nextStart plan store = some key) :
    ∃ last ∈ plan.window store, last.key = key ∧ ∀ row ∈ engine.returned plan store,
      row = last ∨ RangeQuery.precedes plan.range.forward row.key key = true := by
  rw [nextStart] at next
  split at next
  · rcases Option.or_eq_some_iff.mp next with found | ⟨none, found⟩
    · obtain ⟨last, ends, rfl⟩ := Option.map_eq_some_iff.mp found
      have member := List.mem_of_getLast? ends
      exact ⟨last, (List.mem_filter.mp member).1, rfl, fun row =>
        eq_or_precedes_last returned_sorted ends⟩
    · obtain ⟨last, ends, rfl⟩ := Option.map_eq_some_iff.mp found
      have nothing : engine.returned plan store = [] :=
        List.getLast?_eq_none_iff.mp (Option.map_eq_none_iff.mp none)
      refine ⟨last, List.mem_of_getLast? ends, rfl, fun row member => ?_⟩
      rw [nothing] at member
      cases member
  · cases next

theorem returned_or_later (member : row ∈ plan.range.selected (store.rowsOf plan.space))
    (accepted : engine.accepts plan row = true) :
    row ∈ engine.returned plan store ∨ ∀ other ∈ plan.window store,
      RangeQuery.precedes plan.range.forward other.key row.key = true := by
  have sorted := plan.range.selected_sorted (store.rowsOf_ascending plan.space)
  rw [← List.take_append_drop plan.pageSize (plan.range.selected _)] at member sorted
  rcases List.mem_append.mp member with here | later
  · exact Or.inl (List.mem_filter.mpr ⟨here, accepted⟩)
  · exact Or.inr fun other read => (List.pairwise_append.mp sorted).2.2 other read row later

theorem nextStart_none (sized : 0 < plan.pageSize) (ended : engine.nextStart plan store = none)
    (member : row ∈ plan.range.selected (store.rowsOf plan.space))
    (accepted : engine.accepts plan row = true) : row ∈ engine.returned plan store := by
  refine List.mem_filter.mpr ⟨?_, accepted⟩
  rw [nextStart] at ended
  split at ended
  · have nothing : plan.window store = [] :=
      List.getLast?_eq_none_iff.mp (Option.map_eq_none_iff.mp (Option.or_eq_none_iff.mp ended).2)
    have length : (plan.window store).length = 0 := by rw [nothing]; rfl
    rw [PagePlan.window, List.length_take] at length
    omega
  · rw [PagePlan.window, List.take_of_length_le (by omega)]
    exact member

end Rows

end Engine
end ItemStore
