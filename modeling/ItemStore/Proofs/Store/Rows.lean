import ItemStore.Store.Basic

/-!
Laws of stores: a write is seen at its own address and nowhere else, a store is known by its
look-ups, and the rows of a space are its look-ups in key order.
-/

namespace ItemStore

namespace Store

@[simp] theorem get?_empty (space : Space) (key : RowKey) : empty.get? space key = none := rfl

@[simp] theorem get?_put_self (store : Store) (space : Space) (key : RowKey)
    (document : Document) : (store.put space key document).get? space key = some document :=
  Dict.get?_insert_self _ _ _

theorem get?_put_of_ne (store : Store) {space other : Space} {key otherKey : RowKey}
    (document : Document) (different : other ≠ space ∨ otherKey ≠ key) :
    (store.put space key document).get? other otherKey = store.get? other otherKey := by
  refine Dict.get?_insert_of_ne ?_ _ _
  intro same
  cases same
  simp at different

@[simp] theorem get?_delete_self (store : Store) (space : Space) (key : RowKey) :
    (store.delete space key).get? space key = none :=
  Dict.get?_erase_self _ _

theorem get?_delete_of_ne (store : Store) {space other : Space} {key otherKey : RowKey}
    (different : other ≠ space ∨ otherKey ≠ key) :
    (store.delete space key).get? other otherKey = store.get? other otherKey := by
  refine Dict.get?_erase_of_ne ?_ _
  intro same
  cases same
  simp at different

theorem ext_get? {a b : Store} (same : ∀ space key, a.get? space key = b.get? space key) :
    a = b := by
  have rows : a.rows = b.rows :=
    Dict.ext_get? a.ascending b.ascending fun address => same address.space address.key
  cases a
  cases b
  cases rows
  rfl

theorem ext_at {a b : Store} (space : Space) (key : RowKey)
    (here : a.get? space key = b.get? space key)
    (elsewhere : ∀ other otherKey, other ≠ space ∨ otherKey ≠ key →
      a.get? other otherKey = b.get? other otherKey) : a = b := by
  apply ext_get?
  intro other otherKey
  by_cases sameSpace : other = space
  · by_cases sameKey : otherKey = key
    · rw [sameSpace, sameKey, here]
    · exact elsewhere other otherKey (Or.inr sameKey)
  · exact elsewhere other otherKey (Or.inl sameSpace)

theorem mem_rowsOf {store : Store} {space : Space} {row : Row} :
    row ∈ store.rowsOf space ↔ store.get? space row.key = some row.document := by
  obtain ⟨key, document⟩ := row
  simp only [rowsOf, List.mem_filterMap]
  constructor
  · rintro ⟨⟨⟨otherSpace, otherKey⟩, otherDocument⟩, member, kept⟩
    split at kept
    · rename_i same
      cases kept
      subst same
      exact Dict.get?_eq_some_of_mem store.ascending member
    · simp at kept
  · intro found
    exact ⟨(⟨space, key⟩, document), Dict.mem_of_get?_eq_some found, by simp⟩

theorem rowsOf_ascending (store : Store) (space : Space) :
    (store.rowsOf space).Pairwise fun earlier later => compare earlier.key later.key = .lt := by
  refine List.Pairwise.filterMap _ ?_ store.ascending
  rintro ⟨⟨spaceA, keyA⟩, documentA⟩ ⟨⟨spaceB, keyB⟩, documentB⟩ less rowA keptA rowB keptB
  simp only [Option.ite_none_right_eq_some, Option.some.injEq] at keptA keptB
  obtain ⟨inA, rfl⟩ := keptA
  obtain ⟨inB, rfl⟩ := keptB
  subst inA inB
  have lexicographic : (compare spaceB spaceB).then (compare keyA keyB) = .lt := less
  rw [Std.ReflOrd.compare_self] at lexicographic
  exact lexicographic

end Store
end ItemStore
