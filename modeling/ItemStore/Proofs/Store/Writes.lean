import ItemStore.Proofs.Store.Rows

/-!
Sequences of writes. At each address the last write there decides, and writes to other addresses
make no difference, so that sequences with no address in common can change places.
-/

namespace ItemStore

structure RowWrite where
  space : Space
  key : RowKey
  document : Option Document
deriving DecidableEq

namespace RowWrite

def apply (rows : Store) (write : RowWrite) : Store :=
  match write.document with
  | some document => rows.put write.space write.key document
  | none => rows.delete write.space write.key

def last? (writes : List RowWrite) (space : Space) (key : RowKey) : Option (Option Document) :=
  match writes with
  | [] => none
  | write :: rest =>
      (last? rest space key).or
        (if write.space = space ∧ write.key = key then some write.document else none)

theorem last?_append (first second : List RowWrite) (space : Space) (key : RowKey) :
    last? (first ++ second) space key = (last? second space key).or (last? first space key) := by
  induction first with
  | nil => simp [last?]
  | cons write rest ih => simp [last?, ih, Option.or_assoc]

theorem last?_eq_none {writes : List RowWrite} {space : Space} {key : RowKey}
    (elsewhere : ∀ write ∈ writes, write.space = space → write.key ≠ key) :
    last? writes space key = none := by
  induction writes with
  | nil => rfl
  | cons write rest ih =>
      have here : ¬(write.space = space ∧ write.key = key) := fun same =>
        elsewhere write List.mem_cons_self same.1 same.2
      have later := ih fun other member => elsewhere other (List.mem_cons_of_mem _ member)
      rw [last?, later, if_neg here]
      rfl

theorem key_ne_of_last?_eq_none {writes : List RowWrite} {space : Space} {key : RowKey}
    (none : last? writes space key = none) :
    ∀ write ∈ writes, write.space = space → write.key ≠ key := by
  induction writes with
  | nil => exact nofun
  | cons write rest ih =>
      obtain ⟨later, here⟩ := Option.or_eq_none_iff.mp none
      intro other member sameSpace sameKey
      rcases List.mem_cons.mp member with rfl | there
      · rw [if_pos ⟨sameSpace, sameKey⟩] at here
        cases here
      · exact ih later other there sameSpace sameKey

theorem mem_of_last?_eq_some {writes : List RowWrite} {space : Space} {key : RowKey}
    {document : Option Document} (found : last? writes space key = some document) :
    ⟨space, key, document⟩ ∈ writes := by
  induction writes with
  | nil => cases found
  | cons write rest ih =>
      rcases Option.or_eq_some_iff.mp found with later | ⟨_, here⟩
      · exact List.mem_cons_of_mem _ (ih later)
      · split at here
        · rename_i there
          obtain ⟨rfl, rfl⟩ := there
          cases here
          exact List.mem_cons_self
        · cases here

end RowWrite

namespace Store

def after (rows : Store) (writes : List RowWrite) : Store :=
  writes.foldl RowWrite.apply rows

@[simp] theorem after_nil (rows : Store) : rows.after [] = rows := rfl

theorem after_append (rows : Store) (first second : List RowWrite) :
    rows.after (first ++ second) = (rows.after first).after second :=
  List.foldl_append

theorem get?_apply (rows : Store) (write : RowWrite) (space : Space) (key : RowKey) :
    (write.apply rows).get? space key =
      if write.space = space ∧ write.key = key then write.document else rows.get? space key := by
  obtain ⟨there, at_, document⟩ := write
  split
  · rename_i same
    obtain ⟨rfl, rfl⟩ := same
    cases document with
    | none => exact get?_delete_self rows _ _
    | some document => exact get?_put_self rows _ _ document
  · rename_i different
    have elsewhere : space ≠ there ∨ key ≠ at_ := by
      by_cases same : space = there
      · exact Or.inr fun sameKey => different ⟨same.symm, sameKey.symm⟩
      · exact Or.inl same
    cases document with
    | none => exact get?_delete_of_ne rows elsewhere
    | some document => exact get?_put_of_ne rows document elsewhere

theorem get?_after (writes : List RowWrite) (space : Space) (key : RowKey) :
    ∀ rows : Store, (rows.after writes).get? space key =
      (RowWrite.last? writes space key).getD (rows.get? space key) := by
  induction writes with
  | nil => exact fun rows => rfl
  | cons write rest ih =>
      intro rows
      have step := get?_apply rows write space key
      have later := ih (write.apply rows)
      rw [after, List.foldl_cons]
      rw [after] at later
      rw [later, step, RowWrite.last?]
      cases RowWrite.last? rest space key with
      | some left => rfl
      | none =>
          by_cases here : write.space = space ∧ write.key = key
          · rw [if_pos here, if_pos here]
            rfl
          · rw [if_neg here, if_neg here]
            rfl

theorem get?_after_elsewhere (rows : Store) {writes : List RowWrite} {space : Space} {key : RowKey}
    (elsewhere : ∀ write ∈ writes, write.space = space → write.key ≠ key) :
    (rows.after writes).get? space key = rows.get? space key := by
  rw [get?_after, RowWrite.last?_eq_none elsewhere]
  rfl

theorem after_comm (rows : Store) {first second : List RowWrite}
    (apart : ∀ write ∈ first, ∀ other ∈ second, write.space = other.space →
      write.key ≠ other.key) :
    (rows.after first).after second = (rows.after second).after first := by
  apply ext_get?
  intro space key
  simp only [get?_after]
  cases early : RowWrite.last? first space key with
  | none => cases RowWrite.last? second space key <;> rfl
  | some document =>
      have elsewhere : RowWrite.last? second space key = none := by
        refine RowWrite.last?_eq_none fun other member sameSpace sameKey => ?_
        exact apart _ (RowWrite.mem_of_last?_eq_some early) other member sameSpace.symm
          sameKey.symm
      rw [elsewhere]
      rfl

end Store
end ItemStore
