import ItemStore.Dict

/-!
Laws of finite maps: what `insert` and `erase` do to look-ups and to the order of keys, and that a
list in ascending order is known by its look-ups.
-/

namespace ItemStore.Dict

variable {κ α : Type} [Ord κ]

@[simp] theorem get?_nil (key : κ) : get? ([] : Dict κ α) key = none := rfl

theorem mem_insert {entries : Dict κ α} {key : κ} {value : α} {entry : κ × α}
    (found : entry ∈ insert entries key value) : entry = (key, value) ∨ entry ∈ entries := by
  induction entries with
  | nil => exact Or.inl (by simpa [insert] using found)
  | cons first rest ih =>
      obtain ⟨bound, current⟩ := first
      simp only [insert] at found
      split at found
      · simpa using found
      · rcases List.mem_cons.mp found with here | there
        · exact Or.inl here
        · exact Or.inr (List.mem_cons_of_mem _ there)
      · rcases List.mem_cons.mp found with here | there
        · exact Or.inr (here ▸ List.mem_cons_self)
        · rcases ih there with inserted | kept
          · exact Or.inl inserted
          · exact Or.inr (List.mem_cons_of_mem _ kept)

theorem mem_ofList {bindings : List (κ × α)} {entry : κ × α}
    (found : entry ∈ ofList bindings) : entry ∈ bindings := by
  have folded : ∀ (bindings : List (κ × α)) (entries : Dict κ α),
      entry ∈ bindings.foldl (fun entries binding => insert entries binding.1 binding.2) entries →
      entry ∈ bindings ∨ entry ∈ entries := by
    intro bindings
    induction bindings with
    | nil => exact fun _ kept => Or.inr kept
    | cons binding rest ih =>
        intro entries bound
        rcases ih _ bound with later | placed
        · exact Or.inl (List.mem_cons_of_mem _ later)
        · rcases mem_insert placed with rfl | kept
          · exact Or.inl List.mem_cons_self
          · exact Or.inr kept
  exact (folded bindings [] found).resolve_right List.not_mem_nil

instance decidableAscending (entries : Dict κ α) : Decidable (Ascending entries) :=
  inferInstanceAs (Decidable (List.Pairwise _ entries))

theorem ascending_nil : Ascending ([] : Dict κ α) := List.Pairwise.nil

theorem ascending_erase {entries : Dict κ α} (ascending : Ascending entries) (key : κ) :
    Ascending (erase entries key) :=
  List.Pairwise.filter _ ascending

theorem erase_comm (entries : Dict κ α) (key other : κ) :
    erase (erase entries key) other = erase (erase entries other) key := by
  simp only [erase, List.filter_filter, Bool.and_comm]

theorem insert_last [Std.OrientedOrd κ] {entries : Dict κ α} {key : κ}
    (last : ∀ entry ∈ entries, compare entry.1 key = .lt) (value : α) :
    insert entries key value = entries ++ [(key, value)] := by
  induction entries with
  | nil => rfl
  | cons first rest ih =>
      obtain ⟨bound, current⟩ := first
      have greater : compare key bound = .gt :=
        Std.OrientedCmp.gt_iff_lt.mpr (last (bound, current) List.mem_cons_self)
      simp only [insert, greater, List.cons_append,
        ih fun entry member => last entry (List.mem_cons_of_mem _ member)]

theorem ofList_eq_self [Std.OrientedOrd κ] {entries : Dict κ α}
    (ascending : Ascending entries) : ofList entries = entries := by
  have folded : ∀ (rest done : Dict κ α), Ascending (done ++ rest) →
      rest.foldl (fun entries binding => insert entries binding.1 binding.2) done =
        done ++ rest := by
    intro rest
    induction rest with
    | nil => simp
    | cons binding rest ih =>
        intro done ordered
        have below : ∀ entry ∈ done, compare entry.1 binding.1 = .lt := fun entry member =>
          (List.pairwise_append.mp ordered).2.2 entry member binding List.mem_cons_self
        have split : done ++ binding :: rest = done ++ [(binding.1, binding.2)] ++ rest := by simp
        rw [split] at ordered ⊢
        rw [List.foldl_cons, insert_last below, ih _ ordered]
  exact folded entries [] ascending

section LawfulEq

variable [Std.LawfulEqOrd κ]

theorem get?_cons_self (key : κ) (value : α) (rest : Dict κ α) :
    get? ((key, value) :: rest) key = some value := by
  simp [get?]

theorem get?_cons_of_ne {bound key : κ} (different : bound ≠ key) (value : α) (rest : Dict κ α) :
    get? ((bound, value) :: rest) key = get? rest key := by
  have unequal : compare bound key ≠ .eq := by
    intro same
    exact different (Std.LawfulEqCmp.compare_eq_iff_eq.mp same)
  simp [get?, unequal]

theorem get?_insert_self (entries : Dict κ α) (key : κ) (value : α) :
    get? (insert entries key value) key = some value := by
  induction entries with
  | nil => exact get?_cons_self key value []
  | cons entry rest ih =>
      obtain ⟨bound, current⟩ := entry
      simp only [insert]
      split
      · exact get?_cons_self key value _
      · exact get?_cons_self key value _
      · rename_i later
        have different : bound ≠ key := by
          intro same
          subst bound
          simp at later
        rw [get?_cons_of_ne different]
        exact ih

theorem get?_insert_of_ne {key other : κ} (different : other ≠ key) (entries : Dict κ α)
    (value : α) : get? (insert entries key value) other = get? entries other := by
  induction entries with
  | nil => exact get?_cons_of_ne (Ne.symm different) value []
  | cons entry rest ih =>
      obtain ⟨bound, current⟩ := entry
      simp only [insert]
      split
      · exact get?_cons_of_ne (Ne.symm different) value _
      · rename_i same
        have equal : key = bound := Std.LawfulEqCmp.compare_eq_iff_eq.mp same
        subst bound
        rw [get?_cons_of_ne (Ne.symm different), get?_cons_of_ne (Ne.symm different)]
      · simp only [get?]
        split
        · rfl
        · exact ih

theorem get?_erase_self (entries : Dict κ α) (key : κ) : get? (erase entries key) key = none := by
  induction entries with
  | nil => rfl
  | cons entry rest ih =>
      obtain ⟨bound, current⟩ := entry
      by_cases same : bound = key
      · subst bound
        simpa [erase] using ih
      · have unequal : compare bound key ≠ .eq := fun equal =>
          same (Std.LawfulEqCmp.compare_eq_iff_eq.mp equal)
        have kept : erase ((bound, current) :: rest) key = (bound, current) :: erase rest key := by
          simp [erase, unequal]
        rw [kept, get?_cons_of_ne same]
        exact ih

theorem get?_erase_of_ne {key other : κ} (different : other ≠ key) (entries : Dict κ α) :
    get? (erase entries key) other = get? entries other := by
  induction entries with
  | nil => rfl
  | cons entry rest ih =>
      obtain ⟨bound, current⟩ := entry
      by_cases same : bound = key
      · subst bound
        rw [get?_cons_of_ne (Ne.symm different)]
        simpa [erase] using ih
      · have unequal : compare bound key ≠ .eq := fun equal =>
          same (Std.LawfulEqCmp.compare_eq_iff_eq.mp equal)
        have kept : erase ((bound, current) :: rest) key = (bound, current) :: erase rest key := by
          simp [erase, unequal]
        rw [kept]
        simp only [get?]
        split
        · rfl
        · exact ih

theorem get?_eq_some_of_mem {entries : Dict κ α} (ascending : Ascending entries) {key : κ}
    {value : α} (member : (key, value) ∈ entries) : get? entries key = some value := by
  induction entries with
  | nil => simp at member
  | cons first rest ih =>
      obtain ⟨before, ordered⟩ := List.pairwise_cons.mp ascending
      rcases List.mem_cons.mp member with here | there
      · subst first
        exact get?_cons_self key value rest
      · have different : first.1 ≠ key := by
          intro same
          have less := before _ there
          simp [same] at less
        exact (get?_cons_of_ne different first.2 rest).trans (ih ordered there)

theorem mem_of_get?_eq_some {entries : Dict κ α} {key : κ} {value : α}
    (found : get? entries key = some value) : (key, value) ∈ entries := by
  induction entries with
  | nil => simp at found
  | cons first rest ih =>
      obtain ⟨bound, current⟩ := first
      by_cases same : bound = key
      · subst bound
        rw [get?_cons_self] at found
        simp only [Option.some.injEq] at found
        subst current
        exact List.mem_cons_self
      · rw [get?_cons_of_ne same] at found
        exact List.mem_cons_of_mem _ (ih found)

theorem get?_tail {rest : Dict κ α} {key : κ} {value : α}
    (ascending : Ascending ((key, value) :: rest)) : get? rest key = none := by
  refine Option.eq_none_iff_forall_not_mem.mpr fun found here => ?_
  have less := (List.pairwise_cons.mp ascending).1 _ (mem_of_get?_eq_some here)
  simp at less

theorem get?_filter (keep : κ → Bool) (entries : Dict κ α) (key : κ) :
    get? (entries.filter fun entry => keep entry.1) key =
      if keep key then get? entries key else none := by
  induction entries with
  | nil => simp
  | cons entry rest ih =>
      obtain ⟨bound, value⟩ := entry
      by_cases same : bound = key
      · subst bound
        by_cases kept : keep key = true
        · simp only [List.filter_cons, kept, if_true, get?_cons_self]
        · simp only [List.filter_cons, kept, if_false, ih, Bool.false_eq_true]
      · rw [get?_cons_of_ne same, ← ih, List.filter_cons]
        split
        · exact get?_cons_of_ne same value _
        · rfl

theorem get?_map {β : Type} (change : κ → α → β) (entries : Dict κ α) (key : κ) :
    get? (entries.map fun entry => (entry.1, change entry.1 entry.2)) key =
      (get? entries key).map (change key) := by
  induction entries with
  | nil => rfl
  | cons entry rest ih =>
      obtain ⟨bound, value⟩ := entry
      by_cases same : bound = key
      · subst same
        rw [List.map_cons, get?_cons_self, get?_cons_self]
        rfl
      · rw [List.map_cons, get?_cons_of_ne same, get?_cons_of_ne same, ih]

theorem nodup_of_ascending {entries : Dict κ α} (ascending : Ascending entries) :
    List.Nodup entries := by
  refine List.Pairwise.imp ?_ ascending
  rintro x y less rfl
  simp at less

theorem filter_key [BEq κ] [LawfulBEq κ] {entries : Dict κ α} (ascending : Ascending entries)
    (key : κ) : entries.filter (fun entry => entry.1 == key) =
      ((get? entries key).map fun value => (key, value)).toList := by
  induction entries with
  | nil => rfl
  | cons entry rest ih =>
      obtain ⟨bound, value⟩ := entry
      obtain ⟨before, later⟩ := List.pairwise_cons.mp ascending
      by_cases same : bound = key
      · subst bound
        have none : rest.filter (fun entry => entry.1 == key) = [] := by
          refine List.filter_eq_nil_iff.mpr fun entry member equal => ?_
          have less := before entry member
          simp [eq_of_beq equal] at less
        rw [List.filter_cons, if_pos (beq_self_eq_true key), none, get?_cons_self]
        rfl
      · have other : ¬(bound == key) = true := fun equal => same (eq_of_beq equal)
        rw [List.filter_cons, if_neg other, ih later, get?_cons_of_ne same]

end LawfulEq

section Transitive

variable [Std.TransOrd κ] [Std.LawfulEqOrd κ]

theorem ascending_insert {entries : Dict κ α} (ascending : Ascending entries) (key : κ)
    (value : α) : Ascending (insert entries key value) := by
  induction entries with
  | nil => exact List.pairwise_singleton _ _
  | cons first rest ih =>
      obtain ⟨bound, current⟩ := first
      obtain ⟨before, ordered⟩ := List.pairwise_cons.mp ascending
      simp only [insert]
      split
      · rename_i less
        refine List.pairwise_cons.mpr ⟨?_, ascending⟩
        intro entry member
        rcases List.mem_cons.mp member with here | there
        · subst entry
          exact less
        · exact Std.TransCmp.lt_trans less (before entry there)
      · rename_i same
        have equal : key = bound := Std.LawfulEqCmp.compare_eq_iff_eq.mp same
        subst bound
        exact List.pairwise_cons.mpr ⟨before, ordered⟩
      · rename_i greater
        refine List.pairwise_cons.mpr ⟨?_, ih ordered⟩
        intro entry member
        rcases mem_insert member with inserted | kept
        · subst entry
          exact Std.OrientedCmp.gt_iff_lt.mp greater
        · exact before entry kept

theorem ascending_ofList (bindings : List (κ × α)) : Ascending (ofList bindings) := by
  have folded : ∀ entries : Dict κ α, Ascending entries →
      Ascending (bindings.foldl (fun entries binding => insert entries binding.1 binding.2)
        entries) := by
    induction bindings with
    | nil => exact fun _ ascending => ascending
    | cons binding rest ih =>
        exact fun entries ascending => ih _ (ascending_insert ascending binding.1 binding.2)
  exact folded [] ascending_nil

/-- Lists in ascending order that answer every look-up alike are the same list. -/
theorem ext_get? {a b : Dict κ α} (ascendingA : Ascending a) (ascendingB : Ascending b)
    (same : ∀ key, get? a key = get? b key) : a = b := by
  have members : ∀ entry, entry ∈ a ↔ entry ∈ b := by
    intro entry
    constructor
    · intro member
      exact mem_of_get?_eq_some ((same entry.1) ▸ get?_eq_some_of_mem ascendingA member)
    · intro member
      exact mem_of_get?_eq_some ((same entry.1).symm ▸ get?_eq_some_of_mem ascendingB member)
  have perm := (List.perm_ext_iff_of_nodup (nodup_of_ascending ascendingA)
    (nodup_of_ascending ascendingB)).mpr members
  refine perm.eq_of_pairwise (fun x y _ _ less more => ?_) ascendingA ascendingB
  have loop := Std.TransCmp.lt_trans less more
  simp at loop

theorem insert_comm {entries : Dict κ α} (ascending : Ascending entries) {key other : κ}
    (different : key ≠ other) (value last : α) :
    insert (insert entries key value) other last =
      insert (insert entries other last) key value := by
  refine ext_get? (ascending_insert (ascending_insert ascending key value) other last)
    (ascending_insert (ascending_insert ascending other last) key value) fun wanted => ?_
  by_cases first : wanted = key
  · subst first
    rw [get?_insert_of_ne different, get?_insert_self, get?_insert_self]
  · rw [get?_insert_of_ne first]
    by_cases second : wanted = other
    · subst second
      rw [get?_insert_self, get?_insert_self]
    · rw [get?_insert_of_ne second, get?_insert_of_ne second, get?_insert_of_ne first]

theorem ofList_perm {bindings others : List (κ × α)} (perm : bindings.Perm others)
    (distinct : (bindings.map Prod.fst).Nodup) : ofList bindings = ofList others := by
  have folded : ∀ entries : Dict κ α, Ascending entries →
      bindings.foldl (fun entries binding => insert entries binding.1 binding.2) entries =
        others.foldl (fun entries binding => insert entries binding.1 binding.2) entries := by
    induction perm with
    | nil => exact fun _ _ => rfl
    | cons binding _ ih =>
        intro entries ascending
        exact ih (List.nodup_cons.mp distinct).2 _ (ascending_insert ascending _ _)
    | swap first second rest =>
        intro entries ascending
        have different : second.1 ≠ first.1 := fun same =>
          (List.nodup_cons.mp distinct).1 (by simp [same])
        simp only [List.foldl_cons, insert_comm ascending different]
    | trans before _ ihFirst ihSecond =>
        intro entries ascending
        have still := (before.map Prod.fst).nodup_iff.mp distinct
        exact (ihFirst distinct entries ascending).trans (ihSecond still entries ascending)
  exact folded [] ascending_nil

theorem insert_insert {entries : Dict κ α} (ascending : Ascending entries) (key : κ)
    (value last : α) : insert (insert entries key value) key last = insert entries key last := by
  refine ext_get? (ascending_insert (ascending_insert ascending key value) key last)
    (ascending_insert ascending key last) fun wanted => ?_
  by_cases same : wanted = key
  · subst same
    rw [get?_insert_self, get?_insert_self]
  · rw [get?_insert_of_ne same, get?_insert_of_ne same, get?_insert_of_ne same]

theorem insert_get? {entries : Dict κ α} (ascending : Ascending entries) {key : κ} {value : α}
    (bound : get? entries key = some value) : insert entries key value = entries := by
  refine ext_get? (ascending_insert ascending key value) ascending fun wanted => ?_
  by_cases same : wanted = key
  · subst same
    rw [get?_insert_self, bound]
  · rw [get?_insert_of_ne same]

theorem erase_of_get?_eq_none {entries : Dict κ α} (ascending : Ascending entries) {key : κ}
    (unbound : get? entries key = none) : erase entries key = entries := by
  refine ext_get? (ascending_erase ascending key) ascending fun wanted => ?_
  by_cases same : wanted = key
  · subst same
    rw [get?_erase_self, unbound]
  · rw [get?_erase_of_ne same]

theorem erase_insert {entries : Dict κ α} (ascending : Ascending entries) {key other : κ}
    (different : key ≠ other) (value : α) :
    erase (insert entries key value) other = insert (erase entries other) key value := by
  refine ext_get? (ascending_erase (ascending_insert ascending key value) other)
    (ascending_insert (ascending_erase ascending other) key value) fun wanted => ?_
  by_cases erased : wanted = other
  · subst erased
    rw [get?_erase_self, get?_insert_of_ne (Ne.symm different), get?_erase_self]
  · rw [get?_erase_of_ne erased]
    by_cases inserted : wanted = key
    · subst inserted
      rw [get?_insert_self, get?_insert_self]
    · rw [get?_insert_of_ne inserted, get?_insert_of_ne inserted, get?_erase_of_ne erased]

theorem erase_insert_self {entries : Dict κ α} (ascending : Ascending entries) (key : κ)
    (value : α) : erase (insert entries key value) key = erase entries key := by
  refine ext_get? (ascending_erase (ascending_insert ascending key value) key)
    (ascending_erase ascending key) fun wanted => ?_
  by_cases same : wanted = key
  · subst same
    rw [get?_erase_self, get?_erase_self]
  · rw [get?_erase_of_ne same, get?_erase_of_ne same, get?_insert_of_ne same]

end Transitive

end ItemStore.Dict
