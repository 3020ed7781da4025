/-!
Steps that may fail, in sequence: what has succeeded has succeeded in every part.
-/

namespace ItemStore

variable {α β ε : Type}

theorem bind_ok {first : Except ε α} {next : α → Except ε β} {value : β}
    (ok : (first >>= next) = .ok value) :
    ∃ middle, first = .ok middle ∧ next middle = .ok value := by
  cases first with
  | error error => cases ok
  | ok middle => exact ⟨middle, rfl, ok⟩

theorem bind_error {first : Except ε α} {next : α → Except ε β} {error : ε}
    (failed : (first >>= next) = .error error) :
    first = .error error ∨ ∃ middle, first = .ok middle ∧ next middle = .error error := by
  cases first with
  | error other =>
      cases failed
      exact Or.inl rfl
  | ok middle => exact Or.inr ⟨middle, rfl, failed⟩

theorem then_ok_iff {first : Except ε Unit} {next : Except ε β} {value : β} :
    (first >>= fun _ => next) = .ok value ↔ first = .ok () ∧ next = .ok value := by
  cases first <;> simp [bind, Except.bind]

theorem map_ok {outcome : Except ε α} {change : α → β} {value : β}
    (ok : outcome.map change = .ok value) :
    ∃ before, outcome = .ok before ∧ change before = value := by
  cases outcome with
  | error error => cases ok
  | ok before =>
      cases ok
      exact ⟨before, rfl, rfl⟩

theorem ok_of_toOption {outcome : Except ε α} {value : α}
    (returned : outcome.toOption = some value) : outcome = .ok value := by
  cases outcome <;> cases returned
  rfl

theorem foldlM_invariant {step : β → α → Except ε β} {Holds : β → Prop} {actions : List α}
    (keeps : ∀ action ∈ actions, ∀ before after, Holds before →
      step before action = .ok after → Holds after) :
    ∀ {before after : β}, Holds before → actions.foldlM step before = .ok after → Holds after := by
  induction actions with
  | nil =>
      intro before after holds ok
      cases ok
      exact holds
  | cons action rest ih =>
      intro before after holds ok
      rw [List.foldlM_cons] at ok
      obtain ⟨middle, stepped, ok⟩ := bind_ok ok
      exact ih (fun other member => keeps other (List.mem_cons_of_mem _ member))
        (keeps action List.mem_cons_self before middle holds stepped) ok

theorem foldlM_reaches {step : β → α → Except ε β} {actions : List α} {before after : β}
    (ok : actions.foldlM step before = .ok after) :
    ∀ action ∈ actions, ∃ earlier later, step earlier action = .ok later := by
  induction actions generalizing before with
  | nil => simp
  | cons action rest ih =>
      rw [List.foldlM_cons] at ok
      obtain ⟨middle, stepped, ok⟩ := bind_ok ok
      intro other member
      rcases List.mem_cons.mp member with rfl | there
      · exact ⟨before, middle, stepped⟩
      · exact ih ok other there

theorem mapM_cons_ok {step : α → Except ε β} {value : α} {rest : List α} {results : List β}
    (ok : (value :: rest).mapM step = .ok results) : ∃ first others,
      step value = .ok first ∧ rest.mapM step = .ok others ∧ results = first :: others := by
  rw [List.mapM_cons] at ok
  obtain ⟨first, stepped, ok⟩ := bind_ok ok
  obtain ⟨others, later, ok⟩ := bind_ok ok
  cases ok
  exact ⟨first, others, stepped, later, rfl⟩

theorem mapM_source {step : α → Except ε β} {values : List α} {results : List β}
    (ok : values.mapM step = .ok results) :
    ∀ result ∈ results, ∃ value ∈ values, step value = .ok result := by
  induction values generalizing results with
  | nil =>
      cases ok
      simp
  | cons value rest ih =>
      obtain ⟨first, others, stepped, later, rfl⟩ := mapM_cons_ok ok
      intro result member
      rcases List.mem_cons.mp member with rfl | there
      · exact ⟨value, List.mem_cons_self, stepped⟩
      · obtain ⟨source, listed, same⟩ := ih later result there
        exact ⟨source, List.mem_cons_of_mem _ listed, same⟩

theorem mapM_reaches {step : α → Except ε β} {values : List α} {results : List β}
    (ok : values.mapM step = .ok results) :
    ∀ value ∈ values, ∃ result ∈ results, step value = .ok result := by
  induction values generalizing results with
  | nil => simp
  | cons value rest ih =>
      obtain ⟨first, others, stepped, later, rfl⟩ := mapM_cons_ok ok
      intro other member
      rcases List.mem_cons.mp member with rfl | there
      · exact ⟨first, List.mem_cons_self, stepped⟩
      · obtain ⟨result, listed, same⟩ := ih later other there
        exact ⟨result, List.mem_cons_of_mem _ listed, same⟩

theorem mapM_total {step : α → Except ε β} {values : List α}
    (each : ∀ value ∈ values, ∃ result, step value = .ok result) :
    ∃ results, values.mapM step = .ok results := by
  induction values with
  | nil => exact ⟨[], rfl⟩
  | cons value rest ih =>
      obtain ⟨first, stepped⟩ := each value List.mem_cons_self
      obtain ⟨others, later⟩ := ih fun other member => each other (List.mem_cons_of_mem _ member)
      refine ⟨first :: others, ?_⟩
      rw [List.mapM_cons, stepped, later]
      rfl

theorem mapM_map_ok {γ : Type} {step : α → Except ε β} {values : List α} {results : List β}
    (change : β → γ) (ok : values.mapM step = .ok results) :
    values.mapM (fun value => (step value).map change) = .ok (results.map change) := by
  induction values generalizing results with
  | nil =>
      cases ok
      rfl
  | cons value rest ih =>
      obtain ⟨first, others, stepped, later, rfl⟩ := mapM_cons_ok ok
      rw [List.mapM_cons, stepped, ih later]
      rfl

theorem mapM_pairwise {step : α → Except ε β} {values : List α} {results : List β}
    {before : α → α → Prop} {after : β → β → Prop} (pairwise : values.Pairwise before)
    (keeps : ∀ x y a b, before x y → step x = .ok a → step y = .ok b → after a b)
    (ok : values.mapM step = .ok results) : results.Pairwise after := by
  induction values generalizing results with
  | nil =>
      cases ok
      exact List.Pairwise.nil
  | cons value rest ih =>
      obtain ⟨first, others, stepped, later, rfl⟩ := mapM_cons_ok ok
      obtain ⟨heads, rests⟩ := List.pairwise_cons.mp pairwise
      refine List.pairwise_cons.mpr ⟨fun result member => ?_, ih rests later⟩
      obtain ⟨source, listed, same⟩ := mapM_source later result member
      exact keeps value source first result (heads source listed) stepped same

theorem foldlM_mapM {γ : Type} {change : α → Except ε γ} {step : β → α → Except ε β}
    {changedStep : β → γ → Except ε β} {values : List α} {changed : List γ}
    (agree : ∀ value result before after, change value = .ok result →
      step before value = .ok after → changedStep before result = .ok after)
    (changes : values.mapM change = .ok changed) {before after : β}
    (ok : values.foldlM step before = .ok after) :
    changed.foldlM changedStep before = .ok after := by
  induction values generalizing changed before with
  | nil =>
      cases changes
      exact ok
  | cons value rest ih =>
      obtain ⟨first, others, turned, later, rfl⟩ := mapM_cons_ok changes
      rw [List.foldlM_cons] at ok ⊢
      obtain ⟨middle, stepped, ok⟩ := bind_ok ok
      rw [agree value first before middle turned stepped]
      exact ih later ok

end ItemStore
