import ItemStore.Proofs.Engine.Atomicity
import ItemStore.Proofs.Engine.Effects

/-!
Hooks that judge a change by itself. With them a plan that is carried out alone looks at nothing but
what is stored under its key, whether it succeeds or fails.
-/

namespace ItemStore

/-- A hook whose verdict on a change is the same in every transaction. -/
def Hook.Blind (faults : List Fault) (hook : Hook) : Prop :=
  ∀ change transaction other, ((hook change).run faults transaction).outcome =
    ((hook change).run faults other).outcome

namespace Action

variable {α β : Type}

def Blind (action : Action α) : Prop :=
  ∀ session other, (action.exec session).1 = (action.exec other).1

theorem Still.blind {action : Action α} (still : action.Still) : action.Blind := by
  intro session other
  rw [still session, still other]

theorem Blind.modify (change : Session → Session) : (modify change : Action PUnit).Blind :=
  fun _ _ => rfl

theorem Blind.after {action : Action α} {next : α → Action β} {session other : Session}
    (same : (action.exec session).1 = (action.exec other).1) (later : ∀ value, (next value).Blind) :
    ((action >>= next).exec session).1 = ((action >>= next).exec other).1 := by
  rw [exec_bind, exec_bind]
  generalize action.exec session = left at same ⊢
  generalize action.exec other = right at same ⊢
  rcases left with ⟨failure | value, left⟩ <;> rcases right with ⟨another | found, right⟩ <;>
    cases same
  · rfl
  · exact later value left right

theorem Blind.bind {action : Action α} {next : α → Action β} (first : action.Blind)
    (later : ∀ value, (next value).Blind) : (action >>= next).Blind :=
  fun session other => Blind.after (first session other) later

theorem Blind.forM {step : α → Action PUnit} (blind : ∀ value, (step value).Blind) :
    ∀ values : List α, (values.forM step).Blind
  | [] => (Still.pure _).blind
  | value :: rest => (blind value).bind fun _ => Blind.forM blind rest

end Action

namespace Engine

open Action

variable {engine : Engine}

theorem blind_commit : engine.commit.Blind :=
  (engine.still_call _ _).blind.bind fun _ => Blind.modify _

theorem blind_rollback : engine.rollback.Blind :=
  (engine.still_call _ _).blind.bind fun _ => Blind.modify _

theorem blind_putRow (space : Space) (key : RowKey) (document : Document) :
    (engine.putRow space key document).Blind :=
  (engine.still_call _ _).blind.bind fun _ => Blind.modify _

theorem blind_deleteRow (space : Space) (key : RowKey) : (engine.deleteRow space key).Blind :=
  (engine.still_call _ _).blind.bind fun _ => Blind.modify _

theorem blind_putIndexRow (space : Space) (key : RowKey) (item : Item) :
    (engine.putIndexRow space key item).Blind :=
  (Blind.modify _).bind fun _ => blind_putRow _ _ _

theorem blind_deleteIndexRow (space : Space) (key : RowKey) (item : Item) :
    (engine.deleteIndexRow space key item).Blind :=
  (blind_deleteRow _ _).bind fun _ => Blind.modify _

theorem blind_writeBase (plan : WritePlan) (stored new : Option Item) :
    (engine.writeBase plan stored new).Blind := by
  cases new with
  | some item =>
      exact (Still.require _ _).blind.bind fun _ => (blind_putRow _ _ _).bind fun _ =>
        Blind.modify _
  | none =>
      cases stored with
      | none => exact Blind.modify _
      | some item => exact (blind_deleteRow _ _).bind fun _ => Blind.modify _

theorem blind_maintainIndex (table : Table) (stored new : Option Item) (index : Index) :
    (engine.maintainIndex table stored new index).Blind := by
  refine (Still.key _).blind.bind fun replacement => ?_
  split
  · split
    · split
      · exact (Still.pure _).blind
      · exact blind_putIndexRow _ _ _
    · exact (blind_deleteIndexRow _ _ _).bind fun _ => blind_putIndexRow _ _ _
  · exact blind_deleteIndexRow _ _ _
  · exact blind_putIndexRow _ _ _
  · exact (Still.pure _).blind

theorem load_outcome {plan : WritePlan} {session other : Session}
    (same : session.transaction.rows.item? plan.space plan.key =
      other.transaction.rows.item? plan.space plan.key) :
    ((engine.load plan.table plan.key).exec session).1 =
      ((engine.load plan.table plan.key).exec other).1 := by
  have called := engine.still_call .get (some plan.space)
  cases allowed : (engine.call .get (some plan.space)).result with
  | error failure =>
      have refused : ∀ session, (engine.load plan.table plan.key).exec session =
          (.error failure, session) := by
        intro session
        exact exec_bind_error ((called session).trans (by rw [allowed])) _
      rw [refused, refused]
  | ok value =>
      have granted : ∀ session, (engine.call .get (some plan.space)).exec session =
          (.ok (), session) := fun session => (called session).trans (by rw [allowed])
      rw [engine.exec_load_called plan.key (granted session),
        engine.exec_load_called plan.key (granted other)]
      show Option.elim (session.transaction.rows.item? plan.space plan.key) _ _ = _
      rw [same]
      rfl

section Hooks

variable (blind : ∀ hook ∈ engine.hooks, hook.Blind engine.faults)

include blind

theorem blind_notify (change : Change) {hooks : List Hook}
    (among : ∀ hook ∈ hooks, hook ∈ engine.hooks) : (engine.notify change hooks).Blind := by
  induction hooks with
  | nil => exact (Still.pure _).blind
  | cons hook rest ih =>
      intro session other
      have verdict := blind hook (among hook List.mem_cons_self) change session.transaction
        other.transaction
      have later := ih fun next member => among next (List.mem_cons_of_mem _ member)
      simp only [notify, exec_bind, exec_get, exec_set, verdict]
      split
      · exact later _ _
      · rfl

theorem blind_replace (plan : WritePlan) (stored new : Option Item) :
    (engine.replace plan stored new).Blind := by
  refine (blind_writeBase _ _ _).bind fun _ => (Blind.forM (blind_maintainIndex _ _ _) _).bind
    fun _ => Blind.bind ?_ fun _ => (Still.pure _).blind
  rw [announce]
  split
  · exact (Still.pure _).blind
  · exact blind_notify blind _ fun _ member => member

/-- A plan comes to the same wherever the same is stored under its key. -/
theorem execute_outcome {plan : WritePlan} {session other : Session}
    (same : session.transaction.rows.item? plan.space plan.key =
      other.transaction.rows.item? plan.space plan.key) :
    ((engine.execute plan).exec session).1 = ((engine.execute plan).exec other).1 := by
  refine Blind.after ?_ fun stored => ?_
  · exact load_outcome same
  · refine (still_conditionHolds _ _).blind.bind fun holds => ?_
    split
    · split
      · exact (Blind.modify _).bind fun _ => (Still.pure _).blind
      · exact blind_replace blind _ _ _
      · exact (still_updatedItem _ _ _).blind.bind fun _ => blind_replace blind _ _ _
      · exact blind_replace blind _ _ _
    · exact (Blind.modify _).bind fun _ => (Still.pure _).blind

theorem executeAlone_outcome {plan : WritePlan} {session other : Session}
    (same : session.store.item? plan.space plan.key = other.store.item? plan.space plan.key) :
    ((engine.executeAlone plan).exec session).1 = ((engine.executeAlone plan).exec other).1 := by
  have called := engine.still_call .begin none
  rw [executeAlone]
  cases allowed : (engine.call .begin none).result with
  | error failure =>
      have refused : ∀ session, engine.begin.exec session = (.error failure, session) :=
        fun session => exec_bind_error ((called session).trans (by rw [allowed])) _
      rw [exec_bind_error (refused session), exec_bind_error (refused other)]
  | ok value =>
      have opened : ∀ session, engine.begin.exec session =
          (.ok ⟨⟩, { session with transaction := Transaction.begin session.store }) :=
        fun session => exec_bind_ok ((called session).trans (by rw [allowed])) _
      rw [exec_bind_ok (opened session), exec_bind_ok (opened other)]
      refine Blind.after (execute_outcome blind same) fun outcome => ?_
      cases outcome with
      | conditionFailed item => exact blind_rollback.bind fun _ => (Still.pure _).blind
      | applied old new => exact blind_commit.bind fun _ => (Still.pure _).blind
      | checked => exact blind_commit.bind fun _ => (Still.pure _).blind

end Hooks

end Engine
end ItemStore
