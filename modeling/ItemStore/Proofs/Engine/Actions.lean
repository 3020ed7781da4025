import ItemStore.Engine.Answer
import Mathlib.Data.List.Forall2

/-!
How actions run. An action is still if it neither looks at its session nor changes it, as those are
that check and plan a request. It keeps the store if what is committed stays the same, whether it
succeeds or fails.
-/

namespace ItemStore

theorem exists_of_mem_right {α β : Type} {r : α → β → Prop} {as : List α} {bs : List β}
    (each : List.Forall₂ r as bs) {b : β} (member : b ∈ bs) : ∃ a ∈ as, r a b := by
  induction each with
  | nil => cases member
  | cons here _ ih =>
      rcases List.mem_cons.mp member with rfl | there
      · exact ⟨_, List.mem_cons_self, here⟩
      · obtain ⟨a, listed, fits⟩ := ih there
        exact ⟨a, List.mem_cons_of_mem _ listed, fits⟩

namespace Action

variable {α β : Type}

def exec (action : Action α) (session : Session) : Except Failure α × Session :=
  action.run.run session

@[simp] theorem exec_pure (value : α) (session : Session) :
    (pure value : Action α).exec session = (.ok value, session) := rfl

@[simp] theorem exec_throw (failure : Failure) (session : Session) :
    (throw failure : Action α).exec session = (.error failure, session) := rfl

@[simp] theorem exec_refuse (fault : RequestFault) (session : Session) :
    (refuse fault : Action α).exec session = (.error (.request fault), session) := rfl

@[simp] theorem exec_get (session : Session) :
    (get : Action Session).exec session = (.ok session, session) := rfl

@[simp] theorem exec_set (after session : Session) :
    (set after : Action PUnit).exec session = (.ok ⟨⟩, after) := rfl

@[simp] theorem exec_modify (change : Session → Session) (session : Session) :
    (modify change : Action PUnit).exec session = (.ok ⟨⟩, change session) := rfl

theorem exec_clearLedger (session : Session) :
    clearLedger.exec session = (.ok ⟨⟩, { session with ledger := [] }) := rfl

theorem exec_bind (action : Action α) (next : α → Action β) (session : Session) :
    (action >>= next).exec session =
      match action.exec session with
      | (.ok value, after) => (next value).exec after
      | (.error failure, after) => (.error failure, after) := by
  cases result : action.exec session with
  | mk outcome after =>
      simp only [exec, ExceptT.run, StateT.run] at result
      cases outcome <;>
        simp only [exec, bind, ExceptT.bind, ExceptT.mk, ExceptT.bindCont, StateT.bind, ExceptT.run,
          StateT.run, result] <;> rfl

theorem exec_bind_ok {action : Action α} {session after : Session} {value : α}
    (ok : action.exec session = (.ok value, after)) (next : α → Action β) :
    (action >>= next).exec session = (next value).exec after := by
  simp [exec_bind, ok]

theorem exec_bind_error {action : Action α} {session after : Session} {failure : Failure}
    (failed : action.exec session = (.error failure, after)) (next : α → Action β) :
    (action >>= next).exec session = (.error failure, after) := by
  simp [exec_bind, failed]

theorem of_exec_bind_ok {action : Action α} {next : α → Action β} {session after : Session}
    {value : β} (ok : (action >>= next).exec session = (.ok value, after)) :
    ∃ first middle, action.exec session = (.ok first, middle) ∧
      (next first).exec middle = (.ok value, after) := by
  rw [exec_bind] at ok
  split at ok
  · rename_i first middle here
    exact ⟨first, middle, here, ok⟩
  · simp at ok

theorem of_exec_bind_error {action : Action α} {next : α → Action β} {session after : Session}
    {failure : Failure} (failed : (action >>= next).exec session = (.error failure, after)) :
    action.exec session = (.error failure, after) ∨
      ∃ first middle, action.exec session = (.ok first, middle) ∧
        (next first).exec middle = (.error failure, after) := by
  rw [exec_bind] at failed
  split at failed
  · rename_i first middle here
    exact Or.inr ⟨first, middle, here, failed⟩
  · rename_i here
    cases failed
    exact Or.inl here

@[simp] theorem exec_attempt (action : Action α) (session : Session) :
    (attempt action).exec session = (.ok (action.exec session).1, (action.exec session).2) := rfl

theorem exec_attempt_bind {action : Action α} {session after : Session} {outcome : Except Failure α}
    (ran : action.exec session = (outcome, after)) (next : Except Failure α → Action β) :
    (attempt action >>= next).exec session = (next outcome).exec after :=
  exec_bind_ok (by rw [exec_attempt, ran]) next

/-! Actions that have nothing to do with the session. -/

def result (action : Action α) : Except Failure α :=
  (action.exec (Session.ofStore .empty)).1

def Still (action : Action α) : Prop :=
  ∀ session, action.exec session = (action.result, session)

theorem Still.pure (value : α) : (Pure.pure value : Action α).Still := fun _ => rfl

theorem Still.throw (failure : Failure) : (MonadExcept.throw failure : Action α).Still :=
  fun _ => rfl

theorem Still.refuse (fault : RequestFault) : (Action.refuse fault : Action α).Still :=
  fun _ => rfl

theorem Still.bind {action : Action α} {next : α → Action β} (first : action.Still)
    (second : ∀ value, (next value).Still) : (action >>= next).Still := by
  intro session
  cases outcome : action.result with
  | ok value =>
      have here : ∀ session, action.exec session = (.ok value, session) := by
        intro session
        rw [first session, outcome]
      have same : (action >>= next).result = (next value).result := by
        simp only [result, exec_bind_ok (here _)]
      rw [exec_bind_ok (here session), same]
      exact second value session
  | error failure =>
      have here : ∀ session, action.exec session = (.error failure, session) := by
        intro session
        rw [first session, outcome]
      have same : (action >>= next).result = .error failure := by
        simp only [result, exec_bind_error (here _)]
      rw [exec_bind_error (here session), same]

@[simp] theorem result_pure (value : α) : (Pure.pure value : Action α).result = .ok value := rfl

@[simp] theorem result_throw (failure : Failure) :
    (MonadExcept.throw failure : Action α).result = .error failure := rfl

theorem Still.of_bind_ok {action : Action α} {next : α → Action β} (still : action.Still)
    {value : β} (ok : (action >>= next).result = .ok value) :
    ∃ first, action.result = .ok first ∧ (next first).result = .ok value := by
  cases outcome : action.result with
  | ok first =>
      have here : action.exec (Session.ofStore .empty) = (.ok first, Session.ofStore .empty) := by
        rw [still, outcome]
      simp only [result, exec_bind_ok here] at ok
      exact ⟨first, rfl, ok⟩
  | error failure =>
      have here : action.exec (Session.ofStore .empty) =
          (.error failure, Session.ofStore .empty) := by
        rw [still, outcome]
      simp only [result, exec_bind_error here] at ok
      simp at ok

theorem Still.result_eq {action : Action α} (still : action.Still) {session after : Session}
    {outcome : Except Failure α} (ran : action.exec session = (outcome, after)) :
    action.result = outcome := by
  rw [still] at ran
  exact congrArg Prod.fst ran

theorem Still.of_exec_bind_ok {action : Action α} {next : α → Action β} (still : action.Still)
    {session after : Session} {value : β}
    (ok : (action >>= next).exec session = (.ok value, after)) :
    ∃ first, action.result = .ok first ∧ (next first).exec session = (.ok value, after) := by
  obtain ⟨first, middle, ran, rest⟩ := Action.of_exec_bind_ok ok
  rw [still session] at ran
  obtain ⟨found, rfl⟩ := Prod.mk.inj ran
  exact ⟨first, found, rest⟩

theorem Still.ite {condition : Prop} [Decidable condition] {yes no : Action α} (first : yes.Still)
    (second : no.Still) : (if condition then yes else no).Still := by
  split
  · exact first
  · exact second

theorem Still.ofExcept {ε : Type} (failure : ε → Failure) (outcome : Except ε α) :
    (Action.ofExcept failure outcome).Still := by
  cases outcome with
  | ok value => exact Still.pure value
  | error error => exact Still.throw (failure error)

theorem of_ofExcept_ok {ε : Type} {failure : ε → Failure} {outcome : Except ε α} {value : α}
    (ok : (ofExcept failure outcome).result = .ok value) : outcome = .ok value := by
  cases outcome with
  | ok found =>
      simp only [ofExcept, result_pure] at ok
      cases ok
      rfl
  | error error => simp [ofExcept] at ok

theorem of_require_ok {condition : Bool} {fault : RequestFault} {value : Unit}
    (ok : (require condition fault).result = .ok value) : condition = true := by
  cases condition with
  | true => rfl
  | false => cases ok

theorem Still.expression (outcome : Except ExpressionError α) : (expression outcome).Still :=
  Still.ofExcept _ _

theorem Still.key (outcome : Except KeyError α) : (key outcome).Still := Still.ofExcept _ _

theorem Still.value (outcome : Except ValueError α) : (value outcome).Still := Still.ofExcept _ _

theorem Still.require (condition : Bool) (fault : RequestFault) :
    (require condition fault).Still :=
  Still.ite (Still.pure _) (Still.refuse _)

theorem Still.mapM {step : α → Action β} (still : ∀ value, (step value).Still) :
    ∀ values : List α, (values.mapM step).Still
  | [] => Still.pure _
  | value :: rest => by
      rw [List.mapM_cons]
      exact (still value).bind fun _ => (Still.mapM still rest).bind fun _ => Still.pure _

theorem Still.foldlM {step : β → α → Action β} (still : ∀ state value, (step state value).Still) :
    ∀ (values : List α) (state : β), (values.foldlM step state).Still
  | [], state => Still.pure state
  | value :: rest, state => by
      rw [List.foldlM_cons]
      exact (still state value).bind fun next => Still.foldlM still rest next

/-! Actions that change nothing that is committed. -/

def Keeps (action : Action α) : Prop :=
  ∀ session, (action.exec session).2.store = session.store

theorem Still.keeps {action : Action α} (still : action.Still) : action.Keeps := by
  intro session
  rw [still session]

theorem Keeps.bind {action : Action α} {next : α → Action β} (first : action.Keeps)
    (second : ∀ value, (next value).Keeps) : (action >>= next).Keeps := by
  intro session
  have here := first session
  cases ran : action.exec session with
  | mk outcome after =>
      rw [ran] at here
      cases outcome with
      | ok value =>
          rw [exec_bind_ok ran]
          exact (second value after).trans here
      | error failure =>
          rw [exec_bind_error ran]
          exact here

theorem Keeps.get : (MonadState.get : Action Session).Keeps := fun _ => rfl

theorem Keeps.modify {change : Session → Session} (same : ∀ session,
    (change session).store = session.store) : (modify change : Action PUnit).Keeps := same

theorem Keeps.attempt {action : Action α} (keeps : action.Keeps) : (attempt action).Keeps := keeps

theorem Keeps.mapM {step : α → Action β} (keeps : ∀ value, (step value).Keeps) :
    ∀ values : List α, (values.mapM step).Keeps
  | [] => (Still.pure _).keeps
  | value :: rest => by
      rw [List.mapM_cons]
      exact (keeps value).bind fun _ => (Keeps.mapM keeps rest).bind fun _ => (Still.pure _).keeps

theorem Keeps.forM {step : α → Action PUnit} (keeps : ∀ value, (step value).Keeps) :
    ∀ values : List α, (values.forM step).Keeps
  | [] => (Still.pure _).keeps
  | value :: rest => (keeps value).bind fun _ => Keeps.forM keeps rest

theorem mapM_each {step : α → Action β} {values : List α} {Fits : α → β → Prop}
    {Holds : Session → Prop}
    (each : ∀ value ∈ values, ∀ session result after, Holds session →
      (step value).exec session = (.ok result, after) → Fits value result ∧ Holds after) :
    ∀ {session after : Session} {results : List β}, Holds session →
      (values.mapM step).exec session = (.ok results, after) →
      List.Forall₂ Fits values results ∧ Holds after := by
  induction values with
  | nil =>
      intro session after results holds ok
      cases ok
      exact ⟨.nil, holds⟩
  | cons value rest ih =>
      intro session after results holds ok
      rw [List.mapM_cons] at ok
      obtain ⟨result, middle, first, ok⟩ := of_exec_bind_ok ok
      obtain ⟨others, last, later, ok⟩ := of_exec_bind_ok ok
      cases ok
      obtain ⟨fits, between⟩ := each value List.mem_cons_self session result middle holds first
      obtain ⟨fitted, after⟩ :=
        ih (fun other member => each other (List.mem_cons_of_mem _ member)) between later
      exact ⟨.cons fits fitted, after⟩

theorem mapM_invariant {step : α → Action β} {values : List α} {Holds : Session → Prop}
    (keeps : ∀ value ∈ values, ∀ session result after, Holds session →
      (step value).exec session = (.ok result, after) → Holds after)
    {session after : Session} {results : List β} (holds : Holds session)
    (ok : (values.mapM step).exec session = (.ok results, after)) : Holds after :=
  (@mapM_each _ _ _ _ (fun _ _ => True) Holds
    (fun value member session result after holds stepped =>
      ⟨trivial, keeps value member session result after holds stepped⟩) _ _ _ holds ok).2

theorem mapM_still {step : α → Action β} (still : ∀ value, (step value).Still) {values : List α}
    {results : List β} (ok : (values.mapM step).result = .ok results) :
    List.Forall₂ (fun value result => (step value).result = .ok result) values results := by
  have ran : (values.mapM step).exec (Session.ofStore .empty) =
      (.ok results, Session.ofStore .empty) := by
    rw [Still.mapM still, ok]
  have each : ∀ value ∈ values, ∀ session result after, True →
      (step value).exec session = (.ok result, after) → (step value).result = .ok result ∧ True :=
    fun value _ session result after _ stepped => ⟨(still value).result_eq stepped, trivial⟩
  exact (mapM_each each trivial ran).1

theorem ok_of_any {action : Action α} {session : Session} {check : α → Bool}
    (passed : (action.exec session).1.toOption.any check = true) :
    ∃ value after, action.exec session = (.ok value, after) ∧ check value = true := by
  rcases ran : action.exec session with ⟨failure | value, after⟩
  · rw [ran] at passed
    cases passed
  · rw [ran] at passed
    exact ⟨value, after, rfl, passed⟩

end Action
end ItemStore
