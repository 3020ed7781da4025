import ItemStore.Proofs.Engine.BatchWrites
import ItemStore.Proofs.Engine.Expiry

/-!
Reads of many items agree with reads of one. A get is planned, its plan is looked up among the rows
that are committed, and it is charged for what is stored there. Batches and transactions of reads do
the same for each of their keys, with one transaction and one ledger for them all.
-/

namespace ItemStore

def KeysRequest.single (keys : KeysRequest) (table : String) (capacity : Option CapacityDetail)
    (key : Item) : GetItemRequest :=
  ⟨table, key, keys.consistentRead, keys.projection, keys.names, capacity⟩

def TransactGet.single (get : TransactGet) (capacity : Option CapacityDetail) : GetItemRequest :=
  ⟨get.table, get.key, none, get.projection, get.names, capacity⟩

def Session.closed (session : Session) (charges : Ledger) : Session :=
  { session with transaction := Transaction.begin session.store, ledger := charges }

theorem exists_between {α β γ : Type} {r : α → β → Prop} {s : β → γ → Prop} {as : List α}
    {cs : List γ} (both : List.Forall₂ (fun a c => ∃ b, r a b ∧ s b c) as cs) :
    ∃ bs, List.Forall₂ r as bs ∧ List.Forall₂ s bs cs := by
  induction both with
  | nil => exact ⟨[], .nil, .nil⟩
  | cons here _ ih =>
      obtain ⟨b, first, second⟩ := here
      obtain ⟨bs, firsts, seconds⟩ := ih
      exact ⟨b :: bs, .cons first firsts, .cons second seconds⟩

theorem map_eq_map_of_forall₂ {α β γ : Type} {f : α → γ} {g : β → γ} {as : List α} {bs : List β}
    (each : List.Forall₂ (fun a b => f a = g b) as bs) : as.map f = bs.map g := by
  have same : List.Forall₂ (· = ·) (as.map f) (bs.map g) :=
    List.forall₂_map_left_iff.mpr (List.forall₂_map_right_iff.mpr each)
  rwa [List.forall₂_eq_eq_eq] at same

theorem exists_of_mem_left {α β : Type} {r : α → β → Prop} {as : List α} {bs : List β}
    (each : List.Forall₂ r as bs) {a : α} (member : a ∈ as) : ∃ b ∈ bs, r a b :=
  exists_of_mem_right each.flip member

theorem exists_forall₂ {α β : Type} {r : α → β → Prop} {as : List α}
    (each : ∀ a ∈ as, ∃ b, r a b) : ∃ bs, List.Forall₂ r as bs := by
  induction as with
  | nil => exact ⟨[], .nil⟩
  | cons a rest ih =>
      obtain ⟨⟨b, here⟩, later⟩ := List.forall_mem_cons.mp each
      obtain ⟨bs, there⟩ := ih later
      exact ⟨b :: bs, .cons here there⟩

namespace Action

variable {α β γ : Type}

theorem exec_bind_ok_iff {action : Action α} {next : α → Action β} {session after : Session}
    {value : β} : (action >>= next).exec session = (.ok value, after) ↔
      ∃ first middle, action.exec session = (.ok first, middle) ∧
        (next first).exec middle = (.ok value, after) :=
  ⟨of_exec_bind_ok, fun ⟨_, _, ran, ok⟩ => (exec_bind_ok ran next).trans ok⟩

theorem Still.exec_bind_ok_iff {action : Action α} (still : action.Still) {next : α → Action β}
    {session after : Session} {value : β} :
    (action >>= next).exec session = (.ok value, after) ↔
      ∃ first, action.result = .ok first ∧ (next first).exec session = (.ok value, after) := by
  refine ⟨still.of_exec_bind_ok, fun ⟨first, found, ok⟩ => ?_⟩
  exact (exec_bind_ok (by rw [still, found]) next).trans ok

theorem mapM_still_iff {step : α → Action β} (still : ∀ value, (step value).Still)
    {values : List α} {results : List β} : (values.mapM step).result = .ok results ↔
      List.Forall₂ (fun value result => (step value).result = .ok result) values results := by
  refine ⟨mapM_still still, fun each => ?_⟩
  induction each with
  | nil => rfl
  | cons here _ ih =>
      rw [List.mapM_cons, (still _).result_bind, here]
      refine ((Still.mapM still _).result_bind _).trans ?_
      rw [ih]
      rfl

/-- Steps that look at the rows, change none and are charged come in turn to what each comes to. -/
theorem mapM_charging {step : α → Action β} {Comes : Store → α → γ → Prop} {view : γ → β}
    {charges : γ → Ledger}
    (each : ∀ value session result after,
      (step value).exec session = (.ok result, after) ↔
        ∃ read, Comes session.transaction.rows value read ∧ result = view read ∧
          after = { session with ledger := session.ledger ++ charges read })
    {values : List α} :
    ∀ {session after : Session} {results : List β},
      (values.mapM step).exec session = (.ok results, after) ↔
        ∃ reads, List.Forall₂ (Comes session.transaction.rows) values reads ∧
          results = reads.map view ∧
          after = { session with ledger := session.ledger ++ reads.flatMap charges } := by
  induction values with
  | nil =>
      intro session after results
      constructor
      · intro ok
        cases ok
        exact ⟨[], .nil, rfl, by simp⟩
      · rintro ⟨_, none, rfl, rfl⟩
        cases none
        simp
  | cons value rest ih =>
      intro session after results
      rw [List.mapM_cons, exec_bind_ok_iff]
      constructor
      · rintro ⟨first, middle, stepped, ok⟩
        obtain ⟨others, last, later, ok⟩ := of_exec_bind_ok ok
        cases ok
        obtain ⟨read, comes, rfl, rfl⟩ := (each value session first middle).mp stepped
        obtain ⟨reads, come, rfl, rfl⟩ := ih.mp later
        exact ⟨read :: reads, .cons comes come, rfl, by simp⟩
      · rintro ⟨_, come, rfl, rfl⟩
        cases come with
        | @cons _ read _ reads here there =>
            let middle : Session := { session with ledger := session.ledger ++ charges read }
            have later : (rest.mapM step).exec middle = (.ok (reads.map view),
                { middle with ledger := middle.ledger ++ reads.flatMap charges }) :=
              ih.mpr ⟨reads, there, rfl, rfl⟩
            refine ⟨_, middle, (each value session _ _).mpr ⟨read, here, rfl, rfl⟩, ?_⟩
            rw [exec_bind_ok later]
            simp [middle]

end Action

namespace Engine

open Action

variable {engine : Engine} {session after : Session}

/-! One key. -/

inductive Looks (engine : Engine) (rows : Store) (plan : ReadPlan) : Option Item × Charge → Prop
  | intro {stored found : Option Item}
      (called : refused engine.faults .get (some plan.space) = false)
      (read : rows.item? plan.space plan.key = some stored)
      (shown : (projectFound plan (engine.visible plan.table stored)).result = .ok found) :
      Looks engine rows plan (found, ⟨plan.space, readUnits (Item.sizeOf? stored), 0⟩)

theorem call_ok_iff {call : StoreCall} {space : Option Space} :
    (engine.call call space).exec session = (.ok (), after) ↔
      refused engine.faults call space = false ∧ after = session := by
  rw [Engine.call]
  cases refused engine.faults call space with
  | false => simp [eq_comm]
  | true => simp

theorem load_ok_iff {table : Table} {key : RowKey} {stored : Option Item} :
    (engine.load table key).exec session = (.ok stored, after) ↔
      refused engine.faults .get (some ⟨table.name, none⟩) = false ∧
        session.transaction.rows.item? ⟨table.name, none⟩ key = some stored ∧ after = session := by
  constructor
  · intro ok
    obtain ⟨_, _, calling, _⟩ := of_exec_bind_ok ok
    exact ⟨(call_ok_iff.mp calling).1, load_ok ok⟩
  · rintro ⟨called, read, rfl⟩
    rw [engine.exec_load_called key (call_ok_iff.mpr ⟨called, rfl⟩), read]
    rfl

theorem find_ok_iff {plan : ReadPlan} {seen : Option Item} :
    (engine.find plan).exec session = (.ok seen, after) ↔
      ∃ stored, refused engine.faults .get (some plan.space) = false ∧
        session.transaction.rows.item? plan.space plan.key = some stored ∧
        seen = engine.visible plan.table stored ∧
        after = { session with
          ledger := session.ledger ++ [⟨plan.space, readUnits (Item.sizeOf? stored), 0⟩] } := by
  constructor
  · intro ok
    obtain ⟨stored, _, loading, rest⟩ := of_exec_bind_ok ok
    obtain ⟨called, read, rfl⟩ := load_ok_iff.mp loading
    cases rest
    exact ⟨stored, called, read, rfl, rfl⟩
  · rintro ⟨stored, called, read, rfl, rfl⟩
    exact (exec_bind_ok (load_ok_iff.mpr ⟨called, read, rfl⟩) _).trans rfl

theorem fetch_ok_iff {plan : ReadPlan} {found : Option Item} :
    (engine.fetch plan).exec session = (.ok found, after) ↔
      ∃ read, engine.Looks session.transaction.rows plan read ∧ found = read.1 ∧
        after = { session with ledger := session.ledger ++ [read.2] } := by
  rw [fetch, exec_bind_ok_iff]
  constructor
  · rintro ⟨seen, _, finding, showing⟩
    obtain ⟨stored, called, read, rfl, rfl⟩ := find_ok_iff.mp finding
    have shown := (still_projectFound _ _).result_eq showing
    rw [still_projectFound] at showing
    cases congrArg Prod.snd showing
    exact ⟨_, .intro called read shown, rfl, rfl⟩
  · rintro ⟨_, ⟨called, read, shown⟩, rfl, rfl⟩
    exact ⟨_, _, find_ok_iff.mpr ⟨_, called, read, rfl, rfl⟩,
      (still_projectFound _ _ _).trans (by rw [shown])⟩

theorem fetches_ok_iff {plans : List ReadPlan} {found : List (Option Item)} :
    (plans.mapM engine.fetch).exec session = (.ok found, after) ↔
      ∃ reads, List.Forall₂ (engine.Looks session.transaction.rows) plans reads ∧
        found = reads.map Prod.fst ∧
        after = { session with ledger := session.ledger ++ reads.map Prod.snd } := by
  rw [mapM_charging fun _ _ _ _ => fetch_ok_iff]
  simp only [List.map_eq_flatMap]

def Opens (engine : Engine) : Prop :=
  refused engine.faults .begin none = false ∧ refused engine.faults .rollback none = false

theorem inside_ok_iff {α β : Type} {inside : Action α} {next : α → Action β} {value : β}
    (kept : ∀ (opened middle : Session) first, inside.exec opened = (.ok first, middle) →
      middle = { opened with ledger := middle.ledger }) :
    (do
      clearLedger
      engine.begin
      let first ← inside
      engine.rollback
      next first : Action β).exec session = (.ok value, after) ↔
    engine.Opens ∧ ∃ first charges,
      inside.exec (session.closed []) = (.ok first, session.closed charges) ∧
        (next first).exec (session.closed charges) = (.ok value, after) := by
  constructor
  · intro ok
    obtain ⟨_, _, clearing, ok⟩ := of_exec_bind_ok ok
    cases clearing
    obtain ⟨_, _, beginning, ok⟩ := of_exec_bind_ok ok
    obtain ⟨_, _, calling, opening⟩ := of_exec_bind_ok beginning
    obtain ⟨opens, rfl⟩ := call_ok_iff.mp calling
    cases opening
    obtain ⟨first, _, running, ok⟩ := of_exec_bind_ok ok
    obtain ⟨_, _, rolling, ok⟩ := of_exec_bind_ok ok
    obtain ⟨_, ended, calling, closing⟩ := of_exec_bind_ok rolling
    obtain ⟨closes, rfl⟩ := call_ok_iff.mp calling
    cases closing
    have same := kept _ _ _ running
    refine ⟨⟨opens, closes⟩, first, ended.ledger, ?_, ?_⟩
    · rw [same] at running
      exact running
    · rw [same] at ok
      exact ok
  · rintro ⟨⟨opens, closes⟩, first, charges, running, ok⟩
    rw [exec_bind_ok (exec_clearLedger session)]
    refine (exec_bind_ok (exec_bind_ok (call_ok_iff.mpr ⟨opens, rfl⟩) _) _).trans ?_
    refine (exec_bind_ok running _).trans ?_
    exact (exec_bind_ok (exec_bind_ok (call_ok_iff.mpr ⟨closes, rfl⟩) _) _).trans ok

def Finds (engine : Engine) (rows : Store) (get : GetItemRequest) (read : Option Item × Charge) :
    Prop :=
  ∃ plan, (engine.planGet get.table get.key get.projection get.names).result = .ok plan ∧
    engine.Looks rows plan read

theorem getItem_ok_iff (named : Named engine.tables) {get : GetItemRequest}
    {response : GetItemResponse} :
    (engine.getItem get).exec session = (.ok response, after) ↔
      engine.Opens ∧ ∃ read, engine.Finds session.store get read ∧
        response = ⟨read.1, Ledger.consumed [read.2] get.capacity get.table⟩ ∧
        after = session.closed [read.2] := by
  have kept : ∀ (plan : ReadPlan) (opened middle : Session) seen,
      (engine.find plan).exec opened = (.ok seen, middle) →
      middle = { opened with ledger := middle.ledger } := by
    intro plan opened middle seen finding
    obtain ⟨_, _, _, _, rfl⟩ := find_ok_iff.mp finding
    rfl
  constructor
  · intro ok
    obtain ⟨plan, planned, ok⟩ := (engine.still_planGet _ _ _ _).of_exec_bind_ok ok
    obtain ⟨opens, seen, charges, finding, ok⟩ := (inside_ok_iff (kept plan)).mp ok
    obtain ⟨stored, called, read, rfl, closing⟩ := find_ok_iff.mp finding
    cases congrArg Session.ledger closing
    obtain ⟨found, shown, last⟩ := (still_projectFound _ _).of_exec_bind_ok ok
    cases last
    refine ⟨opens, _, ⟨plan, planned, .intro called read shown⟩, ?_, rfl⟩
    rw [← named _ _ (table_ok (planGet_ok planned).1)]
    rfl
  · rintro ⟨opens, _, ⟨plan, planned, called, read, shown⟩, rfl, rfl⟩
    rw [getItem, (engine.still_planGet _ _ _ _).exec_bind_ok_iff]
    refine ⟨plan, planned, (inside_ok_iff (kept plan)).mpr ⟨opens, _, _,
      find_ok_iff.mpr ⟨_, called, read, rfl, rfl⟩, ?_⟩⟩
    refine (still_projectFound _ _).exec_bind_ok_iff.mpr ⟨_, shown, ?_⟩
    rw [← named _ _ (table_ok (planGet_ok planned).1)]
    rfl

/-! The plans of many keys. -/

theorem planGet_ok_iff {name : String} {key : Item} {projection : Option String}
    {names : Dict String String} {plan : ReadPlan} :
    (engine.planGet name key projection names).result = .ok plan ↔
      engine.tables.get? name = some plan.table ∧
        (keyOf plan.table key).result = .ok plan.key ∧
        (engine.parsePaths projection names).result = .ok plan.paths ∧ plan.names = names := by
  constructor
  · intro ok
    obtain ⟨table, found, ok⟩ := (engine.still_table _).of_bind_ok ok
    obtain ⟨rowKey, keyed, ok⟩ := (still_keyOf _ _).of_bind_ok ok
    obtain ⟨paths, parsed, ok⟩ := (engine.still_parsePaths _ _).of_bind_ok ok
    cases ok
    exact ⟨table_ok found, keyed, parsed, rfl⟩
  · rintro ⟨found, keyed, parsed, rfl⟩
    have found : (engine.table name).result = .ok plan.table := by
      rw [Engine.table, found]
      rfl
    rw [planGet, (engine.still_table _).result_bind, found]
    refine ((still_keyOf _ _).result_bind _).trans ?_
    rw [keyed]
    refine ((engine.still_parsePaths _ _).result_bind _).trans ?_
    rw [parsed]
    rfl

theorem distinctKeys_ok_iff {table : Table} {keys : List Item} :
    ∀ {seen all : List RowKey}, (distinctKeys table seen keys).result = .ok all ↔
      ∃ rowKeys, List.Forall₂ (fun key rowKey => (keyOf table key).result = .ok rowKey)
          keys rowKeys ∧
        rowKeys.Nodup ∧ (∀ rowKey ∈ rowKeys, rowKey ∉ seen) ∧ all = seen ++ rowKeys := by
  induction keys with
  | nil =>
      intro seen all
      constructor
      · intro ok
        cases ok
        exact ⟨[], .nil, List.nodup_nil, nofun, (List.append_nil _).symm⟩
      · rintro ⟨_, none, _, _, rfl⟩
        cases none
        rw [List.append_nil]
        rfl
  | cons key rest ih =>
      intro seen all
      constructor
      · intro ok
        obtain ⟨rowKey, keyed, ok⟩ := (still_keyOf _ _).of_bind_ok ok
        obtain ⟨_, fresh, ok⟩ := (Still.require _ _).of_bind_ok ok
        obtain ⟨rowKeys, others, distinct, beyond, rfl⟩ := ih.mp ok
        have fresh : rowKey ∉ seen := by simpa using require_ok_iff.mp fresh
        refine ⟨rowKey :: rowKeys, .cons keyed others, List.nodup_cons.mpr ⟨?_, distinct⟩, ?_,
          List.append_assoc _ _ _⟩
        · exact fun repeated => beyond rowKey repeated (by simp)
        · intro other member
          rcases List.mem_cons.mp member with rfl | later
          · exact fresh
          · exact fun earlier => beyond other later (List.mem_append_left _ earlier)
      · rintro ⟨_, keyed, distinct, beyond, rfl⟩
        cases keyed with
        | @cons _ rowKey _ rowKeys here there =>
            obtain ⟨first, distinct⟩ := List.nodup_cons.mp distinct
            have fresh : (!seen.contains rowKey) = true := by
              simpa using beyond rowKey List.mem_cons_self
            rw [distinctKeys, (still_keyOf _ _).result_bind, here]
            refine ((Still.require _ _).result_bind _).trans ?_
            rw [require_ok_iff.mpr fresh]
            refine ih.mpr ⟨rowKeys, there, distinct, ?_, (List.append_assoc seen [rowKey] _).symm⟩
            intro other later earlier
            rcases List.mem_append.mp earlier with earlier | last
            · exact beyond other (List.mem_cons_of_mem _ later) earlier
            · rw [List.mem_singleton.mp last] at later
              exact first later

theorem planKeys_ok_iff {table : Table} (listed : engine.tables.get? table.name = some table)
    {keys : KeysRequest} {plans : List ReadPlan} :
    (engine.planKeys table keys).result = .ok plans ↔
      (∃ paths, (engine.parsePaths keys.projection keys.names).result = .ok paths) ∧
        List.Forall₂ (fun key plan =>
          (engine.planGet table.name key keys.projection keys.names).result = .ok plan)
          keys.keys plans ∧
        (plans.map ReadPlan.key).Nodup := by
  constructor
  · intro ok
    obtain ⟨paths, parsed, ok⟩ := (engine.still_parsePaths _ _).of_bind_ok ok
    obtain ⟨_, unrepeated, ok⟩ := (still_distinctKeys _ _ _).of_bind_ok ok
    obtain ⟨rowKeys, keyed, distinct, _, rfl⟩ := distinctKeys_ok_iff.mp unrepeated
    cases ok
    refine ⟨⟨paths, parsed⟩, List.forall₂_map_right_iff.mpr (keyed.imp fun key rowKey keyed => ?_),
      ?_⟩
    · exact planGet_ok_iff.mpr ⟨listed, keyed, parsed, rfl⟩
    · rw [List.map_map]
      exact (List.map_id _).symm ▸ distinct
  · rintro ⟨⟨paths, parsed⟩, planned, distinct⟩
    have formed : List.Forall₂ (fun key plan => (keyOf table key).result = .ok plan.key ∧
        (⟨table, plan.key, paths, keys.names⟩ : ReadPlan) = plan) keys.keys plans := by
      refine planned.imp fun key plan planned => ?_
      obtain ⟨found, keyed, same, names⟩ := planGet_ok_iff.mp planned
      rw [listed] at found
      rw [parsed] at same
      cases found
      cases same
      exact ⟨keyed, by rw [← names]⟩
    have keyed : (distinctKeys table [] keys.keys).result = .ok (plans.map ReadPlan.key) :=
      distinctKeys_ok_iff.mpr ⟨_, List.forall₂_map_right_iff.mpr (formed.imp fun _ _ both => both.1),
        distinct, fun _ _ => List.not_mem_nil, rfl⟩
    have back : (plans.map ReadPlan.key).map
        (fun key => (⟨table, key, paths, keys.names⟩ : ReadPlan)) = plans := by
      rw [List.map_map]
      refine (List.map_congr_left fun plan member => ?_).trans (List.map_id plans)
      obtain ⟨_, _, _, same⟩ := exists_of_mem_right formed member
      exact same
    rw [planKeys, (engine.still_parsePaths _ _).result_bind, parsed]
    refine ((still_distinctKeys _ _ _).result_bind _).trans ?_
    rw [keyed]
    exact congrArg Except.ok back

/-! Many keys. -/

def LooksAll (engine : Engine) (rows : Store) (plans : String × List ReadPlan)
    (read : String × List (Option Item × Charge)) : Prop :=
  read.1 = plans.1 ∧ List.Forall₂ (engine.Looks rows) plans.2 read.2

def PlansAll (engine : Engine) (known : Table × KeysRequest) (plans : String × List ReadPlan) :
    Prop :=
  plans.1 = known.1.name ∧ (engine.planKeys known.1 known.2).result = .ok plans.2

theorem fetchAll_ok_iff {name : String} {plans : List ReadPlan} {listed : String × List Item} :
    (engine.fetchAll name plans).exec session = (.ok listed, after) ↔
      ∃ read, engine.LooksAll session.transaction.rows (name, plans) read ∧
        listed = (read.1, (read.2.map Prod.fst).filterMap id) ∧
        after = { session with ledger := session.ledger ++ read.2.map Prod.snd } := by
  rw [fetchAll, exec_bind_ok_iff]
  constructor
  · rintro ⟨found, middle, fetching, last⟩
    obtain ⟨reads, looks, rfl, rfl⟩ := fetches_ok_iff.mp fetching
    cases last
    exact ⟨(name, reads), ⟨rfl, looks⟩, rfl, rfl⟩
  · rintro ⟨⟨_, reads⟩, ⟨rfl, looks⟩, rfl, rfl⟩
    exact ⟨_, _, fetches_ok_iff.mpr ⟨reads, looks, rfl, rfl⟩, rfl⟩

theorem checkTransactionSize_ok_iff {count : Nat} :
    (checkTransactionSize count).result = .ok () ↔ count ≠ 0 ∧ count ≤ maxTransactionItems := by
  rw [checkTransactionSize, (Still.require _ _).result_bind, then_ok_iff, require_ok_iff,
    require_ok_iff, decide_eq_true_iff, decide_eq_true_iff]

theorem transactGet_ok_iff {request : TransactGetRequest} {response : TransactGetResponse} :
    (engine.transactGet request).exec session = (.ok response, after) ↔
      (request.gets.length ≠ 0 ∧ request.gets.length ≤ maxTransactionItems) ∧ engine.Opens ∧
      ∃ reads, List.Forall₂
          (fun get => engine.Finds session.store (get.single request.capacity))
          request.gets reads ∧
        response = ⟨reads.map Prod.fst,
          Ledger.consumedAll (Ledger.scale 2 (reads.map Prod.snd)) request.capacity⟩ ∧
        after = session.closed (Ledger.scale 2 (reads.map Prod.snd)) := by
  have still (get : TransactGet) :
      (engine.planGet get.table get.key get.projection get.names).Still :=
    engine.still_planGet _ _ _ _
  have kept : ∀ (plans : List ReadPlan) (opened middle : Session) found,
      (plans.mapM engine.fetch).exec opened = (.ok found, middle) →
      middle = { opened with ledger := middle.ledger } := by
    intro plans opened middle found fetching
    obtain ⟨_, _, _, rfl⟩ := fetches_ok_iff.mp fetching
    rfl
  constructor
  · intro ok
    obtain ⟨_, sized, ok⟩ := (still_checkTransactionSize _).of_exec_bind_ok ok
    obtain ⟨plans, planned, ok⟩ := (Still.mapM still _).of_exec_bind_ok ok
    obtain ⟨opens, found, charges, fetching, ok⟩ := (inside_ok_iff (kept plans)).mp ok
    obtain ⟨reads, looks, rfl, closing⟩ := fetches_ok_iff.mp fetching
    cases congrArg Session.ledger closing
    cases ok
    refine ⟨checkTransactionSize_ok_iff.mp sized, opens, reads, ?_, rfl, rfl⟩
    exact forall₂_comp ((mapM_still_iff still).mp planned) looks
  · rintro ⟨sized, opens, reads, finds, rfl, rfl⟩
    obtain ⟨plans, planned, looks⟩ := exists_between finds
    refine (still_checkTransactionSize _).exec_bind_ok_iff.mpr
      ⟨(), checkTransactionSize_ok_iff.mpr sized, ?_⟩
    refine (Still.mapM still _).exec_bind_ok_iff.mpr
      ⟨plans, (mapM_still_iff still).mpr planned, ?_⟩
    exact (inside_ok_iff (kept plans)).mpr ⟨opens, _, _,
      fetches_ok_iff.mpr ⟨reads, looks, rfl, rfl⟩, rfl⟩

theorem planTables_ok_iff {known : List (Table × KeysRequest)}
    {plans : List (String × List ReadPlan)} :
    (known.mapM fun (table, keys) => do
      return (table.name, ← engine.planKeys table keys) :
        Action (List (String × List ReadPlan))).result = .ok plans ↔
      List.Forall₂ engine.PlansAll known plans := by
  refine (mapM_still_iff fun _ => (engine.still_planKeys _ _).bind fun _ => Still.pure _).trans ?_
  refine iff_of_eq (congrArg (List.Forall₂ · known plans) ?_)
  funext entry planned
  refine propext ⟨fun ok => ?_, fun ⟨name, ok⟩ => ?_⟩
  · obtain ⟨_, planned, last⟩ := (engine.still_planKeys _ _).of_bind_ok ok
    cases last
    exact ⟨rfl, planned⟩
  · refine ((engine.still_planKeys _ _).result_bind _).trans ?_
    rw [ok, ← name]
    rfl

theorem batchGet_ok_iff {request : BatchGetRequest} {response : BatchGetResponse} :
    (engine.batchGet request).exec session = (.ok response, after) ↔
      (sumOf (fun entry => entry.2.keys.length) request.tables ≠ 0 ∧
        sumOf (fun entry => entry.2.keys.length) request.tables ≤ maxBatchGetKeys) ∧
      engine.Opens ∧
      ∃ reads, List.Forall₂ (fun known read => ∃ plans, engine.PlansAll known plans ∧
          engine.LooksAll session.store plans read) (engine.knownTables request.tables) reads ∧
        response = {
          items := Dict.ofList (reads.map fun read =>
            (read.1, (read.2.map Prod.fst).filterMap id))
          unprocessed := engine.unknownTables request.tables
          consumed := Ledger.consumedAll (reads.flatMap fun read => read.2.map Prod.snd)
            request.capacity } ∧
        after = session.closed (reads.flatMap fun read => read.2.map Prod.snd) := by
  have fetched {plans : List (String × List ReadPlan)} {found : List (String × List Item)}
      {session after : Session} :
      (plans.mapM fun (name, plans) => engine.fetchAll name plans).exec session =
          (.ok found, after) ↔
        ∃ reads, List.Forall₂ (engine.LooksAll session.transaction.rows) plans reads ∧
          found = reads.map (fun read => (read.1, (read.2.map Prod.fst).filterMap id)) ∧
          after = { session with
            ledger := session.ledger ++ reads.flatMap fun read => read.2.map Prod.snd } :=
    mapM_charging fun _ _ _ _ => fetchAll_ok_iff
  have kept : ∀ (plans : List (String × List ReadPlan)) (opened middle : Session) found,
      (plans.mapM fun (name, plans) => engine.fetchAll name plans).exec opened =
        (.ok found, middle) → middle = { opened with ledger := middle.ledger } := by
    intro plans opened middle found fetching
    obtain ⟨_, _, _, rfl⟩ := fetched.mp fetching
    rfl
  constructor
  · intro ok
    obtain ⟨_, some, ok⟩ := (Still.require _ _).of_exec_bind_ok ok
    obtain ⟨_, few, ok⟩ := (Still.require _ _).of_exec_bind_ok ok
    obtain ⟨plans, planned, ok⟩ := (Still.mapM (fun _ =>
      (engine.still_planKeys _ _).bind fun _ => Still.pure _) _).of_exec_bind_ok ok
    obtain ⟨opens, found, charges, fetching, ok⟩ := (inside_ok_iff (kept plans)).mp ok
    obtain ⟨reads, looks, rfl, closing⟩ := fetched.mp fetching
    cases congrArg Session.ledger closing
    cases ok
    refine ⟨⟨of_decide_eq_true (require_ok_iff.mp some), of_decide_eq_true
      (require_ok_iff.mp few)⟩, opens, reads, ?_, rfl, rfl⟩
    exact forall₂_comp (planTables_ok_iff.mp planned) looks
  · rintro ⟨⟨some, few⟩, opens, reads, finds, rfl, rfl⟩
    obtain ⟨plans, planned, looks⟩ := exists_between finds
    refine (Still.require _ _).exec_bind_ok_iff.mpr
      ⟨(), require_ok_iff.mpr (decide_eq_true some), ?_⟩
    refine (Still.require _ _).exec_bind_ok_iff.mpr
      ⟨(), require_ok_iff.mpr (decide_eq_true few), ?_⟩
    refine (Still.mapM (fun _ =>
      (engine.still_planKeys _ _).bind fun _ => Still.pure _) _).exec_bind_ok_iff.mpr
      ⟨plans, planTables_ok_iff.mpr planned, ?_⟩
    exact (inside_ok_iff (kept plans)).mpr ⟨opens, _, _, fetched.mpr ⟨reads, looks, rfl, rfl⟩, rfl⟩

/-! Each key alone. -/

def getsOf (engine : Engine) (request : BatchGetRequest) : List GetItemRequest :=
  (engine.knownTables request.tables).flatMap fun (table, keys) =>
    keys.keys.map (keys.single table.name request.capacity)

def itemAlone (engine : Engine) (session : Session) (get : GetItemRequest) : Option Item :=
  ((engine.getItem get).exec session).1.toOption.bind GetItemResponse.item

def readAlone (engine : Engine) (session : Session) (get : GetItemRequest) : Ledger :=
  ((engine.getItem get).exec session).2.ledger

def GetsAlone (engine : Engine) (session : Session) (get : GetItemRequest) : Prop :=
  (∀ charge ∈ engine.readAlone session get, charge.space.table = get.table) ∧
    ∃ after, (engine.getItem get).exec session = (.ok ⟨engine.itemAlone session get,
      (engine.readAlone session get).consumed get.capacity get.table⟩, after)

structure BatchAgrees (engine : Engine) (session : Session) (request : BatchGetRequest)
    (response : BatchGetResponse) : Prop where
  gets : ∀ get ∈ engine.getsOf request, engine.GetsAlone session get
  items : ∀ name, response.items.get? name =
    if engine.tables.contains name then
      (request.tables.get? name).map fun keys => keys.keys.filterMap fun key =>
        engine.itemAlone session (keys.single name request.capacity key)
    else none
  unprocessed : ∀ name, response.unprocessed.get? name =
    if engine.tables.contains name then none else request.tables.get? name
  consumed :
    let parts := (engine.getsOf request).map (engine.readAlone session)
    Ledger.Multiplies parts.flatten 1 parts ∧
      response.consumed = Ledger.consumedAll parts.flatten request.capacity

structure TransactionAgrees (engine : Engine) (session : Session) (request : TransactGetRequest)
    (response : TransactGetResponse) : Prop where
  gets : ∀ get ∈ request.gets, engine.GetsAlone session (get.single request.capacity)
  items : response.items =
    request.gets.map fun get => engine.itemAlone session (get.single request.capacity)
  consumed :
    let parts := request.gets.map fun get => engine.readAlone session (get.single request.capacity)
    let total := Ledger.scale 2 parts.flatten
    total.Multiplies 2 parts ∧ response.consumed = total.consumedAll request.capacity

structure Accepts (engine : Engine) (request : BatchGetRequest) : Prop where
  some : request.tables ≠ []
  few : sumOf (fun entry => entry.2.keys.length) request.tables ≤ maxBatchGetKeys
  known : ∀ entry ∈ request.tables, engine.tables.contains entry.1 = true ∧ entry.2.keys ≠ []
  distinct : ∀ entry ∈ engine.knownTables request.tables,
    entry.2.keys.Pairwise fun first second => entry.1.rowKey first ≠ entry.1.rowKey second

/-- How reads of many items and reads of one agree, in a session of whatever rows. -/
structure ReadsAgree (engine : Engine) (session : Session) : Prop where
  batch : ∀ request response after, request.tables.Ascending →
    (engine.batchGet request).exec session = (.ok response, after) →
    engine.BatchAgrees session request response
  transaction : ∀ request response after,
    (engine.transactGet request).exec session = (.ok response, after) →
    engine.TransactionAgrees session request response
  batchSucceeds : ∀ request, engine.Accepts request →
    (∀ get ∈ engine.getsOf request, ∃ response after,
      (engine.getItem get).exec session = (.ok response, after)) →
    ∃ response after, (engine.batchGet request).exec session = (.ok response, after)
  transactionSucceeds : ∀ request, request.gets ≠ [] →
    request.gets.length ≤ maxTransactionItems →
    (∀ get ∈ request.gets, ∃ response after,
      (engine.getItem (get.single request.capacity)).exec session = (.ok response, after)) →
    ∃ response after, (engine.transactGet request).exec session = (.ok response, after)

section Alone

variable (named : Named engine.tables)

include named

theorem alone_of_finds (opens : engine.Opens) {get : GetItemRequest} {read : Option Item × Charge}
    (finds : engine.Finds session.store get read) :
    engine.itemAlone session get = read.1 ∧ engine.readAlone session get = [read.2] ∧
      engine.GetsAlone session get := by
  have ran := (getItem_ok_iff named).mpr ⟨opens, read, finds, rfl, rfl⟩
  have item : engine.itemAlone session get = read.1 := by
    rw [itemAlone, ran]
    rfl
  have charges : engine.readAlone session get = [read.2] := by
    rw [readAlone, ran]
    rfl
  refine ⟨item, charges, ?_, session.closed [read.2], ?_⟩
  · rw [charges]
    obtain ⟨plan, planned, _, _, _⟩ := finds
    exact List.forall_mem_singleton.mpr (named _ _ (table_ok (planGet_ok planned).1))
  · rw [item, charges]
    exact ran

theorem finds_of_gets {α : Type} {single : α → GetItemRequest} {keys : List α}
    (gets : ∀ key ∈ keys, ∃ response after,
      (engine.getItem (single key)).exec session = (.ok response, after)) :
    (keys ≠ [] → engine.Opens) ∧ ∃ reads,
      List.Forall₂ (fun key => engine.Finds session.store (single key)) keys reads := by
  induction keys with
  | nil => exact ⟨fun none => absurd rfl none, [], .nil⟩
  | cons key rest ih =>
      obtain ⟨⟨response, after, ok⟩, later⟩ := List.forall_mem_cons.mp gets
      obtain ⟨opens, read, finds, _⟩ := (getItem_ok_iff named).mp ok
      obtain ⟨_, reads, others⟩ := ih later
      exact ⟨fun _ => opens, read :: reads, .cons finds others⟩

theorem allAlone_of_finds (opens : engine.Opens) {α : Type} {single : α → GetItemRequest}
    {keys : List α} {reads : List (Option Item × Charge)}
    (finds : List.Forall₂ (fun key => engine.Finds session.store (single key)) keys reads) :
    reads.map Prod.fst = keys.map (fun key => engine.itemAlone session (single key)) ∧
      reads.map Prod.snd =
        (keys.map fun key => engine.readAlone session (single key)).flatten ∧
      ∀ key ∈ keys, engine.GetsAlone session (single key) := by
  induction finds with
  | nil => exact ⟨rfl, rfl, nofun⟩
  | cons here _ ih =>
      obtain ⟨items, charges, gets⟩ := ih
      obtain ⟨item, charge, get⟩ := alone_of_finds named opens here
      refine ⟨?_, ?_, List.forall_mem_cons.mpr ⟨get, gets⟩⟩
      · rw [List.map_cons, List.map_cons, items, item]
      · rw [List.map_cons, List.map_cons, List.flatten_cons, charges, charge]
        rfl

theorem transactionAgrees {request : TransactGetRequest} {response : TransactGetResponse}
    (ok : (engine.transactGet request).exec session = (.ok response, after)) :
    engine.TransactionAgrees session request response := by
  obtain ⟨_, opens, reads, finds, rfl, _⟩ := transactGet_ok_iff.mp ok
  obtain ⟨items, charges, gets⟩ := allAlone_of_finds named opens finds
  refine ⟨gets, items, Ledger.multiplies_scale 2 _, ?_⟩
  rw [← charges]

theorem transactionSucceeds {request : TransactGetRequest} (some : request.gets ≠ [])
    (few : request.gets.length ≤ maxTransactionItems)
    (gets : ∀ get ∈ request.gets, ∃ response after,
      (engine.getItem (get.single request.capacity)).exec session = (.ok response, after)) :
    ∃ response after, (engine.transactGet request).exec session = (.ok response, after) := by
  obtain ⟨opens, reads, finds⟩ := finds_of_gets named gets
  exact ⟨_, _, transactGet_ok_iff.mpr ⟨⟨fun none => some (List.length_eq_zero_iff.mp none), few⟩,
    opens some, reads, finds, rfl, rfl⟩⟩

end Alone

theorem get?_answers (named : Named engine.tables) {α β : Type} {tables : Dict String α}
    (ascending : tables.Ascending) (answer : String → α → β) (name : String) :
    (Dict.ofList ((engine.knownTables tables).map fun known =>
      (known.1.name, answer known.1.name known.2))).get? name =
        if engine.tables.contains name then (tables.get? name).map (answer name) else none := by
  have kept : (engine.knownTables tables).map (fun known =>
        (known.1.name, answer known.1.name known.2)) =
      (tables.filter fun entry => engine.tables.contains entry.1).map fun entry =>
        (entry.1, answer entry.1 entry.2) := by
    clear ascending
    induction tables with
    | nil => rfl
    | cons entry rest ih =>
        rw [List.filter_cons, Dict.contains]
        cases found : engine.tables.get? entry.1 with
        | none => simpa [knownTables, found] using ih
        | some table => simpa [knownTables, found, named _ _ found] using ih
  have sorted : Dict.Ascending ((tables.filter fun entry => engine.tables.contains entry.1).map
      fun entry => (entry.1, answer entry.1 entry.2)) :=
    List.pairwise_map.mpr (ascending.filter _)
  rw [kept, Dict.ofList_eq_self sorted, Dict.get?_map,
    Dict.get?_filter fun name => engine.tables.contains name]
  cases engine.tables.contains name <;> rfl

theorem findsKeys {known : Table × KeysRequest} {plans : String × List ReadPlan}
    {read : String × List (Option Item × Charge)} (capacity : Option CapacityDetail)
    (listed : engine.tables.get? known.1.name = some known.1)
    (planned : engine.PlansAll known plans) (looks : engine.LooksAll session.store plans read) :
    List.Forall₂ (fun key =>
      engine.Finds session.store (known.2.single known.1.name capacity key)) known.2.keys read.2 :=
  forall₂_comp ((planKeys_ok_iff listed).mp planned.2).2.1 looks.2

theorem tablesAlone_of_finds (named : Named engine.tables) (opens : engine.Opens)
    (capacity : Option CapacityDetail) {knowns : List (Table × KeysRequest)}
    {reads : List (String × List (Option Item × Charge))}
    (listed : ∀ known ∈ knowns, engine.tables.get? known.1.name = some known.1)
    (finds : List.Forall₂ (fun known read => ∃ plans, engine.PlansAll known plans ∧
      engine.LooksAll session.store plans read) knowns reads) :
    let gets (known : Table × KeysRequest) :=
      known.2.keys.map (known.2.single known.1.name capacity)
    (reads.map fun read => (read.1, (read.2.map Prod.fst).filterMap id)) =
        (knowns.map fun known => (known.1.name, known.2.keys.filterMap fun key =>
          engine.itemAlone session (known.2.single known.1.name capacity key))) ∧
      (reads.flatMap fun read => read.2.map Prod.snd) =
        ((knowns.flatMap gets).map (engine.readAlone session)).flatten ∧
      ∀ get ∈ knowns.flatMap gets, engine.GetsAlone session get := by
  intro gets
  induction finds with
  | nil => exact ⟨rfl, rfl, nofun⟩
  | @cons known read _ _ here _ ih =>
      obtain ⟨present, later⟩ := List.forall_mem_cons.mp listed
      obtain ⟨items, charges, others⟩ := ih later
      obtain ⟨plans, planned, looks⟩ := here
      obtain ⟨found, charged, single⟩ :=
        allAlone_of_finds named opens (findsKeys capacity present planned looks)
      refine ⟨?_, ?_, ?_⟩
      · rw [List.map_cons, List.map_cons, items, found, looks.1, planned.1, List.filterMap_map]
        rfl
      · rw [List.flatMap_cons, List.flatMap_cons, List.map_append, List.flatten_append, charges,
          charged, List.map_map]
        rfl
      · intro get member
        rcases List.mem_append.mp member with first | rest
        · obtain ⟨key, asked, rfl⟩ := List.mem_map.mp first
          exact single key asked
        · exact others get rest

theorem batchAgrees (named : Named engine.tables) {request : BatchGetRequest}
    {response : BatchGetResponse} (ascending : request.tables.Ascending)
    (ok : (engine.batchGet request).exec session = (.ok response, after)) :
    engine.BatchAgrees session request response := by
  obtain ⟨_, opens, reads, finds, rfl, _⟩ := batchGet_ok_iff.mp ok
  obtain ⟨items, charges, gets⟩ := tablesAlone_of_finds named opens request.capacity
    (fun known member => (mem_knownTables named member).1) finds
  refine ⟨gets, fun name => ?_, engine.get?_unknownTables request.tables,
    Ledger.multiplies_flatten _, ?_⟩
  · exact (congrArg (fun found => (Dict.ofList found).get? name) items).trans
      (get?_answers named ascending (fun name (keys : KeysRequest) => keys.keys.filterMap fun key =>
        engine.itemAlone session (keys.single name request.capacity key)) name)
  · exact congrArg (Ledger.consumedAll · request.capacity) charges

theorem keysFound (named : Named engine.tables) {known : Table × KeysRequest}
    {capacity : Option CapacityDetail}
    (listed : engine.tables.get? known.1.name = some known.1) (some : known.2.keys ≠ [])
    (distinct : known.2.keys.Pairwise fun first second =>
      known.1.rowKey first ≠ known.1.rowKey second)
    (gets : ∀ key ∈ known.2.keys, ∃ response after,
      (engine.getItem (known.2.single known.1.name capacity key)).exec session =
        (.ok response, after)) :
    engine.Opens ∧ ∃ read plans, engine.PlansAll known plans ∧
      engine.LooksAll session.store plans read := by
  obtain ⟨opens, reads, finds⟩ := finds_of_gets named gets
  obtain ⟨plans, planned, looks⟩ := exists_between finds
  refine ⟨opens some, (known.1.name, reads), (known.1.name, plans), ⟨rfl, ?_⟩, rfl, looks⟩
  have parsed : ∃ paths,
      (engine.parsePaths known.2.projection known.2.names).result = .ok paths := by
    obtain ⟨key, member⟩ := List.exists_mem_of_ne_nil _ some
    obtain ⟨plan, _, planned⟩ := exists_of_mem_left planned member
    exact ⟨_, (planGet_ok_iff.mp planned).2.2.1⟩
  have keyed : known.2.keys.map known.1.rowKey = plans.map (Except.ok ∘ ReadPlan.key) := by
    refine map_eq_map_of_forall₂ (planned.imp fun key plan planned => ?_)
    obtain ⟨found, keyed, _⟩ := planGet_ok_iff.mp planned
    rw [Option.some.inj (listed.symm.trans found)]
    exact keyOf_ok keyed
  refine (planKeys_ok_iff listed).mpr ⟨parsed, planned, ?_⟩
  have nodup : (known.2.keys.map known.1.rowKey).Nodup := List.pairwise_map.mpr distinct
  rw [keyed, ← List.map_map] at nodup
  exact nodup.of_map _

theorem batchSucceeds (named : Named engine.tables) {request : BatchGetRequest}
    (accepts : engine.Accepts request) (gets : ∀ get ∈ engine.getsOf request, ∃ response after,
      (engine.getItem get).exec session = (.ok response, after)) :
    ∃ response after, (engine.batchGet request).exec session = (.ok response, after) := by
  have found : ∀ known ∈ engine.knownTables request.tables, engine.Opens ∧ ∃ read plans,
      engine.PlansAll known plans ∧ engine.LooksAll session.store plans read := by
    intro known member
    obtain ⟨listed, asked⟩ := mem_knownTables named member
    exact keysFound named listed (accepts.known _ asked).2 (accepts.distinct known member)
      fun key requested => gets _
        (List.mem_flatMap.mpr ⟨known, member, List.mem_map_of_mem requested⟩)
  obtain ⟨entry, asked⟩ := List.exists_mem_of_ne_nil _ accepts.some
  obtain ⟨listed, keys⟩ := accepts.known entry asked
  have opens : engine.Opens := by
    obtain ⟨table, present⟩ := Option.isSome_iff_exists.mp listed
    have member : (table, entry.2) ∈ engine.knownTables request.tables :=
      List.mem_filterMap.mpr ⟨entry, asked, by rw [present]; rfl⟩
    exact (found _ member).1
  have some : sumOf (fun entry => entry.2.keys.length) request.tables ≠ 0 := by
    intro none
    have few := le_sumOf_of_mem (fun entry : String × KeysRequest => entry.2.keys.length) asked
    rw [none, Nat.le_zero] at few
    exact keys (List.length_eq_zero_iff.mp few)
  obtain ⟨reads, finds⟩ := exists_forall₂ fun known member => (found known member).2
  exact ⟨_, _, batchGet_ok_iff.mpr ⟨⟨some, accepts.few⟩, opens, reads, finds, rfl, rfl⟩⟩

theorem readsAgree (named : Named engine.tables) (session : Session) :
    engine.ReadsAgree session where
  batch _ _ _ ascending ok := batchAgrees named ascending ok
  transaction _ _ _ ok := transactionAgrees named ok
  batchSucceeds _ accepts gets := batchSucceeds named accepts gets
  transactionSucceeds _ some few gets := transactionSucceeds named some few gets

/-- Two notes, of which one has expired, beside a key of nothing and a table that there is not. -/
theorem readsAgree_after_puts :
    let notes : Table := ⟨"notes", "id", none, [], some "until"⟩
    let engine : Engine := ⟨[("notes", notes)], Config.default, [], [], 5⟩
    let puts : Request := .batchWrite ⟨[("notes",
      [⟨some [("id", .string "a"), ("text", .string "x")], none⟩,
        ⟨some [("id", .string "b"), ("until", .number "1")], none⟩])], none⟩
    let session := (engine.handle puts (Session.ofStore .empty)).2
    let keys : List Item := [[("id", .string "c")], [("id", .string "b")], [("id", .string "a")]]
    let batch : BatchGetRequest := ⟨[("gone", ⟨keys, none, [], none⟩),
      ("notes", ⟨keys, some "#t", [("#t", "text")], none⟩)], some .total⟩
    let transaction : TransactGetRequest :=
      ⟨keys.map fun key => ⟨"notes", key, some "#t", [("#t", "text")]⟩, some .total⟩
    Named engine.tables ∧
      (∃ response after, (engine.batchGet batch).exec session = (.ok response, after) ∧
        (response.items.get? "notes").any (fun items => items.length == 1) = true ∧
        response.consumed.map (fun told => told.units.read) = [some (Double.ofNat 3)] ∧
        engine.BatchAgrees session batch response) ∧
      ∃ response after, (engine.transactGet transaction).exec session = (.ok response, after) ∧
        response.items.map Option.isSome = [false, false, true] ∧
        response.consumed.map (fun told => told.units.read) = [some (Double.ofNat 6)] ∧
        engine.TransactionAgrees session transaction response := by
  intro notes engine puts session keys batch transaction
  have named : Named engine.tables := named_of_entries (by decide)
  have agree := readsAgree named session
  have together : ((engine.batchGet batch).exec session).1.toOption.any (fun response =>
      (response.items.get? "notes").any (fun items => items.length == 1) &&
        decide (response.consumed.map (fun told => told.units.read) =
          [some (Double.ofNat 3)])) = true := by decide +kernel
  have inTurn : ((engine.transactGet transaction).exec session).1.toOption.any (fun response =>
      decide (response.items.map Option.isSome = [false, false, true]) &&
        decide (response.consumed.map (fun told => told.units.read) =
          [some (Double.ofNat 6)])) = true := by decide +kernel
  refine ⟨named, ?_, ?_⟩
  · obtain ⟨response, after, ok, told⟩ := ok_of_any together
    obtain ⟨found, charged⟩ := Bool.and_eq_true_iff.mp told
    exact ⟨response, after, ok, found, of_decide_eq_true charged,
      agree.batch batch response after (by decide) ok⟩
  · obtain ⟨response, after, ok, told⟩ := ok_of_any inTurn
    obtain ⟨found, charged⟩ := Bool.and_eq_true_iff.mp told
    exact ⟨response, after, ok, of_decide_eq_true found, of_decide_eq_true charged,
      agree.transaction transaction response after ok⟩

end Engine
end ItemStore
