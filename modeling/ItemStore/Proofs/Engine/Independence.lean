import ItemStore.Proofs.Engine.IndexConsistency
import Mathlib.Data.List.Nodup
import Mathlib.Data.List.Pairwise

/-!
Plans for different items write different rows, of tables and of indexes, so that none changes what
another does and it makes no difference which is carried out first.
-/

namespace ItemStore

namespace WritePlan

def Touches (plan : WritePlan) (space : Space) (key : RowKey) : Prop :=
  space = plan.space ∧ key = plan.key ∨
    ∃ index ∈ plan.table.indexes, space = ⟨plan.table.name, some index.name⟩ ∧
      index.owner? key = some plan.key

def Apart (plan other : WritePlan) : Prop :=
  plan.table.name = other.table.name → plan.key ≠ other.key

theorem Apart.symm {plan other : WritePlan} (apart : plan.Apart other) : other.Apart plan :=
  fun name key => apart name.symm key.symm

theorem Apart.disjoint {tables : Dict String Table} (distinct : DistinctIndexes tables)
    {plan other : WritePlan} (listed : tables.get? plan.table.name = some plan.table)
    (otherListed : tables.get? other.table.name = some other.table) (apart : plan.Apart other)
    {space : Space} {key : RowKey} (touches : plan.Touches space key) :
    ¬other.Touches space key := by
  rintro (⟨there, atKey⟩ | ⟨index, member, there, owner⟩)
  · rcases touches with ⟨here, ownKey⟩ | ⟨index, _, here, _⟩
    · rw [there] at here
      exact apart (congrArg Space.table here).symm (ownKey.symm.trans atKey)
    · rw [there] at here
      cases congrArg Space.index here
  · rcases touches with ⟨here, _⟩ | ⟨ownIndex, ownMember, here, ownOwner⟩
    · rw [there] at here
      cases congrArg Space.index here
    · rw [there] at here
      have sameName : other.table.name = plan.table.name := congrArg Space.table here
      have sameTable : plan.table = other.table := by
        rw [sameName, listed] at otherListed
        exact Option.some.inj otherListed
      have names : index.name = ownIndex.name := Option.some.inj (congrArg Space.index here)
      have sameIndex : index = ownIndex := by
        have nodup := distinct other.table otherListed
        rw [← sameTable] at nodup member
        exact List.inj_on_of_nodup_map nodup member ownMember names
      rw [sameIndex, ownOwner] at owner
      exact apart sameName.symm (Option.some.inj owner)

instance : Std.Symm Apart := ⟨fun _ _ => Apart.symm⟩

end WritePlan

namespace Engine

open Action

/-- A plan whose effect is told by the rows: it is for one of the tables, and what is stored under
its key can be read and has that key. -/
structure Ready (engine : Engine) (rows : Store) (plan : WritePlan) : Prop where
  sound : plan.Sound engine.tables
  readable : rows.item? plan.space plan.key ≠ none
  keyed : ∀ item, rows.item? plan.space plan.key = some (some item) →
    item.Ordered ∧ plan.table.rowKey item = .ok plan.key

def effectOn (engine : Engine) (rows : Store) (plan : WritePlan) : Except Failure Effect :=
  engine.effect plan (rows.item? plan.space plan.key).join

def writesOn (engine : Engine) (rows : Store) (plan : WritePlan) : List RowWrite :=
  match engine.effectOn rows plan with
  | .ok effect => effect.writes
  | .error _ => []

def chargesOn (engine : Engine) (rows : Store) (plan : WritePlan) : Ledger :=
  match engine.effectOn rows plan with
  | .ok effect => effect.charges
  | .error _ => []

section Effects

variable {engine : Engine} {rows : Store} {plan : WritePlan}

theorem Ready.read (ready : engine.Ready rows plan) :
    rows.item? plan.space plan.key = some (rows.item? plan.space plan.key).join := by
  cases read : rows.item? plan.space plan.key with
  | none => exact absurd read ready.readable
  | some stored => rfl

theorem Ready.before (ready : engine.Ready rows plan) :
    ∀ item, (rows.item? plan.space plan.key).join = some item →
      item.Ordered ∧ plan.table.rowKey item = .ok plan.key := by
  intro item same
  refine ready.keyed item ?_
  rw [ready.read, same]

theorem touches_of_mem_writesOn (ready : engine.Ready rows plan) {write : RowWrite}
    (member : write ∈ engine.writesOn rows plan) : plan.Touches write.space write.key := by
  rw [writesOn] at member
  split at member
  · rename_i effect told
    rcases effect_cases ready.sound ready.before told with nothing | ⟨new, rfl, accepted⟩
    · rw [nothing] at member
      cases member
    · rcases space_of_replacement member with ⟨space, key⟩ | ⟨index, listed, written⟩
      · exact Or.inl ⟨space, key⟩
      · refine Or.inr ⟨index, listed, space_of_indexWrites written, ?_⟩
        exact owner_of_indexWrites (fun item same => (ready.before item same).2)
          (fun item same => (accepted item same).keyed) written
  · cases member

theorem item?_after_writesOn (ready : engine.Ready rows plan) {other : WritePlan}
    (apart : plan.Apart other) (current : Store) :
    (current.after (engine.writesOn rows plan)).item? other.space other.key =
      current.item? other.space other.key := by
  have elsewhere : (current.after (engine.writesOn rows plan)).get? other.space other.key =
      current.get? other.space other.key := by
    refine Store.get?_after_elsewhere current fun write member sameSpace sameKey => ?_
    rcases touches_of_mem_writesOn ready member with ⟨space, key⟩ | ⟨index, _, space, _⟩
    · rw [sameSpace] at space
      exact apart (congrArg Space.table space).symm (key.symm.trans sameKey)
    · rw [sameSpace] at space
      cases congrArg Space.index space
  rw [Store.item?, elsewhere, Store.item?]

/-- Where nothing is fragile a plan has the effect that the rows tell, also in a session whose rows
agree with them only under the plan's key. -/
theorem execute_on (quiet : ∀ hook ∈ engine.hooks, hook.Quiet) (steady : ¬engine.Fragile)
    (ready : engine.Ready rows plan) {session : Session}
    (same : session.transaction.rows.item? plan.space plan.key =
      rows.item? plan.space plan.key) :
    ∃ after, (engine.execute plan).exec session =
        ((engine.effectOn rows plan).map Effect.outcome, after) ∧
      after.transaction.rows = session.transaction.rows.after (engine.writesOn rows plan) ∧
      after.ledger = session.ledger ++ engine.chargesOn rows plan := by
  have met := engine.execute_steady quiet steady ready.sound.prepared (same.trans ready.read)
  rw [writesOn, chargesOn, effectOn]
  cases told : engine.effect plan (rows.item? plan.space plan.key).join with
  | ok effect =>
      rw [told] at met
      obtain ⟨after, ran, written, charged⟩ := met
      exact ⟨after, ran, written, charged⟩
  | error failure =>
      rw [told] at met
      refine ⟨session, met, (Store.after_nil _).symm, ?_⟩
      exact (List.append_nil _).symm

end Effects

theorem Ready.of_mirrors {engine : Engine} {rows : Store} {items : String → RowKey → Option Item}
    (mirrors : Mirrors engine.tables rows items) (readable : rows.Readable) {plan : WritePlan}
    (sound : plan.Sound engine.tables) : engine.Ready rows plan := by
  refine ⟨sound, readable.item?_ne_none _ _, fun item read => ?_⟩
  have accepted := mirrors.accepted plan.table sound.listed plan.key item
    (mirrors.item?_eq sound.listed read)
  exact ⟨accepted.ordered, accepted.keyed⟩

/-- The order in which plans for different items are carried out makes no difference. -/
theorem after_writesOn_perm {engine : Engine} {rows : Store}
    (distinct : DistinctIndexes engine.tables) {plans order : List WritePlan}
    (ready : ∀ plan ∈ plans, engine.Ready rows plan) (apart : plans.Pairwise WritePlan.Apart)
    (perm : plans.Perm order) (current : Store) :
    current.after (order.flatMap (engine.writesOn rows)) =
      current.after (plans.flatMap (engine.writesOn rows)) := by
  have folded : ∀ (plans : List WritePlan) (current : Store),
      current.after (plans.flatMap (engine.writesOn rows)) =
        plans.foldl (fun current plan => current.after (engine.writesOn rows plan)) current := by
    intro plans
    induction plans with
    | nil => exact fun _ => rfl
    | cons plan rest ih =>
        intro current
        rw [List.flatMap_cons, Store.after_append, ih, List.foldl_cons]
  rw [folded, folded]
  refine (perm.foldl_eq' (fun plan member other otherMember current => ?_) current).symm
  by_cases same : plan = other
  · rw [same]
  · have disjoint := apart.forall member otherMember same
    refine Store.after_comm current fun write written otherWrite otherWritten space key => ?_
    have touches := touches_of_mem_writesOn (ready plan member) written
    rw [space, key] at touches
    exact disjoint.disjoint distinct (ready plan member).sound.listed
      (ready other otherMember).sound.listed touches
      (touches_of_mem_writesOn (ready other otherMember) otherWritten)

end Engine
end ItemStore
