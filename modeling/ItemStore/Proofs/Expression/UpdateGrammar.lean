import ItemStore.Expression.Update.Parse
import ItemStore.Proofs.Expression.Readers
import Mathlib.Data.List.Nodup

/-!
The grammar of updates. A text is read as an update exactly if it is written for clauses, each at
most once, that hold the actions of the update. So the order of the clauses leaves no trace in the
update, and every update that can be expressed is read back from what it is printed as.
-/

namespace ItemStore

def UpdateOperand.tokens : UpdateOperand → List Token
  | .path target => target.tokens
  | .value placeholder => [.valueRef placeholder]
  | .ifNotExists target default =>
      .word "if_not_exists" :: .openParen ::
        (target.tokens ++ .comma :: (default.tokens ++ [.closeParen]))
  | .listAppend head tail =>
      .word "list_append" :: .openParen ::
        (head.tokens ++ .comma :: (tail.tokens ++ [.closeParen]))

def SetValue.tokens : SetValue → List Token
  | .operand source => source.tokens
  | .plus left right => left.tokens ++ .plus :: right.tokens
  | .minus left right => left.tokens ++ .minus :: right.tokens

namespace Update

open Reading (Reads commas extendsPath orComma skip_ok)

/-! ### Actions -/

def setTokens (action : Path × SetValue) : List Token :=
  action.1.tokens ++ .comparator .equal :: action.2.tokens

def valueTokens (action : Path × String) : List Token :=
  action.1.tokens ++ [.valueRef action.2]

theorem operand_written {fuel : Nat} {tokens : List Token} :
    ∀ {rest : List Token} {source : UpdateOperand},
      operand fuel tokens = .ok (source, rest) → tokens = source.tokens ++ rest := by
  fun_induction operand fuel tokens with
  | case1 | case4 =>
      intro rest source read
      cases read
  | case2 fuel name others named ih =>
      intro rest source read
      obtain ⟨⟨target, middle⟩, path, read⟩ := bind_ok read
      obtain ⟨next, comma, read⟩ := bind_ok read
      obtain ⟨⟨default, last⟩, within, read⟩ := bind_ok read
      obtain ⟨left, closed, same⟩ := bind_ok read
      cases same
      rw [Reading.path_reads.written path, skip_ok comma, ih _ within, skip_ok closed,
        beq_iff_eq.mp named]
      simp [UpdateOperand.tokens]
  | case3 fuel name others _ named ihHead ihTail =>
      intro rest source read
      obtain ⟨⟨head, middle⟩, first, read⟩ := bind_ok read
      obtain ⟨next, comma, read⟩ := bind_ok read
      obtain ⟨⟨tail, last⟩, second, read⟩ := bind_ok read
      obtain ⟨left, closed, same⟩ := bind_ok read
      cases same
      rw [ihHead first, skip_ok comma, ihTail _ second, skip_ok closed, beq_iff_eq.mp named]
      simp [UpdateOperand.tokens]
  | case5 =>
      intro rest source read
      cases read
      rfl
  | case6 =>
      intro rest source read
      obtain ⟨⟨target, middle⟩, path, same⟩ := bind_ok read
      cases same
      exact Reading.path_reads.written path

theorem operand_path (fuel : Nat) (path : Path) {rest : List Token}
    (stops : Stops extendsPath rest) :
    operand fuel (path.tokens ++ rest) = .ok (.path path, rest) := by
  have read := Reading.path_reads.reads path stops
  unfold operand
  split
  · rename_i call
    exact absurd call (Reading.path_ne_call path stops _ _)
  · rename_i call
    exact absurd call (Reading.path_ne_call path stops _ _)
  · rename_i value
    cases named : path.root <;> simp [Path.tokens, NameRef.token, named] at value
  · simp [read, bind, Except.bind, pure, Except.pure]

theorem operand_reads {rest : List Token} (stops : Stops extendsPath rest) :
    ∀ (source : UpdateOperand) (fuel : Nat), source.tokens.length ≤ fuel →
      operand fuel (source.tokens ++ rest) = .ok (source, rest)
  | .path target, fuel, _ => operand_path fuel target stops
  | .value placeholder, fuel, _ => by cases fuel <;> rfl
  | .ifNotExists target default, 0, enough => by simp [UpdateOperand.tokens] at enough
  | .listAppend head tail, 0, enough => by simp [UpdateOperand.tokens] at enough
  | .ifNotExists target default, fuel + 1, enough => by
      have comma : Stops extendsPath (.comma :: (default.tokens ++ .closeParen :: rest)) :=
        Stops.cons_iff.mpr rfl
      have closed : Stops extendsPath (.closeParen :: rest) := Stops.cons_iff.mpr rfl
      simp only [UpdateOperand.tokens, List.length_cons, List.length_append] at enough
      have path := Reading.path_reads.reads target comma
      have within := operand_reads closed default fuel (by omega)
      simp [UpdateOperand.tokens, operand, path, within, bind, Except.bind, pure, Except.pure]
  | .listAppend head tail, fuel + 1, enough => by
      have comma : Stops extendsPath (.comma :: (tail.tokens ++ .closeParen :: rest)) :=
        Stops.cons_iff.mpr rfl
      have closed : Stops extendsPath (.closeParen :: rest) := Stops.cons_iff.mpr rfl
      simp only [UpdateOperand.tokens, List.length_cons, List.length_append] at enough
      have first := operand_reads comma head fuel (by omega)
      have second := operand_reads closed tail fuel (by omega)
      simp [UpdateOperand.tokens, operand, first, second, bind, Except.bind, pure, Except.pure]

def extendsSum (token : Token) : Bool :=
  extendsPath token || token == .plus || token == .minus

theorem stops_of_extendsSum {rest : List Token} (stops : Stops extendsSum rest) :
    Stops extendsPath rest :=
  stops.mono fun token goesOn => by simp [extendsSum, goesOn]

theorem operand_reads_all (source : UpdateOperand) {rest : List Token}
    (stops : Stops extendsPath rest) :
    operand (source.tokens ++ rest).length (source.tokens ++ rest) = .ok (source, rest) :=
  operand_reads stops source _ (by simp)

theorem setAction_reads : Reads extendsSum setTokens setAction where
  written {tokens rest action} read := by
    obtain ⟨⟨target, middle⟩, path, read⟩ := bind_ok read
    obtain ⟨next, equal, read⟩ := bind_ok read
    obtain ⟨⟨first, last⟩, source, read⟩ := bind_ok read
    rw [Reading.path_reads.written path, skip_ok equal, operand_written source]
    dsimp only at read
    split at read
    · obtain ⟨⟨second, left⟩, other, same⟩ := bind_ok read
      cases same
      rw [operand_written other]
      simp [setTokens, SetValue.tokens]
    · obtain ⟨⟨second, left⟩, other, same⟩ := bind_ok read
      cases same
      rw [operand_written other]
      simp [setTokens, SetValue.tokens]
    · cases read
      simp [setTokens, SetValue.tokens]
  reads action rest stops := by
    obtain ⟨target, value⟩ := action
    have path (more : List Token) : Reading.path
        (target.tokens ++ .comparator .equal :: more) = .ok (target, .comparator .equal :: more) :=
      Reading.path_reads.reads target (Stops.cons_iff.mpr rfl)
    have ends := stops_of_extendsSum stops
    cases value with
    | operand source =>
        have first := operand_reads_all source ends
        have alone : (∀ more, rest ≠ .plus :: more) ∧ ∀ more, rest ≠ .minus :: more := by
          constructor <;> rintro more rfl <;> cases Stops.cons_iff.mp stops
        simp only [setTokens, SetValue.tokens, setAction, List.append_assoc, List.cons_append,
          path, Reading.skip_self, first, bind, Except.bind]
        split
        · exact absurd rfl (alone.1 _)
        · exact absurd rfl (alone.2 _)
        · rfl
    | plus left right =>
        have next : Stops extendsPath (.plus :: (right.tokens ++ rest)) := Stops.cons_iff.mpr rfl
        have first := operand_reads_all left next
        have second := operand_reads_all right ends
        simp only [setTokens, SetValue.tokens, setAction, List.append_assoc, List.cons_append,
          path, Reading.skip_self, first, second, bind, Except.bind, pure, Except.pure]
    | minus left right =>
        have next : Stops extendsPath (.minus :: (right.tokens ++ rest)) := Stops.cons_iff.mpr rfl
        have first := operand_reads_all left next
        have second := operand_reads_all right ends
        simp only [setTokens, SetValue.tokens, setAction, List.append_assoc, List.cons_append,
          path, Reading.skip_self, first, second, bind, Except.bind, pure, Except.pure]

theorem pathAndValue_reads : Reads (fun _ => false) valueTokens pathAndValue where
  written {tokens rest action} read := by
    obtain ⟨⟨target, middle⟩, path, read⟩ := bind_ok read
    dsimp only at read
    split at read
    · cases read
      rw [Reading.path_reads.written path]
      simp [valueTokens]
    · cases read
  reads action rest stops := by
    obtain ⟨target, value⟩ := action
    have next : Stops extendsPath (.valueRef value :: rest) := Stops.cons_iff.mpr rfl
    have path := Reading.path_reads.reads target next
    simp [valueTokens, pathAndValue, path, bind, Except.bind, pure, Except.pure]

/-! ### Clauses -/

inductive Clause where
  | set (actions : List (Path × SetValue))
  | remove (paths : List Path)
  | add (actions : List (Path × String))
  | delete (actions : List (Path × String))
deriving DecidableEq, Repr

namespace Clause

def keyword : Clause → Keyword
  | .set _ => .set
  | .remove _ => .remove
  | .add _ => .add
  | .delete _ => .delete

def body : Clause → List Token
  | .set actions => commas setTokens actions
  | .remove paths => commas Path.tokens paths
  | .add actions | .delete actions => commas valueTokens actions

def tokens (clause : Clause) : List Token :=
  .keyword clause.keyword :: clause.body

def isEmpty : Clause → Bool
  | .set actions => actions.isEmpty
  | .remove paths => paths.isEmpty
  | .add actions | .delete actions => actions.isEmpty

def vacant (update : Update) : Clause → Bool
  | .set _ => update.set.isEmpty
  | .remove _ => update.remove.isEmpty
  | .add _ => update.add.isEmpty
  | .delete _ => update.delete.isEmpty

def into (update : Update) : Clause → Update
  | .set actions => { update with set := actions }
  | .remove paths => { update with remove := paths }
  | .add actions => { update with add := actions }
  | .delete actions => { update with delete := actions }

end Clause

def parts (update : Update) : List Clause :=
  [.set update.set, .remove update.remove, .add update.add, .delete update.delete]

def held (update : Update) : List Clause :=
  update.parts.filter fun clause => !clause.isEmpty

theorem nodup_parts (update : Update) : (update.parts.map Clause.keyword).Nodup := by
  show [Keyword.set, .remove, .add, .delete].Nodup
  decide

theorem nodup_held (update : Update) : (update.held.map Clause.keyword).Nodup :=
  update.nodup_parts.sublist (List.filter_sublist.map _)

theorem mem_held {update : Update} {clause : Clause} :
    clause ∈ update.held ↔ clause ∈ update.parts ∧ clause.isEmpty = false := by
  simp [held]

theorem held_eq_nil {update : Update} : update.held = [] ↔ update.isEmpty = true := by
  simp [held, parts, Update.isEmpty, Clause.isEmpty, and_assoc]

theorem held_into {update : Update} {clause : Clause} (begun : clause.isEmpty = false)
    (vacant : clause.vacant update = true) :
    (update.held ++ [clause]).Perm (clause.into update).held := by
  have replaced : ∃ before old after, update.parts = before ++ old :: after ∧
      (clause.into update).parts = before ++ clause :: after ∧ old.isEmpty = true := by
    cases clause with
    | set actions => exact ⟨[], _, _, rfl, rfl, vacant⟩
    | remove paths => exact ⟨[_], _, _, rfl, rfl, vacant⟩
    | add actions => exact ⟨[_, _], _, _, rfl, rfl, vacant⟩
    | delete actions => exact ⟨[_, _, _], _, _, rfl, rfl, vacant⟩
  obtain ⟨before, old, after, here, there, none⟩ := replaced
  simp only [held, here, there, List.filter_append, List.filter_cons, none, begun]
  rw [List.append_assoc]
  exact (List.perm_append_singleton clause _).append_left _

theorem exists_part (update : Update) (clause : Clause) :
    ∃ part ∈ update.parts, part.keyword = clause.keyword ∧ part.isEmpty = clause.vacant update := by
  cases clause with
  | set => exact ⟨.set update.set, by simp [parts], rfl, rfl⟩
  | remove => exact ⟨.remove update.remove, by simp [parts], rfl, rfl⟩
  | add => exact ⟨.add update.add, by simp [parts], rfl, rfl⟩
  | delete => exact ⟨.delete update.delete, by simp [parts], rfl, rfl⟩

theorem vacant_of_notMem {update : Update} {clause : Clause}
    (fresh : clause.keyword ∉ update.held.map Clause.keyword) : clause.vacant update = true := by
  obtain ⟨part, member, kind, empty⟩ := update.exists_part clause
  by_contra taken
  have begun : part.isEmpty = false := by rw [empty, Bool.eq_false_iff]; exact taken
  exact fresh (kind ▸ List.mem_map_of_mem (mem_held.mpr ⟨member, begun⟩))

theorem part_eq {update other : Update} (same : update.held.Perm other.held) {part also : Clause}
    (here : part ∈ update.parts) (there : also ∈ other.parts) (kind : part.keyword = also.keyword) :
    part = also := by
  by_cases begun : part.isEmpty = false
  · have member := mem_held.mp (same.mem_iff.mp (mem_held.mpr ⟨here, begun⟩))
    exact List.inj_on_of_nodup_map other.nodup_parts member.1 there kind
  by_cases others : also.isEmpty = false
  · have member := mem_held.mp (same.mem_iff.mpr (mem_held.mpr ⟨there, others⟩))
    exact List.inj_on_of_nodup_map update.nodup_parts here member.1 kind
  · cases part <;> cases also <;> simp_all [Clause.isEmpty, Clause.keyword]

theorem eq_of_held {update other : Update} (same : update.held.Perm other.held) :
    update = other := by
  have sets : Clause.set update.set = .set other.set :=
    part_eq same (by simp [parts]) (by simp [parts]) rfl
  have removes : Clause.remove update.remove = .remove other.remove :=
    part_eq same (by simp [parts]) (by simp [parts]) rfl
  have adds : Clause.add update.add = .add other.add :=
    part_eq same (by simp [parts]) (by simp [parts]) rfl
  have deletes : Clause.delete update.delete = .delete other.delete :=
    part_eq same (by simp [parts]) (by simp [parts]) rfl
  cases update
  cases other
  simp_all

section Listed

variable {α : Type} {goesOn : Token → Bool} {write : α → List Token}
  {element : List Token → Except ExpressionError (Reading α)}

def listed (element : List Token → Except ExpressionError (Reading α)) (make : List α → Clause)
    (update : Update) (tokens : List Token) : Except ExpressionError (Reading Update) :=
  if (make []).vacant update then do
    let (values, rest) ← Reading.separated element tokens.length tokens
    return ((make values).into update, rest)
  else .error (.duplicateClause (make []).keyword.text)

theorem listed_written (reader : Reads goesOn write element) {make : List α → Clause}
    {update found : Update} {tokens rest : List Token}
    (read : listed element make update tokens = .ok (found, rest)) :
    ∃ values, values.isEmpty = false ∧ (make []).vacant update = true ∧
      found = (make values).into update ∧ tokens = commas write values ++ rest := by
  unfold listed at read
  split at read
  · rename_i room
    obtain ⟨⟨values, left⟩, separated, same⟩ := bind_ok read
    cases same
    obtain ⟨begun, same⟩ := Reading.separated_written reader separated
    exact ⟨values, by simpa using begun, room, rfl, same⟩
  · cases read

theorem listed_reads (reader : Reads goesOn write element) (comma : goesOn .comma = false)
    (make : List α → Clause) {update : Update} (vacant : (make []).vacant update = true)
    {values : List α} (begun : values.isEmpty = false) {rest : List Token}
    (stops : Stops (orComma goesOn) rest) :
    listed element make update (commas write values ++ rest) =
      .ok ((make values).into update, rest) := by
  have begun : values ≠ [] := List.isEmpty_eq_false_iff.mp begun
  have separated := Reading.separated_reads_all reader comma stops begun
  simp only [listed, vacant, if_true, separated, bind, Except.bind, pure, Except.pure]

end Listed

theorem clause_written {update found : Update} {tokens rest : List Token}
    (read : clause update tokens = .ok (found, rest)) :
    ∃ clause : Clause, clause.isEmpty = false ∧ clause.vacant update = true ∧
      found = clause.into update ∧ tokens = clause.tokens ++ rest := by
  unfold clause at read
  split at read
  · have read : listed setAction .set update _ = _ := read
    obtain ⟨actions, begun, vacant, rfl, rfl⟩ := listed_written setAction_reads read
    exact ⟨.set actions, begun, vacant, rfl, rfl⟩
  · have read : listed Reading.path .remove update _ = _ := read
    obtain ⟨paths, begun, vacant, rfl, rfl⟩ := listed_written Reading.path_reads read
    exact ⟨.remove paths, begun, vacant, rfl, rfl⟩
  · have read : listed pathAndValue .add update _ = _ := read
    obtain ⟨actions, begun, vacant, rfl, rfl⟩ := listed_written pathAndValue_reads read
    exact ⟨.add actions, begun, vacant, rfl, rfl⟩
  · have read : listed pathAndValue .delete update _ = _ := read
    obtain ⟨actions, begun, vacant, rfl, rfl⟩ := listed_written pathAndValue_reads read
    exact ⟨.delete actions, begun, vacant, rfl, rfl⟩
  · cases read

theorem clause_reads {update : Update} {clause : Clause} {rest : List Token}
    (begun : clause.isEmpty = false) (vacant : clause.vacant update = true)
    (stops : Stops (orComma extendsSum) rest) :
    Update.clause update (clause.tokens ++ rest) = .ok (clause.into update, rest) := by
  have path : Stops (orComma extendsPath) rest :=
    stops.mono fun token goesOn => by
      simp only [orComma, extendsSum, Bool.or_eq_true] at goesOn ⊢
      tauto
  have comma : Stops (orComma fun _ => false) rest :=
    stops.mono fun token goesOn => by simp_all [orComma]
  cases clause with
  | set actions => exact listed_reads setAction_reads rfl .set vacant begun stops
  | remove paths => exact listed_reads Reading.path_reads rfl .remove vacant begun path
  | add actions => exact listed_reads pathAndValue_reads rfl .add vacant begun comma
  | delete actions => exact listed_reads pathAndValue_reads rfl .delete vacant begun comma

/-! ### All clauses -/

theorem clauses_written : ∀ {fuel : Nat} {update found : Update} {tokens : List Token},
    clauses fuel update tokens = .ok found →
      ∃ all : List Clause, tokens = all.flatMap Clause.tokens ∧ (update.held ++ all).Perm found.held
  | fuel, update, found, [], read => by
      have same : update = found := by cases fuel <;> exact Except.ok.inj read
      exact ⟨[], rfl, by simp [same]⟩
  | 0, _, _, _ :: _, read => by cases read
  | fuel + 1, update, found, _ :: _, read => by
      obtain ⟨⟨next, left⟩, first, later⟩ := bind_ok read
      obtain ⟨clause, begun, vacant, rfl, same⟩ := clause_written first
      obtain ⟨all, rfl, perm⟩ := clauses_written later
      refine ⟨clause :: all, same, ?_⟩
      have added := (held_into begun vacant).append_right all
      rw [List.append_assoc] at added
      exact added.trans perm

theorem clauses_reads : ∀ {all : List Clause} {fuel : Nat} {update found : Update},
    all.length ≤ fuel → (update.held ++ all).Perm found.held →
      clauses fuel update (all.flatMap Clause.tokens) = .ok found
  | [], fuel, update, found, _, perm => by
      have same : update = found := eq_of_held (by simpa using perm)
      cases fuel <;> simp [clauses, same]
  | _ :: _, 0, _, _, enough, _ => by simp at enough
  | clause :: all, fuel + 1, update, found, enough, perm => by
      have begun : clause.isEmpty = false := (mem_held.mp (perm.mem_iff.mp (by simp))).2
      have vacant : clause.vacant update = true := by
        apply vacant_of_notMem
        -- A kind that is held already would be held twice in the end.
        intro taken
        have distinct := (perm.map Clause.keyword).nodup_iff.mpr found.nodup_held
        rw [List.map_append, List.nodup_append] at distinct
        exact distinct.2.2 _ taken _ List.mem_cons_self rfl
      have stops : Stops (orComma extendsSum) (all.flatMap Clause.tokens) := by
        cases all with
        | nil => exact Stops.nil
        | cons next others => exact Stops.cons_iff.mpr rfl
      have first := clause_reads begun vacant stops
      have added := (held_into begun vacant).append_right all
      rw [List.append_assoc] at added
      have later := clauses_reads (Nat.le_of_succ_le_succ enough) (added.symm.trans perm)
      rw [List.flatMap_cons]
      rw [Clause.tokens, List.cons_append] at first ⊢
      rw [clauses]
      · simp only [first, later, bind, Except.bind]
      · exact nofun

theorem ofTokens_eq_ok_iff {tokens : List Token} {update : Update} :
    ofTokens tokens = .ok update ↔
      ∃ all : List Clause, all ≠ [] ∧ all.Perm update.held ∧
        tokens = all.flatMap Clause.tokens := by
  constructor
  · intro read
    obtain ⟨found, collected, read⟩ := bind_ok read
    obtain ⟨all, same, perm⟩ := clauses_written collected
    have perm : all.Perm found.held := perm
    split at read
    · cases read
    · rename_i begun
      cases read
      refine ⟨all, ?_, perm, same⟩
      rintro rfl
      exact begun (held_eq_nil.mp perm.symm.eq_nil)
  · rintro ⟨all, begun, perm, rfl⟩
    have enough : all.length ≤ (all.flatMap Clause.tokens).length :=
      Reading.length_le_flatMap (fun _ => List.cons_ne_nil _ _) all
    have collected : clauses _ empty _ = .ok update := clauses_reads enough perm
    have some : update.isEmpty = false := by
      rw [Bool.eq_false_iff, ne_eq, ← held_eq_nil]
      intro none
      rw [none] at perm
      exact begun perm.eq_nil
    simp only [ofTokens, collected, bind, Except.bind, some]
    rfl

/-! ### Texts -/

theorem parse_eq_ok_iff {text : String} {update : Update} :
    parse text = .ok update ↔ ∃ all : List Clause, all ≠ [] ∧ all.Perm update.held ∧
      Token.Written (all.flatMap Clause.tokens) text.toList := by
  constructor
  · intro parsed
    obtain ⟨tokens, scanned, read⟩ := bind_ok parsed
    obtain ⟨all, begun, perm, rfl⟩ := ofTokens_eq_ok_iff.mp read
    exact ⟨all, begun, perm, (Reading.tokens_eq_ok_iff.mp scanned).1⟩
  · rintro ⟨all, begun, perm, written⟩
    have some : all.flatMap Clause.tokens ≠ [] := by
      cases all with
      | nil => exact absurd rfl begun
      | cons => exact List.cons_ne_nil _ _
    rw [parse, Reading.tokens_eq_ok_iff.mpr ⟨written, some⟩]
    exact ofTokens_eq_ok_iff.mpr ⟨all, begun, perm, rfl⟩

theorem exists_held {all : List Clause} (begun : ∀ clause ∈ all, clause.isEmpty = false)
    (distinct : (all.map Clause.keyword).Nodup) : ∃ update : Update, all.Perm update.held := by
  induction all with
  | nil => exact ⟨empty, .nil⟩
  | cons clause all ih =>
      obtain ⟨fresh, distinct⟩ := List.nodup_cons.mp distinct
      obtain ⟨first, others⟩ := List.forall_mem_cons.mp begun
      obtain ⟨update, perm⟩ := ih others distinct
      have vacant : clause.vacant update = true :=
        vacant_of_notMem fun taken => fresh ((perm.map _).mem_iff.mpr taken)
      refine ⟨clause.into update, .trans ?_ (held_into first vacant)⟩
      exact (List.perm_append_singleton clause all).symm.trans (perm.append_right _)

/-- Whether a text can be written for an update: it has some action, and all names, positions and
values of its actions can be spelled. -/
def Expressible (update : Update) : Prop :=
  update.isEmpty = false ∧ ∀ part ∈ update.parts, Token.AllSpellable part.body

theorem allSpellable_held {update : Update} :
    Token.AllSpellable (update.held.flatMap Clause.tokens) ↔
      ∀ part ∈ update.parts, Token.AllSpellable part.body := by
  have keyword (part : Clause) : Token.Spellable (.keyword part.keyword) :=
    Token.spellable_iff.mpr trivial
  simp only [Token.allSpellable_flatMap, mem_held, Clause.tokens, Token.allSpellable_cons, keyword,
    true_and, and_imp]
  refine ⟨fun spellable part member => ?_, fun spellable part member _ => spellable part member⟩
  by_cases begun : part.isEmpty = false
  · exact spellable part member begun
  · cases part <;> simp_all [Clause.isEmpty, Clause.body]

theorem Expressible.ne_nil {update : Update} (expressible : update.Expressible)
    {all : List Clause} (perm : all.Perm update.held) : all ≠ [] := by
  rintro rfl
  have none := held_eq_nil.mp perm.symm.eq_nil
  rw [expressible.1] at none
  cases none

theorem Expressible.exists_text {update : Update} (expressible : update.Expressible)
    {all : List Clause} (perm : all.Perm update.held) :
    ∃ text : String, Token.Written (all.flatMap Clause.tokens) text.toList := by
  have spellable : Token.AllSpellable (all.flatMap Clause.tokens) := by
    have held := allSpellable_held.mpr expressible.2
    rw [Token.allSpellable_flatMap] at held ⊢
    exact fun clause member => held clause (perm.mem_iff.mp member)
  obtain ⟨text, written⟩ := Token.exists_written spellable
  exact ⟨String.ofList text, String.toList_ofList.symm ▸ written⟩

theorem expressible_iff_parsed {update : Update} :
    update.Expressible ↔ ∃ text, parse text = .ok update := by
  constructor
  · intro expressible
    obtain ⟨text, written⟩ := expressible.exists_text (List.Perm.refl update.held)
    have begun := expressible.ne_nil (List.Perm.refl update.held)
    exact ⟨text, parse_eq_ok_iff.mpr ⟨_, begun, List.Perm.refl _, written⟩⟩
  · rintro ⟨text, parsed⟩
    obtain ⟨all, begun, perm, written⟩ := parse_eq_ok_iff.mp parsed
    have spellable := written.spellable
    rw [Token.allSpellable_flatMap] at spellable
    refine ⟨?_, allSpellable_held.mp (Token.allSpellable_flatMap.mpr ?_)⟩
    · rw [Bool.eq_false_iff, ne_eq, ← held_eq_nil]
      intro none
      rw [none] at perm
      exact begun perm.eq_nil
    · exact fun clause member => spellable clause (perm.mem_iff.mpr member)

/-- Parsing accepts exactly the clauses of different kinds, none of them empty, in any order, and
gives the update that consists of them. The updates that some text says are the expressible ones,
and each is read back from its clauses in every order. -/
theorem parse_clauses :
    (∀ (text : String) (update : Update), parse text = .ok update ↔
      ∃ all : List Clause, all ≠ [] ∧ all.Perm update.held ∧
        Token.Written (all.flatMap Clause.tokens) text.toList) ∧
    (∀ (all others : List Clause) (text other : String), all ≠ [] →
      (∀ clause ∈ all, clause.isEmpty = false) → (all.map Clause.keyword).Nodup →
      others.Perm all → Token.Written (all.flatMap Clause.tokens) text.toList →
      Token.Written (others.flatMap Clause.tokens) other.toList →
      ∃ update, all.Perm update.held ∧ parse text = .ok update ∧ parse other = .ok update) ∧
    (∀ update : Update, update.Expressible ↔ ∃ text, parse text = .ok update) ∧
    ∀ update : Update, update.Expressible → ∀ all : List Clause, all.Perm update.held →
      (∃ text : String, Token.Written (all.flatMap Clause.tokens) text.toList) ∧
      ∀ text : String, Token.Written (all.flatMap Clause.tokens) text.toList →
        parse text = .ok update := by
  refine ⟨fun _ _ => parse_eq_ok_iff, ?_, fun _ => expressible_iff_parsed, ?_⟩
  · intro all others text other some begun distinct reordered written rewritten
    obtain ⟨update, perm⟩ := exists_held begun distinct
    have others_some : others ≠ [] := by
      rintro rfl
      exact some reordered.symm.eq_nil
    exact ⟨update, perm, parse_eq_ok_iff.mpr ⟨all, some, perm, written⟩,
      parse_eq_ok_iff.mpr ⟨others, others_some, reordered.trans perm, rewritten⟩⟩
  · intro update expressible all perm
    refine ⟨expressible.exists_text perm, fun text written => ?_⟩
    exact parse_eq_ok_iff.mpr ⟨all, expressible.ne_nil perm, perm, written⟩

theorem parse_clauses_allKinds :
    let kept : UpdateOperand := .ifNotExists ⟨.placeholder "#n", []⟩ (.value ":n")
    let joined : UpdateOperand := .listAppend (.path ⟨.literal "l", []⟩) (.value ":l")
    let sets : Clause := .set [(⟨.literal "a", [.index 2]⟩, .plus kept (.value ":one")),
      (⟨.literal "l", []⟩, .operand joined)]
    let removes : Clause := .remove [⟨.literal "b", [.field (.literal "c")]⟩]
    let adds : Clause := .add [(⟨.literal "d", []⟩, ":s")]
    let all := [removes, sets, adds]
    let others := [adds, removes, sets]
    let text := "remove b.c SET a[2] = if_not_exists(#n, :n) + :one, l=list_append(l, :l) ADD d :s"
    let other := "add d:s REMOVE b . c set a[02]=if_not_exists(#n,:n)+:one,l=list_append(l,:l)"
    Token.Written (all.flatMap Clause.tokens) text.toList ∧
      Token.Written (others.flatMap Clause.tokens) other.toList ∧
      ∃ update : Update, update.Expressible ∧ all.Perm update.held ∧
        parse text = .ok update ∧ parse other = .ok update := by
  intro kept joined sets removes adds all others text other
  have written : Token.Written (all.flatMap Clause.tokens) text.toList :=
    Token.scan_eq_ok_iff.mp (by decide +kernel)
  have rewritten : Token.Written (others.flatMap Clause.tokens) other.toList :=
    Token.scan_eq_ok_iff.mp (by decide +kernel)
  have reordered : others.Perm all := by decide
  obtain ⟨update, perm, parsed, _⟩ := parse_clauses.2.1 all others text other (by decide)
    (by decide) (by decide) reordered written rewritten
  have expressible := (parse_clauses.2.2.1 update).mpr ⟨text, parsed⟩
  have also := (parse_clauses.2.2.2 update expressible others (reordered.trans perm)).2 other
    rewritten
  exact ⟨written, rewritten, update, expressible, perm, parsed, also⟩

end Update
end ItemStore
