import ItemStore.Proofs.Value.Edits

/-!
Edits of one value in sequence. If no edit disturbs the place of a later one, their order does not
matter: any other sequence of the same edits in which that holds comes to the same value. In
particular new values may be written first and the rest dropped from the highest position down.
-/

namespace ItemStore

structure Edit where
  target : Location
  new : Option AttributeValue

namespace Edit

def make? (edit : Edit) (value : AttributeValue) : Option AttributeValue :=
  value.edit? edit.new edit.target.way

def makeAll? (edits : List Edit) (value : AttributeValue) : Option AttributeValue :=
  edits.foldlM (fun value edit => edit.make? value) value

def disturbs (edit : Edit) (place : Location) (value : AttributeValue) : Bool :=
  AttributeValue.disturbs edit.new.isNone edit.target.way place.way value

structure Clear (value : AttributeValue) (earlier later : Edit) : Prop where
  apart : Apart earlier.target.way later.target.way
  undisturbed : earlier.disturbs later.target value = false

variable {value after : AttributeValue} {edit first second : Edit} {edits others : List Edit}

theorem makeAll?_cons (edit : Edit) (edits : List Edit) (value : AttributeValue) :
    makeAll? (edit :: edits) value = (edit.make? value).bind (makeAll? edits) := rfl

theorem makeAll?_append (edits others : List Edit) (value : AttributeValue) :
    makeAll? (edits ++ others) value = (makeAll? edits value).bind (makeAll? others) :=
  List.foldlM_append

theorem ordered_make? (ordered : value.Ordered) (fits : AttributeValue.OrderedIf edit.new)
    (made : edit.make? value = some after) : after.Ordered :=
  AttributeValue.ordered_edit? ordered fits made

theorem Clear.alike (clear : Clear value edit first) (made : edit.make? value = some after) :
    AttributeValue.Alike first.target.way value after :=
  AttributeValue.alike_of_edit? clear.apart clear.undisturbed made

theorem Clear.kept (clear : Clear value first second) (one : Clear value edit first)
    (two : Clear value edit second) (made : edit.make? value = some after) :
    Clear after first second := by
  refine ⟨clear.apart, ?_⟩
  rw [disturbs, AttributeValue.disturbs_of_alike (one.alike made) (two.alike made)]
  exact clear.undisturbed

theorem pairwise_after (clear : edits.Pairwise (Clear value))
    (before : ∀ other ∈ edits, Clear value edit other) (made : edit.make? value = some after) :
    edits.Pairwise (Clear after) :=
  clear.imp_of_mem fun memberA memberB both =>
    both.kept (before _ memberA) (before _ memberB) made

theorem make?_comm (ordered : value.Ordered) (clear : Clear value first second)
    (back : Clear value second first) :
    (first.make? value).bind second.make? = (second.make? value).bind first.make? :=
  AttributeValue.edit?_comm ordered clear.apart clear.undisturbed back.undisturbed

theorem makeAll?_middle (ordered : value.Ordered)
    (fits : ∀ other ∈ edits, AttributeValue.OrderedIf other.new)
    (pairwise : edits.Pairwise (Clear value)) (behind : ∀ other ∈ edits, Clear value other edit)
    (ahead : ∀ other ∈ edits, Clear value edit other) :
    makeAll? (edits ++ edit :: others) value = makeAll? (edit :: (edits ++ others)) value := by
  induction edits generalizing value with
  | nil => rfl
  | cons head rest ih =>
      have swapped := make?_comm ordered (behind head List.mem_cons_self)
        (ahead head List.mem_cons_self)
      have inner : ∀ after, head.make? value = some after →
          makeAll? (rest ++ edit :: others) after = makeAll? (edit :: (rest ++ others)) after := by
        intro after made
        obtain ⟨heads, rests⟩ := List.pairwise_cons.mp pairwise
        refine ih (ordered_make? ordered (fits head List.mem_cons_self) made)
          (fun other member => fits other (List.mem_cons_of_mem _ member))
          (pairwise_after rests heads made) ?_ ?_
        · exact fun other member => (behind other (List.mem_cons_of_mem _ member)).kept
            (heads other member) (behind head List.mem_cons_self) made
        · exact fun other member => (ahead other (List.mem_cons_of_mem _ member)).kept
            (behind head List.mem_cons_self) (heads other member) made
      calc makeAll? (head :: rest ++ edit :: others) value
          = (head.make? value).bind (makeAll? (rest ++ edit :: others)) := rfl
        _ = (head.make? value).bind (makeAll? (edit :: (rest ++ others))) := by
            cases made : head.make? value with
            | none => rfl
            | some after => exact inner after made
        _ = ((head.make? value).bind edit.make?).bind (makeAll? (rest ++ others)) := by
            rw [Option.bind_assoc]
            rfl
        _ = ((edit.make? value).bind head.make?).bind (makeAll? (rest ++ others)) := by
            rw [swapped]
        _ = makeAll? (edit :: (head :: rest ++ others)) value := by
            rw [Option.bind_assoc]
            rfl

/-- The same edits come to the same value in every order in which none disturbs a later one. -/
theorem makeAll?_perm (ordered : value.Ordered)
    (fits : ∀ edit ∈ edits, AttributeValue.OrderedIf edit.new) (same : edits.Perm others)
    (clear : edits.Pairwise (Clear value)) (otherClear : others.Pairwise (Clear value)) :
    makeAll? edits value = makeAll? others value := by
  -- The first edit of one order is moved to the front of the other, past edits that come after it
  -- in the one and before it in the other, so that neither disturbs the other's place.
  induction edits generalizing value others with
  | nil => rw [same.nil_eq]
  | cons head rest ih =>
      obtain ⟨before, behind, rfl⟩ := List.append_of_mem (same.subset List.mem_cons_self)
      have remaining : rest.Perm (before ++ behind) :=
        (List.perm_cons head).mp (same.trans List.perm_middle)
      obtain ⟨heads, rests⟩ := List.pairwise_cons.mp clear
      have ahead : ∀ other ∈ before ++ behind, Clear value head other :=
        fun other member => heads other (remaining.symm.subset member)
      obtain ⟨beforeClear, lastClear, between⟩ := List.pairwise_append.mp otherClear
      have moved := @makeAll?_middle value head before behind ordered
        (fun other member => fits other (List.mem_cons_of_mem _
          (remaining.symm.subset (List.mem_append_left _ member))))
        beforeClear (fun other member => between other member head List.mem_cons_self)
        (fun other member => ahead other (List.mem_append_left _ member))
      have othersClear : (before ++ behind).Pairwise (Clear value) :=
        otherClear.sublist (List.Sublist.append_left (List.sublist_cons_self _ _) _)
      rw [moved, makeAll?_cons, makeAll?_cons]
      cases made : head.make? value with
      | none => rfl
      | some after =>
          exact ih (ordered_make? ordered (fits head List.mem_cons_self) made)
            (fun other member => fits other (List.mem_cons_of_mem _ member)) remaining
            (pairwise_after rests heads made) (pairwise_after othersClear ahead made)

def drop (target : Location) : Edit := ⟨target, none⟩

theorem map_drop (dropping : ∀ edit ∈ edits, edit.new.isNone = true) :
    (edits.map target).map drop = edits := by
  rw [List.map_map]
  refine (List.map_congr_left fun edit member => ?_).trans (List.map_id edits)
  obtain ⟨target, new⟩ := edit
  have none := Option.isNone_iff_eq_none.mp (dropping _ member)
  cases none
  rfl

theorem pairwise_highestFirst (places : List Location) :
    (places.mergeSort fun a b => (compare b a).isLE).Pairwise fun a b =>
      (compare b.way a.way).isLE = true := by
  simp only [Location.compare_way]
  refine List.pairwise_mergeSort (fun a b c first second => ?_) (fun a b => ?_) places
  · exact Std.TransOrd.isLE_trans second first
  · cases order : compare b a with
    | lt => rfl
    | eq => rfl
    | gt =>
        rw [Std.OrientedCmp.gt_iff_lt.mp order]
        rfl

/-- Edits clear of the later ones come to the same when the new values are written first and then,
from the highest position down, the rest is dropped. -/
theorem makeAll?_writesFirst (ordered : value.Ordered)
    (fits : ∀ edit ∈ edits, AttributeValue.OrderedIf edit.new)
    (clear : edits.Pairwise (Clear value))
    (stands : ∀ edit ∈ edits, edit.new.isNone = true →
      (value.at? edit.target.way).isSome = true) {dropped : List Location}
    (drops : dropped.Perm ((edits.filter fun edit => edit.new.isNone).map target)) :
    makeAll? edits value = makeAll? ((edits.filter fun edit => edit.new.isSome) ++
      (dropped.mergeSort fun a b => (compare b a).isLE).map drop) value := by
  have sorted := pairwise_highestFirst dropped
  have moved := List.mergeSort_perm dropped fun a b => (compare b a).isLE
  generalize dropped.mergeSort (fun a b => (compare b a).isLE) = inTurn at sorted moved
  have last : (inTurn.map drop).Perm (edits.filter fun edit => edit.new.isNone) := by
    have same := (moved.trans drops).map drop
    rwa [map_drop fun edit member => (List.mem_filter.mp member).2] at same
  have same : edits.Perm ((edits.filter fun edit => edit.new.isSome) ++ inTurn.map drop) := by
    have parts := List.filter_append_perm (fun edit => edit.new.isSome) edits
    simp only [Option.not_isSome] at parts
    exact parts.symm.trans (last.symm.append_left _)
  have standing : ∀ place ∈ inTurn, (value.at? place.way).isSome = true := by
    intro place member
    have listed := last.subset (List.mem_map_of_mem member)
    obtain ⟨among, dropping⟩ := List.mem_filter.mp listed
    exact stands _ among dropping
  have apart : ((edits.filter fun edit => edit.new.isSome) ++ inTurn.map drop).Pairwise
      fun a b => Apart a.target.way b.target.way :=
    (same.pairwise_iff Apart.symm).mp (clear.imp Clear.apart)
  have undisturbed : ((edits.filter fun edit => edit.new.isSome) ++ inTurn.map drop).Pairwise
      fun a b => a.disturbs b.target value = false := by
    refine List.pairwise_append.mpr ⟨?_, ?_, ?_⟩
    · exact (clear.imp Clear.undisturbed).sublist List.filter_sublist
    · rw [List.pairwise_map]
      exact sorted.imp_of_mem fun first _ behind =>
        AttributeValue.disturbs_of_isLE (standing _ first) behind
    · intro write written last dropping
      obtain ⟨place, member, rfl⟩ := List.mem_map.mp dropping
      have writes := (List.mem_filter.mp written).2
      rw [disturbs, ← Option.not_isSome, writes]
      exact AttributeValue.disturbs_of_stands (standing place member)
  exact makeAll?_perm ordered fits same clear
    ((apart.and undisturbed).imp fun both => ⟨both.1, both.2⟩)

end Edit

/-! An item is edited as the map that it is. -/

namespace Item

open AttributeValue (map)

variable {item after : Item} {location : Location}

theorem at?_map (item : Item) (location : Location) :
    (map item).at? location.way = item.at? location := rfl

theorem place_ok_iff {value : AttributeValue} : item.place location value = .ok after ↔
    (map item).edit? (some value) location.way = some (map after) := by
  rw [Location.way, AttributeValue.edit?_cons, AttributeValue.remade?_some, place]
  change _ ↔ (Option.map some (AttributeValue.place? value location.within
    (item.get? location.top))).bind _ = _
  cases AttributeValue.place? value location.within (item.get? location.top) with
  | none => simp
  | some placed => simp [AttributeValue.change?]

theorem takeOut_map (item : Item) (location : Location) :
    (map item).takeOut location.way = map (item.takeOut location) := by
  obtain ⟨top, within⟩ := location
  rw [Item.takeOut, Location.way]
  cases within with
  | nil => rfl
  | cons segment rest =>
      simp only [AttributeValue.takeOut, List.isEmpty_cons, Bool.false_eq_true, if_false]
      cases Dict.get? item top <;> rfl

theorem takeOut_of_at?_eq_none (ordered : item.Ordered) (missing : item.at? location = none) :
    item.takeOut location = item := by
  have same := AttributeValue.takeOut_of_at?_eq_none (AttributeValue.ordered_map.mpr ordered)
    ((at?_map item location).trans missing)
  rw [takeOut_map] at same
  exact AttributeValue.map.inj same

end Item

namespace Edit

def carryOut (item : Item) (edit : Edit) : Except ExpressionError Item :=
  match edit.new with
  | some value => item.place edit.target value
  | none => .ok (item.takeOut edit.target)

theorem carryOut_ok_iff {item after : Item} {edit : Edit}
    (stands : edit.new = none → (item.at? edit.target).isSome = true) :
    edit.carryOut item = .ok after ↔ edit.make? (.map item) = some (.map after) := by
  obtain ⟨target, new⟩ := edit
  cases new with
  | some value => exact Item.place_ok_iff
  | none =>
      have standing : ((AttributeValue.map item).at? target.way).isSome = true := stands rfl
      have dropped : make? ⟨target, none⟩ (.map item) = some (.map (item.takeOut target)) := by
        rw [make?, AttributeValue.edit?_eq_takeOut target.way_ne_nil standing, Item.takeOut_map]
      rw [dropped, carryOut]
      simp

theorem eq_map_of_make? {item : Item} {edit : Edit} {value : AttributeValue}
    (made : edit.make? (.map item) = some value) : ∃ after, value = .map after := by
  rw [make?, Location.way, AttributeValue.edit?_cons] at made
  obtain ⟨child, _, changed⟩ := Option.bind_eq_some_iff.mp made
  cases child with
  | some child =>
      cases changed
      exact ⟨_, rfl⟩
  | none =>
      rw [AttributeValue.change?] at changed
      split at changed <;> cases changed
      exact ⟨_, rfl⟩

section Again

variable {item after : Item} {target : Location} {new : Option AttributeValue}

theorem carryOut_of_stands (stands : (item.at? target).isSome = true)
    (new : Option AttributeValue) : ∃ after, carryOut item ⟨target, new⟩ = .ok after := by
  cases new with
  | none => exact ⟨_, rfl⟩
  | some written =>
      have standing : ((AttributeValue.map item).at? target.way).isSome = true := stands
      obtain ⟨after, edited⟩ := AttributeValue.edit?_of_stands target.way_ne_nil standing written
      have made : make? ⟨target, some written⟩ (.map item) = some after := edited
      obtain ⟨placed, rfl⟩ := eq_map_of_make? made
      exact ⟨placed, Item.place_ok_iff.mpr made⟩

theorem at?_carryOut (settled : target.IsAttribute ∨ new.isSome = true)
    (stands : (item.at? target).isSome = true) (ok : carryOut item ⟨target, new⟩ = .ok after) :
    after.at? target = new := by
  have standing : ((AttributeValue.map item).at? target.way).isSome = true := stands
  have made := (carryOut_ok_iff fun _ => stands).mp ok
  exact AttributeValue.at?_of_edit? (settled.imp_right fun written => ⟨written, standing⟩) made

theorem carryOut_carryOut (ordered : item.Ordered) (stands : (item.at? target).isSome = true)
    {written : AttributeValue} (ok : carryOut item ⟨target, some written⟩ = .ok after)
    (new : Option AttributeValue) :
    carryOut after ⟨target, new⟩ = carryOut item ⟨target, new⟩ := by
  obtain ⟨last, again⟩ := carryOut_of_stands stands new
  have found := at?_carryOut (Or.inr rfl) stands ok
  have standing : ((AttributeValue.map item).at? target.way).isSome = true := stands
  have edited := (carryOut_ok_iff fun _ => stands).mp ok
  have made := (carryOut_ok_iff fun _ => stands).mp again
  rw [make?, ← AttributeValue.edit?_edit?_self (AttributeValue.ordered_map.mpr ordered) standing
    edited new] at made
  rw [again]
  exact (carryOut_ok_iff fun _ => by rw [found]; rfl).mpr made

end Again

theorem foldlM_carryOut {edits : List Edit} {item : Item} {value : AttributeValue}
    (writes : ∀ edit ∈ edits, edit.new.isSome = true)
    (made : makeAll? edits (.map item) = some value) :
    ∃ written, edits.foldlM carryOut item = .ok written ∧ value = .map written := by
  induction edits generalizing item with
  | nil =>
      cases made
      exact ⟨item, rfl, rfl⟩
  | cons edit rest ih =>
      rw [makeAll?_cons] at made
      obtain ⟨middle, first, made⟩ := Option.bind_eq_some_iff.mp made
      obtain ⟨after, rfl⟩ := eq_map_of_make? first
      have carried : edit.carryOut item = .ok after := by
        refine (carryOut_ok_iff fun dropped => ?_).mpr first
        have written := writes edit List.mem_cons_self
        rw [dropped] at written
        cases written
      obtain ⟨written, others, same⟩ :=
        ih (fun other member => writes other (List.mem_cons_of_mem _ member)) made
      refine ⟨written, ?_, same⟩
      rw [List.foldlM_cons, carried]
      exact others

theorem foldl_takeOut {places : List Location} {item after : Item}
    (made : makeAll? (places.map drop) (.map item) = some (.map after)) :
    places.foldl Item.takeOut item = after := by
  induction places generalizing item with
  | nil =>
      cases made
      rfl
  | cons place rest ih =>
      rw [List.map_cons, makeAll?_cons] at made
      obtain ⟨middle, first, made⟩ := Option.bind_eq_some_iff.mp made
      obtain ⟨next, rfl⟩ := eq_map_of_make? first
      have carried := (carryOut_ok_iff fun _ => AttributeValue.isSome_at?_of_edit? first).mpr first
      cases carried
      exact ih made

/-- Values that are set, and after them edits clear of the later ones, come to the same when all new
values are written first and all that goes is dropped last. -/
theorem carryOut_together {sets rest others : List Edit} {item afterSet new : Item}
    (ordered : afterSet.Ordered) (fits : ∀ edit ∈ rest, AttributeValue.OrderedIf edit.new)
    (clear : rest.Pairwise (Clear (.map afterSet)))
    (stands : ∀ edit ∈ rest, edit.new.isNone = true →
      (afterSet.at? edit.target).isSome = true)
    (written : ∀ edit ∈ sets, edit.new.isSome = true)
    (setsMade : makeAll? sets (.map item) = some (.map afterSet))
    (made : makeAll? rest (.map afterSet) = some (.map new)) (same : others.Perm rest)
    (inOrder : (others.filter fun edit => edit.new.isSome) =
      rest.filter fun edit => edit.new.isSome) :
    ∃ middle, ((sets ++ others).filter fun edit => edit.new.isSome).foldlM carryOut item =
        .ok middle ∧
      Update.applyRemovals middle
        (((sets ++ others).filter fun edit => edit.new.isNone).map target) = new := by
  have writes : ((sets ++ others).filter fun edit => edit.new.isSome) =
      sets ++ rest.filter fun edit => edit.new.isSome := by
    rw [List.filter_append, inOrder, List.filter_eq_self.mpr written]
  have drops : ((sets ++ others).filter fun edit => edit.new.isNone) =
      others.filter fun edit => edit.new.isNone := by
    have none : (sets.filter fun edit => edit.new.isNone) = [] := by
      refine List.filter_eq_nil_iff.mpr fun edit member => ?_
      rw [← Option.not_isSome, written edit member]
      decide
    rw [List.filter_append, none, List.nil_append]
  rw [writes, drops]
  rw [makeAll?_writesFirst (AttributeValue.ordered_map.mpr ordered) fits clear stands
    ((same.filter _).map target), makeAll?_append] at made
  obtain ⟨value, first, last⟩ := Option.bind_eq_some_iff.mp made
  have all : makeAll? (sets ++ rest.filter fun edit => edit.new.isSome) (.map item) =
      some value := by
    rw [makeAll?_append, setsMade]
    exact first
  obtain ⟨middle, carried, rfl⟩ := foldlM_carryOut (fun edit member => by
    rcases List.mem_append.mp member with set | other
    · exact written edit set
    · exact (List.mem_filter.mp other).2) all
  exact ⟨middle, carried, foldl_takeOut last⟩

end Edit

end ItemStore
