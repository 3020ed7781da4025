import ItemStore.Proofs.Value.Ordered
import ItemStore.Proofs.Value.RoundTrip

/-!
The codec of stored values as a whole. A value may be written with the entries of its maps in any
order, and is read back from all such texts, unless they nest deeper than the decoder goes. What can
be read at all has been written so.
-/

namespace ItemStore

namespace Json

/-! How many arrays and objects are nested in a tree. -/

mutual
def nesting : Json → Nat
  | .array elements => elementsNesting elements + 1
  | .object members => membersNesting members + 1
  | .null | .bool _ | .number _ | .string _ | .unreadable => 0

def elementsNesting : List Json → Nat
  | [] => 0
  | value :: rest => max value.nesting (elementsNesting rest)

def membersNesting : List (String × Json) → Nat
  | [] => 0
  | (_, value) :: rest => max value.nesting (membersNesting rest)
end

theorem membersNesting_perm {members others : List (String × Json)} (perm : members.Perm others) :
    membersNesting members = membersNesting others := by
  induction perm with
  | nil => rfl
  | cons member _ ih => simp only [membersNesting, ih]
  | swap first second rest => simp only [membersNesting, Nat.max_left_comm]
  | trans _ _ ihFirst ihSecond => exact ihFirst.trans ihSecond

theorem plainMembers_perm {members others : List (String × Json)} (perm : members.Perm others) :
    PlainMembers members ↔ PlainMembers others := by
  induction perm with
  | nil => rfl
  | cons member _ ih => simp only [PlainMembers, ih]
  | swap first second rest => simp only [PlainMembers, and_left_comm]
  | trans _ _ ihFirst ihSecond => exact ihFirst.trans ihSecond

end Json

namespace AttributeValue

theorem mapM_perm {α β : Type} {read : α → Option β} {values others : List α}
    (perm : values.Perm others) : ∀ {results : List β}, values.mapM read = some results →
      ∃ reordered, others.mapM read = some reordered ∧ results.Perm reordered := by
  induction perm with
  | nil => exact fun found => ⟨_, found, .refl _⟩
  | cons value _ ih =>
      intro results found
      rw [List.mapM_cons] at found
      obtain ⟨first, here, later⟩ := Option.bind_eq_some_iff.mp found
      obtain ⟨rest, there, same⟩ := Option.bind_eq_some_iff.mp later
      cases same
      obtain ⟨reordered, also, perm⟩ := ih there
      exact ⟨first :: reordered, by simp [here, also], perm.cons first⟩
  | swap first second rest =>
      intro results found
      simp only [List.mapM_cons, Option.bind_eq_bind, Option.bind_eq_some_iff, Option.pure_def,
        Option.some.injEq] at found
      obtain ⟨one, here, _, ⟨two, there, others, later, rfl⟩, rfl⟩ := found
      exact ⟨two :: one :: others, by simp [here, there, later], .swap two one others⟩
  | trans _ _ ihFirst ihSecond =>
      intro results found
      obtain ⟨middle, there, perm⟩ := ihFirst found
      obtain ⟨last, also, next⟩ := ihSecond there
      exact ⟨last, also, perm.trans next⟩

/-! ### The trees of a value -/

mutual
/-- Whether a value may be written as a tree: as `toJson` has it, but for the order of the entries
of maps. -/
def WrittenAs : AttributeValue → Json → Prop
  | .list elements, json =>
      ∃ body, ElementsWrittenAs elements body ∧ json = .object [("L", .array body)]
  | .map entries, json =>
      ∃ inOrder members, EntriesWrittenAs entries inOrder ∧ members.Perm inOrder ∧
        json = .object [("M", .object members)]
  | value, json => json = value.toJson

def ElementsWrittenAs : List AttributeValue → List Json → Prop
  | [], body => body = []
  | value :: rest, body =>
      ∃ first others, value.WrittenAs first ∧ ElementsWrittenAs rest others ∧
        body = first :: others

def EntriesWrittenAs : List (String × AttributeValue) → List (String × Json) → Prop
  | [], members => members = []
  | (name, value) :: rest, members =>
      ∃ first others, value.WrittenAs first ∧ EntriesWrittenAs rest others ∧
        members = (name, first) :: others
end

mutual
theorem writtenAs_toJson : ∀ value : AttributeValue, value.WrittenAs value.toJson
  | .list elements => ⟨_, elementsWrittenAs_toJson elements, rfl⟩
  | .map entries => ⟨_, _, entriesWrittenAs_toJson entries, .refl _, rfl⟩
  | .string _ | .number _ | .binary _ | .boolean _ | .null _ | .stringSet _ | .numberSet _
  | .binarySet _ => rfl

theorem elementsWrittenAs_toJson : ∀ elements : List AttributeValue,
    ElementsWrittenAs elements (elementsJson elements)
  | [] => rfl
  | value :: rest => ⟨_, _, writtenAs_toJson value, elementsWrittenAs_toJson rest, rfl⟩

theorem entriesWrittenAs_toJson : ∀ entries : List (String × AttributeValue),
    EntriesWrittenAs entries (entriesJson entries)
  | [] => rfl
  | (_, value) :: rest => ⟨_, _, writtenAs_toJson value, entriesWrittenAs_toJson rest, rfl⟩
end

mutual
theorem plain_writtenAs : ∀ {value : AttributeValue} {json : Json}, value.WrittenAs json →
    json.Plain
  | .list _, _, ⟨_, written, rfl⟩ => ⟨plain_elementsWrittenAs written, trivial⟩
  | .map _, _, ⟨_, _, written, perm, rfl⟩ =>
      ⟨(Json.plainMembers_perm perm).mpr (plain_entriesWrittenAs written), trivial⟩
  | .string _, _, rfl | .number _, _, rfl | .binary _, _, rfl | .boolean _, _, rfl
  | .null _, _, rfl | .stringSet _, _, rfl | .numberSet _, _, rfl | .binarySet _, _, rfl =>
      plain_toJson _

theorem plain_elementsWrittenAs : ∀ {elements : List AttributeValue} {body : List Json},
    ElementsWrittenAs elements body → Json.PlainElements body
  | [], _, rfl => trivial
  | _ :: _, _, ⟨_, _, first, others, rfl⟩ =>
      ⟨plain_writtenAs first, plain_elementsWrittenAs others⟩

theorem plain_entriesWrittenAs :
    ∀ {entries : List (String × AttributeValue)} {members : List (String × Json)},
      EntriesWrittenAs entries members → Json.PlainMembers members
  | [], _, rfl => trivial
  | _ :: _, _, ⟨_, _, first, others, rfl⟩ =>
      ⟨plain_writtenAs first, plain_entriesWrittenAs others⟩
end

theorem elementsNesting_map {α : Type} (write : α → Json)
    (flat : ∀ value, (write value).nesting = 0) (values : List α) :
    Json.elementsNesting (values.map write) = 0 := by
  induction values with
  | nil => rfl
  | cons value rest ih => simp [Json.elementsNesting, flat, ih]

mutual
theorem nesting_writtenAs : ∀ {value : AttributeValue} {json : Json}, value.WrittenAs json →
    json.nesting = value.depth
  | .list _, _, ⟨_, written, rfl⟩ => by
      simp [Json.nesting, Json.membersNesting, depth, nesting_elementsWrittenAs written]
  | .map _, _, ⟨_, _, written, perm, rfl⟩ => by
      simp [Json.nesting, Json.membersNesting, depth, Json.membersNesting_perm perm,
        nesting_entriesWrittenAs written]
  | .string _, _, rfl | .number _, _, rfl | .binary _, _, rfl | .boolean _, _, rfl
  | .null _, _, rfl => by
      simp [toJson, bytesJson, Json.nesting, Json.membersNesting, depth]
  | .stringSet _, _, rfl | .numberSet _, _, rfl => by
      simp [toJson, Json.nesting, Json.membersNesting, depth,
        elementsNesting_map Json.string fun _ => rfl]
  | .binarySet _, _, rfl => by
      simp [toJson, Json.nesting, Json.membersNesting, depth,
        elementsNesting_map bytesJson fun _ => rfl]

theorem nesting_elementsWrittenAs : ∀ {elements : List AttributeValue} {body : List Json},
    ElementsWrittenAs elements body → Json.elementsNesting body = elementsDepth elements
  | [], _, rfl => rfl
  | _ :: _, _, ⟨_, _, first, others, rfl⟩ => by
      rw [Json.elementsNesting, elementsDepth, nesting_writtenAs first,
        nesting_elementsWrittenAs others]

theorem nesting_entriesWrittenAs :
    ∀ {entries : List (String × AttributeValue)} {members : List (String × Json)},
      EntriesWrittenAs entries members → Json.membersNesting members = entriesDepth entries
  | [], _, rfl => rfl
  | _ :: _, _, ⟨_, _, first, others, rfl⟩ => by
      rw [Json.membersNesting, entriesDepth, nesting_writtenAs first,
        nesting_entriesWrittenAs others]
end

/-! ### Reading any of the trees -/

def memberOfJson? (allowance : Nat) (member : String × Json) : Option (String × AttributeValue) :=
  (ofJson? allowance member.2).map fun value => (member.1, value)

theorem keys_mapM {allowance : Nat} {members : List (String × Json)} :
    ∀ {entries : List (String × AttributeValue)},
      members.mapM (memberOfJson? allowance) = some entries →
        entries.map Prod.fst = members.map Prod.fst := by
  induction members with
  | nil =>
      intro entries read
      cases read
      rfl
  | cons member rest ih =>
      intro entries read
      rw [List.mapM_cons] at read
      obtain ⟨first, here, later⟩ := Option.bind_eq_some_iff.mp read
      obtain ⟨others, there, same⟩ := Option.bind_eq_some_iff.mp later
      obtain ⟨value, _, rfl⟩ := Option.map_eq_some_iff.mp here
      cases same
      rw [List.map_cons, List.map_cons, ih there]

theorem ofList_mapM_perm {members inOrder : List (String × Json)} (perm : members.Perm inOrder)
    (distinct : (inOrder.map Prod.fst).Nodup) (allowance : Nat) :
    (members.mapM (memberOfJson? allowance)).map Dict.ofList =
      (inOrder.mapM (memberOfJson? allowance)).map Dict.ofList := by
  cases read : inOrder.mapM (memberOfJson? allowance) with
  | some entries =>
      obtain ⟨reordered, also, same⟩ := mapM_perm perm.symm read
      rw [← keys_mapM read] at distinct
      rw [also, Option.map_some, Option.map_some, Dict.ofList_perm same distinct]
  | none =>
      cases found : members.mapM (memberOfJson? allowance) with
      | none => rfl
      | some entries =>
          obtain ⟨_, also, _⟩ := mapM_perm perm found
          rw [read] at also
          cases also

theorem keys_entriesWrittenAs :
    ∀ {entries : List (String × AttributeValue)} {members : List (String × Json)},
      EntriesWrittenAs entries members → members.map Prod.fst = entries.map Prod.fst
  | [], _, rfl => rfl
  | _ :: _, _, ⟨_, _, _, others, rfl⟩ => by
      rw [List.map_cons, List.map_cons, keys_entriesWrittenAs others]

theorem nodup_keys {entries : Item} (ascending : Dict.Ascending entries) :
    (entries.map Prod.fst).Nodup := by
  refine List.pairwise_map.mpr (ascending.imp ?_)
  intro earlier later less same
  rw [same] at less
  simp at less

theorem ofJson?_map (allowance : Nat) (members : List (String × Json)) :
    ofJson? (allowance + 2) (.object [("M", .object members)]) =
      ((members.mapM (memberOfJson? allowance)).map Dict.ofList).map .map := by
  rw [Option.map_map]
  rfl

mutual
theorem ofJson?_writtenAs : ∀ {value : AttributeValue} {json : Json}, value.Ordered →
    value.WrittenAs json → ∀ allowance, ofJson? allowance json = ofJson? allowance value.toJson
  | _, _, _, _, 0 => by rw [ofJson?_zero, ofJson?_zero]
  | .list _, _, _, ⟨_, _, rfl⟩, 1 => rfl
  | .list _, _, ordered, ⟨_, written, rfl⟩, allowance + 2 => by
      simp only [toJson, ofJson?, mapM_elementsWrittenAs ordered written]
  | .map _, _, _, ⟨_, _, _, _, rfl⟩, 1 => rfl
  | .map entries, _, ordered, ⟨inOrder, members, written, perm, rfl⟩, allowance + 2 => by
      have distinct : (inOrder.map Prod.fst).Nodup := by
        rw [keys_entriesWrittenAs written]
        exact nodup_keys ordered.1
      -- First put the members in the order of the entries, then read each as if it were `toJson`.
      have read := ofList_mapM_perm perm distinct allowance
      rw [mapM_entriesWrittenAs ordered.2 written allowance] at read
      rw [toJson, ofJson?_map, ofJson?_map, read]
  | .string _, _, _, rfl, _ + 1 | .number _, _, _, rfl, _ + 1 | .binary _, _, _, rfl, _ + 1
  | .boolean _, _, _, rfl, _ + 1 | .null _, _, _, rfl, _ + 1 | .stringSet _, _, _, rfl, _ + 1
  | .numberSet _, _, _, rfl, _ + 1 | .binarySet _, _, _, rfl, _ + 1 => rfl

theorem mapM_elementsWrittenAs : ∀ {elements : List AttributeValue} {body : List Json},
    OrderedElements elements → ElementsWrittenAs elements body → ∀ {allowance : Nat},
      body.mapM (ofJson? allowance) = (elementsJson elements).mapM (ofJson? allowance)
  | [], _, _, rfl, _ => rfl
  | _ :: _, _, ordered, ⟨_, _, first, others, rfl⟩, allowance => by
      rw [elementsJson, List.mapM_cons, List.mapM_cons, mapM_elementsWrittenAs ordered.2 others,
        ofJson?_writtenAs ordered.1 first]

theorem mapM_entriesWrittenAs :
    ∀ {entries : List (String × AttributeValue)} {members : List (String × Json)},
      OrderedEntries entries → EntriesWrittenAs entries members → ∀ allowance : Nat,
      members.mapM (memberOfJson? allowance) =
        (entriesJson entries).mapM (memberOfJson? allowance)
  | [], _, _, rfl, _ => rfl
  | _ :: _, _, ordered, ⟨_, _, first, others, rfl⟩, allowance => by
      rw [entriesJson, List.mapM_cons, List.mapM_cons, mapM_entriesWrittenAs ordered.2 others,
        memberOfJson?, memberOfJson?, ofJson?_writtenAs ordered.1 first]
end

/-! ### What can be read -/

theorem mapM_each {α β : Type} {read : α → Option β} {Fits : β → Prop}
    (fits : ∀ {value : α} {result : β}, read value = some result → Fits result) {values : List α} :
    ∀ {results : List β}, values.mapM read = some results → ∀ result ∈ results, Fits result := by
  induction values with
  | nil =>
      intro results found
      cases found
      simp
  | cons value rest ih =>
      intro results found
      rw [List.mapM_cons] at found
      obtain ⟨first, here, later⟩ := Option.bind_eq_some_iff.mp found
      obtain ⟨others, there, same⟩ := Option.bind_eq_some_iff.mp later
      cases same
      exact List.forall_mem_cons.mpr ⟨fits here, ih there⟩

theorem mapM_memberOfJson? {allowance : Nat} {Fits : AttributeValue → Prop}
    (fits : ∀ {json : Json} {value : AttributeValue}, ofJson? allowance json = some value →
      Fits value) {members : List (String × Json)} {entries : List (String × AttributeValue)}
    (read : members.mapM (memberOfJson? allowance) = some entries) :
    ∀ entry ∈ entries, Fits entry.2 := by
  refine mapM_each (fun bound => ?_) read
  obtain ⟨value, inside, rfl⟩ := Option.map_eq_some_iff.mp bound
  exact fits inside

theorem elementsDepth_le_iff {elements : List AttributeValue} {allowance : Nat} :
    elementsDepth elements ≤ allowance ↔ ∀ value ∈ elements, value.depth ≤ allowance := by
  induction elements with
  | nil => simp [elementsDepth]
  | cons value rest ih => simp [elementsDepth, Nat.max_le, ih]

theorem entriesDepth_le_iff {entries : List (String × AttributeValue)} {allowance : Nat} :
    entriesDepth entries ≤ allowance ↔ ∀ entry ∈ entries, entry.2.depth ≤ allowance := by
  induction entries with
  | nil => simp [entriesDepth]
  | cons entry rest ih => simp [entriesDepth, Nat.max_le, ih]

/-- Whether a value can be read where so many arrays and objects may be nested. -/
def ReadWithin (allowance : Nat) (value : AttributeValue) : Prop :=
  value.Ordered ∧ value.depth ≤ allowance

theorem membersOfJson?_pos {α : Type} {member? : Json → Option α} {allowance : Nat} {body : Json}
    {members : List α} (read : membersOfJson? member? allowance body = some members) :
    1 ≤ allowance := by
  cases allowance with
  | zero => cases read
  | succ allowance => omega

theorem readWithin_list {elements : List AttributeValue} {allowance : Nat}
    (each : ∀ value ∈ elements, value.ReadWithin allowance) :
    (list elements).ReadWithin (allowance + 2) := by
  refine ⟨orderedElements_iff.mpr fun value member => (each value member).1, ?_⟩
  have covered := elementsDepth_le_iff.mpr fun value member => (each value member).2
  rw [depth]
  omega

theorem readWithin_map {entries : List (String × AttributeValue)} {allowance : Nat}
    (each : ∀ entry ∈ entries, entry.2.ReadWithin allowance) :
    (map (Dict.ofList entries)).ReadWithin (allowance + 2) := by
  have kept : ∀ entry ∈ Dict.ofList entries, entry.2.ReadWithin allowance := fun entry member =>
    each entry (Dict.mem_ofList member)
  refine ⟨⟨Dict.ascending_ofList entries, ?_⟩, ?_⟩
  · exact orderedEntries_iff.mpr fun entry member => (kept entry member).1
  · have covered := entriesDepth_le_iff.mpr fun entry member => (kept entry member).2
    rw [depth]
    omega

theorem ofJson?_eq_some {allowance : Nat} {json : Json} {value : AttributeValue}
    (read : ofJson? allowance json = some value) :
    (∃ body, json = .object [(value.descriptor, body)]) ∧ value.ReadWithin allowance := by
  unfold ofJson? at read
  split at read
  · rename_i allowance kind body
    split at read
    case h_1 | h_2 | h_3 | h_7 | h_8 =>
      obtain ⟨_, _, rfl⟩ := Option.map_eq_some_iff.mp read
      exact ⟨⟨body, rfl⟩, trivial, Nat.le_add_left 1 allowance⟩
    case h_4 | h_5 | h_6 =>
      obtain ⟨_, members, rfl⟩ := Option.map_eq_some_iff.mp read
      exact ⟨⟨body, rfl⟩, trivial, Nat.succ_le_succ (membersOfJson?_pos members)⟩
    case h_9 =>
      split at read
      · rename_i inner elements
        obtain ⟨values, found, rfl⟩ := Option.map_eq_some_iff.mp read
        have each := mapM_each (fun read => (ofJson?_eq_some read).2) found
        exact ⟨⟨_, rfl⟩, readWithin_list each⟩
      · cases read
    case h_10 =>
      split at read
      · rename_i inner members
        obtain ⟨entries, found, rfl⟩ := Option.map_eq_some_iff.mp read
        have each := mapM_memberOfJson? (fun read => (ofJson?_eq_some read).2) found
        exact ⟨⟨_, rfl⟩, readWithin_map each⟩
      · cases read
    case h_11 => cases read
  · cases read
termination_by allowance

/-! ### Texts -/

def ofText? (text : String) : Option AttributeValue := do
  decoder.run (← Json.ofText? text)

theorem ofText?_writtenAs {value : AttributeValue} {json : Json} (ordered : value.Ordered)
    (written : value.WrittenAs json) :
    ofText? json.text = if json.nesting ≤ Decoder.maxNesting then some value else none := by
  rw [ofText?, Json.ofText?_text (plain_writtenAs written), nesting_writtenAs written]
  exact (ofJson?_writtenAs ordered written _).trans (ofJson?_toJson value _ ordered)

theorem ofText?_eq_some {text : String} {value : AttributeValue}
    (read : ofText? text = some value) :
    (∃ body, Json.ofText? text = some (.object [(value.descriptor, body)])) ∧
      value.ReadWithin Decoder.maxNesting := by
  obtain ⟨json, parsed, run⟩ := Option.bind_eq_some_iff.mp read
  obtain ⟨⟨body, rfl⟩, within⟩ := ofJson?_eq_some run
  exact ⟨⟨body, parsed⟩, within⟩

end AttributeValue

namespace Item

def WrittenAs (item : Item) (json : Json) : Prop :=
  ∃ inOrder members, AttributeValue.EntriesWrittenAs item inOrder ∧ members.Perm inOrder ∧
    json = .object members

theorem writtenAs_toJson (item : Item) : item.WrittenAs item.toJson :=
  ⟨_, _, AttributeValue.entriesWrittenAs_toJson item, .refl _, rfl⟩

variable {item : Item} {json : Json}

theorem plain_writtenAs (written : item.WrittenAs json) : json.Plain := by
  obtain ⟨_, _, written, perm, rfl⟩ := written
  exact (Json.plainMembers_perm perm).mpr (AttributeValue.plain_entriesWrittenAs written)

theorem nesting_writtenAs (written : item.WrittenAs json) : json.nesting = item.depth := by
  obtain ⟨_, _, written, perm, rfl⟩ := written
  rw [Json.nesting, Json.membersNesting_perm perm, AttributeValue.nesting_entriesWrittenAs written,
    Item.depth]

theorem run_writtenAs (ordered : item.Ordered) (written : item.WrittenAs json) :
    decoder.run json = decoder.run item.toJson := by
  obtain ⟨inOrder, members, written, perm, rfl⟩ := written
  have distinct : (inOrder.map Prod.fst).Nodup := by
    rw [AttributeValue.keys_entriesWrittenAs written]
    exact AttributeValue.nodup_keys ordered.1
  have read := AttributeValue.ofList_mapM_perm perm distinct (Decoder.maxNesting - 1)
  rw [AttributeValue.mapM_entriesWrittenAs ordered.2 written] at read
  exact read

end Item

namespace Document

theorem toItem?_writtenAs {item : Item} {json : Json} (ordered : item.Ordered)
    (written : item.WrittenAs json) :
    toItem? json.text = if json.nesting ≤ Decoder.maxNesting then some item else none := by
  have stored := toItem?_ofItem ordered
  rw [toItem?, ofItem, Json.ofText?_text (Item.plain_writtenAs item.writtenAs_toJson)] at stored
  rw [toItem?, Json.ofText?_text (Item.plain_writtenAs written), Item.nesting_writtenAs written]
  exact (Item.run_writtenAs ordered written).trans stored

theorem ordered_of_toItem? {document : Document} {item : Item}
    (read : toItem? document = some item) :
    item.Ordered ∧ item.depth ≤ Decoder.maxNesting := by
  obtain ⟨json, _, run⟩ := Option.bind_eq_some_iff.mp read
  cases json with
  | object members =>
      obtain ⟨entries, found, rfl⟩ := Option.map_eq_some_iff.mp run
      have each := AttributeValue.mapM_memberOfJson?
        (fun read => (AttributeValue.ofJson?_eq_some read).2) found
      obtain ⟨ordered, covered⟩ := AttributeValue.readWithin_map each
      exact ⟨ordered, Nat.le_of_succ_le_succ covered⟩
  | _ => cases run

end Document

/-- The codec of stored values and items. Written with the entries of maps in any order, they are
read back as they were, unless they nest too deep to be read at all. What is read at all is an
object of one member, named for the kind of the value, and is read back however it is written. -/
theorem AttributeValue.codec_roundTrip :
    (∀ value : AttributeValue, value.WrittenAs value.toJson) ∧
    (∀ item : Item, item.WrittenAs item.toJson ∧ Document.ofItem item = item.toJson.text) ∧
    (∀ (value : AttributeValue) (json : Json), value.Ordered → value.WrittenAs json →
      ofText? json.text = if json.nesting ≤ Decoder.maxNesting then some value else none) ∧
    (∀ (item : Item) (json : Json), item.Ordered → item.WrittenAs json →
      Document.toItem? json.text = if json.nesting ≤ Decoder.maxNesting then some item else none) ∧
    (∀ (text : String) (value : AttributeValue), ofText? text = some value →
      (∃ body, Json.ofText? text = some (.object [(value.descriptor, body)])) ∧
      value.Ordered ∧ ∀ json, value.WrittenAs json → ofText? json.text = some value) ∧
    ∀ (document : Document) (item : Item), Document.toItem? document = some item →
      item.Ordered ∧ ∀ json, item.WrittenAs json → Document.toItem? json.text = some item := by
  refine ⟨writtenAs_toJson, fun item => ⟨item.writtenAs_toJson, rfl⟩,
    fun _ _ => ofText?_writtenAs, fun _ _ => Document.toItem?_writtenAs, ?_, ?_⟩
  · intro text value read
    obtain ⟨single, ordered, covered⟩ := ofText?_eq_some read
    refine ⟨single, ordered, fun json written => ?_⟩
    rw [ofText?_writtenAs ordered written, nesting_writtenAs written, if_pos covered]
  · intro document item read
    obtain ⟨ordered, covered⟩ := Document.ordered_of_toItem? read
    refine ⟨ordered, fun json written => ?_⟩
    rw [Document.toItem?_writtenAs ordered written, Item.nesting_writtenAs written, if_pos covered]

theorem AttributeValue.codec_otherOrder :
    let tags : AttributeValue := .list [.stringSet ["b", "a", ""], .binary [0, 255], .null true]
    let value : AttributeValue := .map [("\"n\"\n", .number "1.00"), ("tags", tags)]
    let json : Json := .object
      [("M", .object [("tags", tags.toJson), ("\"n\"\n", .object [("N", .string "1.00")])])]
    let item : Item := [("id", .string "1"), ("value", value)]
    value.Ordered ∧ value.WrittenAs json ∧ ofText? json.text = some value ∧
      (∃ body, Json.ofText? json.text = some (.object [("M", body)])) ∧
      ofText? value.toJson.text = some value ∧
      item.Ordered ∧ Document.toItem? (Document.ofItem item) = some item := by
  intro tags value json item
  obtain ⟨asItIs, items, values, documents, found, _⟩ := AttributeValue.codec_roundTrip
  have itemOrdered : item.Ordered := by decide
  have valueOrdered : value.Ordered := itemOrdered.2.2.1
  have written : value.WrittenAs json := ⟨_, _, entriesWrittenAs_toJson _, .swap _ _ _, rfl⟩
  have read : ofText? json.text = some value := values value json valueOrdered written
  obtain ⟨single, _, again⟩ := found json.text value read
  have stored : Document.toItem? (Document.ofItem item) = some item :=
    documents item item.toJson itemOrdered (items item).1
  exact ⟨valueOrdered, written, read, single, again _ (asItIs value), itemOrdered, stored⟩

end ItemStore
