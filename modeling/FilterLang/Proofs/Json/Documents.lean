import FilterLang.Config.Wire
import FilterLang.Ir.Wire
import FilterLang.Language.Wire
import FilterLang.Proofs.Ast.Codec
import Mathlib.Data.List.Induction

/-! Executable queries, languages and settings are read back from their texts. -/

namespace FilterLang

namespace Json

/-- An array of texts survives. -/
theorem carries_ofStrings (values : List String) : Carries (ofStrings values) :=
  carries_array (List.forall_mem_map.mpr fun value _ => carries_string value)

/-- The number of a 64-bit word survives. -/
theorem carries_word (value : UInt64) : Carries (ofNat value.toNat) :=
  carries_ofNat value.toNat_lt

/-- A 64-bit word is read back. -/
theorem word?_ofNat (value : UInt64) : word? (ofNat value.toNat) = some value := by
  rw [word?, size?_ofNat value.toNat_lt, Option.map_some, UInt64.ofNat_toNat]

/-- An array of texts is read back. -/
theorem strings?_ofStrings (values : List String) : strings? (ofStrings values) = some values :=
  items?_map fun _ _ => rfl

end Json

namespace KeyedTable

variable {α : Type}

/-- A key above all others goes behind them. -/
theorem insertEntry_last {key : String} (value : α) {entries : List (String × α)}
    (above : ∀ entry ∈ entries, entry.1 < key) :
    insertEntry key value entries = entries ++ [(key, value)] := by
  -- Induction on the entries: all of them are passed by.
  induction entries with
  | nil => rfl
  | cons entry entries ih =>
    rw [List.forall_mem_cons] at above
    rw [insertEntry, if_neg (String.lt_asymm above.1), if_pos above.1, ih above.2,
      List.cons_append]

/-- Entries above those of a table, in ascending order, are put in behind them. -/
theorem entries_foldl {table : KeyedTable α} {entries : List (String × α)}
    (ascending : (table.entries ++ entries).Pairwise fun left right => left.1 < right.1) :
    (entries.foldl (fun table entry => table.insert entry.1 entry.2) table).entries =
      table.entries ++ entries := by
  -- Each entry in turn is above all that the table has by then.
  induction entries generalizing table with
  | nil => simp
  | cons entry entries ih =>
    have last : (table.insert entry.1 entry.2).entries = table.entries ++ [entry] := by
      refine insertEntry_last entry.2 fun other member => ?_
      exact (List.pairwise_append.mp ascending).2.2 other member entry List.mem_cons_self
    rw [List.foldl_cons, ih, last, List.append_assoc, List.singleton_append]
    rwa [last, List.append_assoc, List.singleton_append]

/-- A table is made again from its entries. -/
theorem ofList_entries (table : KeyedTable α) : ofList table.entries = table := by
  -- The entries are ascending, so each is added behind those before it; and a table is its entries.
  have same : (ofList table.entries).entries = table.entries := by
    rw [ofList, entries_foldl]
    · rfl
    · exact table.ascending
  cases rebuilt : ofList table.entries
  rw [rebuilt] at same
  cases table
  simpa using same

/-- A table of one more entry is the table before with that entry set. -/
theorem ofList_snoc (entries : List (String × α)) (entry : String × α) :
    ofList (entries ++ [entry]) = (ofList entries).insert entry.1 entry.2 := by
  simp [ofList]

/-- A key that is set has the value it was set to, and the others keep theirs. -/
theorem get?_insert (table : KeyedTable α) (key other : String) (value : α) :
    (table.insert key value).get? other = if key = other then some value else table.get? other := by
  obtain ⟨entries, ascending⟩ := table
  simp only [get?, insert]
  clear ascending
  induction entries with
  | nil => by_cases same : key = other <;> simp [insertEntry, same]
  | cons entry entries ih =>
    obtain ⟨first, kept⟩ := entry
    rw [insertEntry]
    split
    · by_cases same : key = other <;> simp [same]
    · rename_i notBelow
      split
      · rename_i below
        by_cases here : first = other
        · -- The entry that is passed over is the one asked for, so it is not the one set.
          have different : key ≠ other := fun same => String.lt_irrefl _ (same ▸ here ▸ below)
          simp [here, different]
        · simpa [here] using ih
      · rename_i notAbove
        have same : key = first :=
          String.le_antisymm (String.not_lt.mp notAbove) (String.not_lt.mp notBelow)
        by_cases asked : first = other <;> simp [same, asked]

end KeyedTable

namespace FieldType

/-- A type is read back from its word. -/
theorem ofName?_name (type : FieldType) : ofName? type.name = some type := by
  cases type <;> rfl

end FieldType

namespace Field

/-- A field survives being written. -/
theorem carries_toJson (field : Field) : Json.Carries field.toJson := by
  -- Both optional lists are lists of strings.
  have texts (name : String) (values : Option (List String)) :
      ∀ member ∈ Json.member? name Json.ofStrings values, Json.Carries member.2 :=
    Json.carries_member? fun listed _ => Json.carries_ofStrings listed
  refine Json.carries_object (List.forall_mem_append.mpr ⟨?_, texts _ _⟩)
  exact List.forall_mem_append.mpr ⟨by simp [Json.carries_string], texts _ _⟩

/-- A field is read back. -/
theorem ofJson?_toJson (field : Field) : ofJson? field.toJson = some field := by
  obtain ⟨name, type, operators, enumValues⟩ := field
  obtain ⟨members, shape⟩ : ∃ members, [("name", Json.string name), ("type", .string type.name)] ++
      Json.member? "operators" Json.ofStrings operators ++
      Json.member? "enumValues" Json.ofStrings enumValues = members := ⟨_, rfl⟩
  have known : ∀ names, Json.fields? names (.object members) = some members := by
    apply Json.fields?_of_distinct
    rw [← shape]
    cases operators <;> cases enumValues <;> simp [Json.member?]
  have title : Json.required? members "name" Json.string? = some name := by
    rw [← shape]
    exact Json.required?_of_lookup? rfl rfl
  have word : Json.required? members "type" FieldType.ofJson? = some type := by
    rw [← shape]
    exact Json.required?_of_lookup? rfl (FieldType.ofName?_name type)
  -- A list of texts is an array, also when it is empty, so it is never taken as left out.
  have texts : ∀ (listed : List String), Json.ofStrings listed ≠ .null ∧
      Json.strings? (Json.ofStrings listed) = some listed := fun listed =>
    ⟨by simp [Json.ofStrings], Json.strings?_ofStrings listed⟩
  have own : Json.optional? members "operators" Json.strings? = some operators := by
    refine Json.optional?_of_lookup? ?_ fun listed _ => texts listed
    rw [← shape]
    cases operators <;> cases enumValues <;> rfl
  have options : Json.optional? members "enumValues" Json.strings? = some enumValues := by
    refine Json.optional?_of_lookup? ?_ fun listed _ => texts listed
    rw [← shape]
    cases operators <;> cases enumValues <;> rfl
  rw [toJson, shape]
  simp [ofJson?, known, title, word, own, options]

end Field

namespace Alias

/-- An alias survives being written. -/
theorem carries_toJson (declared : Alias) : Json.Carries declared.toJson :=
  Json.carries_object (by simp [Json.carries_string])

/-- An alias is read back. -/
theorem ofJson?_toJson (declared : Alias) : ofJson? declared.toJson = some declared := by
  simp [ofJson?, toJson, Json.fields?, Json.members?, Json.required?, Json.lookup?, Json.string?]

end Alias

namespace Policy

/-- A policy survives being written. -/
theorem carries_toJson (policy : Policy) : Json.Carries policy.toJson := by
  -- The cap is a word, so it is written as an integer.
  refine Json.carries_object (List.forall_mem_append.mpr ⟨by simp [Json.carries_bool], ?_⟩)
  exact Json.carries_member? fun cap _ => Json.carries_word cap

/-- A policy is read back. -/
theorem ofJson?_toJson (policy : Policy) : ofJson? policy.toJson = some policy := by
  -- The cap is the last member and may be missing.
  have cap : ∀ cap ∈ policy.maxSuggestions, Json.ofNat cap.toNat ≠ .null ∧
      Json.word? (.ofNat cap.toNat) = some cap := fun cap _ =>
    ⟨by simp [Json.ofNat], Json.word?_ofNat cap⟩
  obtain ⟨members, ending⟩ : ∃ members, Ending [("remoteValues", .bool policy.remoteValues)]
      "maxSuggestions" (fun cap => .ofNat cap.toNat) Json.word? policy.maxSuggestions members :=
    exists_ending _ (by simp) cap
  -- The flag has a default, but it is always written.
  have remote : Json.defaulted? members "remoteValues" false Json.bool? =
      some policy.remoteValues := ending.defaulted rfl
  rw [toJson, ending.shape]
  simp [ofJson?, ending.known, remote, ending.optional]

/-- A table of policies survives being written. -/
theorem carries_tableToJson (table : KeyedTable Policy) : Json.Carries (tableToJson table) :=
  Json.carries_object (List.forall_mem_map.mpr fun entry _ => entry.2.carries_toJson)

/-- A table of policies is read back. -/
theorem tableOfJson?_tableToJson (table : KeyedTable Policy) :
    tableOfJson? (tableToJson table) = some table := by
  -- Every entry is read back, and together they make the table again.
  have entries : ∀ entries : List (String × Policy),
      (entries.map fun entry => (entry.1, entry.2.toJson)).mapM (fun member =>
        (ofJson? member.2).map fun policy => (member.1, policy)) = some entries := by
    intro entries
    induction entries with
    | nil => rfl
    | cons entry entries ih => simp [List.mapM_cons, ofJson?_toJson, ih]
  rw [tableToJson, tableOfJson?, entries, Option.map_some, KeyedTable.ofList_entries]

/-- Of several policies for one field the last counts. -/
theorem get?_of_tableOfJson? {members : List (String × Json)} {table : KeyedTable Policy}
    (read : tableOfJson? (.object members) = some table) (field : String) :
    table.get? field = (Json.lookup? members.reverse field).bind ofJson? := by
  -- Each further member sets its own field and leaves the others as they are.
  induction members using List.reverseRecOn generalizing table with
  | nil =>
    cases read
    rfl
  | append_singleton members member ih =>
    obtain ⟨entries, each, rfl⟩ := Option.map_eq_some_iff.mp read
    simp only [List.mapM_append, List.mapM_cons, List.mapM_nil, bind, Option.bind_eq_some_iff,
      Option.map_eq_some_iff, Option.pure_def, Option.some.injEq] at each
    obtain ⟨before, front, last, ⟨_, ⟨policy, here, rfl⟩, _, rfl, rfl⟩, rfl⟩ := each
    rw [KeyedTable.ofList_snoc, KeyedTable.get?_insert, ih (by rw [tableOfJson?, front]; rfl),
      List.reverse_append]
    by_cases same : member.1 = field <;> simp [Json.lookup?, same, here]

end Policy

namespace OperatorTable

/-- A table of operators survives being written. -/
theorem carries_toJson (table : OperatorTable) : Json.Carries table.toJson := by
  -- Each type writes one member or none, and its operators are strings.
  refine Json.carries_object (List.forall_mem_flatMap.mpr fun type _ => ?_)
  exact Json.carries_member? fun operators _ => Json.carries_ofStrings operators

/-- The member for a type, where there is one, sets what is listed for the type. -/
theorem foldlM_addMember? (table : OperatorTable) (type : FieldType)
    (listed : Option (List String)) :
    (Json.member? type.name Json.ofStrings listed).foldlM addMember? table =
      some (listed.elim table (table.set type)) := by
  -- A type without operators writes no member, and its entry is left as it was.
  cases listed with
  | none => rfl
  | some operators =>
    simp [Json.member?, addMember?, FieldType.ofName?_name, Json.strings?_ofStrings]

/-- A table of operators is read back, whichever types it lists. -/
theorem ofJson?_toJson (table : OperatorTable) : ofJson? table.toJson = some table := by
  -- The three types are written in turn, and each is read back into its own place.
  obtain ⟨string, number, boolean⟩ := table
  simp only [ofJson?, toJson, FieldType.all, List.flatMap_cons, List.flatMap_nil, List.append_nil,
    List.foldlM_append, foldlM_addMember?, Option.bind_eq_bind, Option.bind_some]
  cases string <;> cases number <;> cases boolean <;> rfl

/-- A member sets what is listed for the type it names, and no other. -/
theorem get?_of_addMember? {table next : OperatorTable} {member : String × Json}
    (added : table.addMember? member = some next) (type : FieldType) :
    next.get? type = if member.1 = type.name then member.2.strings? else table.get? type := by
  -- The member names one type, and only that type's entry is changed.
  simp only [addMember?, bind, Option.bind_eq_some_iff, Option.pure_def, Option.some.injEq] at added
  obtain ⟨named, found, operators, read, rfl⟩ := added
  have name : named.name = member.1 := by simpa using List.find?_some found
  rw [← name, read]
  cases named <;> cases type <;> rfl

/-- Of several lists for one type the last counts. -/
theorem get?_of_ofJson? {members : List (String × Json)} {table : OperatorTable}
    (read : ofJson? (.object members) = some table) (type : FieldType) :
    table.get? type = (Json.lookup? members.reverse type.name).bind Json.strings? := by
  -- Induction on the members from the end: the last one of a name decides.
  induction members using List.reverseRecOn generalizing table with
  | nil =>
    cases read
    cases type <;> rfl
  | append_singleton members member ih =>
    simp only [ofJson?, List.foldlM_append, List.foldlM_cons, List.foldlM_nil, bind,
      Option.bind_eq_some_iff, Option.pure_def, Option.some.injEq] at read
    obtain ⟨before, front, _, added, rfl⟩ := read
    rw [get?_of_addMember? added, ih front, List.reverse_append]
    by_cases same : member.1 = type.name <;> simp [Json.lookup?, same]

end OperatorTable

namespace Language

/-- A language survives being written. -/
theorem carries_toJson (language : Language) : Json.Carries language.toJson := by
  -- Fields, aliases and policies carry each on their own.
  have fields : Json.Carries (.array (language.fields.map Field.toJson)) :=
    Json.carries_array (List.forall_mem_map.mpr fun field _ => field.carries_toJson)
  have aliases : Json.Carries (.array (language.aliases.map Alias.toJson)) :=
    Json.carries_array (List.forall_mem_map.mpr fun declared _ => declared.carries_toJson)
  refine Json.carries_object (List.forall_mem_append.mpr ⟨?_, ?_⟩)
  · simp [Json.carries_string, fields, aliases, OperatorTable.carries_toJson]
  · exact Json.carries_member? fun table _ => Policy.carries_tableToJson table

/-- A language is read back. -/
theorem ofJson?_toJson (language : Language) : ofJson? language.toJson = some language := by
  -- A table of policies is an object, also when it is empty, so it is never taken as left out.
  have table : ∀ table ∈ language.policies, Policy.tableToJson table ≠ .null ∧
      Policy.tableOfJson? (Policy.tableToJson table) = some table := fun table _ =>
    ⟨by simp [Policy.tableToJson], Policy.tableOfJson?_tableToJson table⟩
  obtain ⟨members, ending⟩ : ∃ members, Ending [("version", .string language.version),
      ("fields", .array (language.fields.map Field.toJson)),
      ("operatorsByType", language.operatorsByType.toJson),
      ("functions", .array (language.aliases.map Alias.toJson))] "completionPolicies"
      Policy.tableToJson Policy.tableOfJson? language.policies members :=
    exists_ending _ (by simp) table
  have version : Json.required? members "version" Json.string? = some language.version :=
    ending.required rfl
  have fields : Json.required? members "fields" (Json.items? Field.ofJson?) =
      some language.fields :=
    ending.required (Json.items?_map fun field _ => field.ofJson?_toJson)
  have operators : Json.defaulted? members "operatorsByType" .standard OperatorTable.ofJson? =
      some language.operatorsByType :=
    ending.defaulted (OperatorTable.ofJson?_toJson _)
  have aliases : Json.defaulted? members "functions" [] (Json.items? Alias.ofJson?) =
      some language.aliases :=
    ending.defaulted (Json.items?_map fun declared _ => declared.ofJson?_toJson)
  rw [toJson, ending.shape]
  simp [ofJson?, ending.known, version, fields, operators, aliases, ending.optional]

/-- A language is decoded from its text. -/
theorem decode?_encode (language : Language) : decode? language.encode = some language := by
  -- The text is read back as the JSON that was written, and the JSON as the language.
  rw [decode?, encode, Json.parse?_compact language.carries_toJson.1, Option.bind_some]
  exact language.ofJson?_toJson

end Language

namespace Limits

/-- Limits survive being written. -/
theorem carries_toJson (limits : Limits) : Json.Carries limits.toJson :=
  Json.carries_object (by simp [Json.carries_word])

/-- Limits are read back. -/
theorem ofJson?_toJson (limits : Limits) : ofJson? limits.toJson = some limits := by
  -- Every limit has a default, but all of them are written.
  simp [ofJson?, toJson, Json.fields?, Json.members?, Json.defaulted?, Json.lookup?,
    Json.word?_ofNat]

end Limits

namespace Config

/-- Settings survive being written. -/
theorem carries_toJson (config : Config) : Json.Carries config.toJson :=
  Json.carries_object (by simp [config.limits.carries_toJson, Json.carries_ofStrings,
    Json.carries_string, Json.carries_word])

/-- Settings are read back. -/
theorem ofJson?_toJson (config : Config) : ofJson? config.toJson = some config := by
  -- Every member has a default, but all of them are written.
  simp [ofJson?, toJson, Json.fields?, Json.members?, Json.defaulted?, Json.lookup?,
    Limits.ofJson?_toJson, Json.strings?_ofStrings, Json.string?, Json.word?_ofNat]

/-- Settings are decoded from their text. -/
theorem decode?_encode (config : Config) : decode? config.encode = some config := by
  -- The text is read back as the JSON that was written, and the JSON as the configuration.
  rw [decode?, encode, Json.parse?_compact config.carries_toJson.1, Option.bind_some]
  exact config.ofJson?_toJson

end Config

/-- An object whose first member gives its kind is tagged by it, and holds the rest besides. -/
theorem tagged?_kind {kind : String} {members : List (String × Json)}
    (distinct : "kind" ∉ members.map (·.1)) (kinds : List String) :
    Json.tagged? kinds (.object (("kind", .string kind) :: members)) =
      some (kind, .object (("kind", .string kind) :: members)) := by
  -- No other member has the name of the tag, so it is not repeated.
  have alone : members.filter (·.1 == "kind") = [] := by
    refine List.filter_eq_nil_iff.mpr fun member here named => distinct ?_
    exact List.mem_map.mpr ⟨member, here, by simpa using named⟩
  simp [Json.tagged?, Json.tag?, Json.members?, Json.lookup?, Json.untagged, kindOfTag?, alone]

namespace IrValue

mutual

/-- What holds of scalars, and of a list whenever it holds of its items, holds of every value. -/
@[elab_as_elim] theorem induction {motive : IrValue → Prop}
    (string : ∀ value, motive (.string value)) (number : ∀ value, motive (.number value))
    (boolean : ∀ value, motive (.boolean value))
    (list : ∀ items, (∀ item ∈ items, motive item) → motive (.list items)) : ∀ value, motive value
  -- Structural recursion over values and the lists they hold.
  | .string value => string value
  | .number value => number value
  | .boolean value => boolean value
  | .list items => list items (forall_induction string number boolean list items)

/-- What holds of scalars, and of a list whenever it holds of its items, holds of all items. -/
theorem forall_induction {motive : IrValue → Prop}
    (string : ∀ value, motive (.string value)) (number : ∀ value, motive (.number value))
    (boolean : ∀ value, motive (.boolean value))
    (list : ∀ items, (∀ item ∈ items, motive item) → motive (.list items)) :
    ∀ items : List IrValue, ∀ item ∈ items, motive item
  | [] => by simp
  | item :: items => by
    rw [List.forall_mem_cons]
    exact ⟨induction string number boolean list item,
      forall_induction string number boolean list items⟩

end

/-- Several values are written one by one. -/
theorem listToJson_eq_map (items : List IrValue) : listToJson items = items.map toJson := by
  -- Induction on the items; the writer goes through them by its own recursion.
  induction items with
  | nil => rfl
  | cons item items ih => rw [listToJson, ih, List.map_cons]

/-- A value survives being written. -/
theorem carries_toJson (value : IrValue) : Json.Carries value.toJson := by
  -- One case for each kind of value; the kind itself is a string.
  induction value using induction with
  | string value => exact Json.carries_object (by simp [kindMember, Json.carries_string])
  | number value =>
    exact Json.carries_object (by simp [kindMember, Json.carries_string, Json.carries_ofDouble])
  | boolean value =>
    exact Json.carries_object (by simp [kindMember, Json.carries_string, Json.carries_bool])
  | list items each =>
    have items := Json.carries_array (List.forall_mem_map.mpr each)
    rw [toJson, listToJson_eq_map]
    exact Json.carries_object (by simp [kindMember, Json.carries_string, items])

/-- A value is an object, so it takes a level. -/
theorem exists_levels {value : IrValue} {levels : Nat} (enough : value.toJson.depth ≤ levels) :
    ∃ left, levels = left + 1 := by
  cases value <;> rw [toJson, Json.depth] at enough <;> exact ⟨levels - 1, by omega⟩

/-- A value is read back if there are levels enough. -/
theorem ofJson?_toJson {value : IrValue} {levels : Nat} (enough : value.toJson.depth ≤ levels) :
    ofJson? levels value.toJson = some value := by
  obtain ⟨levels, rfl⟩ := exists_levels enough
  induction value using induction generalizing levels with
  | string value => rfl
  | number value =>
    simp [ofJson?, toJson, tagged?_kind, Json.fields?, Json.members?, Json.required?,
      Json.lookup?, kindMember, Json.double?_ofDouble]
  | boolean value => rfl
  | list items each =>
    have read : ∀ item ∈ items, ofJson? levels item.toJson = some item := by
      intro item member
      -- The object and its array stand around every item.
      have within : item.toJson.depth ≤ levels := by
        have inside := Json.depth_le_of_mem (List.mem_map_of_mem (f := toJson) member)
        simp only [toJson, listToJson_eq_map, Json.depth, Json.depthOfMembers] at enough
        omega
      obtain ⟨left, rfl⟩ := exists_levels within
      exact each item member left within
    simp [ofJson?, toJson, listToJson_eq_map, tagged?_kind, Json.fields?, Json.members?,
      Json.required?, Json.lookup?, kindMember, Json.items?_map read]

/-- A value that was read nests no deeper when it is written. -/
theorem depth_le_of_ofJson? {levels : Nat} {json : Json} {value : IrValue}
    (read : ofJson? levels json = some value) : value.toJson.depth ≤ json.depth := by
  induction levels generalizing json value with
  | zero => simp [ofJson?] at read
  | succ levels ih =>
    simp only [ofJson?, bind, Option.bind_eq_some_iff] at read
    obtain ⟨⟨kind, content⟩, tagged, read⟩ := read
    -- A scalar takes the one level of its object, and only a list goes deeper.
    split at read <;>
      simp only [Option.bind_eq_some_iff, Option.pure_def, Option.some.injEq, reduceCtorEq] at read
    · obtain ⟨_, found, _, -, rfl⟩ := read
      have room := depth_of_tagged? tagged found
      simp only [toJson, kindMember, Json.depth, Json.depthOfMembers]
      omega
    · obtain ⟨_, found, _, -, rfl⟩ := read
      have room := depth_of_tagged? tagged found
      simp only [toJson, kindMember, Json.ofDouble, Json.depth, Json.depthOfMembers]
      omega
    · obtain ⟨_, found, _, -, rfl⟩ := read
      have room := depth_of_tagged? tagged found
      simp only [toJson, kindMember, Json.depth, Json.depthOfMembers]
      omega
    · obtain ⟨_, found, items, listed, rfl⟩ := read
      have room := depth_of_tagged? tagged found
      obtain ⟨_, inside, listed⟩ := Json.required?_eq_some listed
      have deep := Json.depth_of_items? (fun _ _ => ih) listed
      simp only [toJson, listToJson_eq_map, kindMember, Json.depthOfMembers, Json.depth]
      omega

end IrValue

namespace Ir

/-- An expression survives being written. -/
theorem carries_toJson (ir : Ir) : Json.Carries ir.toJson := by
  -- Induction on the query; the kind of each part is a string.
  induction ir with
  | logical operator left right first second =>
    exact Json.carries_object (by simp [kindMember, Json.carries_string, first, second])
  | negation expression inner =>
    exact Json.carries_object (by simp [kindMember, Json.carries_string, inner])
  | comparison field operator value =>
    exact Json.carries_object
      (by simp [kindMember, Json.carries_string, IrValue.carries_toJson value])

/-- An expression is an object, so it takes a level. -/
theorem exists_levels {ir : Ir} {levels : Nat} (enough : ir.toJson.depth ≤ levels) :
    ∃ left, levels = left + 1 := by
  cases ir <;> rw [toJson, Json.depth] at enough <;> exact ⟨levels - 1, by omega⟩

/-- An expression is read back if there are levels enough. -/
theorem ofJson?_toJson {ir : Ir} {levels : Nat} (enough : ir.toJson.depth ≤ levels) :
    ofJson? levels ir.toJson = some ir := by
  -- Induction on the query. Each level of it takes at least one level of its JSON, so the levels
  -- that are left always suffice for its parts.
  induction ir generalizing levels with
  | logical operator left right readLeft readRight =>
    obtain ⟨levels, rfl⟩ := exists_levels enough
    simp only [toJson, Json.depth, Json.depthOfMembers] at enough
    have word : Connective.ofJson? (.string operator.name) = some operator := by
      cases operator <;> rfl
    have first : ofJson? levels left.toJson = some left := readLeft (by omega)
    have second : ofJson? levels right.toJson = some right := readRight (by omega)
    simp [ofJson?, toJson, tagged?_kind, Json.fields?, Json.members?, Json.required?,
      Json.lookup?, kindMember, word, first, second]
  | negation expression read =>
    obtain ⟨levels, rfl⟩ := exists_levels enough
    simp only [toJson, Json.depth, Json.depthOfMembers] at enough
    have inner : ofJson? levels expression.toJson = some expression := read (by omega)
    simp [ofJson?, toJson, tagged?_kind, Json.fields?, Json.members?, Json.required?,
      Json.lookup?, kindMember, inner]
  | comparison field operator value =>
    obtain ⟨levels, rfl⟩ := exists_levels enough
    simp only [toJson, Json.depth, Json.depthOfMembers] at enough
    have content : IrValue.ofJson? levels value.toJson = some value :=
      IrValue.ofJson?_toJson (by omega)
    simp [ofJson?, toJson, tagged?_kind, Json.fields?, Json.members?, Json.required?,
      Json.lookup?, kindMember, Json.string?, content]

/-- An expression that was read nests no deeper when it is written. -/
theorem depth_le_of_ofJson? {levels : Nat} {json : Json} {ir : Ir}
    (read : ofJson? levels json = some ir) : ir.toJson.depth ≤ json.depth := by
  induction levels generalizing json ir with
  | zero => simp [ofJson?] at read
  | succ levels ih =>
    simp only [ofJson?, bind, Option.bind_eq_some_iff] at read
    obtain ⟨⟨kind, content⟩, tagged, read⟩ := read
    -- Each part was read from a member, so it keeps below that member's depth.
    split at read <;>
      simp only [Option.bind_eq_some_iff, Option.pure_def, Option.some.injEq, reduceCtorEq] at read
    · obtain ⟨_, found, _, -, left, first, right, second, rfl⟩ := read
      have room := depth_of_tagged? tagged found
      obtain ⟨_, insideLeft, first⟩ := Json.required?_eq_some first
      obtain ⟨_, insideRight, second⟩ := Json.required?_eq_some second
      have leftDeep := ih first
      have rightDeep := ih second
      simp only [toJson, kindMember, Json.depthOfMembers, Json.depth]
      omega
    · obtain ⟨_, found, expression, inner, rfl⟩ := read
      have room := depth_of_tagged? tagged found
      obtain ⟨_, inside, inner⟩ := Json.required?_eq_some inner
      have deep := ih inner
      simp only [toJson, kindMember, Json.depthOfMembers, Json.depth]
      omega
    · obtain ⟨_, found, _, -, _, -, value, literal, rfl⟩ := read
      have room := depth_of_tagged? tagged found
      obtain ⟨_, inside, literal⟩ := Json.required?_eq_some literal
      have deep := IrValue.depth_le_of_ofJson? literal
      simp only [toJson, kindMember, Json.depthOfMembers, Json.depth]
      omega

/-- An expression is decoded from its text, if that does not nest too deep. -/
theorem decode?_encode {ir : Ir} (shallow : ir.toJson.depth ≤ maxJsonDepth) :
    decode? ir.encode = some ir := by
  obtain ⟨normal, loadable⟩ := ir.carries_toJson
  -- The tag stands first in every expression, and is a word.
  have tagged : ∃ kind, ir.toJson.tag? = some (.string kind) := by cases ir <;> exact ⟨_, rfl⟩
  obtain ⟨kind, tag⟩ := tagged
  simp [decode?, encode, Json.parse?_compact normal, Json.held?, tag, Json.string?, shallow,
    loadable, ofJson?_toJson shallow]

/-- An expression that was decoded nests within the limit. -/
theorem depth_le_of_decode? {text : String} {ir : Ir} (decoded : decode? text = some ir) :
    ir.toJson.depth ≤ maxJsonDepth := by
  -- What is held is within the limit, and what is read from it is written no deeper.
  simp only [decode?, Json.held?, bind, Option.bind_eq_some_iff, Option.ite_none_right_eq_some,
    Option.some.injEq] at decoded
  obtain ⟨json, -, _, ⟨_, -, _, -, ⟨shallow, -⟩, rfl⟩, read⟩ := decoded
  exact Nat.le_trans (depth_le_of_ofJson? read) shallow

end Ir

/--
A way to write values as texts and to read them.

The values that fit are those that are read back from their own texts. Whatever any text describes
is also what the text written for it describes.
-/
structure RoundTrips {α : Type} (encode : α → String) (decode? : String → Option α)
    (fits : α → Prop) : Prop where
  own : ∀ value, decode? (encode value) = some value ↔ fits value
  again : ∀ text value, decode? text = some value → decode? (encode value) = some value

/--
Executable queries, languages and settings are read back from their texts.

All languages and settings are, and so are exactly those queries whose JSON nests within the limit.
What a text describes is described as well by the text written for it, although that has all
defaults and no further members; where a text repeats a key of a table the last entry counts.
-/
theorem documents_round_trip :
    RoundTrips Ir.encode Ir.decode? (fun ir => ir.toJson.depth ≤ maxJsonDepth) ∧
    RoundTrips Language.encode Language.decode? (fun _ => True) ∧
    RoundTrips Config.encode Config.decode? (fun _ => True) ∧
    (∀ members table, Policy.tableOfJson? (.object members) = some table →
      ∀ field, table.get? field = (Json.lookup? members.reverse field).bind Policy.ofJson?) ∧
    (∀ members table, OperatorTable.ofJson? (.object members) = some table →
      ∀ type, table.get? type = (Json.lookup? members.reverse type.name).bind Json.strings?) := by
  -- A query has to be shallow; languages and configurations can always be read back.
  refine ⟨⟨fun ir => ?_, fun text ir decoded => ?_⟩, ⟨?_, ?_⟩, ⟨?_, ?_⟩, ?_, ?_⟩
  · exact ⟨Ir.depth_le_of_decode?, Ir.decode?_encode⟩
  · exact Ir.decode?_encode (Ir.depth_le_of_decode? decoded)
  · exact fun language => iff_true_intro language.decode?_encode
  · exact fun _ language _ => language.decode?_encode
  · exact fun config => iff_true_intro config.decode?_encode
  · exact fun _ config _ => config.decode?_encode
  · exact fun _ _ => Policy.get?_of_tableOfJson?
  · exact fun _ _ => OperatorTable.get?_of_ofJson?

/--
The text of a language as it need not be written.

It has a member too many, one left out, keys that are repeated, and arrays in place of objects.
-/
def looseText : String :=
  "\x7b\"version\":\"1\",\"note\":[],\"fields\":[[\"a\",\x7b\"STRING\":null\x7d]]," ++
    "\"operatorsByType\":\x7b\"STRING\":[\"=\"],\"STRING\":[]\x7d," ++
    "\"completionPolicies\":\x7b\"b\":\x7b\x7d,\"a\":[],\"b\":[true]\x7d\x7d"

/-- The language that the loose text describes. -/
def looseLanguage : Language where
  version := "1"
  fields := [⟨"a", .string, none, none⟩]
  operatorsByType := ⟨some [], none, none⟩
  aliases := []
  policies := some (.ofList [("a", ⟨false, none⟩), ("b", ⟨true, none⟩)])

/-- The text of an executable query with arrays in place of objects, and places for kinds. -/
def looseQuery : String :=
  "[\"irLogical\",\x7b\"AND\":\x7b\x7d\x7d,[1,[2,\"a\",\"=\",[2,true]]],[2,\"b\",\"IN\",[3,[]]]]"

/-- The loose texts are read with their last entries, and what was read is read back. -/
theorem looseText_round_trip :
    (Language.decode? looseText = some looseLanguage ∧
      Language.decode? looseLanguage.encode = some looseLanguage) ∧
    (∃ ir, Ir.decode? looseQuery = some ir ∧ Ir.decode? ir.encode = some ir) ∧
    Config.decode? "[]" = some {} := by
  -- That the texts can be read is computed; that what
  -- they say can be written and read again is not.
  have language : Language.decode? looseText = some looseLanguage := by decide +kernel
  have query : (Ir.decode? looseQuery).isSome = true := by decide +kernel
  obtain ⟨ir, decoded⟩ := Option.isSome_iff_exists.mp query
  obtain ⟨queries, languages, -⟩ := documents_round_trip
  exact ⟨⟨language, languages.again looseText looseLanguage language⟩,
    ⟨ir, decoded, queries.again looseQuery ir decoded⟩, by decide +kernel⟩

end FilterLang
