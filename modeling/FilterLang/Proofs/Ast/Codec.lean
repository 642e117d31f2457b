import FilterLang.Ast.Wire
import FilterLang.Proofs.Json.RoundTrip
import FilterLang.Proofs.Number.Rounding

/-! Envelopes are read back from their text. -/

namespace FilterLang

namespace Json

/-- Members nest one inside another as deep as the deeper part of them. -/
@[simp] theorem depthOfMembers_append (left right : List (String × Json)) :
    depthOfMembers (left ++ right) = max (depthOfMembers left) (depthOfMembers right) := by
  -- Induction on the left part; the depth of members is a maximum over them.
  induction left with
  | nil => simp [depthOfMembers]
  | cons member left ih => simp [depthOfMembers, ih, Nat.max_assoc]

/-- What is found among members nests no deeper than they do. -/
theorem depth_le_of_lookup? {members : List (String × Json)} {name : String} {json : Json}
    (found : lookup? members name = some json) : json.depth ≤ depthOfMembers members := by
  -- Induction on the members: the one that is found counts towards the maximum.
  induction members with
  | nil => simp [lookup?] at found
  | cons member members ih =>
    rw [depthOfMembers]
    by_cases here : member.1 = name
    · have same : member.2 = json := by simpa [lookup?, here] using found
      rw [← same]
      exact Nat.le_max_left _ _
    · have later : lookup? members name = some json := by simpa [lookup?, here] using found
      exact Nat.le_trans (ih later) (Nat.le_max_right _ _)

/-- What stands among items nests no deeper than they do. -/
theorem depth_le_of_mem {items : List Json} {json : Json} (member : json ∈ items) :
    json.depth ≤ depthOfItems items := by
  -- Induction on the items; one of them is the one in question.
  induction items with
  | nil => cases member
  | cons item items ih =>
    rw [depthOfItems]
    rcases List.mem_cons.mp member with rfl | later
    · exact Nat.le_max_left _ _
    · exact Nat.le_trans (ih later) (Nat.le_max_right _ _)

/-- Items nest no deeper than a bound that each of them keeps. -/
theorem depthOfItems_le {items : List Json} {bound : Nat}
    (each : ∀ item ∈ items, item.depth ≤ bound) : depthOfItems items ≤ bound := by
  -- A maximum is below a bound if all it is taken over is.
  induction items with
  | nil => exact Nat.zero_le bound
  | cons item items ih =>
    rw [List.forall_mem_cons] at each
    exact Nat.max_le.mpr ⟨each.1, ih each.2⟩

/-- A value that survives being written and being held: no trailing zeros, nothing to refuse. -/
def Carries (json : Json) : Prop :=
  json.IsNormal ∧ json.isLoadable = true

/-- A text survives. -/
theorem carries_string (value : String) : Carries (.string value) :=
  ⟨.string value, by simp [isLoadable]⟩

/-- A truth value survives. -/
theorem carries_bool (value : Bool) : Carries (.bool value) :=
  ⟨.bool value, by simp [isLoadable]⟩

/-- A 64-bit word survives. -/
theorem carries_ofNat {value : Nat} (small : value < 2 ^ 64) : Carries (ofNat value) :=
  ⟨.integer _, by simpa [ofNat, isLoadable] using double?_ofNat small⟩

/-- A double survives. -/
theorem carries_ofDouble (value : Binary64) : Carries (ofDouble value) := by
  -- The shortest decimal reads back as the double, so it is not out of range.
  refine ⟨.decimal value.shortest_isNormal, ?_⟩
  have read := double?_ofDouble value
  rw [ofDouble] at read ⊢
  rw [isLoadable, read, Option.isSome_some]

/-- An array survives if its items do. -/
theorem carries_array {items : List Json} (each : ∀ item ∈ items, Carries item) :
    Carries (.array items) := by
  -- Wholeness is about each item; loadability is a conjunction over the items.
  refine ⟨.array fun item member => (each item member).1, ?_⟩
  rw [isLoadable]
  induction items with
  | nil => rw [areItemsLoadable]
  | cons item items ih =>
    rw [List.forall_mem_cons] at each
    rw [areItemsLoadable, each.1.2, ih each.2, Bool.and_self]

/-- An object survives if the values of its members do. -/
theorem carries_object {members : List (String × Json)}
    (each : ∀ member ∈ members, Carries member.2) : Carries (.object members) := by
  -- As for arrays: the names of members are never doubles, so only their values matter.
  refine ⟨.object fun member here => (each member here).1, ?_⟩
  rw [isLoadable]
  induction members with
  | nil => rw [areMembersLoadable]
  | cons member members ih =>
    rw [List.forall_mem_cons] at each
    rw [areMembersLoadable, each.1.2, ih each.2, Bool.and_self]

/-- A member that may be left out survives if its value does. -/
theorem carries_member? {α : Type} {name : String} {write : α → Json} {value : Option α}
    (held : ∀ one ∈ value, Carries (write one)) :
    ∀ member ∈ member? name write value, Carries member.2 := by
  -- An absent value writes no member at all.
  cases value with
  | none => simp [member?]
  | some one => simpa [member?] using held one rfl

/-- A 64-bit word is read back as a size. -/
theorem size?_ofNat {value : Nat} (small : value < 2 ^ 64) : (ofNat value).size? = some value := by
  -- The reader asks for a sign and a width, and a small natural number has both.
  have word : value < Nat.pow 2 64 := small
  simp only [ofNat, size?, Int.natCast_nonneg, Int.toNat_natCast, true_and, if_pos word]

/-- What is read as a size is a 64-bit word. -/
theorem lt_of_size? {json : Json} {value : Nat} (read : json.size? = some value) :
    value < 2 ^ 64 := by
  -- Only integers are read as sizes, and the width is checked on reading.
  cases json <;> simp only [size?, reduceCtorEq, Option.ite_none_right_eq_some,
    Option.some.injEq] at read
  obtain ⟨⟨-, small⟩, rfl⟩ := read
  exact small

/-- A member that has to be there is there, and can be read. -/
theorem required?_eq_some {α : Type} {members : List (String × Json)} {name : String}
    {read : Json → Option α} {value : α} (found : required? members name read = some value) :
    ∃ json, json.depth ≤ depthOfMembers members ∧ read json = some value := by
  -- What is required is looked up among the members, and a member is no deeper than all of them.
  obtain ⟨json, looked, result⟩ := Option.bind_eq_some_iff.mp found
  exact ⟨json, depth_le_of_lookup? looked, result⟩

/-- A member that may be absent can be read if it is there. -/
theorem optional?_eq_some {α : Type} {members : List (String × Json)} {name : String}
    {read : Json → Option α} {value : α}
    (found : optional? members name read = some (some value)) :
    ∃ json, json.depth ≤ depthOfMembers members ∧ read json = some value := by
  -- A value can only come of a member that is there and not null.
  unfold optional? at found
  split at found
  · simp at found
  · simp at found
  · rename_i json _ looked
    obtain ⟨result, read, same⟩ := Option.map_eq_some_iff.mp found
    cases same
    exact ⟨json, depth_le_of_lookup? looked, read⟩

section Lookup

variable {α : Type} {members front back : List (String × Json)} {name : String}
  {write : α → Json} {read : Json → Option α} {json : Json}

/-- A name is looked for in front first. -/
theorem lookup?_append : lookup? (front ++ back) name =
    (lookup? front name).or (lookup? back name) := by
  -- The first member of a name counts, so the front is asked before the back.
  rw [lookup?, List.find?_append, lookup?, lookup?]
  cases front.find? (·.1 == name) <;> rfl

/-- A member that may be left out is found if it is there. -/
theorem lookup?_member?_self (value : Option α) :
    lookup? (member? name write value) name = value.map write := by
  cases value <;> simp [member?, lookup?]

/-- A member that has to be there is read where it is found. -/
theorem required?_of_lookup? {value : α} (found : lookup? members name = some json)
    (back : read json = some value) : required? members name read = some value := by
  rw [required?, found, Option.bind_some, back]

/-- A member that may be left out is read where it is found, and else is absent. -/
theorem optional?_of_lookup? {value : Option α} (found : lookup? members name = value.map write)
    (back : ∀ one ∈ value, write one ≠ .null ∧ read (write one) = some one) :
    optional? members name read = some value := by
  -- A value that is absent, or not written as null, is told apart from one that is missing.
  rw [optional?.eq_def, found]
  cases value with
  | none => rfl
  | some one =>
    obtain ⟨filled, same⟩ := back one rfl
    simp only [Option.map_some]
    rw [same, Option.map_some]

end Lookup

/-- An object with distinct names repeats none of the known ones. -/
theorem members?_of_distinct {members : List (String × Json)}
    (distinct : (members.map (·.1)).Nodup) (known : List String) :
    members? known (.object members) = some members := by
  -- A name that is distinct from all others occurs once at most.
  have once : ∀ name, (members.filter (·.1 == name)).length ≤ 1 := by
    intro name
    have count := List.nodup_iff_count_le_one.mp distinct name
    rwa [List.count, List.countP_map, List.countP_eq_length_filter] at count
  simp [members?, once]

/-- An object with distinct names has its members as fields. -/
theorem fields?_of_distinct {members : List (String × Json)}
    (distinct : (members.map (·.1)).Nodup) (names : List String) :
    fields? names (.object members) = some members :=
  members?_of_distinct distinct names

/-- Items that are each read back are read back together. -/
theorem items?_map {α : Type} {write : α → Json} {read : Json → Option α} {items : List α}
    (each : ∀ item ∈ items, read (write item) = some item) :
    items? read (.array (items.map write)) = some items := by
  -- Induction on the items: each is read back alone.
  rw [items?]
  induction items with
  | nil => rfl
  | cons item items ih =>
    rw [List.forall_mem_cons] at each
    simp [List.mapM_cons, each.1, ih each.2]

/-- Every item that was read comes from something inside the array. -/
theorem exists_of_mem_items? {α : Type} {read : Json → Option α} {json : Json} {items : List α}
    (found : items? read json = some items) :
    ∀ item ∈ items, ∃ inner : Json, inner.depth < json.depth ∧ read inner = some item := by
  cases json <;> simp only [items?, reduceCtorEq] at found
  rename_i jsons
  rw [depth]
  -- Items are read one by one, each from one item of the array.
  induction jsons generalizing items with
  | nil =>
    cases found
    simp
  | cons first jsons ih =>
    simp only [List.mapM_cons, bind, Option.bind_eq_some_iff, Option.pure_def,
      Option.some.injEq] at found
    obtain ⟨item, here, items, later, rfl⟩ := found
    simp only [depthOfItems]
    rw [List.forall_mem_cons]
    refine ⟨⟨first, by omega, here⟩, fun other member => ?_⟩
    obtain ⟨inner, inside, read⟩ := ih later other member
    exact ⟨inner, by omega, read⟩

/-- Items that nest no deeper than what they were read from do so together. -/
theorem depth_of_items? {α : Type} {read : Json → Option α} {write : α → Json}
    (each : ∀ json value, read json = some value → (write value).depth ≤ json.depth)
    {json : Json} {items : List α} (found : items? read json = some items) :
    depthOfItems (items.map write) + 1 ≤ json.depth := by
  -- An array is one level above its items.
  have positive : 0 < json.depth := by
    cases json <;> simp_all [items?, depth]
  -- Each item was read from one inside the array and is written no deeper than that one.
  have bound : depthOfItems (items.map write) ≤ json.depth - 1 := by
    refine depthOfItems_le (List.forall_mem_map.mpr fun item member => ?_)
    obtain ⟨inner, inside, read⟩ := exists_of_mem_items? found item member
    have within := each inner item read
    omega
  omega

/-- Items that get the names of fields nest no deeper for it. -/
theorem depthOfMembers_zip_le (names : List String) (items : List Json) :
    depthOfMembers (names.zip items) ≤ depthOfItems items := by
  -- Pairing with names drops items or names but adds no depth.
  induction names generalizing items with
  | nil => exact Nat.zero_le _
  | cons name names ih =>
    cases items with
    | nil => exact Nat.zero_le _
    | cons item items =>
      have others := ih items
      simp only [List.zip_cons_cons, depthOfMembers, depthOfItems]
      omega

/-- The fields of a record nest one level less than it does, be it an object or an array. -/
theorem depth_of_fields? {names : List String} {json : Json} {members : List (String × Json)}
    (found : json.fields? names = some members) : depthOfMembers members + 1 ≤ json.depth := by
  -- Only arrays and objects have fields, and both are one level above what they hold.
  cases json <;> simp only [fields?, members?, reduceCtorEq, Option.ite_none_right_eq_some,
    Option.some.injEq] at found
  · obtain ⟨-, rfl⟩ := found
    exact Nat.succ_le_succ (depthOfMembers_zip_le _ _)
  · obtain ⟨-, rfl⟩ := found
    exact Nat.le_refl _

/-- What a value holds besides its tag nests no deeper than the value. -/
theorem depth_untagged_le (json : Json) : json.untagged.depth ≤ json.depth := by
  unfold untagged
  split
  · -- The other items of an array are among all of them.
    simp only [depth, depthOfItems]
    omega
  · exact Nat.le_refl _

end Json

namespace Span

/-- Both ends of a span are 64-bit words. -/
def IsSized (span : Span) : Prop :=
  span.start < 2 ^ 64 ∧ span.stop < 2 ^ 64

/-- A span is read back. -/
theorem ofJson?_toJson {span : Span} (sized : span.IsSized) :
    Span.ofJson? span.toJson = some span := by
  -- Both offsets are natural numbers of the width that the reader asks for.
  simp [Span.ofJson?, Span.toJson, Json.fields?, Json.members?, Json.required?, Json.lookup?,
    Json.size?_ofNat sized.1, Json.size?_ofNat sized.2]

/-- A span that was read has 64-bit words as its ends, and came from an object or an array. -/
theorem isSized_of_ofJson? {json : Json} {span : Span} (read : Span.ofJson? json = some span) :
    span.IsSized ∧ 1 ≤ json.depth := by
  -- Reading checked the width of both offsets.
  simp only [Span.ofJson?, bind, Option.bind_eq_some_iff, Option.pure_def,
    Option.some.injEq] at read
  obtain ⟨members, found, start, first, stop, second, rfl⟩ := read
  obtain ⟨_, -, first⟩ := Json.required?_eq_some first
  obtain ⟨_, -, second⟩ := Json.required?_eq_some second
  -- A span has members, so it is at least one level deep.
  have deep := Json.depth_of_fields? found
  exact ⟨⟨Json.lt_of_size? first, Json.lt_of_size? second⟩, by omega⟩

end Span

/-- The span of a part, if it has one, has 64-bit words as its ends. -/
def SpanIsSized (span : Option Span) : Prop :=
  ∀ place ∈ span, place.IsSized

/-- The member for a span survives. -/
theorem carries_spanMember {span : Option Span} (sized : SpanIsSized span) :
    ∀ member ∈ spanMember span, Json.Carries member.2 := by
  -- Offsets are integers, so there is no double in a span that could be lost.
  refine Json.carries_member? fun place here => ?_
  obtain ⟨first, last⟩ := sized place here
  exact Json.carries_object (by simp [Json.carries_ofNat first, Json.carries_ofNat last])

/-- A part of an AST survives if its own members do. -/
theorem carries_spanned {front : List (String × Json)} {span : Option Span}
    (own : ∀ member ∈ front, Json.Carries member.2) (sized : SpanIsSized span) :
    Json.Carries (.object (front ++ spanMember span)) :=
  Json.carries_object (List.forall_mem_append.mpr ⟨own, carries_spanMember sized⟩)

/-- Members of an object, some that are always there in front of one that may be absent. -/
structure Ending {α : Type} (front : List (String × Json)) (name : String) (write : α → Json)
    (read : Json → Option α) (last : Option α) (members : List (String × Json)) : Prop where
  shape : front ++ Json.member? name write last = members
  known : ∀ names, Json.fields? names (.object members) = some members
  optional : Json.optional? members name read = some last
  required {β : Type} {other : String} {readOther : Json → Option β} {value : β} :
    Json.required? front other readOther = some value →
      Json.required? members other readOther = some value

/-- Members of distinct names are read back together with the one that may be absent. -/
theorem exists_ending {α : Type} (front : List (String × Json)) {name : String}
    {write : α → Json} {read : Json → Option α} {last : Option α}
    (distinct : (front.map (·.1) ++ [name]).Nodup)
    (back : ∀ value ∈ last, write value ≠ .null ∧ read (write value) = some value) :
    ∃ members, Ending front name write read last members := by
  -- The name is not among those in front, so it is found last or not at all.
  have absent : Json.lookup? front name = none := by
    simpa [Json.lookup?] using (List.nodup_append.mp distinct).2.2
  refine ⟨front ++ Json.member? name write last, rfl, Json.fields?_of_distinct ?_, ?_, ?_⟩
  · cases last with
    | none => simpa [Json.member?] using distinct.of_append_left
    | some value => simpa [Json.member?] using distinct
  · refine Json.optional?_of_lookup? ?_ back
    rw [Json.lookup?_append, absent, Option.none_or, Json.lookup?_member?_self]
  · intro β other readOther value found
    obtain ⟨json, looked, result⟩ := Option.bind_eq_some_iff.mp found
    exact Json.required?_of_lookup? (by rw [Json.lookup?_append, looked, Option.some_or]) result

/-- The members of a part of an AST are read back together with its span. -/
theorem exists_spanned (front : List (String × Json)) {span : Option Span}
    (distinct : (front.map (·.1) ++ ["span"]).Nodup) (sized : SpanIsSized span) :
    ∃ members, Ending front "span" Span.toJson Span.ofJson? span members := by
  -- A span is an object and so never null, which would read as no span.
  refine exists_ending front distinct fun place here => ⟨?_, Span.ofJson?_toJson (sized place here)⟩
  simp [Span.toJson]

/-- The tag of an object is the one its members give. -/
theorem Ending.tag {α : Type} {front members : List (String × Json)} {name : String}
    {write : α → Json} {read : Json → Option α} {last : Option α}
    (ending : Ending front name write read last members) {kind : String}
    (named : Json.lookup? front "kind" = some (.string kind)) :
    Json.tag? (.object members) = some (.string kind) := by
  -- An object has its members as fields, so they are what the tag is looked up in.
  have known : Json.members? ["kind"] (.object members) = some members := ending.known _
  have found : Json.lookup? members "kind" = some (.string kind) := by
    rw [← ending.shape, Json.lookup?_append, named, Option.some_or]
  simp [Json.tag?, known, found]

/-- The kind of an object is the one its members name. -/
theorem Ending.tagged {α : Type} {front members : List (String × Json)} {name : String}
    {write : α → Json} {read : Json → Option α} {last : Option α}
    (ending : Ending front name write read last members) {kind : String}
    (named : Json.lookup? front "kind" = some (.string kind)) (kinds : List String) :
    Json.tagged? kinds (.object members) = some (kind, .object members) := by
  simp [Json.tagged?, ending.tag named, kindOfTag?, Json.untagged]

/-- A member with a default that stands in front is read where it stands. -/
theorem Ending.defaulted {α β : Type} {front members : List (String × Json)} {name other : String}
    {write : α → Json} {read : Json → Option α} {last : Option α}
    (ending : Ending front name write read last members) {readOther : Json → Option β}
    {value fallback : β} (found : Json.required? front other readOther = some value) :
    Json.defaulted? members other fallback readOther = some value := by
  -- A member that has to be there and can be read is there, so the default is not needed.
  obtain ⟨json, looked, result⟩ := Option.bind_eq_some_iff.mp (ending.required found)
  rw [Json.defaulted?, looked]
  exact result

/--
The span that was read has 64-bit words as its ends.

Its member nests no deeper than those it was read from, so it may join any others that do not.
-/
theorem spanned_of_optional? {members : List (String × Json)} {span : Option Span} {bound : Nat}
    (room : Json.depthOfMembers members + 1 ≤ bound)
    (read : Json.optional? members "span" Span.ofJson? = some span) :
    SpanIsSized span ∧ ∀ front, Json.depthOfMembers front ≤ Json.depthOfMembers members →
      (Json.object (front ++ spanMember span)).depth ≤ bound := by
  -- A span adds one level, but one that was read had that level in the text as well.
  rw [forall_congr' fun front => by rw [Json.depth, Json.depthOfMembers_append]]
  cases span with
  | none =>
    refine ⟨by simp [SpanIsSized], fun front within => ?_⟩
    simp only [spanMember, Json.member?, Json.depthOfMembers]
    omega
  | some span =>
    obtain ⟨json, inside, found⟩ := Json.optional?_eq_some read
    obtain ⟨sized, deep⟩ := Span.isSized_of_ofJson? found
    refine ⟨by simpa [SpanIsSized] using sized, fun front within => ?_⟩
    simp only [spanMember, Json.member?, Span.toJson, Json.ofNat, Json.depthOfMembers, Json.depth]
    omega

/-- The fields of a value with a kind nest one level less than it does. -/
theorem depth_of_tagged? {kinds names : List String} {json content : Json} {kind : String}
    {members : List (String × Json)} (tagged : json.tagged? kinds = some (kind, content))
    (found : content.fields? names = some members) :
    Json.depthOfMembers members + 1 ≤ json.depth := by
  -- Taking the tag away makes nothing deeper, and the members lie one level below the rest.
  simp only [Json.tagged?, bind, Option.bind_eq_some_iff, Option.pure_def, Option.some.injEq,
    Prod.mk.injEq] at tagged
  obtain ⟨_, -, _, -, -, rfl⟩ := tagged
  exact Nat.le_trans (Json.depth_of_fields? found) (Json.depth_untagged_le json)

namespace Value

/-- All spans of a value have 64-bit words as their ends. -/
inductive IsSized : Value → Prop
  | string {value : String} {span : Option Span} : SpanIsSized span → IsSized (string value span)
  | number {value : Binary64} {raw : String} {span : Option Span} :
    SpanIsSized span → IsSized (number value raw span)
  | boolean {value : Bool} {span : Option Span} : SpanIsSized span → IsSized (boolean value span)
  | list {items : List Value} {span : Option Span} :
    (∀ item ∈ items, IsSized item) → SpanIsSized span → IsSized (list items span)

/-- Several values are written one by one. -/
theorem listToJson_eq_map (items : List Value) : listToJson items = items.map toJson := by
  -- Induction on the items; the writer goes through them by its own recursion.
  induction items with
  | nil => rfl
  | cons item items ih => rw [listToJson, ih, List.map_cons]

/-- A value survives being written. -/
theorem carries_toJson {value : Value} (sized : value.IsSized) : Json.Carries value.toJson := by
  -- One case for each kind of value: the kind and the span always carry, so its content decides.
  induction sized with
  | string place =>
    exact carries_spanned (by simp [kindMember, Json.carries_string]) place
  | number place =>
    exact carries_spanned (by simp [kindMember, Json.carries_string, Json.carries_ofDouble]) place
  | boolean place =>
    exact carries_spanned (by simp [kindMember, Json.carries_string, Json.carries_bool]) place
  | list _ place each =>
    have items := Json.carries_array (List.forall_mem_map.mpr each)
    rw [toJson, listToJson_eq_map]
    exact carries_spanned (by simp [kindMember, Json.carries_string, items]) place

/-- A value is an object, so it takes a level. -/
theorem exists_levels {value : Value} {levels : Nat} (enough : value.toJson.depth ≤ levels) :
    ∃ left, levels = left + 1 := by
  cases value <;> rw [toJson, Json.depth] at enough <;> exact ⟨levels - 1, by omega⟩

/-- A value is read back if there are levels enough. -/
theorem ofJson?_toJson {value : Value} (sized : value.IsSized) {levels : Nat}
    (enough : value.toJson.depth ≤ levels) : ofJson? levels value.toJson = some value := by
  obtain ⟨levels, rfl⟩ := exists_levels enough
  induction sized generalizing levels with
  | @string value _ place =>
    obtain ⟨members, ending⟩ := exists_spanned
      [kindMember "stringLiteral", ("value", .string value)] (by simp [kindMember]) place
    have content : Json.required? members "value" Json.string? = some value := ending.required rfl
    rw [toJson, spanMember, ending.shape]
    simp [ofJson?, ending.tagged rfl, ending.known, content, ending.optional]
  | @number value raw _ place =>
    obtain ⟨members, ending⟩ := exists_spanned
      [kindMember "numberLiteral", ("value", .ofDouble value), ("raw", .string raw)]
      (by simp [kindMember]) place
    have content : Json.required? members "value" Json.double? = some value :=
      ending.required (Json.double?_ofDouble value)
    have spelling : Json.required? members "raw" Json.string? = some raw := ending.required rfl
    rw [toJson, spanMember, ending.shape]
    simp [ofJson?, ending.tagged rfl, ending.known, content, spelling,
      ending.optional]
  | @boolean value _ place =>
    obtain ⟨members, ending⟩ := exists_spanned
      [kindMember "booleanLiteral", ("value", .bool value)] (by simp [kindMember]) place
    have content : Json.required? members "value" Json.bool? = some value := ending.required rfl
    rw [toJson, spanMember, ending.shape]
    simp [ofJson?, ending.tagged rfl, ending.known, content, ending.optional]
  | @list items _ _ place each =>
    obtain ⟨members, ending⟩ := exists_spanned
      [kindMember "list", ("items", .array (listToJson items))] (by simp [kindMember]) place
    have read : ∀ item ∈ items, ofJson? levels item.toJson = some item := by
      intro item member
      -- The object and its array stand around every item.
      have within : item.toJson.depth ≤ levels := by
        have inside := Json.depth_le_of_mem (List.mem_map_of_mem (f := toJson) member)
        simp only [toJson, listToJson_eq_map, Json.depth, Json.depthOfMembers_append,
          Json.depthOfMembers] at enough
        omega
      obtain ⟨left, rfl⟩ := exists_levels within
      exact each item member left within
    have content : Json.required? members "items" (Json.items? (ofJson? levels)) = some items := by
      refine ending.required ?_
      rw [listToJson_eq_map]
      exact Json.items?_map read
    rw [toJson, spanMember, ending.shape]
    simp [ofJson?, ending.tagged rfl, ending.known, content, ending.optional]

/-- Items that were read nest no deeper than what they were read from. -/
theorem isSized_of_items? {read : Json → Option Value}
    (each : ∀ json value, read json = some value →
      value.IsSized ∧ value.toJson.depth ≤ json.depth)
    {json : Json} {items : List Value} (found : Json.items? read json = some items) :
    (∀ item ∈ items, IsSized item) ∧ Json.depthOfItems (items.map toJson) + 1 ≤ json.depth := by
  -- Both halves follow from the single item that each one was read from.
  refine ⟨fun item member => ?_, ?_⟩
  · obtain ⟨inner, -, read⟩ := Json.exists_of_mem_items? found item member
    exact (each inner item read).1
  · exact Json.depth_of_items? (fun json value read => (each json value read).2) found

/-- A value that was read has 64-bit words as offsets, and nests no deeper when it is written. -/
theorem isSized_of_ofJson? {levels : Nat} {json : Json} {value : Value}
    (read : ofJson? levels json = some value) :
    value.IsSized ∧ value.toJson.depth ≤ json.depth := by
  induction levels generalizing json value with
  | zero => simp [ofJson?] at read
  | succ levels ih =>
    simp only [ofJson?, bind, Option.bind_eq_some_iff] at read
    obtain ⟨⟨kind, content⟩, tagged, read⟩ := read
    -- Each kind has its own fields, and its span last.
    split at read <;>
      simp only [Option.bind_eq_some_iff, Option.pure_def, Option.some.injEq, reduceCtorEq] at read
    · obtain ⟨_, found, _, -, span, place, rfl⟩ := read
      obtain ⟨sized, within⟩ := spanned_of_optional? (depth_of_tagged? tagged found) place
      exact ⟨.string sized, within _ (by simp [kindMember, Json.depthOfMembers, Json.depth])⟩
    · obtain ⟨_, found, _, -, _, -, span, place, rfl⟩ := read
      obtain ⟨sized, within⟩ := spanned_of_optional? (depth_of_tagged? tagged found) place
      exact ⟨.number sized,
        within _ (by simp [kindMember, Json.ofDouble, Json.depthOfMembers, Json.depth])⟩
    · obtain ⟨_, found, _, -, span, place, rfl⟩ := read
      obtain ⟨sized, within⟩ := spanned_of_optional? (depth_of_tagged? tagged found) place
      exact ⟨.boolean sized, within _ (by simp [kindMember, Json.depthOfMembers, Json.depth])⟩
    · obtain ⟨_, found, _, items, span, place, rfl⟩ := read
      obtain ⟨sized, within⟩ := spanned_of_optional? (depth_of_tagged? tagged found) place
      obtain ⟨json, inside, items⟩ := Json.required?_eq_some items
      obtain ⟨each, deep⟩ := isSized_of_items? (fun _ _ => ih) items
      refine ⟨.list each sized, within _ ?_⟩
      simp only [listToJson_eq_map, kindMember, Json.depthOfMembers, Json.depth]
      omega

end Value

namespace FieldRef

/-- A field reference survives being written. -/
theorem carries_toJson {field : FieldRef} (sized : SpanIsSized field.span) :
    Json.Carries field.toJson :=
  carries_spanned (by simp [Json.carries_string]) sized

/-- A field reference is read back. -/
theorem ofJson?_toJson {field : FieldRef} (sized : SpanIsSized field.span) :
    ofJson? field.toJson = some field := by
  -- The span is the last member and may be missing, so its ending tells how the others are found.
  obtain ⟨members, ending⟩ := exists_spanned [("name", .string field.name)] (by simp) sized
  have name : Json.required? members "name" Json.string? = some field.name := ending.required rfl
  rw [toJson, spanMember, ending.shape]
  simp [ofJson?, ending.known, name, ending.optional]

/-- A field reference that was read nests no deeper when it is written. -/
theorem isSized_of_ofJson? {json : Json} {field : FieldRef} (read : ofJson? json = some field) :
    SpanIsSized field.span ∧ field.toJson.depth ≤ json.depth := by
  -- The name is a string and adds no depth; the span has been read, so it was there before.
  simp only [ofJson?, bind, Option.bind_eq_some_iff, Option.pure_def, Option.some.injEq] at read
  obtain ⟨members, found, _, -, span, place, rfl⟩ := read
  obtain ⟨sized, within⟩ := spanned_of_optional? (Json.depth_of_fields? found) place
  exact ⟨sized, within _ (by simp [Json.depthOfMembers, Json.depth])⟩

end FieldRef

namespace Node

/-- All spans of an expression have 64-bit words as their ends. -/
inductive IsSized : Node → Prop
  | comparison {field : FieldRef} {operator : String} {value : Value} {span : Option Span} :
    SpanIsSized field.span → value.IsSized → SpanIsSized span →
      IsSized (comparison field operator value span)
  | logical {operator : Connective} {left right : Node} {span : Option Span} :
    IsSized left → IsSized right → SpanIsSized span → IsSized (logical operator left right span)
  | negation {expression : Node} {span : Option Span} :
    IsSized expression → SpanIsSized span → IsSized (negation expression span)

/-- An expression survives being written. -/
theorem carries_toJson {node : Node} (sized : node.IsSized) : Json.Carries node.toJson := by
  induction sized with
  | comparison field value place =>
    -- The field reference is an object of its own, with a span of its own.
    have field := FieldRef.carries_toJson field
    have value := Value.carries_toJson value
    exact carries_spanned (by simp [kindMember, Json.carries_string, field, value]) place
  | logical _ _ place left right =>
    exact carries_spanned (by simp [kindMember, Json.carries_string, left, right]) place
  | negation _ place inner =>
    exact carries_spanned (by simp [kindMember, Json.carries_string, inner]) place

/-- An expression is an object, so it takes a level. -/
theorem exists_levels {node : Node} {levels : Nat} (enough : node.toJson.depth ≤ levels) :
    ∃ left, levels = left + 1 := by
  cases node <;> rw [toJson, Json.depth] at enough <;> exact ⟨levels - 1, by omega⟩

/-- An expression is read back if there are levels enough. -/
theorem ofJson?_toJson {node : Node} (sized : node.IsSized) {levels : Nat}
    (enough : node.toJson.depth ≤ levels) : ofJson? levels node.toJson = some node := by
  -- Induction on the expression. Each level of it takes at least one level of its JSON, so the
  -- levels that are left always suffice for its parts.
  induction sized generalizing levels with
  | @comparison field operator value _ named literal place =>
    obtain ⟨levels, rfl⟩ := exists_levels enough
    obtain ⟨members, ending⟩ := exists_spanned [kindMember "comparison", ("field", field.toJson),
      ("operator", .string operator), ("value", value.toJson)] (by simp [kindMember]) place
    simp only [toJson, Json.depth, Json.depthOfMembers_append, Json.depthOfMembers] at enough
    have name : Json.required? members "field" FieldRef.ofJson? = some field :=
      ending.required (FieldRef.ofJson?_toJson named)
    have word : Json.required? members "operator" Json.string? = some operator :=
      ending.required rfl
    have content : Json.required? members "value" (Value.ofJson? levels) = some value :=
      ending.required (Value.ofJson?_toJson literal (by omega))
    rw [toJson, spanMember, ending.shape]
    simp [ofJson?, ending.tagged rfl, ending.known, name, word, content,
      ending.optional]
  | @logical operator left right _ _ _ place readLeft readRight =>
    obtain ⟨levels, rfl⟩ := exists_levels enough
    obtain ⟨members, ending⟩ := exists_spanned [kindMember "logical",
      ("operator", .string operator.name), ("left", left.toJson), ("right", right.toJson)]
      (by simp [kindMember]) place
    simp only [toJson, Json.depth, Json.depthOfMembers_append, Json.depthOfMembers] at enough
    have word : Json.required? members "operator" Connective.ofJson? = some operator := by
      apply ending.required
      cases operator <;> rfl
    have first : Json.required? members "left" (ofJson? levels) = some left :=
      -- Both sides are one level below, and so is what is left of the limit.
      ending.required (readLeft (by omega))
    have second : Json.required? members "right" (ofJson? levels) = some right :=
      ending.required (readRight (by omega))
    rw [toJson, spanMember, ending.shape]
    simp [ofJson?, ending.tagged rfl, ending.known, word, first, second,
      ending.optional]
  | @negation expression _ _ place read =>
    obtain ⟨levels, rfl⟩ := exists_levels enough
    obtain ⟨members, ending⟩ := exists_spanned
      [kindMember "not", ("expression", expression.toJson)] (by simp [kindMember]) place
    simp only [toJson, Json.depth, Json.depthOfMembers_append, Json.depthOfMembers] at enough
    have inner : Json.required? members "expression" (ofJson? levels) = some expression :=
      ending.required (read (by omega))
    rw [toJson, spanMember, ending.shape]
    simp [ofJson?, ending.tagged rfl, ending.known, inner, ending.optional]

/-- An expression that was read has 64-bit words as offsets, and nests no deeper when written. -/
theorem isSized_of_ofJson? {levels : Nat} {json : Json} {node : Node}
    (read : ofJson? levels json = some node) : node.IsSized ∧ node.toJson.depth ≤ json.depth := by
  induction levels generalizing json node with
  | zero => simp [ofJson?] at read
  | succ levels ih =>
    simp only [ofJson?, bind, Option.bind_eq_some_iff] at read
    obtain ⟨⟨kind, content⟩, tagged, read⟩ := read
    -- Each kind has its own fields, and its span last.
    split at read <;>
      simp only [Option.bind_eq_some_iff, Option.pure_def, Option.some.injEq, reduceCtorEq] at read
    · obtain ⟨_, found, field, name, _, -, value, literal, span, place, rfl⟩ := read
      obtain ⟨sized, within⟩ := spanned_of_optional? (depth_of_tagged? tagged found) place
      obtain ⟨_, insideName, name⟩ := Json.required?_eq_some name
      obtain ⟨_, insideValue, literal⟩ := Json.required?_eq_some literal
      obtain ⟨fieldSized, fieldDeep⟩ := FieldRef.isSized_of_ofJson? name
      obtain ⟨valueSized, valueDeep⟩ := Value.isSized_of_ofJson? literal
      refine ⟨.comparison fieldSized valueSized sized, within _ ?_⟩
      simp only [kindMember, Json.depthOfMembers, Json.depth]
      omega
    · obtain ⟨_, found, _, -, left, first, right, second, span, place, rfl⟩ := read
      obtain ⟨sized, within⟩ := spanned_of_optional? (depth_of_tagged? tagged found) place
      obtain ⟨_, insideLeft, first⟩ := Json.required?_eq_some first
      obtain ⟨_, insideRight, second⟩ := Json.required?_eq_some second
      obtain ⟨leftSized, leftDeep⟩ := ih first
      obtain ⟨rightSized, rightDeep⟩ := ih second
      refine ⟨.logical leftSized rightSized sized, within _ ?_⟩
      simp only [kindMember, Json.depthOfMembers, Json.depth]
      omega
    · obtain ⟨_, found, expression, inner, span, place, rfl⟩ := read
      obtain ⟨sized, within⟩ := spanned_of_optional? (depth_of_tagged? tagged found) place
      obtain ⟨_, inside, inner⟩ := Json.required?_eq_some inner
      obtain ⟨innerSized, deep⟩ := ih inner
      refine ⟨.negation innerSized sized, within _ ?_⟩
      simp only [kindMember, Json.depthOfMembers, Json.depth]
      omega

/-- An expression is tagged by a word. -/
theorem exists_tag (node : Node) : ∃ kind, node.toJson.tag? = some (.string kind) := by
  -- The tag stands first, and a span behind it is no second one.
  cases node with
  | comparison field operator value span => cases span <;> exact ⟨_, rfl⟩
  | logical operator left right span => cases span <;> exact ⟨_, rfl⟩
  | negation expression span => cases span <;> exact ⟨_, rfl⟩

/-- An expression is read back after it has been held, if one level around it is left. -/
theorem ofHeldJson?_toJson {node : Node} (sized : node.IsSized)
    (shallow : node.toJson.depth + 1 ≤ maxJsonDepth) :
    ofHeldJson? 1 node.toJson = some node := by
  -- A value that is held is looked at as a whole before it is read, after its tag.
  obtain ⟨kind, tag⟩ := exists_tag node
  have loadable := (carries_toJson sized).2
  have within : node.toJson.depth ≤ maxJsonDepth - 1 := by omega
  have read := ofJson?_toJson sized (Nat.le_trans within (Nat.sub_le _ _))
  simp [ofHeldJson?, Json.held?, tag, Json.string?, within, loadable, read]

end Node

namespace Metadata

/-- Both counts of metadata are 64-bit words. -/
def IsSized (metadata : Metadata) : Prop :=
  metadata.nodeCount < 2 ^ 64 ∧ metadata.maxDepth < 2 ^ 64

/-- Metadata survives being written. -/
theorem carries_toJson {metadata : Metadata} (sized : metadata.IsSized) :
    Json.Carries metadata.toJson := by
  -- Sizes and strings all carry, so the object of them does.
  apply Json.carries_object
  simp [Json.carries_string, Json.carries_ofNat sized.1, Json.carries_ofNat sized.2]

/-- Metadata is read back. -/
theorem ofJson?_toJson {metadata : Metadata} (sized : metadata.IsSized) :
    ofJson? metadata.toJson = some metadata := by
  -- Every member is looked up by its own name, and both sizes have the width that is read.
  simp [ofJson?, toJson, Json.fields?, Json.members?, Json.required?, Json.lookup?, Json.string?,
    Json.size?_ofNat sized.1, Json.size?_ofNat sized.2]

/-- Metadata that was read has 64-bit words as its counts. -/
theorem isSized_of_ofJson? {json : Json} {metadata : Metadata}
    (read : ofJson? json = some metadata) : metadata.IsSized := by
  -- Both sizes have been read, so their width has been checked.
  simp only [ofJson?, bind, Option.bind_eq_some_iff, Option.pure_def, Option.some.injEq] at read
  obtain ⟨_, -, _, -, _, count, _, depth, rfl⟩ := read
  obtain ⟨_, -, count⟩ := Json.required?_eq_some count
  obtain ⟨_, -, depth⟩ := Json.required?_eq_some depth
  exact ⟨Json.lt_of_size? count, Json.lt_of_size? depth⟩

end Metadata

namespace Envelope

/-- All offsets and counts of an envelope are 64-bit words. -/
def IsSized (envelope : Envelope) : Prop :=
  envelope.root.IsSized ∧ ∀ metadata ∈ envelope.metadata, metadata.IsSized

/-- An envelope nests one level deeper than its expression. -/
theorem depth_toJson (envelope : Envelope) :
    envelope.toJson.depth = envelope.root.toJson.depth + 1 := by
  -- The source and the metadata take one level each, and so does the expression at least.
  obtain ⟨left, root⟩ := Node.exists_levels (Nat.le_refl envelope.root.toJson.depth)
  cases metadata : envelope.metadata <;>
    simp only [toJson, metadata, Json.member?, Metadata.toJson, Json.ofNat, Json.depth,
      Json.depthOfMembers_append, Json.depthOfMembers] <;> omega

/-- An envelope survives being written. -/
theorem carries_toJson {envelope : Envelope} (sized : envelope.IsSized) :
    Json.Carries envelope.toJson := by
  -- The query, the root and the metadata carry each on its own.
  have source : Json.Carries (.object [("rawQuery", .string envelope.rawQuery)]) :=
    Json.carries_object (by simp [Json.carries_string])
  have root := Node.carries_toJson sized.1
  apply Json.carries_object
  refine List.forall_mem_append.mpr ⟨by simp [Json.carries_string, source, root], ?_⟩
  exact Json.carries_member? fun metadata here => Metadata.carries_toJson (sized.2 metadata here)

/-- An envelope is read back from its JSON, if that does not nest too deep. -/
theorem ofJson?_toJson {envelope : Envelope} (sized : envelope.IsSized)
    (shallow : envelope.toJson.depth ≤ maxJsonDepth) :
    ofJson? envelope.toJson = some envelope := by
  rw [depth_toJson] at shallow
  -- Here it is the metadata that may be absent.
  have noted : ∀ metadata ∈ envelope.metadata, metadata.toJson ≠ .null ∧
      Metadata.ofJson? metadata.toJson = some metadata := by
    intro metadata here
    exact ⟨by simp [Metadata.toJson], Metadata.ofJson?_toJson (sized.2 metadata here)⟩
  obtain ⟨members, ending⟩ : ∃ members, Ending [("astVersion", .string envelope.astVersion),
      ("grammarVersion", .string envelope.grammarVersion),
      ("source", .object [("rawQuery", .string envelope.rawQuery)]),
      ("root", envelope.root.toJson)] "metadata" Metadata.toJson Metadata.ofJson?
      envelope.metadata members := exists_ending _ (by simp) noted
  have version : Json.required? members "astVersion" Json.string? = some envelope.astVersion :=
    ending.required rfl
  have grammar : Json.required? members "grammarVersion" Json.string? =
      some envelope.grammarVersion := ending.required rfl
  have source : Json.required? members "source" sourceOfJson? = some envelope.rawQuery :=
    ending.required rfl
  have root : Json.required? members "root" (Node.ofHeldJson? 1) = some envelope.root :=
    ending.required (Node.ofHeldJson?_toJson sized.1 shallow)
  rw [toJson, ending.shape]
  simp [ofJson?, ending.known, version, grammar, source, root, ending.optional]

/-- An envelope that was read has 64-bit words as offsets and counts, and nests within the limit. -/
theorem isSized_of_ofJson? {json : Json} {envelope : Envelope}
    (read : ofJson? json = some envelope) :
    envelope.IsSized ∧ envelope.toJson.depth ≤ maxJsonDepth := by
  rw [depth_toJson]
  simp only [ofJson?, bind, Option.bind_eq_some_iff, Option.pure_def, Option.some.injEq] at read
  obtain ⟨_, -, _, -, _, -, _, -, root, held, noted, metadata, rfl⟩ := read
  obtain ⟨_, -, held⟩ := Json.required?_eq_some held
  simp only [Node.ofHeldJson?, Json.held?, bind, Option.bind_eq_some_iff,
    Option.ite_none_right_eq_some, Option.some.injEq] at held
  -- The expression was held at one level less than the limit, and nests no deeper now.
  obtain ⟨_, ⟨_, -, _, -, ⟨shallow, -⟩, rfl⟩, expression⟩ := held
  obtain ⟨sized, within⟩ := Node.isSized_of_ofJson? expression
  refine ⟨⟨sized, ?_⟩, ?_⟩
  · rintro one rfl
    obtain ⟨_, -, found⟩ := Json.optional?_eq_some metadata
    exact Metadata.isSized_of_ofJson? found
  · rw [maxJsonDepth] at shallow ⊢
    simp only
    omega

/-- An envelope is decoded from its text, if that does not nest too deep. -/
theorem decode?_encode {envelope : Envelope} (sized : envelope.IsSized)
    (shallow : envelope.toJson.depth ≤ maxJsonDepth) :
    decode? envelope.encode = some envelope := by
  -- The text is read back as the JSON that was written, and the JSON as the envelope.
  rw [decode?, encode, Json.parse?_compact (carries_toJson sized).1, Option.bind_some]
  exact ofJson?_toJson sized shallow

/-- An envelope that was decoded has 64-bit words as offsets and counts, and may be encoded. -/
theorem isSized_of_decode? {text : String} {envelope : Envelope}
    (decoded : decode? text = some envelope) :
    envelope.IsSized ∧ envelope.toJson.depth ≤ maxJsonDepth := by
  -- Whatever the text is, the envelope was read from the JSON that it spells.
  obtain ⟨json, -, read⟩ := Option.bind_eq_some_iff.mp decoded
  exact isSized_of_ofJson? read

/--
Encoding and decoding are inverse on whatever can be decoded at all.

An envelope is decoded from its own text exactly when its offsets and counts are 64-bit words and
its text nests within the limit. Every envelope that was decoded, from whatever text, is of this
kind, so its own text is a normal form of all texts that describe it.
-/
theorem decode?_encode_iff :
    (∀ envelope : Envelope, decode? envelope.encode = some envelope ↔
      envelope.IsSized ∧ envelope.toJson.depth ≤ maxJsonDepth) ∧
    ∀ (text : String) (envelope : Envelope), decode? text = some envelope →
      decode? envelope.encode = some envelope := by
  -- What can be read is sized and shallow, and what is sized and shallow can be read again.
  refine ⟨fun envelope => ⟨isSized_of_decode?, fun fits => decode?_encode fits.1 fits.2⟩, ?_⟩
  intro text envelope decoded
  have fits := isSized_of_decode? decoded
  exact decode?_encode fits.1 fits.2

/--
The text of an envelope as another writer may put it.

Records are arrays of their fields, the connective is the name of a member, and the kinds of what
is inside the expression are given by their places.
-/
def foreignText : String :=
  "[\"1\",\"\",[\"a\"],[\"logical\",\x7b\"OR\":null\x7d,[0,[\"a\",[0,1]],\"=\",[2,true]]," ++
    "\x7b\"expression\":[0,[\"b\"],\"~\",[3,[]]],\"kind\":2\x7d]]"

/-- The text of another writer describes an envelope, and so does the text written for it. -/
theorem foreignText_decode?_encode : ∃ envelope, decode? foreignText = some envelope ∧
    decode? envelope.encode = some envelope := by
  -- That the text can be read is computed; that it can be written and read again is not.
  have decoded : (decode? foreignText).isSome = true := by decide +kernel
  obtain ⟨envelope, same⟩ := Option.isSome_iff_exists.mp decoded
  exact ⟨envelope, same, decode?_encode_iff.2 foreignText envelope same⟩

end Envelope

end FilterLang
