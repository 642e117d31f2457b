import FilterLang.Proofs.Json.Numeral

/-! Every JSON value is read back from its text on one line. -/

namespace FilterLang

namespace Json

/-- A character that is no white space is not passed over. -/
theorem skipSpace_cons {c : Char} (solid : isSpace c = false) (rest : List Char) :
    skipSpace (c :: rest) = c :: rest := by
  simp [skipSpace, solid]

/-- A character that is escaped by its code is read back from the code. -/
theorem hexUnit?_hexDigit {code : Nat} (control : code < 0x20) :
    hexUnit? '0' '0' (hexDigit (code / 16)) (hexDigit (code % 16)) = some code := by
  -- There are thirty-two codes, and each is tried.
  have all : ∀ code < 0x20,
      hexUnit? '0' '0' (hexDigit (code / 16)) (hexDigit (code % 16)) = some code := by
    decide
  exact all code control

/-- A character inside a string is read as one piece that stands for it. -/
theorem readPieces_escapedChar (c : Char) (rest : List Char) :
    ∃ piece, readPieces (escapedChar c ++ rest) =
        (readPieces rest).map (fun (pieces, rest) => (piece :: pieces, rest)) ∧
      ∀ pieces, textOf? (piece :: pieces) = (textOf? pieces).map (c :: ·) := by
  fun_cases escapedChar c with
  -- The characters with a letter of their own.
  | case1 | case2 | case3 | case4 | case5 | case6 | case7 => exact ⟨.char _, rfl, fun _ => rfl⟩
  | case8 c _ _ _ _ _ _ _ control =>
    -- A control character is named by its code, which is half of no pair.
    refine ⟨.unit c.toNat, ?_, fun pieces => ?_⟩
    · simp [readPieces, hexUnit?_hexDigit control]
    · have low : isHighHalf c.toNat = false := by
        simp only [isHighHalf, Bool.and_eq_false_iff, decide_eq_false_iff_not]
        omega
      have high : isLowHalf c.toNat = false := by
        simp only [isLowHalf, Bool.and_eq_false_iff, decide_eq_false_iff_not]
        omega
      rw [textOf?.eq_def]
      simp [low, high, Char.ofNat_toNat]
  | case9 c quote escape _ _ _ _ _ printable =>
    refine ⟨.char c, ?_, fun _ => rfl⟩
    have plain : c ≠ '"' ∧ c ≠ '\\' := ⟨quote, escape⟩
    -- Any other character stands for itself.
    simp [readPieces, plain, printable]

/-- The text of a string is read back up to its closing quote. -/
theorem readString_escaped (chars rest : List Char) :
    readString (chars.flatMap escapedChar ++ '"' :: rest) = some (some chars, rest) := by
  -- The pieces of the text are known one by one, and so is the text that they stand for.
  have pieces : ∃ pieces, readPieces (chars.flatMap escapedChar ++ '"' :: rest) =
      some (pieces, rest) ∧ textOf? pieces = some chars := by
    induction chars with
    | nil => exact ⟨[], rfl, rfl⟩
    | cons c chars ih =>
      obtain ⟨pieces, read, text⟩ := ih
      obtain ⟨piece, first, stands⟩ :=
        readPieces_escapedChar c (chars.flatMap escapedChar ++ '"' :: rest)
      refine ⟨piece :: pieces, ?_, ?_⟩
      · rw [List.flatMap_cons, List.append_assoc, first, read]
        rfl
      · rw [stands, text]
        rfl
  obtain ⟨pieces, read, text⟩ := pieces
  simp [readString, read, text]

/-- The name of a member is read back with its colon. -/
theorem readKey_write (key : String) (rest : List Char) :
    readKey (writeString key (':' :: rest)) = some (some key, rest) := by
  -- A key is a string with a colon behind it.
  have read := readString_escaped key.toList (':' :: rest)
  simp [readKey, writeString, skipSpace_cons (show isSpace '"' = false by decide), read,
    skipSpace_cons (show isSpace ':' = false by decide)]

/-- What is read as a number without a sign begins with a digit. -/
theorem readUnsigned_head {negative : Bool} {cs : List Char} {result : Json × List Char}
    (read : readUnsigned negative cs = some result) :
    ∃ first more, cs = first :: more ∧ isDigit first = true := by
  -- The whole part comes first, and it has at least one digit.
  obtain ⟨whole, taken⟩ : ∃ whole, readWhole cs = some whole := by
    cases taken : readWhole cs with
    | none => simp [readUnsigned, taken] at read
    | some whole => exact ⟨whole, rfl⟩
  cases cs with
  | nil => simp [readWhole, readDigits] at taken
  | cons first more =>
    refine ⟨first, more, rfl, ?_⟩
    by_cases zero : first = '0'
    · rw [zero]
      decide
    · rw [readWhole, readDigits] at taken
      · cases digit : isDigit first with
        | true => rfl
        | false => simp [digit] at taken
      · exact fun _ same => zero (List.cons.inj same).1

/-- A sign or a digit begins neither white space nor any other value, and closes nothing. -/
theorem ne_of_begins_number {c : Char} (begins : c = '-' ∨ isDigit c = true) :
    ∀ d ∈ [' ', '\t', '\n', '\r', '\x7b', '[', '"', 't', 'f', 'n', ']'], c ≠ d := by
  -- All of these characters have other codes.
  have codes : c.toNat = 45 ∨ (48 ≤ c.toNat ∧ c.toNat ≤ 57) := by
    rcases begins with rfl | digit
    · exact .inl rfl
    · simp only [isDigit, Bool.and_eq_true, decide_eq_true_eq] at digit
      exact .inr digit
  rintro d member rfl
  revert codes member
  simp only [List.mem_cons, List.not_mem_nil, or_false]
  rintro codes (rfl | rfl | rfl | rfl | rfl | rfl | rfl | rfl | rfl | rfl | rfl) <;>
    exact absurd codes (by decide)

/-- A sign or a digit begins a number. -/
theorem readValue_number {c : Char} (begins : c = '-' ∨ isDigit c = true) (fuel : Nat)
    (cs : List Char) : readValue (fuel + 1) (c :: cs) = readNumber (c :: cs) := by
  -- A number begins with none of the characters that open another kind of value.
  have other := ne_of_begins_number begins
  simp only [List.forall_mem_cons] at other
  obtain ⟨space, tab, feed, carriage, brace, bracket, quote, true', false', null', -⟩ := other
  have solid : isSpace c = false := by simp [isSpace, space, tab, feed, carriage]
  rw [readValue, skipSpace_cons solid]
  split <;> simp_all

/-- The text begins with a character that neither is white space nor closes an array. -/
def Begins (cs : List Char) : Prop :=
  ∃ c more, cs = c :: more ∧ isSpace c = false ∧ c ≠ ']'

/-- A number behind its sign is read as a value. -/
theorem readValue_signed {negative : Bool} {cs : List Char} {result : Json × List Char}
    (read : readUnsigned negative cs = some result) (fuel : Nat) :
    Begins ((if negative then ['-'] else []) ++ cs) ∧
      readValue (fuel + 1) ((if negative then ['-'] else []) ++ cs) = some result := by
  -- The sign is taken off before the digits are read; unsigned digits do not begin with one.
  have opens : ∀ c more, (c = '-' ∨ isDigit c = true) → Begins (c :: more) := by
    intro c more begins
    have other := ne_of_begins_number begins
    exact ⟨c, more, rfl, by simp [isSpace, other], other _ (by simp)⟩
  obtain ⟨first, more, rfl, digit⟩ := readUnsigned_head read
  cases negative with
  | true => exact ⟨opens _ _ (.inl rfl), (readValue_number (.inl rfl) fuel _).trans read⟩
  | false =>
    have unsigned : first ≠ '-' := by
      rintro rfl
      revert digit
      decide
    refine ⟨opens _ _ (.inr digit), (readValue_number (.inr digit) fuel _).trans ?_⟩
    rw [readNumber, read]
    exact fun _ minus => unsigned (List.cons.inj minus).1

/-- The text of a whole number is read back as the number. -/
theorem readValue_integer (value : Int) {rest : List Char} (follows : Follows rest) (fuel : Nat) :
    Begins (integerChars value ++ rest) ∧
      readValue (fuel + 1) (integerChars value ++ rest) = some (.integer value, rest) := by
  -- A negative integer is its sign and the digits of its magnitude.
  cases value with
  | ofNat value =>
    have read := readValue_signed (readUnsigned_whole false value follows) fuel
    simpa [numberOf, integerChars] using read
  | negSucc value =>
    have read := readValue_signed (readUnsigned_whole true (value + 1) follows) fuel
    simpa [numberOf, integerChars, Int.negSucc_eq] using read

/-- The text of a decimal is read back as the decimal. -/
theorem readValue_decimal {value : Decimal} (isNormal : value.IsNormal) {rest : List Char}
    (follows : Follows rest) (fuel : Nat) :
    Begins (value.chars ++ rest) ∧
      readValue (fuel + 1) (value.chars ++ rest) = some (.decimal value, rest) := by
  -- Both notations, with and without a power, are read back.
  simp only [Decimal.chars]
  split
  · simpa using readValue_signed (Decimal.readUnsigned_plain isNormal follows) fuel
  · simpa using readValue_signed (Decimal.readUnsigned_pointed isNormal follows) fuel

/-- Every text of a decimal has a character. -/
theorem chars_ne_nil (value : Decimal) : value.chars ≠ [] := by
  -- Neither notation is empty.
  have plain : ∀ digits exponent magnitude, plainDigits digits exponent magnitude ≠ [] := by
    intro digits exponent magnitude
    fun_cases plainDigits <;> simp
  have scientific : ∀ exponent, exponentText exponent ≠ [] := by
    intro exponent
    fun_cases exponentText <;> simp
  simp only [Decimal.chars]
  split
  · exact List.append_ne_nil_of_right_ne_nil _ (plain _ _ _)
  · exact List.append_ne_nil_of_right_ne_nil _ (scientific _)

/-- The decimals of a value have no trailing zeros. -/
inductive IsNormal : Json → Prop
  | null : IsNormal null
  | bool (value : Bool) : IsNormal (bool value)
  | integer (value : Int) : IsNormal (integer value)
  | decimal {value : Decimal} : value.IsNormal → IsNormal (decimal value)
  | string (value : String) : IsNormal (string value)
  | unpaired : IsNormal unpaired
  | array {items : List Json} : (∀ item ∈ items, IsNormal item) → IsNormal (array items)
  | object {members : List (String × Json)} :
    (∀ member ∈ members, IsNormal member.2) → IsNormal (object members)

/-- A string takes more characters than what follows it. -/
theorem length_lt_writeString (value : String) (rest : List Char) :
    rest.length < (writeString value rest).length := by
  -- The quotes alone make it longer.
  simp only [writeString, List.length_cons, List.length_append]
  omega

mutual

/-- A value takes at least one character. -/
theorem length_lt_write : ∀ (json : Json) (rest : List Char), rest.length < (write json rest).length
  -- Mutual recursion with items and members: every value is written with one character at least.
  | null, rest => by
    simp only [write, List.length_cons]
    omega
  | bool true, rest => by
    simp only [write, List.length_cons]
    omega
  | bool false, rest => by
    simp only [write, List.length_cons]
    omega
  | integer (.ofNat value), rest => by
    have filled := List.length_pos_iff.mpr (digitsOfNat_ne_nil value)
    simp only [write, integerChars, List.length_append]
    omega
  | integer (.negSucc value), rest => by
    simp only [write, integerChars, List.length_append, List.length_cons]
    omega
  | decimal value, rest => by
    have filled := List.length_pos_iff.mpr (chars_ne_nil value)
    simp only [write, List.length_append]
    omega
  | string value, rest => length_lt_writeString value rest
  | unpaired, rest => by
    simp only [write, List.length_cons]
    omega
  | array [], rest => by
    simp only [write, List.length_cons]
    omega
  | array (item :: items), rest => by
    have first := length_lt_write item (writeItems items rest)
    have others := length_lt_writeItems items rest
    simp only [write, List.length_cons]
    omega
  | object [], rest => by
    simp only [write, List.length_cons]
    omega
  | object ((key, value) :: members), rest => by
    have first := length_lt_write value (writeMembers members rest)
    have others := length_lt_writeMembers members rest
    simp only [write, writeString, List.length_cons, List.length_append]
    omega

/-- Items take at least the bracket that closes them. -/
theorem length_lt_writeItems : ∀ (items : List Json) (rest : List Char),
    rest.length < (writeItems items rest).length
  | [], rest => by simp [writeItems]
  | item :: items, rest => by
    have first := length_lt_write item (writeItems items rest)
    have others := length_lt_writeItems items rest
    simp only [writeItems, List.length_cons]
    omega

/-- Members take at least the brace that closes them. -/
theorem length_lt_writeMembers : ∀ (members : List (String × Json)) (rest : List Char),
    rest.length < (writeMembers members rest).length
  | [], rest => by simp [writeMembers]
  | (key, value) :: members, rest => by
    have first := length_lt_write value (writeMembers members rest)
    have others := length_lt_writeMembers members rest
    simp only [writeMembers, writeString, List.length_cons, List.length_append]
    omega

end

/-- Behind an item stands a comma or the bracket that closes the array. -/
theorem follows_writeItems (items : List Json) (rest : List Char) :
    Follows (writeItems items rest) := by
  cases items <;> simp [Follows, writeItems]

/-- Behind a member stands a comma or the brace that closes the object. -/
theorem follows_writeMembers (members : List (String × Json)) (rest : List Char) :
    Follows (writeMembers members rest) := by
  -- The first character that is written decides.
  cases members with
  | nil => simp [Follows, writeMembers]
  | cons member members => simp [Follows, writeMembers]

/--
A value is read back from its text, whatever follows.

Each value and each list takes one unit of fuel for itself, and each has a character of its own.
-/
def ReadsBack (json : Json) : Prop :=
  ∀ (rest : List Char) (fuel : Nat), Follows rest →
    2 * (write json rest).length ≤ fuel + 2 * rest.length →
      Begins (write json rest) ∧ readValue fuel (write json rest) = some (json, rest)

/-- The items of an array are read back if each of them is. -/
theorem readItems_write {item : Json} {items : List Json}
    (each : ∀ one ∈ item :: items, ReadsBack one) (rest : List Char) (fuel : Nat)
    (enough : 2 * (write item (writeItems items rest)).length ≤ fuel + 2 * rest.length) :
    readItems fuel (write item (writeItems items rest)) = some (item :: items, rest) := by
  -- Every item leaves the fuel for those behind it, as its text is at least one character long.
  induction items generalizing item fuel with
  | nil =>
    have taken := length_lt_write item (writeItems [] rest)
    have closed := length_lt_writeItems [] rest
    obtain ⟨fuel, rfl⟩ : ∃ left, fuel = left + 1 := ⟨fuel - 1, by omega⟩
    have first := (each item List.mem_cons_self _ fuel (follows_writeItems [] rest) (by omega)).2
    rw [writeItems] at first ⊢
    simp [readItems, first, skipSpace_cons (show isSpace ']' = false by decide)]
  | cons next more ih =>
    have taken := length_lt_write item (writeItems (next :: more) rest)
    have closed := length_lt_writeItems (next :: more) rest
    obtain ⟨fuel, rfl⟩ : ∃ left, fuel = left + 1 := ⟨fuel - 1, by omega⟩
    have first :=
      (each item List.mem_cons_self _ fuel (follows_writeItems (next :: more) rest) (by omega)).2
    have comma : (writeItems (next :: more) rest).length =
        (write next (writeItems more rest)).length + 1 := by
      simp [writeItems]
    have others := ih (fun one member => each one (List.mem_cons_of_mem _ member)) fuel (by omega)
    rw [writeItems] at first ⊢
    simp [readItems, first, others, skipSpace_cons (show isSpace ',' = false by decide)]

/-- The members of an object are read back if their values are. -/
theorem readMembers_write {key : String} {value : Json} {members : List (String × Json)}
    (each : ∀ one ∈ (key, value) :: members, ReadsBack one.2) (rest : List Char) (fuel : Nat)
    (enough : 2 * (writeString key (':' :: write value (writeMembers members rest))).length
      ≤ fuel + 2 * rest.length) :
    readMembers fuel (writeString key (':' :: write value (writeMembers members rest))) =
      some (((key, value) :: members).map fun (name, value) => (some name, value), rest) := by
  have named := length_lt_writeString key (':' :: write value (writeMembers members rest))
  rw [List.length_cons] at named
  have reads : ReadsBack value := each _ List.mem_cons_self
  -- A member costs no more fuel than its value, as reading its name takes none.
  induction members generalizing key value fuel with
  | nil =>
    have taken := length_lt_write value (writeMembers [] rest)
    have closed := length_lt_writeMembers [] rest
    obtain ⟨fuel, rfl⟩ : ∃ left, fuel = left + 1 := ⟨fuel - 1, by omega⟩
    have first := (reads _ fuel (follows_writeMembers [] rest) (by omega)).2
    rw [writeMembers] at first ⊢
    simp [readMembers, readKey_write, first, skipSpace_cons (show isSpace '\x7d' = false by decide)]
  | cons next more ih =>
    have taken := length_lt_write value (writeMembers (next :: more) rest)
    have closed := length_lt_writeMembers (next :: more) rest
    obtain ⟨fuel, rfl⟩ : ∃ left, fuel = left + 1 := ⟨fuel - 1, by omega⟩
    have first := (reads _ fuel (follows_writeMembers (next :: more) rest) (by omega)).2
    have comma : (writeMembers (next :: more) rest).length = (writeString next.1
        (':' :: write next.2 (writeMembers more rest))).length + 1 := by
      simp [writeMembers]
    have behind := length_lt_writeString next.1 (':' :: write next.2 (writeMembers more rest))
    have others := ih (fun one member => each one (List.mem_cons_of_mem _ member)) fuel (by omega)
      behind (each next (by simp))
    rw [writeMembers] at first ⊢
    simp [readMembers, readKey_write, first, others,
      skipSpace_cons (show isSpace ',' = false by decide)]

/-- The object with names that all stand for a text. -/
theorem objectOf_some (members : List (String × Json)) :
    objectOf (members.map fun (name, value) => (some name, value)) = object members := by
  -- Induction on the members: none of their names is missing.
  have named : (members.map fun (name, value) => (some name, value)).mapM
      (fun member : Option String × Json => member.1.map fun key => (key, member.2)) =
        some members := by
    induction members with
    | nil => rfl
    | cons member members ih => simp [List.mapM_cons, ih]
  simp [objectOf, named]

/-- An array is read back if its items are. -/
theorem readsBack_array {items : List Json} (each : ∀ item ∈ items, ReadsBack item) :
    ReadsBack (array items) := by
  intro rest fuel follows enough
  have taken := length_lt_write (array items) rest
  obtain ⟨fuel, rfl⟩ : ∃ left, fuel = left + 1 := ⟨fuel - 1, by omega⟩
  have bracket : isSpace '[' = false := by decide
  cases items with
  | nil =>
    refine ⟨⟨'[', _, by rw [write], bracket, by decide⟩, ?_⟩
    simp [write, readValue, skipSpace_cons bracket,
      skipSpace_cons (show isSpace ']' = false by decide)]
  | cons item items =>
    refine ⟨⟨'[', _, by rw [write], bracket, by decide⟩, ?_⟩
    rw [write, List.length_cons] at enough
    rw [write, readValue, skipSpace_cons bracket]
    have list := readItems_write each rest fuel (by omega)
    -- The first item does not look like the end of an empty array.
    obtain ⟨⟨c, more, text, solid, closes⟩, -⟩ := each item List.mem_cons_self _
      (2 * (write item (writeItems items rest)).length) (follows_writeItems items rest) (by omega)
    rw [text] at list ⊢
    simp [skipSpace_cons solid, closes, list]

/-- An object is read back if the values of its members are. -/
theorem readsBack_object {members : List (String × Json)}
    (each : ∀ member ∈ members, ReadsBack member.2) : ReadsBack (object members) := by
  intro rest fuel follows enough
  have taken := length_lt_write (object members) rest
  obtain ⟨fuel, rfl⟩ : ∃ left, fuel = left + 1 := ⟨fuel - 1, by omega⟩
  have brace : isSpace '\x7b' = false := by decide
  cases members with
  | nil =>
    refine ⟨⟨'\x7b', _, by rw [write], brace, by decide⟩, ?_⟩
    simp [write, readValue, skipSpace_cons brace,
      skipSpace_cons (show isSpace '\x7d' = false by decide)]
  | cons member members =>
    refine ⟨⟨'\x7b', _, by rw [write], brace, by decide⟩, ?_⟩
    rw [write, List.length_cons] at enough
    rw [write, readValue, skipSpace_cons brace]
    have list := readMembers_write each rest fuel (by omega)
    -- The quote of the first name does not look like the end of an empty object.
    rw [writeString] at list ⊢
    simp only [List.cons_append, skipSpace_cons (show isSpace '"' = false by decide)] at list ⊢
    refine (congrArg (Option.map fun read => (objectOf read.1, read.2)) list).trans ?_
    rw [Option.map_some, objectOf_some]

/-- A value without trailing zeros is read back from its text. -/
theorem readsBack_of_isNormal {json : Json} (isNormal : json.IsNormal) : ReadsBack json := by
  -- A value without parts takes one unit of fuel, and its text is not empty.
  have scalar : ∀ json : Json, (∀ rest fuel, Follows rest → Begins (write json rest) ∧
      readValue (fuel + 1) (write json rest) = some (json, rest)) → ReadsBack json := by
    intro json reads rest fuel follows enough
    have taken := length_lt_write json rest
    obtain ⟨fuel, rfl⟩ : ∃ left, fuel = left + 1 := ⟨fuel - 1, by omega⟩
    exact reads rest fuel follows
  have quote : isSpace '"' = false := by decide
  induction isNormal with
  | null => exact scalar _ fun _ _ _ => ⟨⟨'n', _, by rw [write], by decide, by decide⟩, rfl⟩
  | bool value =>
    cases value with
    | true => exact scalar _ fun _ _ _ => ⟨⟨'t', _, by rw [write], by decide, by decide⟩, rfl⟩
    | false => exact scalar _ fun _ _ _ => ⟨⟨'f', _, by rw [write], by decide, by decide⟩, rfl⟩
  | integer value => exact scalar _ fun rest fuel follows => readValue_integer value follows fuel
  | decimal isNormal =>
    exact scalar _ fun rest fuel follows => readValue_decimal isNormal follows fuel
  | string value =>
    refine scalar _ fun rest fuel _ =>
      ⟨⟨'"', _, by rw [write, writeString, List.cons_append], quote, by decide⟩, ?_⟩
    have read := readString_escaped value.toList rest
    simp [write, writeString, readValue, skipSpace_cons quote, read]
  | unpaired => exact scalar _ fun _ _ _ => ⟨⟨'"', _, by rw [write], quote, by decide⟩, rfl⟩
  | array _ each => exact readsBack_array each
  | object _ each => exact readsBack_object each

/-- A value without trailing zeros is what its text on one line spells. -/
theorem parse?_compact {json : Json} (isNormal : json.IsNormal) :
    parse? json.compact = some json := by
  have follows : Follows [] := by simp [Follows]
  -- At the end of the text nothing follows, and there is fuel for all of it.
  have read := (readsBack_of_isNormal isNormal [] (2 * (write json []).length + 2) follows (by
    omega)).2
  simp [parse?, compact, read, skipSpace]

end Json

end FilterLang
