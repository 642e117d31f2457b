import FilterLang.Json.Printer
import FilterLang.Json.Reader
import FilterLang.Proofs.Number.Digits

/-! Numbers of JSON texts. -/

namespace FilterLang

namespace Json

/-- What may stand behind a value: nothing, or a mark that divides or closes. -/
def Follows (rest : List Char) : Prop :=
  ∀ c ∈ rest.head?, c = ',' ∨ c = ']' ∨ c = '\x7d'

/-- Behind a value stands no digit. -/
theorem Follows.not_isDigit {rest : List Char} (follows : Follows rest) :
    ∀ c ∈ rest.head?, isDigit c = false := by
  -- A comma or a closing bracket, none of which is a digit.
  intro c first
  rcases follows c first with rfl | rfl | rfl <;> decide

/-- Digits that a number may begin with: a zero alone, or digits after another one. -/
def Leads (digits : List Char) : Prop :=
  digits = ['0'] ∨ ∃ first rest, digits = first :: rest ∧ first ≠ '0'

/-- The digits of a number may begin a number. -/
theorem leads_digitsOfNat (value : Nat) : Leads (digitsOfNat value) := by
  -- Zero is one digit; every other number begins with a digit that is not zero.
  by_cases zero : value = 0
  · subst zero
    exact .inl rfl
  · exact .inr (exists_digitsOfNat_cons zero)

/-- Digits behind those that begin a number other than zero change nothing about its beginning. -/
theorem Leads.append {digits : List Char} (leads : Leads digits) (other : digits ≠ ['0'])
    (more : List Char) : Leads (digits ++ more) := by
  -- The first digit stays the first.
  obtain ⟨first, rest, rfl, nonzero⟩ := leads.resolve_left other
  exact .inr ⟨first, rest ++ more, rfl, nonzero⟩

/-- Digits are read up to the first character that is none. -/
theorem readDigits_append {digits rest : List Char} (filled : digits ≠ [])
    (all : ∀ c ∈ digits, isDigit c = true) (ends : ∀ c ∈ rest.head?, isDigit c = false) :
    readDigits (digits ++ rest) = some (digits, rest) := by
  -- All digits are taken, and the character behind them is none.
  have taken : (digits ++ rest).takeWhile isDigit = digits := by
    rw [List.takeWhile_append_of_pos all]
    cases rest with
    | nil => simp
    | cons c rest => simp [ends c rfl]
  have dropped : (digits ++ rest).dropWhile isDigit = rest := by
    rw [List.dropWhile_append_of_pos all]
    cases rest with
    | nil => rfl
    | cons c rest => simp [ends c rfl]
  obtain ⟨first, more, same⟩ := List.exists_cons_of_ne_nil filled
  rw [readDigits, taken, dropped, same]

/-- The whole part of a number is read up to the first character that is no digit. -/
theorem readWhole_append {digits rest : List Char} (leads : Leads digits)
    (all : ∀ c ∈ digits, isDigit c = true) (ends : ∀ c ∈ rest.head?, isDigit c = false) :
    readWhole (digits ++ rest) = some (digits, rest) := by
  rcases leads with rfl | ⟨first, more, rfl, nonzero⟩
  · -- No digit may follow a zero, and none does.
    have alone : rest.head?.any isDigit = false := by
      cases head : rest.head? with
      | none => rfl
      | some c => simpa using ends c head
    simp [readWhole, alone]
  · have read := readDigits_append (List.cons_ne_nil first more) all ends
    rw [List.cons_append] at read ⊢
    rw [readWhole, read]
    exact fun _ same => nonzero (List.cons.inj same).1

/-- The digits behind a point are read. -/
theorem readFraction_point {places rest : List Char} (filled : places ≠ [])
    (all : ∀ c ∈ places, isDigit c = true) (ends : ∀ c ∈ rest.head?, isDigit c = false) :
    readFraction ('.' :: (places ++ rest)) = some (some places, rest) := by
  rw [readFraction, readDigits_append filled all ends, Option.map_some]

/-- Without a point there is no fraction. -/
theorem readFraction_none {rest : List Char} (ends : ∀ c ∈ rest.head?, c ≠ '.') :
    readFraction rest = some (none, rest) := by
  -- The reader's first pattern asks for a point.
  rw [readFraction]
  rintro more rfl
  exact ends '.' rfl rfl

/-- The exponent of a number in scientific form is read. -/
theorem readExponent_text (exponent : Int) {rest : List Char}
    (ends : ∀ c ∈ rest.head?, isDigit c = false) :
    readExponent (exponentText exponent ++ rest) = some (some exponent, rest) := by
  -- The digits of the power are read up to the first character that is none.
  have read : ∀ value, readDigits (digitsOfNat value ++ rest) = some (digitsOfNat value, rest) :=
    fun value => readDigits_append (digitsOfNat_ne_nil value)
      (fun _ member => isDigit_of_mem_digitsOfNat member) ends
  cases exponent with
  | ofNat up => simp [exponentText, readExponent, readPower, read]
  | negSucc down =>
    simp [exponentText, readExponent, readPower, read]
    -- The sign is written apart from the digits, and the value comes back from both.
    omega

/-- Without its mark there is no exponent. -/
theorem readExponent_none {rest : List Char} (ends : ∀ c ∈ rest.head?, c ≠ 'e' ∧ c ≠ 'E') :
    readExponent rest = some (none, rest) := by
  -- The reader's patterns ask for one of two letters.
  rw [readExponent]
  · rintro more rfl
    exact (ends 'e' rfl).1 rfl
  · rintro more rfl
    exact (ends 'E' rfl).2 rfl

/-- Behind a value stands no mark of an exponent. -/
theorem Follows.readExponent {rest : List Char} (follows : Follows rest) :
    readExponent rest = some (none, rest) := by
  -- What may follow a number does not begin an exponent.
  apply readExponent_none
  intro c first
  rcases follows c first with rfl | rfl | rfl <;> decide

/-- Behind a value stands no point. -/
theorem Follows.readFraction {rest : List Char} (follows : Follows rest) :
    readFraction rest = some (none, rest) := by
  -- What may follow a number does not begin a fraction.
  apply readFraction_none
  intro c first
  rcases follows c first with rfl | rfl | rfl <;> decide

/-- A whole number without a sign is read from its digits. -/
theorem readUnsigned_whole (negative : Bool) (value : Nat) {rest : List Char}
    (follows : Follows rest) :
    readUnsigned negative (digitsOfNat value ++ rest) =
      some (numberOf negative (digitsOfNat value) none none, rest) := by
  -- Neither a point nor the mark of an exponent follows.
  have whole := readWhole_append (leads_digitsOfNat value)
    (fun _ member => isDigit_of_mem_digitsOfNat member) follows.not_isDigit
  simp [readUnsigned, whole, follows.readFraction, follows.readExponent]

/-- A number with a fraction is read from its digits on both sides of the point. -/
theorem readUnsigned_fraction (negative : Bool) {whole rest : List Char} (leads : Leads whole)
    {places : List Char} (filled : places ≠ []) (allWhole : ∀ c ∈ whole, isDigit c = true)
    (allPlaces : ∀ c ∈ places, isDigit c = true) (follows : Follows rest) :
    readUnsigned negative (whole ++ '.' :: places ++ rest) =
      some (.decimal (.normal negative (natOfDigits (whole ++ places)) (-places.length)),
        rest) := by
  have point : ∀ c ∈ ('.' :: (places ++ rest)).head?, isDigit c = false := by
    intro c first
    obtain rfl : '.' = c := by simpa using first
    decide
  -- The point ends the whole part, and what follows the number ends the fraction.
  have front := readWhole_append leads allWhole point
  have back := readFraction_point filled allPlaces follows.not_isDigit
  simp [readUnsigned, front, back, follows.readExponent, numberOf]

/-- What a number in scientific form has before its exponent. -/
theorem readUnsigned_scientific (negative : Bool) {digits rest : List Char} (leads : Leads digits)
    (all : ∀ c ∈ digits, isDigit c = true) (exponent : Int) (follows : Follows rest) :
    readUnsigned negative (pointedDigits digits ++ exponentText exponent ++ rest) =
      some (.decimal (.normal negative (natOfDigits digits)
        (exponent - (digits.length - 1 : Nat))), rest) := by
  have power := readExponent_text exponent follows.not_isDigit
  -- The mark of the exponent ends the digits before it and is no point.
  have mark : ∀ c ∈ (exponentText exponent ++ rest).head?, c = 'e' := by
    cases exponent <;> simp [exponentText]
  have ends : ∀ c ∈ (exponentText exponent ++ rest).head?, isDigit c = false := by
    intro c first
    rw [mark c first]
    decide
  match digits, leads, all with
  | [], leads, _ => simp [Leads] at leads
  | [single], leads, all =>
    have front := readWhole_append leads all ends
    have bare : readFraction (exponentText exponent ++ rest) =
        some (none, exponentText exponent ++ rest) := by
      apply readFraction_none
      intro c first
      rw [mark c first]
      decide
    simp only [List.singleton_append] at front
    simp [readUnsigned, pointedDigits, front, bare, power, numberOf]
  | first :: second :: more, leads, all =>
    -- The point stands behind the first digit, which is no zero as others follow it.
    have nonzero : Leads [first] := by
      rcases leads with single | ⟨digit, others, same, nonzero⟩
      · simp at single
      · obtain ⟨rfl, rfl⟩ := List.cons.inj same
        exact .inr ⟨first, [], rfl, nonzero⟩
    have point : ∀ c ∈ ('.' :: (second :: more ++ (exponentText exponent ++ rest))).head?,
        isDigit c = false := by
      intro c head
      obtain rfl : '.' = c := by simpa using head
      decide
    have front := readWhole_append nonzero (by simpa using all first (by simp)) point
    have back := readFraction_point (List.cons_ne_nil second more)
      (fun c member => all c (by simp [member])) ends
    simp only [List.cons_append, List.nil_append] at front back
    simp [readUnsigned, pointedDigits, front, back, power, numberOf]

end Json

namespace Decimal

variable {value : Decimal} {rest : List Char}

/-- The magnitude of a decimal is the power of ten of its first digit. -/
theorem magnitude_eq (value : Decimal) :
    value.magnitude = (digitsOfNat value.digits).length - 1 + value.exponent := by
  simp only [magnitude]
  omega

/-- Zeros are digits. -/
theorem isDigit_of_mem_zeros (count : Nat) : ∀ c ∈ List.replicate count '0', isDigit c = true := by
  intro c member
  rw [List.eq_of_mem_replicate member]
  decide

/-- A whole number is read back from its digits, its zeros and one more zero behind a point. -/
theorem readUnsigned_whole (isNormal : value.IsNormal) {up : Nat} (power : value.exponent = up)
    (follows : Json.Follows rest) :
    Json.readUnsigned value.negative
      (digitsOfNat value.digits ++ List.replicate up '0' ++ '.' :: ['0'] ++ rest) =
      some (.decimal value, rest) := by
  -- Zero has no power of ten in normal form, so no zeros are put behind it.
  have front : Json.Leads (digitsOfNat value.digits ++ List.replicate up '0') := by
    by_cases zero : value.digits = 0
    · have none : value.exponent = 0 := isNormal.exponent_eq zero
      obtain rfl : up = 0 := by omega
      simpa using Json.leads_digitsOfNat value.digits
    · refine (Json.leads_digitsOfNat value.digits).append ?_ _
      intro same
      have spelled := natOfDigits_digitsOfNat value.digits
      rw [same] at spelled
      exact zero spelled.symm
  have whole : ∀ c ∈ digitsOfNat value.digits ++ List.replicate up '0', isDigit c = true := by
    intro c member
    rcases List.mem_append.mp member with digit | zero
    · exact isDigit_of_mem_digitsOfNat digit
    · exact isDigit_of_mem_zeros up c zero
  have read := Json.readUnsigned_fraction value.negative front (List.cons_ne_nil '0' []) whole
    (isDigit_of_mem_zeros 1) follows
  -- The zeros behind the digits and the one behind the point belong to the power of ten.
  have spelled : natOfDigits (digitsOfNat value.digits ++ List.replicate up '0' ++ ['0']) =
      value.digits * 10 ^ (up + 1) := by
    rw [natOfDigits_append, natOfDigits_append, natOfDigits_digitsOfNat, natOfDigits_replicate]
    simp [natOfDigits, Nat.pow_succ, Nat.mul_assoc]
  have exponent : -(['0'].length : Int) + (up + 1 : Nat) = value.exponent := by simp [power]
  rwa [spelled, normal_mul_pow, exponent, ← isNormal] at read

/-- A broken number above one is read back from its digits with the point among them. -/
theorem readUnsigned_broken (isNormal : value.IsNormal) (broken : value.exponent < 0) {lead : Nat}
    (leading : value.magnitude = lead) (follows : Json.Follows rest) :
    Json.readUnsigned value.negative
      ((digitsOfNat value.digits).take (lead + 1) ++ '.' ::
        (digitsOfNat value.digits).drop (lead + 1) ++ rest) = some (.decimal value, rest) := by
  have nonzero : value.digits ≠ 0 := by
    intro zero
    have none := isNormal.exponent_eq zero
    omega
  have length := magnitude_eq value
  -- At least one digit stands behind the point, as the last one counts less than one.
  have behind : lead + 1 < (digitsOfNat value.digits).length := by omega
  obtain ⟨first, others, same, notZero⟩ := exists_digitsOfNat_cons nonzero
  have front : Json.Leads ((digitsOfNat value.digits).take (lead + 1)) :=
    .inr ⟨first, others.take lead, by rw [same, List.take_succ_cons], notZero⟩
  have read := Json.readUnsigned_fraction value.negative front
    (mt List.drop_eq_nil_iff.mp (Nat.not_le.mpr behind))
    (fun _ member => isDigit_of_mem_digitsOfNat (List.mem_of_mem_take member))
    (fun _ member => isDigit_of_mem_digitsOfNat (List.mem_of_mem_drop member)) follows
  have exponent : -(((digitsOfNat value.digits).drop (lead + 1)).length : Int) =
      value.exponent := by
    rw [List.length_drop]
    omega
  rwa [List.take_append_drop, natOfDigits_digitsOfNat, exponent, ← isNormal] at read

/-- A number below one is read back from its digits behind a point and zeros. -/
theorem readUnsigned_small (isNormal : value.IsNormal) {gap : Nat}
    (small : value.magnitude = -(gap + 1 : Nat)) (follows : Json.Follows rest) :
    Json.readUnsigned value.negative
      (['0'] ++ '.' :: (List.replicate gap '0' ++ digitsOfNat value.digits) ++ rest) =
      some (.decimal value, rest) := by
  have length := magnitude_eq value
  have behind : List.replicate gap '0' ++ digitsOfNat value.digits ≠ [] := by
    simp [digitsOfNat_ne_nil]
  have places : ∀ c ∈ List.replicate gap '0' ++ digitsOfNat value.digits, isDigit c = true := by
    intro c member
    rcases List.mem_append.mp member with zero | digit
    · exact isDigit_of_mem_zeros gap c zero
    · exact isDigit_of_mem_digitsOfNat digit
  have read := Json.readUnsigned_fraction value.negative (.inl rfl) behind
    (isDigit_of_mem_zeros 1) places follows
  -- Zeros before the digits spell nothing, but each counts as a place.
  have spelled : natOfDigits (['0'] ++ (List.replicate gap '0' ++ digitsOfNat value.digits)) =
      value.digits := by
    rw [natOfDigits_append, natOfDigits_append, natOfDigits_digitsOfNat, natOfDigits_replicate]
    simp [natOfDigits]
  have exponent : -((List.replicate gap '0' ++ digitsOfNat value.digits).length : Int) =
      value.exponent := by
    rw [List.length_append, List.length_replicate]
    omega
  rwa [spelled, exponent, ← isNormal] at read

/-- A plain decimal is read back from its digits, zeros and point. -/
theorem readUnsigned_plain (isNormal : value.IsNormal) (follows : Json.Follows rest) :
    Json.readUnsigned value.negative
      (plainDigits (digitsOfNat value.digits) value.exponent value.magnitude ++ rest) =
      some (.decimal value, rest) := by
  -- Three layouts, by where the point falls: behind all digits, among them or before them.
  cases power : value.exponent with
  | ofNat up => simpa [plainDigits, zeroDigits] using readUnsigned_whole isNormal power follows
  | negSucc down =>
    cases place : value.magnitude with
    | ofNat lead =>
      have broken : value.exponent < 0 := by
        rw [power]
        exact Int.negSucc_lt_zero down
      simpa [plainDigits] using readUnsigned_broken isNormal broken place follows
    | negSucc gap => simpa [plainDigits, zeroDigits] using readUnsigned_small isNormal place follows

/-- A decimal in scientific form is read back from its digits and its magnitude. -/
theorem readUnsigned_pointed (isNormal : value.IsNormal) (follows : Json.Follows rest) :
    Json.readUnsigned value.negative
      (pointedDigits (digitsOfNat value.digits) ++ exponentText value.magnitude ++ rest) =
      some (.decimal value, rest) := by
  have read := Json.readUnsigned_scientific value.negative (Json.leads_digitsOfNat value.digits)
    (fun _ member => isDigit_of_mem_digitsOfNat member) value.magnitude follows
  -- The point moves the digits behind the first one below the magnitude.
  have filled : 0 < (digitsOfNat value.digits).length := Nat.length_toDigits_pos
  have exponent : value.magnitude - ((digitsOfNat value.digits).length - 1 : Nat) =
      value.exponent := by
    simp only [magnitude]
    omega
  rwa [natOfDigits_digitsOfNat, exponent, ← isNormal] at read

end Decimal

end FilterLang
