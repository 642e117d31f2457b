import FilterLang.Number.Literal
import FilterLang.Proofs.Token.Scan
import Mathlib.Data.List.TakeWhile

/-! The numbers cut from a text are written in digits with at most one point; all can be read. -/

namespace FilterLang

/-- Digits, at least one of them, and perhaps a point with at least one digit behind it. -/
inductive Unsigned : List Char → Prop where
  | whole {digits : List Char} (filled : digits ≠ []) (all : ∀ c ∈ digits, isDigit c = true) :
      Unsigned digits
  | broken {digits places : List Char} (filled : digits ≠ [])
      (all : ∀ c ∈ digits, isDigit c = true) (follow : places ≠ [])
      (others : ∀ c ∈ places, isDigit c = true) : Unsigned (digits ++ '.' :: places)

/-- A number as queries write it: a sign for negative ones only. -/
inductive Numeral : List Char → Prop where
  | positive {cs : List Char} (unsigned : Unsigned cs) : Numeral cs
  | negative {cs : List Char} (unsigned : Unsigned cs) : Numeral ('-' :: cs)

/-- What is written in digits is a decimal, taken as a whole. -/
theorem Unsigned.readDecimal?_isSome {cs : List Char} (unsigned : Unsigned cs) (negative : Bool) :
    (readDecimal? negative cs).isSome = true := by
  -- The reader takes all digits, then a point, then all digits again; both forms end there.
  have noDigit : isDigit '.' = false := by decide
  cases unsigned with
  | whole filled all =>
    have run : cs.takeWhile isDigit = cs := List.takeWhile_eq_self_iff.mpr all
    have rest : cs.dropWhile isDigit = [] := List.dropWhile_eq_nil_iff.mpr all
    simp [readDecimal?, run, rest, readPlaces, readExponent, filled]
  | @broken digits places filled all follow others =>
    have run : (digits ++ '.' :: places).takeWhile isDigit = digits := by
      rw [List.takeWhile_append_of_pos all]
      simp [noDigit]
    have rest : (digits ++ '.' :: places).dropWhile isDigit = '.' :: places := by
      rw [List.dropWhile_append_of_pos all]
      simp [noDigit]
    have behind : places.takeWhile isDigit = places := List.takeWhile_eq_self_iff.mpr others
    have none : places.dropWhile isDigit = [] := List.dropWhile_eq_nil_iff.mpr others
    simp [readDecimal?, run, rest, readPlaces, behind, none, readExponent, filled]

/-- What is written in digits is a number, be it too large or not. -/
theorem Unsigned.exists_reading {cs : List Char} (unsigned : Unsigned cs) (negative : Bool) :
    ∃ reading, readMagnitude negative cs = .ok reading := by
  -- A decimal is read, and it is within the range of doubles or beyond it.
  obtain ⟨decimal, read⟩ := Option.isSome_iff_exists.mp (unsigned.readDecimal?_isSome negative)
  unfold readMagnitude
  simp only [read]
  cases Binary64.ofDecimal? decimal with
  | some value => exact ⟨_, rfl⟩
  | none => exact ⟨_, rfl⟩

/-- Digits begin with a digit. -/
theorem Unsigned.exists_cons {cs : List Char} (unsigned : Unsigned cs) :
    ∃ c rest, cs = c :: rest ∧ isDigit c = true := by
  -- Both forms begin with a digit of their own.
  cases unsigned with
  | whole filled all =>
    obtain ⟨c, rest, rfl⟩ := List.exists_cons_of_ne_nil filled
    exact ⟨c, rest, rfl, all c List.mem_cons_self⟩
  | broken filled all follow others =>
    obtain ⟨c, rest, rfl⟩ := List.exists_cons_of_ne_nil filled
    exact ⟨c, _, rfl, all c List.mem_cons_self⟩

/-- A number as queries write it can be read. -/
theorem Numeral.exists_reading {cs : List Char} (numeral : Numeral cs) :
    ∃ reading, readNumberText cs = .ok reading := by
  cases numeral with
  | negative unsigned => exact unsigned.exists_reading true
  | positive unsigned =>
    obtain ⟨reading, read⟩ := unsigned.exists_reading false
    obtain ⟨c, rest, rfl, digit⟩ := unsigned.exists_cons
    -- A digit is no sign.
    refine ⟨reading, ?_⟩
    unfold readNumberText
    split
    · rename_i same
      cases same
    · rename_i same
      cases same
      cases digit
    · rename_i same
      cases same
      cases digit
    · exact read

/-- What a number takes behind its first character continues the digits. -/
theorem take_numberTail (cs : List Char) : ∃ digits places,
    cs.take (numberTail cs) = digits ++ places ∧ (∀ c ∈ digits, isDigit c = true) ∧
      (cs.head?.any isDigit = true → digits ≠ []) ∧
      (places = [] ∨ ∃ run, run ≠ [] ∧ (∀ c ∈ run, isDigit c = true) ∧ places = '.' :: run) := by
  obtain ⟨digits, back, rfl, all, stops⟩ := exists_digits cs
  have filled : (digits ++ back).head?.any isDigit = true → digits ≠ [] := by
    rintro first rfl
    cases back with
    | nil => cases first
    | cons c back => simp [stops c rfl] at first
  rw [numberTail_digits all, List.take_length_add_append]
  refine ⟨digits, back.take (numberTail back), rfl, all, filled, ?_⟩
  cases back with
  | nil => exact .inl rfl
  | cons c back =>
    by_cases point : c = '.'
    · subst point
      rw [numberTail_point]
      split
      · exact .inl rfl
      · rename_i some
        -- Behind the point stands the whole run of digits.
        have run : back.take (back.takeWhile isDigit).length = back.takeWhile isDigit :=
          List.prefix_iff_eq_take.mp (List.takeWhile_prefix _) |>.symm
        refine .inr ⟨back.takeWhile isDigit, ?_, ?_, by simp [run]⟩
        · exact fun none => some (by simp [none])
        · exact fun c member => List.all_eq_true.mp List.all_takeWhile c member
    · rw [numberTail_other (stops c rfl) point]
      exact .inl rfl

/-- Digits and what a number takes behind them are written in digits. -/
theorem unsigned_append {digits places : List Char} (filled : digits ≠ [])
    (all : ∀ c ∈ digits, isDigit c = true)
    (behind : places = [] ∨ ∃ run, run ≠ [] ∧ (∀ c ∈ run, isDigit c = true) ∧ places = '.' :: run) :
    Unsigned (digits ++ places) := by
  -- The places are missing, or there is a run of them behind a point.
  rcases behind with rfl | ⟨run, follow, others, rfl⟩
  · rw [List.append_nil]
    exact .whole filled all
  · exact .broken filled all follow others

/-- A word is never a number. -/
theorem ofWord_ne_number (word : List Char) (raw : String) :
    TokenKind.ofWord word ≠ .number raw := by
  -- Words are keywords or names.
  unfold TokenKind.ofWord
  split <;> nofun

/-- What is cut off as a number is written as one. -/
theorem lexeme_numeral {c : Char} {cs : List Char} {raw : String} {more : Nat}
    (cut : lexeme c cs = (.number raw, more)) : Numeral raw.toList := by
  revert cut
  -- Only a digit, or a minus sign before one, begins a number.
  fun_cases lexeme c cs with
  | case10 c number =>
    rw [if_pos number]
    intro cut
    obtain ⟨rfl, -⟩ : lexemeText c cs (numberTail cs) = raw ∧ numberTail cs = more := by
      simpa using cut
    obtain ⟨digits, places, taken, all, filled, behind⟩ := take_numberTail cs
    rw [lexemeText, String.toList_ofList, taken]
    rcases (Bool.or_eq_true _ _).mp number with digit | sign
    · refine .positive ?_
      rw [← List.cons_append]
      exact unsigned_append (by simp) (List.forall_mem_cons.mpr ⟨digit, all⟩) behind
    · obtain ⟨minus, first⟩ := (Bool.and_eq_true _ _).mp sign
      rw [beq_iff_eq] at minus
      subst minus
      exact .negative (unsigned_append (filled first) all behind)
  | case5 | case6 | case7 =>
    intro cut
    unfold beforeEqual at cut
    split at cut <;> cases cut
  | case11 c number word =>
    rw [if_neg number, if_pos word]
    intro cut
    exact absurd (Prod.mk.inj cut).1 (ofWord_ne_number _ raw)
  | case12 c number word =>
    rw [if_neg number, if_neg word]
    simp
  | _ => simp

/-- A token that is no number, or one that is written as a number. -/
def Token.WellNumbered (token : Token) : Prop :=
  ∀ raw, token.kind = .number raw → Numeral raw.toList

/-- Every number cut from a part of a text is written as one. -/
theorem Scans.wellNumbered {offset : Nat} {front rest : List Char} {tokens : List Token}
    (scanned : Scans offset front tokens rest) : ∀ token ∈ tokens, token.WellNumbered := by
  -- Numbers are only made of what the scanner takes for a numeral.
  apply scanned.forall_kind fun kind => ∀ raw, kind = .number raw → Numeral raw.toList
  intro c cs raw number
  exact lexeme_numeral (Prod.ext number rfl)

end FilterLang
