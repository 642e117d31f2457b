import FilterLang.Token.Lexer

/-! Cutting a text into tokens piece by piece. -/

namespace FilterLang

/-- Whether a character ends every token but a string that stands open before it. -/
def separates (c : Char) : Bool :=
  !continuesWord c && c != '='

/-- Whether a text lengthens no token but an open string before it. -/
def Apart (rest : List Char) : Prop :=
  ∀ c ∈ rest.head?, separates c = true

/-- A text that begins with a separating character stands apart. -/
theorem apart_cons {c : Char} (separating : separates c = true) (rest : List Char) :
    Apart (c :: rest) := by
  -- Only the first character counts.
  intro first same
  simp only [List.head?_cons, Option.mem_some_iff] at same
  exact same ▸ separating

/-- A separating character continues no word. -/
theorem not_continuesWord_of_apart {rest : List Char} (apart : Apart rest) :
    ∀ c ∈ rest.head?, continuesWord c = false := by
  -- A character that separates goes on with no word.
  intro c first
  have separating := apart c first
  simp only [separates, Bool.and_eq_true, Bool.not_eq_true'] at separating
  exact separating.1

/-- A separating character is no digit. -/
theorem not_isDigit_of_apart {rest : List Char} (apart : Apart rest) :
    ∀ c ∈ rest.head?, isDigit c = false := by
  -- Digits go on with words, so what separates is none.
  intro c first
  have other := not_continuesWord_of_apart apart c first
  simp only [continuesWord, Bool.or_eq_false_iff] at other
  exact other.1.1.1.2

/-- A run that ends within a text ends there whatever follows that does not continue it. -/
theorem takeWhile_stable {p : Char → Bool} {mid rest other : List Char}
    (within : ((mid ++ rest).takeWhile p).length ≤ mid.length)
    (stops : ∀ c ∈ other.head?, p c = false) :
    (mid ++ other).takeWhile p = (mid ++ rest).takeWhile p := by
  rw [List.takeWhile_append, List.takeWhile_append] at *
  split
  · rename_i whole
    -- The run covers the whole text, so nothing that followed belonged to it.
    have none : rest.takeWhile p = [] := by
      rw [if_pos whole, List.length_append] at within
      exact List.eq_nil_of_length_eq_zero (by omega)
    have nothing : other.takeWhile p = [] := by
      cases other with
      | nil => rfl
      | cons c cs => simp [stops c rfl]
    rw [none, nothing]
  · rfl

/-- Every text is a run of digits and a rest that begins with none. -/
theorem exists_digits (cs : List Char) : ∃ digits back, cs = digits ++ back ∧
    (∀ c ∈ digits, isDigit c = true) ∧ ∀ c ∈ back.head?, isDigit c = false := by
  -- The digits in front are as many as there are, so none follows them.
  refine ⟨cs.takeWhile isDigit, cs.dropWhile isDigit, (List.takeWhile_append_dropWhile).symm,
    fun c member => List.all_eq_true.mp List.all_takeWhile c member, ?_⟩
  intro c first
  have dropped := List.head?_dropWhile_not isDigit cs
  simp_all

/-- Leading digits are counted into a number one by one. -/
theorem numberTail_digits {digits : List Char} (all : ∀ c ∈ digits, isDigit c = true)
    (cs : List Char) : numberTail (digits ++ cs) = digits.length + numberTail cs := by
  have run : (digits ++ cs).takeWhile isDigit = digits ++ cs.takeWhile isDigit :=
    List.takeWhile_append_of_pos all
  have after : (digits ++ cs).drop (digits.length + (cs.takeWhile isDigit).length)
      = cs.drop (cs.takeWhile isDigit).length := by
    rw [List.drop_append]
    simp
  -- Both sides look at the same characters behind the digits, so they take the same branch.
  simp only [numberTail, run, List.length_append, after]
  split
  · split <;> omega
  · rfl

/-- A point is counted into a number together with the digits behind it, if there are any. -/
theorem numberTail_point (cs : List Char) :
    numberTail ('.' :: cs) =
      if (cs.takeWhile isDigit).length = 0 then 0 else (cs.takeWhile isDigit).length + 1 := by
  -- Whether a digit follows decides the case.
  have noDigit : isDigit '.' = false := by decide
  cases cs with
  | nil => rfl
  | cons d cs =>
    cases digit : isDigit d with
    | false => simp [numberTail, noDigit, digit]
    | true =>
      simp [numberTail, noDigit, digit]
      omega

/-- Any other character ends a number. -/
theorem numberTail_other {c : Char} (noDigit : isDigit c = false) (noPoint : c ≠ '.')
    (cs : List Char) : numberTail (c :: cs) = 0 := by
  simp [numberTail, noDigit, noPoint]

/-- A number is not lengthened by a text that stands apart. -/
theorem numberTail_apart {rest : List Char} (apart : Apart rest) : numberTail rest = 0 := by
  cases rest with
  | nil => rfl
  | cons c cs =>
    apply numberTail_other (not_isDigit_of_apart apart c rfl)
    -- A point continues a word, so it does not stand first here.
    rintro rfl
    exact absurd (not_continuesWord_of_apart apart '.' rfl) (by decide)

/-- The end of a number within a text does not change with what stands apart behind the text. -/
theorem numberTail_stable {mid rest other : List Char}
    (within : numberTail (mid ++ rest) ≤ mid.length) (apart : Apart other) :
    numberTail (mid ++ other) = numberTail (mid ++ rest) := by
  -- The leading digits count alike on both sides, so what comes after them decides.
  obtain ⟨digits, back, rfl, all, stops⟩ := exists_digits mid
  simp only [List.append_assoc, numberTail_digits all, List.length_append] at within ⊢
  congr 1
  cases back with
  | nil =>
    -- The number ends with the digits, and nothing that stands apart lengthens it.
    simp only [List.nil_append, List.length_nil] at within ⊢
    rw [numberTail_apart apart]
    omega
  | cons c back =>
    have noDigit : isDigit c = false := stops c rfl
    simp only [List.cons_append, List.length_cons] at within ⊢
    by_cases point : c = '.'
    · -- Behind a point the digits end within the text, so they end there in both texts.
      subst point
      rw [numberTail_point] at within
      have run : (back ++ other).takeWhile isDigit = (back ++ rest).takeWhile isDigit :=
        takeWhile_stable (by split at within <;> omega) (not_isDigit_of_apart apart)
      simp only [numberTail_point, run]
    · rw [numberTail_other noDigit point, numberTail_other noDigit point]

/-- A closed string takes at least its closing quote. -/
theorem stringTail?_pos {cs : List Char} {more : Nat} (closed : stringTail? cs = some more) :
    0 < more := by
  -- Every way to close a string takes one character at least.
  revert closed
  fun_cases stringTail? cs with
  | case1 => simp
  | case2 cs => simp only [Option.some.injEq]; omega
  | case3 => simp
  | case4 c cs => simp only [Option.map_eq_some_iff]; omega
  | case5 c cs => simp only [Option.map_eq_some_iff]; omega

/-- A character that is neither a quote nor a backslash is counted by itself. -/
theorem stringTail?_plain {c : Char} (noQuote : c ≠ '"') (noEscape : c ≠ '\\') (cs : List Char) :
    stringTail? (c :: cs) = (stringTail? cs).map (· + 1) := by
  simp [stringTail?, noEscape]

/-- A string that is closed within a text is closed there whatever follows the text. -/
theorem stringTail?_stable {mid rest : List Char} (other : List Char) {more : Nat}
    (closed : stringTail? (mid ++ rest) = some more) (within : more ≤ mid.length) :
    stringTail? (mid ++ other) = some more := by
  fun_induction stringTail? mid generalizing more with
  | case1 =>
    -- An empty text has no room for a closing quote.
    have positive := stringTail?_pos closed
    simp at within
    omega
  | case2 cs => simpa [stringTail?] using closed
  | case3 =>
    -- A backslash at the end would take a character of what follows.
    cases rest with
    | nil => simp [stringTail?] at closed
    | cons c cs =>
      simp only [List.cons_append, List.nil_append, stringTail?, Option.map_eq_some_iff] at closed
      obtain ⟨tail, -, rfl⟩ := closed
      simp at within
  | case4 c cs ih =>
    simp only [List.cons_append, stringTail?, Option.map_eq_some_iff] at closed ⊢
    obtain ⟨tail, closed, rfl⟩ := closed
    exact ⟨tail, ih closed (by simpa using within), rfl⟩
  | case5 c cs noQuote noEnd noEscape ih =>
    have plain : c ≠ '\\' := by
      rintro rfl
      cases cs with
      | nil => exact noEnd rfl rfl
      | cons d cs => exact noEscape d cs rfl rfl
    simp only [List.cons_append, stringTail?_plain noQuote plain, Option.map_eq_some_iff]
      at closed ⊢
    obtain ⟨tail, closed, rfl⟩ := closed
    exact ⟨tail, ih closed (by simpa using within), rfl⟩

/-- A closed string ends within the text. -/
theorem stringTail?_length {cs : List Char} {more : Nat} (closed : stringTail? cs = some more) :
    more ≤ cs.length := by
  -- Induction as the string is read: nothing is counted that is not there.
  fun_induction stringTail? cs generalizing more with
  | case1 => simp at closed
  | case2 cs => simp at closed; simp [← closed]
  | case3 => simp at closed
  | case4 c cs ih =>
    obtain ⟨tail, inner, rfl⟩ := Option.map_eq_some_iff.mp closed
    have bound := ih inner
    simp only [List.length_cons]
    omega
  | case5 c cs _ _ _ ih =>
    obtain ⟨tail, inner, rfl⟩ := Option.map_eq_some_iff.mp closed
    have bound := ih inner
    simp only [List.length_cons]
    omega

/-- A number ends within the text. -/
theorem numberTail_length (cs : List Char) : numberTail cs ≤ cs.length := by
  -- Digits, then a point with digits behind it, and all of them are there.
  obtain ⟨digits, back, rfl, all, stops⟩ := exists_digits cs
  rw [numberTail_digits all, List.length_append]
  cases back with
  | nil => simp [numberTail]
  | cons c back =>
    by_cases point : c = '.'
    · subst point
      have run : (back.takeWhile isDigit).length ≤ back.length :=
        (List.takeWhile_sublist isDigit).length_le
      rw [numberTail_point, List.length_cons]
      split <;> omega
    · rw [numberTail_other (stops c rfl) point]
      omega

/-- A mark is lengthened by an equals sign right behind it and by nothing else. -/
theorem beforeEqual_eq (cs : List Char) (long short : TokenKind) :
    beforeEqual cs long short = if cs.head? = some '=' then (long, 1) else (short, 0) := by
  -- The two forms differ in the next character alone.
  fun_cases beforeEqual cs long short with
  | case1 cs => rfl
  | case2 cs other =>
    rw [if_neg]
    cases cs with
    | nil => simp
    | cons c cs => simpa using fun same => other cs (by rw [same])

/-- A lengthened mark ends within the text. -/
theorem beforeEqual_length (cs : List Char) (long short : TokenKind) :
    (beforeEqual cs long short).2 ≤ cs.length := by
  fun_cases beforeEqual cs long short <;> simp

/-- A mark that ends within a text is not lengthened by what stands apart behind the text. -/
theorem beforeEqual_stable {mid rest other : List Char} {long short : TokenKind}
    (within : (beforeEqual (mid ++ rest) long short).2 ≤ mid.length) (apart : Apart other) :
    beforeEqual (mid ++ other) long short = beforeEqual (mid ++ rest) long short := by
  simp only [beforeEqual_eq] at within ⊢
  cases mid with
  | cons c mid => rfl
  | nil =>
    -- The mark is the last of the text, so it was not lengthened, and is not by what comes now.
    have noEqual : other.head? ≠ some '=' := fun first =>
      absurd (apart '=' first) (by decide)
    simp only [List.nil_append, if_neg noEqual] at within ⊢
    split at within
    · simp at within
    · rename_i single
      rw [if_neg single]

/-- A token ends within the text. -/
theorem lexeme_length (c : Char) (cs : List Char) : (lexeme c cs).2 ≤ cs.length := by
  -- One case for each kind of lexeme; all but the longer ones take nothing more.
  fun_cases lexeme c cs with
  | case5 | case6 | case7 => exact beforeEqual_length cs _ _
  | case8 more closed => exact stringTail?_length closed
  | case9 => exact Nat.le_refl _
  | case10 c number =>
    rw [if_pos number]
    exact numberTail_length cs
  | case11 c number word =>
    rw [if_neg number, if_pos word]
    exact (List.takeWhile_sublist continuesWord).length_le
  | case12 c number word =>
    rw [if_neg number, if_neg word]
    exact Nat.zero_le _
  | _ => exact Nat.zero_le _

/-- A text that stands apart begins with no digit. -/
theorem head_not_isDigit {rest : List Char} (apart : Apart rest) :
    Option.any isDigit rest.head? = false := by
  -- Digits do not separate.
  cases first : rest.head? with
  | none => rfl
  | some c => simpa using not_isDigit_of_apart apart c first

/-- A character that begins no number does not come to begin one by what stands apart. -/
theorem not_number_stable {c : Char} {mid rest other : List Char}
    (number : ¬ (isDigit c || c == '-' && Option.any isDigit (mid ++ rest).head?) = true)
    (apart : Apart other) :
    ¬ (isDigit c || c == '-' && Option.any isDigit (mid ++ other).head?) = true := by
  -- A minus becomes a number by the next character, which is the same or separates.
  cases mid with
  | cons d mid => exact number
  | nil =>
    rw [Bool.not_eq_true, Bool.or_eq_false_iff] at number ⊢
    exact ⟨number.1, by rw [List.nil_append, head_not_isDigit apart, Bool.and_false]⟩

/-- A minus sign begins a number in both texts or in none, if a number ends within the first. -/
theorem head_isDigit_stable {mid rest other : List Char}
    (within : numberTail (mid ++ rest) ≤ mid.length) (apart : Apart other) :
    Option.any isDigit (mid ++ other).head? = Option.any isDigit (mid ++ rest).head? := by
  cases mid with
  | cons c mid => rfl
  | nil =>
    simp only [List.nil_append, List.length_nil, Nat.le_zero_eq] at within ⊢
    rw [head_not_isDigit apart]
    cases rest with
    | nil => rfl
    | cons d rest =>
      -- A digit in front would be counted.
      by_cases digit : isDigit d = true
      · have counted : numberTail ([d] ++ rest) = [d].length + numberTail rest :=
          numberTail_digits (by simpa using digit) rest
        simp only [List.singleton_append, within, List.length_singleton] at counted
        omega
      · simp [digit]

/-- A token that ends within a text is the same whatever stands apart behind the text. -/
theorem lexeme_stable {c : Char} {mid rest other : List Char}
    (within : (lexeme c (mid ++ rest)).2 ≤ mid.length)
    (closed : (lexeme c (mid ++ rest)).1 ≠ .unterminated) (apart : Apart other) :
    lexeme c (mid ++ other) = lexeme c (mid ++ rest) := by
  revert within closed
  -- Each kind of token asks again for its own end, which lies within the common text.
  fun_cases lexeme c (mid ++ rest) with
  | case5 | case6 | case7 => exact fun within _ => beforeEqual_stable within apart
  | case8 more tail =>
    intro within _
    have taken : ∀ text : List Char, (mid ++ text).take more = mid.take more := by
      intro text
      exact List.take_append_of_le_length within
    simp only [lexeme, stringTail?_stable other tail within, lexemeText, taken]
  -- A string left open is the one token that anything behind it would lengthen.
  | case9 => simp
  | case10 c number =>
    intro within _
    rw [if_pos number] at within ⊢
    have still : (isDigit c || c == '-' && Option.any isDigit (mid ++ other).head?) = true := by
      rw [head_isDigit_stable within apart]
      exact number
    simp only [lexeme, if_pos still, numberTail_stable within apart, lexemeText,
      List.take_append_of_le_length within]
  | case11 c number word =>
    intro within _
    rw [if_neg number, if_pos word] at within ⊢
    have still := not_number_stable number apart
    have run := takeWhile_stable within (not_continuesWord_of_apart apart)
    simp only [lexeme, if_neg still, if_pos word, run, List.take_append_of_le_length within]
  | case12 c number word =>
    intro within _
    rw [if_neg number, if_neg word] at within ⊢
    have still := not_number_stable number apart
    simp only [lexeme, if_neg still, if_neg word]
  | _ => exact fun _ _ => rfl

/--
A front text is cut into tokens, given the text that follows it.

The front ends where a token or white space ends; `offset` is where it begins.
-/
inductive Scans : Nat → List Char → List Token → List Char → Prop where
  | done {offset : Nat} {rest : List Char} : Scans offset [] [] rest
  | blank {offset : Nat} {c : Char} {cs : List Char} {tokens : List Token} {rest : List Char}
      (space : isBlank c = true) (scanned : Scans (offset + c.utf8Size) cs tokens rest) :
      Scans offset (c :: cs) tokens rest
  | token {offset : Nat} {c : Char} {body cs : List Char} {kind : TokenKind} {tokens : List Token}
      {rest : List Char} (solid : isBlank c = false)
      (cut : lexeme c (body ++ (cs ++ rest)) = (kind, body.length))
      (scanned : Scans (offset + byteLength (c :: body)) cs tokens rest) :
      Scans offset (c :: (body ++ cs))
        (⟨kind, ⟨offset, offset + byteLength (c :: body)⟩⟩ :: tokens) rest

/-- What holds of all that can be cut off holds of every token. -/
theorem Scans.forall_kind {offset : Nat} {front rest : List Char} {tokens : List Token}
    (scanned : Scans offset front tokens rest) (holds : TokenKind → Prop)
    (each : ∀ c cs, holds (lexeme c cs).1) : ∀ token ∈ tokens, holds token.kind := by
  -- Induction on the scan: every token was cut as a lexeme.
  induction scanned with
  | done => nofun
  | blank space scanned ih => exact ih
  | @token offset c body cs kind tokens rest solid cut scanned ih =>
    have first := each c (body ++ (cs ++ rest))
    rw [cut] at first
    exact List.forall_mem_cons.mpr ⟨first, ih⟩

/-- The characters that belong to a token are passed over. -/
theorem tokensFrom_pending (pending offset : Nat) (cs : List Char) :
    tokensFrom pending offset cs
      = tokensFrom 0 (offset + byteLength (cs.take pending)) (cs.drop pending) := by
  -- Induction on the characters of the token that are still to be passed.
  induction pending generalizing offset cs with
  | zero => simp [byteLength]
  | succ pending ih =>
    cases cs with
    | nil => simp [tokensFrom]
    | cons c cs =>
      simp only [tokensFrom, List.take_succ_cons, List.drop_succ_cons, byteLength]
      rw [ih, Nat.add_assoc]

namespace Scans

/-- What is cut off a front text are the first tokens of the whole text. -/
theorem tokensFrom_eq {offset : Nat} {front : List Char} {tokens : List Token} {rest : List Char}
    (scanned : Scans offset front tokens rest) :
    tokensFrom 0 offset (front ++ rest)
      = tokens ++ tokensFrom 0 (offset + byteLength front) rest := by
  induction scanned with
  | done => simp [byteLength]
  | blank space _ ih =>
    simp only [List.cons_append, tokensFrom, space, if_true, ih, byteLength, Nat.add_assoc]
  | token solid cut _ ih =>
    -- The rest of the token is passed over character by character.
    simp only [List.cons_append, List.append_assoc, tokensFrom, solid, cut, Bool.false_eq_true,
      if_false, List.take_left']
    rw [tokensFrom_pending, List.take_left' rfl, List.drop_left' rfl]
    simp only [byteLength, byteLength_append, Nat.add_assoc] at ih ⊢
    rw [ih]

end Scans

/-- Every text is cut into its tokens. -/
theorem scans_tokensFrom (offset : Nat) (cs : List Char) :
    Scans offset cs (tokensFrom 0 offset cs) [] := by
  -- A token takes at least its first character, so what is left to cut gets shorter.
  induction size : cs.length using Nat.strongRecOn generalizing offset cs with
  | ind size ih =>
    cases cs with
    | nil => exact .done
    | cons c cs =>
      simp only [List.length_cons] at size
      cases space : isBlank c with
      | true =>
        simp only [tokensFrom, space, if_true]
        exact .blank space (ih cs.length (by omega) _ cs rfl)
      | false =>
        cases cut : lexeme c cs with
        | mk kind more =>
          have bound : more ≤ cs.length := by simpa [cut] using lexeme_length c cs
          have tail := ih (cs.drop more).length (by simp; omega)
            (offset + byteLength (c :: cs.take more)) (cs.drop more) rfl
          have same : lexeme c (cs.take more ++ (cs.drop more ++ []))
              = (kind, (cs.take more).length) := by
            simp [cut, Nat.min_eq_left bound]
          have whole := Scans.token space same tail
          simp only [List.take_append_drop] at whole
          simp only [tokensFrom, space, cut, Bool.false_eq_true, if_false]
          rw [tokensFrom_pending, Nat.add_assoc]
          exact whole

/-- A text is cut into its tokens. -/
theorem scans_tokenize (text : String) : Scans 0 text.toList (tokenize text) [] :=
  scans_tokensFrom 0 text.toList

namespace Scans

/-- Two texts that are cut one behind the other are cut together. -/
theorem append {offset : Nat} {front back rest : List Char} {first second : List Token}
    (scanned : Scans offset front first (back ++ rest))
    (next : Scans (offset + byteLength front) back second rest) :
    Scans offset (front ++ back) (first ++ second) rest := by
  -- The text behind the first part stays the same in every step.
  generalize behind : back ++ rest = after at scanned
  induction scanned with
  | done => simpa [byteLength] using next
  | blank space _ ih =>
    exact .blank space (ih (by simpa [byteLength, Nat.add_assoc] using next) behind)
  | @token offset c body cs kind tokens rest' solid cut _ ih =>
    subst behind
    have tail := ih (by simpa [byteLength, Nat.add_assoc] using next) rfl
    have whole := Scans.token solid (by simpa using cut) tail
    simpa using whole

/-- A front text is cut the same whatever stands apart behind it, unless it leaves a string open. -/
theorem exchange {offset : Nat} {front rest other : List Char} {tokens : List Token}
    (scanned : Scans offset front tokens rest)
    (closed : ∀ token ∈ tokens, token.kind ≠ .unterminated) (apart : Apart other) :
    Scans offset front tokens other := by
  induction scanned with
  | done => exact .done
  | blank space _ ih => exact .blank space (ih closed)
  | @token offset c body cs kind tokens rest solid cut _ ih =>
    have tail := ih (fun token member => closed token (by simp [member]))
    have kept : kind ≠ .unterminated := closed _ List.mem_cons_self
    -- The token ends within the front, so what stands behind the front does not matter to it.
    have same : lexeme c ((body ++ cs) ++ other) = lexeme c ((body ++ cs) ++ rest) := by
      apply lexeme_stable _ _ apart
      · simp [cut]
      · simpa [cut] using kept
    refine .token solid ?_ tail
    simpa [cut] using same

/-- Tokens begin where the cut text begins or later. -/
theorem offset_le {offset : Nat} {front rest : List Char} {tokens : List Token}
    (scanned : Scans offset front tokens rest) : ∀ token ∈ tokens, offset ≤ token.span.start := by
  -- Induction on the scan: later tokens begin where earlier ones end, or behind.
  induction scanned with
  | done => simp
  | blank _ _ ih =>
    intro token member
    have later := ih token member
    omega
  | token _ _ _ ih =>
    intro token member
    simp only [List.mem_cons] at member
    rcases member with rfl | member
    · exact Nat.le_refl _
    · have later := ih token member
      omega

/-- Tokens of a text begin strictly one after the other. -/
theorem pairwise_start {offset : Nat} {front rest : List Char} {tokens : List Token}
    (scanned : Scans offset front tokens rest) :
    tokens.Pairwise (fun left right => left.span.start < right.span.start) := by
  induction scanned with
  | done => exact .nil
  | blank _ _ ih => exact ih
  | @token offset c body cs kind tokens rest _ _ scanned ih =>
    refine List.Pairwise.cons ?_ ih
    intro token member
    -- The tokens behind begin where this one ends, and it takes at least one byte.
    have later := scanned.offset_le token member
    have positive := c.utf8Size_pos
    simp only [byteLength] at later
    show offset < token.span.start
    omega

/-- A text is cut in two where a token begins. -/
theorem split {offset : Nat} {front back rest : List Char} {tokens : List Token}
    (scanned : Scans offset (front ++ back) tokens rest)
    (begins : ∃ token ∈ tokens, token.span.start = offset + byteLength front) :
    ∃ first second, tokens = first ++ second ∧ Scans offset front first (back ++ rest) ∧
      Scans (offset + byteLength front) back second rest := by
  generalize whole : front ++ back = text at scanned
  -- Each step takes its characters off the front, until the front is used up.
  induction scanned generalizing front with
  | done => simp at begins
  | @blank offset c cs tokens rest space scanned ih =>
    cases front with
    | nil =>
      obtain rfl : back = c :: cs := whole
      exact ⟨[], tokens, rfl, .done, .blank space scanned⟩
    | cons d front =>
      obtain ⟨rfl, rfl⟩ : d = c ∧ front ++ back = cs := by simpa using whole
      simp only [byteLength, ← Nat.add_assoc] at begins ⊢
      obtain ⟨first, second, tokens, before, behind⟩ := ih begins rfl
      exact ⟨first, second, tokens, .blank space before, behind⟩
  | @token offset c body cs kind tokens rest solid cut scanned ih =>
    cases front with
    | nil =>
      obtain rfl : back = c :: (body ++ cs) := whole
      exact ⟨[], _, rfl, .done, .token solid cut scanned⟩
    | cons d front =>
      obtain ⟨rfl, texts⟩ : d = c ∧ front ++ back = body ++ cs := by simpa using whole
      -- The token that begins at the cut is a later one.
      obtain ⟨token, member, start⟩ := begins
      have positive := d.utf8Size_pos
      have later : token ∈ tokens := by
        simp only [List.mem_cons] at member
        rcases member with rfl | member
        · simp only [byteLength] at start
          omega
        · exact member
      have bound := scanned.offset_le token later
      obtain ⟨gap, rfl, rfl⟩ : ∃ gap, front = body ++ gap ∧ cs = gap ++ back := by
        rcases List.append_eq_append_iff.mp texts with ⟨beyond, rfl, rfl⟩ | ⟨gap, rfl, rfl⟩
        · -- The first token does not reach over the cut.
          cases beyond with
          | nil => exact ⟨[], by simp, rfl⟩
          | cons e beyond =>
            have width := e.utf8Size_pos
            simp only [byteLength, byteLength_append] at bound start
            omega
        · exact ⟨gap, rfl, rfl⟩
      obtain ⟨first, second, rfl, before, behind⟩ := ih ⟨token, later, by
        simpa [byteLength, Nat.add_assoc] using start⟩ rfl
      refine ⟨_ :: first, second, rfl, .token solid (by simpa using cut) before, ?_⟩
      simpa [byteLength, Nat.add_assoc] using behind

end Scans

/-- A text that stands elsewhere is cut into tokens of the same kinds. -/
theorem Scans.moved {offset : Nat} {front rest : List Char} {tokens : List Token}
    (scanned : Scans offset front tokens rest) (elsewhere : Nat) :
    ∃ others, Scans elsewhere front others rest ∧
      others.map (·.kind) = tokens.map (·.kind) := by
  -- Induction on the scan; what is cut never depends on where.
  induction scanned generalizing elsewhere with
  | done => exact ⟨[], .done, rfl⟩
  | @blank offset c cs tokens rest space _ ih =>
    obtain ⟨others, cut, kinds⟩ := ih (elsewhere + c.utf8Size)
    exact ⟨others, .blank space cut, kinds⟩
  | @token offset c body cs kind tokens rest solid cut _ ih =>
    obtain ⟨others, scanned, kinds⟩ := ih (elsewhere + byteLength (c :: body))
    exact ⟨_, .token solid cut scanned, by simp [kinds]⟩

end FilterLang
