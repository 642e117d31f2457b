import FilterLang.Context
import FilterLang.Proofs.Token.Spelling

/-! Where a text ends when the white space behind it is passed over. -/

namespace FilterLang

/-- Where the last token ends; without any, where the first would have begun. -/
def lastStop (start : Nat) : List Token → Nat
  | [] => start
  | token :: rest => lastStop token.span.stop rest

/-- The end of the last token is found behind any token before it. -/
@[simp] theorem lastStop_append (start : Nat) (front back : List Token) :
    lastStop start (front ++ back) = lastStop (lastStop start front) back := by
  -- Induction on the front; each token sets the stop anew.
  induction front generalizing start with
  | nil => rfl
  | cons token front ih => exact ih token.span.stop

section Trim

/-- White space alone is trimmed away. -/
theorem trimEnd_blank {cs : List Char} (blank : ∀ c ∈ cs, isBlank c = true) : trimEnd cs = [] := by
  -- Induction on the characters, from the end.
  induction cs with
  | nil => rfl
  | cons c cs ih =>
    rw [List.forall_mem_cons] at blank
    simp [trimEnd, ih blank.2, blank.1]

/-- What ends with no white space is kept, and the white space behind it is not. -/
theorem trimEnd_append {cs gap : List Char} (solid : ∀ c ∈ cs.getLast?, isBlank c = false)
    (blank : ∀ c ∈ gap, isBlank c = true) : trimEnd (cs ++ gap) = cs := by
  -- Induction on the solid part, which keeps its last character.
  induction cs with
  | nil => exact trimEnd_blank blank
  | cons c cs ih =>
    cases cs with
    | nil =>
      have kept : isBlank c = false := solid c rfl
      simp [trimEnd, trimEnd_blank blank, kept]
    | cons d cs =>
      have rest := ih (by simpa using solid)
      rw [List.cons_append, trimEnd, rest]

end Trim

/-- No character of a word is white space. -/
theorem not_isBlank_of_continuesWord {c : Char} (word : continuesWord c = true) :
    isBlank c = false := by
  -- The codes of these characters lie between those of the hyphen and of the last small letter.
  have code : 45 ≤ c.toNat ∧ c.toNat ≤ 122 := by
    simp only [continuesWord, isLetter, isDigit, Bool.or_eq_true, Bool.and_eq_true,
      decide_eq_true_eq, beq_iff_eq] at word
    rcases word with ((((⟨low, high⟩ | ⟨low, high⟩) | ⟨low, high⟩) | rfl) | rfl) | rfl
    · exact ⟨Nat.le_trans (by decide) low, high⟩
    · exact ⟨Nat.le_trans (by decide) low, Nat.le_trans high (by decide)⟩
    · exact ⟨Nat.le_trans (by decide) low, Nat.le_trans high (by decide)⟩
    all_goals decide
  simp [isBlank]
  omega

/-- Behind its first character a number takes digits and a point, which a word may hold as well. -/
theorem continuesWord_of_numberTail (cs : List Char) :
    ∀ c ∈ cs.take (numberTail cs), continuesWord c = true := by
  have digit : ∀ c, isDigit c = true → continuesWord c = true := by
    intro c digit
    simp [continuesWord, digit]
  -- First come digits, and then perhaps a point with more digits behind it.
  obtain ⟨digits, back, rfl, all, stops⟩ := exists_digits cs
  rw [numberTail_digits all, List.take_length_add_append, List.forall_mem_append]
  refine ⟨fun c member => digit c (all c member), ?_⟩
  cases back with
  | nil => simp
  | cons c back =>
    by_cases point : c = '.'
    · subst point
      rw [numberTail_point]
      split
      · simp
      · rw [List.take_succ_cons, List.forall_mem_cons]
        refine ⟨rfl, fun c member => digit c ?_⟩
        rw [← List.prefix_iff_eq_take.mp (List.takeWhile_prefix isDigit)] at member
        exact List.all_eq_true.mp List.all_takeWhile c member
    · simp [numberTail_other (stops c rfl) point]

/-- A closed literal ends with its quote. -/
theorem getLast?_stringTail {cs : List Char} {more : Nat} (closed : stringTail? cs = some more) :
    (cs.take more).getLast? = some '"' := by
  -- The induction passes over the characters of the literal up to the quote.
  fun_induction stringTail? cs generalizing more with
  | case1 => simp at closed
  | case2 cs =>
    obtain rfl : 1 = more := by simpa using closed
    rfl
  | case3 => simp at closed
  | case4 c cs ih =>
    obtain ⟨tail, inner, rfl⟩ := Option.map_eq_some_iff.mp closed
    simp [List.getLast?_cons, ih inner]
  | case5 c cs _ _ _ ih =>
    obtain ⟨tail, inner, rfl⟩ := Option.map_eq_some_iff.mp closed
    simp [List.getLast?_cons, ih inner]

/-- No token but an unclosed literal ends with white space. -/
theorem lexeme_solid {c : Char} {body rest : List Char} {kind : TokenKind}
    (solid : isBlank c = false) (cut : lexeme c (body ++ rest) = (kind, body.length))
    (ended : kind ≠ .unterminated) : ∀ last ∈ (c :: body).getLast?, isBlank last = false := by
  -- A token of word characters behind its first one ends with one of them.
  have words : (∀ d ∈ body, continuesWord d = true) →
      ∀ last ∈ (c :: body).getLast?, isBlank last = false := by
    intro all last final
    rcases List.mem_cons.mp (List.mem_of_getLast? final) with rfl | member
    · exact solid
    · exact not_isBlank_of_continuesWord (all last member)
  revert cut
  fun_cases lexeme c (body ++ rest) with
  -- A mark of one character is its own end, and a longer one ends with an equals sign.
  | case1 | case2 | case3 | case4 =>
    intro cut
    obtain rfl : body = [] := List.eq_nil_of_length_eq_zero (Prod.mk.inj cut).2.symm
    exact words (by simp)
  | case5 | case6 | case7 =>
    intro cut
    rcases beforeEqual_body cut with ⟨-, rfl⟩ | ⟨-, rfl⟩
    · intro last final
      obtain rfl : '=' = last := by simpa using final
      rfl
    · exact words (by simp)
  -- A literal ends with its quote, or is not closed.
  | case8 more closed =>
    intro cut
    obtain ⟨-, rfl⟩ := Prod.mk.inj cut
    have quote := getLast?_stringTail closed
    rw [List.take_left' rfl] at quote
    intro last final
    obtain rfl : '"' = last := by simpa [List.getLast?_cons, quote] using final
    rfl
  | case9 =>
    intro cut
    exact absurd (Prod.mk.inj cut).1.symm ended
  | case10 c number =>
    rw [if_pos number]
    intro cut
    have taken := continuesWord_of_numberTail (body ++ rest)
    rw [(Prod.mk.inj cut).2, List.take_left' rfl] at taken
    exact words taken
  | case11 c number word =>
    rw [if_neg number, if_pos word]
    intro cut
    have run := List.prefix_iff_eq_take.mp (List.takeWhile_prefix (l := body ++ rest) continuesWord)
    rw [(Prod.mk.inj cut).2, List.take_left' rfl] at run
    exact words fun d member => List.all_eq_true.mp List.all_takeWhile d (run ▸ member)
  | case12 c number word =>
    rw [if_neg number, if_neg word]
    intro cut
    obtain rfl : body = [] := List.eq_nil_of_length_eq_zero (Prod.mk.inj cut).2.symm
    exact words (by simp)

/-- Behind the last token of a text comes white space, which the token does not end with. -/
theorem Scans.exists_solid {offset : Nat} {front rest : List Char} {tokens : List Token}
    (scanned : Scans offset front tokens rest)
    (ended : ∀ token ∈ tokens, token.kind ≠ .unterminated) :
    ∃ kept gap, front = kept ++ gap ∧ (kept = [] ↔ tokens = []) ∧
      (∀ c ∈ kept.getLast?, isBlank c = false) ∧ (∀ c ∈ gap, isBlank c = true) ∧
      offset + byteLength kept = lastStop offset tokens := by
  induction scanned with
  | done => exact ⟨[], [], rfl, by simp, by simp, by simp, rfl⟩
  | @blank offset c cs tokens rest space _ ih =>
    obtain ⟨kept, gap, rfl, filled, solid, blank, place⟩ := ih ended
    -- White space is kept only if a token still follows it.
    cases tokens with
    | nil =>
      obtain rfl := filled.mpr rfl
      exact ⟨[], c :: gap, rfl, by simp, by simp, by simpa using ⟨space, blank⟩, rfl⟩
    | cons token tokens =>
      cases kept with
      | nil => simp at filled
      | cons d kept =>
        refine ⟨c :: d :: kept, gap, rfl, by simp, by simpa using solid, blank, ?_⟩
        rw [byteLength, ← Nat.add_assoc]
        exact place
  | @token offset c body cs kind tokens rest solid cut _ ih =>
    rw [List.forall_mem_cons] at ended
    obtain ⟨kept, gap, rfl, -, final, blank, place⟩ := ih ended.2
    refine ⟨(c :: body) ++ kept, gap, by simp, by simp, ?_, blank, ?_⟩
    · cases kept with
      | nil => simpa using lexeme_solid solid cut ended.1
      | cons d kept => simpa [List.getLast?_append, List.getLast?_cons] using final
    · rw [byteLength_append, ← Nat.add_assoc]
      exact place

/-- The text before its end, without the white space there, ends with the last token. -/
theorem solidLength_eq {text : String}
    (ended : ∀ token ∈ tokenize text, token.kind ≠ .unterminated) :
    solidLength text.toList (byteSize text) = lastStop 0 (tokenize text) := by
  -- What has been scanned is solid up to the last token, and blank behind it.
  obtain ⟨kept, gap, whole, -, solid, blank, place⟩ := (scans_tokenize text).exists_solid ended
  have taken : takeBytes (byteSize text) text.toList = some text.toList := by
    simpa [byteSize] using takeBytes_append text.toList []
  rw [solidLength, taken, Option.getD_some, whole, trimEnd_append solid blank, ← place,
    Nat.zero_add]

/-- Some white space follows the last token exactly when the text ends with white space. -/
theorem lastStop_lt_iff {text : String}
    (ended : ∀ token ∈ tokenize text, token.kind ≠ .unterminated) :
    lastStop 0 (tokenize text) < byteSize text ↔ text.toList.getLast?.any isBlank = true := by
  obtain ⟨kept, gap, whole, -, solid, blank, place⟩ := (scans_tokenize text).exists_solid ended
  rw [byteSize, whole, ← place, byteLength_append]
  -- The white space behind the last token, if there is any, ends the text.
  rcases List.eq_nil_or_concat gap with rfl | ⟨front, last, rfl⟩
  · simp only [List.append_nil, byteLength, Nat.zero_add, Nat.add_zero, Nat.lt_irrefl, false_iff]
    cases final : kept.getLast? with
    | none => simp
    | some c => simp [solid c final]
  · have positive := last.utf8Size_pos
    have space : isBlank last = true := blank last (by simp)
    simp only [List.concat_eq_append, byteLength_append, byteLength]
    rw [← List.append_assoc, List.getLast?_concat, Option.any_some, space]
    simp only [iff_true]
    omega

end FilterLang
