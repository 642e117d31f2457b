import FilterLang.Proofs.Token.Ending
import FilterLang.Proofs.Token.Joining

/-! The tokens of texts that are put one behind the other. -/

namespace FilterLang

/-- A token that stands a number of bytes further behind. -/
def Token.shift (distance : Nat) (token : Token) : Token :=
  ⟨token.kind, ⟨distance + token.span.start, distance + token.span.stop⟩⟩

/-- A token that is moved twice is moved by both distances. -/
theorem Token.shift_comp_shift (first second : Nat) :
    Token.shift first ∘ Token.shift second = Token.shift (first + second) := by
  -- Offsets add up.
  funext token
  simp [Token.shift, Nat.add_assoc]

/-- A text that begins further behind has its tokens further behind. -/
theorem tokensFrom_shift (pending distance offset : Nat) (cs : List Char) :
    tokensFrom pending (distance + offset) cs =
      (tokensFrom pending offset cs).map (Token.shift distance) := by
  fun_induction tokensFrom pending offset cs with
  | case1 => simp [tokensFrom]
  -- Neither the characters of the token before nor white space give a token.
  | case2 pending offset c cs ih =>
    rw [tokensFrom, Nat.add_assoc, ih]
  | case3 offset c cs space ih =>
    rw [tokensFrom, if_pos space, Nat.add_assoc, ih]
  | case4 offset c cs solid kind more cut ih =>
    rw [tokensFrom, if_neg solid, cut]
    simp only [List.map_cons, Token.shift, ← ih, Nat.add_assoc]

/-- A text behind one that is cut by itself has its own tokens, moved behind that text. -/
theorem Scans.tokenize_append {front back : String} {tokens : List Token}
    (scanned : Scans 0 front.toList tokens back.toList) :
    tokenize (front ++ back) = tokens ++ (tokenize back).map (Token.shift (byteSize front)) := by
  -- What the front leaves is scanned from where the front ends, which only moves the tokens.
  have whole := scanned.tokensFrom_eq
  rw [Nat.zero_add, ← Nat.add_zero (byteLength front.toList), tokensFrom_shift] at whole
  rw [tokenize, String.toList_append, whole]
  rfl

/-- Two texts are cut each by itself if the second lengthens no token of the first. -/
theorem tokenize_append {front back : String}
    (closed : ∀ token ∈ tokenize front, token.kind ≠ .unterminated) (apart : Apart back.toList) :
    tokenize (front ++ back) =
      tokenize front ++ (tokenize back).map (Token.shift (byteSize front)) :=
  ((scans_tokenize front).exchange closed apart).tokenize_append

section Quotes

/-- A literal for a text is one token, whatever stands behind it. -/
theorem tokenize_quote (value rest : String) : tokenize (quote value ++ rest) =
    ⟨.string (quote value), ⟨0, byteSize (quote value)⟩⟩ ::
      (tokenize rest).map (Token.shift (byteSize (quote value))) := by
  -- The scanner takes the whole literal as one token, whatever follows.
  have whole := (scans_quote 0 value rest.toList).tokenize_append
  rwa [Nat.zero_add] at whole

/-- A literal lengthens no token before it. -/
theorem apart_quote (value : String) (rest : List Char) : Apart ((quote value).toList ++ rest) := by
  rw [quote, String.toList_ofList]
  exact apart_cons (by decide) _

/--
A text can be quoted into any place of a query.

The literal stands for the text. It is one token from its first quote to its last, and what follows
it is cut as if it stood alone; so is what comes before it, unless that leaves a string open.
-/
theorem quote_stands_alone (value rest : String) :
    unquote (quote value) = value ∧
    tokenize (quote value ++ rest) =
      ⟨.string (quote value), ⟨0, byteSize (quote value)⟩⟩ ::
        (tokenize rest).map (Token.shift (byteSize (quote value))) ∧
    ∀ front : String, (∀ token ∈ tokenize front, token.kind ≠ .unterminated) →
      tokenize (front ++ quote value ++ rest) =
        tokenize front ++
          ⟨.string (quote value), ⟨byteSize front, byteSize front + byteSize (quote value)⟩⟩ ::
            (tokenize rest).map (Token.shift (byteSize front + byteSize (quote value))) := by
  -- A literal begins with a quote, which ends every token before it.
  refine ⟨(quoted_quote value).unquote_eq, tokenize_quote value rest, fun front closed => ?_⟩
  have apart : Apart (quote value ++ rest).toList := by
    rw [String.toList_append]
    exact apart_quote value rest.toList
  rw [String.append_assoc, tokenize_append closed apart, tokenize_quote, List.map_cons,
    List.map_map, Token.shift_comp_shift, Token.shift, Nat.add_zero]

/-- A value that ends with a backslash keeps clear of a quote behind it. -/
theorem backslash_stands_alone :
    (∀ token ∈ tokenize "path=", token.kind ≠ .unterminated) ∧
    tokenize ("path=" ++ quote "C:\\" ++ "\"D\"") =
      [⟨.identifier "path", ⟨0, 4⟩⟩, ⟨.equal, ⟨4, 5⟩⟩, ⟨.string (quote "C:\\"), ⟨5, 11⟩⟩,
        ⟨.string "\"D\"", ⟨11, 14⟩⟩] := by
  -- The literal ends with an escaped backslash; the two
  -- tokens in front and the one behind are computed.
  have closed : ∀ token ∈ tokenize "path=", token.kind ≠ .unterminated := by decide +kernel
  refine ⟨closed, ?_⟩
  rw [(quote_stands_alone "C:\\" "\"D\"").2.2 "path=" closed]
  decide +kernel

end Quotes

section Blanks

/-- White space lengthens no token. -/
theorem separates_of_isBlank {c : Char} (space : isBlank c = true) : separates c = true := by
  -- A character of a word is no white space.
  have word : continuesWord c = false := by
    rw [← Bool.not_eq_true]
    intro continued
    rw [not_isBlank_of_continuesWord continued] at space
    cases space
  have mark : c ≠ '=' := by
    rintro rfl
    exact absurd space (by decide)
  simp [separates, word, mark]

/-- White space holds no token. -/
theorem scans_blank {gap : List Char} (blank : ∀ c ∈ gap, isBlank c = true) (offset : Nat)
    (rest : List Char) : Scans offset gap [] rest := by
  -- Induction on the gap: blanks are passed over one by one.
  induction gap generalizing offset with
  | nil => exact .done
  | cons c gap ih =>
    rw [List.forall_mem_cons] at blank
    exact .blank blank.1 (ih blank.2 _)

/--
White space divides a text.

What stands on either side of it is cut as if it stood alone, unless the text before it leaves a
string open, which would take the white space in.
-/
theorem tokenize_across_blank {front gap back : String} (filled : gap ≠ "")
    (blank : allBlank gap = true)
    (closed : ∀ token ∈ tokenize front, token.kind ≠ .unterminated) :
    tokenize (front ++ gap ++ back) =
      tokenize front ++ (tokenize back).map (Token.shift (byteSize front + byteSize gap)) := by
  -- The gap begins with a blank, which ends every token before it.
  have spaces : ∀ c ∈ gap.toList, isBlank c = true := List.all_eq_true.mp blank
  have apart : Apart (gap ++ back).toList := by
    rw [String.toList_append]
    cases chars : gap.toList with
    | nil => exact absurd (String.toList_eq_nil_iff.mp chars) filled
    | cons c more => exact apart_cons (separates_of_isBlank (spaces c (by simp [chars]))) _
  have behind := (scans_blank spaces 0 back.toList).tokenize_append
  rw [String.append_assoc, tokenize_append closed apart, behind, List.nil_append, List.map_map,
    Token.shift_comp_shift]

/-- A minus sign before white space is not drawn to the digit behind it. -/
theorem minus_across_blank :
    ("\u2003 " ≠ "" ∧ allBlank "\u2003 " = true ∧
      ∀ token ∈ tokenize "n>-", token.kind ≠ .unterminated) ∧
    tokenize ("n>-" ++ "\u2003 " ++ "=7") =
      [⟨.identifier "n", ⟨0, 1⟩⟩, ⟨.greater, ⟨1, 2⟩⟩, ⟨.illegal, ⟨2, 3⟩⟩, ⟨.equal, ⟨7, 8⟩⟩,
        ⟨.number "7", ⟨8, 9⟩⟩] := by
  -- The conditions are computed, as are the tokens on either side.
  have filled : "\u2003 " ≠ "" := by decide
  have blank : allBlank "\u2003 " = true := by decide +kernel
  have closed : ∀ token ∈ tokenize "n>-", token.kind ≠ .unterminated := by decide +kernel
  refine ⟨⟨filled, blank, closed⟩, ?_⟩
  rw [tokenize_across_blank filled blank closed]
  decide +kernel

end Blanks

end FilterLang
