import FilterLang.Proofs.Token.Spelling

/-! Putting a text in parentheses in the place of a word and two parentheses. -/

namespace FilterLang

/-- The tokens of a text are those that it is cut into. -/
theorem tokenize_of_scans {text : String} {tokens : List Token}
    (scanned : Scans 0 text.toList tokens []) : tokenize text = tokens := by
  simpa [tokenize, tokensFrom] using scanned.tokensFrom_eq

namespace Scans

/-- Every token begins inside the text that it was cut from. -/
theorem start_lt {offset : Nat} {front rest : List Char} {tokens : List Token}
    (scanned : Scans offset front tokens rest) :
    ∀ token ∈ tokens, token.span.start < offset + byteLength front := by
  -- Induction on the scan: a token takes one character at least.
  induction scanned with
  | done => simp
  | @blank offset c cs tokens rest space _ ih =>
    intro token member
    have bound := ih token member
    simp only [byteLength]
    omega
  | @token offset c body cs kind tokens rest solid cut _ ih =>
    intro token member
    have positive := c.utf8Size_pos
    simp only [byteLength, byteLength_append] at ih ⊢
    rcases List.mem_cons.mp member with rfl | later
    · show offset < _
      omega
    · have bound := ih token later
      omega

/-- The tokens before an offset come first, so the offset divides them in one way. -/
theorem filter_before {early late : List Token} {offset : Nat}
    (before : ∀ token ∈ early, token.span.start < offset)
    (behind : ∀ token ∈ late, offset ≤ token.span.start) :
    (early ++ late).filter (·.span.start < offset) = early := by
  -- What begins before the offset is early, and all else is late.
  rw [List.filter_append, List.filter_eq_self.mpr (by simpa using before),
    List.filter_eq_nil_iff.mpr (by simpa using behind), List.append_nil]

/-- A text can be cut in two in front of one of its tokens. -/
theorem split_at {offset : Nat} {front back rest : List Char} {before behind : List Token}
    {token : Token} (scanned : Scans offset (front ++ back) (before ++ token :: behind) rest)
    (begins : token.span.start = offset + byteLength front) :
    Scans offset front before (back ++ rest) ∧
      Scans (offset + byteLength front) back (token :: behind) rest := by
  -- The tokens are split somewhere, and their places leave only one place for it.
  obtain ⟨first, second, same, early, late⟩ := scanned.split ⟨token, by simp, begins⟩
  obtain ⟨-, ordered, apart⟩ := List.pairwise_append.mp scanned.pairwise_start
  have left : ∀ other ∈ before, other.span.start < offset + byteLength front :=
    fun other member => begins ▸ apart other member token (by simp)
  have right : ∀ other ∈ token :: behind, offset + byteLength front ≤ other.span.start := by
    intro other member
    rcases List.mem_cons.mp member with rfl | later
    · exact Nat.le_of_eq begins.symm
    · exact begins ▸ Nat.le_of_lt ((List.pairwise_cons.mp ordered).1 other later)
  obtain rfl : first = before := by
    rw [← filter_before early.start_lt late.offset_le, ← same, filter_before left right]
  rw [List.append_cancel_left same]
  exact ⟨early, late⟩

/-- A mark is cut off by itself, whatever follows it. -/
theorem mark {c : Char} {kind : TokenKind} (solid : isBlank c = false)
    (alone : ∀ cs, lexeme c cs = (kind, 0)) {offset : Nat} {cs rest : List Char}
    {tokens : List Token} (scanned : Scans (offset + c.utf8Size) cs tokens rest) :
    ∃ span, Scans offset (c :: cs) (⟨kind, span⟩ :: tokens) rest := by
  -- The mark takes one character and nothing behind it.
  have inside : Scans (offset + byteLength [c]) cs tokens rest := by
    simpa [byteLength] using scanned
  exact ⟨_, @Scans.token offset c [] cs kind tokens rest solid (alone _) inside⟩

/-- What stands behind a mark is cut by itself. -/
theorem behind_mark {c : Char} {kind : TokenKind} (solid : isBlank c = false)
    (alone : ∀ cs, lexeme c cs = (kind, 0)) {offset : Nat} {cs rest : List Char} {token : Token}
    {tokens : List Token} (scanned : Scans offset (c :: cs) (token :: tokens) rest) :
    ∃ place, Scans place cs tokens rest := by
  -- The mark is no blank, so it has been cut, and it takes one character only.
  cases scanned with
  | blank space _ =>
    rw [solid] at space
    cases space
  | @token _ _ body cs kind' _ _ _ cut scanned =>
    rw [alone] at cut
    obtain rfl : body = [] := List.eq_nil_of_length_eq_zero (Prod.mk.inj cut).2.symm
    exact ⟨_, scanned⟩

/-- What stands behind a word at the start of a text is cut by itself. -/
theorem behind_word {offset : Nat} {name : String} {span : Span} {back rest : List Char}
    {tokens : List Token}
    (scanned : Scans offset (name.toList ++ back) (⟨.identifier name, span⟩ :: tokens) rest)
    (begins : span.start = offset) : ∃ place, Scans place back tokens rest := by
  generalize whole : name.toList ++ back = text at scanned
  cases scanned with
  | @blank _ c cs _ _ space scanned =>
    -- The word would begin behind the white space.
    have later := scanned.offset_le ⟨.identifier name, span⟩ (by simp)
    have positive := c.utf8Size_pos
    simp only at later
    omega
  | @token _ c body cs _ _ _ solid cut scanned =>
    -- The token is spelled like the word, so it takes the word and no more.
    have letters : c :: body = name.toList := (lexeme_spells cut).1 name rfl
    rw [← List.cons_append, letters] at whole
    obtain rfl := List.append_cancel_left whole
    exact ⟨_, scanned⟩

end Scans

/--
A text in parentheses can take the place of a word and two parentheses.

The tokens around them stay of the same kinds, and those of the text in parentheses are its own.
-/
theorem tokenize_splice {pre name post inside : String} {before behind : List Token}
    {span opening closing : Span}
    (cut : tokenize (pre ++ (name ++ "()") ++ post) = before ++
      ⟨.identifier name, span⟩ :: ⟨.openParen, opening⟩ :: ⟨.closeParen, closing⟩ :: behind)
    (begins : span.start = byteSize pre)
    (closed : ∀ token ∈ before, token.kind ≠ .unterminated)
    (closedInside : ∀ token ∈ tokenize inside, token.kind ≠ .unterminated) :
    (tokenize (pre ++ ("(" ++ inside ++ ")") ++ post)).map (·.kind) = before.map (·.kind) ++
      .openParen :: (tokenize inside).map (·.kind) ++ .closeParen :: behind.map (·.kind) := by
  have openApart : ∀ cs, Apart ('(' :: cs) := apart_cons (by decide)
  have closeApart : ∀ cs, Apart (')' :: cs) := apart_cons (by decide)
  -- Taking the old text apart.
  have scanned := scans_tokenize (pre ++ (name ++ "()") ++ post)
  have text : (pre ++ (name ++ "()") ++ post).toList =
      pre.toList ++ (name.toList ++ '(' :: ')' :: post.toList) := by
    simp
  have start : span.start = 0 + byteLength pre.toList := by
    rw [Nat.zero_add]
    exact begins
  rw [cut, text] at scanned
  obtain ⟨early, late⟩ := scanned.split_at start
  obtain ⟨_, marks⟩ := late.behind_word start
  obtain ⟨_, lastMark⟩ := marks.behind_mark (by decide) (fun _ => rfl)
  obtain ⟨_, tail⟩ := lastMark.behind_mark (by decide) (fun _ => rfl)
  -- Putting the new text together, from its end to its start.
  obtain ⟨others, moved, otherKinds⟩ := tail.moved
    (0 + byteLength pre.toList + '('.utf8Size + byteLength inside.toList + ')'.utf8Size)
  obtain ⟨_, closes⟩ := moved.mark (by decide) (fun _ => rfl)
  obtain ⟨inner, body, innerKinds⟩ :=
    ((scans_tokenize inside).exchange closedInside (closeApart (post.toList ++ []))).moved
      (0 + byteLength pre.toList + '('.utf8Size)
  obtain ⟨_, opens⟩ := (body.append closes).mark (by decide) (fun _ => rfl)
  have whole := (early.exchange closed (openApart _)).append opens
  have made : (pre ++ ("(" ++ inside ++ ")") ++ post).toList =
      pre.toList ++ '(' :: (inside.toList ++ ')' :: post.toList) := by
    simp
  rw [tokenize_of_scans (made ▸ whole)]
  simp [innerKinds, otherKinds]

end FilterLang
