import FilterLang.Proofs.Text.Quoted
import FilterLang.Proofs.Token.Places
import FilterLang.Proofs.Token.Spelling

/-! How the tokens of a text cover it. -/

namespace FilterLang

/-- Whether an offset lies in a range. -/
def Span.Holds (span : Span) (offset : Nat) : Prop :=
  span.start ≤ offset ∧ offset < span.stop

/-- Tokens that cover a text up to white space. -/
structure Tiles (source : List Char) (tokens : List Token) : Prop where
  filled : ∀ token ∈ tokens, token.span.start < token.span.stop
  boundaries : ∀ token ∈ tokens,
    Boundary source token.span.start ∧ Boundary source token.span.stop
  inside : ∀ token ∈ tokens, token.span.stop ≤ byteLength source
  apart : tokens.Pairwise fun left right => left.span.stop ≤ right.span.start
  /-- A character that lies in no token is white space. -/
  gaps : ∀ before c after, source = before ++ c :: after →
    (∀ token ∈ tokens, ¬ token.span.Holds (byteLength before)) → isBlank c = true
  begins : ∀ token ∈ tokens, ∃ c cs,
    sliceBytes token.span.start token.span.stop source = some (c :: cs) ∧ isBlank c = false
  verbatim : ∀ token ∈ tokens, ∀ raw ∈ token.kind.raw?,
    sliceBytes token.span.start token.span.stop source = some raw.toList
  /-- A string is left open only where the text ends. -/
  openEnd : ∀ before token after, tokens = before ++ token :: after →
    token.kind = .unterminated → after = [] ∧ token.span.stop = byteLength source
  quoted : ∀ token ∈ tokens, ∀ raw, token.kind = .string raw →
    ∃ body, raw.toList = '"' :: body ++ ['"'] ∧ Escaped body

/-- A token stands in a text where it is cut off. -/
structure Token.CutFrom (source : List Char) (token : Token) (before : List Char) (c : Char)
    (body after : List Char) : Prop where
  whole : source = before ++ (c :: body ++ after)
  span : token.span = ⟨byteLength before, byteLength before + byteLength (c :: body)⟩
  solid : isBlank c = false
  cut : lexeme c (body ++ after) = (token.kind, body.length)

namespace Scans

variable {offset : Nat} {front rest : List Char} {tokens : List Token}

/-- Each token is cut off at its place in the text. -/
theorem exists_cutFrom (scanned : Scans offset front tokens rest) (seen : List Char)
    (place : offset = byteLength seen) : ∀ token ∈ tokens, ∃ before c body after,
      token.CutFrom (seen ++ (front ++ rest)) before c body after := by
  -- The text seen so far grows by what each step cuts off.
  induction scanned generalizing seen with
  | done => simp
  | @blank offset c cs tokens rest space _ ih =>
    have later := ih (seen ++ [c]) (by simp [place, byteLength])
    simpa using later
  | @token offset c body cs kind tokens rest solid cut _ ih =>
    have later := ih (seen ++ c :: body) (by simp [place])
    rw [List.forall_mem_cons]
    refine ⟨⟨seen, c, body, cs ++ rest, by simp, by rw [place], solid, cut⟩, ?_⟩
    simpa using later

/-- A token begins no earlier than the one before it ends. -/
theorem pairwise_apart (scanned : Scans offset front tokens rest) :
    tokens.Pairwise fun left right => left.span.stop ≤ right.span.start := by
  -- Induction on the scan: what follows a token is scanned from its end.
  induction scanned with
  | done => exact .nil
  | blank _ _ ih => exact ih
  | token _ _ scanned ih => exact .cons (fun later member => scanned.offset_le later member) ih

/-- A character that no token is cut off around is white space. -/
theorem isBlank_of_free (scanned : Scans offset front tokens rest) {before after : List Char}
    {c : Char} (whole : front = before ++ c :: after)
    (free : ∀ token ∈ tokens, ¬ token.span.Holds (offset + byteLength before)) :
    isBlank c = true := by
  induction scanned generalizing before with
  | done => simp at whole
  | @blank offset d cs tokens rest space _ ih =>
    cases before with
    | nil =>
      obtain rfl : d = c := (List.cons.inj whole).1
      exact space
    | cons e before =>
      obtain ⟨rfl, behind⟩ := List.cons.inj whole
      refine ih behind ?_
      simpa only [byteLength, ← Nat.add_assoc] using free
  | @token offset d body cs kind tokens rest solid cut _ ih =>
    rw [List.forall_mem_cons] at free
    -- The character stands behind the first token, or the token would hold it.
    have behind : byteLength (d :: body) ≤ byteLength before := by
      have outside := free.1
      simp only [Span.Holds, not_and, Nat.not_lt] at outside
      have := outside (Nat.le_add_right _ _)
      omega
    obtain ⟨gap, rfl, rfl⟩ :=
      exists_between (show (d :: body) ++ cs = before ++ c :: after from whole) behind
    refine ih rfl fun token member => ?_
    have later := free.2 token member
    rwa [byteLength_append, ← Nat.add_assoc] at later

end Scans

namespace Token.CutFrom

variable {source before body after : List Char} {c : Char} {token : Token}

/-- The text under a token is what was cut off. -/
theorem slice (stands : token.CutFrom source before c body after) :
    sliceBytes token.span.start token.span.stop source = some (c :: body) := by
  -- The token stands between what is before and after it.
  rw [stands.span, stands.whole]
  exact sliceBytes_append before (c :: body) after

/-- A token holds at least the byte that it begins with. -/
theorem filled (stands : token.CutFrom source before c body after) :
    token.span.start < token.span.stop := by
  -- The first character takes one byte at least.
  have positive := c.utf8Size_pos
  rw [stands.span]
  show byteLength before < byteLength before + (c.utf8Size + byteLength body)
  omega

/-- A string left open reaches to the end of the text. -/
theorem reaches (stands : token.CutFrom source before c body after)
    (unclosed : token.kind = .unterminated) : token.span.stop = byteLength source := by
  -- A string without its quote takes all that is left.
  have length := (lexeme_string stands.cut).1 unclosed
  obtain rfl : after = [] := by
    rw [List.length_append] at length
    exact List.eq_nil_of_length_eq_zero (by omega)
  rw [stands.span, stands.whole]
  simp

end Token.CutFrom

/--
The tokens of a text cover it up to white space.

Each holds bytes, begins and ends between characters, and ends before the next one begins; what no
token holds is white space, and no token begins with any. A token that keeps its text keeps what
stands under it, a string literal is closed by the first quote that no backslash takes, and one that
is not closed is the last token and runs to the end of the text.
-/
theorem tokenize_tiles (text : String) : Tiles text.toList (tokenize text) := by
  have scanned := scans_tokenize text
  have stands : ∀ token ∈ tokenize text, ∃ before c body after,
      token.CutFrom text.toList before c body after := by
    simpa using scanned.exists_cutFrom [] rfl
  have filled : ∀ token ∈ tokenize text, token.span.start < token.span.stop := by
    intro token member
    obtain ⟨before, c, body, after, cut⟩ := stands token member
    exact cut.filled
  have boundaries := boundaries_tokenize text
  have inside : ∀ token ∈ tokenize text, token.span.stop ≤ byteLength text.toList :=
    fun token member => (boundaries token member).2.le
  have apart := scanned.pairwise_apart
  refine ⟨filled, boundaries, inside, apart, ?gaps, ?begins, ?verbatim, ?openEnd, ?quoted⟩
  case gaps =>
    intro before c after whole free
    exact scanned.isBlank_of_free whole (by simpa using free)
  case begins =>
    intro token member
    obtain ⟨before, c, body, after, cut⟩ := stands token member
    exact ⟨c, body, cut.slice, cut.solid⟩
  case verbatim =>
    intro token member raw kept
    obtain ⟨cs, slice, spells, -⟩ := (legible_tokenize text).spelled token member
    rw [slice, spells raw kept]
  case openEnd =>
    intro before token after split unclosed
    obtain ⟨front, c, body, rest, cut⟩ := stands token (by simp [split])
    have reaches := cut.reaches unclosed
    refine ⟨List.eq_nil_iff_forall_not_mem.mpr fun later member => ?_, reaches⟩
    -- A later token would begin where the text ends, and end within it.
    rw [split] at apart filled inside
    have begins := (List.pairwise_cons.mp (List.pairwise_append.mp apart).2.1).1 later member
    have wide := filled later (by simp [member])
    have bound := inside later (by simp [member])
    omega
  case quoted =>
    intro token member raw literal
    obtain ⟨before, c, body, after, cut⟩ := stands token member
    exact (lexeme_string cut.cut).2 raw literal

end FilterLang
