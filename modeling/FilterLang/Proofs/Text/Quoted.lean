import FilterLang.Proofs.Token.Scan
import FilterLang.Text.Quoted

/-! What string literals stand for, and that every literal cut from a text stands for something. -/

namespace FilterLang

/-- One text is another with each escape put for the character behind its backslash. -/
inductive Unescapes : List Char → List Char → Prop where
  | done : Unescapes [] []
  | plain {c : Char} {cs ds : List Char} (unmarked : c ≠ '\\') (rest : Unescapes cs ds) :
      Unescapes (c :: cs) (c :: ds)
  | escape {c : Char} {cs ds : List Char} (rest : Unescapes cs ds) :
      Unescapes ('\\' :: c :: cs) (c :: ds)

/-- The inside of a literal: no quote stands bare, and each backslash has a character behind it. -/
inductive Escaped : List Char → Prop where
  | done : Escaped []
  | plain {c : Char} {cs : List Char} (unquoted : c ≠ '"') (unmarked : c ≠ '\\')
      (rest : Escaped cs) : Escaped (c :: cs)
  | escape {c : Char} {cs : List Char} (rest : Escaped cs) : Escaped ('\\' :: c :: cs)

/-- A literal stands for a text: the quotes enclose it, escapes aside. -/
def Quoted (raw value : String) : Prop :=
  ∃ body, raw.toList = '"' :: body ++ ['"'] ∧ Unescapes body value.toList

/-- Only one text comes of another by resolving its escapes. -/
theorem Unescapes.eq_unescapeQuoted {cs ds : List Char} (resolved : Unescapes cs ds) :
    ds = unescapeQuoted cs := by
  -- Induction on the derivation, which follows the reader character by character.
  induction resolved with
  | done => rfl
  | plain unmarked rest ih => simp [unescapeQuoted, unmarked, ih]
  | escape rest ih => rw [unescapeQuoted, ih]

/-- A quote at the end is dropped, whatever stands before it. -/
theorem dropLastQuote_append (body : List Char) : dropLastQuote (body ++ ['"']) = body := by
  induction body with
  | nil => rfl
  -- The quote at the end keeps every character before it from being the last.
  | cons c body ih => simp [dropLastQuote, ih]

/-- A literal that stands for a text is unquoted to it. -/
theorem Quoted.unquote_eq {raw value : String} (quoted : Quoted raw value) :
    unquote raw = value := by
  -- The quotes are taken off, and the body is resolved by the reader.
  obtain ⟨body, enclosed, resolved⟩ := quoted
  rw [unquote, enclosed, List.cons_append, insideQuotes, dropLastQuote_append,
    ← resolved.eq_unescapeQuoted, String.ofList_toList]

/-- The inside of a literal stands for some text. -/
theorem Escaped.exists_unescapes {body : List Char} (escaped : Escaped body) :
    ∃ value, Unescapes body value := by
  -- Induction on the body: every character of it is plain or escaped.
  induction escaped with
  | done => exact ⟨[], .done⟩
  | @plain c cs unquoted unmarked rest ih =>
    obtain ⟨value, resolved⟩ := ih
    exact ⟨c :: value, .plain unmarked resolved⟩
  | @escape c cs rest ih =>
    obtain ⟨value, resolved⟩ := ih
    exact ⟨c :: value, .escape resolved⟩

/-- Up to its closing quote a literal has only whole escapes. -/
theorem stringTail?_body {cs : List Char} {more : Nat} (closed : stringTail? cs = some more) :
    ∃ body, cs.take more = body ++ ['"'] ∧ Escaped body := by
  fun_induction stringTail? cs generalizing more with
  -- The text ends before a closing quote.
  | case1 | case3 => cases closed
  | case2 rest =>
    obtain rfl := Option.some.inj closed
    exact ⟨[], rfl, .done⟩
  | case4 c cs ih =>
    obtain ⟨fewer, inside, rfl⟩ := Option.map_eq_some_iff.mp closed
    obtain ⟨body, ended, escaped⟩ := ih inside
    exact ⟨'\\' :: c :: body, by simp [ended], .escape escaped⟩
  | case5 c cs unquoted unfinished escapes ih =>
    obtain ⟨fewer, inside, rfl⟩ := Option.map_eq_some_iff.mp closed
    obtain ⟨body, ended, escaped⟩ := ih inside
    -- A backslash would have been one of the two cases before.
    have unmarked : c ≠ '\\' := by
      rintro rfl
      cases cs with
      | nil => exact unfinished rfl rfl
      | cons d cs => exact escapes d cs rfl rfl
    exact ⟨c :: body, by simp [ended], .plain unquoted unmarked escaped⟩

/-- A word is never a string literal, be it closed or not. -/
theorem ofWord_ne_string (word : List Char) :
    TokenKind.ofWord word ≠ .unterminated ∧ ∀ raw, TokenKind.ofWord word ≠ .string raw := by
  -- Words are keywords or names.
  unfold TokenKind.ofWord
  split <;> exact ⟨nofun, nofun⟩

/-- A string literal is cut off behind its closing quote, and else at the end of the text. -/
theorem lexeme_string {c : Char} {cs : List Char} {kind : TokenKind} {more : Nat}
    (cut : lexeme c cs = (kind, more)) :
    (kind = .unterminated → more = cs.length) ∧ ∀ raw, kind = .string raw →
      ∃ body, raw.toList = '"' :: body ++ ['"'] ∧ Escaped body := by
  revert cut
  -- Only a quote begins a string literal, and the closing one is looked for behind it.
  fun_cases lexeme c cs with
  | case8 closing closed =>
    rintro ⟨⟩
    refine ⟨by simp, ?_⟩
    rintro raw ⟨⟩
    obtain ⟨body, ended, escaped⟩ := stringTail?_body closed
    exact ⟨body, by simp [lexemeText, ended], escaped⟩
  | case9 =>
    rintro ⟨⟩
    exact ⟨fun _ => rfl, by simp⟩
  | case5 | case6 | case7 =>
    intro cut
    unfold beforeEqual at cut
    split at cut <;> (cases cut; simp)
  | case10 c number =>
    rw [if_pos number]
    rintro ⟨⟩
    simp
  | case11 c number word =>
    rw [if_neg number, if_pos word]
    rintro ⟨⟩
    obtain ⟨ended, other⟩ := ofWord_ne_string (c :: cs.take (cs.takeWhile continuesWord).length)
    exact ⟨fun same => absurd same ended, fun raw same => absurd same (other raw)⟩
  | case12 c number word =>
    rw [if_neg number, if_neg word]
    rintro ⟨⟩
    simp
  | _ =>
    rintro ⟨⟩
    simp

/-- A token that is no string literal, or one that stands for some text. -/
def Token.WellQuoted (token : Token) : Prop :=
  ∀ raw, token.kind = .string raw → ∃ value, Quoted raw value

/-- Every string literal cut from a part of a text stands for some text. -/
theorem Scans.wellQuoted {offset : Nat} {front rest : List Char} {tokens : List Token}
    (scanned : Scans offset front tokens rest) : ∀ token ∈ tokens, token.WellQuoted := by
  -- Strings are only made of what the scanner takes for a
  -- quoted body, and such a body can always be resolved.
  apply scanned.forall_kind fun kind => ∀ raw, kind = .string raw → ∃ value, Quoted raw value
  intro c cs raw literal
  obtain ⟨body, enclosed, escaped⟩ := (lexeme_string rfl).2 raw literal
  obtain ⟨value, resolved⟩ := escaped.exists_unescapes
  exact ⟨String.ofList value, body, enclosed, by simpa using resolved⟩

end FilterLang
