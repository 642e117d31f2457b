import FilterLang.Proofs.Text.Quoted
import FilterLang.Proofs.Token.Splice

/-! Texts that are cut into the same kinds of tokens wherever they stand. -/

namespace FilterLang

/-- A text is cut into tokens of the given kinds wherever it stands, if what follows is apart. -/
def Cuts (cs : List Char) (kinds : List TokenKind) : Prop :=
  ∀ (offset : Nat) (rest : List Char), Apart rest →
    ∃ tokens, Scans offset cs tokens rest ∧ tokens.map (·.kind) = kinds

namespace Cuts

/-- Nothing is cut off an empty text. -/
theorem nil : Cuts [] [] :=
  fun _ _ _ => ⟨[], .done, rfl⟩

/-- A text is cut elsewhere as it is cut alone, unless it leaves a string open. -/
theorem of_tokenize {text : String} {kinds : List TokenKind}
    (cut : (tokenize text).map (·.kind) = kinds) (closed : .unterminated ∉ kinds) :
    Cuts text.toList kinds := by
  intro offset rest apart
  have whole : ∀ token ∈ tokenize text, token.kind ≠ .unterminated := by
    intro token member open'
    exact closed (cut ▸ open' ▸ List.mem_map_of_mem member)
  -- Alone, a text has nothing behind it; its tokens stay the same before anything that is apart.
  obtain ⟨tokens, scanned, same⟩ := ((scans_tokenize text).exchange whole apart).moved offset
  exact ⟨tokens, scanned, same.trans cut⟩

/-- The tokens of a text that is cut into kinds are of these kinds. -/
theorem tokenize_kinds {text : String} {kinds : List TokenKind} (cuts : Cuts text.toList kinds) :
    (tokenize text).map (·.kind) = kinds := by
  -- At the end of a text nothing can go on with its last token.
  obtain ⟨tokens, scanned, same⟩ := cuts 0 [] (by simp [Apart])
  rw [tokenize_of_scans scanned, same]

/-- A text can stand before another that is apart from it. -/
theorem append {front back : List Char} {first second : List TokenKind} (early : Cuts front first)
    (late : Cuts back second) (apart : ∀ rest, Apart rest → Apart (back ++ rest)) :
    Cuts (front ++ back) (first ++ second) := by
  intro offset rest behind
  obtain ⟨left, scanned, sameLeft⟩ := early offset (back ++ rest) (apart rest behind)
  -- The second text begins where the first one ends.
  obtain ⟨right, next, sameRight⟩ := late (offset + byteLength front) rest behind
  exact ⟨left ++ right, scanned.append next, by rw [List.map_append, sameLeft, sameRight]⟩

/-- A text can stand behind a blank. -/
theorem blank {cs : List Char} {kinds : List TokenKind} (cuts : Cuts cs kinds) :
    Cuts (' ' :: cs) kinds := by
  -- The blank is passed over, and the rest is cut from one place further.
  intro offset rest apart
  obtain ⟨tokens, scanned, same⟩ := cuts (offset + ' '.utf8Size) rest apart
  exact ⟨tokens, .blank (by decide) scanned, same⟩

/-- A text can stand behind a mark. -/
theorem mark {c : Char} {kind : TokenKind} (solid : isBlank c = false)
    (alone : ∀ cs, lexeme c cs = (kind, 0)) {cs : List Char} {kinds : List TokenKind}
    (cuts : Cuts cs kinds) : Cuts (c :: cs) (kind :: kinds) := by
  -- The mark is a token by itself, and the rest is cut behind it.
  intro offset rest apart
  obtain ⟨tokens, scanned, same⟩ := cuts (offset + c.utf8Size) rest apart
  obtain ⟨span, marked⟩ := Scans.mark solid alone scanned
  exact ⟨_, marked, by rw [List.map_cons, same]⟩

/-- Two texts can stand side by side with a blank between them. -/
theorem spaced {front back : List Char} {first second : List TokenKind} (early : Cuts front first)
    (late : Cuts back second) : Cuts (front ++ ' ' :: back) (first ++ second) :=
  early.append late.blank fun _ _ => apart_cons (by decide) _

/-- A text can be put in parentheses, before another text. -/
theorem parenthesized {inside back : List Char} {kinds others : List TokenKind}
    (cuts : Cuts inside kinds) (late : Cuts back others) :
    Cuts ('(' :: (inside ++ ')' :: back)) (.openParen :: (kinds ++ .closeParen :: others)) := by
  -- The closing parenthesis is apart from whatever stands inside.
  have closing : Cuts (')' :: back) (.closeParen :: others) :=
    late.mark (by decide) fun _ => rfl
  exact (cuts.append closing fun _ _ => apart_cons (by decide) _).mark (by decide) fun _ => rfl

/-- Two texts can stand side by side with a comma and a blank between them. -/
theorem listed {front back : List Char} {first second : List TokenKind} (early : Cuts front first)
    (late : Cuts back second) : Cuts (front ++ ',' :: ' ' :: back) (first ++ .comma :: second) := by
  -- A comma ends the token before it and is one itself.
  have separator : Cuts (',' :: ' ' :: back) (.comma :: second) :=
    late.blank.mark (by decide) fun _ => rfl
  exact early.append separator fun _ _ => apart_cons (by decide) _

end Cuts

/-- The escapes of a text resolve to it. -/
theorem unescapes_escapeQuoted (cs : List Char) : Unescapes (escapeQuoted cs) cs := by
  induction cs with
  | nil => exact .done
  | cons c cs ih =>
    -- Only quotes and backslashes have a backslash put before them.
    rw [escapeQuoted]
    split
    · exact .escape ih
    · rename_i plain
      exact .plain (fun same => plain (.inr same)) ih

/-- The literal for a text stands for it. -/
theorem quoted_quote (text : String) : Quoted (quote text) text :=
  ⟨escapeQuoted text.toList, by simp [quote], unescapes_escapeQuoted text.toList⟩

/-- The first quote that is not escaped ends a literal. -/
theorem stringTail?_escapeQuoted (cs rest : List Char) :
    stringTail? (escapeQuoted cs ++ '"' :: rest) = some ((escapeQuoted cs).length + 1) := by
  induction cs with
  | nil => rfl
  | cons c cs ih =>
    rw [escapeQuoted]
    -- A backslash takes the character behind it along, so an escaped quote ends nothing.
    split
    · simp [stringTail?, ih]
    · rename_i plain
      rw [not_or] at plain
      rw [List.cons_append, stringTail?_plain plain.1 plain.2, ih]
      simp

/-- The literal for a text is cut off as one token, whatever stands behind it. -/
theorem scans_quote (offset : Nat) (text : String) (rest : List Char) :
    Scans offset (quote text).toList
      [⟨.string (quote text), ⟨offset, offset + byteSize (quote text)⟩⟩] rest := by
  obtain ⟨body, inside⟩ : ∃ body, body = escapeQuoted text.toList ++ ['"'] := ⟨_, rfl⟩
  have literal : (quote text).toList = '"' :: (body ++ []) := by simp [quote, inside]
  -- The literal ends by itself, so it does not matter what stands behind it.
  have closed : stringTail? (body ++ ([] ++ rest)) = some body.length := by
    simpa [inside] using stringTail?_escapeQuoted text.toList rest
  have cut : lexeme '"' (body ++ ([] ++ rest)) = (.string (quote text), body.length) := by
    have spelled : lexemeText '"' (body ++ ([] ++ rest)) body.length = quote text := by
      rw [lexemeText_body, quote, inside]
      rfl
    simp only [lexeme, closed, spelled]
  rw [byteSize, literal, List.append_nil]
  simpa using Scans.token (by decide) cut .done

/-- The literal for a text is cut off as one token. -/
theorem cuts_quote (text : String) : Cuts (quote text).toList [.string (quote text)] :=
  fun offset rest _ => ⟨_, scans_quote offset text rest, rfl⟩

end FilterLang
