import FilterLang.Proofs.Token.Scan

/-! What stands in the text under a token, and under two words that make one operator. -/

namespace FilterLang

/-- The code of a letter made small. -/
theorem toNat_toLower (c : Char) :
    c.toLower.toNat = if 65 ≤ c.toNat ∧ c.toNat ≤ 90 then c.toNat + 32 else c.toNat := by
  -- Capitals lie in one range, and their small letters thirty-two places above.
  have range : (c.val ≥ 'A'.val ∧ c.val ≤ 'Z'.val) ↔ (65 ≤ c.toNat ∧ c.toNat ≤ 90) := Iff.rfl
  unfold Char.toLower
  split
  · rename_i capital
    have bound := range.mp capital
    rw [if_pos bound]
    show (c.val + ('a'.val - 'A'.val)).toNat = c.toNat + 32
    rw [UInt32.toNat_add]
    show (c.toNat + 32) % 2 ^ 32 = c.toNat + 32
    omega
  · rename_i other
    rw [if_neg (fun bound => other (range.mpr bound))]

/-- The code of a letter made a capital. -/
theorem toNat_toUpper (c : Char) :
    c.toUpper.toNat = if 97 ≤ c.toNat ∧ c.toNat ≤ 122 then c.toNat - 32 else c.toNat := by
  have range : ('a'.val ≤ c.val ∧ c.val ≤ 'z'.val) ↔ (97 ≤ c.toNat ∧ c.toNat ≤ 122) := Iff.rfl
  unfold Char.toUpper
  split
  · rename_i small
    have bound := range.mp small
    rw [if_pos bound]
    -- The distance is negative, so the sum wraps around.
    show (c.val + ('A'.val - 'a'.val)).toNat = c.toNat - 32
    rw [UInt32.toNat_add]
    show (c.toNat + 4294967264) % 2 ^ 32 = c.toNat - 32
    omega
  · rename_i other
    rw [if_neg (fun bound => other (range.mpr bound))]

/-- Capitals do not depend on the case that they are made from. -/
theorem upperCase_lowerCase (cs : List Char) : upperCase (lowerCase cs) = upperCase cs := by
  have each : ∀ c : Char, c.toLower.toUpper = c.toUpper := by
    intro c
    -- The ranges of capitals and of small letters do not meet, and one is the other moved by 32.
    apply Char.toNat_inj.mp
    simp only [toNat_toUpper, toNat_toLower]
    split <;> split <;> (try split) <;> omega
  simp [upperCase, lowerCase, each]

/-- A character that is a letter when made small is no white space. -/
theorem not_isBlank_of_isLetter {c : Char} (letter : isLetter c.toLower = true) :
    isBlank c = false := by
  -- All white space lies outside of the codes from the first capital to the last small letter.
  have code : 65 ≤ c.toLower.toNat ∧ c.toLower.toNat ≤ 122 := by
    have bounds : ('a' ≤ c.toLower ∧ c.toLower ≤ 'z') ∨ ('A' ≤ c.toLower ∧ c.toLower ≤ 'Z') := by
      simpa [isLetter] using letter
    rcases bounds with ⟨low, high⟩ | ⟨low, high⟩
    · have low : 97 ≤ c.toLower.toNat := low
      have high : c.toLower.toNat ≤ 122 := high
      omega
    · have low : 65 ≤ c.toLower.toNat := low
      have high : c.toLower.toNat ≤ 90 := high
      omega
  rw [toNat_toLower] at code
  simp only [isBlank]
  split at code <;> simp <;> omega

/-- A keyword holds no white space. -/
theorem solid_of_lowerCase {cs word : List Char} (same : lowerCase cs = word)
    (letters : word.all isLetter = true) : ∀ c ∈ cs, isBlank c = false := by
  -- Letters are not blank, and lower case makes no letter of anything else.
  intro c member
  apply not_isBlank_of_isLetter
  apply List.all_eq_true.mp letters
  rw [← same]
  exact List.mem_map_of_mem member

/-- A character takes at least one byte, so a count of bytes is not spent before it. -/
theorem exists_byteLength_cons (c : Char) (cs : List Char) :
    ∃ count, byteLength (c :: cs) = count + 1 ∧ c.utf8Size ≤ count + 1 ∧
      count + 1 - c.utf8Size = byteLength cs := by
  -- The count is one less than all the bytes, of which there is one at least.
  have positive := c.utf8Size_pos
  refine ⟨c.utf8Size + byteLength cs - 1, ?_, ?_, ?_⟩
  · simp only [byteLength]
    omega
  · omega
  · omega

/-- Dropping as many bytes as a front takes leaves what is behind it. -/
theorem dropBytes_append (front back : List Char) :
    dropBytes (byteLength front) (front ++ back) = some back := by
  -- Induction on the front, character by character.
  induction front with
  | nil => simp [byteLength]
  | cons c cs ih =>
    obtain ⟨count, whole, fits, left⟩ := exists_byteLength_cons c cs
    rw [whole, List.cons_append, dropBytes, if_pos fits, left, ih]

/-- Taking as many bytes as a front takes gives the front. -/
theorem takeBytes_append (front back : List Char) :
    takeBytes (byteLength front) (front ++ back) = some front := by
  -- Induction on the front, character by character.
  induction front with
  | nil => simp [byteLength]
  | cons c cs ih =>
    obtain ⟨count, whole, fits, left⟩ := exists_byteLength_cons c cs
    rw [whole, List.cons_append, takeBytes, if_pos fits, left, ih]
    rfl

/-- The characters between two places of a text are cut out by the byte offsets of the places. -/
theorem sliceBytes_append (before body after : List Char) :
    sliceBytes (byteLength before) (byteLength before + byteLength body)
      (before ++ (body ++ after)) = some body := by
  -- A slice is what is left after dropping, cut to its length.
  rw [sliceBytes, if_pos (by omega), dropBytes_append, Option.bind_some, Nat.add_sub_cancel_left,
    takeBytes_append]

/-- What is dropped takes as many bytes as were asked for. -/
theorem exists_of_dropBytes {count : Nat} {cs back : List Char}
    (dropped : dropBytes count cs = some back) :
    ∃ front, cs = front ++ back ∧ byteLength front = count := by
  -- Induction as bytes are dropped: a character is dropped whole or not at all.
  fun_induction dropBytes count cs with
  | case1 cs => exact ⟨[], by simpa using dropped, rfl⟩
  | case2 count => cases dropped
  | case3 count c cs fits ih =>
    obtain ⟨front, rfl, size⟩ := ih dropped
    exact ⟨c :: front, rfl, by simp only [byteLength]; omega⟩
  | case4 count c cs cut => cases dropped

/-- What is taken is a front of the text, of as many bytes as were asked for. -/
theorem exists_of_takeBytes {count : Nat} {cs front : List Char}
    (taken : takeBytes count cs = some front) :
    ∃ back, cs = front ++ back ∧ byteLength front = count := by
  -- Induction as bytes are taken: a character is taken whole or not at all.
  fun_induction takeBytes count cs generalizing front with
  | case1 cs =>
    obtain rfl : [] = front := by simpa using taken
    exact ⟨cs, rfl, rfl⟩
  | case2 count => cases taken
  | case3 count c cs fits ih =>
    obtain ⟨rest, inner, rfl⟩ := Option.map_eq_some_iff.mp taken
    obtain ⟨back, rfl, size⟩ := ih inner
    exact ⟨back, rfl, by simp only [byteLength]; omega⟩
  | case4 count c cs cut => cases taken

/-- What is cut out by two byte offsets stands between them in the text. -/
theorem exists_of_sliceBytes {start stop : Nat} {cs body : List Char}
    (cut : sliceBytes start stop cs = some body) :
    ∃ before after, cs = before ++ (body ++ after) ∧ byteLength before = start ∧
      start + byteLength body = stop := by
  -- What is dropped lies before the slice, and what is not taken behind it.
  unfold sliceBytes at cut
  split at cut
  · rename_i ordered
    obtain ⟨back, dropped, taken⟩ := Option.bind_eq_some_iff.mp cut
    obtain ⟨before, rfl, place⟩ := exists_of_dropBytes dropped
    obtain ⟨after, rfl, size⟩ := exists_of_takeBytes taken
    exact ⟨before, after, rfl, place, by omega⟩
  · cases cut

/-- The rest of a word is not counted again. -/
theorem wordsFrom_solid {word : List Char} (solid : ∀ c ∈ word, isBlank c = false)
    (cs : List Char) : wordsFrom true (word ++ cs) = wordsFrom true cs := by
  -- Induction on the word: inside of it nothing is counted.
  induction word with
  | nil => rfl
  | cons c word ih =>
    simp only [List.cons_append, wordsFrom, solid c (by simp), Bool.false_eq_true, if_false,
      if_true]
    exact ih fun d member => solid d (by simp [member])

/-- A word is counted once. -/
theorem wordsFrom_word {word : List Char} (filled : word ≠ [])
    (solid : ∀ c ∈ word, isBlank c = false) (cs : List Char) :
    wordsFrom false (word ++ cs) = wordsFrom true cs + 1 := by
  -- The word is counted at its first character.
  cases word with
  | nil => exact absurd rfl filled
  | cons c word =>
    simp only [List.cons_append, wordsFrom, solid c (by simp), Bool.false_eq_true, if_false]
    rw [wordsFrom_solid fun d member => solid d (by simp [member])]

/-- White space ends a word and counts for nothing. -/
theorem wordsFrom_blank {gap : List Char} (filled : gap ≠ [])
    (blank : ∀ c ∈ gap, isBlank c = true) (inside : Bool) (cs : List Char) :
    wordsFrom inside (gap ++ cs) = wordsFrom false cs := by
  -- Induction on the gap: after any blank a word may begin.
  induction gap generalizing inside with
  | nil => exact absurd rfl filled
  | cons c gap ih =>
    simp only [List.cons_append, wordsFrom, blank c (by simp), if_true]
    cases gap with
    | nil => rfl
    | cons d gap => exact ih (by simp) (fun e member => blank e (by simp [member])) false

/-- The one text, up to capitals, of the kinds that keep no text of their own. -/
def TokenKind.canonical? : TokenKind → Option String
  | andWord => some "and"
  | orWord => some "or"
  | notWord => some "not"
  | inWord => some "in"
  | containsWord => some "contains"
  | trueWord => some "true"
  | falseWord => some "false"
  | openParen => some "("
  | closeParen => some ")"
  | comma => some ","
  | equal => some "="
  | notEqual => some "!="
  | greater => some ">"
  | less => some "<"
  | greaterEqual => some ">="
  | lessEqual => some "<="
  | _ => none

/-- Whether a text spells a token of a kind. -/
def TokenKind.Spells (kind : TokenKind) (cs : List Char) : Prop :=
  (∀ raw ∈ kind.raw?, cs = raw.toList) ∧ ∀ word ∈ kind.canonical?, lowerCase cs = word.toList

/-- A word spells the token that it is. -/
theorem ofWord_spells (word : List Char) : (TokenKind.ofWord word).Spells word := by
  -- A keyword is recognised by its small letters, any other word is kept as it is.
  fun_cases TokenKind.ofWord word
  all_goals simp [TokenKind.Spells, TokenKind.raw?, TokenKind.canonical?]
  all_goals
    rename_i same
    exact String.ofList_inj.mp (by simpa [lowerCase] using same)

/-- A mark that takes a text behind it takes an equals sign or nothing. -/
theorem beforeEqual_body {body rest : List Char} {long short kind : TokenKind}
    (cut : beforeEqual (body ++ rest) long short = (kind, body.length)) :
    (kind = long ∧ body = ['=']) ∨ (kind = short ∧ body = []) := by
  -- The sign stands alone or has been read with the next one.
  rw [beforeEqual_eq] at cut
  split at cut
  · rename_i first
    obtain ⟨rfl, size⟩ := Prod.mk.inj cut
    obtain ⟨d, rfl⟩ := List.length_eq_one_iff.mp size.symm
    simp only [List.singleton_append, List.head?_cons, Option.some.injEq] at first
    exact .inl ⟨rfl, by rw [first]⟩
  · obtain ⟨rfl, size⟩ := Prod.mk.inj cut
    exact .inr ⟨rfl, List.eq_nil_of_length_eq_zero size.symm⟩

/-- The text of a token is its first character and what it takes behind that. -/
theorem lexemeText_body (c : Char) (body rest : List Char) :
    lexemeText c (body ++ rest) body.length = String.ofList (c :: body) := by
  rw [lexemeText, List.take_left' rfl]

/-- A token that keeps its text is spelled by it. -/
theorem spells_raw {kind : TokenKind} {cs : List Char} (kept : kind.raw? = some (String.ofList cs))
    (free : kind.canonical? = none) : kind.Spells cs := by
  simp [TokenKind.Spells, kept, free]

/-- What is cut off as a token spells it. -/
theorem lexeme_spells {c : Char} {body rest : List Char} {kind : TokenKind}
    (cut : lexeme c (body ++ rest) = (kind, body.length)) : kind.Spells (c :: body) := by
  revert cut
  fun_cases lexeme c (body ++ rest) with
  -- Marks of one character, and those that an equals sign may lengthen, are known by their text.
  | case1 | case2 | case3 | case4 =>
    intro cut
    obtain ⟨rfl, size⟩ := Prod.mk.inj cut
    obtain rfl : body = [] := List.eq_nil_of_length_eq_zero size.symm
    simp [TokenKind.Spells, TokenKind.raw?, TokenKind.canonical?, lowerCase]
  | case5 | case6 | case7 =>
    intro cut
    rcases beforeEqual_body cut with ⟨rfl, rfl⟩ | ⟨rfl, rfl⟩ <;>
      simp [TokenKind.Spells, TokenKind.raw?, TokenKind.canonical?, lowerCase]
  -- Strings, numbers and names keep what was cut off.
  | case8 more closed =>
    intro cut
    obtain ⟨rfl, rfl⟩ := Prod.mk.inj cut
    exact spells_raw (congrArg some (lexemeText_body _ body rest)) rfl
  | case9 =>
    intro cut
    obtain ⟨rfl, -⟩ := Prod.mk.inj cut
    simp [TokenKind.Spells, TokenKind.raw?, TokenKind.canonical?]
  | case10 c number =>
    rw [if_pos number]
    intro cut
    obtain ⟨rfl, size⟩ := Prod.mk.inj cut
    rw [size]
    exact spells_raw (congrArg some (lexemeText_body c body rest)) rfl
  | case11 c number word =>
    rw [if_neg number, if_pos word]
    intro cut
    obtain ⟨rfl, size⟩ := Prod.mk.inj cut
    rw [size, List.take_left' rfl]
    exact ofWord_spells (c :: body)
  | case12 c number word =>
    rw [if_neg number, if_neg word]
    intro cut
    obtain ⟨rfl, -⟩ := Prod.mk.inj cut
    simp [TokenKind.Spells, TokenKind.raw?, TokenKind.canonical?]

/-- A run ends at a character that does not belong to it. -/
theorem takeWhile_maximal {p : Char → Bool} {body rest : List Char} {d : Char}
    (size : ((body ++ d :: rest).takeWhile p).length = body.length) : p d = false := by
  -- Were it to go on, one character more would have been taken.
  rw [List.takeWhile_append] at size
  split at size
  · cases continues : p d with
    | false => rfl
    | true => simp [continues] at size
  · rename_i short
    exact absurd size short

/-- The word NOT is cut off whole: what follows it does not continue it. -/
theorem lexeme_maximal {c d : Char} {body rest : List Char}
    (cut : lexeme c (body ++ d :: rest) = (.notWord, body.length)) : continuesWord d = false := by
  revert cut
  -- Only a word can be NOT, and a word is the longest run of characters that continue it.
  fun_cases lexeme c (body ++ d :: rest) with
  | case5 | case6 | case7 =>
    intro cut
    rcases beforeEqual_body cut with ⟨other, -⟩ | ⟨other, -⟩ <;> cases other
  | case10 c number =>
    rw [if_pos number]
    simp
  | case11 c number word =>
    rw [if_neg number, if_pos word]
    intro cut
    exact takeWhile_maximal (Prod.mk.inj cut).2
  | case12 c number word =>
    rw [if_neg number, if_neg word]
    simp
  | _ => simp

/-- A token at its place in a text: what stands there spells it. -/
def Token.SpelledIn (source : List Char) (token : Token) : Prop :=
  ∃ cs, sliceBytes token.span.start token.span.stop source = some cs ∧ token.kind.Spells cs

/-- Two words NOT IN at their places in a text: what stands from one to the other is two words. -/
def TwoWords (source : List Char) (first second : Token) : Prop :=
  ∃ cs, sliceBytes first.span.start second.span.stop source = some cs ∧ 1 < wordCount cs

/--
Tokens that can be read off the text they were cut from.

It is kept by every run of neighbouring tokens, so by the tokens of every part of a query.
-/
structure Legible (source : List Char) (tokens : List Token) : Prop where
  spelled : ∀ token ∈ tokens, token.SpelledIn source
  twoWords : ∀ first second, [first, second] <:+: tokens → first.kind = .notWord →
    second.kind = .inWord → TwoWords source first second

/-- Neighbouring tokens of legible ones are legible. -/
theorem Legible.part {source : List Char} {part tokens : List Token}
    (legible : Legible source tokens) (within : part <:+: tokens) : Legible source part where
  spelled token member := legible.spelled token (within.subset member)
  twoWords first second pair := legible.twoWords first second (pair.trans within)

namespace Scans

/-- The first token of a text stands behind white space only. -/
theorem gap {offset : Nat} {front rest : List Char} {token : Token} {tokens : List Token}
    (scanned : Scans offset front (token :: tokens) rest) :
    ∃ gap c body after, front = gap ++ (c :: body ++ after) ∧ (∀ d ∈ gap, isBlank d = true) ∧
      token.span = ⟨offset + byteLength gap, offset + byteLength gap + byteLength (c :: body)⟩ ∧
      token.kind.Spells (c :: body) := by
  -- The first step that is not over white space cuts off the token.
  generalize all : token :: tokens = list at scanned
  induction scanned with
  | done => cases all
  | @blank offset c cs list rest space scanned ih =>
    obtain ⟨gap, d, body, after, rfl, blank, span, spelled⟩ := ih all
    refine ⟨c :: gap, d, body, after, rfl, ?_, ?_, spelled⟩
    · simpa using ⟨space, blank⟩
    · simpa [byteLength, Nat.add_assoc] using span
  | @token offset c body cs kind list rest solid cut scanned ih =>
    obtain ⟨rfl, rfl⟩ := List.cons.inj all
    exact ⟨[], c, body, cs, rfl, by simp, by simp [byteLength], lexeme_spells cut⟩

/-- Tokens cut from a part of a text are spelled in the text. -/
theorem spelled {front rest : List Char} {tokens : List Token} {offset : Nat}
    (scanned : Scans offset front tokens rest) (seen : List Char)
    (place : offset = byteLength seen) :
    ∀ token ∈ tokens, token.SpelledIn (seen ++ (front ++ rest)) := by
  -- The text seen so far grows by what each step cuts off.
  induction scanned generalizing seen with
  | done => simp
  | @blank offset c cs tokens rest space scanned ih =>
    have later := ih (seen ++ [c]) (by simp [place, byteLength])
    simpa using later
  | @token offset c body cs kind tokens rest solid cut scanned ih =>
    have later := ih (seen ++ c :: body) (by simp [place])
    intro token member
    simp only [List.mem_cons] at member
    rcases member with rfl | member
    · refine ⟨c :: body, ?_, lexeme_spells cut⟩
      simpa [place] using sliceBytes_append seen (c :: body) (cs ++ rest)
    · simpa using later token member

/-- The word IN begins with a character that would continue a word before it. -/
theorem continuesWord_of_inWord {d : Char} {body : List Char}
    (spells : TokenKind.inWord.Spells (d :: body)) : continuesWord d = true := by
  -- The word is known in small letters only, so its first letter may be a capital.
  have small : d.toLower.toNat = 105 := by
    have letters : lowerCase (d :: body) = ['i', 'n'] := spells.2 "in" rfl
    simp only [lowerCase, List.map_cons, List.cons.injEq] at letters
    rw [letters.1]
    rfl
  have either : d = 'i' ∨ d = 'I' := by
    rw [toNat_toLower] at small
    split at small
    · exact .inr (Char.toNat_inj.mp (by show d.toNat = 73; omega))
    · exact .inl (Char.toNat_inj.mp small)
  rcases either with rfl | rfl <;> decide

/-- Where the words NOT and IN come one after the other, white space keeps them apart. -/
theorem twoWords {front rest : List Char} {tokens : List Token} {offset : Nat}
    (scanned : Scans offset front tokens rest) (seen : List Char) (place : offset = byteLength seen)
    (first second : Token) (pair : [first, second] <:+: tokens) (negation : first.kind = .notWord)
    (word : second.kind = .inWord) : TwoWords (seen ++ (front ++ rest)) first second := by
  induction scanned generalizing seen with
  | done => simp at pair
  | @blank offset c cs tokens rest space scanned ih =>
    have later := ih (seen ++ [c]) (by simp [place, byteLength]) pair
    simpa using later
  | @token offset c body cs kind tokens rest solid cut scanned ih =>
    rcases List.infix_cons_iff.mp pair with start | inside
    · obtain ⟨rfl, tail⟩ := List.cons_prefix_cons.mp start
      obtain ⟨tokens, rfl⟩ := tail
      obtain rfl : kind = .notWord := negation
      obtain ⟨gap, d, letters, after, rfl, blank, span, spells⟩ := scanned.gap
      rw [word] at spells
      -- Without white space between them the two would have been one word.
      have apart : gap ≠ [] := by
        rintro rfl
        have ended := lexeme_maximal cut
        rw [continuesWord_of_inWord spells] at ended
        cases ended
      have negated : ∀ e ∈ c :: body, isBlank e = false :=
        solid_of_lowerCase ((lexeme_spells cut).2 "not" rfl) (by decide)
      have included : ∀ e ∈ d :: letters, isBlank e = false :=
        solid_of_lowerCase (spells.2 "in" rfl) (by decide)
      refine ⟨(c :: body) ++ (gap ++ (d :: letters)), ?_, ?_⟩
      · have slice :=
          sliceBytes_append seen ((c :: body) ++ (gap ++ (d :: letters))) (after ++ rest)
        simp only [span, place]
        simpa [byteLength, Nat.add_assoc] using slice
      · have words : wordCount ((c :: body) ++ (gap ++ ((d :: letters) ++ []))) = 2 := by
          rw [wordCount, wordsFrom_word (by simp) negated, wordsFrom_blank apart blank,
            wordsFrom_word (by simp) included]
          rfl
        rw [List.append_nil] at words
        omega
    · have later := ih (seen ++ c :: body) (by simp [place]) inside
      simpa using later

end Scans

/-- The tokens of a text can be read off it. -/
theorem legible_tokenize (text : String) : Legible text.toList (tokenize text) where
  spelled := by simpa using (scans_tokenize text).spelled [] rfl
  twoWords := by simpa using (scans_tokenize text).twoWords [] rfl

end FilterLang
