import FilterLang.Grammar
import FilterLang.Proofs.Token.Scan

/-! Where the tokens of a text stand. -/

namespace FilterLang

/-- An offset stands between two characters of a text, or at one of its ends. -/
def Boundary (source : List Char) (offset : Nat) : Prop :=
  ∃ front back, source = front ++ back ∧ byteLength front = offset

/-- A text begins between characters. -/
theorem boundary_zero (source : List Char) : Boundary source 0 :=
  ⟨[], source, rfl, rfl⟩

/-- A text ends between characters. -/
theorem boundary_byteLength (source : List Char) : Boundary source (byteLength source) :=
  ⟨source, [], by simp, rfl⟩

/-- No boundary lies behind the end of a text. -/
theorem Boundary.le {source : List Char} {offset : Nat} (boundary : Boundary source offset) :
    offset ≤ byteLength source := by
  -- What lies before a boundary is a part of the source.
  obtain ⟨front, back, rfl, rfl⟩ := boundary
  rw [byteLength_append]
  omega

/-- Between an earlier and a later cut of one text stands a part of it. -/
theorem exists_between {front back before after : List Char}
    (same : front ++ back = before ++ after) (ordered : byteLength front ≤ byteLength before) :
    ∃ gap, before = front ++ gap ∧ back = gap ++ after := by
  rcases List.append_eq_append_iff.mp same with ⟨gap, later, rest⟩ | ⟨gap, rfl, rfl⟩
  · exact ⟨gap, later, rest⟩
  · cases gap with
    | nil => exact ⟨[], by simp, rfl⟩
    | cons c gap =>
      -- Every character takes a byte, so the cuts would stand in the other order.
      have positive := c.utf8Size_pos
      simp only [byteLength_append, byteLength] at ordered
      omega

/-- Tokens that hold at least one byte each and end before the next one begins. -/
def InOrder (textEnd : Nat) : List Token → Prop
  | [] => True
  | token :: rest =>
    token.span.start < token.span.stop ∧ token.span.stop ≤ nextOffset textEnd rest ∧
      InOrder textEnd rest

namespace InOrder

variable {textEnd : Nat}

/-- The tokens behind some others are in order as well. -/
theorem of_append {front back : List Token} (ordered : InOrder textEnd (front ++ back)) :
    InOrder textEnd back := by
  -- Each token is in order before those behind it, so the front can be taken off.
  induction front with
  | nil => exact ordered
  | cons token front ih => exact ih ordered.2.2

/-- Each of the tokens holds at least one byte. -/
theorem filled {tokens : List Token} (ordered : InOrder textEnd tokens) :
    ∀ token ∈ tokens, token.span.start < token.span.stop := by
  -- Being in order says of each token in turn that it has width.
  induction tokens with
  | nil => simp
  | cons token tokens ih =>
    rw [List.forall_mem_cons]
    exact ⟨ordered.1, ih ordered.2.2⟩

/-- A token begins before the next one ends. -/
theorem start_lt_stop {first second : Token} {rest : List Token}
    (ordered : InOrder textEnd (first :: second :: rest)) :
    first.span.start < second.span.stop := by
  -- The second token begins no earlier than the first one ends.
  obtain ⟨filled, before, wide, -⟩ := ordered
  simp only [nextOffset] at before
  omega

/-- Tokens reach from where the first begins to no further than the end of the text. -/
theorem reach {first : Token} {rest : List Token} (ordered : InOrder textEnd (first :: rest)) :
    first.span.start < (rest.getLastD first).span.stop ∧
      (rest.getLastD first).span.stop ≤ textEnd := by
  -- Induction on the tokens behind: each ends after the one before it.
  induction rest generalizing first with
  | nil => exact ⟨ordered.1, ordered.2.1⟩
  | cons second rest ih =>
    obtain ⟨filled, before, later⟩ := ordered
    obtain ⟨wide, inside⟩ := ih later
    simp only [nextOffset] at before
    rw [List.getLastD_cons]
    omega

/-- Nothing begins behind the end of the text. -/
theorem nextOffset_le {tokens : List Token} (ordered : InOrder textEnd tokens) :
    nextOffset textEnd tokens ≤ textEnd := by
  -- The first token begins before the last one ends.
  cases tokens with
  | nil => exact Nat.le_refl _
  | cons first rest =>
    obtain ⟨wide, inside⟩ := ordered.reach
    show first.span.start ≤ textEnd
    omega

end InOrder

namespace Scans

/-- A token begins no earlier than the text that it is the first of. -/
theorem le_nextOffset {offset : Nat} {front rest : List Char} {tokens : List Token}
    (scanned : Scans offset front tokens rest) :
    offset ≤ nextOffset (offset + byteLength front) tokens := by
  induction scanned with
  | done => exact Nat.le_add_right _ _
  | @blank offset c cs tokens rest space _ ih =>
    -- White space moves the beginning of the text, but neither its end nor its tokens.
    have same : offset + byteLength (c :: cs) = offset + c.utf8Size + byteLength cs := by
      simp only [byteLength]
      omega
    rw [same]
    omega
  | token => exact Nat.le_refl _

/-- The tokens cut off a text are in order up to its end. -/
theorem inOrder {offset : Nat} {front rest : List Char} {tokens : List Token}
    (scanned : Scans offset front tokens rest) :
    InOrder (offset + byteLength front) tokens := by
  -- Induction on the scan: blanks move the start, and a token has one character at least.
  induction scanned with
  | done => trivial
  | @blank offset c cs tokens rest space _ ih =>
    simpa only [byteLength, Nat.add_assoc] using ih
  | @token offset c body cs kind tokens rest solid cut later ih =>
    have positive := c.utf8Size_pos
    have behind := later.le_nextOffset
    have whole : offset + byteLength (c :: (body ++ cs))
        = offset + byteLength (c :: body) + byteLength cs := by
      simp only [byteLength, byteLength_append]
      omega
    rw [whole]
    refine ⟨?_, behind, ih⟩
    show offset < offset + byteLength (c :: body)
    simp only [byteLength]
    omega

/-- The tokens cut off a text begin and end between its characters. -/
theorem boundaries {offset : Nat} {front rest : List Char} {tokens : List Token}
    (scanned : Scans offset front tokens rest) (seen : List Char)
    (place : byteLength seen = offset) :
    ∀ token ∈ tokens, Boundary (seen ++ (front ++ rest)) token.span.start ∧
      Boundary (seen ++ (front ++ rest)) token.span.stop := by
  -- What was already cut off joins the text before the tokens that are still to come.
  induction scanned generalizing seen with
  | done => simp
  | @blank offset c cs tokens rest space _ ih =>
    simpa using ih (seen ++ [c]) (by simp [byteLength, place])
  | @token offset c body cs kind tokens rest solid cut _ ih =>
    rw [List.forall_mem_cons]
    constructor
    · exact ⟨⟨seen, _, rfl, place⟩, ⟨seen ++ (c :: body), cs ++ rest, by simp, by simp [place]⟩⟩
    · simpa using ih (seen ++ (c :: body)) (by simp [place])

end Scans

/-- The tokens of a text are in order up to its end. -/
theorem inOrder_tokenize (text : String) : InOrder (byteSize text) (tokenize text) := by
  simpa [byteSize] using (scans_tokenize text).inOrder

/-- The tokens of a text begin and end between its characters. -/
theorem boundaries_tokenize (text : String) : ∀ token ∈ tokenize text,
    Boundary text.toList token.span.start ∧ Boundary text.toList token.span.stop := by
  simpa using (scans_tokenize text).boundaries [] rfl

end FilterLang
