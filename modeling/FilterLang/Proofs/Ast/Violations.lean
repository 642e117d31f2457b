import FilterLang.Proofs.Ast.Spans
import Mathlib.Algebra.Ring.Nat
import Mathlib.Data.List.TakeWhile
import Mathlib.Order.MinMax

/-! The structural checks report exactly the violations of an envelope. -/

namespace FilterLang

mutual

/-- How many values a value is made of, itself included. -/
def Value.count : Value → Nat
  | .list items _ => 1 + Value.countOfAll items
  | _ => 1

/-- How many values several values are made of. -/
def Value.countOfAll : List Value → Nat
  | [] => 0
  | value :: values => value.count + Value.countOfAll values

end

/-- How many expressions and values an expression is made of, itself included. -/
def Node.count : Node → Nat
  | .comparison _ _ value _ => 1 + value.count
  | .logical _ left right _ => 1 + (left.count + right.count)
  | .negation expression _ => 1 + expression.count

mutual

/-- How many levels a value has. -/
def Value.height : Value → Nat
  | .list items _ => 1 + Value.heightOfAll items
  | _ => 1

/-- How many levels the highest of several values has. -/
def Value.heightOfAll : List Value → Nat
  | [] => 0
  | value :: values => max value.height (Value.heightOfAll values)

end

/-- How many levels an expression has; the value of a comparison is one below it. -/
def Node.height : Node → Nat
  | .comparison _ _ value _ => 1 + value.height
  | .logical _ left right _ => 1 + max left.height right.height
  | .negation expression _ => 1 + expression.height

mutual

/-- The texts in a value. -/
def Value.texts : Value → List String
  | .string text _ => [text]
  | .list items _ => Value.textsOfAll items
  | _ => []

/-- The texts in several values. -/
def Value.textsOfAll : List Value → List String
  | [] => []
  | value :: values => value.texts ++ Value.textsOfAll values

end

/-- The texts that an expression compares with. -/
def Node.texts : Node → List String
  | .comparison _ _ value _ => value.texts
  | .logical _ left right _ => left.texts ++ right.texts
  | .negation expression _ => expression.texts

/-- The operators of the comparisons in an expression. -/
def Node.operators : Node → List String
  | .comparison _ operator _ _ => [operator]
  | .logical _ left right _ => left.operators ++ right.operators
  | .negation expression _ => expression.operators

/-- Nothing but white space: nothing is left of the text once it is trimmed. -/
def TrimsAway (text : String) : Prop :=
  trim text.toList = []

instance (text : String) : Decidable (TrimsAway text) :=
  inferInstanceAs (Decidable (trim text.toList = []))

/-- The number of times that something is to be reported which is reported at most once. -/
def once (condition : Prop) [Decidable condition] : Nat :=
  if condition then 1 else 0

/-- How many of some places are no ranges of a text of a length. -/
def strays (length : Nat) (spans : List Span) : Nat :=
  spans.countP fun span => ¬ (span.start ≤ span.stop ∧ span.stop ≤ length)

/-- How many of some operators are blank. -/
def blanks (operators : List String) : Nat :=
  operators.countP fun operator => TrimsAway operator

/-- How many of some texts take more bytes than a limit. -/
def overlong (limit : Nat) (texts : List String) : Nat :=
  texts.countP fun text => limit < byteSize text

/-- How often the parts of an expression violate what a code stands for. -/
def Node.violations (limits : Limits) (length : Nat) (node : Node) : DiagnosticCode → Nat
  | .invalidSpan => strays length node.spans
  | .emptyOperator => blanks node.operators
  | .stringLiteralTooLarge => overlong limits.maxStringLiteralLength.toNat node.texts
  | _ => 0

/-- How often an envelope violates what a code stands for. -/
def Envelope.violations (config : Config) (envelope : Envelope) : DiagnosticCode → Nat
  | .unsupportedAstVersion => once (envelope.astVersion ∉ config.supportedAstVersions)
  | .missingGrammarVersion => once (TrimsAway envelope.grammarVersion)
  | .rawQueryTooLarge =>
    once (config.limits.maxRawQueryLength.toNat < byteSize envelope.rawQuery)
  | .astTooLarge => once (config.limits.maxNodeCount.toNat < envelope.root.size)
  | .astTooDeep => once (config.limits.maxDepth.toNat < envelope.root.depth)
  | .unsupportedParserMetadata =>
    once (∃ noted ∈ envelope.metadata, noted.parser ≠ config.expectedParser)
  | .invalidMetadata =>
    once (∃ noted ∈ envelope.metadata, noted.nodeCount = 0 ∨ noted.maxDepth = 0)
  -- What can be wrong at any number of places is counted at each of them.
  | code => envelope.root.violations config.limits (byteSize envelope.rawQuery) code

section Trimming

/-- Trimming the end takes white space only, so what is left is blank if the whole text was. -/
theorem all_isBlank_trimEnd (cs : List Char) : (trimEnd cs).all isBlank = cs.all isBlank := by
  induction cs with
  | nil => rfl
  | cons c cs ih =>
    rw [trimEnd, List.all_cons, ← ih]
    -- The character itself stays unless it and all that follows is blank.
    cases trimEnd cs with
    | nil => cases blank : isBlank c <;> simp [blank]
    | cons kept rest => rfl

/-- A text trims away exactly when all of it is white space. -/
theorem trimsAway_iff (text : String) : TrimsAway text ↔ allBlank text = true := by
  -- Taking white space away from both ends leaves nothing exactly if there is nothing else.
  rw [TrimsAway, trim, trimStart, List.dropWhile_eq_nil_iff, ← List.all_eq_true,
    all_isBlank_trimEnd]
  rfl

end Trimming

/-- A number for each part of an expression that adds up over what the part holds. -/
structure AddsUp (weight : Item → Nat) (ofValue : Value → Nat) (ofNode : Node → Nat) : Prop where
  scalar : ∀ value, (∀ items span, value ≠ .list items span) →
    ofValue value = weight (.value value)
  list : ∀ items span,
    ofValue (.list items span) = weight (.value (.list items span)) + (items.map ofValue).sum
  comparison : ∀ field operator value span, ofNode (.comparison field operator value span) =
    weight (.node (.comparison field operator value span)) + ofValue value
  logical : ∀ operator left right span, ofNode (.logical operator left right span) =
    weight (.node (.logical operator left right span)) + (ofNode left + ofNode right)
  negation : ∀ expression span, ofNode (.negation expression span) =
    weight (.node (.negation expression span)) + ofNode expression

namespace AddsUp

variable {weight : Item → Nat} {ofValue : Value → Nat} {ofNode : Node → Nat}

mutual

/-- The weights met on a walk over a value add up to that of the whole value. -/
theorem sum_walk_value (adds : AddsUp weight ofValue ofNode) : ∀ (value : Value) (depth : Nat),
    ((value.walk depth).map fun entry => weight entry.2).sum = ofValue value
  -- Mutual recursion with the lists of values: a list weighs itself and its items.
  | .string _ _, _ | .number _ _ _, _ | .boolean _ _, _ => by
    rw [adds.scalar _ (by simp)]
    simp [Value.walk]
  | .list items _, depth => by
    rw [adds.list, Value.walk, List.map_cons, List.sum_cons, sum_walkAll adds items (depth + 1)]

/-- The weights met on a walk over several values add up to those of the values. -/
theorem sum_walkAll (adds : AddsUp weight ofValue ofNode) : ∀ (values : List Value) (depth : Nat),
    ((Value.walkAll depth values).map fun entry => weight entry.2).sum = (values.map ofValue).sum
  | [], _ => rfl
  | value :: values, depth => by
    rw [Value.walkAll, List.map_append, List.sum_append, sum_walk_value adds value depth,
      sum_walkAll adds values depth, List.map_cons, List.sum_cons]

end

/-- The weights met on a walk over an expression add up to that of the whole expression. -/
theorem sum_walk (adds : AddsUp weight ofValue ofNode) (node : Node) (depth : Nat) :
    ((node.walk depth).map fun entry => weight entry.2).sum = ofNode node := by
  -- Induction on the expression; each law of the weights is one production of the walk.
  induction node generalizing depth with
  | comparison field operator value span =>
    rw [Node.walk, List.map_cons, List.sum_cons, sum_walk_value adds, adds.comparison]
  | logical operator left right span ihLeft ihRight =>
    rw [Node.walk, List.map_cons, List.sum_cons, List.map_append, List.sum_append, ihLeft, ihRight,
      adds.logical]
  | negation expression span ih =>
    rw [Node.walk, List.map_cons, List.sum_cons, ih, adds.negation]

end AddsUp

section Measures

/-- Several values are made of what each of them is made of. -/
theorem Value.countOfAll_eq (values : List Value) :
    Value.countOfAll values = (values.map Value.count).sum := by
  -- Induction on the values; lists are counted by a recursion of their own.
  induction values with
  | nil => rfl
  | cons value values ih => rw [Value.countOfAll, ih, List.map_cons, List.sum_cons]

/-- The texts in several values are those in each of them. -/
theorem Value.textsOfAll_eq (values : List Value) :
    Value.textsOfAll values = values.flatMap Value.texts := by
  -- Induction on the values; the texts of a list are gathered by a recursion of their own.
  induction values with
  | nil => rfl
  | cons value values ih => rw [Value.textsOfAll, ih, List.flatMap_cons]

/-- Every part of an expression is counted once. -/
theorem addsUp_count : AddsUp (fun _ => 1) Value.count Node.count where
  scalar value single := by
    -- Scalars count as one, and a list as one more than its items.
    cases value with
    | list items span => exact absurd rfl (single items span)
    | _ => rfl
  list items span := by rw [Value.count, Value.countOfAll_eq]
  comparison _ _ _ _ := rfl
  logical _ _ _ _ := rfl
  negation _ _ := rfl

/-- The size of an expression is the number of its parts. -/
theorem Node.size_eq_count (node : Node) : node.size = node.count := by
  -- The length of the walk is its weight when every entry weighs one.
  rw [← addsUp_count.sum_walk node 1, List.map_const', List.sum_replicate_nat, Nat.mul_one]
  rfl

mutual

/-- From above a value, a walk over it reaches as many levels deeper as the value has. -/
theorem Value.foldl_walk : ∀ (value : Value) {above deepest : Nat}, above ≤ deepest →
    (value.walk (above + 1)).foldl (fun deepest entry => max deepest entry.1) deepest =
      max deepest (above + value.height)
  -- Mutual recursion with the lists of values. The deepest entry so far is at least as deep as what
  -- lies above, so a leaf raises it to its own level and no further.
  | .string _ _, _, _, _ | .number _ _ _, _, _, _ | .boolean _ _, _, _, _ => by
    simp [Value.walk, Value.height]
  | .list items _, above, deepest, _ => by
    rw [Value.walk, List.foldl_cons, Value.foldl_walkAll items (Nat.le_max_right _ _),
      Value.height]
    omega

/-- From above several values, a walk over them reaches as deep as the highest of them. -/
theorem Value.foldl_walkAll : ∀ (values : List Value) {above deepest : Nat}, above ≤ deepest →
    (Value.walkAll (above + 1) values).foldl (fun deepest entry => max deepest entry.1) deepest =
      max deepest (above + Value.heightOfAll values)
  | [], above, deepest, reached => by
    simp only [Value.walkAll, List.foldl_nil, Value.heightOfAll]
    omega
  | value :: values, above, deepest, reached => by
    rw [Value.walkAll, List.foldl_append, Value.foldl_walk value reached,
      Value.foldl_walkAll values (Nat.le_trans reached (Nat.le_max_left _ _)), Value.heightOfAll]
    omega

end

/-- From above an expression, a walk over it reaches as many levels deeper as it has. -/
theorem Node.foldl_walk (node : Node) {above deepest : Nat} (reached : above ≤ deepest) :
    (node.walk (above + 1)).foldl (fun deepest entry => max deepest entry.1) deepest =
      max deepest (above + node.height) := by
  -- The level of the node itself is reached before those below it.
  have own : above + 1 ≤ max deepest (above + 1) := Nat.le_max_right _ _
  induction node generalizing above deepest with
  | comparison field operator value span =>
    rw [Node.walk, List.foldl_cons, Value.foldl_walk value own, Node.height]
    omega
  | logical operator left right span ihLeft ihRight =>
    rw [Node.walk, List.foldl_cons, List.foldl_append, ihLeft own (Nat.le_max_right _ _),
      ihRight (Nat.le_trans own (Nat.le_max_left _ _)) (Nat.le_max_right _ _), Node.height]
    omega
  | negation expression span ih =>
    rw [Node.walk, List.foldl_cons, ih own (Nat.le_max_right _ _), Node.height]
    omega

/-- The depth of an expression is the number of its levels. -/
theorem Node.depth_eq_height (node : Node) : node.depth = node.height := by
  -- Nothing lies above the root, so what is reached is the height alone.
  have deepest := node.foldl_walk (Nat.le_refl 0)
  rw [Nat.zero_add, Nat.zero_max, Nat.zero_add] at deepest
  exact deepest

/-- The greatest depth in a walk passes a limit exactly when some depth does. -/
theorem lt_foldl_depth_iff {limit deepest : Nat} {items : List (Nat × Item)} :
    limit < items.foldl (fun deepest entry => max deepest entry.1) deepest ↔
      limit < deepest ∨ ∃ entry ∈ items, limit < entry.1 := by
  -- Induction on the walk: a maximum passes a limit when one of its entries does.
  induction items generalizing deepest with
  | nil => simp
  | cons entry rest ih =>
    rw [List.foldl_cons, ih, lt_max_iff, or_assoc]
    simp

end Measures

/-- How many of some reports have a code. -/
def reported (code : DiagnosticCode) (reports : List Diagnostic) : Nat :=
  reports.countP (·.code == code)

/-- A number of reports that all have one code, counted for another. -/
def tallied (own : DiagnosticCode) (number : Nat) (code : DiagnosticCode) : Nat :=
  if own = code then number else 0

section Reported

variable {code : DiagnosticCode}

/-- Reports count in full for their own code. -/
@[simp] theorem tallied_self (number : Nat) : tallied code number code = number :=
  if_pos rfl

/-- Reports do not count for another code. -/
theorem tallied_of_ne {own : DiagnosticCode} (other : own ≠ code) (number : Nat) :
    tallied own number code = 0 :=
  if_neg other

/-- No report counts for any code. -/
@[simp] theorem tallied_zero (own : DiagnosticCode) : tallied own 0 code = 0 :=
  ite_self 0

/-- Reports of one code add up. -/
theorem tallied_add (own : DiagnosticCode) (left right : Nat) :
    tallied own (left + right) code = tallied own left code + tallied own right code := by
  -- A code other than the one tallied counts nothing on both sides.
  unfold tallied
  split <;> rfl

/-- No report has the code. -/
@[simp] theorem reported_nil : reported code [] = 0 := rfl

/-- The reports of two lists add up. -/
@[simp] theorem reported_append (left right : List Diagnostic) :
    reported code (left ++ right) = reported code left + reported code right :=
  List.countP_append

/-- One report has its own code. -/
@[simp] theorem reported_structureError (own : DiagnosticCode) (message : String) (span : Span) :
    reported code [structureError own message span] = tallied own 1 code := by
  simp [reported, structureError, Diagnostic.error, tallied]

/-- What is reported only if a condition holds counts only then. -/
theorem reported_when {condition : Prop} [Decidable condition] (own : DiagnosticCode)
    (message : String) (span : Span) :
    reported code (if condition then [structureError own message span] else []) =
      tallied own (once condition) code := by
  split <;> simp [once, *]

/-- What is reported unless a condition holds counts only otherwise. -/
theorem reported_unless {condition : Prop} [Decidable condition] (own : DiagnosticCode)
    (message : String) (span : Span) :
    reported code (if condition then [] else [structureError own message span]) =
      tallied own (once (¬ condition)) code := by
  split <;> simp [once, *]

/-- The reports on several things add up. -/
theorem reported_flatMap {α : Type} (reports : α → List Diagnostic) (inputs : List α) :
    reported code (inputs.flatMap reports) =
      (inputs.map fun input => reported code (reports input)).sum := by
  -- Counting goes through one input after another.
  rw [reported, List.countP_flatMap]
  rfl

end Reported

/-- The reports on an item, its depth apart. -/
def partReports (limits : Limits) (length : Nat) (item : Item) : List Diagnostic :=
  spanReports length item.span ++ contentReports limits length item

/-- The report on the first item of a walk that is too deep. -/
def depthReports (limits : Limits) (length : Nat) (items : List (Nat × Item)) : List Diagnostic :=
  match items.find? fun entry => limits.maxDepth.toNat < entry.1 with
  | none => []
  | some entry =>
    [structureError .astTooDeep s!"AST is deeper than {limits.maxDepth.toNat} levels"
      (displaySpan length entry.2.span)]

section Items

variable {limits : Limits} {length : Nat}

/-- Up to their order, the reports on a walk are those on each item and one on the depth. -/
theorem itemReports_perm (items : List (Nat × Item)) (known : Bool) :
    (itemReports limits length known items).Perm
      ((if known then [] else depthReports limits length items) ++
        items.flatMap fun entry => partReports limits length entry.2) := by
  induction items generalizing known with
  | nil => cases known <;> exact .refl _
  | cons entry rest ih =>
    obtain ⟨depth, item⟩ := entry
    rw [itemReports, List.flatMap_cons, partReports]
    by_cases deep : limits.maxDepth.toNat < depth
    · -- From here on the depth is known to be too great.
      have later : (itemReports limits length true rest).Perm
          (rest.flatMap fun entry => partReports limits length entry.2) := by
        simpa using ih true
      have own := later.append_left (partReports limits length item)
      cases known with
      | true => simpa [deep, partReports] using own
      | false => simpa [depthReports, deep, partReports] using own
    · -- The report on a later item that is too deep moves to the front.
      have found : depthReports limits length ((depth, item) :: rest) =
          depthReports limits length rest := by
        simp [depthReports, deep]
      have moved := (ih known).append_left (partReports limits length item)
      rw [found]
      simp only [deep, decide_false, Bool.and_false, Bool.or_false, Bool.false_eq_true, if_false,
        List.nil_append]
      exact moved.trans (List.perm_append_comm_assoc _ _ _)

/-- The depth is reported once if it passes the limit. -/
theorem reported_depthReports (code : DiagnosticCode) (node : Node) :
    reported code (depthReports limits length node.items) =
      tallied .astTooDeep (once (limits.maxDepth.toNat < node.depth)) code := by
  -- The walk passes the limit exactly if its deepest entry does.
  have passes : limits.maxDepth.toNat < node.depth ↔
      ∃ entry ∈ node.items, limits.maxDepth.toNat < entry.1 := by
    rw [Node.depth, lt_foldl_depth_iff]
    simp
  rw [depthReports]
  split
  · rename_i none
    have shallow : ¬ limits.maxDepth.toNat < node.depth := by
      rw [passes]
      simpa using none
    simp [once, shallow]
  · -- Only the first entry that is too deep is reported, so it counts once.
    rename_i entry found
    have deep := List.find?_some found
    have tooDeep : limits.maxDepth.toNat < node.depth :=
      passes.mpr ⟨entry, List.mem_of_find?_eq_some found, by simpa using deep⟩
    simp [once, tooDeep]

/-- A place is reported exactly if it is no range of the query. -/
theorem reported_spanReports (code : DiagnosticCode) (span : Option Span) :
    reported code (spanReports length span) =
      tallied .invalidSpan (strays length span.toList) code := by
  cases span with
  | none => simp [spanReports, strays]
  | some span =>
    rw [spanReports, reported_unless, Option.toList_some, strays, List.countP_singleton]
    -- The check and the count ask for the same two inequalities.
    by_cases fits : span.start ≤ span.stop ∧ span.stop ≤ length
    · simp [once, Span.fits, fits]
    · simp [once, Span.fits, fits]

/-- The operators at an item of a walk, without those of what it holds. -/
def Item.operators : Item → List String
  | .node (.comparison _ operator _ _) => [operator]
  | _ => []

/-- The texts at an item of a walk, without those of what it holds. -/
def Item.texts : Item → List String
  | .value (.string text _) => [text]
  | _ => []

/-- The reports on an item are on its places, its operator and its text. -/
theorem reported_partReports (code : DiagnosticCode) (item : Item) :
    reported code (partReports limits length item) =
      tallied .invalidSpan (strays length item.spans) code +
        (tallied .emptyOperator (blanks item.operators) code +
          tallied .stringLiteralTooLarge
            (overlong limits.maxStringLiteralLength.toNat item.texts) code) := by
  rw [partReports, reported_append, reported_spanReports]
  unfold contentReports
  split
  · rename_i field operator value span
    -- The place of the field is checked along with the operator.
    have places : strays length (Item.node (.comparison field operator value span)).spans =
        strays length span.toList + strays length field.span.toList := by
      rw [Item.spans, strays, List.countP_append, Nat.add_comm]
      rfl
    have operators : blanks [operator] = once (allBlank operator = true) := by
      simp [blanks, once, trimsAway_iff]
    rw [reported_append, reported_spanReports, reported_when, places, tallied_add, Item.operators,
      operators]
    simp [Item.texts, overlong, Item.span, Node.span, Nat.add_assoc]
  · rename_i text span
    have texts : overlong limits.maxStringLiteralLength.toNat [text] =
        once (limits.maxStringLiteralLength.toNat < byteSize text) := by
      simp [overlong, once]
    rw [reported_when, ← texts]
    simp [Item.spans, Item.operators, Item.texts, blanks]
  · -- Any other item has no more than a place.
    rename_i other plain
    have places : item.spans = item.span.toList := by
      unfold Item.spans
      split
      · exact absurd rfl (other _ _ _ _)
      · rfl
    have operators : item.operators = [] := by
      unfold Item.operators
      split
      · exact absurd rfl (other _ _ _ _)
      · rfl
    have texts : item.texts = [] := by
      unfold Item.texts
      split
      · exact absurd rfl (plain _ _)
      · rfl
    simp [places, operators, texts, blanks, overlong]

/-- Every place recorded in an expression is recorded at one of its parts. -/
theorem addsUp_strays : AddsUp (fun item => strays length item.spans)
    (fun value => strays length value.spans) fun node => strays length node.spans where
  scalar value single := by
    -- One law for each production; the spans of a whole are its own and those of its parts.
    cases value with
    | list items span => exact absurd rfl (single items span)
    | _ => rfl
  list items span := by
    rw [Value.spans, Value.spansOfAll_eq, strays, List.countP_append, List.countP_flatMap]
    rfl
  comparison field operator value span := by
    rw [Node.spans, strays, List.countP_append]
    rfl
  logical operator left right span := by
    rw [Node.spans, strays, List.countP_append, List.countP_append]
    rfl
  negation expression span := by
    rw [Node.spans, strays, List.countP_append]
    rfl

/-- Every operator in an expression stands at one of its parts. -/
theorem addsUp_blanks : AddsUp (fun item => blanks item.operators) (fun _ => 0)
    fun node => blanks node.operators where
  -- Operators stand in comparisons only, so values weigh nothing.
  scalar _ _ := rfl
  list items span := by
    rw [List.map_const', List.sum_replicate_nat, Nat.mul_zero]
    rfl
  comparison _ _ _ _ := rfl
  logical operator left right span := by
    rw [Node.operators, blanks, List.countP_append]
    exact (Nat.zero_add _).symm
  negation _ _ := (Nat.zero_add _).symm

/-- Every text in an expression is one of its parts. -/
theorem addsUp_overlong (limit : Nat) : AddsUp (fun item => overlong limit item.texts)
    (fun value => overlong limit value.texts) fun node => overlong limit node.texts where
  scalar value single := by
    -- Texts stand in scalars only, and a list has those of its items.
    cases value with
    | list items span => exact absurd rfl (single items span)
    | _ => rfl
  list items span := by
    rw [Value.texts, Value.textsOfAll_eq, overlong, List.countP_flatMap]
    exact (Nat.zero_add _).symm
  comparison _ _ _ _ := (Nat.zero_add _).symm
  logical operator left right span := by
    rw [Node.texts, overlong, List.countP_append]
    exact (Nat.zero_add _).symm
  negation _ _ := (Nat.zero_add _).symm

/-- The reports on a walk are as many of each code as the parts and the depth violate it. -/
theorem reported_itemReports (code : DiagnosticCode) (node : Node) :
    reported code (itemReports limits length false node.items) =
      tallied .astTooDeep (once (limits.maxDepth.toNat < node.depth)) code +
        node.violations limits length code := by
  have parts : reported code (node.items.flatMap fun entry => partReports limits length entry.2) =
      node.violations limits length code := by
    rw [reported_flatMap, Node.violations.eq_def]
    simp only [reported_partReports]
    split
    · simp [tallied_of_ne, ← addsUp_strays.sum_walk node 1, Node.items]
    · simp [tallied_of_ne, ← addsUp_blanks.sum_walk node 1, Node.items]
    · simp [tallied_of_ne, ← (addsUp_overlong _).sum_walk node 1, Node.items]
    · -- No part is reported on under any other code.
      rename_i noPlace noOperator noText
      simp only [tallied_of_ne (Ne.symm noPlace), tallied_of_ne (Ne.symm noOperator),
        tallied_of_ne (Ne.symm noText), Nat.add_zero]
      rw [List.map_const', List.sum_replicate_nat, Nat.mul_zero]
  rw [reported, (itemReports_perm node.items false).countP_eq]
  show reported code (depthReports limits length node.items ++ _) = _
  rw [reported_append, reported_depthReports, parts]

end Items

/-- Metadata is reported on only if there is some. -/
theorem reported_metadata (config : Config) (code : DiagnosticCode) (metadata : Option Metadata) :
    reported code ((metadata.map (metadataReports config)).getD []) =
      tallied .unsupportedParserMetadata
        (once (∃ noted ∈ metadata, noted.parser ≠ config.expectedParser)) code +
      tallied .invalidMetadata
        (once (∃ noted ∈ metadata, noted.nodeCount = 0 ∨ noted.maxDepth = 0)) code := by
  -- Both checks are made on what is noted; nothing noted is nothing reported.
  cases metadata with
  | none => simp [once]
  | some noted =>
    rw [Option.map_some, Option.getD_some, metadataReports, reported_append, reported_unless,
      reported_when]
    simp [once]

/-- The reports on an envelope are as many of each code as its violations. -/
theorem reported_structureReports (config : Config) (envelope : Envelope) (code : DiagnosticCode) :
    reported code (structureReports config envelope) = envelope.violations config code := by
  have blank : once (allBlank envelope.grammarVersion = true) =
      once (TrimsAway envelope.grammarVersion) := by
    simp [once, trimsAway_iff]
  have version : once (¬ config.supportedAstVersions.contains envelope.astVersion = true) =
      once (envelope.astVersion ∉ config.supportedAstVersions) := by
    simp [once]
  simp only [structureReports, queryTooLarge, reported_append, reported_unless, reported_when,
    reported_itemReports, reported_metadata, blank, version]
  unfold Envelope.violations
  split
  case h_8 noVersion noGrammar noLength noSize noDepth noParser noCounts =>
    -- All that is left is reported on the parts of the expression.
    simp [tallied_of_ne (Ne.symm noVersion), tallied_of_ne (Ne.symm noGrammar),
      tallied_of_ne (Ne.symm noLength), tallied_of_ne (Ne.symm noSize),
      tallied_of_ne (Ne.symm noDepth), tallied_of_ne (Ne.symm noParser),
      tallied_of_ne (Ne.symm noCounts)]
  all_goals simp [tallied, Node.violations]

/--
The structural checks report exactly the violations of an envelope.

All reports are of errors in the AST. Of each code there are as many as the envelope has violations
of it, whatever else is wrong, and the two measures that limits apply to are those of the tree.
-/
theorem structureReports_exact (config : Config) (envelope : Envelope) :
    (∀ report ∈ structureReports config envelope,
      report.severity = .error ∧ report.origin = .ast) ∧
    (∀ code, (structureReports config envelope).countP (·.code == code) =
      envelope.violations config code) ∧
    envelope.root.size = envelope.root.count ∧ envelope.root.depth = envelope.root.height :=
  ⟨allErrorsIn_structureReports config envelope, reported_structureReports config envelope,
    envelope.root.size_eq_count, envelope.root.depth_eq_height⟩

end FilterLang
