import FilterLang.Proofs.Ast.Codec
import FilterLang.Proofs.Ast.Structure
import FilterLang.Proofs.Compile.Reading

/-! An envelope that was read from a query survives being sent. -/

namespace FilterLang

namespace Value

/-- Whether a value is no list. -/
def isScalar : Value → Bool
  | list _ _ => false
  | _ => true

/-- A value that holds no list inside a list. -/
def IsFlat : Value → Prop
  | list items _ => ∀ item ∈ items, item.isScalar = true
  | _ => True

/-- A value stays flat wherever it is put. -/
theorem isFlat_relocate {span : Option Span} {value : Value} :
    (value.relocate span).IsFlat ↔ value.IsFlat := by
  -- A list stays one and so do its items, wherever they are put.
  have scalar : ∀ item : Value, (item.relocate span).isScalar = item.isScalar := by
    intro item
    cases item <;> rfl
  cases value with
  | list items place => simp [relocate, relocateAll_eq_map, IsFlat, scalar]
  | _ => rfl

end Value

namespace Node

/-- An expression whose values are all flat. -/
def IsFlat : Node → Prop
  | comparison _ _ value _ => value.IsFlat
  | logical _ left right _ => left.IsFlat ∧ right.IsFlat
  | negation expression _ => expression.IsFlat

/-- An expression stays flat wherever it is put. -/
theorem isFlat_relocate {span : Option Span} {node : Node} :
    (node.relocate span).IsFlat ↔ node.IsFlat := by
  -- Induction on the expression; only comparisons hold values.
  induction node with
  | comparison field operator value place => exact Value.isFlat_relocate
  | logical operator left right place ihLeft ihRight =>
    simp only [relocate, IsFlat, ihLeft, ihRight]
  | negation expression place ih => simp only [relocate, IsFlat, ih]

end Node

/-- The value of a literal is no list. -/
theorem Literal.isScalar_of_value {literal : Literal} {value : Value}
    (built : literal.value = .ok value) : value.isScalar = true := by
  -- Each kind of literal gives a scalar if it gives anything.
  cases literal with
  | string raw =>
    cases built
    rfl
  | number raw =>
    obtain ⟨number, -, rfl⟩ := Literal.value_number.mp built
    rfl
  | boolean value =>
    cases built
    rfl

/-- The value of a list is flat. -/
theorem Listing.isFlat_of_value {listing : Listing} {value : Value}
    (built : listing.value = .ok value) : value.IsFlat := by
  -- Induction on the literals: each item comes of one of them.
  simp only [Listing.value, bind_eq_ok] at built
  obtain ⟨items, made, same⟩ := built
  cases same
  rw [Value.IsFlat]
  generalize listing.scalars = scalars at made
  induction scalars generalizing items with
  | nil =>
    cases made
    simp
  | cons scalar scalars ih =>
    simp only [List.mapM_cons, bind_eq_ok] at made
    obtain ⟨item, first, others, rest, same⟩ := made
    cases same
    exact List.forall_mem_cons.mpr ⟨Literal.isScalar_of_value first, ih others rest⟩

/-- The AST of a phrase is flat if those of its calls are. -/
theorem Phrase.isFlat_of_ast {language : Language} {expand : String → Built}
    (calls : ∀ name node, expand name = .ok node → node.IsFlat) {category : Category}
    (phrase : Phrase category) {node : Node} (built : phrase.ast language expand = .ok node) :
    node.IsFlat := by
  -- Lists are written in one place of the grammar only, and that takes scalars.
  induction phrase generalizing node with
  | bare name span =>
    simp only [Phrase.ast] at built
    split at built
    · cases built
      trivial
    · cases built
  | compare name span comparator operator scalar =>
    simp only [Phrase.ast, bind_eq_ok] at built
    obtain ⟨value, made, same⟩ := built
    cases same
    -- A comparison has one literal for its value.
    have scalar := Literal.isScalar_of_value made
    cases value with
    | list items place => cases scalar
    | _ => trivial
  | member name span membership opening listing closing =>
    simp only [Phrase.ast, bind_eq_ok] at built
    obtain ⟨value, made, same⟩ := built
    cases same
    exact Listing.isFlat_of_value made
  | call name span opening closing => exact calls name node built
  | group opening inside closing ih => exact ih built
  | plain operand ih => exact ih built
  | negated word operand ih =>
    simp only [Phrase.ast, bind_eq_ok] at built
    obtain ⟨inside, first, same⟩ := built
    cases same
    have flat := ih first
    exact flat
  | single operand ih => exact ih built
  | join left word right ihLeft ihRight =>
    simp only [Phrase.ast, bind_eq_ok] at built
    obtain ⟨before, first, behind, second, same⟩ := built
    cases same
    exact ⟨ihLeft first, ihRight second⟩

/-- What a call stands for is flat. -/
theorem isFlat_of_callAst {language : Language} {limit rounds : Nat} {chain : List String}
    {name : String} {node : Node} (built : callAst language limit rounds chain name = .ok node) :
    node.IsFlat := by
  -- An expansion is a query of its own, and the calls in it have one round less.
  induction rounds generalizing chain name node with
  | zero =>
    -- Without a round no call has an AST.
    obtain ⟨fewer, declared, impossible, -⟩ := callAst_ok built
    cases impossible
  | succ rounds ih =>
    obtain ⟨fewer, declared, same, opens, inside⟩ := callAst_ok built
    obtain rfl := Nat.succ.inj same
    obtain ⟨body, derives⟩ := exists_derives opens.readable
    rw [textAst_of_derives derives] at inside
    exact body.isFlat_of_ast (fun name node => ih) inside

/-- An expression that was built from a text is flat. -/
theorem isFlat_of_buildRoot {language : Language} {limit : Nat} {text : String} {root : Node}
    (built : buildRoot .standard language limit (parse text) text = .ok root) : root.IsFlat := by
  -- The root without its places is the AST of a derivation, and expansions are flat as well.
  obtain ⟨query, derives⟩ := exists_derives (buildRoot_ok built).2
  have made := textAst_of_buildRoot built
  rw [textAst_of_derives derives] at made
  exact Node.isFlat_relocate.mp (query.isFlat_of_ast (fun _ _ => isFlat_of_callAst) made)

section Limits

variable {limits : Limits} {length : Nat}

/-- A span within a text whose length is a 64-bit word has such words as its ends. -/
theorem spanIsSized_of_spanReports (small : length < 2 ^ 64) {span : Option Span}
    (placed : spanReports length span = []) : SpanIsSized span := by
  rintro place rfl
  -- A span that passes the check ends within the text.
  have fits : place.fits length = true := by
    by_contra outside
    simp [spanReports, outside] at placed
  simp only [Span.fits, Bool.and_eq_true, decide_eq_true_eq] at fits
  exact ⟨by omega, by omega⟩

/-- A part nests one level deeper than its own members, or than the member for its span. -/
theorem depth_spanned_le {front : List (String × Json)} (span : Option Span) {bound : Nat}
    (positive : 0 < bound) (own : Json.depthOfMembers front ≤ bound) :
    (Json.object (front ++ spanMember span)).depth ≤ bound + 1 := by
  -- A span is an object of two numbers.
  have level : Json.depthOfMembers (spanMember span) ≤ 1 := by
    cases span <;> simp [spanMember, Json.member?, Span.toJson, Json.ofNat, Json.depthOfMembers,
      Json.depth]
  rw [Json.depth, Json.depthOfMembers_append]
  omega

namespace Value

/-- The walk over several values is made of their walks. -/
theorem walkAll_eq_flatMap (depth : Nat) (items : List Value) :
    walkAll depth items = items.flatMap (walk depth) := by
  -- Induction on the items; the walk goes through them by a recursion of its own.
  induction items with
  | nil => rfl
  | cons item items ih => rw [walkAll, ih, List.flatMap_cons]

/-- A value that keeps the limits is placed within 64-bit words and is not too deep. -/
theorem placed_of_walk (small : length < 2 ^ 64) {value : Value} {depth : Nat}
    (fits : ∀ entry ∈ value.walk depth, EntryFits limits length entry) :
    SpanIsSized value.span ∧ depth ≤ limits.maxDepth.toNat := by
  -- The walk over a value begins with the value itself.
  have own : EntryFits limits length (depth, .value value) :=
    fits _ (by cases value <;> simp [walk])
  exact ⟨spanIsSized_of_spanReports small own.placed, own.shallow⟩

/-- A scalar has no offsets but those of its span, and takes no more than two levels. -/
theorem isSized_of_isScalar {value : Value} (scalar : value.isScalar = true)
    (placed : SpanIsSized value.span) : value.IsSized ∧ value.toJson.depth ≤ 2 := by
  -- One case for each kind of scalar: the span, when there is one, makes the second level.
  cases value with
  | string text span =>
    refine ⟨.string placed, depth_spanned_le span (by decide) ?_⟩
    simp [kindMember, Json.depthOfMembers, Json.depth]
  | number number raw span =>
    refine ⟨.number placed, depth_spanned_le span (by decide) ?_⟩
    simp [kindMember, Json.ofDouble, Json.depthOfMembers, Json.depth]
  | boolean truth span =>
    refine ⟨.boolean placed, depth_spanned_le span (by decide) ?_⟩
    simp [kindMember, Json.depthOfMembers, Json.depth]
  | list items span => cases scalar

/--
A flat value within the limits has 64-bit words as offsets, and its text nests little deeper.

An item of a list is one level below the list in the AST, but two in the text.
-/
theorem transits_of_walk (small : length < 2 ^ 64) {value : Value} {depth : Nat}
    (flat : value.IsFlat) (fits : ∀ entry ∈ value.walk depth, EntryFits limits length entry) :
    value.IsSized ∧ value.toJson.depth + depth ≤ limits.maxDepth.toNat + 3 := by
  obtain ⟨placed, shallow⟩ := placed_of_walk small fits
  cases scalar : value.isScalar with
  | true =>
    obtain ⟨sized, level⟩ := isSized_of_isScalar scalar placed
    exact ⟨sized, by omega⟩
  | false =>
    cases value with
    | list items span =>
      -- The items are scalars, and the walk meets each of them one level further down.
      have each : ∀ item ∈ items, item.IsSized ∧
          item.toJson.depth ≤ limits.maxDepth.toNat + 1 - depth := by
        intro item member
        have inside : ∀ entry ∈ item.walk (depth + 1), EntryFits limits length entry := by
          intro entry met
          refine fits entry (List.mem_cons_of_mem _ ?_)
          rw [walkAll_eq_flatMap]
          exact List.mem_flatMap.mpr ⟨item, member, met⟩
        obtain ⟨placed, shallow⟩ := placed_of_walk small inside
        obtain ⟨sized, level⟩ := isSized_of_isScalar (flat item member) placed
        exact ⟨sized, by omega⟩
      -- The array and the object around it are the two levels that a list adds.
      have array := Json.depthOfItems_le (List.forall_mem_map.mpr fun item member =>
        (each item member).2)
      have level : (toJson (list items span)).depth ≤ limits.maxDepth.toNat + 2 - depth + 1 := by
        refine depth_spanned_le span (by omega) ?_
        simp only [kindMember, listToJson_eq_map, Json.depthOfMembers, Json.depth]
        omega
      exact ⟨.list (fun item member => (each item member).1) placed, by omega⟩
    | _ => cases scalar

end Value

/-- A field reference takes no more than two levels. -/
theorem FieldRef.depth_toJson (field : FieldRef) : field.toJson.depth ≤ 2 :=
  depth_spanned_le field.span (by decide) (by simp [Json.depthOfMembers, Json.depth])

/-- A flat expression within the limits has 64-bit words as offsets, and nests little deeper. -/
theorem Node.transits_of_walk (small : length < 2 ^ 64) {node : Node} {depth : Nat}
    (flat : node.IsFlat) (fits : ∀ entry ∈ node.walk depth, EntryFits limits length entry) :
    node.IsSized ∧ node.toJson.depth + depth ≤ limits.maxDepth.toNat + 3 := by
  -- Each level of the AST is one level of the text, down to the comparisons.
  induction node generalizing depth with
  | comparison field operator value span =>
    rw [walk, List.forall_mem_cons] at fits
    obtain ⟨own, inside⟩ := fits
    have shallow : depth ≤ limits.maxDepth.toNat := own.shallow
    have placed : SpanIsSized span := spanIsSized_of_spanReports small own.placed
    -- The field is no item of the walk, so its span is checked with the comparison.
    have named : SpanIsSized field.span :=
      spanIsSized_of_spanReports small (List.append_eq_nil_iff.mp own.content).1
    obtain ⟨sized, deep⟩ := value.transits_of_walk small flat inside
    have level : (toJson (comparison field operator value span)).depth ≤
        limits.maxDepth.toNat + 2 - depth + 1 := by
      have name := field.depth_toJson
      refine depth_spanned_le span (by omega) ?_
      simp only [kindMember, Json.depthOfMembers, Json.depth]
      omega
    exact ⟨.comparison named sized placed, by omega⟩
  | logical operator left right span ihLeft ihRight =>
    rw [walk, List.forall_mem_cons, List.forall_mem_append] at fits
    obtain ⟨own, insideLeft, insideRight⟩ := fits
    have shallow : depth ≤ limits.maxDepth.toNat := own.shallow
    have placed : SpanIsSized span := spanIsSized_of_spanReports small own.placed
    obtain ⟨sizedLeft, deepLeft⟩ := ihLeft flat.1 insideLeft
    obtain ⟨sizedRight, deepRight⟩ := ihRight flat.2 insideRight
    have level : (toJson (logical operator left right span)).depth ≤
        limits.maxDepth.toNat + 2 - depth + 1 := by
      refine depth_spanned_le span (by omega) ?_
      simp only [kindMember, Json.depthOfMembers, Json.depth]
      omega
    exact ⟨.logical sizedLeft sizedRight placed, by omega⟩
  | negation expression span ih =>
    rw [walk, List.forall_mem_cons] at fits
    obtain ⟨own, inside⟩ := fits
    have shallow : depth ≤ limits.maxDepth.toNat := own.shallow
    have placed : SpanIsSized span := spanIsSized_of_spanReports small own.placed
    obtain ⟨sized, deep⟩ := ih flat inside
    have level : (toJson (negation expression span)).depth ≤
        limits.maxDepth.toNat + 2 - depth + 1 := by
      refine depth_spanned_le span (by omega) ?_
      simp only [kindMember, Json.depthOfMembers, Json.depth]
      omega
    exact ⟨.negation sized placed, by omega⟩

/-- An expression is no deeper than a bound that every item of its walk keeps. -/
theorem Node.depth_le {node : Node} {bound : Nat} (within : ∀ entry ∈ node.items, entry.1 ≤ bound) :
    node.depth ≤ bound := by
  -- The depth is a running maximum, so the bound is shown for every start of the run.
  have greatest : ∀ (items : List (Nat × Item)) (start : Nat), start ≤ bound →
      (∀ entry ∈ items, entry.1 ≤ bound) →
        items.foldl (fun deepest item => max deepest item.1) start ≤ bound := by
    intro items
    induction items with
    | nil => exact fun start below _ => below
    | cons entry items ih =>
      intro start below within
      rw [List.forall_mem_cons] at within
      exact ih _ (Nat.max_le.mpr ⟨below, within.1⟩) within.2
  exact greatest node.items 0 (Nat.zero_le bound) within

end Limits

variable {config : Config} {language : Language} {text : String} {envelope : Envelope}

/-- The parts of an envelope that was built from a text. -/
theorem buildEnvelope_parts {limit : Nat}
    (built : buildEnvelope .standard language limit (parse text) text = .ok envelope) :
    envelope.rawQuery = text ∧
      envelope.metadata = some ⟨"bql-rd", envelope.root.size, envelope.root.depth⟩ := by
  -- The envelope is filled in as soon as the root is there.
  simp only [buildEnvelope, bind_eq_ok] at built
  obtain ⟨root, -, same⟩ := built
  cases same
  exact ⟨rfl, rfl⟩

/-- An envelope is handed out only if the structural checks report nothing at all. -/
theorem analyze_clean (accepted : (analyze config language text).envelope = some envelope) :
    structureReports config envelope = [] ∧ (analyze config language text).diagnostics = [] := by
  -- Of the ways out of the analysis only the last one hands out an envelope.
  simp only [analyze] at accepted ⊢
  split at accepted
  · cases accepted
  · rename_i fits
    split at accepted
    · cases accepted
    · rename_i built
      split at accepted
      · cases accepted
      · rename_i sound
        have clean := structureReports_eq_nil (Bool.eq_false_iff.mpr sound)
        rw [if_neg fits, if_neg sound]
        cases accepted
        exact ⟨clean, clean⟩

/-- An envelope that was built and passes the checks has 64-bit words as offsets and counts. -/
theorem transits_of_clean {limit : Nat}
    (built : buildEnvelope .standard language limit (parse text) text = .ok envelope)
    (clean : structureReports config envelope = []) :
    envelope.IsSized ∧ envelope.toJson.depth ≤ config.limits.maxDepth.toNat + 3 := by
  obtain ⟨length, items, size⟩ := limits_of_structureReports clean
  -- The limits are 64-bit words themselves, so what keeps them is within such words.
  have small : byteSize envelope.rawQuery < 2 ^ 64 :=
    Nat.lt_of_le_of_lt length config.limits.maxRawQueryLength.toNat_lt
  have flat := isFlat_of_buildRoot (buildEnvelope_ok built)
  obtain ⟨sized, deep⟩ := Node.transits_of_walk small flat items
  have depth := Node.depth_le fun entry member => (items entry member).shallow
  have noted := (buildEnvelope_parts built).2
  refine ⟨⟨sized, ?_⟩, ?_⟩
  · rintro metadata here
    obtain rfl := Option.some.inj (noted.symm.trans here)
    exact ⟨Nat.lt_of_le_of_lt size config.limits.maxNodeCount.toNat_lt,
      Nat.lt_of_le_of_lt depth config.limits.maxDepth.toNat_lt⟩
  · rw [Envelope.depth_toJson]
    omega

/--
Whatever is read from a query survives being sent.

With a depth limit of at most 124 the text of an envelope never nests too deep to be read again.
-/
theorem analyze_survives_transit (shallow : config.limits.maxDepth.toNat ≤ 124)
    (accepted : (analyze config language text).envelope = some envelope) :
    (analyze config language text).diagnostics = [] ∧ envelope.rawQuery = text ∧
      envelope.metadata = some ⟨"bql-rd", envelope.root.size, envelope.root.depth⟩ ∧
      takeIn config envelope.encode = ⟨true, [], some envelope⟩ ∧
      ∀ (other : Language) (decoded : Envelope),
        (takeIn config envelope.encode).envelope = some decoded →
          compileEnvelope config other decoded = compileEnvelope config other envelope := by
  -- What was accepted is sound: every span has the width that is read, and the root is no deeper
  -- than the limit, which leaves room in the nesting of the text.
  have built := analyze_envelope accepted
  obtain ⟨raw, noted⟩ := buildEnvelope_parts built
  obtain ⟨clean, silent⟩ := analyze_clean accepted
  obtain ⟨sized, deep⟩ := transits_of_clean built clean
  have decoded := Envelope.decode?_encode sized (by rw [maxJsonDepth]; omega)
  -- Then it is read back as it was, and checked again with the same outcome.
  have taken : takeIn config envelope.encode = ⟨true, [], some envelope⟩ := by
    simp [takeIn, decoded, clean, hasErrors]
  refine ⟨silent, raw, noted, taken, fun other received same => ?_⟩
  rw [taken] at same
  rw [Option.some.inj same]

/-- A query with a nested call and a list survives being sent under the default limits. -/
theorem issueLanguage_survives_transit :
    Config.default.limits.maxDepth.toNat ≤ 124 ∧ ∃ envelope,
      (analyze .default issueLanguage "NOT mine() AND level IN (1, -2.5)").envelope =
        some envelope ∧
      (analyze .default issueLanguage "NOT mine() AND level IN (1, -2.5)").diagnostics = [] ∧
      takeIn .default envelope.encode = ⟨true, [], some envelope⟩ := by
  -- That the query is accepted is computed; that its envelope can be passed on is not.
  have shallow : Config.default.limits.maxDepth.toNat ≤ 124 := by decide
  have accepted : (analyze .default issueLanguage
      "NOT mine() AND level IN (1, -2.5)").envelope.isSome = true := by decide +kernel
  obtain ⟨envelope, handed⟩ := Option.isSome_iff_exists.mp accepted
  obtain ⟨silent, -, -, taken, -⟩ := analyze_survives_transit shallow handed
  exact ⟨shallow, envelope, handed, silent, taken⟩

end FilterLang
