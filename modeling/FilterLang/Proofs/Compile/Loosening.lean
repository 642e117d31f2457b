import FilterLang.Proofs.Compile.Visibility

/-! What compiles under some settings compiles under looser ones, to the same. -/

namespace FilterLang

/-- Settings that allow whatever others allow. -/
structure Config.Loosens (loose strict : Config) : Prop where
  rawQueryLength : strict.limits.maxRawQueryLength ≤ loose.limits.maxRawQueryLength
  nodeCount : strict.limits.maxNodeCount ≤ loose.limits.maxNodeCount
  depth : strict.limits.maxDepth ≤ loose.limits.maxDepth
  stringLiteralLength :
    strict.limits.maxStringLiteralLength ≤ loose.limits.maxStringLiteralLength
  aliasDepth : strict.aliasDepthLimit ≤ loose.aliasDepthLimit
  astVersions : strict.supportedAstVersions ⊆ loose.supportedAstVersions
  parser : loose.expectedParser = strict.expectedParser

/-- What the first build comes to the second one comes to as well. -/
def Secures (first second : Built) : Prop :=
  ∀ node, first = .ok node → second = .ok node

namespace Secures

variable {first second : Built}

/-- A failure secures nothing, and so whatever comes instead of it. -/
theorem of_error {error : BuildError} : Secures (.error error) second := nofun

/-- A build secures itself. -/
theorem refl (built : Built) : Secures built built := fun _ done => done

/-- Negations and joins are secured wherever they are put. -/
theorem keeps : Keeps (fun _ => True) Secures where
  -- What is built from parts is built again, since each part is.
  malformed _ := .refl _
  negated {left right span} secures _ := by
    intro node done
    rw [bind_eq_ok] at done ⊢
    obtain ⟨inner, built, same⟩ := done
    exact ⟨inner, secures inner built, same⟩
  joined operator left right left' right' span secures secures' _ := by
    intro node done
    simp only [bind_eq_ok] at done ⊢
    obtain ⟨inner, built, inner', built', same⟩ := done
    exact ⟨inner, secures inner built, inner', secures' inner' built', same⟩

/-- What is secured can be put at one place. -/
theorem relocated (span : Span) : Secures first second → Secures
    (match first with
      | .ok root => .ok (root.relocate (some span))
      | .error error => .error (error.relocate span))
    (match second with
      | .ok root => .ok (root.relocate (some span))
      | .error error => .error (error.relocate span)) := by
  -- Only a node has to be kept, and the same node is moved to the same place.
  intro secures node done
  cases first with
  | error error => cases done
  | ok root => rwa [secures root rfl]

end Secures

section Building

variable {language : Language} {limit limit' : Nat}

/-- A whole tree is secured if the calls in it are. -/
theorem rootMeaning_secures {source : List Char} {call call' : String → Span → Built}
    (calls : ∀ name span, Secures (call name span) (call' name span)) (tree : Tree) :
    Secures (rootMeaning ⟨source, language, call⟩ tree)
      (rootMeaning ⟨source, language, call'⟩ tree) :=
  -- A comparison has no call in it.
  rootMeaning_related Secures.keeps (fun name span _ => calls name span)
    (fun tree _ => .refl (comparisonNode ⟨source, language, call⟩ tree)) tree
    fun _ _ => ⟨trivial, fun _ _ => ⟨trivial, trivial⟩⟩

/-- An alias that expands within a limit expands within a greater one, to the same. -/
theorem expandAlias_secures (grammar : Grammar) (within : limit ≤ limit') (rounds : Nat)
    (chain : List String) (name : String) (span : Span) :
    Secures (expandAlias grammar language limit rounds chain name span)
      (expandAlias grammar language limit' rounds chain name span) := by
  -- The calls inside an expansion have one round less.
  induction rounds generalizing chain name span with
  | zero =>
    rw [expandAlias.eq_def, expandAlias.eq_def grammar language limit']
    exact .refl _
  | succ rounds ih =>
    rw [expandAlias.eq_def, expandAlias.eq_def grammar language limit']
    dsimp only
    split
    · exact .refl _
    · cases language.aliases.find? (·.name == name) with
      | none => exact .refl _
      | some declared =>
        dsimp only
        by_cases deep : limit ≤ chain.length
        · rw [if_pos deep]
          exact .of_error
        · -- A chain that is short enough for the tighter limit is so for the other.
          rw [if_neg deep, if_neg (by omega : ¬ limit' ≤ chain.length)]
          split
          · exact .refl _
          · exact .relocated span (rootMeaning_secures (ih (chain ++ [name])) _)

/-- A query that is built within a limit is built within a greater one, to the same. -/
theorem buildRoot_secures (grammar : Grammar) (within : limit ≤ limit') (tree : Tree)
    (text : String) :
    Secures (buildRoot grammar language limit tree text)
      (buildRoot grammar language limit' tree text) := by
  -- The limit is asked for only where an alias is expanded.
  unfold buildRoot
  split
  · exact .refl _
  · split
    · exact .refl _
    · exact rootMeaning_secures (expandAlias_secures grammar within _ []) tree

/-- An envelope shows nothing of the limit that it was built within. -/
theorem buildEnvelope_within {grammar : Grammar} (within : limit ≤ limit') {tree : Tree}
    {text : String} {envelope : Envelope}
    (built : buildEnvelope grammar language limit tree text = .ok envelope) :
    buildEnvelope grammar language limit' tree text = .ok envelope := by
  -- The envelope is made of the root and the text alone.
  simp only [buildEnvelope, bind_eq_ok] at built ⊢
  obtain ⟨root, done, same⟩ := built
  exact ⟨root, buildRoot_secures grammar within tree text root done, same⟩

end Building

section Checking

variable {loose strict : Config}

/-- An item that keeps the tighter limits keeps the looser ones. -/
theorem EntryFits.loosened (loosens : loose.Loosens strict) {length : Nat} {entry : Nat × Item}
    (fits : EntryFits strict.limits length entry) : EntryFits loose.limits length entry where
  shallow := fits.shallow.trans (UInt64.le_iff_toNat_le.mp loosens.depth)
  placed := fits.placed
  content := by
    have longer := UInt64.le_iff_toNat_le.mp loosens.stringLiteralLength
    have content := fits.content
    unfold contentReports at content ⊢
    -- Of all contents only a text is measured.
    split at content
    · exact content
    · simp only [ite_eq_right_iff, List.cons_ne_nil, imp_false] at content ⊢
      omega
    · rfl

/-- An envelope that the tighter checks are silent on the looser ones are silent on. -/
theorem structureReports_loosened (loosens : loose.Loosens strict) {envelope : Envelope}
    (clean : structureReports strict envelope = []) : structureReports loose envelope = [] := by
  obtain ⟨short, fits, small⟩ := limits_of_structureReports clean
  have short' := short.trans (UInt64.le_iff_toNat_le.mp loosens.rawQueryLength)
  have small' := small.trans (UInt64.le_iff_toNat_le.mp loosens.nodeCount)
  have walked := itemReports_eq_nil_iff.mpr fun entry member =>
    (fits entry member).loosened loosens
  -- What is left of the checks has no limit: the versions, and who wrote the envelope.
  simp only [structureReports, List.append_eq_nil_iff, ite_eq_left_iff, ite_eq_right_iff, imp_false,
    List.cons_ne_nil, List.contains_eq_mem, decide_eq_true_eq, Decidable.not_not] at clean ⊢
  obtain ⟨⟨⟨⟨⟨version, grammar⟩, -⟩, -⟩, -⟩, noted⟩ := clean
  refine ⟨⟨⟨⟨⟨loosens.astVersions version, grammar⟩, ?_⟩, walked⟩, ?_⟩, ?_⟩
  · omega
  · omega
  · have same : metadataReports loose = metadataReports strict := by
      funext metadata
      rw [metadataReports, metadataReports, loosens.parser]
    rw [same]
    exact noted

/-- An envelope that is handed out under tighter settings is handed out under looser ones. -/
theorem analyze_loosened (loosens : loose.Loosens strict) {language : Language} {text : String}
    {envelope : Envelope} (handed : (analyze strict language text).envelope = some envelope) :
    analyze loose language text = ⟨some envelope, []⟩ := by
  -- The three stages pass one after the other: the length, the build and the checks.
  have built := analyze_envelope handed
  have clean := structureReports_loosened loosens (analyze_clean handed).1
  have short := (limits_of_structureReports clean).1
  rw [(buildEnvelope_parts built).1] at short
  have built' := buildEnvelope_within (UInt64.le_iff_toNat_le.mp loosens.aliasDepth) built
  unfold analyze
  rw [if_neg (Nat.not_lt.mpr short), built']
  simp [clean, hasErrors]

end Checking

/--
Loosening the settings never breaks a query.

What is handed out under some settings is handed out, the same and without a report, under all that
loosen them. A query that compiles goes on to compile, to the same form and without a report.
-/
theorem compileQuery_loosened (loose strict : Config) (loosens : loose.Loosens strict)
    (language : Language) (text : String) :
    (∀ envelope, (analyze strict language text).envelope = some envelope →
      analyze loose language text = ⟨some envelope, []⟩) ∧
    ((compileQuery strict language text).success = true →
      ∃ envelope ir, (analyze strict language text).envelope = some envelope ∧
        (compileQuery strict language text).ir = some ir ∧
        analyze loose language text = ⟨some envelope, []⟩ ∧
        compileQuery loose language text = ⟨true, [], some ir⟩) := by
  refine ⟨fun envelope => analyze_loosened loosens, fun compiled => ?_⟩
  unfold compileQuery at compiled ⊢
  cases handed : (analyze strict language text).envelope with
  | none => simp [handed] at compiled
  | some envelope =>
    have handed' := analyze_loosened loosens handed
    simp only [handed] at compiled
    have sound := (analyze_clean handed).1
    -- An error of the typing would have kept the query from compiling.
    have typed : typingReports language envelope.root = [] := by
      by_contra heard
      obtain ⟨first, rest, refused⟩ := compileEnvelope_of_report fun silent => heard silent.2
      rw [refused] at compiled
      cases compiled
    have sound' := structureReports_loosened loosens sound
    refine ⟨envelope, envelope.root.lower, rfl, ?_, handed', ?_⟩
    · simp only [handed, compileEnvelope_of_silent sound typed]
    · rw [handed']
      exact compileEnvelope_of_silent sound' typed

/-- The tightest settings that a query with nested calls keeps. -/
def tightConfig : Config :=
  { limits := ⟨10, 7, 5, 3⟩, aliasDepthLimit := 2 }

/-- Settings with a further version of the AST. -/
def wideConfig : Config :=
  { Config.default with supportedAstVersions := ["0", astVersion] }

/-- The query compiles under the tight settings, and alike under the wide ones. -/
theorem tightConfig_loosened :
    (wideConfig.Loosens tightConfig ∧
      (compileQuery tightConfig issueLanguage "NOT mine()").success = true) ∧
    ∃ envelope ir, (analyze tightConfig issueLanguage "NOT mine()").envelope = some envelope ∧
      (compileQuery tightConfig issueLanguage "NOT mine()").ir = some ir ∧
      analyze wideConfig issueLanguage "NOT mine()" = ⟨some envelope, []⟩ ∧
      compileQuery wideConfig issueLanguage "NOT mine()" = ⟨true, [], some ir⟩ := by
  -- Both conditions are computed; what follows for the wider configuration is not.
  have loosens : wideConfig.Loosens tightConfig :=
    ⟨by decide, by decide, by decide, by decide, by decide, by decide, rfl⟩
  have compiled : (compileQuery tightConfig issueLanguage "NOT mine()").success = true := by
    decide +kernel
  exact ⟨⟨loosens, compiled⟩,
    (compileQuery_loosened wideConfig tightConfig loosens issueLanguage "NOT mine()").2 compiled⟩

end FilterLang
