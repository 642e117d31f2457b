import FilterLang.Compile
import FilterLang.Proofs.Ast.Failure
import FilterLang.Proofs.Ast.Violations
import FilterLang.Proofs.Compile.Objections

/-! What is reported as a failed build. -/

namespace FilterLang

/-- A number that a query, or an expansion it leads to, is written with and that is too large. -/
structure Overflows (language : Language) (text raw : String) : Prop where
  written : ∃ other, Reaches language text other ∧ Mentions other (.number raw)
  numeral : Numeral raw.toList
  infinite : ¬ FiniteNumber raw

/-- An error of the code for failed builds is about a number that is too large. -/
def BuildError.AboutNumber (language : Language) (text : String) (error : BuildError) : Prop :=
  error.code = .astBuildFailed →
    ∃ raw span, error = .numberOutOfRange raw span ∧ Overflows language text raw

/-- Every number in a text is written as one. -/
theorem Mentions.numeral {text raw : String} (mentions : Mentions text (.number raw)) :
    Numeral raw.toList := by
  -- The number is one of the tokens that were cut from the text.
  obtain ⟨query, derives, mentioned⟩ := mentions
  obtain ⟨token, member, kind⟩ := query.exists_number mentioned
  rw [derives.1] at member
  exact (scans_tokenize text).wellNumbered token member raw kind

namespace BuildError.AboutNumber

variable {language : Language} {text : String} {error : BuildError}

/-- What is said of an error does not depend on where the error is put. -/
theorem of_relocate {span : Span} (about : (error.relocate span).AboutNumber language text) :
    error.AboutNumber language text := by
  intro code
  -- A move keeps the code, and only an error about a number is moved to one.
  obtain ⟨raw, place, same, overflows⟩ := about ((code_relocate span error).trans code)
  cases error with
  | numberOutOfRange own own' =>
    cases same
    exact ⟨raw, own', rfl, overflows⟩
  | _ => cases same

/-- A refused call is reported under a code of its own. -/
theorem of_refused {limit rounds : Nat} {chain : List String} {name : String} {span : Span}
    (refused : Refused language limit rounds chain name span error) :
    error.AboutNumber language text := by
  -- No refusal has the code in question.
  intro code
  cases refused with
  | repeated _ _ => cases code
  | unknown _ _ _ => cases code
  | tooDeep _ _ _ _ => cases code
  | unreadable _ _ _ _ _ => cases code

/-- What is wrong inside an expansion that a text calls is wrong with what the text leads to. -/
theorem through {declared : Alias} (calls : Mentions text (.call declared.name))
    (declares : declared ∈ language.aliases)
    (about : error.AboutNumber language declared.expansion) : error.AboutNumber language text := by
  -- What the expansion reaches is reached through the call.
  intro code
  obtain ⟨raw, span, same, ⟨other, reaches, mentions⟩, numeral, infinite⟩ := about code
  exact ⟨raw, span, same, ⟨other, .through calls declares reaches, mentions⟩, numeral, infinite⟩

/-- An error is not that of a malformed tree, which has the same code. -/
theorem ne_malformed (about : error.AboutNumber language text) (cause : Malformation) :
    error ≠ .malformed cause := by
  -- The code of a malformed tree is the one in question, yet its error is about no number.
  rintro rfl
  obtain ⟨raw, span, same, -⟩ := about rfl
  cases same

end BuildError.AboutNumber

section Building

variable {language : Language} {limit rounds : Nat} {chain : List String} {name text : String}
  {error : BuildError}

/-- A number that is too large is no finite one. -/
theorem not_finiteNumber {raw : String} (large : readNumberText raw.toList = .ok .outOfRange) :
    ¬ FiniteNumber raw := by
  -- A numeral has one reading.
  rintro ⟨value, finite⟩
  cases large.symm.trans finite

/-- Of all that a readable text mentions only numbers that are too large fail its build. -/
theorem aboutNumber_of_textAst (readable : (parse text).fault? = none)
    (failed : textAst language limit rounds chain text = .error error) :
    error.AboutNumber language text := by
  -- The expansions that are called have one round less.
  induction rounds using Nat.strongRecOn generalizing chain text with
  | ind rounds ih =>
    obtain ⟨mention, mentions, fails⟩ := exists_fails_of_textAst readable failed
    cases fails with
    | flag other => nofun
    | number large =>
      exact fun _ => ⟨_, _, rfl, ⟨text, .here, mentions⟩, mentions.numeral, not_finiteNumber large⟩
    -- The scanner lets only numerals through, and these can be read.
    | unread faulty => exact absurd faulty (mentions.number_readable _)
    | call failed =>
      rcases callAst_error failed with refused | ⟨fewer, declared, rfl, opens, inside⟩
      · exact .of_relocate (.of_refused (refused (.empty 0)))
      · obtain ⟨declares, rfl⟩ := declared_of_find? opens.found
        exact .through mentions declares (ih fewer (Nat.lt_succ_self fewer) opens.readable inside)

/-- No call fails on a malformed tree, however deep inside other calls it stands. -/
theorem expandAlias_ne_malformed (span : Span) (cause : Malformation) :
    expandAlias .standard language limit rounds chain name span ≠ .error (.malformed cause) := by
  intro failed
  -- The error has no place, so it is also the one of the call wherever that stands.
  have unplaced := @expandAlias_unplaced language limit rounds chain name span
  rw [failed] at unplaced
  rcases callAst_error unplaced.symm with refused | ⟨fewer, declared, -, opens, inside⟩
  · have about : (BuildError.malformed cause).AboutNumber language name :=
      .of_refused (refused span)
    exact about.ne_malformed cause rfl
  · exact (aboutNumber_of_textAst opens.readable inside).ne_malformed cause rfl

/-- A report on a text that cannot be read is not one on a failed build. -/
theorem fault?_code_ne_astBuildFailed {tree : Tree} {report : Diagnostic}
    (faulty : tree.fault? = some report) : report.code ≠ .astBuildFailed := by
  -- Faults of a text are reported with codes of their own.
  obtain ⟨visit, -, rfl⟩ := Option.map_eq_some_iff.mp faulty
  split <;> nofun

/-- A build fails under the code for failed builds only because of a number. -/
theorem aboutNumber_of_buildRoot
    (failed : buildRoot .standard language limit (parse text) text = .error error) :
    error.AboutNumber language text := by
  rcases buildRoot_cases language limit text with
    ⟨_, refused, -⟩ | ⟨report, refused, faulty⟩ | ⟨distinct, readable⟩
  · cases refused.symm.trans failed
    nofun
  · cases refused.symm.trans failed
    exact fun code => absurd code (fault?_code_ne_astBuildFailed faulty)
  · -- Past both checks the build has the error of the text, put at a place.
    have unplaced := @buildRoot_unplaced language limit text distinct readable
    rw [failed] at unplaced
    exact .of_relocate (aboutNumber_of_textAst readable unplaced.symm)

/-- An envelope fails to be built only where its AST does. -/
theorem buildRoot_of_buildEnvelope_error
    (failed : buildEnvelope .standard language limit (parse text) text = .error error) :
    buildRoot .standard language limit (parse text) text = .error error := by
  -- The envelope cannot fail once the root is there.
  rcases bind_eq_error.mp failed with refused | ⟨_, -, never⟩
  · exact refused
  · cases never

end Building

section Reports

/-- The structural checks report nothing as a failed build. -/
theorem structureReports_code_ne {config : Config} {envelope : Envelope} {report : Diagnostic}
    (member : report ∈ structureReports config envelope) : report.code ≠ .astBuildFailed := by
  -- An envelope has no violation that is counted under this code.
  have none : reported .astBuildFailed (structureReports config envelope) = 0 :=
    reported_structureReports config envelope .astBuildFailed
  have other := List.countP_eq_zero.mp none report member
  simpa using other

/-- The codes that are raised are those of objections. -/
theorem Raised.forall_codes {objections : List Objection} {codes : List DiagnosticCode}
    {holds : DiagnosticCode → Prop} (raised : Raised objections codes)
    (each : ∀ objection ∈ objections, holds objection.code) : ∀ code ∈ codes, holds code := by
  -- Every code that is raised belongs to one of the objections.
  intro code member
  obtain ⟨objection, own, -, rfl⟩ := raised.mem_iff.mp member
  exact each objection own

/-- A comparison draws no code for failed builds. -/
theorem Comparison.Draws.ne_astBuildFailed {language : Language} {comparison : Comparison}
    {codes : List DiagnosticCode} (draws : comparison.Draws language codes) :
    ∀ code ∈ codes, code ≠ .astBuildFailed := by
  cases draws with
  | undeclared absent => simp
  | @declared field _ declares raised =>
    -- Each objection of the table is under a code of the typing.
    have scalar : ∀ item, ∀ objection ∈ field.objections item,
        objection.code ≠ .astBuildFailed := by
      simp [Field.objections]
    refine raised.forall_codes ?_
    unfold Comparison.objections
    split
    · intro objection member
      simp only [List.mem_cons, List.mem_flatMap] at member
      rcases member with rfl | rfl | rfl | ⟨item, -, own⟩
      · simp
      · simp
      · simp
      · exact scalar item objection own
    · intro objection member
      simp only [List.mem_cons] at member
      rcases member with rfl | rfl | own
      · simp
      · simp
      · exact scalar _ objection own

/-- The typing checks report nothing as a failed build. -/
theorem typingReports_code_ne {language : Language} {node : Node} {report : Diagnostic}
    (member : report ∈ typingReports language node) : report.code ≠ .astBuildFailed := by
  -- Each report is drawn by one comparison, and no objection has the code in question.
  rw [typingReports_eq_flatMap] at member
  obtain ⟨comparison, -, among⟩ := List.mem_flatMap.mp member
  exact (comparison.draws_reports language).ne_astBuildFailed _ (List.mem_map_of_mem among)

/-- Whatever is wrong with an envelope, it is not reported as a failed build. -/
theorem compileEnvelope_code_ne {config : Config} {language : Language} {envelope : Envelope}
    {report : Diagnostic}
    (member : report ∈ (compileEnvelope config language envelope).diagnostics) :
    report.code ≠ .astBuildFailed := by
  -- Whether it succeeds or not, a compilation reports on structure and typing only.
  have both : report ∈ structureReports config envelope ++
      typingReports language envelope.root := by
    unfold compileEnvelope at member
    dsimp only at member
    split at member
    · exact List.mem_append_left _ member
    · split at member <;> exact member
  rcases List.mem_append.mp both with structural | typing
  · exact structureReports_code_ne structural
  · exact typingReports_code_ne typing

/-- A failed build is reported while a query is read, as the error of the build. -/
theorem exists_error_of_report {config : Config} {language : Language} {text : String}
    {report : Diagnostic} (member : report ∈ (compileQuery config language text).diagnostics)
    (code : report.code = .astBuildFailed) :
    ∃ error, buildRoot .standard language config.aliasDepthLimit.toNat (parse text) text =
      .error error ∧ report = error.diagnostic (byteSize text) := by
  -- An envelope that was handed out is checked further, which draws other codes.
  have early : report ∈ (analyze config language text).diagnostics := by
    unfold compileQuery at member
    dsimp only at member
    split at member
    · exact absurd code (compileEnvelope_code_ne member)
    · exact member
  unfold analyze at early
  dsimp only at early
  split at early
  · rw [List.mem_singleton.mp early] at code
    cases code
  · split at early
    · rename_i error failed
      exact ⟨error, buildRoot_of_buildEnvelope_error failed, List.mem_singleton.mp early⟩
    · split at early <;> exact absurd code (structureReports_code_ne early)

/-- The error of a build is reported, unless the query is too long to be built at all. -/
theorem mem_diagnostics_of_error {config : Config} {language : Language} {text : String}
    {error : BuildError} (short : byteSize text ≤ config.limits.maxRawQueryLength.toNat)
    (failed : buildEnvelope .standard language config.aliasDepthLimit.toNat (parse text) text =
      .error error) :
    error.diagnostic (byteSize text) ∈ (compileQuery config language text).diagnostics := by
  -- The query is short enough, so the error of the build is the one report.
  unfold compileQuery analyze
  rw [if_neg (Nat.not_lt.mpr short), failed]
  exact List.mem_singleton_self _

end Reports

/--
No tree that the grammar makes is malformed, so a failed build is always about a number.

Neither a query nor a call, however deep inside the expansions of other calls, fails because its
tree is not as the grammar makes them. A build fails under the code for failed builds exactly when
its error is about a number that is too large for a double, written in the query or in an expansion
that calls lead to; and nothing else is ever reported under this code.
-/
theorem malformed_unreachable (language : Language) (limit : Nat) (text : String) :
    (∀ cause, buildEnvelope .standard language limit (parse text) text ≠
      .error (.malformed cause)) ∧
    (∀ rounds chain name span cause, expandAlias .standard language limit rounds chain name span ≠
      .error (.malformed cause)) ∧
    (∀ error, buildEnvelope .standard language limit (parse text) text = .error error →
      (error.code = .astBuildFailed ↔
        ∃ raw span, error = .numberOutOfRange raw span ∧ Overflows language text raw)) ∧
    ∀ config, ∀ report ∈ (compileQuery config language text).diagnostics,
      report.code = .astBuildFailed →
        ∃ raw span, report = (BuildError.numberOutOfRange raw span).diagnostic (byteSize text) ∧
          Overflows language text raw := by
  -- All four parts rest on one fact: an error of this code is about a number of the text.
  refine ⟨fun cause failed => ?_, fun rounds chain name span cause => ?_, fun error failed => ?_,
    fun config report member code => ?_⟩
  · have about := aboutNumber_of_buildRoot (buildRoot_of_buildEnvelope_error failed)
    exact about.ne_malformed cause rfl
  · exact expandAlias_ne_malformed span cause
  · refine ⟨aboutNumber_of_buildRoot (buildRoot_of_buildEnvelope_error failed), ?_⟩
    rintro ⟨raw, span, rfl, -⟩
    rfl
  · obtain ⟨error, failed, rfl⟩ := exists_error_of_report member code
    rw [BuildError.code_diagnostic] at code
    obtain ⟨raw, span, rfl, overflows⟩ := aboutNumber_of_buildRoot failed code
    exact ⟨raw, span, rfl, overflows⟩

/-- The characters of a query that compares with a one and 310 zeros behind it. -/
def hugeChars : List Char :=
  "level>1".toList ++ List.replicate 310 '0'

/-- A query that compares with a number which no double is near. -/
def hugeQuery : String :=
  String.ofList hugeChars

/-- The query fails to be built, under the code for failed builds and about its number. -/
theorem hugeQuery_unbuilt :
    ∃ error, buildEnvelope .standard (.new "1") 10 (parse hugeQuery) hugeQuery = .error error ∧
      error.code = .astBuildFailed ∧
      (∃ raw span, error = .numberOutOfRange raw span ∧ Overflows (.new "1") hugeQuery raw) ∧
      ∃ report ∈ (compileQuery .default (.new "1") hugeQuery).diagnostics,
        report.code = .astBuildFailed ∧ ∃ raw span,
          report = (BuildError.numberOutOfRange raw span).diagnostic (byteSize hugeQuery) ∧
            Overflows (.new "1") hugeQuery raw := by
  obtain ⟨-, -, errors, reports⟩ := malformed_unreachable (.new "1") 10 hugeQuery
  -- The text is long, so its characters are taken out of it by a lemma and not by evaluation.
  have chars : hugeQuery.toList = hugeChars := String.toList_ofList
  have read : parse hugeQuery = treeOf (byteLength hugeChars) (tokensFrom 0 0 hugeChars) := by
    rw [parse, byteSize, tokenize, chars]
  have clean : (treeOf (byteLength hugeChars) (tokensFrom 0 0 hugeChars)).hasError = false := by
    decide +kernel
  have told : ((rootMeaning ⟨hugeChars, .new "1", expandAlias .standard (.new "1") 10 0 []⟩
      (treeOf (byteLength hugeChars) (tokensFrom 0 0 hugeChars))).map fun _ => ()).mapError
        BuildError.code = .error .astBuildFailed := by
    decide +kernel
  have short : byteSize hugeQuery ≤ Config.default.limits.maxRawQueryLength.toNat := by
    rw [byteSize, chars]
    decide +kernel
  have built : buildRoot .standard (.new "1") 10 (parse hugeQuery) hugeQuery =
      rootMeaning ⟨hugeChars, .new "1", expandAlias .standard (.new "1") 10 0 []⟩
        (treeOf (byteLength hugeChars) (tokensFrom 0 0 hugeChars)) := by
    rw [buildRoot_eq (by exact List.nodup_nil) (by rw [read, Tree.fault?_eq_none_iff, clean]), read,
      querySurroundings, chars]
    rfl
  rw [← built] at told
  cases made : buildRoot .standard (.new "1") 10 (parse hugeQuery) hugeQuery with
  | ok root =>
    rw [made] at told
    cases told
  | error error =>
    rw [made] at told
    have code : error.code = .astBuildFailed := Except.error.inj told
    have failed : buildEnvelope .standard (.new "1") 10 (parse hugeQuery) hugeQuery =
        .error error := by
      rw [buildEnvelope, made]
      rfl
    have listed := mem_diagnostics_of_error short failed
    have same := (error.code_diagnostic (byteSize hugeQuery)).trans code
    exact ⟨error, failed, code, (errors error failed).mp code, _, listed, same,
      reports .default _ listed same⟩

end FilterLang
