import FilterLang.Ast.Structure

/-! What the silence of the structural checks says of an envelope. -/

namespace FilterLang

/-- All reports are of errors. -/
def AllErrors (reports : List Diagnostic) : Prop :=
  ∀ report ∈ reports, report.isError = true

/-- One report is enough for an error if all reports are of errors. -/
theorem AllErrors.hasErrors_cons {first : Diagnostic} {rest : List Diagnostic}
    (all : AllErrors (first :: rest)) : hasErrors (first :: rest) = true := by
  simp [hasErrors, all first List.mem_cons_self]

/-- Where all reports are of errors, there is no error only if there is no report. -/
theorem AllErrors.hasErrors_eq_false_iff {reports : List Diagnostic} (all : AllErrors reports) :
    hasErrors reports = false ↔ reports = [] := by
  -- When all reports are errors, one report is enough to have errors.
  cases reports with
  | nil => simp [hasErrors]
  | cons first rest => simp [all.hasErrors_cons]

/-- All reports are of errors that one part of the work found. -/
def AllErrorsIn (origin : Origin) (reports : List Diagnostic) : Prop :=
  ∀ report ∈ reports, report.severity = .error ∧ report.origin = origin

section AllErrorsIn

variable {origin : Origin}

/-- Errors are errors wherever they were found. -/
theorem AllErrorsIn.allErrors {reports : List Diagnostic} (all : AllErrorsIn origin reports) :
    AllErrors reports := by
  -- What is an error of one origin is an error.
  intro report member
  simp [Diagnostic.isError, (all report member).1]

/-- No report at all is no report of anything but an error. -/
@[simp] theorem allErrorsIn_nil : AllErrorsIn origin [] := by
  simp [AllErrorsIn]

/-- Two lists are all errors exactly when both are. -/
@[simp] theorem allErrorsIn_append {left right : List Diagnostic} :
    AllErrorsIn origin (left ++ right) ↔ AllErrorsIn origin left ∧ AllErrorsIn origin right :=
  List.forall_mem_append

/-- The report of an error. -/
@[simp] theorem allErrorsIn_error (code : DiagnosticCode) (message : String) (span : Span) :
    AllErrorsIn origin [.error origin code message span] := by
  simp [AllErrorsIn, Diagnostic.error]

/-- An error that is reported only if a condition holds. -/
@[simp] theorem allErrorsIn_when {condition : Prop} [Decidable condition] (code : DiagnosticCode)
    (message : String) (span : Span) :
    AllErrorsIn origin (if condition then [.error origin code message span] else []) := by
  split <;> simp

/-- An error that is reported unless a condition holds. -/
@[simp] theorem allErrorsIn_unless {condition : Prop} [Decidable condition] (code : DiagnosticCode)
    (message : String) (span : Span) :
    AllErrorsIn origin (if condition then [] else [.error origin code message span]) := by
  split <;> simp

end AllErrorsIn

/-- Every report on a span is of an error. -/
@[simp] theorem allErrorsIn_spanReports (length : Nat) (span : Option Span) :
    AllErrorsIn .ast (spanReports length span) := by
  -- A missing span is not reported at all.
  cases span with
  | none => simp [spanReports]
  | some span => simp [spanReports, structureError]

/-- Every report on what an item holds is of an error. -/
@[simp] theorem allErrorsIn_contentReports (limits : Limits) (length : Nat) (item : Item) :
    AllErrorsIn .ast (contentReports limits length item) := by
  -- Comparisons, lists and all else, each with one kind of report.
  unfold contentReports
  split <;> simp [structureError]

/-- Every report on the items of a walk is of an error. -/
@[simp] theorem allErrorsIn_itemReports (limits : Limits) (length : Nat) (reported : Bool)
    (items : List (Nat × Item)) : AllErrorsIn .ast (itemReports limits length reported items) := by
  -- An earlier report changes whether a depth is reported, but not that all reports are errors.
  induction items generalizing reported with
  | nil => simp [itemReports]
  | cons entry rest ih => simp [itemReports, structureError, ih]

/-- Every report on an envelope's structure is of an error in the AST. -/
theorem allErrorsIn_structureReports (config : Config) (envelope : Envelope) :
    AllErrorsIn .ast (structureReports config envelope) := by
  -- Metadata is checked only if there is some.
  have noted : AllErrorsIn .ast ((envelope.metadata.map (metadataReports config)).getD []) := by
    cases envelope.metadata with
    | none => simp
    | some metadata => simp [metadataReports, structureError]
  simp [structureReports, structureError, queryTooLarge, noted]

/-- The structural checks report nothing if they find no error. -/
theorem structureReports_eq_nil {config : Config} {envelope : Envelope}
    (sound : hasErrors (structureReports config envelope) = false) :
    structureReports config envelope = [] :=
  (allErrorsIn_structureReports config envelope).allErrors.hasErrors_eq_false_iff.mp sound

/-- An item of a walk that keeps the limits: not too deep, well placed, nothing wrong in it. -/
structure EntryFits (limits : Limits) (length : Nat) (entry : Nat × Item) : Prop where
  shallow : entry.1 ≤ limits.maxDepth.toNat
  placed : spanReports length entry.2.span = []
  content : contentReports limits length entry.2 = []

/-- Nothing is reported on a walk exactly when all of its items keep the limits. -/
theorem itemReports_eq_nil_iff {limits : Limits} {length : Nat} {items : List (Nat × Item)} :
    itemReports limits length false items = [] ↔
      ∀ entry ∈ items, EntryFits limits length entry := by
  induction items with
  | nil => simp [itemReports]
  | cons entry rest ih =>
    obtain ⟨depth, item⟩ := entry
    rw [List.forall_mem_cons, itemReports]
    by_cases deep : limits.maxDepth.toNat < depth
    · -- The first item that is too deep is reported at once.
      have refused : ¬ EntryFits limits length (depth, item) := fun fits =>
        absurd fits.shallow (by omega)
      simp [deep, refused]
    · have fits : EntryFits limits length (depth, item) ↔
          spanReports length item.span = [] ∧ contentReports limits length item = [] :=
        ⟨fun fits => ⟨fits.placed, fits.content⟩, fun both => ⟨by omega, both.1, both.2⟩⟩
      simp [deep, ih, fits, and_assoc]

/-- An envelope that passes the structural checks keeps the limits of length, walk and size. -/
theorem limits_of_structureReports {config : Config} {envelope : Envelope}
    (clean : structureReports config envelope = []) :
    byteSize envelope.rawQuery ≤ config.limits.maxRawQueryLength.toNat ∧
      (∀ entry ∈ envelope.root.items,
        EntryFits config.limits (byteSize envelope.rawQuery) entry) ∧
      envelope.root.size ≤ config.limits.maxNodeCount.toNat := by
  -- The checks are made one after another, and each of them was silent.
  simp only [structureReports, List.append_eq_nil_iff, ite_eq_right_iff, imp_false,
    Nat.not_lt, List.cons_ne_nil] at clean
  exact ⟨clean.1.1.1.2, itemReports_eq_nil_iff.mp clean.1.1.2, clean.1.2⟩

end FilterLang
