import FilterLang.Text.ClusterClass

/-! Cutting a text into the signs that a reader takes for one: extended grapheme clusters. -/

namespace FilterLang

/-- How far a pictograph has come that a joiner may tie to the next one. -/
inductive PictureRun where
  | absent
  /-- A pictograph and its extenders. -/
  | drawn
  /-- The same with a joiner behind it. -/
  | joined
deriving DecidableEq, Repr, Inhabited

/-- The run after one more character. -/
def PictureRun.next : PictureRun → ClusterClass → PictureRun
  | _, .pictograph => drawn
  | drawn, .joiner => joined
  | drawn, added => if added.isExtending then drawn else absent
  | _, _ => absent

/-- How far a consonant has come that a linking mark may tie to the next one. -/
inductive ConjunctRun where
  | absent
  /-- A consonant and its extenders. -/
  | begun
  /-- The same with a linking mark among the extenders. -/
  | linked
deriving DecidableEq, Repr, Inhabited

/-- The run after one more character. -/
def ConjunctRun.next : ConjunctRun → ClusterClass → ConjunctRun
  | _, .consonant => begun
  | absent, _ => absent
  | _, .linker => linked
  -- A joiner changes how the consonants look, but not that they are one sign.
  | run, .extender => run
  | run, .joiner => run
  | _, _ => absent

/-- What the text so far tells about the next character. -/
structure ClusterState where
  /-- The class of the last character. -/
  last : ClusterClass
  /-- Whether the last character is the first half of a flag. -/
  flagOpen : Bool
  picture : PictureRun
  conjunct : ConjunctRun
deriving DecidableEq, Repr, Inhabited

namespace ClusterState

/-- Before the first character of a text, which joins nothing. -/
def start : ClusterState :=
  ⟨.control, false, .absent, .absent⟩

/-- The state after one more character. -/
def next (state : ClusterState) (added : ClusterClass) : ClusterState :=
  -- Halves of flags pair up from the left.
  ⟨added, added == .regional && !state.flagOpen, state.picture.next added,
    state.conjunct.next added⟩

/-- Whether the next character still belongs to the sign of the last one. -/
def joins (state : ClusterState) (added : ClusterClass) : Bool :=
  if state.last.standsAlone || added.standsAlone then
    state.last == .carriageReturn && added == .lineFeed
  else
    added.isExtending || added == .joiner || added == .spacing || state.last == .prepended ||
      state.last.shareSyllable added || (state.conjunct == .linked && added == .consonant) ||
      (state.picture == .joined && added == .pictograph) || (state.flagOpen && added == .regional)

/-- The clusters of what follows a state. -/
def clusters : ClusterState → List Char → List (List Char)
  | _, [] => []
  | state, c :: cs =>
    let here := state.next (.ofChar c)
    match here.clusters cs with
    | [] => [[c]]
    | cluster :: rest =>
      if cluster.head?.any fun d => here.joins (.ofChar d) then (c :: cluster) :: rest
      else [c] :: cluster :: rest

/-- Cutting loses nothing and keeps the order. -/
theorem flatten_clusters (state : ClusterState) (cs : List Char) :
    (state.clusters cs).flatten = cs := by
  -- Each character goes to the front of the first cluster or becomes one of its own.
  induction cs generalizing state with
  | nil => rfl
  | cons c cs ih =>
    have rest := ih (state.next (.ofChar c))
    rw [clusters]
    split
    · rename_i none
      simp [none] at rest
      simp [← rest]
    · rename_i cluster others some
      rw [some] at rest
      split <;> simp [← rest]

end ClusterState

/-- The clusters of a text. -/
def clusters (text : List Char) : List (List Char) :=
  ClusterState.start.clusters text

end FilterLang
