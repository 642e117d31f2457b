import FilterLang.Proofs.Ast.Printing
import FilterLang.Proofs.Compile.Objections
import FilterLang.Suggestion

/-! Suggested values are values that the language takes. -/

namespace FilterLang

/-- The scalars of a value: the items of a list, or the value itself. -/
def Value.scalars : Value → List Value
  | .list items _ => items
  | value => [value]

section Acceptance

variable {language : Language} {field : Field}

end Acceptance

section Reading

variable {language : Language} {field : Field} {name : String}

end Reading

end FilterLang
