import FilterLang.Ast

/-! The form of a query that hosts execute: an AST without places. -/

namespace FilterLang

/-- A literal value. -/
inductive IrValue where
  | string (value : String)
  | number (value : Binary64)
  | boolean (value : Bool)
  | list (items : List IrValue)
deriving Repr, Inhabited

/-- An expression. -/
inductive Ir where
  | logical (operator : Connective) (left right : Ir)
  | negation (expression : Ir)
  | comparison (field operator : String) (value : IrValue)
deriving Repr, Inhabited

mutual

/-- A value without its places. -/
def Value.lower : Value → IrValue
  | .string value _ => .string value
  | .number value _ _ => .number value
  | .boolean value _ => .boolean value
  | .list items _ => .list (Value.lowerAll items)

/-- Several values without their places. -/
def Value.lowerAll : List Value → List IrValue
  | [] => []
  | item :: items => Value.lower item :: Value.lowerAll items

end

/-- An expression without its places; nothing is checked. -/
def Node.lower : Node → Ir
  | .comparison field operator value _ => .comparison field.name operator value.lower
  | .logical operator left right _ => .logical operator left.lower right.lower
  | .negation expression _ => .negation expression.lower

/-- The fields that an expression names, added to those found before in the order of first use. -/
def Ir.addFields : Ir → List String → List String
  -- A field that was met before keeps its earlier place.
  | .comparison field _ _, found => if found.contains field then found else found ++ [field]
  | .logical _ left right, found => right.addFields (left.addFields found)
  | .negation expression, found => expression.addFields found

/-- The fields that an expression names, each once in the order of first use. -/
def Ir.referencedFields (ir : Ir) : List String :=
  ir.addFields []

end FilterLang
