import FilterLang.KeyedTable

/-! A declared query language: its fields, their operators, aliases and completion policies. -/

namespace FilterLang

/-- The type of a field's values. -/
inductive FieldType where
  | string
  | number
  | boolean
deriving DecidableEq, Repr, Inhabited

namespace FieldType

/-- The word for a type in reports and suggestions. -/
def shown : FieldType → String
  | string => "string"
  | number => "number"
  | boolean => "boolean"

/-- The word for a type in declarations. -/
def name : FieldType → String
  | string => "STRING"
  | number => "NUMBER"
  | boolean => "BOOLEAN"

/-- Every type, in the order declarations list them. -/
def all : List FieldType :=
  [string, number, boolean]

end FieldType

/-- A declared field. -/
structure Field where
  name : String
  type : FieldType
  /-- The operators the field takes in place of its type's. -/
  operators : Option (List String)
  /-- The only texts the field takes, when it is an enumeration. -/
  enumValues : Option (List String)
deriving DecidableEq, Repr, Inhabited

/-- A name for a query text that may be called from queries. -/
structure Alias where
  name : String
  expansion : String
deriving DecidableEq, Repr, Inhabited

/-- How values of a field are completed. -/
structure Policy where
  /-- Whether the host is asked for values as well. -/
  remoteValues : Bool
  /-- The greatest number of values to suggest. -/
  maxSuggestions : Option UInt64
deriving DecidableEq, Repr, Inhabited

/-- The operators that each type's fields take, where a table lists any. -/
structure OperatorTable where
  string : Option (List String)
  number : Option (List String)
  boolean : Option (List String)
deriving DecidableEq, Repr, Inhabited

namespace OperatorTable

/-- The operators listed for a type. -/
def get? (table : OperatorTable) : FieldType → Option (List String)
  | .string => table.string
  | .number => table.number
  | .boolean => table.boolean

/-- A table with a type's operators set. -/
def set (table : OperatorTable) (type : FieldType) (operators : List String) : OperatorTable :=
  match type with
  | .string => { table with string := some operators }
  | .number => { table with number := some operators }
  | .boolean => { table with boolean := some operators }

/-- The table that lists nothing. -/
def empty : OperatorTable :=
  ⟨none, none, none⟩

/-- The table of a language that declares none. -/
def standard : OperatorTable where
  string := some ["=", "!=", "CONTAINS", "IN", "NOT IN"]
  number := some ["=", "!=", ">", ">=", "<", "<=", "IN", "NOT IN"]
  boolean := some ["=", "!="]

end OperatorTable

/-- A declared query language. -/
structure Language where
  version : String
  fields : List Field
  operatorsByType : OperatorTable
  aliases : List Alias
  policies : Option (KeyedTable Policy)
deriving DecidableEq, Repr, Inhabited

namespace Language

/-- A language with the standard operators and nothing else. -/
def new (version : String) : Language :=
  ⟨version, [], .standard, [], none⟩

/-- A language with one more field. -/
def withField (language : Language) (field : Field) : Language :=
  { language with fields := language.fields ++ [field] }

/-- A language with one more alias. -/
def withAlias (language : Language) (name expansion : String) : Language :=
  { language with aliases := language.aliases ++ [⟨name, expansion⟩] }

/-- A language with a field's completion policy set. -/
def withPolicy (language : Language) (field : String) (policy : Policy) : Language :=
  -- The first policy also makes the table.
  { language with policies := some ((language.policies.getD .empty).insert field policy) }

/-- The first declaration of a field. -/
def field? (language : Language) (name : String) : Option Field :=
  language.fields.find? (·.name == name)

/-- The declaration that a name leads to is one of that name. -/
theorem name_of_field? {language : Language} {name : String} {field : Field}
    (declared : language.field? name = some field) : field.name = name := by
  -- The search stops only where the names are the same.
  simpa using List.find?_some declared

/-- The names of all fields, in the order of their declarations. -/
def fieldNames (language : Language) : List String :=
  language.fields.map (·.name)

/-- The operators a field takes: its own, else its type's. -/
def operatorsFor (language : Language) (field : Field) : List String :=
  -- Even an empty list of its own replaces that of the type.
  match field.operators with
  | some operators => operators
  | none => (language.operatorsByType.get? field.type).getD []

/-- The completion policy of a field. -/
def policy? (language : Language) (field : String) : Option Policy :=
  language.policies.bind (·.get? field)

/-- The language with only the fields of the given names. -/
def restrictTo (language : Language) (visible : List String) : Language :=
  -- Aliases and policies stay, whichever fields they are about.
  { language with fields := language.fields.filter fun field => visible.contains field.name }

end Language

end FilterLang
