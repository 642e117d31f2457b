import FilterLang.Config.Wire
import FilterLang.Language.Wire

/-! Languages and settings that are kept in files. -/

namespace FilterLang

/-- What there is at a path. -/
inductive FileContent where
  | absent
  /-- Something that is no text: a directory, or bytes that are not UTF-8. -/
  | unreadable
  | text (content : String)
deriving DecidableEq, Repr, Inhabited

/-- Why a file gives no value. -/
inductive LoadError where
  | notFound (path : String)
  | unreadable (path : String)
  | malformed (path : String)
deriving DecidableEq, Repr

/-- What is said of a file that gives no value. -/
def LoadError.message : LoadError → String
  | notFound path => "配置文件不存在: " ++ path
  | unreadable path => "无法读取配置文件 " ++ path ++ ": "
  | malformed path => "无法解析JSON配置文件 " ++ path ++ ": "

/-- The value that the content of a file describes. -/
def loadWith {α : Type} (decode : String → Option α) (path : String) :
    FileContent → Except LoadError α
  | .absent => .error (.notFound path)
  | .unreadable => .error (.unreadable path)
  -- What the decoder refuses is reported without its reasons.
  | .text content =>
    match decode content with
    | some value => .ok value
    | none => .error (.malformed path)

/-- The language that a file describes. -/
def Language.load (path : String) (content : FileContent) : Except LoadError Language :=
  loadWith Language.decode? path content

/-- The settings that a file describes. -/
def Config.load (path : String) (content : FileContent) : Except LoadError Config :=
  loadWith Config.decode? path content

end FilterLang
