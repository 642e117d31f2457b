import FilterLang.Ast.Wire
import FilterLang.Compile
import FilterLang.Context.Wire
import FilterLang.Ir.Wire
import FilterLang.Loading
import FilterLang.Suggestion.Wire
import FilterLang.Text.Erasure

/-! The command line: queries and commands, one a line. -/

namespace FilterLang

/-- The paths given on the command line. -/
structure ShellOptions where
  languagePath : Option String := none
  configPath : Option String := none
deriving DecidableEq, Repr, Inhabited

/-- The paths that are given. -/
def ShellOptions.paths (options : ShellOptions) : List String :=
  options.configPath.toList ++ options.languagePath.toList

/-- The options that arguments spell, or what is wrong with them. -/
def ShellOptions.ofArgs : ShellOptions → List String → Except String ShellOptions
  | options, [] => .ok options
  -- Whatever follows an option is its path, and the last of several paths counts.
  | options, "--spec" :: path :: rest => ofArgs { options with languagePath := some path } rest
  | options, "--config" :: path :: rest => ofArgs { options with configPath := some path } rest
  | _, ["--spec"] => .error "--spec 需要一个文件路径"
  | _, ["--config"] => .error "--config 需要一个文件路径"
  | _, other :: _ => .error s!"未知参数: {other} (用法: bql [--spec FILE] [--config FILE])"

/-- The language that is used when none is given. -/
def demoLanguage : Language :=
  let status : Field := ⟨"status", .string, none, some ["Open", "InProgress", "Closed"]⟩
  let assignee : Field := ⟨"assignee", .string, some ["=", "!=", "IN", "NOT IN"], none⟩
  let priority : Field := ⟨"priority", .number, none, none⟩
  let archived : Field := ⟨"archived", .boolean, none, none⟩
  -- Completion offers the fields in this order.
  let fields := [status, priority, archived, assignee]
  let declared := fields.foldl Language.withField (Language.new "demo")
  let named := declared.withAlias "isOpen" "status IN (\"Open\", \"InProgress\")"
  named.withPolicy "status" ⟨false, some 10⟩

/-- The language to use and the line that says where it comes from. -/
def chooseLanguage (file : String → FileContent) : Option String → Language × String
  | none => (demoLanguage, "⚠️ 未指定语言规范，使用内置演示规范")
  | some path =>
    match Language.load path (file path) with
    | .ok language =>
      let fields := language.fields.length
      let aliases := language.aliases.length
      (language, s!"✅ 加载了 {fields} 个字段, {aliases} 个宏")
    -- A language that cannot be loaded is no reason to stop.
    | .error error =>
      (demoLanguage, "⚠️ 无法加载语言规范 (" ++ error.message ++ "), 使用内置演示规范")

/-- The lines of help. -/
def helpLines : List String :=
  ["命令:",
    "  <query>        分析并编译查询，输出 IR 或诊断信息",
    "  :ast <query>   输出查询的 AST 信封 (JSON)",
    "  :ctx <query>   在 '|' 处（缺省为行尾）分类补全上下文并给出建议",
    "  :help          显示帮助",
    "  :quit          退出"]

/-- What a line asks for. -/
inductive Command where
  | quit
  | help
  /-- The AST of a query. -/
  | tree (query : List Char)
  /-- The place of the cursor in a query. -/
  | place (query : List Char)
  | compile (query : List Char)
  | unknown (word : String)
deriving DecidableEq, Repr, Inhabited

/-- The command that a word before a rest names. -/
def Command.ofWord (word rest : List Char) : Command :=
  match String.ofList word with
  | ":quit" => .quit
  | ":q" => .quit
  | ":help" => .help
  | ":ast" => .tree rest
  | ":ctx" => .place rest
  | other => .unknown other

/-- The command that a line without white space around it gives. -/
def Command.ofLine (line : List Char) : Command :=
  match line with
  | ':' :: _ =>
    -- The word runs to the first white space, and the rest is trimmed.
    let word := line.takeWhile (!isBlank ·)
    .ofWord word (trim (line.dropWhile (!isBlank ·)))
  | _ => .compile line

/-- A text with blanks behind it up to a width in characters. -/
def padded (width : Nat) (text : String) : String :=
  text ++ String.ofList (List.replicate (width - text.length) ' ')

/-- The line of a suggestion. -/
def suggestionLine (suggestion : Suggestion) : String :=
  let head := "  " ++ padded 12 suggestion.label ++ " " ++ suggestion.kind.shown
  match suggestion.detail with
  | some detail => head ++ " (" ++ detail ++ ")"
  | none => head

/-- The text before a cursor mark and after it; without a mark the cursor is at the end. -/
def splitCursor (query : List Char) : List Char × List Char :=
  -- Only the first mark is the cursor; others belong to the query.
  (query.takeWhile (· != '|'), (query.dropWhile (· != '|')).drop 1)

/-- The lines that answer a command. -/
def Command.answer (config : Config) (language : Language) : Command → List String
  | .quit => []
  | .help => helpLines
  | .tree query =>
    let analysis := analyze config language (String.ofList query)
    match analysis.envelope with
    | some envelope => [envelope.toJson.pretty]
    | none => [(Diagnostic.listToJson analysis.diagnostics).pretty]
  | .place query =>
    let (front, back) := splitCursor query
    let context := classify language (String.ofList (front ++ back)) (byteLength front)
    ("上下文: " ++ context.toJson.compact) :: (suggest language context).map suggestionLine
  | .compile query =>
    let compilation := compileQuery config language (String.ofList query)
    match compilation.ir with
    | some ir => ["✅ 编译成功", ir.toJson.pretty]
    | none => ["✗ 编译失败", (Diagnostic.listToJson compilation.diagnostics).pretty]
  | .unknown word => [s!"未知命令: {word} (输入 :help 查看命令)"]

/-- The exit code of a run that ends at once. -/
def abortCode : Nat := 101

/-- A command line that is ready for input. -/
structure Shell where
  config : Config
  language : Language
deriving DecidableEq, Repr, Inhabited

/-- What comes of one line of input. -/
inductive ShellStep where
  | answer (lines : List String)
  | quit
  /-- A backspace in the line cannot be carried out, which ends the run at once. -/
  | abort
deriving DecidableEq, Repr, Inhabited

namespace Shell

/-- What comes of one line of input. -/
def step (shell : Shell) (line : String) : ShellStep :=
  match (carryOut? line.toList).map trim with
  | none => .abort
  -- A blank line asks for nothing.
  | some [] => .answer []
  | some line =>
    match Command.ofLine line with
    | .quit => .quit
    | command => .answer (command.answer shell.config shell.language)

/-- The lines that answer the input as far as it is read, and the exit code of the run. -/
def run (shell : Shell) : List String → List String × Nat
  | [] => ([], 0)
  | line :: rest =>
    match shell.step line with
    | .quit => ([], 0)
    | .abort => ([], abortCode)
    | .answer lines =>
      let (more, code) := shell.run rest
      (lines ++ more, code)

/-- The lines that open a session. -/
def greeting (shell : Shell) : List String :=
  ["--- BQL 查询编译器 ---", "字段: " ++ String.intercalate ", " shell.language.fieldNames,
    "输入 :help 查看命令"]

/-- The settings that options ask for. -/
def chooseConfig (file : String → FileContent) : Option String → Except LoadError Config
  | none => .ok .default
  | some path => Config.load path (file path)

/-- The command line that options ask for, and its opening lines. -/
def start (options : ShellOptions) (file : String → FileContent) :
    Except LoadError (Shell × List String) := do
  -- Settings that cannot be loaded stop the run before anything is printed.
  let config ← chooseConfig file options.configPath
  let (language, origin) := chooseLanguage file options.languagePath
  let shell : Shell := ⟨config, language⟩
  return (shell, origin :: shell.greeting)

end Shell

/-- What a run of the command line leaves behind. -/
structure ShellOutcome where
  exitCode : Nat
  output : List String
  failure : Option String
deriving DecidableEq, Repr, Inhabited

/-- A run that could not begin. -/
def ShellOutcome.failed (reason : String) : ShellOutcome :=
  ⟨1, [], some reason⟩

/-- The command line run on its arguments, the files it can see and the lines of its input. -/
def runShell (args : List String) (file : String → FileContent) (input : List String) :
    ShellOutcome :=
  match ShellOptions.ofArgs {} args with
  | .error reason => .failed reason
  | .ok options =>
    match Shell.start options file with
    | .error error => .failed error.message
    | .ok (shell, opening) =>
      let (lines, code) := shell.run input
      ⟨code, opening ++ lines, none⟩

end FilterLang
