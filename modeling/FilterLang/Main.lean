import FilterLang.Shell

/-! The program: the command line on the files and the input it is given. -/

namespace FilterLang

/-- What there is at a path. -/
def readContent (path : String) : IO FileContent := do
  try
    let bytes ← IO.FS.readBinFile path
    return ((String.fromUTF8? bytes).map FileContent.text).getD .unreadable
  catch
    | .noFileOrDirectory .. => return .absent
    | _ => return .unreadable

/-- The contents of several paths. -/
def readContents : List String → IO (List (String × FileContent))
  | [] => return []
  | path :: rest => return (path, ← readContent path) :: (← readContents rest)

/-- Answers one line after another until the input or the session ends, and gives the exit code. -/
partial def converse (shell : Shell) (input output : IO.FS.Stream) : IO UInt32 := do
  -- Only someone at a terminal is asked for the next line.
  if ← input.isTty then
    output.putStr "bql> "
    output.flush
  let line ← input.getLine
  -- An empty line still has its line break, so this is the end of the input.
  if line.isEmpty then return 0
  match shell.step line with
  | .quit => return 0
  | .abort => return abortCode.toUInt32
  | .answer lines =>
    for answer in lines do
      output.putStrLn answer
    converse shell input output

/-- Says why a run could not begin. -/
def refuse (reason : String) : IO UInt32 := do
  IO.eprintln ("Error: " ++ reason)
  return 1

/-- Runs the command line on its arguments. -/
def runProgram (args : List String) : IO UInt32 := do
  match ShellOptions.ofArgs {} args with
  | .error reason => refuse reason
  | .ok options =>
    let files ← readContents options.paths
    match Shell.start options fun path => (files.lookup path).getD .absent with
    | .error error => refuse error.message
    | .ok (shell, opening) =>
      for line in opening do
        IO.println line
      converse shell (← IO.getStdin) (← IO.getStdout)

end FilterLang

/-- Runs the program. -/
def main (args : List String) : IO UInt32 :=
  FilterLang.runProgram args
