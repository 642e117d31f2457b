/-! What a host answers when it is asked. -/

namespace FilterLang

/-- Why a host has no answer. -/
inductive HostFailure where
  | callback (reason : String)
  /-- The host took longer than a number of milliseconds. -/
  | timeout (milliseconds : Nat)
deriving DecidableEq, Repr, Inhabited

/-- The digits of a fraction without the zeros at its end. -/
def trimZeros (digits : List Char) : List Char :=
  (digits.reverse.dropWhile (· == '0')).reverse

/-- The three digits of a number of thousandths. -/
def thousandths (count : Nat) : List Char :=
  let digits := Nat.toDigits 10 count
  List.replicate (3 - digits.length) '0' ++ digits

/-- A span of time in its largest fitting unit, with only the places that say something. -/
def shownDuration (milliseconds : Nat) : String :=
  -- No time at all is shown in the smallest unit there is.
  if milliseconds = 0 then "0ns"
  else if milliseconds < 1000 then s!"{milliseconds}ms"
  else
    let seconds := milliseconds / 1000
    -- The fraction shows only the places that are not zero at its end.
    match trimZeros (thousandths (milliseconds % 1000)) with
    | [] => s!"{seconds}s"
    | places => s!"{seconds}." ++ String.ofList places ++ "s"

/-- What is said of a host that has no answer. -/
def HostFailure.message : HostFailure → String
  | callback reason => s!"host callback failed: {reason}"
  | timeout milliseconds => "host callback timed out after " ++ shownDuration milliseconds

/-- What comes back from a host. -/
abbrev HostReply (α : Type) := Except HostFailure (List α)

end FilterLang
