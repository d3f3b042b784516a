import PacedNet.Config.Error

/-!
# One line of a configuration

A line is blank, a heading, an entry or an inclusion, once its comment and the
blanks around it are removed. Which of them it is, its first character decides.
-/

namespace PacedNet.Config

inductive Line where
  | blank
  /-- `[a.b]` -/
  | heading (names : List String)
  /-- `key = value` -/
  | entry (key value : String)
  /-- `@include name` -/
  | inclusion (name : String)
deriving DecidableEq, Repr

namespace Line

/-- What stands before the first `#`. -/
def withoutComment (s : List Char) : List Char := s.takeWhile (· ≠ '#')

/-- What stands between double quotes, if both are there. -/
def unquote (s : List Char) : List Char :=
  match s with
  | '"' :: rest => if rest.getLast? = some '"' then rest.dropLast else s
  | _ => s

def readHeading (rest : List Char) : Except LineFault Line :=
  if rest.getLast? = some ']' then
    let names := (rest.dropLast.splitOn '.').map Text.trim
    if names.any List.isEmpty then .error (.emptyName (String.ofList rest.dropLast))
    else .ok (.heading (names.map String.ofList))
  else .error .unterminatedHeading

def readDirective (rest : List Char) : Except LineFault Line :=
  let directive := rest.takeWhile (!Text.isBlank ·)
  let argument := (rest.dropWhile (!Text.isBlank ·)).drop 1
  if directive = "include".toList then
    let name := unquote (Text.trim argument)
    if name.isEmpty then .error .namelessInclude else .ok (.inclusion (String.ofList name))
  else .error (.unknownDirective (String.ofList directive))

def readEntry (s : List Char) : Except LineFault Line :=
  match s.dropWhile (· ≠ '=') with
  | [] => .error (.noEntry (String.ofList s))
  | _ :: value =>
    let key := Text.trim (s.takeWhile (· ≠ '='))
    if key.isEmpty then .error .emptyKey
    else .ok (.entry (String.ofList key) (String.ofList (Text.trim value)))

def read (s : List Char) : Except LineFault Line :=
  match Text.trim (withoutComment s) with
  | [] => .ok .blank
  | '[' :: rest => readHeading rest
  | '@' :: rest => readDirective rest
  | line => readEntry line

end Line

/-- The lines of a text: what its line feeds end or separate. -/
def textLines (s : List Char) : List (List Char) :=
  let pieces := s.splitOn '\n'
  if pieces.getLast? = some [] then pieces.dropLast else pieces

end PacedNet.Config
