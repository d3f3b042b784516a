import PacedNet.FileTree
import PacedNet.Quota

/-!
# Configuration errors

What reading a configuration, or asking it for a value, may end with. The causes
are data; `ConfigError.message` is the only place that knows their wording.
-/

namespace PacedNet.Config

inductive LineFault where
  | unterminatedHeading
  | emptyName (heading : String)
  | unknownDirective (name : String)
  | namelessInclude
  | emptyKey
  | noEntry (line : String)
deriving DecidableEq, Repr

def LineFault.message : LineFault → String
  | unterminatedHeading => "unterminated section heading"
  | emptyName heading => s!"empty section name in [{heading}]"
  | unknownDirective name => s!"unknown directive @{name}"
  | namelessInclude => "@include needs a source name"
  | emptyKey => "empty key"
  | noEntry line => s!"expected `key = value`, got {Text.quoted line}"

inductive IncludeFault where
  /-- Neither registered nor a file. -/
  | unknown
  | unreadable (file : String) (fault : FileFault)
  /-- The sources on the way, the last one for the second time. -/
  | cycle (chain : List String)
deriving DecidableEq, Repr

def IncludeFault.message : IncludeFault → String
  | unknown => "no source registered under this name and no such file"
  | unreadable file fault => s!"{file}: {fault.message}"
  | cycle chain => "include cycle: " ++ " -> ".intercalate chain

end PacedNet.Config

namespace PacedNet

/-- A configuration that cannot be read, or does not hold what was asked for. -/
inductive ConfigError where
  | malformed (source : String) (line : Nat) (fault : Config.LineFault)
  | duplicate (source : String) (line : Nat) (scope key : String)
  | inclusion (name : String) (fault : Config.IncludeFault)
  | missing (scope key : String)
  | badValue (scope key value expected : String)
  | badQuota (scope key : String) (error : QuotaError)
  | unreadable (path : String) (fault : FileFault)
deriving DecidableEq

def ConfigError.message : ConfigError → String
  | malformed source line fault => s!"{source}:{line}: syntax error: {fault.message}"
  | duplicate source line scope key =>
    s!"{source}:{line}: duplicate key `{key}` in section [{scope}]"
  | inclusion name fault => s!"cannot include `{name}`: {fault.message}"
  | missing scope key => s!"[{scope}]: no entry `{key}`"
  | badValue scope key value expected =>
    s!"[{scope}]: invalid value for `{key}` = {Text.quoted value}: expected {expected}"
  | badQuota scope key error => s!"[{scope}]: invalid quota `{key}`: {error.message}"
  | unreadable path fault => s!"no config file at {path}: {fault.message}"

end PacedNet
