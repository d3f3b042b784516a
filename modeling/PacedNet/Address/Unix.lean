import PacedNet.Text.Utf8

/-!
# Addresses of local sockets

A local socket is named by a path, by an abstract name that lives outside the
file tree, or not at all; an unnamed address is the empty path. Names are octets
and need not be text.
-/

namespace PacedNet

inductive UnixAddress where
  | path (octets : List UInt8)
  | abstract (name : List UInt8)
deriving DecidableEq, Repr

namespace UnixAddress

/-- The address of a socket that was never bound. -/
def unnamed : UnixAddress := path []

def isUnnamed (x : UnixAddress) : Bool := x == unnamed

def isAbstract : UnixAddress → Bool
  | path _ => false
  | abstract _ => true

def octets : UnixAddress → List UInt8
  | path s => s
  | abstract s => s

/-- The path in the file tree, for an address that has one. -/
def filePath? : UnixAddress → Option (List UInt8)
  | path (b :: s) => some (b :: s)
  | _ => none

def text : UnixAddress → String
  | path s => "unix:" ++ Text.decodeLossy s
  | abstract s => "unix:@" ++ Text.decodeLossy s

end UnixAddress

end PacedNet
