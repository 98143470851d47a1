import StoreMarkup.Text.Basic

/-! Paths of files. -/
namespace StoreMarkup

/-- A path as its parts. No part is empty or a single dot, since such parts lead nowhere. Two dots
stay, since where they lead depends on the files. -/
structure Path where
  /-- The slashes that an absolute path starts with. -/
  root : Text := []
  parts : List Text := []
deriving DecidableEq, Repr

namespace Path

/-- The part that leads to the directory above. -/
def up : Text := ['.', '.']

/-- Two slashes at the start stay, one or more than two are one. -/
def rootOf (t : Text) : Text :=
  match (t.takeWhile (· == '/')).length with
  | 0 => []
  | 2 => ['/', '/']
  | _ => ['/']

def ofText (t : Text) : Path :=
  { root := rootOf t
    parts := (Text.fields '/' t).filter fun part => !part.isEmpty && part != ['.'] }

/-- A path as text. The empty path is a single dot. -/
def toText (p : Path) : Text :=
  if p.root.isEmpty && p.parts.isEmpty then ['.'] else p.root ++ Text.join ['/'] p.parts

/-- The second path as seen from the first. -/
def append (p q : Path) : Path :=
  if q.root.isEmpty then { p with parts := p.parts ++ q.parts } else q

end Path

end StoreMarkup
