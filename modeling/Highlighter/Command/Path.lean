import Highlighter.Text.Basic

/-!
Paths. A path is kept without empty components and without components that are one point; two
points are kept, since they lead back through whatever comes before them.
-/

set_option autoImplicit false

namespace Highlighter

structure Path where
  /-- The slashes in front of an absolute path: one, or just two. -/
  root : Text
  parts : List Text
  deriving DecidableEq, Repr

namespace Path

/-- What lies between the slashes of a text. -/
def components : Text → List Text
  | [] => [[]]
  | c :: s =>
    if c = '/' then [] :: components s
    else
      match components s with
      | [] => [[c]]
      | p :: ps => (c :: p) :: ps

def here : Text := ['.']

def up : Text := ['.', '.']

def ofText (s : Text) : Path where
  root :=
    match (s.takeWhile (· == '/')).length with
    | 0 => []
    | 2 => ['/', '/']
    | _ => ['/']
  parts := (components s).filter fun p => !p.isEmpty && p != here

def toText (p : Path) : Text :=
  if p.root.isEmpty && p.parts.isEmpty then here else p.root ++ ['/'].intercalate p.parts

def parent (p : Path) : Path := { p with parts := p.parts.dropLast }

def child (p : Path) (name : Text) : Path := { p with parts := p.parts ++ [name] }

end Path

end Highlighter
