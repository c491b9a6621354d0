-- File paths with `/` between their components, compared by their text alone.
import Asm6502.Text

namespace Asm6502

namespace Path

def components (path : Text) : List Text := path.splitOn Ascii.slash

/-- Puts one component on a cleaned path, kept last component first: `.` and
nothing add nothing, `..` takes a component off. Above the root there is only
the root; above a relative path `..` is kept. -/
def step (rooted : Bool) (stack : List Text) (component : Text) : List Text :=
  if component.isEmpty || component == ascii "." then stack
  else if component == ascii ".." then
    match stack with
    | [] => if rooted then [] else [component]
    | top :: rest => if top == ascii ".." then component :: stack else rest
  else component :: stack

def cleanComponents (path : Text) : List Text :=
  ((components path).foldl (step (path.head? == some Ascii.slash)) []).reverse

def join : List Text → Text
  | [] => []
  | [c] => c
  | c :: rest => c ++ Ascii.slash :: join rest

/-- The shortest path that means the same; the empty path is `.`. -/
def clean (path : Text) : Text :=
  let body := join (cleanComponents path)
  if path.head? == some Ascii.slash then Ascii.slash :: body
  else if body.isEmpty then ascii "."
  else body

def directory (path : Text) : Text :=
  clean (path.reverse.dropWhile (· != Ascii.slash)).reverse

/-- A path that is given relative to the directory of another. -/
def relativeTo (path target : Text) : Text := clean (directory path ++ Ascii.slash :: target)

end Path

end Asm6502
