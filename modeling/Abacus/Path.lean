import Abacus.Text.Bytes

/-!
# Paths

Paths with slashes, handled as text: the shortest equivalent path, joining, and the parts of a path. Nothing
here looks at files.
-/

namespace Abacus

namespace Path

def parts (p : Text) : List Text := Text.pieces (· == 47) p

/-- The parts kept so far, last first, after one more part. A parent step takes the last part away; above the
start of a relative path it stays, above the root it has no effect. -/
def pushPart (rooted : Bool) (acc : List Text) (part : Text) : List Text :=
  if part.isEmpty || part = ("." : Text) then acc
  else if part = (".." : Text) then
    match acc with
    | [] => if rooted then [] else [part]
    | last :: rest => if last = (".." : Text) then part :: acc else rest
  else part :: acc

/-- The shortest path that names the same place. -/
def clean (p : Text) : Text :=
  let rooted := p.head? == some 47
  let kept := ((parts p).foldl (pushPart rooted) []).reverse
  let body := Text.join "/" kept
  if rooted then 47 :: body else if body.isEmpty then "." else body

/-- The non-empty paths one below the other. -/
def join (ps : List Text) : Text :=
  match ps.filter (!·.isEmpty) with
  | [] => []
  | qs => clean (Text.join "/" qs)

/-- Where the last part of the path stands. -/
def dir (p : Text) : Text :=
  match Text.cutAtLast 47 p with
  | (some before, _) => clean (before ++ [47])
  | (none, _) => "."

/-- The last part of the path. -/
def base (p : Text) : Text :=
  if p.isEmpty then "."
  else
    let stripped := (p.reverse.dropWhile (· == 47)).reverse
    if stripped.isEmpty then "/" else (Text.cutAtLast 47 stripped).2

def isHidden (name : Text) : Bool := name.head? == some 46

end Path

end Abacus
