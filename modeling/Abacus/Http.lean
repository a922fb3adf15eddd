import Abacus.Fault
import Abacus.Path
import Abacus.Text.Utf8

/-!
# Requests and responses

What comes in over HTTP and what goes out, and the part of routing that is the same for every service: paths are
brought to their shortest form, by sending the client there.
-/

namespace Abacus

namespace Http

/-- A body as it comes in: whole, or broken off before its end. -/
inductive Body where
  | whole (bytes : Text)
  | broken

/-- The bytes of a body, if there are no more than `most` and all of them come. -/
def Body.read? (most : Int) : Body → Option Text
  | .whole bytes => if most < bytes.length then none else some bytes
  | .broken => none

structure Request where
  method : Text
  target : Text
  headers : List (Text × Text)
  body : Body
  remote : Text
  /-- What is found of the request in front of each statement that is run for it. -/
  interrupted : Nat → Option Interruption

structure Response where
  status : Nat
  contentType : Text
  retryAfter : Option Nat
  requestId : Text
  body : Text

/-- The value of a header, whose name is written in any case; of several the first, of none the empty text. -/
def Request.header (r : Request) (name : Text) : Text :=
  ((r.headers.find? fun (n, _) => Text.lowerAscii n == Text.lowerAscii name).map Prod.snd).getD []

/-- Sets a header in place of all of its name; an empty value only removes them. -/
def Request.setHeader (r : Request) (name value : Text) : Request :=
  let others := r.headers.filter fun (n, _) => Text.lowerAscii n != Text.lowerAscii name
  { r with headers := if value.isEmpty then others else others ++ [(name, value)] }

/-- The path of a target, and its query with the question mark. -/
def splitTarget (target : Text) : Text × Text :=
  match Text.cutAt 63 target with
  | (path, some query) => (path, 63 :: query)
  | (path, none) => (path, [])

/-- Resolves the bytes written as two hexadecimal digits after a percent sign. -/
def decodePercent : Text → Text
  | 37 :: a :: b :: rest =>
    match Text.hexValue a, Text.hexValue b with
    | some x, some y => (x * 16 + y).toUInt8 :: decodePercent rest
    | _, _ => 37 :: decodePercent (a :: b :: rest)
  | c :: rest => c :: decodePercent rest
  | [] => []

/-- The shortest path for the same place, with its final slash kept. -/
def cleanPath (path : Text) : Text :=
  let p := if path.head? = some 47 then path else 47 :: path
  let q := Path.clean p
  if p.getLast? = some 47 && q != [47] then q ++ [47] else q

def segments (path : Text) : List Text := (Path.parts (path.drop 1)).map decodePercent

/-- Characters that HTML gives a meaning to, as their names. -/
def escapeHtml (t : Text) : Text :=
  t.flatMap fun b =>
    if b = 38 then ("&amp;" : Text)
    else if b = 60 then ("&lt;" : Text)
    else if b = 62 then ("&gt;" : Text)
    else if b = 34 then ("&#34;" : Text)
    else if b = 39 then ("&#39;" : Text)
    else [b]

/-- A byte that stands for itself in the path of a link. -/
def isPathByte (b : UInt8) : Bool :=
  Text.isLetter b || Text.isDigit b || Text.hasPart [b] "-_.~$&+,/:;=@"

def encodePath (t : Text) : Text :=
  t.flatMap fun b =>
    if isPathByte b then [b]
    else 37 :: (Text.hex 2 b.toNat).map fun d => if Text.isLower d then d - 32 else d

/-- Sends the client to another path. Only a page that was asked for by GET says so in words. -/
def redirect (r : Request) (requestId path : Text) : Response :=
  let (_, query) := splitTarget r.target
  let get := r.method = ("GET" : Text)
  { status := 301
    contentType := if get || r.method = ("HEAD" : Text) then "text/html; charset=utf-8" else []
    retryAfter := none
    requestId
    body :=
      if get then
        ("<a href=\"" : Text) ++ escapeHtml (encodePath path ++ query) ++ ("\">Moved Permanently</a>.\n\n" : Text)
      else [] }

def notFound (requestId : Text) : Response where
  status := 404
  contentType := "text/plain; charset=utf-8"
  retryAfter := none
  requestId
  body := "404 page not found\n"

end Http

end Abacus
