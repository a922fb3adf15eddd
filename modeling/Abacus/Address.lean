import Abacus.Text.Bytes

/-!
# Network addresses

A network address is a host and a port with a colon between them. A host with colons of its own stands in
brackets.
-/

namespace Abacus

inductive AddressFault where
  | missingPort
  | tooManyColons
  | missingBracket
  | unexpectedOpen
  | unexpectedClose
deriving DecidableEq, Repr

namespace AddressFault

def wording : AddressFault → Text
  | .missingPort => "missing port in address"
  | .tooManyColons => "too many colons in address"
  | .missingBracket => "missing ']' in address"
  | .unexpectedOpen => "unexpected '[' in address"
  | .unexpectedClose => "unexpected ']' in address"

/-- The wording after the address it is about, if there is one. -/
def message (f : AddressFault) (address : Text) : Text :=
  if address.isEmpty then f.wording else ("address " : Text) ++ address ++ (": " : Text) ++ f.wording

end AddressFault

def splitAddress (address : Text) : Except AddressFault (Text × Text) :=
  match Text.cutAtLast 58 address with
  | (none, _) => .error .missingPort
  | (some front, port) =>
    match address with
    | 91 :: inner =>
      match Text.cutAt 93 inner with
      | (_, none) => .error .missingBracket
      | (host, some after) =>
        if after.isEmpty then .error .missingPort
        else if after = 58 :: port then
          if host.contains 91 then .error .unexpectedOpen
          else if port.contains 91 then .error .unexpectedOpen
          else if port.contains 93 then .error .unexpectedClose
          else .ok (host, port)
        else if after.head? = some 58 then .error .tooManyColons
        else .error .missingPort
    | _ =>
      if front.contains 58 then .error .tooManyColons
      else if address.contains 91 then .error .unexpectedOpen
      else if address.contains 93 then .error .unexpectedClose
      else .ok (front, port)

end Abacus
