import Courtesy.Files.Path

/-!
# Requests

A request has a method, a target, a body and the address it comes from. The target is a path with a
query behind a question mark. Clients are told apart by the host of their address.
-/

namespace Courtesy.Service

open Courtesy.Text

structure Request where
  method : String
  target : String
  body : String := ""
  remote : String := ""
  deriving DecidableEq, Repr, Inhabited

/-- An answer. The content type and the allowed method are empty if they are not set. -/
structure Response where
  status : Nat
  body : String
  contentType : String := ""
  allow : String := ""
  deriving DecidableEq, Repr, Inhabited

namespace Address

/-- The host of an address in brackets: the port has to follow the bracket. -/
def bracketedHost? (cs : List Char) : Option (List Char) :=
  match cs.span (· != ']') with
  | (host, ']' :: ':' :: port) =>
    if host.contains '[' || port.any (fun c => c == ':' || c == '[' || c == ']') then none
    else some host
  | _ => none

/-- The host of an address that is a host and a port with a colon between them. -/
def splitHost? : List Char → Option (List Char)
  | '[' :: rest => bracketedHost? rest
  | cs =>
    match cs.span (· != ':') with
    | (host, ':' :: port) =>
      if (host ++ port).any (fun c => c == '[' || c == ']') || port.contains ':' then none
      else some host
    | _ => none

/-- The host of an address; an address that has no port is the host itself. -/
def host (address : String) : String :=
  match splitHost? address.toList with
  | some cs => String.ofList cs
  | none => address

end Address

namespace Percent

def hexValue? (b : UInt8) : Option UInt8 :=
  if '0'.toUInt8 ≤ b && b ≤ '9'.toUInt8 then some (b - '0'.toUInt8)
  else if 'a'.toUInt8 ≤ b && b ≤ 'f'.toUInt8 then some (b - 'a'.toUInt8 + 10)
  else if 'A'.toUInt8 ≤ b && b ≤ 'F'.toUInt8 then some (b - 'A'.toUInt8 + 10)
  else none

/-- The bytes that percent signs and digits stand for. -/
def decodeBytes : List UInt8 → List UInt8
  | 37 :: a :: b :: rest =>
    match hexValue? a, hexValue? b with
    | some x, some y => (x * 16 + y) :: decodeBytes rest
    | _, _ => 37 :: decodeBytes (a :: b :: rest)
  | b :: rest => b :: decodeBytes rest
  | [] => []

/-- A text with its escapes resolved; one that then is no text stays as it is. -/
def decode (s : String) : String :=
  (String.fromUTF8? ⟨(decodeBytes s.toUTF8.toList).toArray⟩).getD s

/-- Whether a byte stands for itself in a path. -/
def isPlain (b : UInt8) : Bool :=
  let c := Char.ofNat b.toNat
  b < 128 && (c.isAlphanum || "-_.~$&+,/:;=@".toList.contains c)

def upperHex (n : UInt8) : Char :=
  if n < 10 then Char.ofNat (48 + n.toNat) else Char.ofNat (55 + n.toNat)

/-- A path with the bytes escaped that cannot stand in it. -/
def encode (s : String) : String :=
  String.ofList (s.toUTF8.toList.flatMap fun b =>
    if isPlain b then [Char.ofNat b.toNat] else ['%', upperHex (b / 16), upperHex (b % 16)])

end Percent

namespace Request

/-- The target in front of the query, as it was sent. -/
def rawPath (r : Request) : String := String.ofList (r.target.toList.takeWhile (· != '?'))

/-- The query, without the question mark. -/
def query (r : Request) : String := String.ofList ((r.target.toList.dropWhile (· != '?')).drop 1)

/-- The path that a request asks for. -/
def path (r : Request) : String := Percent.decode r.rawPath

/-- The host that a request comes from. -/
def client (r : Request) : String := Address.host r.remote

/-- The shortened form of the path of a request; a slash at its end is kept. -/
def cleanPath (path : String) : String :=
  let p := Path.clean ("/" ++ path)
  if endsWith "/" path && p != "/" then p ++ "/" else p

end Request

end Courtesy.Service
