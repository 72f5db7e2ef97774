import RuleOff.Text.Digit
import RuleOff.Text.Utf8

/-!
# Percent encoding

A character that may not stand in a part of a URI is written as `%` and two hexadecimal digits
for each of its UTF-8 bytes. Each part has its own set of such characters; characters outside
ASCII belong to all of them.

## Main definitions

* `Uri.Percent.encode`: a text with the characters of a set encoded.
* `Uri.Percent.decode`: the bytes that a text stands for.
-/

namespace RuleOff.Uri.Percent

/-- The three characters that stand for a byte. -/
def encodeByte (b : UInt8) : Text :=
  ['%', Text.upperHexDigit (b.toNat / 16), Text.upperHexDigit (b.toNat % 16)]

def encodeChar (set : Char → Bool) (c : Char) : Text :=
  if set c then (String.utf8EncodeChar c).flatMap encodeByte else [c]

def encode (set : Char → Bool) (t : Text) : Text := t.flatMap (encodeChar set)

/-- The bytes that a text stands for: `%` with two hexadecimal digits is one byte, any other
character its UTF-8 bytes. -/
def decode : Text → List UInt8
  | [] => []
  | '%' :: a :: b :: rest =>
    match Text.hexDigit? a, Text.hexDigit? b with
    | some x, some y => UInt8.ofNat (x * 16 + y) :: decode rest
    | _, _ => String.utf8EncodeChar '%' ++ decode (a :: b :: rest)
  | c :: rest => String.utf8EncodeChar c ++ decode rest

/-- Control characters, and all characters outside ASCII. -/
def controlSet (c : Char) : Bool := c.toNat < 0x20 || 0x7E < c.toNat

def fragmentSet (c : Char) : Bool := controlSet c || c ∈ [' ', '"', '<', '>', '\x60']

def querySet (c : Char) : Bool := controlSet c || c ∈ [' ', '"', '#', '<', '>']

/-- The characters encoded in the query of a URI with a special scheme. -/
def specialQuerySet (c : Char) : Bool := querySet c || c == '\x27'

def pathSet (c : Char) : Bool := fragmentSet c || c ∈ ['#', '?', '\x7b', '\x7d']

/-- The characters encoded in a segment that is the name of a file: those of a path, and the
slash, the backslash and the percent sign. -/
def fileNameSet (c : Char) : Bool := pathSet c || c ∈ ['/', '%', '\\']

/-- The characters encoded in a user name or password. -/
def userSet (c : Char) : Bool :=
  pathSet c || c ∈ ['/', ':', ';', '=', '@', '[', '\\', ']', '^', '|']

end RuleOff.Uri.Percent
