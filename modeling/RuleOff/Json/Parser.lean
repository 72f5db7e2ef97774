import RuleOff.Json.Basic
import RuleOff.Text.Digit

/-!
# Reading JSON

A reader of the JSON grammar. Each step answers what it read and the rest of the text, or `none`
if the text does not start with what the step reads. Beyond the grammar, a numeral that is larger
than every double is refused, and so is an escaped surrogate without its partner.

## Main definitions

* `Json.parse?`: the value written by a whole text.
* `Json.read?`: the same value in canonical form.
-/

namespace RuleOff.Json

/-- Whether the character may stand between two tokens. -/
def isSpace (c : Char) : Bool := c == ' ' || c == '\t' || c == '\n' || c == '\r'

/-- The text without the space in front. -/
def skipSpace (t : Text) : Text := t.dropWhile isSpace

/-- The digits in front of a text, and the rest. -/
def digits : Text → List Nat × Text
  | [] => ([], [])
  | c :: cs =>
    match Text.digit? c with
    | some d => let (ds, rest) := digits cs; (d :: ds, rest)
    | none => ([], c :: cs)

/-- The largest integer of 64 bits. -/
def maxWord : Nat := Nat.pow 2 64 - 1

/-- Appends digits to a number while it fits 64 bits. Answers the number and how many digits
were left out. -/
def absorb : Nat → List Nat → Nat × Nat
  | n, [] => (n, 0)
  | n, d :: ds => if maxWord < n * 10 + d then (n, ds.length + 1) else absorb (n * 10 + d) ds

/-- The digits of the whole part: a lone zero, or digits that do not start with zero. -/
def wholePart? (t : Text) : Option (List Nat × Text) :=
  match digits t with
  | ([], _) => none
  | (0 :: _ :: _, _) => none
  | (ds, rest) => some (ds, rest)

/-- The digits after a decimal point. The point needs at least one. -/
def fraction? : Text → Option (Option (List Nat) × Text)
  | '.' :: cs =>
    match digits cs with
    | ([], _) => none
    | (ds, rest) => some (some ds, rest)
  | t => some (none, t)

/-- The exponent after `e` or `E`, with an optional sign and at least one digit. -/
def exponent? (t : Text) : Option (Option (Bool × List Nat) × Text) :=
  let signed (cs : Text) : Bool × Text :=
    match cs with
    | '+' :: ds => (false, ds)
    | '-' :: ds => (true, ds)
    | ds => (false, ds)
  let read (cs : Text) : Option (Option (Bool × List Nat) × Text) :=
    let (negative, ds) := signed cs
    match digits ds with
    | ([], _) => none
    | (ds, rest) => some (some (negative, ds), rest)
  match t with
  | 'e' :: cs => read cs
  | 'E' :: cs => read cs
  | t => some (none, t)

/-- The number written by some digits. -/
def ofDigits (ds : List Nat) : Nat := ds.foldl (fun n d => n * 10 + d) 0

/-- The largest exponent that is not read as overflow or underflow. -/
def maxExponent : Nat := Nat.pow 2 31 - 1

/-- The value of a numeral. The significand takes digits while it fits 64 bits; a whole digit left
out counts as a power of ten, a fractional one is dropped. -/
def number? (negative : Bool) (whole : List Nat) (fraction : Option (List Nat))
    (exponent : Option (Bool × List Nat)) : Option Json :=
  let (w, skipped) := absorb 0 whole
  let (significand, left) := absorb w (fraction.getD [])
  let shift : Int := skipped - ((fraction.getD []).length - left)
  match fraction, exponent, skipped with
  | none, none, 0 =>
    if negative then
      if 0 < w ∧ w ≤ Nat.pow 2 63 then some (int (-w))
      else (Magnitude.ofDecimal? w 0).map fun m => float ⟨true, m⟩
    else some (int w)
  | _, none, _ => (Magnitude.ofDecimal? significand shift).map fun m => float ⟨negative, m⟩
  | _, some (down, ds), _ =>
    let e := ofDigits ds
    if maxExponent < e then
      if significand ≠ 0 ∧ !down then none else some (float ⟨negative, Magnitude.zero⟩)
    else
      (Magnitude.ofDecimal? significand (if down then shift - e else shift + e)).map fun m =>
        float ⟨negative, m⟩

def numeral? (t : Text) : Option (Json × Text) := do
  let (negative, t) :=
    match t with
    | '-' :: cs => (true, cs)
    | t => (false, t)
  let (whole, t) ← wholePart? t
  let (fraction, t) ← fraction? t
  let (exponent, t) ← exponent? t
  let value ← number? negative whole fraction exponent
  pure (value, t)

/-- The code unit of four hexadecimal digits. -/
def codeUnit? : Text → Option (Nat × Text)
  | a :: b :: c :: d :: rest => do
    let a ← Text.hexDigit? a
    let b ← Text.hexDigit? b
    let c ← Text.hexDigit? c
    let d ← Text.hexDigit? d
    pure (((a * 16 + b) * 16 + c) * 16 + d, rest)
  | _ => none

/-- The character after `\u`: a code unit, or two that form a surrogate pair. -/
def unicodeEscape? (t : Text) : Option (Char × Text) := do
  let (u, rest) ← codeUnit? t
  if 0xD800 ≤ u ∧ u ≤ 0xDBFF then
    match rest with
    | '\\' :: 'u' :: rest =>
      let (v, rest) ← codeUnit? rest
      if 0xDC00 ≤ v ∧ v ≤ 0xDFFF then
        pure (Char.ofNat (0x10000 + (u - 0xD800) * 0x400 + (v - 0xDC00)), rest)
      else none
    | _ => none
  else if 0xDC00 ≤ u ∧ u ≤ 0xDFFF then none
  else pure (Char.ofNat u, rest)

/-- The character that an escape letter other than `u` stands for. -/
def letterEscape? : Char → Option Char
  | '"' => some '"'
  | '\\' => some '\\'
  | '/' => some '/'
  | 'b' => some '\x08'
  | 'f' => some '\x0c'
  | 'n' => some '\n'
  | 'r' => some '\r'
  | 't' => some '\t'
  | _ => none

/-- The rest of a string after its opening quotation mark. The first argument bounds the number
of characters. -/
def stringBody? : Nat → Text → Option (Text × Text)
  | 0, _ => none
  | _ + 1, [] => none
  | _ + 1, '"' :: rest => some ([], rest)
  | n + 1, '\\' :: 'u' :: rest => do
    let (c, rest) ← unicodeEscape? rest
    let (s, rest) ← stringBody? n rest
    pure (c :: s, rest)
  | n + 1, '\\' :: e :: rest => do
    let c ← letterEscape? e
    let (s, rest) ← stringBody? n rest
    pure (c :: s, rest)
  | n + 1, c :: rest =>
    if c = '\\' ∨ c.toNat < 0x20 then none
    else do
      let (s, rest) ← stringBody? n rest
      pure (c :: s, rest)

def string? : Text → Option (Text × Text)
  | '"' :: rest => stringBody? (rest.length + 1) rest
  | _ => none

/-- A word of the grammar and what it stands for. -/
def word? (t : Text) : Option (Json × Text) :=
  match Text.afterPrefix? "null".toList t with
  | some rest => some (null, rest)
  | none =>
    match Text.afterPrefix? "true".toList t with
    | some rest => some (bool true, rest)
    | none =>
      match Text.afterPrefix? "false".toList t with
      | some rest => some (bool false, rest)
      | none => none

mutual

/-- A value, after the space in front of it. The first argument bounds the number of steps. -/
def value? : Nat → Text → Option (Json × Text)
  | 0, _ => none
  | n + 1, t =>
    match skipSpace t with
    | '[' :: rest =>
      match skipSpace rest with
      | ']' :: rest => some (arr [], rest)
      | rest => (items? n rest).map fun r => (arr r.1, r.2)
    | '\x7b' :: rest =>
      match skipSpace rest with
      | '\x7d' :: rest => some (obj [], rest)
      | rest => (members? n rest).map fun r => (obj r.1, r.2)
    | '"' :: rest => (string? ('"' :: rest)).map fun r => (str r.1, r.2)
    | t =>
      match word? t with
      | some r => some r
      | none => numeral? t

/-- The items of an array up to its closing bracket, at least one. -/
def items? : Nat → Text → Option (List Json × Text)
  | 0, _ => none
  | n + 1, t =>
    match value? n t with
    | none => none
    | some (v, rest) =>
      match skipSpace rest with
      | ',' :: rest => (items? n rest).map fun r => (v :: r.1, r.2)
      | ']' :: rest => some ([v], rest)
      | _ => none

/-- The members of an object up to its closing brace, at least one. -/
def members? : Nat → Text → Option (List (Text × Json) × Text)
  | 0, _ => none
  | n + 1, t =>
    match string? (skipSpace t) with
    | none => none
    | some (k, rest) =>
      match skipSpace rest with
      | ':' :: rest =>
        match value? n rest with
        | none => none
        | some (v, rest) =>
          match skipSpace rest with
          | ',' :: rest => (members? n rest).map fun r => ((k, v) :: r.1, r.2)
          | '\x7d' :: rest => some ([(k, v)], rest)
          | _ => none
      | _ => none

end

/-- The value written by a whole text. -/
def parse? (t : Text) : Option Json :=
  match value? (2 * t.length + 2) t with
  | some (v, rest) => if (skipSpace rest).isEmpty then some v else none
  | none => none

/-- The value written by a whole text, in canonical form. -/
def read? (t : Text) : Option Json := (parse? t).map canonical

end RuleOff.Json
