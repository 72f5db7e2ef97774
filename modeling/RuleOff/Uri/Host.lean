import RuleOff.Uri.Percent

/-!
# Hosts

The normal forms of a host: a domain in lower case, an IPv4 address as four decimal numbers, and
an IPv6 address in brackets with its longest run of zeros left out. Domains outside ASCII are not
supported and are refused.

## Main definitions

* `Uri.Host.special?`: the normal form of the host of a special scheme.
* `Uri.Host.opaque?`: the normal form of the host of any other scheme.
-/

namespace RuleOff.Uri.Host

def forbiddenInDomain (c : Char) : Bool :=
  c.toNat < 0x20 || 0x7E < c.toNat ||
    c ∈ [' ', '#', '/', ':', '<', '>', '?', '@', '[', '\\', ']', '^', '|', '%']

/-- Characters that no host of a scheme that is not special holds. -/
def forbiddenInOpaque (c : Char) : Bool :=
  c ∈ ['\x00', '\t', '\n', '\r', ' ', '#', '/', ':', '<', '>', '?', '@', '[', '\\', ']', '^', '|']

/-- The number written by digits of a base, if all of them are digits of it. -/
def number? (base : Nat) (t : Text) : Option Nat :=
  t.foldlM (fun n c => do
    let d ← Text.hexDigit? c
    if d < base then pure (n * base + d) else none) 0

/-- A part of an IPv4 address: decimal, octal after `0`, or hexadecimal after `0x`. -/
def part? (t : Text) : Option Nat :=
  match t with
  | [] => none
  | '0' :: 'x' :: rest => number? 16 rest
  | '0' :: 'X' :: rest => number? 16 rest
  | ['0'] => some 0
  | '0' :: rest => number? 8 rest
  | t => number? 10 t

/-- Whether a domain ends in a number, and so has to be an IPv4 address. -/
def endsInNumber (t : Text) : Bool :=
  let back := (Text.split '.' t).reverse
  let last :=
    match back with
    | [] :: p :: _ => some p
    | [] :: [] => none
    | p :: _ => some p
    | [] => none
  match last with
  | none => false
  | some p => (p ≠ [] && p.all Char.isDigit) || (part? p).isSome

/-- The value of an IPv4 address with one to four parts, of which the last takes up the bytes
that the others leave. -/
def ipv4Value? (t : Text) : Option Nat := do
  let parts := Text.split '.' t
  let parts := if parts.getLast? = some [] then parts.dropLast else parts
  if 4 < parts.length then none
  else
    let numbers ← parts.mapM part?
    let front := numbers.dropLast
    let last ← numbers.getLast?
    if front.any (255 < ·) || Nat.pow 256 (4 - front.length) ≤ last then none
    else
      let high := front.zipIdx.foldr (fun p n => p.1 * Nat.pow 256 (3 - p.2) + n) 0
      pure (high + last)

/-- Four decimal numbers with points between them. -/
def ipv4Text (n : Nat) : Text :=
  Text.join '.'
    [Text.ofNat (n / Nat.pow 256 3 % 256), Text.ofNat (n / Nat.pow 256 2 % 256), Text.ofNat (n / 256 % 256),
      Text.ofNat (n % 256)]

/-- A piece of an IPv6 address: one to four hexadecimal digits. -/
def piece? (t : Text) : Option Nat :=
  if t.length = 0 ∨ 4 < t.length then none else number? 16 t

/-- An IPv4 address inside an IPv6 address: four numbers below 256 without leading zeros, as two
pieces. -/
def embedded? (t : Text) : Option (List Nat) := do
  let parts := Text.split '.' t
  let numbers ← parts.mapM fun p => do
    let n ← number? 10 p
    if p = [] ∨ 255 < n ∨ (p.head? = some '0' ∧ 1 < p.length) ∨ !p.all Char.isDigit then none
    else pure n
  match numbers with
  | [a, b, c, d] => pure [a * 256 + b, c * 256 + d]
  | _ => none

/-- Pieces with colons between them, of which the last may be an IPv4 address. -/
def pieces? (t : Text) : Option (List Nat) :=
  if t = [] then some []
  else
    let parts := Text.split ':' t
    match parts.getLast? with
    | none => some []
    | some last =>
      if '.' ∈ last then do
        let front ← parts.dropLast.mapM piece?
        let back ← embedded? last
        pure (front ++ back)
      else parts.mapM piece?

/-- The two sides of the first pair of colons. -/
def cutAtGap : Text → Option (Text × Text)
  | ':' :: ':' :: rest => some ([], rest)
  | c :: rest => (cutAtGap rest).map fun r => (c :: r.1, r.2)
  | [] => none

/-- The eight pieces of an IPv6 address. A pair of colons stands for at least one piece of
zero. -/
def ipv6Pieces? (t : Text) : Option (List Nat) :=
  match cutAtGap t with
  | none => do
    let ps ← pieces? t
    if ps.length = 8 then pure ps else none
  | some (front, back) => do
    if '.' ∈ front then none
    else
      let xs ← pieces? front
      let ys ← pieces? back
      if xs.length + ys.length < 8 then
        pure (xs ++ List.replicate (8 - (xs.length + ys.length)) 0 ++ ys)
      else none

/-- How many zeros a list starts with. -/
def zerosAhead (ps : List Nat) : Nat := (ps.takeWhile (· = 0)).length

/-- The start and length of the first longest run of at least two zeros. -/
def longestGap (ps : List Nat) : Option (Nat × Nat) :=
  (List.range ps.length).foldl
    (fun best i =>
      let n := zerosAhead (ps.drop i)
      match best with
      | some (j, m) => if m < n then some (i, n) else some (j, m)
      | none => if 2 ≤ n then some (i, n) else none)
    none

/-- The text of an IPv6 address, in brackets. -/
def ipv6Text (ps : List Nat) : Text :=
  let form (qs : List Nat) : Text := Text.join ':' (qs.map Text.hex)
  '[' ::
    ((match longestGap ps with
      | some (i, n) => form (ps.take i) ++ ':' :: ':' :: form (ps.drop (i + n))
      | none => form ps) ++ [']'])

/-- An IPv6 address between brackets. -/
def bracketed? (t : Text) : Option Text :=
  if t.getLast? = some ']' then (ipv6Pieces? (t.drop 1).dropLast).map ipv6Text else none

/-- The normal form of the host of a special scheme. -/
def special? (t : Text) : Option Text :=
  if t.head? = some '[' then bracketed? t
  else do
    let decoded ← Text.ofUtf8? (Percent.decode t)
    let domain := decoded.map Char.toLower
    if domain = [] ∨ domain.any forbiddenInDomain then none
    else if endsInNumber domain then (ipv4Value? domain).map ipv4Text
    else pure domain

/-- The normal form of the host of a scheme that is not special. It may be empty. -/
def opaque? (t : Text) : Option Text :=
  if t.head? = some '[' then bracketed? t
  else if t.any forbiddenInOpaque then none
  else some (Percent.encode Percent.controlSet t)

end RuleOff.Uri.Host
