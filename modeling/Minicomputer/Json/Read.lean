import Minicomputer.Json.Value
import Minicomputer.Text.Decimal

/-!
# Reading JSON

The strict grammar: blanks are the space, the tab and the two line ends, strings hold no raw control
character, lists have no trailing comma, and nothing but blanks follows the value.
-/

set_option autoImplicit false

namespace Minicomputer.Json

def isBlank (c : Char) : Bool := c == ' ' || c == '\n' || c == '\t' || c == '\r'

def skip (s : List Char) : List Char := s.dropWhile isBlank

def rest? : List Char → List Char → Option (List Char)
  | [], s => some s
  | c :: word, d :: s => if c = d then rest? word s else none
  | _ :: _, [] => none

/-- Digits, of which there is at least one, and what follows them. -/
def digits? (s : List Char) : Option (List Char × List Char) :=
  match s.takeWhile Char.isDigit with
  | [] => none
  | ds => some (ds, s.dropWhile Char.isDigit)

/-- The digits before the point: a leading zero stands alone. -/
def whole? (s : List Char) : Option (List Char × List Char) :=
  match digits? s with
  | some ('0' :: _ :: _, _) => none
  | found => found

def fraction? (s : List Char) : Option (List Char × List Char) :=
  match s with
  | '.' :: r => (digits? r).map fun (ds, r) => ('.' :: ds, r)
  | _ => some ([], s)

def exponent? (s : List Char) : Option (List Char × List Char) :=
  match s with
  | c :: r =>
    if c = 'e' ∨ c = 'E' then
      match r with
      | d :: t =>
        if d = '+' ∨ d = '-' then (digits? t).map fun (ds, t) => (c :: d :: ds, t)
        else (digits? r).map fun (ds, t) => (c :: ds, t)
      | [] => none
    else some ([], s)
  | [] => some ([], s)

/-- A number. It is an integer where it has neither fraction nor exponent, except negative zero. -/
def number? (s : List Char) : Option (Value × List Char) := do
  let (sign, s) := match s with
    | '-' :: r => (['-'], r)
    | _ => ([], s)
  let (whole, s) ← whole? s
  let (fraction, s) ← fraction? s
  let (exponent, s) ← exponent? s
  if fraction.isEmpty && exponent.isEmpty && !(sign == ['-'] && whole == ['0']) then
    let n : Int := Text.numeral 10 whole
    some (.integer (if sign.isEmpty then n else -n), s)
  else some (.fraction (String.ofList (sign ++ whole ++ fraction ++ exponent)), s)

/-- A part of a string literal: a character, or a numbered unit of UTF-16. -/
inductive Piece where
  | char (c : Char)
  | unit (n : Nat)

def shortEscape? : Char → Option Char
  | '"' => some '"'
  | '\\' => some '\\'
  | '/' => some '/'
  | 'b' => some '\x08'
  | 'f' => some '\x0c'
  | 'n' => some '\n'
  | 'r' => some '\r'
  | 't' => some '\t'
  | _ => none

def isHexDigit (c : Char) : Bool :=
  c.isDigit || ('a' ≤ c && c ≤ 'f') || ('A' ≤ c && c ≤ 'F')

/-- The pieces of a string literal, from behind its opening quote, in front of those found before. -/
def pieces? (found : List Piece) : List Char → Option (List Piece × List Char)
  | [] => none
  | '"' :: s => some (found.reverse, s)
  | ['\\'] => none
  | '\\' :: 'u' :: a :: b :: c :: d :: s =>
    if [a, b, c, d].all isHexDigit then pieces? (.unit (Text.numeral 16 [a, b, c, d]) :: found) s
    else none
  | '\\' :: c :: s =>
    match shortEscape? c with
    | some x => pieces? (.char x :: found) s
    | none => none
  | c :: s => if c.toNat < 0x20 then none else pieces? (.char c :: found) s

/-- The text that pieces denote, behind what was found before. Surrogates count in pairs. -/
def denoted? (found : List Char) : List Piece → Option (List Char)
  | [] => some found.reverse
  | .char c :: ps => denoted? (c :: found) ps
  | .unit n :: ps =>
    if 0xD800 ≤ n ∧ n < 0xDC00 then
      match ps with
      | .unit m :: qs =>
        if 0xDC00 ≤ m ∧ m < 0xE000 then
          denoted? (Char.ofNat ((n - 0xD800) * 1024 + (m - 0xDC00) + 0x10000) :: found) qs
        else none
      | _ => none
    else if 0xDC00 ≤ n ∧ n < 0xE000 then none
    else denoted? (Char.ofNat n :: found) ps

/-- A string literal, from behind its opening quote: its text, if it denotes one. -/
def literal? (s : List Char) : Option (Option String × List Char) :=
  (pieces? [] s).map fun (ps, r) => ((denoted? [] ps).map String.ofList, r)

mutual

def value? : Nat → List Char → Option (Value × List Char)
  | 0, _ => none
  | fuel + 1, s =>
    match skip s with
    | [] => none
    | '"' :: r => (literal? r).map fun (text, r) => ((text.map Value.text).getD .broken, r)
    | '[' :: r =>
      match skip r with
      | ']' :: r => some (.array [], r)
      | _ => (items? fuel r).map fun (vs, r) => (.array vs, r)
    | '\x7b' :: r =>
      match skip r with
      | '\x7d' :: r => some (.object [], r)
      | _ => (members? fuel r).map fun (ms, r) => (.object ms, r)
    | 'n' :: r => (rest? ['u', 'l', 'l'] r).map fun r => (.null, r)
    | 't' :: r => (rest? ['r', 'u', 'e'] r).map fun r => (.bool true, r)
    | 'f' :: r => (rest? ['a', 'l', 's', 'e'] r).map fun r => (.bool false, r)
    | r => number? r

def items? : Nat → List Char → Option (List Value × List Char)
  | 0, _ => none
  | fuel + 1, s =>
    match value? fuel s with
    | none => none
    | some (v, r) =>
      match skip r with
      | ',' :: r => (items? fuel r).map fun (vs, r) => (v :: vs, r)
      | ']' :: r => some ([v], r)
      | _ => none

def members? : Nat → List Char → Option (List (Option String × Value) × List Char)
  | 0, _ => none
  | fuel + 1, s =>
    match skip s with
    | '"' :: r =>
      match literal? r with
      | none => none
      | some (k, r) =>
        match skip r with
        | ':' :: r =>
          match value? fuel r with
          | none => none
          | some (v, r) =>
            match skip r with
            | ',' :: r => (members? fuel r).map fun (ms, r) => ((k, v) :: ms, r)
            | '\x7d' :: r => some ([(k, v)], r)
            | _ => none
        | _ => none
    | _ => none

end

/-- The value of a text. Each step of reading uses up a character of it. -/
def read? (text : String) : Option Value :=
  let s := text.toList
  match value? (2 * s.length + 2) s with
  | some (v, r) => if (skip r).isEmpty then some v else none
  | none => none

end Minicomputer.Json
