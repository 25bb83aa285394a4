import Lightnet.Protocol

/-!
# Reading JSON at a cursor

A cursor is the list of the bytes from it to the end of the buffer. The code compares the cursor
with the end before it reads, and the empty list is the failed comparison; a read that no
comparison precedes is `overread` there. A reader returns the value, if there is one, and the
cursor it leaves, also where it fails.

The skip functions call each other without a bound of their own. They run on fuel, and
`unfinished` is a run that has used it up.
-/

namespace Lightnet

abbrev Text := List Byte

instance textLawfulBEq : LawfulBEq Text := inferInstance

def ch (c : Char) : Byte := BitVec.ofNat 8 c.toNat

def bytes (s : String) : Text := s.toList.map ch

inductive Fault where
  | overread | unfinished
  deriving DecidableEq

def isSpace (c : Byte) : Bool := c = ch ' ' || c = ch '\t' || c = ch '\n' || c = ch '\r'

def isDigit (c : Byte) : Bool := ch '0' ≤ c && c ≤ ch '9'

def digitVal (c : Byte) : ℕ := c.toNat - (ch '0').toNat

/-- What a string function sees of a buffer: the bytes before the first NUL. -/
def cString (s : Text) : Text := s.takeWhile (· ≠ 0)

def jsonSkipWs (p : Text) : Text := p.dropWhile isSpace

/-! ### Strings -/

/-- The cursor after the quote that closes the string. -/
def jsonSkipQuotedRest : Text → Text
  | [] => []
  | c :: p =>
    if c = ch '"' then p
    else if c = ch '\\' then
      match p with
      | [] => []
      | _ :: q => jsonSkipQuotedRest q
    else jsonSkipQuotedRest p

def jsonSkipQuotedString : Text → Text
  | [] => []
  | c :: p => if c = ch '"' then jsonSkipQuotedRest p else c :: p

def jsonHexVal (c : Byte) : Option ℕ :=
  if isDigit c then some (digitVal c)
  else if ch 'a' ≤ c ∧ c ≤ ch 'f' then some (c.toNat - (ch 'a').toNat + 10)
  else if ch 'A' ≤ c ∧ c ≤ ch 'F' then some (c.toNat - (ch 'A').toNat + 10)
  else none

/-- The escapes of one letter. -/
def jsonEscapeVal (esc : Byte) : Option Byte :=
  if esc = ch '"' then some (ch '"')
  else if esc = ch '\\' then some (ch '\\')
  else if esc = ch '/' then some (ch '/')
  else if esc = ch 'b' then some 0x08
  else if esc = ch 'f' then some 0x0C
  else if esc = ch 'n' then some (ch '\n')
  else if esc = ch 'r' then some (ch '\r')
  else if esc = ch 't' then some (ch '\t')
  else none

/-- The four digits after `\u`; only seven-bit codes have a value. -/
def jsonDecodeUnicode : Text → Option Byte × Text
  | a :: b :: c :: d :: q =>
    match jsonHexVal a, jsonHexVal b, jsonHexVal c, jsonHexVal d with
    | some a', some b', some c', some d' =>
      let code := ((a' * 16 + b') * 16 + c') * 16 + d'
      if 0x7F < code then (none, q) else (some (BitVec.ofNat 8 code), q)
    | _, _, _, _ => (none, a :: b :: c :: d :: q)
  | p => (none, p)

def jsonDecodeEscapedChar : Text → Option Byte × Text
  | [] => (none, [])
  | esc :: p =>
    match jsonEscapeVal esc with
    | some c => (some c, p)
    | none => if esc = ch 'u' then jsonDecodeUnicode p else (none, p)

/-- The bytes of a string up to its closing quote. Every round takes a byte, so the first argument
need not exceed the length of the text. -/
def jsonReadChars : ℕ → Text → Option Text × Text
  | 0, p => (none, p)
  | _ + 1, [] => (none, [])
  | n + 1, c :: p =>
    if c = ch '"' then (some [], p)
    else
      match if c = ch '\\' then jsonDecodeEscapedChar p else (some c, p) with
      | (none, q) => (none, q)
      | (some x, q) =>
        match jsonReadChars n q with
        | (none, r) => (none, r)
        | (some cs, r) => (some (x :: cs), r)

/-- A string into a buffer of `outLen` bytes: what does not fit is dropped. -/
def jsonReadString (outLen : ℕ) (p : Text) : Option Text × Text :=
  match jsonSkipWs p with
  | [] => (none, [])
  | c :: q =>
    if c = ch '"' then
      match jsonReadChars q.length q with
      | (none, r) => (none, r)
      | (some cs, r) => (some (cString (cs.take (outLen - 1))), r)
    else (none, c :: q)

/-! ### Numbers and booleans -/

def jsonReadDigits : ℕ → Text → Option ℕ × Text
  | v, [] => (some v, [])
  | v, c :: p =>
    if isDigit c then
      let v' := v * 10 + digitVal c
      if 65535 < v' then (none, p) else jsonReadDigits v' p
    else (some v, c :: p)

def jsonReadUInt (p : Text) : Option ℕ × Text :=
  match jsonSkipWs p with
  | [] => (none, [])
  | c :: q => if isDigit c then jsonReadDigits 0 (c :: q) else (none, c :: q)

def jsonReadBool (p : Text) : Option Bool × Text :=
  let q := jsonSkipWs p
  if bytes "true" <+: q then (some true, q.drop 4)
  else if bytes "false" <+: q then (some false, q.drop 5)
  else (none, q)

/-! ### Skipping a value -/

/-- The bytes a bare scalar runs over. -/
def isScalar (c : Byte) : Bool :=
  c ≠ ch ',' && c ≠ ch '}' && c ≠ ch ']' && !isSpace c

mutual

def jsonSkipObject : ℕ → Text → Except Fault (Bool × Text)
  | 0, _ => .error .unfinished
  | _ + 1, [] => .ok (false, [])
  | n + 1, p@(_ :: _) =>
    match jsonSkipWs p with
    | [] => .error .overread
    | c :: q =>
      if c = ch '}' then .ok (true, q)
      else if c = ch ',' then jsonSkipObject n q
      else if c = ch '"' then jsonSkipObject n (jsonSkipQuotedString (c :: q))
      else if c ≠ ch ':' then .ok (false, c :: q)
      else
        match jsonSkipValue n q with
        | .ok (true, r) => jsonSkipObject n r
        | other => other

def jsonSkipArray : ℕ → Text → Except Fault (Bool × Text)
  | 0, _ => .error .unfinished
  | _ + 1, [] => .ok (false, [])
  | n + 1, p@(_ :: _) =>
    match jsonSkipWs p with
    | [] => .error .overread
    | c :: q =>
      if c = ch ']' then .ok (true, q)
      else if c = ch ',' then jsonSkipArray n q
      else
        match jsonSkipValue n (c :: q) with
        | .ok (true, r) => jsonSkipArray n r
        | other => other

def jsonSkipValue : ℕ → Text → Except Fault (Bool × Text)
  | 0, _ => .error .unfinished
  | n + 1, p =>
    match jsonSkipWs p with
    | [] => .ok (false, [])
    | c :: q =>
      if c = ch '"' then .ok (true, jsonSkipQuotedString (c :: q))
      else if c = ch '{' then jsonSkipObject n q
      else if c = ch '[' then jsonSkipArray n q
      else .ok (true, (c :: q).dropWhile isScalar)

end

/-! ### Containers -/

def jsonEnter (opener : Byte) (p : Text) : Bool × Text :=
  match jsonSkipWs p with
  | [] => (false, [])
  | c :: q => if c = opener then (true, q) else (false, c :: q)

def jsonEnterObject : Text → Bool × Text := jsonEnter (ch '{')

def jsonEnterArray : Text → Bool × Text := jsonEnter (ch '[')

/-- Commas are passed over wherever they stand. -/
def jsonSkipSeparators (p : Text) : Text := p.dropWhile fun c => isSpace c || c = ch ','

def jsonNextKey (keyLen : ℕ) (p : Text) : Option Text × Text :=
  match jsonSkipSeparators p with
  | [] => (none, [])
  | c :: q =>
    if c = ch '}' then (none, q)
    else
      match jsonReadString keyLen (c :: q) with
      | (none, r) => (none, r)
      | (some key, r) =>
        match jsonSkipWs r with
        | [] => (none, [])
        | d :: s => if d = ch ':' then (some key, jsonSkipWs s) else (none, d :: s)

def jsonNextElement (p : Text) : Bool × Text :=
  match jsonSkipSeparators p with
  | [] => (false, [])
  | c :: q => if c = ch ']' then (false, q) else (true, c :: q)

end Lightnet
