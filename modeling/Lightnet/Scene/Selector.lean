import Lightnet.Json.Parse
import Lightnet.Json.Decimal
import Lightnet.Animation.Color

/-!
# Panel selectors

Which panels a layer drives is a program in postfix order for a stack of panel sets, at most
`selCap` bytes long. The parser compiles the value of a `panels` key into one: a list of indices,
a token, or an object that composes further values.
-/

namespace Lightnet

inductive SelOp where
  | all | root | leaves | branches | even | odd | depth | subtree | neighbors | fraction | first
  | last | indices | and | or | not
  deriving DecidableEq

def SelOp.toByte : SelOp → Byte
  | all => 1
  | root => 2
  | leaves => 3
  | branches => 4
  | even => 5
  | odd => 6
  | depth => 7
  | subtree => 8
  | neighbors => 9
  | fraction => 10
  | first => 11
  | last => 12
  | indices => 13
  | and => 15
  | or => 16
  | not => 17

abbrev selCap : ℕ := 64

abbrev selMaxIndexList : ℕ := 32

abbrev selStackMax : ℕ := 6

structure PanelSelector where
  ops : List Byte
  length_le : ops.length ≤ selCap
  deriving DecidableEq

namespace PanelSelector

def clear : PanelSelector := ⟨[], Nat.zero_le _⟩

def emit (s : PanelSelector) (b : Byte) : Option PanelSelector :=
  if h : s.ops.length < selCap then
    some ⟨s.ops ++ [b], by rw [List.length_append]; exact h⟩
  else none

/-- The whole set, which a layer without a `panels` key drives. -/
def everyPanel : PanelSelector := ⟨[SelOp.toByte .all], by decide⟩

end PanelSelector

namespace Parse

/-- Emit the bytes one after another. -/
def emitAll (errMsg : Option Text) (out : PanelSelector) (bs : List Byte) :
    Except (Option Text) PanelSelector :=
  match bs.foldlM PanelSelector.emit out with
  | some out' => .ok out'
  | none => .error errMsg

end Parse

open Parse

def tooComplex : Option Text := msg "panels: too complex"

def selTokUInt : Text → Option ℕ × Text
  | [] => (none, [])
  | c :: p => if isDigit c then jsonReadDigits 0 (c :: p) else (none, c :: p)

/-- The tokens without an argument. -/
def selWord (tok : Text) : Option SelOp :=
  if tok = bytes "all" then some .all
  else if tok = bytes "root" then some .root
  else if tok = bytes "leaves" then some .leaves
  else if tok = bytes "branches" then some .branches
  else if tok = bytes "even" then some .even
  else if tok = bytes "odd" then some .odd
  else none

def selEmitDepth (arg : Text) (out : PanelSelector) : Except (Option Text) PanelSelector :=
  match selTokUInt arg with
  | (none, _) => .error (msg "depth: bad range")
  | (some lo, a) =>
    match if a.head? = some (ch '-') then selTokUInt a.tail else (some lo, a) with
    | (none, _) => .error (msg "depth: bad range")
    | (some hi, _) =>
      if 255 < lo ∨ 255 < hi then .error (msg "depth: out of range")
      else emitAll none out [SelOp.toByte .depth, u8 lo, u8 hi]

/-- An operator with one argument from 1 to 255. -/
def selEmitUnary (op : SelOp) (errMsg : Option Text) (arg : Text) (out : PanelSelector) :
    Except (Option Text) PanelSelector :=
  match selTokUInt arg with
  | (none, _) => .error errMsg
  | (some v, _) =>
    if v = 0 ∨ 255 < v then .error errMsg else emitAll none out [op.toByte, u8 v]

/-- A bound in steps of 1/255. -/
def fractionByte (x : ℚ) : Byte := u8 (Single.toNat (Single.add (Single.mul x 255) (1 / 2)))

def selEmitFraction (arg : Text) (out : PanelSelector) : Except (Option Text) PanelSelector :=
  match selTokFloat arg with
  | (none, _) => .error (msg "fraction: bad range")
  | (some lo, a) =>
    if a.head? ≠ some (ch '-') then .error (msg "fraction: expected a-b")
    else
      match selTokFloat a.tail with
      | (none, _) => .error (msg "fraction: bad range")
      | (some hi, _) =>
        emitAll none out [SelOp.toByte .fraction, fractionByte (max lo 0), fractionByte (min hi 1)]

/-- A token is a word or a name and an argument with a colon between them. -/
def selEmitToken (tok : Text) (out : PanelSelector) : Except (Option Text) PanelSelector :=
  let name := tok.takeWhile (· ≠ ch ':')
  match tok.dropWhile (· ≠ ch ':') with
  | [] =>
    match selWord name with
    | some op => emitAll tooComplex out [op.toByte]
    | none => .error (msg "panels: unknown selector")
  | _ :: arg =>
    if name = bytes "depth" then selEmitDepth arg out
    else if name = bytes "subtree" then
      selEmitUnary .subtree (msg "subtree/neighbors: bad index") arg out
    else if name = bytes "neighbors" then
      selEmitUnary .neighbors (msg "subtree/neighbors: bad index") arg out
    else if name = bytes "first" then selEmitUnary .first (msg "first/last: bad count") arg out
    else if name = bytes "last" then selEmitUnary .last (msg "first/last: bad count") arg out
    else if name = bytes "fraction" then selEmitFraction arg out
    else .error (msg "panels: unknown selector")

section

variable (skip : Skipper) (fuel : ℕ)

/-- The indices of a list that has been entered, complemented for `exclude`. -/
def selEmitIndexArray (complement : Bool) (out : PanelSelector) : Parse PanelSelector := do
  let tmp ← whileElement (fun tmp : List Byte => do
    let v ← uintWhere (msg "panels[]: invalid index (panels start at 1)")
      (fun v => v ≠ 0 && v ≤ 255)
    ensure (msg "panels[]: too many") (tmp.length < selMaxIndexList)
    pure (tmp ++ [u8 v])) fuel []
  ensure (msg "panels[]: empty list") (tmp ≠ [])
  lift (emitAll tooComplex out ([SelOp.toByte .indices, u8 tmp.length] ++ tmp ++
    if complement then [SelOp.toByte .not] else []))

def oneKey (got : Bool) : Parse Unit :=
  ensure (msg "panels: one composition key per object") (!got)

/-- The program of the value at the cursor, for at most `levels` values within each other. -/
def selAppend : ℕ → PanelSelector → Parse PanelSelector
  | 0, _ => reject (msg "panels: nesting too deep")
  | levels + 1, out => do
    match ← peek with
    | none => reject (msg "panels: empty")
    | some c =>
      if c = ch '"' then
        let tok ← readOr (msg "panels: bad string") (jsonReadString 40)
        lift (selEmitToken tok out)
      else if c = ch '[' then
        enter (msg "panels: bad array") jsonEnterArray
        selEmitIndexArray fuel false out
      else if c = ch '{' then
        enter (msg "panels: bad object") jsonEnterObject
        let (got, out) ← whileKey 12 (fun key (got, out) => do
          if key = bytes "any" ∨ key = bytes "all" then
            oneKey got
            let op : SelOp := if key = bytes "any" then .or else .and
            enter (msg "panels.any/all: expected array") jsonEnterArray
            let (cnt, out) ← whileElement (fun (cnt, out) => do
              let out ← selAppend levels out
              let out ← lift (emitAll tooComplex out (if 1 ≤ cnt then [op.toByte] else []))
              pure (cnt + 1, out)) fuel (0, out)
            ensure (msg "panels.any/all: empty") (cnt ≠ 0)
            pure (true, out)
          else if key = bytes "not" then
            oneKey got
            let out ← selAppend levels out
            let out ← lift (emitAll tooComplex out [SelOp.toByte .not])
            pure (true, out)
          else if key = bytes "exclude" then
            oneKey got
            enter (msg "panels.exclude: expected array") jsonEnterArray
            let out ← selEmitIndexArray fuel true out
            pure (true, out)
          else
            skipUnknown skip
            pure (got, out)) fuel (false, out)
        ensure (msg "panels: empty object (use any/all/not/exclude)") got
        pure out
      else reject (msg "panels: expected string, array, or object")

def parsePanelSelector : Parse PanelSelector := selAppend skip fuel (selStackMax + 1) .clear

end

end Lightnet
