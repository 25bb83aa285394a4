import Lightnet.Json.SkipExact
import Lightnet.Scene.Parser

/-!
# Reading palettes

The parser of palettes, and what it makes of the members of an object in the order in which they
are written. Names are compared as C strings.
-/

namespace Lightnet

def displayNameMax : ℕ := 64

def isValidDisplayName (name : Text) : Bool := name ≠ [] && name.length ≤ displayNameMax

/-- What has been read of a palette; the name is the one in the caller's buffer. -/
structure PaletteDraft where
  name : Text
  stops : List GradientStop
  deriving DecidableEq

def PaletteDraft.start : PaletteDraft := ⟨[], []⟩

open Parse

/-- A position and a colour, and no third element. -/
def parseStop : Parse GradientStop := do
  enter none jsonEnterArray
  ensure none (← read jsonNextElement)
  let pos ← uintWhere none (· ≤ 255)
  ensure none (← read jsonNextElement)
  let hex ← readOr none (jsonReadString 16)
  match jsonParseHexColor hex with
  | none => reject none
  | some rgb => do
    ensure none (!(← read jsonNextElement))
    pure ⟨u8 pos, rgb⟩

/-- As many stops as there is room for; the list is left where there is no more room. -/
def parseStops : ℕ → List GradientStop → Parse (List GradientStop)
  | 0, stops => pure stops
  | room + 1, stops => do
    if ← read jsonNextElement then parseStops room (stops ++ [← parseStop]) else pure stops

section

variable (skip : Skipper) (fuel : ℕ)

/-- The name is skipped where the caller has no buffer for it. -/
def handlePaletteField (outNameLen : Option ℕ) (key : Text) (d : PaletteDraft) :
    Parse PaletteDraft := do
  if key = bytes "name" then
    match outNameLen with
    | some len =>
      let s ← readOr none (jsonReadString len)
      pure { d with name := s }
    | none =>
      skipUnknown skip
      pure d
  else if key = bytes "stops" then
    enter none jsonEnterArray
    let stops ← parseStops (paletteStops - d.stops.length) d.stops
    pure { d with stops := stops }
  else
    skipUnknown skip
    pure d

/-- The checks behind the loop. -/
def PaletteDraft.isComplete (outNameLen : Option ℕ) (d : PaletteDraft) : Bool :=
  d.stops ≠ [] && outNameLen.all fun len => len = 0 || isValidDisplayName d.name

def parsePaletteWith (outNameLen : Option ℕ) : Parse PaletteDraft := do
  enter none jsonEnterObject
  let d ← whileKey 32 (handlePaletteField skip outNameLen) fuel .start
  ensure none (d.isComplete outNameLen)
  pure d

end

/-- The parser with fuel for its loops. -/
def parsePaletteJson (fuel : ℕ) (outNameLen : Option ℕ) (json : Text) :
    Except Stop PaletteDraft :=
  (parsePaletteWith (jsonSkipValue fuel) fuel outNameLen json).map Prod.fst

example : parsePaletteJson 100 (some 31)
    (bytes "\x7b\"name\":\"a\",\"stops\":[[0,\"#000000\"],[255,\"#FFffFF\"]]\x7d") =
      .ok ⟨bytes "a", [⟨0, .black⟩, ⟨255, .white⟩]⟩ := by
  decide +kernel

end Lightnet
