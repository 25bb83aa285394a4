import Lightnet.Protocol
import Mathlib.Data.List.Sort

/-!
# Colours

Colour references, palettes, blend modes and modifiers, all in eight-bit integer arithmetic. A
source layer blends its colour onto what lies below it, a modifier layer transforms that colour.
Layers are folded in ascending `composeOrder`.
-/

namespace Lightnet

/-- Truncation to eight bits, as an assignment to a `uint8_t` does it. -/
abbrev u8 (n : ℕ) : Byte := BitVec.ofNat 8 n

abbrev s8 (n : ℤ) : Byte := BitVec.ofInt 8 n

structure ColorRGB where
  r : Byte
  g : Byte
  b : Byte
  deriving DecidableEq

namespace ColorRGB

def white : ColorRGB := ⟨0xFF, 0xFF, 0xFF⟩

def black : ColorRGB := ⟨0, 0, 0⟩

def map (f : Byte → Byte) (c : ColorRGB) : ColorRGB := ⟨f c.r, f c.g, f c.b⟩

def map₂ (f : Byte → Byte → Byte) (c d : ColorRGB) : ColorRGB := ⟨f c.r d.r, f c.g d.g, f c.b d.b⟩

end ColorRGB

/-! ### Palettes and colour references -/

def paletteStops : ℕ := 16

abbrev baseColorsCount : ℕ := 3

structure GradientStop where
  pos : Byte
  color : ColorRGB
  deriving DecidableEq

/-- The last stop at or below the position and the one after it. -/
def paletteSegment (pos : Byte) (a : GradientStop) : List GradientStop →
    GradientStop × GradientStop
  | [] => (a, a)
  | b :: rest => if b.pos ≤ pos then paletteSegment pos b rest else (a, b)

def samplePalette (stops : List GradientStop) (pos : Byte) : ColorRGB :=
  match stops with
  | [] => .white
  | first :: rest =>
    let last := rest.getLast?.getD first
    if rest = [] ∨ pos ≤ first.pos then first.color
    else if last.pos ≤ pos then last.color
    else
      let (a, b) := paletteSegment pos first rest
      let span := b.pos - a.pos
      if span = 0 then a.color
      else
        let frac := u8 ((pos.toNat - a.pos.toNat) * 255 / span.toNat)
        a.color.map₂ (fun x y =>
          s8 (x.toNat + (((y.toNat : ℤ) - x.toNat) * frac.toNat).tdiv 255)) b.color

/-- The kind byte says what the payload means: an inline colour, a palette position or the slot of
a base colour. -/
structure ColorRef where
  kind : Byte
  raw : ColorRGB
  deriving DecidableEq

namespace ColorRef

def rgb (c : ColorRGB) : ColorRef := ⟨0, c⟩

def palette (pos : Byte) : ColorRef := ⟨1, pos, 0, 0⟩

def useColor (slot : Byte) : ColorRef := ⟨2, slot, 0, 0⟩

def scalar (value : Byte) : ColorRef := rgb ⟨value, 0, 0⟩

def scalarValue (c : ColorRef) : Byte := c.raw.r

end ColorRef

/-! ### Blend modes -/

inductive ComposeMode where
  | default | opaqueTop | add | max | multiply | screen | darken | overlay | difference | subtract
  deriving DecidableEq

def ccClampAdd (a b : Byte) : Byte :=
  if 255 < a.toNat + b.toNat then 255 else u8 (a.toNat + b.toNat)

def ccMul (a b : Byte) : Byte := u8 (a.toNat * b.toNat / 255)

def ccScreen (a b : Byte) : Byte := 255 - ccMul (255 - a) (255 - b)

def ccMax (a b : Byte) : Byte := if b < a then a else b

def ccMin (a b : Byte) : Byte := if a < b then a else b

def ccOverlay (a b : Byte) : Byte :=
  if a < 128 then u8 (2 * a.toNat * b.toNat / 255)
  else u8 (255 - 2 * (255 - a.toNat) * (255 - b.toNat) / 255)

def ccDiff (a b : Byte) : Byte := if b < a then a - b else b - a

def ccSub (a b : Byte) : Byte := if b < a then a - b else 0

def composeColor (acc src : ColorRGB) : ComposeMode → ColorRGB
  | .add => acc.map₂ ccClampAdd src
  | .max => acc.map₂ ccMax src
  | .multiply => acc.map₂ ccMul src
  | .screen => acc.map₂ ccScreen src
  | .darken => acc.map₂ ccMin src
  | .overlay => acc.map₂ ccOverlay src
  | .difference => acc.map₂ ccDiff src
  | .subtract => acc.map₂ ccSub src
  | .opaqueTop => src
  | .default => src

/-! ### Modifiers -/

structure HSV8 where
  h : Byte
  s : Byte
  v : Byte

def rgb2hsv (c : ColorRGB) : HSV8 :=
  let mx := ccMax (ccMax c.r c.g) c.b
  let mn := if c.r < c.g then if c.r < c.b then c.r else c.b else if c.g < c.b then c.g else c.b
  if mx = 0 then ⟨0, 0, mx⟩
  else
    let delta := mx - mn
    let s := u8 (delta.toNat * 255 / mx.toNat)
    if delta = 0 then ⟨0, s, mx⟩
    else
      let sector (base : ℤ) (x y : Byte) : Byte :=
        s8 (base + (((x.toNat : ℤ) - y.toNat) * 43).tdiv delta.toNat)
      let h :=
        if mx = c.r then sector 0 c.g c.b
        else if mx = c.g then sector 85 c.b c.r
        else sector 171 c.r c.g
      ⟨h, s, mx⟩

def hsv2rgb (c : HSV8) : ColorRGB :=
  if c.s = 0 then ⟨c.v, c.v, c.v⟩
  else
    let region := c.h.toNat / 43
    let remainder := u8 ((c.h.toNat - region * 43) * 6)
    let v := c.v.toNat
    let s := c.s.toNat
    let p := u8 (v * (255 - s) / 255)
    let q := u8 (v * (255 - s * remainder.toNat / 255) / 255)
    let t := u8 (v * (255 - s * (255 - remainder.toNat) / 255) / 255)
    match region with
    | 0 => ⟨c.v, t, p⟩
    | 1 => ⟨q, c.v, p⟩
    | 2 => ⟨p, c.v, t⟩
    | 3 => ⟨p, q, c.v⟩
    | 4 => ⟨t, p, c.v⟩
    | _ => ⟨c.v, p, q⟩

def modDim (acc : ColorRGB) (value : Byte) : ColorRGB := acc.map fun x => ccMul x value

def modDesaturate (acc : ColorRGB) (value : Byte) : ColorRGB :=
  if value = 255 then acc
  else
    let h := rgb2hsv acc
    hsv2rgb { h with s := ccMul h.s value }

def modBrighten (acc : ColorRGB) (value : Byte) : ColorRGB :=
  if value = 0 then acc
  else acc.map fun x => u8 (x.toNat + (255 - x.toNat) * value.toNat / 255)

def modSaturate (acc : ColorRGB) (value : Byte) : ColorRGB :=
  if value = 0 then acc
  else
    let h := rgb2hsv acc
    if h.s = 0 then acc
    else hsv2rgb { h with s := u8 (h.s.toNat + (255 - h.s.toNat) * value.toNat / 255) }

def modHueShift (acc : ColorRGB) (value : Byte) : ColorRGB :=
  if value = 0 then acc
  else
    let h := rgb2hsv acc
    hsv2rgb { h with h := h.h + value }

def modInvert (acc : ColorRGB) (value : Byte) : ColorRGB :=
  if value = 0 then acc
  else
    let inv := acc.map fun x => 255 - x
    if value = 255 then inv
    else acc.map₂ (fun x y =>
      s8 (x.toNat + (((y.toNat : ℤ) - x.toNat) * value.toNat).tdiv 255)) inv

inductive ModOp where
  | dim | desaturate | hue | invert | brighten | saturate
  deriving DecidableEq

/-! ### The fold over the layers -/

inductive LayerOp where
  | source (mode : ComposeMode) (color : ColorRGB)
  | modifier (op : ModOp) (value : Byte)
  deriving DecidableEq

structure CompositeLayer where
  composeOrder : Byte
  op : LayerOp
  deriving DecidableEq

def applyLayer (acc : ColorRGB) (layer : CompositeLayer) : ColorRGB :=
  match layer.op with
  | .source mode color => composeColor acc color mode
  | .modifier .dim value => modDim acc value
  | .modifier .desaturate value => modDesaturate acc value
  | .modifier .hue value => modHueShift acc value
  | .modifier .invert value => modInvert acc value
  | .modifier .brighten value => modBrighten acc value
  | .modifier .saturate value => modSaturate acc value

/-- The insertion sort moves a layer only past layers of greater order, so it is stable. -/
def foldLayers (layers : List CompositeLayer) (base : ColorRGB) : ColorRGB :=
  (layers.insertionSort fun a b => a.composeOrder ≤ b.composeOrder).foldl applyLayer base

end Lightnet
