import Lightnet.Animation.Color
import Lightnet.Library.CInteger
import Mathlib.Algebra.Order.Ring.Abs

/-!
# Colour arithmetic on panels and on the controller

The panels compute colours with an `int` of sixteen bits, the controller and its clients with one of
thirty-two. A difference of two channels is multiplied in `int`, which on a panel holds only half of
the products.
-/

namespace Lightnet

open CInteger

/-! ### The expressions of the source -/

/-- `(uint8_t)(x + (((int16_t)y - x) * value) / 255)` -/
def mixOn (w : Width) (x y value : Byte) : Option Byte := do
  let d ← sub w (ofU8 y) (ofU8 x)
  let m ← mul w d (ofU8 value)
  let q ← div w m (int 255)
  let sum ← add w (ofU8 x) q
  return toU8 sum

/-- `((uint16_t)x * y) / 255` -/
def scaledOn (w : Width) (x : Byte) (y : Value) : Option Value := do
  let m ← mul w (ofU16 w x.toNat) y
  div w m (int 255)

namespace ColorRGB

def ofChannels (r g b : Option Byte) : Option ColorRGB := do return ⟨← r, ← g, ← b⟩

/-- All three channels of two colours. -/
def All₂ (p : Byte → Byte → Prop) (c d : ColorRGB) : Prop := p c.r d.r ∧ p c.g d.g ∧ p c.b d.b

instance (p : Byte → Byte → Prop) [∀ x y, Decidable (p x y)] (c d : ColorRGB) :
    Decidable (All₂ p c d) := inferInstanceAs (Decidable (_ ∧ _))

def mixOn (w : Width) (c d : ColorRGB) (value : Byte) : Option ColorRGB :=
  ofChannels (Lightnet.mixOn w c.r d.r value) (Lightnet.mixOn w c.g d.g value)
    (Lightnet.mixOn w c.b d.b value)

end ColorRGB

/-- `(uint8_t)(((uint16_t)(pos - a) * 255) / span)` -/
def fracOn (w : Width) (pos a span : Byte) : Option Byte := do
  let d ← sub w (ofU8 pos) (ofU8 a)
  let m ← mul w (toU16 w d) (int 255)
  let q ← div w m (ofU8 span)
  return toU8 q

def samplePaletteOn (w : Width) (stops : List GradientStop) (pos : Byte) : Option ColorRGB :=
  match stops with
  | [] => some .white
  | first :: rest =>
    let last := rest.getLast?.getD first
    if rest = [] ∨ pos ≤ first.pos then some first.color
    else if last.pos ≤ pos then some last.color
    else do
      let (a, b) := paletteSegment pos first rest
      let span := toU8 (← sub w (ofU8 b.pos) (ofU8 a.pos))
      if span = 0 then return a.color
      else a.color.mixOn w b.color (← fracOn w pos a.pos span)

/-- `(int16_t)(base + ((int16_t)x - (int16_t)y) * 43 / delta)`, and the low byte of it. -/
def sectorOn (w : Width) (base : ℤ) (x y delta : Byte) : Option Byte := do
  let d ← sub w (ofU8 x) (ofU8 y)
  let m ← mul w d (int 43)
  let q ← div w m (ofU8 delta)
  let h ← add w (int base) q
  return toU8 (toS16 h)

def rgb2hsvOn (w : Width) (c : ColorRGB) : Option HSV8 :=
  let mx := ccMax (ccMax c.r c.g) c.b
  let mn := if c.r < c.g then if c.r < c.b then c.r else c.b else if c.g < c.b then c.g else c.b
  if mx = 0 then some ⟨0, 0, mx⟩
  else do
    let delta := toU8 (← sub w (ofU8 mx) (ofU8 mn))
    let m ← mul w (ofU16 w delta.toNat) (int 255)
    let s := toU8 (← div w m (ofU8 mx))
    if delta = 0 then return ⟨0, s, mx⟩
    else if mx = c.r then return ⟨← sectorOn w 0 c.g c.b delta, s, mx⟩
    else if mx = c.g then return ⟨← sectorOn w 85 c.b c.r delta, s, mx⟩
    else return ⟨← sectorOn w 171 c.r c.g delta, s, mx⟩

/-- `(uint8_t)(((uint16_t)v * (255 - y)) / 255)` -/
def shadeOn (w : Width) (v : Byte) (y : Value) : Option Byte := do
  let q ← scaledOn w v (← sub w (int 255) y)
  return toU8 q

def hsv2rgbOn (w : Width) (c : HSV8) : Option ColorRGB :=
  if c.s = 0 then some ⟨c.v, c.v, c.v⟩
  else do
    let region := toU8 (← div w (ofU8 c.h) (int 43))
    let start ← mul w (ofU8 region) (int 43)
    let off ← sub w (ofU8 c.h) start
    let remainder := toU8 (← mul w off (int 6))
    let p ← shadeOn w c.v (ofU8 c.s)
    let q ← shadeOn w c.v (← scaledOn w c.s (ofU8 remainder))
    let t ← shadeOn w c.v (← scaledOn w c.s (← sub w (int 255) (ofU8 remainder)))
    match region.toNat with
    | 0 => return ⟨c.v, t, p⟩
    | 1 => return ⟨q, c.v, p⟩
    | 2 => return ⟨p, c.v, t⟩
    | 3 => return ⟨p, q, c.v⟩
    | 4 => return ⟨t, p, c.v⟩
    | _ => return ⟨c.v, p, q⟩

def modBrightenOn (w : Width) (acc : ColorRGB) (value : Byte) : Option ColorRGB :=
  if value = 0 then some acc else acc.mixOn w .white value

def modSaturateOn (w : Width) (acc : ColorRGB) (value : Byte) : Option ColorRGB :=
  if value = 0 then some acc
  else do
    let h ← rgb2hsvOn w acc
    if h.s = 0 then return acc
    else hsv2rgbOn w { h with s := ← mixOn w h.s 255 value }

def modInvertOn (w : Width) (acc : ColorRGB) (value : Byte) : Option ColorRGB :=
  if value = 0 then some acc
  else do
    let inverted (x : Byte) : Option Byte := (sub w (int 255) (ofU8 x)).map toU8
    let inv ← ColorRGB.ofChannels (inverted acc.r) (inverted acc.g) (inverted acc.b)
    if value = 255 then return inv
    else acc.mixOn w inv value

/-! ### Without the widths -/

/-- What is mixed as long as the product is held. -/
def mix (x y value : Byte) : Byte :=
  s8 (x.toNat + (((y.toNat : ℤ) - x.toNat) * value.toNat).tdiv 255)

/-- The product of a mixture, as a number. -/
def product (x y value : Byte) : ℤ := ((y.toNat : ℤ) - x.toNat) * value.toNat

section
variable {w : Width}

theorem fits_of_bounds {z : ℤ} (hlow : -32768 < z) (hhigh : z < 32768) : Fits w z :=
  fits_of_abs_le (abs_le.mpr ⟨by omega, by omega⟩)

theorem sub_ofU8 (x y : Byte) : sub w (ofU8 x) (ofU8 y) = some (int ((x.toNat : ℤ) - y.toNat)) := by
  have hx := x.isLt
  have hy := y.isLt
  exact arith_int_of_fits (fits_of_bounds (by omega) (by omega))

theorem sub_int_ofU8 (x : Byte) : sub w (int 255) (ofU8 x) = some (int (255 - x.toNat)) := by
  have hx := x.isLt
  exact arith_int_of_fits (fits_of_bounds (by omega) (by omega))

theorem abs_tdiv (z : ℤ) (n : ℕ) : |z.tdiv n| = (z.natAbs / n : ℕ) := by
  rw [Int.abs_eq_natAbs, Int.natAbs_tdiv, Int.natAbs_natCast]
  rfl

theorem abs_product_le (x y value : Byte) : |product x y value| ≤ 65025 := by
  have hx := x.isLt
  have hy := y.isLt
  have hvalue := value.isLt
  have hdiff : |(y.toNat : ℤ) - x.toNat| ≤ 255 := abs_le.mpr ⟨by omega, by omega⟩
  have hnum : |(value.toNat : ℤ)| ≤ 255 := abs_le.mpr ⟨by omega, by omega⟩
  rw [product, abs_mul]
  exact Int.mul_le_mul hdiff hnum (abs_nonneg _) (by decide)

theorem abs_quotient_le (x y value : Byte) : |(product x y value).tdiv 255| ≤ 255 := by
  have hle := abs_product_le x y value
  have hnat : (product x y value).natAbs ≤ 65025 := by
    rw [Int.abs_eq_natAbs] at hle
    exact_mod_cast hle
  refine (abs_tdiv _ 255).trans_le ?_
  exact_mod_cast Nat.div_le_div_right (c := 255) hnat

/-- A mixture is what it is without widths if the product is held, and overflows otherwise. -/
theorem mixOn_eq (x y value : Byte) :
    mixOn w x y value = if Fits w (product x y value) then some (mix x y value) else none := by
  have hx := x.isLt
  have hquotient := abs_le.mp (abs_quotient_le x y value)
  have hmul : mul w (int ((y.toNat : ℤ) - x.toNat)) (ofU8 value) =
      if Fits w (product x y value) then some (int (product x y value)) else none :=
    arith_int _ _
  rw [mixOn, sub_ofU8, Option.bind_eq_bind, Option.bind_some, hmul]
  by_cases hfits : Fits w (product x y value)
  · have hdiv : div w (int (product x y value)) (int 255) =
        some (int ((product x y value).tdiv 255)) := by
      rw [div_int (by decide), if_pos (fits_of_bounds (by omega) (by omega))]
    have hadd : add w (ofU8 x) (int ((product x y value).tdiv 255)) =
        some (int (x.toNat + (product x y value).tdiv 255)) :=
      arith_int_of_fits (fits_of_bounds (by omega) (by omega))
    rw [if_pos hfits, if_pos hfits]
    dsimp only [Option.bind_eq_bind, Option.bind_some]
    rw [hdiv, Option.bind_some, hadd]
    rfl
  · rw [if_neg hfits, if_neg hfits]
    rfl

theorem isNum_ofU8 (x : Byte) : IsNum w (ofU8 x) x.toNat := .inl rfl

theorem scaledOn_eq (x : Byte) {v : Value} {n : ℕ} (hv : IsNum w v n) (hn : n ≤ 255) :
    scaledOn w x v = some (ofU16 w (x.toNat * n / 255 : ℕ)) := by
  have hx := x.isLt
  have hprod : x.toNat * n ≤ 255 * 255 := Nat.mul_le_mul (by omega) hn
  rw [scaledOn, mul_ofU16 hv (by omega) (by omega) (by omega), Option.bind_eq_bind,
    Option.bind_some]
  exact div_ofU16 (by omega) (by decide) (by decide)

theorem shadeOn_eq (v : Byte) {y : Value} {n : ℕ} (hy : IsNum w y n) (hn : n ≤ 255) :
    shadeOn w v y = some (u8 (v.toNat * (255 - n) / 255)) := by
  obtain ⟨u, hsub, hu⟩ := sub_isNum hy hn (by decide)
  rw [shadeOn]
  change (sub w (int (255 : ℕ)) y).bind _ = _
  rw [hsub, Option.bind_some, scaledOn_eq v hu (Nat.sub_le 255 n), Option.bind_eq_bind,
    Option.bind_some]
  exact congrArg some (BitVec.ofInt_natCast 8 _)

theorem ofInt_sub_toNat (x y : Byte) : BitVec.ofInt 8 ((x.toNat : ℤ) - y.toNat) = x - y := by
  have hy := y.isLt
  apply BitVec.eq_of_toNat_eq
  rw [BitVec.toNat_ofInt, BitVec.toNat_sub]
  omega

/-- The sum of a sector is held by sixteen bits. -/
theorem sectorOn_eq {base : ℤ} (hbase : 0 ≤ base ∧ base ≤ 171) (x y : Byte) {delta : Byte}
    (hdelta : delta ≠ 0) : sectorOn w base x y delta =
      some (s8 (base + (((x.toNat : ℤ) - y.toNat) * 43).tdiv delta.toNat)) := by
  have hx := x.isLt
  have hy := y.isLt
  have hne : (delta.toNat : ℤ) ≠ 0 := by
    intro h
    exact hdelta (BitVec.eq_of_toNat_eq (by exact_mod_cast h))
  generalize hm : ((x.toNat : ℤ) - y.toNat) * 43 = m
  have hquotient : |m.tdiv delta.toNat| ≤ 10965 := by
    have hle : m.natAbs / delta.toNat ≤ 10965 :=
      (Nat.div_le_self _ _).trans (by omega)
    refine (abs_tdiv _ _).trans_le ?_
    exact_mod_cast hle
  rw [abs_le] at hquotient
  have hmul : mul w (int ((x.toNat : ℤ) - y.toNat)) (int 43) = some (int m) := by
    rw [mul, arith_int, hm, if_pos (fits_of_bounds (by omega) (by omega))]
  have hdiv : div w (int m) (ofU8 delta) = some (int (m.tdiv delta.toNat)) := by
    rw [ofU8, div_int hne, if_pos (fits_of_bounds (by omega) (by omega))]
  have hadd : add w (int base) (int (m.tdiv delta.toNat)) =
      some (int (base + m.tdiv delta.toNat)) :=
    arith_int_of_fits (fits_of_bounds (by omega) (by omega))
  have hshort : (base + m.tdiv delta.toNat).bmod 65536 = base + m.tdiv delta.toNat :=
    Int.bmod_eq_of_le (by omega) (by omega)
  rw [sectorOn, sub_ofU8]
  dsimp only [Option.bind_eq_bind, Option.bind_some]
  rw [hmul, Option.bind_some, hdiv, Option.bind_some, hadd, Option.bind_some]
  change some (BitVec.ofInt 8 ((base + m.tdiv delta.toNat).bmod 65536)) = _
  rw [hshort]

theorem rgb2hsvOn_eq (c : ColorRGB) : rgb2hsvOn w c = some (rgb2hsv c) := by
  unfold rgb2hsvOn rgb2hsv
  generalize ccMax (ccMax c.r c.g) c.b = mx
  generalize (if c.r < c.g then if c.r < c.b then c.r else c.b
    else if c.g < c.b then c.g else c.b) = mn
  dsimp only
  by_cases hmx : mx = 0
  · rw [if_pos hmx, if_pos hmx]
  · rw [if_neg hmx, if_neg hmx, sub_ofU8]
    dsimp only [Option.bind_eq_bind, Option.bind_some]
    have hdelta : toU8 (int ((mx.toNat : ℤ) - mn.toNat)) = mx - mn := ofInt_sub_toNat mx mn
    rw [hdelta]
    generalize mx - mn = delta
    have hlt := delta.isLt
    have hmxlt := mx.isLt
    have hpos : 0 < mx.toNat := Nat.pos_of_ne_zero fun h => hmx (BitVec.eq_of_toNat_eq h)
    have hmul : mul w (ofU16 w delta.toNat) (int 255) = some (ofU16 w (delta.toNat * 255 : ℕ)) :=
      mul_ofU16 (.inl rfl) (by omega) (by decide) (by omega)
    have hdiv : div w (ofU16 w (delta.toNat * 255 : ℕ)) (ofU8 mx) =
        some (ofU16 w (delta.toNat * 255 / mx.toNat : ℕ)) :=
      div_ofU16 (by omega) hpos (by omega)
    have hs : toU8 (ofU16 w (delta.toNat * 255 / mx.toNat : ℕ)) =
        u8 (delta.toNat * 255 / mx.toNat) := BitVec.ofInt_natCast 8 _
    rw [hmul, Option.bind_some, hdiv, Option.bind_some, hs]
    by_cases hzero : delta = 0
    · rw [if_pos hzero, if_pos hzero]
      rfl
    · rw [if_neg hzero, if_neg hzero, sectorOn_eq (by decide) _ _ hzero,
        sectorOn_eq (by decide) _ _ hzero, sectorOn_eq (by decide) _ _ hzero]
      split_ifs <;> rfl

theorem hsv2rgbOn_eq (c : HSV8) : hsv2rgbOn w c = some (hsv2rgb c) := by
  unfold hsv2rgbOn hsv2rgb
  by_cases hs : c.s = 0
  · rw [if_pos hs, if_pos hs]
  · have hh := c.h.isLt
    have hslt := c.s.isLt
    have hregion : c.h.toNat / 43 < 256 := by omega
    have hdiv : div w (ofU8 c.h) (int 43) = some (int (c.h.toNat / 43 : ℕ)) := by
      rw [ofU8, div_int (by decide), if_pos]
      · rfl
      · change Fits w ((c.h.toNat : ℤ).tdiv (43 : ℕ))
        rw [← Int.ofNat_tdiv]
        exact fits_of_bounds (by omega) (by omega)
    have hbyte : (toU8 (int (c.h.toNat / 43 : ℕ))).toNat = c.h.toNat / 43 := by
      change (BitVec.ofInt 8 (c.h.toNat / 43 : ℕ)).toNat = _
      rw [BitVec.ofInt_natCast, BitVec.toNat_ofNat, Nat.mod_eq_of_lt hregion]
    have hmul : mul w (ofU8 (toU8 (int (c.h.toNat / 43 : ℕ)))) (int 43) =
        some (int (c.h.toNat / 43 * 43 : ℕ)) := by
      rw [ofU8, hbyte, mul, arith_int, if_pos (fits_of_bounds (by omega) (by omega))]
      rfl
    have hsub : sub w (ofU8 c.h) (int (c.h.toNat / 43 * 43 : ℕ)) =
        some (int (c.h.toNat - c.h.toNat / 43 * 43 : ℕ)) := by
      rw [ofU8, sub, arith_int, ← Int.ofNat_sub (Nat.div_mul_le_self _ 43),
        if_pos (fits_of_bounds (by omega) (by omega))]
    have hrest : mul w (int (c.h.toNat - c.h.toNat / 43 * 43 : ℕ)) (int 6) =
        some (int ((c.h.toNat - c.h.toNat / 43 * 43) * 6 : ℕ)) := by
      rw [mul, arith_int, if_pos (fits_of_bounds (by omega) (by omega))]
      rfl
    have hremainder : toU8 (int ((c.h.toNat - c.h.toNat / 43 * 43) * 6 : ℕ)) =
        u8 ((c.h.toNat - c.h.toNat / 43 * 43) * 6) := BitVec.ofInt_natCast 8 _
    dsimp only [Option.bind_eq_bind, Option.bind_some]
    rw [if_neg hs, if_neg hs, hdiv, Option.bind_some, hmul, Option.bind_some, hsub,
      Option.bind_some, hrest, Option.bind_some, hremainder]
    generalize u8 ((c.h.toNat - c.h.toNat / 43 * 43) * 6) = remainder
    have hrlt := remainder.isLt
    have hscale (n : ℕ) (hn : n ≤ 255) : c.s.toNat * n / 255 ≤ 255 :=
      Nat.div_le_of_le_mul (Nat.mul_le_mul (Nat.le_of_lt_succ hslt) hn)
    obtain ⟨u, hinv, hu⟩ := sub_isNum (isNum_ofU8 (w := w) remainder)
      (show remainder.toNat ≤ 255 by omega) (by decide)
    have hinv : sub w (int 255) (ofU8 remainder) = some u := hinv
    have hp := shadeOn_eq c.v (isNum_ofU8 (w := w) c.s) (by omega)
    have hq := shadeOn_eq (w := w) c.v (.inr rfl) (hscale remainder.toNat (by omega))
    have ht := shadeOn_eq (w := w) c.v (.inr rfl) (hscale (255 - remainder.toNat) (Nat.sub_le _ _))
    rw [hp, Option.bind_some, scaledOn_eq c.s (isNum_ofU8 remainder) (by omega), Option.bind_some,
      hq, Option.bind_some, hinv, Option.bind_some, scaledOn_eq c.s hu (Nat.sub_le _ _),
      Option.bind_some, ht, Option.bind_some, hbyte]
    generalize c.h.toNat / 43 = region
    rcases region with _ | _ | _ | _ | _ | _ <;> rfl

/-! ### Palettes -/

/-- The two stops around a position between the first and the last one. -/
theorem paletteSegment_around {pos : Byte} {a : GradientStop} {rest : List GradientStop}
    (hrest : rest ≠ []) (hlow : a.pos ≤ pos) (hhigh : pos < (rest.getLast hrest).pos) :
    (paletteSegment pos a rest).1.pos ≤ pos ∧ pos < (paletteSegment pos a rest).2.pos := by
  induction rest generalizing a with
  | nil => exact absurd rfl hrest
  | cons b rest ih =>
      rw [paletteSegment]
      by_cases hb : b.pos ≤ pos
      · rw [if_pos hb]
        cases rest with
        | nil => exact absurd hb (BitVec.not_le.mpr hhigh)
        | cons c rest => exact ih (List.cons_ne_nil c rest) hb hhigh
      · rw [if_neg hb]
        exact ⟨hlow, BitVec.not_le.mp hb⟩

theorem fracOn_eq {pos a b : Byte} (hlow : a ≤ pos) (hhigh : pos < b) :
    fracOn w pos a (b - a) =
      some (u8 ((pos.toNat - a.toNat) * 255 / (b - a).toNat)) := by
  rw [BitVec.le_def] at hlow
  rw [BitVec.lt_def] at hhigh
  have hb := b.isLt
  have hspan : (b - a).toNat = b.toNat - a.toNat := by
    rw [BitVec.toNat_sub]
    omega
  have hu16 : toU16 w (int ((pos.toNat : ℤ) - a.toNat)) = ofU16 w (pos.toNat - a.toNat : ℕ) := by
    change ofU16 w (((pos.toNat : ℤ) - a.toNat) % 65536) = _
    rw [Int.emod_eq_of_lt (by omega) (by omega), Int.ofNat_sub hlow]
  have hmul : mul w (ofU16 w (pos.toNat - a.toNat : ℕ)) (int 255) =
      some (ofU16 w ((pos.toNat - a.toNat) * 255 : ℕ)) :=
    mul_ofU16 (.inl rfl) (by omega) (by decide) (by omega)
  have hdiv : div w (ofU16 w ((pos.toNat - a.toNat) * 255 : ℕ)) (ofU8 (b - a)) =
      some (ofU16 w ((pos.toNat - a.toNat) * 255 / (b - a).toNat : ℕ)) :=
    div_ofU16 (by omega) (by omega) (by omega)
  rw [fracOn, sub_ofU8]
  dsimp only [Option.bind_eq_bind, Option.bind_some]
  rw [hu16, hmul, Option.bind_some, hdiv, Option.bind_some]
  exact congrArg some (BitVec.ofInt_natCast 8 _)

/-! ### What a panel holds -/

namespace ColorRGB

theorem mixOn_eq (c d : ColorRGB) (value : Byte) :
    c.mixOn w d value = if c.All₂ (fun x y => Fits w (product x y value)) d then
      some (c.map₂ (mix · · value) d) else none := by
  rw [ColorRGB.mixOn, Lightnet.mixOn_eq, Lightnet.mixOn_eq, Lightnet.mixOn_eq]
  by_cases hall : c.All₂ (fun x y => Fits w (product x y value)) d
  · rw [if_pos hall, if_pos hall.1, if_pos hall.2.1, if_pos hall.2.2]
    rfl
  · rw [if_neg hall]
    by_cases hr : Fits w (product c.r d.r value)
    · by_cases hg : Fits w (product c.g d.g value)
      · rw [if_pos hr, if_pos hg, if_neg fun hb => hall ⟨hr, hg, hb⟩]
        rfl
      · rw [if_pos hr, if_neg hg]
        rfl
    · rw [if_neg hr]
      rfl

end ColorRGB

/-- The colour computations that panels share with the controller. -/
inductive ColorMath where
  | samplePalette (stops : List GradientStop) (pos : Byte)
  | modBrighten (acc : ColorRGB) (value : Byte)
  | modSaturate (acc : ColorRGB) (value : Byte)
  | modInvert (acc : ColorRGB) (value : Byte)

namespace ColorMath

def evalOn (w : Width) : ColorMath → Option ColorRGB
  | samplePalette stops pos => samplePaletteOn w stops pos
  | modBrighten acc value => modBrightenOn w acc value
  | modSaturate acc value => modSaturateOn w acc value
  | modInvert acc value => modInvertOn w acc value

def eval : ColorMath → ColorRGB
  | samplePalette stops pos => Lightnet.samplePalette stops pos
  | modBrighten acc value => Lightnet.modBrighten acc value
  | modSaturate acc value => Lightnet.modSaturate acc value
  | modInvert acc value => Lightnet.modInvert acc value

/-- The distance of two channels times the amount is held by an `int`. -/
def Held (w : Width) (x y value : Byte) : Prop := Fits w (product x y value)

instance (w : Width) (x y value : Byte) : Decidable (Held w x y value) :=
  inferInstanceAs (Decidable (Fits w _))

/-- The products that are made are held. -/
def InRange (w : Width) : ColorMath → Prop
  | samplePalette [] _ => True
  | samplePalette (first :: rest) pos =>
    ∀ h : rest ≠ [], first.pos < pos → pos < (rest.getLast h).pos →
      let (a, b) := paletteSegment pos first rest
      let amount := (pos.toNat - a.pos.toNat) * 255 / (b.pos.toNat - a.pos.toNat)
      a.color.All₂ (fun x y => Held w x y (u8 amount)) b.color
  | modBrighten acc value => acc.All₂ (fun x y => Held w x y value) .white
  | modSaturate acc value => (rgb2hsv acc).s = 0 ∨ Held w (rgb2hsv acc).s 255 value
  | modInvert acc value =>
    value = 255 ∨ acc.All₂ (fun x y => Held w x y value) (acc.map (255 - ·))

theorem held_int32 (x y value : Byte) : Held .int32 x y value := by
  have hle := abs_le.mp (abs_product_le x y value)
  exact ⟨by change -2147483648 ≤ product x y value; omega,
    by change product x y value < 2147483648; omega⟩

theorem inRange_int32 (op : ColorMath) : op.InRange .int32 := by
  cases op with
  | samplePalette stops pos =>
      cases stops with
      | nil => trivial
      | cons first rest =>
          intro _ _ _
          exact ⟨held_int32 _ _ _, held_int32 _ _ _, held_int32 _ _ _⟩
  | modBrighten => exact ⟨held_int32 _ _ _, held_int32 _ _ _, held_int32 _ _ _⟩
  | modSaturate => exact .inr (held_int32 _ _ _)
  | modInvert => exact .inr ⟨held_int32 _ _ _, held_int32 _ _ _, held_int32 _ _ _⟩

section
variable {w : Width}

theorem held_zero (x y : Byte) : Held w x y 0 := by
  have hzero : product x y 0 = 0 := Int.mul_zero _
  exact fits_of_abs_le (by rw [hzero]; decide)

/-- A computation gives the colour if the condition holds, and overflows otherwise. -/
def Gives (o : Option ColorRGB) (p : Prop) (c : ColorRGB) : Prop :=
  (p → o = some c) ∧ (¬ p → o = none)

theorem Gives.of_true {o : Option ColorRGB} {p : Prop} {c : ColorRGB} (hp : p) (ho : o = some c) :
    Gives o p c := ⟨fun _ => ho, fun h => absurd hp h⟩

theorem gives_mixOn (c d : ColorRGB) (value : Byte) :
    Gives (c.mixOn w d value) (c.All₂ (fun x y => Held w x y value) d)
      (c.map₂ (mix · · value) d) := by
  constructor
  · intro h
    rw [ColorRGB.mixOn_eq]
    exact if_pos h
  · intro h
    rw [ColorRGB.mixOn_eq]
    exact if_neg h

theorem gives_samplePaletteOn (stops : List GradientStop) (pos : Byte) :
    Gives (samplePaletteOn w stops pos) (InRange w (samplePalette stops pos))
      (Lightnet.samplePalette stops pos) := by
  cases stops with
  | nil => exact .of_true trivial rfl
  | cons first rest =>
      by_cases hfirst : rest = [] ∨ pos ≤ first.pos
      · refine .of_true (fun hrest hlow => ?_) ?_
        · exact absurd hlow (BitVec.not_lt.mpr (hfirst.resolve_left hrest))
        · rw [samplePaletteOn, Lightnet.samplePalette]
          dsimp only
          rw [if_pos hfirst, if_pos hfirst]
      · obtain ⟨hrest, hlow⟩ := not_or.mp hfirst
        have hlow : first.pos < pos := BitVec.not_le.mp hlow
        have hlast : rest.getLast?.getD first = rest.getLast hrest := by
          rw [List.getLast?_eq_getLast_of_ne_nil hrest, Option.getD_some]
        by_cases hpast : (rest.getLast hrest).pos ≤ pos
        · refine .of_true (fun _ _ hhigh => ?_) ?_
          · exact absurd hhigh (BitVec.not_lt.mpr hpast)
          · rw [samplePaletteOn, Lightnet.samplePalette]
            dsimp only
            rw [if_neg hfirst, if_neg hfirst, hlast, if_pos hpast, if_pos hpast]
        · have hhigh : pos < (rest.getLast hrest).pos := BitVec.not_le.mp hpast
          have haround := paletteSegment_around hrest (BitVec.le_of_lt hlow) hhigh
          have hrange : InRange w (samplePalette (first :: rest) pos) ↔ _ :=
            ⟨fun h => h hrest hlow hhigh, fun h _ _ _ => h⟩
          rw [Gives, hrange, samplePaletteOn, Lightnet.samplePalette]
          dsimp only
          rw [if_neg hfirst, if_neg hfirst, hlast, if_neg hpast, if_neg hpast]
          generalize paletteSegment pos first rest = segment at haround ⊢
          obtain ⟨a, b⟩ := segment
          obtain ⟨hfrom, huntil⟩ : a.pos ≤ pos ∧ pos < b.pos := haround
          have hspan : (b.pos - a.pos).toNat = b.pos.toNat - a.pos.toNat := by
            rw [BitVec.le_def] at hfrom
            rw [BitVec.lt_def] at huntil
            have hb := b.pos.isLt
            rw [BitVec.toNat_sub]
            omega
          have hne : b.pos - a.pos ≠ 0 := by
            intro hzero
            rw [hzero] at hspan
            have hspan : 0 = b.pos.toNat - a.pos.toNat := hspan
            rw [BitVec.le_def] at hfrom
            rw [BitVec.lt_def] at huntil
            omega
          have hdiff : toU8 (int ((b.pos.toNat : ℤ) - a.pos.toNat)) = b.pos - a.pos :=
            ofInt_sub_toNat b.pos a.pos
          dsimp only
          rw [sub_ofU8]
          dsimp only [Option.bind_eq_bind, Option.bind_some]
          rw [hdiff, if_neg hne, if_neg hne, fracOn_eq hfrom huntil, Option.bind_some, hspan]
          exact gives_mixOn a.color b.color _

/-- Mixing towards the greatest value. -/
theorem mix_white (x value : Byte) :
    mix x 255 value = u8 (x.toNat + (255 - x.toNat) * value.toNat / 255) := by
  have hx := x.isLt
  have hdiff : ((255 : Byte).toNat : ℤ) - x.toNat = (255 - x.toNat : ℕ) := by
    change (255 : ℤ) - x.toNat = _
    omega
  have hquotient : (((255 - x.toNat : ℕ) : ℤ) * value.toNat).tdiv 255 =
      ((255 - x.toNat) * value.toNat / 255 : ℕ) := by
    rw [← Int.natCast_mul]
    exact (Int.ofNat_tdiv _ 255).symm
  rw [mix, hdiff, hquotient, ← Int.natCast_add]
  exact BitVec.ofInt_natCast 8 _

theorem gives_modBrightenOn (acc : ColorRGB) (value : Byte) :
    Gives (modBrightenOn w acc value) (InRange w (modBrighten acc value))
      (Lightnet.modBrighten acc value) := by
  unfold modBrightenOn Lightnet.modBrighten
  by_cases hzero : value = 0
  · subst hzero
    exact .of_true ⟨held_zero _ _, held_zero _ _, held_zero _ _⟩ rfl
  · have hmix : acc.map₂ (mix · · value) .white =
        acc.map fun x => u8 (x.toNat + (255 - x.toNat) * value.toNat / 255) := by
      simp only [ColorRGB.map, ← mix_white]
      rfl
    rw [if_neg hzero, if_neg hzero, ← hmix]
    exact gives_mixOn acc .white value

theorem gives_modSaturateOn (acc : ColorRGB) (value : Byte) :
    Gives (modSaturateOn w acc value) (InRange w (modSaturate acc value))
      (Lightnet.modSaturate acc value) := by
  unfold modSaturateOn Lightnet.modSaturate
  by_cases hzero : value = 0
  · subst hzero
    exact .of_true (.inr (held_zero _ _)) rfl
  · rw [if_neg hzero, if_neg hzero, rgb2hsvOn_eq, Option.bind_eq_bind, Option.bind_some]
    dsimp only
    by_cases hgrey : (rgb2hsv acc).s = 0
    · rw [if_pos hgrey, if_pos hgrey]
      exact .of_true (.inl hgrey) rfl
    · rw [if_neg hgrey, if_neg hgrey, mixOn_eq, ← mix_white]
      by_cases hheld : Fits w (product (rgb2hsv acc).s 255 value)
      · refine .of_true (.inr hheld) ?_
        rw [if_pos hheld, Option.bind_eq_bind, Option.bind_some, hsv2rgbOn_eq]
      · refine ⟨fun h => absurd (h.resolve_left hgrey) hheld, fun _ => ?_⟩
        rw [if_neg hheld]
        rfl

theorem gives_modInvertOn (acc : ColorRGB) (value : Byte) :
    Gives (modInvertOn w acc value) (InRange w (modInvert acc value))
      (Lightnet.modInvert acc value) := by
  unfold modInvertOn Lightnet.modInvert
  by_cases hzero : value = 0
  · subst hzero
    exact .of_true (.inr ⟨held_zero _ _, held_zero _ _, held_zero _ _⟩) rfl
  · have hinverted (x : Byte) : (sub w (int 255) (ofU8 x)).map toU8 = some (255 - x) := by
      rw [sub_int_ofU8]
      exact congrArg some (ofInt_sub_toNat 255 x)
    rw [if_neg hzero, if_neg hzero]
    dsimp only
    rw [hinverted, hinverted, hinverted]
    change Gives (if value = 255 then some (acc.map (255 - ·))
      else acc.mixOn w (acc.map (255 - ·)) value) _ _
    by_cases hfull : value = 255
    · rw [if_pos hfull, if_pos hfull]
      exact .of_true (.inl hfull) rfl
    · rw [if_neg hfull, if_neg hfull]
      have h := gives_mixOn (w := w) acc (acc.map (255 - ·)) value
      exact ⟨fun hrange => h.1 (hrange.resolve_left hfull), fun hrange => h.2 fun hall =>
        hrange (.inr hall)⟩

/-- An `int` that holds the products gives the colour, and one that does not overflows. -/
theorem gives_evalOn (op : ColorMath) : Gives (op.evalOn w) (op.InRange w) op.eval := by
  cases op with
  | samplePalette stops pos => exact gives_samplePaletteOn stops pos
  | modBrighten acc value => exact gives_modBrightenOn acc value
  | modSaturate acc value => exact gives_modSaturateOn acc value
  | modInvert acc value => exact gives_modInvertOn acc value

end

/-- Panels and controller agree, with no overflow on either, if and only if sixteen bits hold the
products. -/
theorem evalOn_agree_iff (op : ColorMath) :
    (∃ c, ∀ w, op.evalOn w = some c) ↔ op.InRange .int16 := by
  constructor
  · rintro ⟨c, hc⟩
    by_contra hrange
    have h16 := hc .int16
    rw [op.gives_evalOn.2 hrange] at h16
    cases h16
  · intro hrange
    refine ⟨op.eval, fun w => ?_⟩
    cases w with
    | int16 => exact op.gives_evalOn.1 hrange
    | int32 => exact op.gives_evalOn.1 op.inRange_int32

/-- Each of the four overflows an `int` of sixteen bits on some colours. -/
theorem evalOn_disagree :
    (modBrighten .black 255).evalOn .int32 = some .white ∧
      (modBrighten .black 255).evalOn .int16 = none ∧
      (samplePalette [⟨0, .black⟩, ⟨255, .white⟩] 200).evalOn .int16 = none ∧
      (modSaturate ⟨200, 180, 180⟩ 200).evalOn .int16 = none ∧
      (modInvert .black 200).evalOn .int16 = none ∧
      ¬∀ op : ColorMath, ∃ c, ∀ w, op.evalOn w = some c := by
  refine ⟨by decide, by decide, by decide, by decide, by decide, fun h => ?_⟩
  obtain ⟨c, hc⟩ := h (modBrighten .black 255)
  have h16 := hc .int16
  have hnone : (modBrighten .black 255).evalOn .int16 = none := by decide
  rw [hnone] at h16
  cases h16

end ColorMath

end

end Lightnet
