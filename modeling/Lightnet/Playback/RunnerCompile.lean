import Lightnet.Library.SinglePrecision
import Lightnet.Animation.Player

/-!
# Runners as pulses of the panels

A runner sweeps a band over the coordinates of the panels. For one panel that is a single pulse:
dark until the band arrives, lit while it passes, dark again. A wheel repeats its pulse.
-/

namespace Lightnet

structure CompiledPulse where
  lit : Bool
  startDelayMs : Ticks
  durationMs : Ticks
  risePct : Byte
  fallPct : Byte
  deriving DecidableEq

namespace CompiledPulse

/-- A panel that the sweep never lights. -/
def unlit (risePct fallPct : Byte) : CompiledPulse := ⟨false, 0, 0, risePct, fallPct⟩

end CompiledPulse

def rcMs (v : ℚ) : Ticks := BitVec.ofNat 16 (Single.toNat (Single.add (min (max v 0) 65535) (1 / 2)))

def rcPct (frac : ℚ) : Byte :=
  u8 (Single.toNat (Single.add (Single.mul (min (max frac 0) 1) 255) (1 / 2)))

/-- A pulse lasts for at least a millisecond. -/
def atLeastOne (durationMs : Ticks) : Ticks := if durationMs = 0 then 1 else durationMs

theorem atLeastOne_ne_zero (d : Ticks) : atLeastOne d ≠ 0 := by
  unfold atLeastOne
  split_ifs with hd
  · decide
  · exact hd

def compileWave (coord : ℚ) (maxCoord width : Byte) (dur : Ticks) : CompiledPulse :=
  if width = 0 ∨ dur = 0 then .unlit 127 128
  else
    let denom := Single.add maxCoord.toNat width.toNat
    if denom ≤ 0 then .unlit 127 128
    else
      let tOn := Single.div coord denom
      let tSpan := Single.div width.toNat denom
      { lit := true
        startDelayMs := rcMs (Single.mul dur.toNat tOn)
        durationMs := atLeastOne (rcMs (Single.mul dur.toNat tSpan))
        risePct := 127
        fallPct := 128 }

/-- The window of a pulse from `tOn` to `tOff`, cut to the sweep. -/
def bandWindow (tOn tOff : ℚ) : ℚ × ℚ := (max tOn 0, min tOff 1)

def compileBounce (coord : ℚ) (maxCoord width : Byte) (dur : Ticks) : CompiledPulse :=
  if width = 0 ∨ dur = 0 then .unlit 127 128
  else
    let span : ℚ := if maxCoord = 0 then 1 else maxCoord.toNat
    let halfW := Single.div width.toNat 2
    let tPeak := Single.div coord span
    let (tOn, tOff) := bandWindow (Single.div (Single.sub coord halfW) span)
      (Single.div (Single.add coord halfW) span)
    if tOff ≤ tOn then .unlit 127 128
    else
      let tPeak := min (max tPeak tOn) tOff
      let spanT := Single.sub tOff tOn
      { lit := true
        startDelayMs := rcMs (Single.mul dur.toNat tOn)
        durationMs := atLeastOne (rcMs (Single.mul dur.toNat spanT))
        risePct := rcPct (Single.div (Single.sub tPeak tOn) spanT)
        fallPct := rcPct (Single.div (Single.sub tOff tPeak) spanT) }

def compileChase (coord maxCoord : Byte) (dur : Ticks) : CompiledPulse :=
  if dur = 0 then .unlit 8 8
  else
    let denom := Single.add maxCoord.toNat 1
    let tOn := Single.div coord.toNat denom
    { lit := true
      startDelayMs := rcMs (Single.mul dur.toNat tOn)
      durationMs := atLeastOne (rcMs (Single.div dur.toNat denom))
      risePct := 8
      fallPct := 8 }

def compileRipple (nearC farC : ℚ) (maxCoord width : Byte) (dur : Ticks) : CompiledPulse :=
  if width = 0 ∨ dur = 0 then .unlit 127 128
  else
    let ringW := Single.div width.toNat 2
    let denom := Single.add maxCoord.toNat ringW
    if denom ≤ 0 then .unlit 127 128
    else
      let tFullOn := Single.div nearC denom
      let tFullOff := Single.div farC denom
      let (tOn, tOff) := bandWindow (Single.div (Single.sub nearC ringW) denom)
        (Single.div (Single.add farC ringW) denom)
      if tOff ≤ tOn then .unlit 127 128
      else
        let span := Single.sub tOff tOn
        { lit := true
          startDelayMs := rcMs (Single.mul dur.toNat tOn)
          durationMs := atLeastOne (rcMs (Single.mul dur.toNat span))
          risePct := rcPct (Single.div (Single.sub tFullOn tOn) span)
          fallPct := rcPct (Single.div (Single.sub tOff tFullOff) span) }

/-- `fmodf` by one, which keeps the sign. -/
def fmodOne (x : ℚ) : ℚ := if 0 ≤ x then x - ⌊x⌋ else x - ⌈x⌉

def compileRepeatingAsym (phase riseFrac fallFrac : ℚ) (period : Ticks) : CompiledPulse :=
  if period = 0 then .unlit 0 0
  else
    let phase := fmodOne phase
    let phase := if phase < 0 then Single.add phase 1 else phase
    { lit := true
      startDelayMs := rcMs (Single.mul phase period.toNat)
      durationMs := period
      risePct := rcPct riseFrac
      fallPct := rcPct fallFrac }

def compileRepeating (phase halfWidth : ℚ) (period : Ticks) : CompiledPulse :=
  compileRepeatingAsym phase halfWidth halfWidth period

def compileWheel (turns : ℚ) (lines thicknessDeg : Byte) (rotationMs : Ticks) : CompiledPulse :=
  if lines = 0 ∨ rotationMs = 0 then .unlit 0 0
  else
    let period := atLeastOne (BitVec.ofNat 16 (rotationMs.toNat / lines.toNat))
    let slot := Single.mul turns lines.toNat
    let phase := Single.sub slot ⌊slot⌋
    let halfWidth := Single.div (Single.mul thicknessDeg.toNat lines.toNat) 720
    compileRepeating phase halfWidth period

end Lightnet
