import Lightnet.Animation.IntegerWidths
import Lightnet.Playback.RunnerCompile
import Lightnet.Playback.RunnerSpawn

/-!
# Where pulses end

A pulse of a runner is to end where it has begun, so that nothing is seen when its slot is freed.
Its fall is divided into one step more than it has milliseconds, and the last step is not taken.
-/

namespace Lightnet

/-- The duration, the rise and the fall of the one-shot pulses that runners send. -/
inductive RunnerPulse : Ticks → Byte → Byte → Prop
  | wave {coord : ℚ} {maxCoord width : Byte} {dur : Ticks} {cp : CompiledPulse}
      (h : compileWave coord maxCoord width dur = cp) (hlit : cp.lit = true) :
      RunnerPulse cp.durationMs cp.risePct cp.fallPct
  | chase {coord maxCoord : Byte} {dur : Ticks} {cp : CompiledPulse}
      (h : compileChase coord maxCoord dur = cp) (hlit : cp.lit = true) :
      RunnerPulse cp.durationMs cp.risePct cp.fallPct
  | ripple {nearC farC : ℚ} {maxCoord width : Byte} {dur : Ticks} {cp : CompiledPulse}
      (h : compileRipple nearC farC maxCoord width dur = cp) (hlit : cp.lit = true) :
      RunnerPulse cp.durationMs cp.risePct cp.fallPct
  | sparkle (fadeMs : Ticks) :
      RunnerPulse (sparkleFlash fadeMs).durationMs (sparkleFlash fadeMs).risePct
        (sparkleFlash fadeMs).fallPct
  | rain (fallMs : Ticks) (widthRings : Byte) (pos pathLen : ℕ) :
      RunnerPulse (rainDropAt fallMs widthRings pos pathLen).durationMs
        (rainDropAt fallMs widthRings pos pathLen).risePct
        (rainDropAt fallMs widthRings pos pathLen).fallPct

theorem compileWave_durationMs {coord : ℚ} {maxCoord width : Byte} {dur : Ticks}
    (hlit : (compileWave coord maxCoord width dur).lit = true) :
    (compileWave coord maxCoord width dur).durationMs ≠ 0 := by
  unfold compileWave at hlit ⊢
  dsimp only at hlit ⊢
  split_ifs at hlit ⊢
  · cases hlit
  · cases hlit
  · exact atLeastOne_ne_zero _

theorem compileChase_durationMs {coord maxCoord : Byte} {dur : Ticks}
    (hlit : (compileChase coord maxCoord dur).lit = true) :
    (compileChase coord maxCoord dur).durationMs ≠ 0 := by
  unfold compileChase at hlit ⊢
  dsimp only at hlit ⊢
  split_ifs at hlit ⊢
  · cases hlit
  · exact atLeastOne_ne_zero _

theorem compileRipple_durationMs {nearC farC : ℚ} {maxCoord width : Byte} {dur : Ticks}
    (hlit : (compileRipple nearC farC maxCoord width dur).lit = true) :
    (compileRipple nearC farC maxCoord width dur).durationMs ≠ 0 := by
  unfold compileRipple at hlit ⊢
  dsimp only at hlit ⊢
  split_ifs at hlit ⊢
  · cases hlit
  · cases hlit
  · cases hlit
  · exact atLeastOne_ne_zero _

theorem rainDropAt_durationMs (fallMs : Ticks) (widthRings : Byte) (pos pathLen : ℕ) :
    (rainDropAt fallMs widthRings pos pathLen).durationMs ≠ 0 := by
  have hring : 0 < max (fallMs.toNat / if 1 < pathLen then pathLen - 1 else 1) 1 :=
    Nat.lt_of_lt_of_le Nat.one_pos (le_max_right _ _)
  have hrings : 0 < max widthRings.toNat 1 := Nat.lt_of_lt_of_le Nat.one_pos (le_max_right _ _)
  have hdur := Nat.mul_pos hrings hring
  intro hzero
  have hnat := congrArg BitVec.toNat hzero
  unfold rainDropAt at hnat
  dsimp only at hnat
  rw [BitVec.toNat_ofNat, Nat.mod_eq_of_lt (by omega)] at hnat
  have hnat : min (max widthRings.toNat 1 *
    max (fallMs.toNat / if 1 < pathLen then pathLen - 1 else 1) 1) 65535 = 0 := hnat
  omega

theorem RunnerPulse.durationMs_ne_zero {d : Ticks} {rise fall : Byte}
    (h : RunnerPulse d rise fall) : d ≠ 0 := by
  cases h with
  | wave h hlit =>
      subst h
      exact compileWave_durationMs hlit
  | chase h hlit =>
      subst h
      exact compileChase_durationMs hlit
  | ripple h hlit =>
      subst h
      exact compileRipple_durationMs hlit
  | sparkle fadeMs => exact atLeastOne_ne_zero fadeMs
  | rain fallMs widthRings pos pathLen => exact rainDropAt_durationMs _ _ _ _

/-! ### The last frame of a pulse -/

/-- The time in which a pulse falls, of its duration the part that neither rise nor hold takes. -/
def AnimationState.fallMs (a : AnimationState) : ℕ :=
  let (rise, fall) := AnimationPlayer.pulseShares a
  a.durationMs.toNat - a.durationMs.toNat * rise / 256 -
    a.durationMs.toNat * (255 - rise - fall) / 256

/-- What is left of a difference at the end of a fall is less than one. -/
def DiesOut (fallMs : ℕ) (x y : Byte) : Prop :=
  ((x.toNat : ℤ) - y.toNat).natAbs * (255 / (fallMs + 1)) < 256

instance (fallMs : ℕ) (x y : Byte) : Decidable (DiesOut fallMs x y) :=
  inferInstanceAs (Decidable (_ < _))

namespace AnimationPlayer

theorem pulseShares_le (a : AnimationState) :
    (pulseShares a).1 + (pulseShares a).2 ≤ 255 := by
  unfold pulseShares
  have h1 := a.param1.isLt
  have h2 := a.param2.isLt
  dsimp only
  split_ifs with hsum
  · have hle : 255 * a.param1.toNat / (a.param1.toNat + a.param2.toNat) ≤ 255 :=
      Nat.div_le_of_le_mul (by
        rw [Nat.mul_comm]
        exact Nat.mul_le_mul_right 255 (Nat.le_add_right _ _))
    dsimp only
    omega
  · dsimp only
    omega

/-- The steps of a fall that are taken by its end. -/
theorem fall_steps (n : ℕ) : n * 256 / (n + 1) = 255 - 255 / (n + 1) := by
  have hle : 255 / (n + 1) ≤ 255 := Nat.div_le_self _ _
  have hdiv := Nat.div_add_mod 255 (n + 1)
  have hmod : 255 % (n + 1) < n + 1 := Nat.mod_lt 255 (Nat.succ_pos n)
  have hlow : (255 - 255 / (n + 1)) * (n + 1) = 255 * (n + 1) - (n + 1) * (255 / (n + 1)) := by
    rw [Nat.sub_mul, Nat.mul_comm (255 / (n + 1))]
  have hprod : (n + 1) * (255 / (n + 1)) ≤ 255 := Nat.mul_div_le 255 (n + 1)
  generalize (n + 1) * (255 / (n + 1)) = taken at hdiv hlow hprod
  refine Nat.div_eq_of_lt_le ?_ ?_
  · rw [hlow]
    omega
  · rw [Nat.succ_mul, hlow]
    omega

theorem fallMs_pos {a : AnimationState} (h : a.durationMs ≠ 0) : 0 < a.fallMs := by
  have hpos : 0 < a.durationMs.toNat := Nat.pos_of_ne_zero fun hzero =>
    h (BitVec.eq_of_toNat_eq hzero)
  have hshares := pulseShares_le a
  unfold AnimationState.fallMs
  generalize pulseShares a = shares at hshares
  obtain ⟨rise, fall⟩ := shares
  dsimp only at hshares ⊢
  generalize a.durationMs.toNat = d at hpos
  have hsum : d * rise / 256 + d * (255 - rise - fall) / 256 ≤ d * 255 / 256 := by
    refine Nat.div_add_div_le_add_div.trans (Nat.div_le_div_right ?_)
    rw [← Nat.mul_add]
    exact Nat.mul_le_mul_left d (by omega)
  omega

/-- The steps that are left at the end of a pulse. -/
theorem tickPulse_last (p : AnimationPlayer) {a : AnimationState} (h : a.durationMs ≠ 0) :
    p.tickPulse a a.durationMs = p.applyProgress a (u8 (255 / (a.fallMs + 1))) := by
  have hpos := fallMs_pos h
  have hle : 255 / (a.fallMs + 1) ≤ 255 := Nat.div_le_self _ _
  have hsteps : (255 : Byte) - u8 (a.fallMs * 256 / (a.fallMs + 1)) =
      u8 (255 / (a.fallMs + 1)) := by
    rw [fall_steps]
    apply BitVec.eq_of_toNat_eq
    rw [BitVec.toNat_sub, BitVec.toNat_ofNat, BitVec.toNat_ofNat]
    change (2 ^ 8 - (255 - 255 / (a.fallMs + 1)) % 2 ^ 8 + 255) % 2 ^ 8 = _
    omega
  rw [← hsteps]
  unfold tickPulse AnimationState.fallMs
  unfold AnimationState.fallMs at hpos
  generalize pulseShares a = shares at hpos
  obtain ⟨rise, fall⟩ := shares
  dsimp only at hpos ⊢
  rw [if_neg (by omega), if_neg (by omega)]

theorem lerp8_eq_left_iff (x y : Byte) {v : ℕ} (hv : v < 255) :
    lerp8 x y (u8 v) = x ↔ ((x.toNat : ℤ) - y.toNat).natAbs * v < 256 := by
  have hx := x.isLt
  have hy := y.isLt
  have hnum : (u8 v).toNat = v := Nat.mod_eq_of_lt (by omega)
  by_cases hsame : x = y
  · subst hsame
    rw [lerp8, if_pos (.inl rfl), Int.sub_self, Int.natAbs_zero, Nat.zero_mul]
    exact iff_of_true rfl (by decide)
  · by_cases hnone : v = 0
    · subst hnone
      rw [lerp8, if_pos (.inr rfl), Nat.mul_zero]
      exact iff_of_true rfl (by decide)
    · have hzero : u8 v ≠ 0 := fun h => hnone (hnum.symm.trans (congrArg BitVec.toNat h))
      have hfull : u8 v ≠ 255 := by
        intro h
        have hnat : v = 255 := hnum.symm.trans (congrArg BitVec.toNat h)
        omega
      have hshare (d : ℕ) : d * v / 256 ≤ d ∧ (d * v / 256 = 0 ↔ d * v < 256) :=
        ⟨Nat.div_le_of_le_mul (by rw [Nat.mul_comm]; exact Nat.mul_le_mul_right d (by omega)),
          Nat.div_eq_zero_iff_lt (by decide)⟩
      rw [lerp8, if_neg (not_or.mpr ⟨hsame, hzero⟩), if_neg hfull, hnum]
      by_cases hlt : x < y
      · have hnat : x.toNat < y.toNat := BitVec.lt_def.mp hlt
        have hdiff : ((x.toNat : ℤ) - y.toNat).natAbs = y.toNat - x.toNat := by omega
        obtain ⟨hle, hnone⟩ := hshare (y.toNat - x.toNat)
        rw [if_pos hlt, hdiff, ← hnone, ← BitVec.toNat_inj, BitVec.toNat_ofNat,
          Nat.mod_eq_of_lt (by omega)]
        omega
      · have hnat : y.toNat ≤ x.toNat := Nat.le_of_not_lt fun h => hlt (BitVec.lt_def.mpr h)
        have hdiff : ((x.toNat : ℤ) - y.toNat).natAbs = x.toNat - y.toNat := by omega
        obtain ⟨hle, hnone⟩ := hshare (x.toNat - y.toNat)
        rw [if_neg hlt, hdiff, ← hnone, ← BitVec.toNat_inj, BitVec.toNat_ofNat,
          Nat.mod_eq_of_lt (by omega)]
        omega

/-- What a pulse starts from. -/
def startOutput (p : AnimationPlayer) (a : AnimationState) : SlotOutput :=
  if a.animates = .color then { noOutput with color := p.resolveColorRef a.colorFrom }
  else { noOutput with value := getValueFrom a }

/-- The fall is so long, or its ends are so near, that nothing is left at its end. -/
def PulseDiesOut (p : AnimationPlayer) (a : AnimationState) : Prop :=
  if a.animates = .color then
    (p.resolveColorRef a.colorFrom).All₂ (DiesOut a.fallMs) (p.resolveColorRef a.colorTo)
  else DiesOut a.fallMs (getValueFrom a) (getValueTo a)

theorem last_steps_lt {a : AnimationState} (h : a.durationMs ≠ 0) : 255 / (a.fallMs + 1) < 255 := by
  have hpos := fallMs_pos h
  have hle : 255 / (a.fallMs + 1) ≤ 255 / 2 := Nat.div_le_div_left (by omega) (by decide)
  omega

/-- A pulse of a runner ends where it has started if and only if its fall dies out. -/
theorem pulse_end_iff (p : AnimationPlayer) (s : Slot) (hpulse : s.cur.animType = .pulse)
    (hrunner : RunnerPulse s.cur.durationMs s.cur.param1 s.cur.param2) :
    (p.computeSlotOutput s s.cur.durationMs).2 = p.startOutput s.cur ↔ p.PulseDiesOut s.cur := by
  have hdur := hrunner.durationMs_ne_zero
  have hlast := last_steps_lt hdur
  have hcompute : (p.computeSlotOutput s s.cur.durationMs).2 =
      p.applyProgress s.cur (u8 (255 / (s.cur.fallMs + 1))) := by
    rw [← p.tickPulse_last hdur]
    unfold computeSlotOutput
    dsimp only
    rw [hpulse]
  rw [hcompute, applyProgress, startOutput, PulseDiesOut]
  by_cases hcolor : s.cur.animates = .color
  · rw [if_pos hcolor, if_pos hcolor, if_pos hcolor, SlotOutput.mk.injEq]
    unfold ColorRGB.All₂ DiesOut
    rw [← lerp8_eq_left_iff _ _ hlast, ← lerp8_eq_left_iff _ _ hlast,
      ← lerp8_eq_left_iff _ _ hlast]
    generalize p.resolveColorRef s.cur.colorFrom = x
    generalize p.resolveColorRef s.cur.colorTo = y
    obtain ⟨r, g, b⟩ := x
    change ColorRGB.mk _ _ _ = ColorRGB.mk _ _ _ ∧ _ ↔ _
    rw [ColorRGB.mk.injEq]
    exact and_iff_left rfl
  · rw [if_neg hcolor, if_neg hcolor, if_neg hcolor, SlotOutput.mk.injEq, DiesOut,
      ← lerp8_eq_left_iff _ _ hlast]
    exact and_iff_right rfl

/-- A running pulse from black to white. -/
def whitePulse (durationMs : Ticks) (risePct fallPct : Byte) : Slot :=
  { idleSlot with
    occupied := true
    started := true
    cur :=
      { idleState with
        animType := .pulse
        flags := flagReapOnDone
        durationMs
        colorTo := .rgb .white
        param1 := risePct
        param2 := fallPct } }

theorem pulse_end_sparkle :
    (init.computeSlotOutput (whitePulse 400 0 255) 400).2 =
      init.startOutput (whitePulse 400 0 255).cur :=
  (init.pulse_end_iff (whitePulse 400 0 255) rfl (.sparkle 400)).mpr
    (by unfold PulseDiesOut; decide)

/-- A sparkle of 32 ms and a chase that passes a panel in 100 ms both end with a glow. -/
theorem pulse_end_glows :
    RunnerPulse 32 0 255 ∧
      (init.computeSlotOutput (whitePulse 32 0 255) 32).2.color = ⟨6, 6, 6⟩ ∧
      RunnerPulse 100 8 8 ∧
      (init.computeSlotOutput (whitePulse 100 8 8) 100).2.color = ⟨50, 50, 50⟩ ∧
      init.startOutput (whitePulse 32 0 255).cur = ⟨.black, 0⟩ := by
  refine ⟨.sparkle 32, by decide, ?_, by decide, rfl⟩
  have hchase : compileChase 0 9 1000 = ⟨true, 0, 100, 8, 8⟩ := by decide +kernel
  exact RunnerPulse.chase hchase rfl

end AnimationPlayer

end Lightnet
