import Lightnet.Playback.LitPulses

/-!
# How long a spawned pulse takes

A pulse of a sweep ends with the sweep, but for the rounding of its onset and its length to whole
milliseconds. A pulse of a drop ends when the tail of the drop has passed its panel, and the drop
itself appears at a random time within the interval of its spawner.
-/

namespace Lightnet

/-! ### Times in whole milliseconds -/

/-- A time is rounded up by half a millisecond at most. -/
theorem rcMs_le {v : ℚ} (h : 0 ≤ v) : ((rcMs v).toNat : ℚ) ≤ v + 1 / 2 + 1 / 256 := by
  have hmax : max v 0 = v := max_eq_left h
  have hlow : 0 ≤ min v 65535 := le_min h (by norm_num)
  have hhigh : min v 65535 ≤ 65535 := min_le_right _ _
  have hself : min v 65535 ≤ v := min_le_left _ _
  have hround := abs_le.mp (round_within (x := min v 65535 + 1 / 2) (b := 65536)
    (by rw [abs_le]; constructor <;> linarith))
  have hpos : 0 ≤ Single.add (min v 65535) (1 / 2) := round_nonneg (by linarith)
  have hbits : (rcMs v).toNat ≤ Single.toNat (Single.add (min v 65535) (1 / 2)) := by
    unfold rcMs
    rw [hmax, BitVec.toNat_ofNat]
    exact Nat.mod_le _ _
  calc ((rcMs v).toNat : ℚ) ≤ Single.toNat (Single.add (min v 65535) (1 / 2)) := by
        exact_mod_cast hbits
    _ ≤ Single.add (min v 65535) (1 / 2) := Single.toNat_cast_le hpos
    _ ≤ v + 1 / 2 + 1 / 256 := by
        change Single.round (min v 65535 + 1 / 2) ≤ _
        linarith [hround.2]

/-- The onset and the length of a pulse within `d` milliseconds come to one more at most. -/
theorem rcMs_add_atLeastOne_le {x y : ℚ} {d : ℕ} (hx : 0 ≤ x) (hy : 0 ≤ y)
    (h : x + y ≤ d + 1 / 8) :
    (rcMs x).toNat + (atLeastOne (rcMs y)).toNat ≤ d + 1 := by
  have hx' := rcMs_le hx
  have hy' := rcMs_le hy
  unfold atLeastOne
  split_ifs with hzero
  · have hsum : ((rcMs x).toNat : ℚ) < ((d + 1 : ℕ) : ℚ) := by
      push_cast
      linarith
    have hlt : (rcMs x).toNat < d + 1 := by exact_mod_cast hsum
    exact hlt
  · have hsum : (((rcMs x).toNat + (rcMs y).toNat : ℕ) : ℚ) < ((d + 2 : ℕ) : ℚ) := by
      push_cast
      linarith
    have hlt : (rcMs x).toNat + (rcMs y).toNat < d + 2 := by exact_mod_cast hsum
    omega

/-! ### Pulses of a sweep -/

/-- A share of a duration, with the error of two roundings. -/
theorem mul_div_le {d a b : ℚ} (hd : 0 ≤ d) (ha : 0 ≤ a) (hb : 0 < b) :
    0 ≤ Single.mul d (Single.div a b) ∧
      Single.mul d (Single.div a b) ≤ d * (a / b) * (1 + 1 / 2 ^ 24) ^ 2 := by
  have hquot : 0 ≤ a / b := div_nonneg ha hb.le
  have hdiv : 0 ≤ Single.div a b := round_nonneg hquot
  refine ⟨round_nonneg (mul_nonneg hd hdiv), ?_⟩
  calc Single.mul d (Single.div a b) ≤ d * Single.div a b * (1 + 1 / 2 ^ 24) :=
        Single.round_le_mul (mul_nonneg hd hdiv)
    _ ≤ d * (a / b * (1 + 1 / 2 ^ 24)) * (1 + 1 / 2 ^ 24) := by
        gcongr
        exact Single.round_le_mul hquot
    _ = d * (a / b) * (1 + 1 / 2 ^ 24) ^ 2 := by ring

/-- Shares that are at most the whole come to the duration, but for an eighth. -/
theorem shares_le {d q : ℚ} (hd : 0 ≤ d) (hd' : d ≤ 65535) (hq : q ≤ 1 + 4 / 2 ^ 24) :
    d * q * (1 + 1 / 2 ^ 24) ^ 2 ≤ d + 1 / 8 := by
  calc d * q * (1 + 1 / 2 ^ 24) ^ 2 ≤ d * (1 + 4 / 2 ^ 24) * (1 + 1 / 2 ^ 24) ^ 2 := by gcongr
    _ = d + d * ((1 + 4 / 2 ^ 24) * (1 + 1 / 2 ^ 24) ^ 2 - 1) := by ring
    _ ≤ d + 65535 * ((1 + 4 / 2 ^ 24) * (1 + 1 / 2 ^ 24) ^ 2 - 1) := by
        gcongr
    _ ≤ d + 1 / 8 := by norm_num

theorem div_round_le {a b : ℚ} (hb : 0 < b) (hab : a ≤ b) :
    0 < Single.round b ∧ a / Single.round b ≤ 1 + 4 / 2 ^ 24 := by
  have hlow := Single.mul_le_round hb.le
  have hpos : 0 < Single.round b := lt_of_lt_of_le (mul_pos hb (by norm_num)) hlow
  refine ⟨hpos, ?_⟩
  rw [div_le_iff₀ hpos]
  calc a ≤ b := hab
    _ ≤ (1 + 4 / 2 ^ 24) * (b * (1 - 1 / 2 ^ 24)) := by
        rw [← mul_assoc, mul_comm (1 + 4 / 2 ^ 24) b, mul_assoc]
        exact le_mul_of_one_le_right hb.le (by norm_num)
    _ ≤ (1 + 4 / 2 ^ 24) * Single.round b := by gcongr

theorem ticks_le (dur : Ticks) : (dur.toNat : ℚ) ≤ 65535 := by
  have hlt := dur.isLt
  exact_mod_cast (by omega : dur.toNat ≤ 65535)

/-- A pulse is lit for some time, and is over within the sweep but for a millisecond. -/
structure CompiledPulse.Within (cp : CompiledPulse) (dur : Ticks) : Prop where
  lasts : cp.durationMs ≠ 0
  ends : cp.startDelayMs.toNat + cp.durationMs.toNat ≤ dur.toNat + 1

theorem compileWave_within {c : ℕ} {maxCoord width : Byte} {dur : Ticks} (hc : c ≤ maxCoord.toNat)
    (hlit : (compileWave c maxCoord width dur).lit = true) :
    (compileWave c maxCoord width dur).Within dur := by
  unfold compileWave at hlit ⊢
  dsimp only at hlit ⊢
  split_ifs at hlit ⊢ with hzero hdenom
  · cases hlit
  · cases hlit
  · have hwidth : width ≠ 0 := fun h => hzero (Or.inl h)
    have hwpos : 0 < width.toNat := by
      rw [Nat.pos_iff_ne_zero]
      exact fun h => hwidth (BitVec.eq_of_toNat_eq h)
    have hc' : (c : ℚ) ≤ maxCoord.toNat := by exact_mod_cast hc
    have hw' : (0 : ℚ) < width.toNat := by exact_mod_cast hwpos
    have hsum : (0 : ℚ) < maxCoord.toNat + width.toNat := by positivity
    have hd : (0 : ℚ) ≤ dur.toNat := Nat.cast_nonneg _
    obtain ⟨hpos, hshare⟩ := div_round_le (a := c + width.toNat) hsum (by linarith)
    change 0 < Single.add maxCoord.toNat width.toNat at hpos
    change _ / Single.add maxCoord.toNat width.toNat ≤ _ at hshare
    obtain ⟨hon, hon'⟩ := mul_div_le (a := c) hd (Nat.cast_nonneg c) hpos
    obtain ⟨hspan, hspan'⟩ := mul_div_le (a := width.toNat) hd hw'.le hpos
    refine ⟨atLeastOne_ne_zero _, rcMs_add_atLeastOne_le hon hspan ?_⟩
    have hwhole := shares_le hd (ticks_le dur) hshare
    rw [add_div, mul_add, add_mul] at hwhole
    linarith

theorem compileChase_within {coord maxCoord : Byte} {dur : Ticks}
    (hc : coord.toNat ≤ maxCoord.toNat) (hlit : (compileChase coord maxCoord dur).lit = true) :
    (compileChase coord maxCoord dur).Within dur := by
  unfold compileChase at hlit ⊢
  split_ifs at hlit ⊢ with hzero
  · cases hlit
  · have hc' : (coord.toNat : ℚ) ≤ maxCoord.toNat := by exact_mod_cast hc
    have hd : (0 : ℚ) ≤ dur.toNat := Nat.cast_nonneg _
    have hsum : (0 : ℚ) < maxCoord.toNat + 1 := by positivity
    obtain ⟨hpos, hshare⟩ := div_round_le (a := coord.toNat + 1) hsum (by linarith)
    change 0 < Single.add maxCoord.toNat 1 at hpos
    change _ / Single.add maxCoord.toNat 1 ≤ _ at hshare
    obtain ⟨hon, hon'⟩ := mul_div_le (a := coord.toNat) hd (Nat.cast_nonneg _) hpos
    have hquot : 0 ≤ dur.toNat / Single.add maxCoord.toNat 1 := div_nonneg hd hpos.le
    have hlength : Single.div dur.toNat (Single.add maxCoord.toNat 1) ≤
        dur.toNat * (1 / Single.add maxCoord.toNat 1) * (1 + 1 / 2 ^ 24) ^ 2 := by
      rw [mul_one_div]
      refine (Single.round_le_mul hquot).trans (mul_le_mul_of_nonneg_left ?_ hquot)
      norm_num
    refine ⟨atLeastOne_ne_zero _, rcMs_add_atLeastOne_le hon (round_nonneg hquot) ?_⟩
    have hwhole := shares_le hd (ticks_le dur) hshare
    rw [add_div, mul_add, add_mul] at hwhole
    linarith

theorem compileRipple_within {nearC farC : ℚ} {maxCoord width : Byte} {dur : Ticks}
    (hlit : (compileRipple nearC farC maxCoord width dur).lit = true) :
    (compileRipple nearC farC maxCoord width dur).Within dur := by
  unfold compileRipple at hlit ⊢
  dsimp only [bandWindow] at hlit ⊢
  split_ifs at hlit ⊢ with hzero hdenom hclosed
  · cases hlit
  · cases hlit
  · cases hlit
  · set tOn := max (Single.div (Single.sub nearC (Single.div width.toNat 2))
      (Single.add maxCoord.toNat (Single.div width.toNat 2))) 0 with htOn
    set tOff := min (Single.div (Single.add farC (Single.div width.toNat 2))
      (Single.add maxCoord.toNat (Single.div width.toNat 2))) 1 with htOff
    have hd : (0 : ℚ) ≤ dur.toNat := Nat.cast_nonneg _
    have hon : 0 ≤ tOn := le_max_right _ _
    have hoff : tOff ≤ 1 := min_le_right _ _
    have hspan : 0 ≤ tOff - tOn := by linarith [not_le.mp hclosed]
    have hstart : Single.mul dur.toNat tOn ≤ dur.toNat * tOn * (1 + 1 / 2 ^ 24) ^ 2 := by
      have hprod := mul_nonneg hd hon
      refine (Single.round_le_mul hprod).trans (mul_le_mul_of_nonneg_left ?_ hprod)
      norm_num
    have hround : 0 ≤ Single.sub tOff tOn := round_nonneg hspan
    have hlength : Single.mul dur.toNat (Single.sub tOff tOn) ≤
        dur.toNat * (tOff - tOn) * (1 + 1 / 2 ^ 24) ^ 2 :=
      calc Single.mul dur.toNat (Single.sub tOff tOn) ≤
            dur.toNat * Single.sub tOff tOn * (1 + 1 / 2 ^ 24) :=
            Single.round_le_mul (mul_nonneg hd hround)
        _ ≤ dur.toNat * ((tOff - tOn) * (1 + 1 / 2 ^ 24)) * (1 + 1 / 2 ^ 24) := by
            gcongr
            exact Single.round_le_mul hspan
        _ = dur.toNat * (tOff - tOn) * (1 + 1 / 2 ^ 24) ^ 2 := by ring
    refine ⟨atLeastOne_ne_zero _, rcMs_add_atLeastOne_le (round_nonneg (mul_nonneg hd hon))
      (round_nonneg (mul_nonneg hd hround)) ?_⟩
    have hwhole := shares_le hd (ticks_le dur)
      (le_trans hoff (by norm_num : (1 : ℚ) ≤ 1 + 4 / 2 ^ 24))
    have hsplit : (dur.toNat : ℚ) * tOff * (1 + 1 / 2 ^ 24) ^ 2 =
        dur.toNat * tOn * (1 + 1 / 2 ^ 24) ^ 2 +
          dur.toNat * (tOff - tOn) * (1 + 1 / 2 ^ 24) ^ 2 := by ring
    linarith

/-- A sweep within whose greatest coordinate all its panels are. -/
def LayerSpawnState.Spans (st : LayerSpawnState) : Prop :=
  ∀ sp ∈ st.sweepPanels, sp.coord.toNat ≤ st.sweepMaxCoord.toNat

namespace ScenePlayer

theorem compileSweep_within {st : LayerSpawnState} (h : st.Spans) {animType : AnimationType}
    {sp : SweepPanel} (hsp : sp ∈ st.sweepPanels) (hlit : (compileSweep animType st sp).lit = true) :
    (compileSweep animType st sp).Within st.sweepDurationMs := by
  have hcoord := h sp hsp
  unfold compileSweep at hlit ⊢
  split at hlit
  · exact compileWave_within hcoord hlit
  · exact compileChase_within hcoord hlit
  · exact compileRipple_within hlit

end ScenePlayer

/-! ### The coordinates of a ripple -/

theorem computeGeometricCenterField_le (geo : PanelGeometry) (topo : TopologyIndex)
    (panels : List ℕ) (srcKind srcArg : Byte) (reverse : Bool) (resolution : Byte) :
    ∀ b ∈ (geo.computeGeometricCenterField topo panels srcKind srcArg reverse resolution).2,
      b.1.toNat ≤
        (geo.computeGeometricCenterField topo panels srcKind srcArg reverse resolution).1.toNat := by
  unfold PanelGeometry.computeGeometricCenterField
  dsimp only
  split
  · intro b hb
    obtain ⟨p, -, rfl⟩ := List.mem_map.mp hb
    exact le_rfl
  · split_ifs
    all_goals
      intro b hb
      obtain ⟨p, -, rfl⟩ := List.mem_map.mp hb
      first
      | exact le_rfl
      | split
        · exact Nat.zero_le _
        · first
          | exact toNat_u8_le (Nat.sub_le _ _)
          | exact toNat_u8_le (min_le_right _ _)

namespace ScenePlayer

/-- Firing a sweep notes coordinates within its greatest one. -/
theorem sweepState_spans (p : ScenePlayer) (hcount : p.sceneTopo.index.count ≤ 255) (i : ℕ) :
    (p.sweepField (p.step i) (p.panels i)).2.all
      (fun sp => sp.coord.toNat ≤ (p.sweepField (p.step i) (p.panels i)).1.toNat) = true := by
  rw [List.all_eq_true]
  intro sp hsp
  rw [decide_eq_true_eq]
  unfold sweepField at hsp ⊢
  split_ifs at hsp ⊢
  · obtain ⟨x, hx, rfl⟩ := List.mem_map.mp hsp
    exact computeGeometricCenterField_le _ _ _ _ _ _ _ x.2 (List.of_mem_zip hx).2
  · obtain ⟨x, hx, rfl⟩ := List.mem_map.mp hsp
    exact (p.linearField_fieldOf hcount (p.step i) (p.panels i) _).2 x.2 (List.of_mem_zip hx).2

end ScenePlayer

end Lightnet
