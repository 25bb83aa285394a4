import Lightnet.Playback.ScenePlayer

/-!
# Pulses that light every panel

A bounce and a wheel light all the panels that they are compiled for: no coordinate is beyond the
greatest one, and the band has a width.
-/

namespace Lightnet

/-! ### Rounding -/

theorem round_within {x b : ℚ} (h : |x| ≤ b) : |Single.round x - x| ≤ b / 2 ^ 24 :=
  (Single.abs_round_sub_le x).trans (div_le_div_of_nonneg_right h (by positivity))

/-! ### Coordinates -/

theorem le_foldl_max {α : Type} [LinearOrder α] (l : List α) (m : α) :
    m ≤ l.foldl max m ∧ ∀ n ∈ l, n ≤ l.foldl max m := by
  induction l generalizing m with
  | nil => exact ⟨le_rfl, by simp⟩
  | cons a l ih =>
      obtain ⟨hmax, hmem⟩ := ih (max m a)
      refine ⟨(le_max_left m a).trans hmax, fun n hn => ?_⟩
      rcases List.mem_cons.mp hn with rfl | hn
      · exact (le_max_right m n).trans hmax
      · exact hmem n hn

theorem foldl_max_le (l : List ℕ) {m b : ℕ} (hm : m ≤ b) (hl : ∀ n ∈ l, n ≤ b) :
    l.foldl max m ≤ b := by
  induction l generalizing m with
  | nil => exact hm
  | cons a l ih =>
      exact ih (max_le hm (hl a List.mem_cons_self)) fun n hn => hl n (List.mem_cons_of_mem a hn)

namespace Flood

theorem dist_foldl_look {u B : ℕ} (l : List ℕ) {f : Flood} (hu : ∀ d, f.dist u = some d → d ≤ B)
    (hf : ∀ s d, f.dist s = some d → d ≤ B + 1) :
    ∀ s d, (l.foldl (look u) f).dist s = some d → d ≤ B + 1 := by
  induction l generalizing f with
  | nil => exact hf
  | cons v l ih =>
      have hlook : (look u f v).dist = f.dist ∨
          f.dist v = none ∧
            (look u f v).dist = Function.update f.dist v ((f.dist u).map (· + 1)) := by
        unfold look
        cases hv : f.dist v with
        | some d => exact Or.inl rfl
        | none => exact Or.inr ⟨rfl, rfl⟩
      rw [List.foldl_cons]
      rcases hlook with hsame | ⟨hnone, hnew⟩
      · exact ih (by rw [hsame]; exact hu) (by rw [hsame]; exact hf)
      · have hfound (d : ℕ) (hd : (f.dist u).map (· + 1) = some d) : d ≤ B + 1 := by
          obtain ⟨d', hd', rfl⟩ := Option.map_eq_some_iff.mp hd
          exact Nat.succ_le_succ (hu d' hd')
        refine ih (fun d hd => ?_) fun s d hd => ?_
        · rw [hnew] at hd
          by_cases huv : u = v
          · rw [huv, Function.update_self, hnone] at hd
            cases hd
          · rw [Function.update_of_ne huv] at hd
            exact hu d hd
        · rw [hnew] at hd
          by_cases hsv : s = v
          · rw [hsv, Function.update_self] at hd
            exact hfound d hd
          · rw [Function.update_of_ne hsv] at hd
            exact hf s d hd

/-- Every round adds at most one to the greatest distance. -/
theorem dist_run_le (g : PanelGraph) (n : ℕ) {B : ℕ} {f : Flood}
    (hf : ∀ s d, f.dist s = some d → d ≤ B) :
    ∀ s d, (run g n f).dist s = some d → d ≤ B + n := by
  induction n generalizing B f with
  | zero => exact hf
  | succ n ih =>
      rw [run]
      cases hq : f.queue with
      | nil => exact fun s d hd => (hf s d hd).trans (Nat.le_add_right B _)
      | cons u queue =>
          have hround := dist_foldl_look (((g.neighbors u).map (·.slot))) (f := { f with queue })
            (fun d hd => hf u d hd) fun s d hd => (hf s d hd).trans (Nat.le_succ B)
          intro s d hd
          have hle := ih hround s d hd
          omega

end Flood

namespace TopologyIndex

theorem distancesFrom_le (topo : TopologyIndex) (sources : PanelSet) (s d : ℕ)
    (h : topo.distancesFrom sources s = some d) : d ≤ topo.count := by
  have hle := Flood.dist_run_le topo.graph topo.count (B := 0) (fun s d hd => ?_) s d h
  · omega
  · dsimp only at hd
    split_ifs at hd
    cases hd
    exact Nat.le_refl 0

end TopologyIndex

/-- A field has a coordinate for every panel, and none is beyond the greatest one. -/
def FieldOf (panels : List ℕ) (field : Byte × List Byte) : Prop :=
  field.2.length = panels.length ∧ ∀ c ∈ field.2, c.toNat ≤ field.1.toNat

theorem fieldOf_map {panels : List ℕ} {maxCoord : Byte} {coord : ℕ → Byte}
    (h : ∀ p, (coord p).toNat ≤ maxCoord.toNat) : FieldOf panels (maxCoord, panels.map coord) := by
  refine ⟨List.length_map _, fun c hc => ?_⟩
  obtain ⟨p, -, rfl⟩ := List.mem_map.mp hc
  exact h p

theorem fieldOf_ite {panels : List ℕ} {a b : Byte × List Byte} {c : Prop} [Decidable c]
    (ha : FieldOf panels a) (hb : FieldOf panels b) : FieldOf panels (if c then a else b) := by
  split
  · exact ha
  · exact hb

theorem toNat_u8_le {n : ℕ} {b : Byte} (h : n ≤ b.toNat) : (u8 n).toNat ≤ b.toNat :=
  (Nat.mod_le n 256).trans h

theorem computeDistanceField_fieldOf (topo : TopologyIndex) (hcount : topo.count ≤ 255)
    (panels : List ℕ) (srcKind srcArg : Byte) (reverse : Bool) :
    FieldOf panels (topo.computeDistanceField panels srcKind srcArg reverse) := by
  unfold TopologyIndex.computeDistanceField
  set dist := topo.distancesFrom (topo.buildSourceSet srcKind srcArg) with hdist
  set coord := panels.map fun p => ((topo.graph.slotOf p).bind dist).getD 0 with hcoord
  have hle : ∀ d ∈ coord, d ≤ 255 := by
    intro d hd
    obtain ⟨p, -, rfl⟩ := List.mem_map.mp hd
    cases hbind : (topo.graph.slotOf p).bind dist with
    | none => exact Nat.zero_le _
    | some d =>
        obtain ⟨s, -, hs⟩ := Option.bind_eq_some_iff.mp hbind
        exact (topo.distancesFrom_le _ s d hs).trans hcount
  have hmax : coord.foldl max 0 ≤ 255 := foldl_max_le coord (Nat.zero_le _) hle
  have hmaxD : (u8 (coord.foldl max 0)).toNat = coord.foldl max 0 := by
    change coord.foldl max 0 % 256 = _
    omega
  refine ⟨by simp, fun c hc => ?_⟩
  obtain ⟨d, hd, rfl⟩ := List.mem_map.mp hc
  have hdmax : d ≤ coord.foldl max 0 := (le_foldl_max coord 0).2 d hd
  refine toNat_u8_le ?_
  change _ ≤ (u8 (coord.foldl max 0)).toNat
  rw [hmaxD]
  split_ifs
  · exact Nat.sub_le _ _
  · exact hdmax

theorem computeGeometricField_fieldOf (geo : PanelGeometry) (panels : List ℕ) (angleDeg : ℚ)
    (reverse : Bool) (resolution : Byte) :
    FieldOf panels (geo.computeGeometricField panels angleDeg reverse resolution) := by
  unfold PanelGeometry.computeGeometricField
  dsimp only
  split
  · exact fieldOf_map fun _ => le_rfl
  · refine fieldOf_ite ?_ ?_
    · exact fieldOf_map fun _ => le_rfl
    · refine fieldOf_map fun p => ?_
      split
      · exact Nat.zero_le _
      · have hquant (t : ℚ) (r : Byte) :
            (if reverse = true then r.toNat - quantise t r else quantise t r) ≤ r.toNat := by
          split_ifs
          · exact Nat.sub_le _ _
          · exact min_le_right _ _
        exact toNat_u8_le (hquant _ _)

namespace ScenePlayer

theorem linearField_fieldOf (p : ScenePlayer) (hcount : p.sceneTopo.index.count ≤ 255)
    (step : SceneStep) (panels : List ℕ) (reverse : Bool) :
    FieldOf panels (p.linearField step panels reverse) := by
  unfold linearField
  split_ifs
  · exact computeGeometricField_fieldOf _ _ _ _ _
  · exact computeDistanceField_fieldOf _ hcount _ _ _ _

end ScenePlayer

theorem computeWheelField_length {geo : PanelGeometry} {topo : TopologyIndex} {panels : List ℕ}
    {srcKind srcArg : Byte} {reverse : Bool} {turns : List ℚ}
    (h : geo.computeWheelField topo panels srcKind srcArg reverse = some turns) :
    turns.length = panels.length := by
  unfold PanelGeometry.computeWheelField at h
  split at h
  · cases h
  · dsimp only at h
    split_ifs at h <;> cases h <;> rw [List.length_map, List.length_map]

/-! ### BOUNCE and WHEEL -/

/-- The window around a coordinate that is within the span does not close under rounding. -/
theorem bandWindow_opens {c w S : ℚ} (hc : 0 ≤ c) (hcS : c ≤ S) (hS : 1 ≤ S) (hS' : S ≤ 255)
    (hw : 2 ≤ w) (hw' : w ≤ 255) :
    max (Single.div (Single.sub c (Single.div w 2)) S) 0 <
      min (Single.div (Single.add c (Single.div w 2)) S) 1 := by
  have hhalf := abs_le.mp (round_within (x := w / 2) (b := 128) (by rw [abs_le]; constructor <;> linarith))
  change _ ≤ Single.div w 2 - w / 2 ∧ Single.div w 2 - w / 2 ≤ _ at hhalf
  set h := Single.div w 2
  have hlow := abs_le.mp (round_within (x := c - h) (b := 512) (by rw [abs_le]; constructor <;> linarith))
  change _ ≤ Single.sub c h - (c - h) ∧ Single.sub c h - (c - h) ≤ _ at hlow
  have hhigh := abs_le.mp (round_within (x := c + h) (b := 512) (by rw [abs_le]; constructor <;> linarith))
  change _ ≤ Single.add c h - (c + h) ∧ Single.add c h - (c + h) ≤ _ at hhigh
  set lo := Single.sub c h
  set hi := Single.add c h
  have hpos : 0 < S := by linarith
  have hquot (x : ℚ) (hx : |x| ≤ 512) : |Single.div x S * S - x| ≤ 512 * 255 / 2 ^ 24 := by
    have hdiv : |x / S| ≤ 512 := by
      rw [abs_div, abs_of_pos hpos, div_le_iff₀ hpos]
      nlinarith
    have hround := round_within hdiv
    have hscale : Single.div x S * S - x = (Single.div x S - x / S) * S := by
      rw [sub_mul, div_mul_cancel₀ x hpos.ne']
    rw [hscale, abs_mul, abs_of_pos hpos]
    calc |Single.div x S - x / S| * S ≤ 512 / 2 ^ 24 * 255 :=
          mul_le_mul hround hS' hpos.le (by norm_num)
      _ = 512 * 255 / 2 ^ 24 := by ring
  have ha := abs_le.mp (hquot lo (by rw [abs_le]; constructor <;> linarith))
  have hb := abs_le.mp (hquot hi (by rw [abs_le]; constructor <;> linarith))
  have haS : Single.div lo S * S < c - 1 / 2 := by linarith
  have hbS : c + 1 / 2 < Single.div hi S * S := by linarith
  rw [lt_min_iff, max_lt_iff, max_lt_iff]
  refine ⟨⟨?_, ?_⟩, ?_, one_pos⟩
  · exact lt_of_mul_lt_mul_right (by linarith) hpos.le
  · exact lt_of_mul_lt_mul_right (by rw [zero_mul]; linarith) hpos.le
  · exact lt_of_mul_lt_mul_right (by linarith) hpos.le

theorem compileBounce_lit {c : ℕ} {maxCoord width : Byte} {dur : Ticks} (hc : c ≤ maxCoord.toNat)
    (hwidth : 2 ≤ width.toNat) (hdur : dur ≠ 0) : (compileBounce c maxCoord width dur).lit = true := by
  have hwidth' : width ≠ 0 := by
    rintro rfl
    exact absurd hwidth (by decide)
  have hmax := maxCoord.isLt
  have hwlt := width.isLt
  have hopen : ¬ min (Single.div (Single.add c (Single.div width.toNat 2))
        (if maxCoord = 0 then 1 else maxCoord.toNat)) 1 ≤
      max (Single.div (Single.sub c (Single.div width.toNat 2))
        (if maxCoord = 0 then 1 else maxCoord.toNat)) 0 := by
    rw [not_le]
    have hcm : (c : ℚ) ≤ maxCoord.toNat := by exact_mod_cast hc
    have hspan : 1 ≤ (if maxCoord = 0 then 1 else (maxCoord.toNat : ℚ)) ∧
        (if maxCoord = 0 then 1 else (maxCoord.toNat : ℚ)) ≤ 255 ∧
        c ≤ (if maxCoord = 0 then 1 else (maxCoord.toNat : ℚ)) := by
      split_ifs with hzero
      · rw [hzero] at hcm
        exact ⟨le_rfl, by norm_num, hcm.trans (by norm_num)⟩
      · have hpos : 1 ≤ maxCoord.toNat :=
          Nat.one_le_iff_ne_zero.mpr fun h => hzero (BitVec.eq_of_toNat_eq h)
        exact ⟨by exact_mod_cast hpos, by exact_mod_cast (by omega : maxCoord.toNat ≤ 255), hcm⟩
    exact bandWindow_opens (Nat.cast_nonneg c) hspan.2.2 hspan.1 hspan.2.1
      (by exact_mod_cast hwidth) (by exact_mod_cast (by omega : width.toNat ≤ 255))
  unfold compileBounce
  rw [if_neg (not_or.mpr ⟨hwidth', hdur⟩)]
  dsimp only [bandWindow]
  rw [if_neg hopen]

theorem compileWheel_lit (turns : ℚ) {lines thickness : Byte} {dur : Ticks} (hlines : lines ≠ 0)
    (hdur : dur ≠ 0) : (compileWheel turns lines thickness dur).lit = true := by
  unfold compileWheel
  rw [if_neg (not_or.mpr ⟨hlines, hdur⟩)]
  dsimp only
  unfold compileRepeating compileRepeatingAsym
  rw [if_neg (atLeastOne_ne_zero _)]

end Lightnet
