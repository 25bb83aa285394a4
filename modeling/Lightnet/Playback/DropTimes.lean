import Lightnet.Playback.PulseTimes

/-!
# How long the pulses of a drop take

A drop appears within the interval of its spawner, its head reaches a panel, and its tail passes.
How late the last panel of a drop can be is a matter of the way it falls: the length of the path,
and the speed and the width of the drop.
-/

namespace Lightnet

/-- The longest time that a slot is sure to be freed after. -/
def reapLimit : ℕ := 65505

/-- When the tail of a drop has passed the last of `len` panels, if its head takes a `span`-th of
the fall from each panel to the next. -/
def fallEnd (fallMs : Ticks) (widthRings : Byte) (len span : ℕ) : ℕ :=
  (len - 1 + max widthRings.toNat 1) * max (fallMs.toNat / span) 1

/-- Every pulse of the drop lasts, and is over in time. -/
def Drop.InTime (d : Drop) : Prop :=
  ∀ dp ∈ d.panels, dp.pulse.durationMs ≠ 0 ∧
    d.jitter.toNat + dp.pulse.startDelayMs.toNat + dp.pulse.durationMs.toNat ≤ reapLimit

/-- All drops of the source are over in time. -/
def DropsInTime (drops : DropSource) : Prop := ∀ rng d, (drops rng).1 = some d → d.InTime

namespace SceneTopology

variable (topo : SceneTopology)

/-- The lengths of the paths from the root to the leaves. -/
def pathLengths : List ℕ := (topo.leafSlots.filterMap topo.rootPath).map List.length

/-- The lengths of the ways down from the topmost panels. -/
def streakLengths (srcArg : Byte) (reverse : Bool) : List ℕ :=
  let fall := topo.fallCoordOf (topo.fallAxis srcArg) reverse
  (topo.topSlots fall).filterMap fun s =>
    (fall s).map fun f => (topo.streak fall topo.index.count s f).length

/-- The slots that have a place in the plane. -/
def lineSlots (srcArg : Byte) (reverse : Bool) : List ℕ :=
  (List.range topo.index.count).filter fun s =>
    (topo.fallCoordOf (topo.fallAxis srcArg) reverse s).isSome

/-- How far the panels lie apart along the fall. -/
def alongSpan (srcArg : Byte) (reverse : Bool) : ℚ :=
  match (topo.lineSlots srcArg reverse).filterMap
    (topo.fallCoordOf (topo.fallAxis srcArg) reverse) with
  | [] => 1
  | fc :: fcs =>
    let span := Single.sub (fcs.foldl max fc) (fcs.foldl min fc)
    if 0 < span then span else 1

/-- How long the tail of a line takes to pass, for a line through the panel of `anchor`. -/
def lineTail (srcArg : Byte) (reverse : Bool) (widthRings : Byte) (fallMs : Ticks) (anchor : ℕ) :
    ℕ :=
  let panelSize := topo.geom.circumradiusOf (topo.index.graph.panelAt anchor)
  let panelSize := if panelSize ≤ 0 then
    Single.div (topo.alongSpan srcArg reverse) (max topo.index.count 1) else panelSize
  Single.toNat (Single.div (Single.mul (Single.mul (max widthRings.toNat 1 : ℕ) panelSize)
    fallMs.toNat) (topo.alongSpan srcArg reverse))

/-- The falls of a RAIN or MATRIX step are over before the counters of the panels wrap. -/
def FallsInTime (step : SceneStep) (spawnInterval : ℕ) (spd : ℚ) : Prop :=
  let reverse := step.params .flags &&& runnerFlagReverse ≠ 0
  let geometric := step.params .flags &&& runnerFlagGeometric ≠ 0 ∧ topo.geom.valid
  let widthRings := step.params .width
  let fallMs := scaledDropMs
    (if step.speedMs = 0 then rainDefaultFallMs else step.speedMs.toNat) spd
  if step.animType = .sparkle ∨ topo.index.count = 0 then True
  else if step.animType = .matrix then
    if geometric then
      ∀ anchor ∈ topo.lineSlots (step.params .srcArg) reverse,
        spawnInterval - 1 + fallMs.toNat +
          max (topo.lineTail (step.params .srcArg) reverse widthRings fallMs anchor) 1 ≤ reapLimit
    else
      ∀ len ∈ topo.pathLengths,
        spawnInterval - 1 + fallEnd fallMs widthRings len (max topo.index.maxDepthVal 1) ≤ reapLimit
  else if geometric then
    ∀ len ∈ topo.streakLengths (step.params .srcArg) reverse,
      spawnInterval - 1 + fallEnd fallMs widthRings len (max (len - 1) 1) ≤ reapLimit
  else
    ∀ len ∈ topo.pathLengths,
      spawnInterval - 1 + fallEnd fallMs widthRings len (max (len - 1) 1) ≤ reapLimit

instance (step : SceneStep) (spawnInterval : ℕ) (spd : ℚ) :
    Decidable (topo.FallsInTime step spawnInterval spd) := by
  unfold FallsInTime
  infer_instance

end SceneTopology

/-! ### Draws -/

theorem spawnRandBelow_lt {n : ℕ} (h : 0 < n) (rng : BitVec 32) : (spawnRandBelow rng n).1 < n := by
  unfold spawnRandBelow
  rw [if_neg h.ne']
  exact Nat.mod_lt _ h

theorem jitter_le {n : ℕ} (h : 0 < n) (rng : BitVec 32) :
    (BitVec.ofNat 16 (spawnRandBelow rng n).1).toNat ≤ n - 1 := by
  have hlt := spawnRandBelow_lt h rng
  rw [BitVec.toNat_ofNat]
  exact (Nat.mod_le _ _).trans (by omega)

theorem spawnRandOf_mem (rng : BitVec 32) (first : ℕ) (rest : List ℕ) :
    (spawnRandOf rng first rest).1 ∈ first :: rest := by
  have hlt := spawnRandBelow_lt (Nat.succ_pos rest.length) rng
  change (first :: rest).getD (spawnRandBelow rng (rest.length + 1)).1 first ∈ _
  rw [List.getD_eq_getElem?_getD, List.getElem?_eq_getElem (by rw [List.length_cons]; exact hlt),
    Option.getD_some]
  exact List.getElem_mem _

/-! ### Drops down a path -/

theorem rainDropAt_inTime {fallMs : Ticks} {widthRings : Byte} {pos len pathLen span : ℕ}
    (hpos : pos ≤ len - 1) (hspan : span = if 1 < pathLen then pathLen - 1 else 1) :
    (rainDropAt fallMs widthRings pos pathLen).durationMs ≠ 0 ∧
      (rainDropAt fallMs widthRings pos pathLen).startDelayMs.toNat +
        (rainDropAt fallMs widthRings pos pathLen).durationMs.toNat ≤
          fallEnd fallMs widthRings len span := by
  unfold rainDropAt fallEnd
  rw [← hspan]
  set ring := max (fallMs.toNat / span) 1 with hring
  set rings := max widthRings.toNat 1
  have hringpos : 1 ≤ ring := le_max_right _ _
  have hringspos : 1 ≤ rings := le_max_right _ _
  have hprod : 1 ≤ rings * ring := Nat.mul_le_mul hringspos hringpos
  have hpart : pos * ring ≤ (len - 1) * ring := Nat.mul_le_mul_right _ hpos
  have hbits (n : ℕ) : (BitVec.ofNat 16 (min n 65535)).toNat = min n 65535 := by
    rw [BitVec.toNat_ofNat, Nat.mod_eq_of_lt (by omega)]
  dsimp only
  constructor
  · intro hzero
    have hnat := congrArg BitVec.toNat hzero
    rw [hbits] at hnat
    change min (rings * ring) 65535 = 0 at hnat
    omega
  · rw [hbits, hbits, Nat.add_mul]
    exact Nat.add_le_add ((min_le_left _ _).trans hpart) (min_le_left _ _)

/-- The positions on a path are those of its panels, in one direction or the other. -/
theorem pathPanels_pos (topo : SceneTopology) {path : List ℕ} {reverse : Bool}
    {pulse : ℕ → DropPulse} {dp : DropPanel} (h : dp ∈ topo.pathPanels path reverse pulse) :
    ∃ pos ≤ path.length - 1, dp.pulse = pulse pos := by
  obtain ⟨⟨slot, i⟩, hx, rfl⟩ := List.mem_map.mp h
  have hi : i < path.length := by
    have hlt := (List.mem_zipIdx hx).2.1
    omega
  refine ⟨if reverse then path.length - 1 - i else i, ?_, rfl⟩
  split_ifs
  · exact Nat.sub_le _ _
  · exact Nat.le_sub_one_of_lt hi

theorem pathDrop_inTime (topo : SceneTopology) {path : List ℕ} {reverse : Bool}
    {pulse : ℕ → DropPulse} {jitter : Ticks} {interval last : ℕ}
    (hjitter : jitter.toNat ≤ interval - 1)
    (hpulse : ∀ pos ≤ path.length - 1, (pulse pos).durationMs ≠ 0 ∧
      (pulse pos).startDelayMs.toNat + (pulse pos).durationMs.toNat ≤ last)
    (hlast : interval - 1 + last ≤ reapLimit) :
    Drop.InTime ⟨jitter, topo.pathPanels path reverse pulse⟩ := by
  intro dp hdp
  obtain ⟨pos, hpos, heq⟩ := pathPanels_pos topo hdp
  obtain ⟨hlasts, hends⟩ := hpulse pos hpos
  rw [heq]
  refine ⟨hlasts, ?_⟩
  change jitter.toNat + _ + _ ≤ _
  omega

theorem mem_pathLengths {topo : SceneTopology} {leaf : ℕ} {path : List ℕ}
    (hleaf : leaf ∈ topo.leafSlots) (hpath : topo.rootPath leaf = some path) :
    path.length ∈ topo.pathLengths :=
  List.mem_map.mpr ⟨path, List.mem_filterMap.mpr ⟨leaf, hleaf, hpath⟩, rfl⟩

section
variable {topo : SceneTopology} {interval : ℕ} (hinterval : 0 < interval) {reverse : Bool}
  {widthRings : Byte} {fallMs : Ticks} {drops : DropSource}

include hinterval

theorem topologyRainDrops_inTime
    (h : ∀ len ∈ topo.pathLengths,
      interval - 1 + fallEnd fallMs widthRings len (max (len - 1) 1) ≤ reapLimit)
    (hdrops : topo.topologyRainDrops interval reverse widthRings fallMs = some drops) :
    DropsInTime drops := by
  intro rng d hd
  unfold SceneTopology.topologyRainDrops at hdrops
  cases hleaves : topo.leafSlots with
  | nil =>
      rw [hleaves] at hdrops
      cases hdrops
  | cons first rest =>
      rw [hleaves] at hdrops
      cases hdrops
      obtain ⟨path, hpath, rfl⟩ := Option.map_eq_some_iff.mp hd
      have hleaf : (spawnRandOf rng first rest).1 ∈ topo.leafSlots := by
        rw [hleaves]
        exact spawnRandOf_mem rng first rest
      refine pathDrop_inTime topo (jitter_le hinterval _) (fun pos hpos => ?_)
        (h path.length (mem_pathLengths hleaf hpath))
      refine rainDropAt_inTime hpos ?_
      split_ifs <;> omega

theorem matrixPathDrops_inTime
    (h : ∀ len ∈ topo.pathLengths,
      interval - 1 + fallEnd fallMs widthRings len (max topo.index.maxDepthVal 1) ≤ reapLimit)
    (hdrops : topo.matrixPathDrops interval reverse widthRings fallMs = some drops) :
    DropsInTime drops := by
  intro rng d hd
  unfold SceneTopology.matrixPathDrops at hdrops
  cases hleaves : topo.leafSlots with
  | nil =>
      rw [hleaves] at hdrops
      cases hdrops
  | cons first rest =>
      rw [hleaves] at hdrops
      cases hdrops
      obtain ⟨path, hpath, rfl⟩ := Option.map_eq_some_iff.mp hd
      have hleaf : (spawnRandOf (spawnRandBelow rng interval).2 first rest).1 ∈ topo.leafSlots := by
        rw [hleaves]
        exact spawnRandOf_mem _ first rest
      refine pathDrop_inTime topo (jitter_le hinterval _) (fun pos hpos => ?_)
        (h path.length (mem_pathLengths hleaf hpath))
      refine rainDropAt_inTime hpos ?_
      rw [if_pos (by omega), Nat.add_sub_cancel]

theorem geometricRainDrops_inTime {srcArg : Byte}
    (h : ∀ len ∈ topo.streakLengths srcArg reverse,
      interval - 1 + fallEnd fallMs widthRings len (max (len - 1) 1) ≤ reapLimit)
    (hdrops : topo.geometricRainDrops srcArg interval reverse widthRings fallMs = some drops) :
    DropsInTime drops := by
  intro rng d hd
  unfold SceneTopology.geometricRainDrops at hdrops
  dsimp only at hdrops
  cases htops : topo.topSlots (topo.fallCoordOf (topo.fallAxis srcArg) reverse) with
  | nil =>
      rw [htops] at hdrops
      cases hdrops
  | cons first rest =>
      rw [htops] at hdrops
      cases hdrops
      obtain ⟨f, hf, rfl⟩ := Option.map_eq_some_iff.mp hd
      have htop : (spawnRandOf (spawnRandBelow rng interval).2 first rest).1 ∈
          topo.topSlots (topo.fallCoordOf (topo.fallAxis srcArg) reverse) := by
        rw [htops]
        exact spawnRandOf_mem _ first rest
      refine pathDrop_inTime topo (jitter_le hinterval _) (fun pos hpos => ?_) (h _
        (List.mem_filterMap.mpr ⟨_, htop, Option.map_eq_some_iff.mpr ⟨f, hf, rfl⟩⟩))
      refine rainDropAt_inTime hpos ?_
      split_ifs <;> omega

/-! ### Lines in the plane -/

omit hinterval in
/-- The head of a line reaches every panel within the fall. -/
theorem lineDelay_le {lo hi x : ℚ} (hlo : lo ≤ x) (hhi : x ≤ hi) {span : ℚ}
    (hspan : span = if 0 < Single.sub hi lo then Single.sub hi lo else 1) {n : ℕ}
    (hn : n ≤ 65535) :
    Single.toNat (Single.mul (Single.div (Single.sub x lo) span) n) ≤ n := by
  have hpart : 0 ≤ x - lo := by linarith
  have hwhole : x - lo ≤ hi - lo := by linarith
  have hn' : (n : ℚ) ≤ 65535 := by exact_mod_cast hn
  have hzero (y : ℚ) (hy : y = 0) : Single.round y = 0 := by
    rw [Single.round, if_pos hy]
  rcases (hpart.trans hwhole).eq_or_lt with hnone | hsome
  · have hx : x - lo = 0 := by linarith
    have hsub : Single.sub x lo = 0 := hzero _ hx
    have hmul : Single.mul (Single.div (Single.sub x lo) span) n = 0 := by
      refine hzero _ ?_
      rw [hsub, Single.div, hzero _ (zero_div span), zero_mul]
    rw [hmul]
    exact Nat.zero_le _
  · have hlow : (hi - lo) * (1 - 1 / 2 ^ 24) ≤ Single.sub hi lo := Single.mul_le_round hsome.le
    have hpos : 0 < Single.sub hi lo := lt_of_lt_of_le (mul_pos hsome (by norm_num)) hlow
    rw [if_pos hpos] at hspan
    rw [hspan]
    have hsub : Single.sub x lo ≤ (x - lo) * (1 + 1 / 2 ^ 24) := Single.round_le_mul hpart
    have hsub0 : 0 ≤ Single.sub x lo := round_nonneg hpart
    have hquot0 : 0 ≤ Single.sub x lo / Single.sub hi lo := div_nonneg hsub0 hpos.le
    have hquot : Single.sub x lo / Single.sub hi lo ≤ 1 + 4 / 2 ^ 24 := by
      rw [div_le_iff₀ hpos]
      calc Single.sub x lo ≤ (x - lo) * (1 + 1 / 2 ^ 24) := hsub
        _ ≤ (hi - lo) * (1 + 1 / 2 ^ 24) := by gcongr
        _ ≤ (1 + 4 / 2 ^ 24) * ((hi - lo) * (1 - 1 / 2 ^ 24)) := by
            rw [mul_left_comm]
            exact mul_le_mul_of_nonneg_left (by norm_num) hsome.le
        _ ≤ (1 + 4 / 2 ^ 24) * Single.sub hi lo := by gcongr
    have hdiv : Single.div (Single.sub x lo) (Single.sub hi lo) ≤
        (1 + 4 / 2 ^ 24) * (1 + 1 / 2 ^ 24) :=
      (Single.round_le_mul hquot0).trans (mul_le_mul_of_nonneg_right hquot (by norm_num))
    have hdiv0 : 0 ≤ Single.div (Single.sub x lo) (Single.sub hi lo) := round_nonneg hquot0
    have hprod0 := mul_nonneg hdiv0 (Nat.cast_nonneg n)
    refine Single.toNat_le_of_lt (lt_of_le_of_lt (Single.round_le_mul hprod0) ?_)
    calc Single.div (Single.sub x lo) (Single.sub hi lo) * (n : ℚ) * (1 + 1 / 2 ^ 24) ≤
          (1 + 4 / 2 ^ 24) * (1 + 1 / 2 ^ 24) * (n : ℚ) * (1 + 1 / 2 ^ 24) := by gcongr
      _ = (n : ℚ) + (n : ℚ) * ((1 + 4 / 2 ^ 24) * (1 + 1 / 2 ^ 24) * (1 + 1 / 2 ^ 24) - 1) := by
          ring
      _ ≤ (n : ℚ) + 65535 * ((1 + 4 / 2 ^ 24) * (1 + 1 / 2 ^ 24) * (1 + 1 / 2 ^ 24) - 1) := by
          gcongr
      _ < (n : ℚ) + 1 := by
          rw [add_lt_add_iff_left]
          norm_num

omit hinterval in
theorem foldl_min_le (l : List ℚ) (m : ℚ) : l.foldl min m ≤ m ∧ ∀ x ∈ l, l.foldl min m ≤ x :=
  @le_foldl_max ℚᵒᵈ _ l m

omit hinterval in
theorem atLeastOne_ofNat_le (n : ℕ) : (atLeastOne (BitVec.ofNat 16 n)).toNat ≤ max n 1 := by
  unfold atLeastOne
  split_ifs
  · exact le_max_right _ _
  · rw [BitVec.toNat_ofNat]
    exact (Nat.mod_le _ _).trans (le_max_left _ _)

theorem matrixLineDrops_inTime {srcArg : Byte}
    (h : ∀ anchor ∈ topo.lineSlots srcArg reverse,
      interval - 1 + fallMs.toNat +
        max (topo.lineTail srcArg reverse widthRings fallMs anchor) 1 ≤ reapLimit)
    (hdrops : topo.matrixLineDrops srcArg interval reverse widthRings fallMs = some drops) :
    DropsInTime drops := by
  intro rng d hd
  unfold SceneTopology.matrixLineDrops at hdrops
  dsimp only at hdrops
  have hcand : (List.range topo.index.count).filter (fun s =>
      (topo.fallCoordOf (topo.fallAxis srcArg) reverse s).isSome) =
        topo.lineSlots srcArg reverse := rfl
  rw [hcand] at hdrops
  cases hslots : topo.lineSlots srcArg reverse with
  | nil =>
      rw [hslots] at hdrops
      cases hdrops
  | cons first rest =>
      cases hcoords : (topo.lineSlots srcArg reverse).filterMap
          (topo.fallCoordOf (topo.fallAxis srcArg) reverse) with
      | nil =>
          rw [hcoords, hslots] at hdrops
          cases hdrops
      | cons fc fcs =>
          rw [hcoords, hslots] at hdrops
          cases hdrops
          have halong : topo.alongSpan srcArg reverse =
              if 0 < Single.sub (fcs.foldl max fc) (fcs.foldl min fc) then
                Single.sub (fcs.foldl max fc) (fcs.foldl min fc) else 1 := by
            unfold SceneTopology.alongSpan
            rw [hcoords]
          dsimp only at hd
          rw [← halong] at hd
          have hanchor : (spawnRandOf (spawnRandBelow rng interval).2 first rest).1 ∈
              topo.lineSlots srcArg reverse := by
            rw [hslots]
            exact spawnRandOf_mem _ first rest
          have hfits := h _ hanchor
          have hjitter := jitter_le hinterval rng
          obtain ⟨perp, -, rfl⟩ := Option.map_eq_some_iff.mp hd
          intro dp hdp
          obtain ⟨s, hs, hline⟩ := List.mem_filterMap.mp hdp
          cases hperp : topo.perpCoordOf (topo.fallAxis srcArg) s with
          | none =>
              rw [hperp] at hline
              cases hline
          | some sp =>
              cases hfall : topo.fallCoordOf (topo.fallAxis srcArg) reverse s with
              | none =>
                  rw [hperp, hfall] at hline
                  cases hline
              | some sf =>
                  rw [hperp, hfall] at hline
                  dsimp only at hline
                  obtain ⟨-, hline⟩ := Option.ite_none_left_eq_some.mp hline
                  have hsf : sf ∈ fc :: fcs := by
                    rw [← hcoords, hslots]
                    exact List.mem_filterMap.mpr ⟨s, hs, hfall⟩
                  rw [← Option.some.inj hline]
                  have hlow : fcs.foldl min fc ≤ sf := by
                    rcases List.mem_cons.mp hsf with rfl | hmem
                    · exact (foldl_min_le fcs sf).1
                    · exact (foldl_min_le fcs fc).2 sf hmem
                  have hhigh : sf ≤ fcs.foldl max fc := by
                    rcases List.mem_cons.mp hsf with rfl | hmem
                    · exact (le_foldl_max fcs sf).1
                    · exact (le_foldl_max fcs fc).2 sf hmem
                  have hhead := lineDelay_le hlow hhigh halong (n := fallMs.toNat) (by omega)
                  have hdelay := ((BitVec.toNat_ofNat _ 16).le.trans (Nat.mod_le _ _)).trans hhead
                  have htail := atLeastOne_ofNat_le (topo.lineTail srcArg reverse widthRings fallMs
                    (spawnRandOf (spawnRandBelow rng interval).2 first rest).1)
                  refine ⟨atLeastOne_ne_zero _, ?_⟩
                  exact (Nat.add_le_add (Nat.add_le_add hjitter hdelay) htail).trans hfits

theorem sparkleDrops_inTime {panels : List ℕ} {fadeMs : Ticks}
    (h : interval - 1 + max fadeMs.toNat 1 ≤ reapLimit)
    (hdrops : SceneTopology.sparkleDrops panels fadeMs interval = some drops) :
    DropsInTime drops := by
  intro rng d hd
  unfold SceneTopology.sparkleDrops at hdrops
  cases panels with
  | nil => cases hdrops
  | cons first rest =>
      cases hdrops
      obtain rfl := Option.some.inj hd
      intro dp hdp
      rw [List.mem_singleton.mp hdp]
      have hjitter := jitter_le hinterval (spawnRandOf rng first rest).2
      refine ⟨atLeastOne_ne_zero fadeMs, ?_⟩
      have hfade : (atLeastOne fadeMs).toNat ≤ max fadeMs.toNat 1 := by
        unfold atLeastOne
        split_ifs
        · exact le_max_right _ _
        · exact le_max_left _ _
      change (BitVec.ofNat 16 (spawnRandBelow (spawnRandOf rng first rest).2 interval).1).toNat + 0 +
        (atLeastOne fadeMs).toNat ≤ reapLimit
      omega

end

/-- At a tenth of the speed the longest flash takes twenty seconds. -/
theorem sparkleFade_le {width : Byte} {spd : ℚ} (hspd : Single.round (1 / 10) ≤ spd) :
    (scaledDropMs (width.toNat * sparkleFadeMsPerWidth) spd).toNat ≤ 60000 := by
  have hwidth := width.isLt
  have hlow : (1 / 10) * (1 - 1 / 2 ^ 24) ≤ spd := (Single.mul_le_round (by norm_num)).trans hspd
  have hpos : 0 < spd := lt_of_lt_of_le (by norm_num) hlow
  have hms : ((width.toNat * sparkleFadeMsPerWidth : ℕ) : ℚ) ≤ 2040 := by
    have hle : width.toNat * sparkleFadeMsPerWidth ≤ 2040 := by
      unfold sparkleFadeMsPerWidth
      omega
    exact_mod_cast hle
  have hquot0 : (0 : ℚ) ≤ ((width.toNat * sparkleFadeMsPerWidth : ℕ) : ℚ) / spd :=
    div_nonneg (Nat.cast_nonneg _) hpos.le
  have hquot : ((width.toNat * sparkleFadeMsPerWidth : ℕ) : ℚ) / spd ≤ 30000 := by
    rw [div_le_iff₀ hpos]
    calc ((width.toNat * sparkleFadeMsPerWidth : ℕ) : ℚ) ≤ 2040 := hms
      _ ≤ 30000 * ((1 / 10) * (1 - 1 / 2 ^ 24)) := by norm_num
      _ ≤ 30000 * spd := by gcongr
  have hfade : Single.toNat (Single.div ((width.toNat * sparkleFadeMsPerWidth : ℕ) : ℚ) spd) ≤
      60000 := by
    refine Single.toNat_le_of_lt (lt_of_le_of_lt (Single.round_le_mul hquot0) ?_)
    calc _ ≤ (30000 : ℚ) * (1 + 1 / 2 ^ 24) := by gcongr
      _ < (60000 : ℕ) + 1 := by norm_num
  unfold scaledDropMs
  rw [BitVec.toNat_ofNat]
  exact (Nat.mod_le _ _).trans ((min_le_left _ _).trans (max_le hfade (by omega)))

theorem spawnIntervalMs_pos (waves : Byte) : 0 < spawnIntervalMs waves :=
  lt_of_lt_of_le Nat.zero_lt_one (le_max_right _ _)

theorem spawnIntervalMs_le (waves : Byte) : spawnIntervalMs waves ≤ 1000 :=
  max_le (Nat.div_le_self _ _) (by omega)

/-- All that a particle step can drop is over in time. -/
theorem dropsOf_inTime {topo : SceneTopology} {target : PanelSelector} {step : SceneStep}
    {waves : Byte} {spd : ℚ} (hspd : Single.round (1 / 10) ≤ spd)
    (h : topo.FallsInTime step (spawnIntervalMs waves) spd) {drops : DropSource}
    (hdrops : topo.dropsOf target step (spawnIntervalMs waves) spd = some drops) :
    DropsInTime drops := by
  have hinterval := spawnIntervalMs_pos waves
  have hinterval' := spawnIntervalMs_le waves
  unfold SceneTopology.FallsInTime at h
  unfold SceneTopology.dropsOf at hdrops
  dsimp only at h hdrops
  by_cases hsparkle : step.animType = .sparkle
  · rw [if_pos hsparkle] at hdrops
    refine sparkleDrops_inTime hinterval ?_ hdrops
    have hfade := @sparkleFade_le (step.params .width) spd hspd
    unfold reapLimit
    omega
  rw [if_neg hsparkle] at hdrops
  by_cases hcount : topo.index.count = 0
  · rw [if_pos hcount] at hdrops
    cases hdrops
  rw [if_neg hcount] at hdrops
  rw [if_neg (not_or.mpr ⟨hsparkle, hcount⟩)] at h
  generalize scaledDropMs (if step.speedMs = 0 then rainDefaultFallMs else step.speedMs.toNat) spd =
    fallMs at h hdrops
  split_ifs at h hdrops
  · exact matrixLineDrops_inTime hinterval h hdrops
  · exact matrixPathDrops_inTime hinterval h hdrops
  · exact geometricRainDrops_inTime hinterval h hdrops
  · exact topologyRainDrops_inTime hinterval h hdrops

end Lightnet
