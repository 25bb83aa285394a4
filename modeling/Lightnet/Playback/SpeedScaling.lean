import Lightnet.Playback.LayerFrames
import Lightnet.Scene.Parser
import Mathlib.Data.List.GetD

/-!
# The speed of a scene

Playing a scene at a speed is playing the scene with scaled durations at speed one, up to the times
at which wheels are stopped: a wheel's duration is scaled when it is sent to the panels and scaled
again for the time of the stop.
-/

namespace Lightnet

def scaledTicks (s : ℚ) (durationMs : Ticks) : Ticks := BitVec.ofNat 16 ⌊durationMs.toNat / s⌋.toNat

def SceneStep.scaled (s : ℚ) (step : SceneStep) : SceneStep :=
  { step with durationMs := scaledTicks s step.durationMs }

def SceneLayer.scaled (s : ℚ) (layer : SceneLayer) : SceneLayer :=
  { layer with steps := layer.steps.map (·.scaled s) }

/-- The duration is scaled without leaving its range. -/
def SceneStep.InRange (s : ℚ) (step : SceneStep) : Prop :=
  step.durationMs ≠ 0 → 1 ≤ ⌊step.durationMs.toNat / s⌋ ∧ ⌊step.durationMs.toNat / s⌋ ≤ 65535

/-- Dividing in single precision does not cross a millisecond. -/
def SceneStep.RoundsDown (s : ℚ) (step : SceneStep) : Prop :=
  step.durationMs ≠ 0 → s ≠ 1 →
    Single.toNat (Single.div step.durationMs.toNat s) = ⌊step.durationMs.toNat / s⌋.toNat

def SceneStep.Scales (s : ℚ) (step : SceneStep) : Prop := step.InRange s ∧ step.RoundsDown s

namespace ScenePlayer

/-- The player of the scaled scene at speed one, with its own times for stopping wheels. -/
def atSpeedOne (s : ℚ) (stops : ℕ → Millis) (a : ScenePlayer) : ScenePlayer :=
  { a with
    layers := fun i => if i < a.lCount then (a.layers i).scaled s else a.layers i
    speed := 1
    spawnState := fun i => { a.spawnState i with wheelStopAtMs := stops i } }

structure Scalable (s : ℚ) (a : ScenePlayer) : Prop where
  speed : a.speed = s
  scales : ∀ i < a.lCount, ∀ step ∈ (a.layers i).steps, step.Scales s
  plain : ∀ i < a.lCount, ∀ step ∈ (a.layers i).steps, isParticleRunner step.animType = false

theorem Scalable.plays {s : ℚ} {a b : ScenePlayer} (h : Scalable s a) (hp : Plays a b) :
    Scalable s b where
  speed := hp.speed.trans h.speed
  scales := by
    rw [hp.lCount, hp.layers]
    exact h.scales
  plain := by
    rw [hp.lCount, hp.layers]
    exact h.plain

namespace Scalable

variable {s : ℚ} {a : ScenePlayer} {i : ℕ}

theorem step_scales (h : Scalable s a) (hi : i < a.lCount) : (a.step i).Scales s := by
  rcases a.step_mem_or i with hmem | hzero
  · exact h.scales i hi _ hmem
  · rw [hzero]
    exact ⟨fun hne => absurd rfl hne, fun hne => absurd rfl hne⟩

theorem step_plain (h : Scalable s a) (hi : i < a.lCount) :
    isParticleRunner (a.step i).animType = false := by
  rcases a.step_mem_or i with hmem | hzero
  · exact h.plain i hi _ hmem
  · rw [hzero]
    rfl

end Scalable

section

variable (s : ℚ) (stops : ℕ → Millis) (a : ScenePlayer) (i : ℕ)

theorem atSpeedOne_layers (hi : i < a.lCount) :
    (atSpeedOne s stops a).layers i = (a.layers i).scaled s := if_pos hi

theorem atSpeedOne_step (hi : i < a.lCount) :
    (atSpeedOne s stops a).step i = (a.step i).scaled s := by
  unfold step
  rw [atSpeedOne_layers s stops a i hi]
  change (List.map _ _).getD (a.currentStep i) _ = _
  rw [List.getD_eq_getElem?_getD, List.getD_eq_getElem?_getD, List.getElem?_map]
  cases (a.layers i).steps[a.currentStep i]? with
  | none =>
      change SceneStep.zero = SceneStep.zero.scaled s
      unfold SceneStep.scaled scaledTicks SceneStep.zero
      simp
  | some step => rfl

/-- What does not depend on the durations of a layer. -/
theorem atSpeedOne_layer {β : Type} (f : SceneLayer → β)
    (hf : ∀ layer : SceneLayer, f (layer.scaled s) = f layer) :
    f ((atSpeedOne s stops a).layers i) = f (a.layers i) := by
  change f (if i < a.lCount then _ else _) = _
  split_ifs
  · exact hf _
  · rfl

theorem atSpeedOne_panels : (atSpeedOne s stops a).panels i = a.panels i :=
  congrArg a.sceneTopo.resolvePanels (atSpeedOne_layer s stops a i SceneLayer.target fun _ => rfl)

theorem atSpeedOne_groupId : ((atSpeedOne s stops a).layers i).groupId = (a.layers i).groupId :=
  atSpeedOne_layer s stops a i SceneLayer.groupId fun _ => rfl

theorem atSpeedOne_runnerStyle (step : SceneStep) :
    (atSpeedOne s stops a).runnerStyle i (step.scaled s) = a.runnerStyle i step := by
  unfold runnerStyle
  rw [atSpeedOne_layer s stops a i SceneLayer.blend fun _ => rfl]
  rfl

theorem atSpeedOne_setSpawn (st : LayerSpawnState) (stop : Millis) :
    (atSpeedOne s stops a).setSpawn i { st with wheelStopAtMs := stop } =
      atSpeedOne s (Function.update stops i stop) (a.setSpawn i st) := by
  unfold setSpawn atSpeedOne
  congr 1
  funext j
  by_cases hj : j = i
  · subst hj
    simp only [Function.update_self]
  · simp only [Function.update_of_ne hj]

theorem atSpeedOne_stopLayerGroup :
    (atSpeedOne s stops a).stopLayerGroup i = atSpeedOne s stops (a.stopLayerGroup i) := by
  unfold stopLayerGroup
  rw [atSpeedOne_panels s stops a i, atSpeedOne_groupId s stops a i]
  split_ifs <;> rfl

theorem atSpeedOne_fireBouncePass (hi : i < a.lCount) (passDurMs : Ticks) :
    (atSpeedOne s stops a).fireBouncePass i passDurMs =
      atSpeedOne s stops (a.fireBouncePass i passDurMs) := by
  unfold fireBouncePass
  rw [atSpeedOne_panels s stops a i, atSpeedOne_groupId s stops a i,
    atSpeedOne_step s stops a i hi]
  simp only [atSpeedOne_runnerStyle s stops a i]
  split_ifs <;> rfl

theorem atSpeedOne_setSpawn_same (st : LayerSpawnState) :
    (atSpeedOne s stops a).setSpawn i { st with wheelStopAtMs := stops i } =
      atSpeedOne s stops (a.setSpawn i st) := by
  rw [atSpeedOne_setSpawn, Function.update_eq_self]

theorem atSpeedOne_setStop (stop stop' : Millis) :
    (atSpeedOne s stops a).setSpawn i
        { (atSpeedOne s stops a).spawnState i with wheelStopAtMs := stop' } =
      atSpeedOne s (Function.update stops i stop')
        (a.setSpawn i { a.spawnState i with wheelStopAtMs := stop }) := by
  rw [← atSpeedOne_setSpawn]
  rfl

theorem atSpeedOne_fireBounceStep (hi : i < a.lCount) (nowMs : Millis) (dur : Ticks) :
    (atSpeedOne s stops a).fireBounceStep i nowMs dur =
      atSpeedOne s stops (a.fireBounceStep i nowMs dur) := by
  unfold fireBounceStep
  rw [← atSpeedOne_fireBouncePass s stops (a.setSpawn i _) i hi, ← atSpeedOne_setSpawn_same]
  rfl

theorem atSpeedOne_nextLeg (hi : i < a.lCount) :
    (atSpeedOne s stops a).nextLeg i = atSpeedOne s stops (a.nextLeg i) := by
  let flipped : ScenePlayer :=
    { a with bouncePhase := Function.update a.bouncePhase i !(a.bouncePhase i) }
  have hpass := atSpeedOne_fireBouncePass s stops flipped i hi (a.spawnState i).bouncePassDur
  change (((atSpeedOne s stops flipped).fireBouncePass i (a.spawnState i).bouncePassDur).setSpawn i
    { { a.spawnState i with
        bounceNextFlipAtMs := (a.spawnState i).bounceNextFlipAtMs +
          (a.spawnState i).bouncePassDur.setWidth 32 } with wheelStopAtMs := stops i }) = _
  rw [hpass, atSpeedOne_setSpawn_same]
  rfl

theorem atSpeedOne_flipBounce (nowMs : Millis) (n : ℕ) (a : ScenePlayer) (hi : i < a.lCount) :
    flipBounce i nowMs n (atSpeedOne s stops a) = atSpeedOne s stops (flipBounce i nowMs n a) := by
  induction n generalizing a with
  | zero => rfl
  | succ n ih =>
      rw [flipBounce, flipBounce]
      change (if (a.spawnState i).bounceNextFlipAtMs ≠ 0 ∧
        (a.spawnState i).bounceNextFlipAtMs ≤ nowMs then _ else _) = _
      split_ifs
      · rw [atSpeedOne_nextLeg s stops a i hi, ih]
        rw [(fires_nextLeg a i).lCount]
        exact hi
      · rfl

theorem atSpeedOne_launchSweep (hi : i < a.lCount) (count : ℕ) :
    (atSpeedOne s stops a).launchSweep i count = atSpeedOne s stops (a.launchSweep i count) := by
  unfold launchSweep
  rw [atSpeedOne_step s stops a i hi]
  simp only [atSpeedOne_runnerStyle s stops a i]
  rw [← atSpeedOne_setSpawn_same]
  rfl

theorem atSpeedOne_launchSweeps (nowMs : Millis) (count n : ℕ) (a : ScenePlayer)
    (hi : i < a.lCount) :
    launchSweeps i nowMs count n (atSpeedOne s stops a) =
      atSpeedOne s stops (launchSweeps i nowMs count n a) := by
  induction n generalizing a with
  | zero => rfl
  | succ n ih =>
      rw [launchSweeps, launchSweeps]
      change (if (a.spawnState i).sweepSpawnIndex < count ∧ (a.spawnState i).nextSpawnMs ≤ nowMs
        then _ else _) = _
      split_ifs
      · rw [atSpeedOne_launchSweep s stops a i hi, ih]
        rw [(fires_launchSweep a i count).lCount]
        exact hi
      · rfl

theorem atSpeedOne_serviceSweepSpawner (hi : i < a.lCount) (nowMs : Millis) :
    (atSpeedOne s stops a).serviceSweepSpawner i nowMs =
      atSpeedOne s stops (a.serviceSweepSpawner i nowMs) := by
  unfold serviceSweepSpawner
  rw [atSpeedOne_step s stops a i hi]
  change (if (a.spawnState i).sweepPanels = [] ∨ (a.spawnState i).sweepDurationMs = 0 then _
    else launchSweeps i nowMs (sweepSpawnCount ((a.step i).params .count))
      (sweepSpawnCount ((a.step i).params .count)) (atSpeedOne s stops a)) = _
  rw [atSpeedOne_launchSweeps s stops i nowMs _ _ a hi]
  dsimp only
  split_ifs <;> rfl

theorem atSpeedOne_fireSweepStep (hi : i < a.lCount) (nowMs : Millis) (panels : List ℕ)
    (dur : Ticks) :
    (atSpeedOne s stops a).fireSweepStep i nowMs panels dur =
      atSpeedOne s stops (a.fireSweepStep i nowMs panels dur) := by
  unfold fireSweepStep
  rw [atSpeedOne_step s stops a i hi,
    ← atSpeedOne_serviceSweepSpawner s stops (a.setSpawn i _) i hi, ← atSpeedOne_setSpawn_same]
  rfl

theorem atSpeedOne_wheelTurns (hi : i < a.lCount) (panels : List ℕ) :
    (atSpeedOne s stops a).wheelTurns i panels = a.wheelTurns i panels := by
  unfold wheelTurns
  rw [atSpeedOne_step s stops a i hi]
  rfl

theorem atSpeedOne_startWheel (hi : i < a.lCount) (nowMs : Millis) (panels : List ℕ) (dur : Ticks)
    (turns : List ℚ) : ∃ stops',
    (atSpeedOne s stops a).startWheel i nowMs panels dur turns =
      atSpeedOne s stops' (a.startWheel i nowMs panels dur turns) := by
  unfold startWheel
  rw [atSpeedOne_step s stops a i hi, atSpeedOne_groupId s stops a i]
  simp only [atSpeedOne_runnerStyle s stops a i]
  exact ⟨_, atSpeedOne_setStop s stops (a.emit _) i _ _⟩

theorem atSpeedOne_fireWheelStep (hi : i < a.lCount) (nowMs : Millis) (panels : List ℕ)
    (dur : Ticks) : ∃ stops',
    (atSpeedOne s stops a).fireWheelStep i nowMs panels dur =
      atSpeedOne s stops' (a.fireWheelStep i nowMs panels dur) := by
  unfold fireWheelStep
  rw [atSpeedOne_wheelTurns s stops a i hi]
  split
  · exact ⟨stops, rfl⟩
  · exact atSpeedOne_startWheel s stops a i hi nowMs panels dur _

theorem atSpeedOne_fireLocalAnimStep (hi : i < a.lCount) (panels : List ℕ) (dur : Ticks) :
    (atSpeedOne s stops a).fireLocalAnimStep i panels dur =
      atSpeedOne s stops (a.fireLocalAnimStep i panels dur) := by
  unfold fireLocalAnimStep
  rw [atSpeedOne_step s stops a i hi, atSpeedOne_layers s stops a i hi]
  rfl

end

/-! ### Durations -/

theorem scaledTicks_one (d : Ticks) : scaledTicks 1 d = d := by
  unfold scaledTicks
  rw [div_one, Int.floor_natCast, Int.toNat_natCast]
  rw [BitVec.ofNat_toNat, BitVec.setWidth_eq]

theorem scaledTicks_zero (s : ℚ) : scaledTicks s 0 = 0 := by
  unfold scaledTicks
  simp

theorem toNat_scaledTicks {s : ℚ} {step : SceneStep} (h : step.Scales s)
    (hne : step.durationMs ≠ 0) :
    (scaledTicks s step.durationMs).toNat = ⌊step.durationMs.toNat / s⌋.toNat := by
  obtain ⟨hpos, hle⟩ := h.1 hne
  unfold scaledTicks
  rw [BitVec.toNat_ofNat, Nat.mod_eq_of_lt]
  omega

theorem scaled_durationMs_eq_zero {s : ℚ} {step : SceneStep} (h : step.Scales s) :
    (step.scaled s).durationMs = 0 ↔ step.durationMs = 0 := by
  constructor
  · intro hzero
    by_contra hne
    have htoNat := toNat_scaledTicks h hne
    have hpos := (h.1 hne).1
    change scaledTicks s step.durationMs = 0 at hzero
    rw [hzero] at htoNat
    change 0 = _ at htoNat
    omega
  · intro hzero
    change scaledTicks s step.durationMs = 0
    rw [hzero, scaledTicks_zero]

theorem atSpeedOne_effectiveDurationMs {s : ℚ} (stops : ℕ → Millis) {a : ScenePlayer}
    (hs : a.speed = s) {step : SceneStep} (h : step.Scales s) :
    (atSpeedOne s stops a).effectiveDurationMs (step.scaled s).durationMs =
      a.effectiveDurationMs step.durationMs := by
  have hleft : (atSpeedOne s stops a).effectiveDurationMs (step.scaled s).durationMs =
      scaledTicks s step.durationMs := if_pos (Or.inr rfl)
  rw [hleft, effectiveDurationMs, hs]
  by_cases hzero : step.durationMs = 0
  · rw [if_pos (Or.inl hzero), hzero, scaledTicks_zero]
  · by_cases hone : s = 1
    · rw [if_pos (Or.inr hone), hone, scaledTicks_one]
    · obtain ⟨hpos, hle⟩ := h.1 hzero
      rw [if_neg (not_or.mpr ⟨hzero, hone⟩), h.2 hzero hone, min_eq_right (by omega)]
      rfl

theorem atSpeedOne_scaledDurationMs {s : ℚ} (stops : ℕ → Millis) {a : ScenePlayer}
    (hs : a.speed = s) {step : SceneStep} (h : step.Scales s) (hne : step.durationMs ≠ 0) :
    (atSpeedOne s stops a).scaledDurationMs (step.scaled s).durationMs =
      a.scaledDurationMs step.durationMs := by
  have hleft : (atSpeedOne s stops a).scaledDurationMs (step.scaled s).durationMs =
      (scaledTicks s step.durationMs).setWidth 32 := if_pos rfl
  rw [hleft, scaledDurationMs, hs]
  by_cases hone : s = 1
  · rw [if_pos hone, hone, scaledTicks_one]
  · rw [if_neg hone, h.2 hne hone]
    apply BitVec.eq_of_toNat_eq
    rw [BitVec.toNat_setWidth, toNat_scaledTicks h hne, BitVec.toNat_ofNat]

/-! ### Steps -/

section

variable {s : ℚ} (stops : ℕ → Millis) {a : ScenePlayer} {i : ℕ}

theorem atSpeedOne_fireStep (h : Scalable s a) (hi : i < a.lCount) (nowMs : Millis) :
    ∃ stops', (atSpeedOne s stops a).fireStep i nowMs = atSpeedOne s stops' (a.fireStep i nowMs) := by
  unfold fireStep
  rw [atSpeedOne_step s stops a i hi, atSpeedOne_panels s stops a i]
  dsimp only
  rw [atSpeedOne_effectiveDurationMs stops h.speed (h.step_scales hi)]
  change ∃ stops', (if (a.step i).animType = .gap then _ else if a.panels i = [] then _
    else if isRunnerType (a.step i).animType then
      if isParticleRunner (a.step i).animType then _
      else if a.effectiveDurationMs (a.step i).durationMs = 0 then _
      else if (a.step i).animType = .bounce then _
      else if (a.step i).animType = .wheel then _ else _
    else _) = atSpeedOne s stops' _
  split_ifs with hgap hpanels hrunner hparticle hzero hbounce hwheel
  · exact ⟨stops, atSpeedOne_stopLayerGroup s stops a i⟩
  · exact ⟨stops, rfl⟩
  · rw [h.step_plain hi] at hparticle
    cases hparticle
  · exact ⟨stops, rfl⟩
  · exact ⟨stops, atSpeedOne_fireBounceStep s stops a i hi nowMs _⟩
  · exact atSpeedOne_fireWheelStep s stops a i hi nowMs _ _
  · exact ⟨stops, atSpeedOne_fireSweepStep s stops a i hi nowMs _ _⟩
  · exact ⟨stops, atSpeedOne_fireLocalAnimStep s stops a i hi _ _⟩

theorem atSpeedOne_enterStep (h : Scalable s a) (hi : i < a.lCount) (k : ℕ) (nowMs : Millis) :
    ∃ stops', (atSpeedOne s stops a).enterStep i k nowMs =
      atSpeedOne s stops' (a.enterStep i k nowMs) := by
  let entered : ScenePlayer := { a with
    currentStep := Function.update a.currentStep i k
    stepStartMs := Function.update a.stepStartMs i nowMs }
  have hentered : Scalable s entered := h.plays ⟨rfl, List.prefix_rfl⟩
  exact atSpeedOne_fireStep stops hentered hi nowMs

theorem atSpeedOne_serviceSpawner (h : Scalable s a) (hi : i < a.lCount)
    (hspawner : isSpawner (a.step i).animType = true) (nowMs : Millis) :
    (atSpeedOne s stops a).serviceSpawner i nowMs = atSpeedOne s stops (a.serviceSpawner i nowMs) := by
  have hsweep : isSweepRunner (a.step i).animType = true := by
    unfold isSpawner at hspawner
    rw [h.step_plain hi] at hspawner
    exact hspawner
  unfold serviceSpawner
  rw [atSpeedOne_step s stops a i hi]
  change (if (a.spawnState i).poolSize = 0 then _
    else if isSweepRunner (a.step i).animType then _ else _) = _
  rw [if_pos hsweep, if_pos hsweep, atSpeedOne_serviceSweepSpawner s stops a i hi]
  split_ifs <;> rfl

end

/-! ### Stopping wheels -/

/-- The stop of a wheel is due. -/
def WheelDue (p : ScenePlayer) (i : ℕ) (nowMs : Millis) : Prop :=
  (p.spawnState i).wheelStopAtMs ≠ 0 ∧ (p.spawnState i).wheelStopAtMs ≤ nowMs

instance (p : ScenePlayer) (i : ℕ) (nowMs : Millis) : Decidable (p.WheelDue i nowMs) :=
  inferInstanceAs (Decidable (_ ∧ _))

/-- A step of the layer lasts on, and is a wheel. -/
def WheelLasts (p : ScenePlayer) (i : ℕ) (nowMs : Millis) : Prop :=
  p.layerState i = .running ∧ (p.step i).animType = .wheel ∧ (p.step i).durationMs ≠ 0 ∧
    nowMs - p.stepStartMs i < p.threshold i

instance (p : ScenePlayer) (i : ℕ) (nowMs : Millis) : Decidable (p.WheelLasts i nowMs) :=
  inferInstanceAs (Decidable (_ ∧ _ ∧ _ ∧ _))

/-- Wheels are stopped at the same turns of their layers. -/
def WheelsAgree (a b : ScenePlayer) (nowMs : Millis) : Prop :=
  ∀ i < a.lCount, a.WheelLasts i nowMs → (a.WheelDue i nowMs ↔ b.WheelDue i nowMs)

instance (a b : ScenePlayer) (nowMs : Millis) : Decidable (WheelsAgree a b nowMs) :=
  inferInstanceAs (Decidable (∀ i < a.lCount, _ → _))

theorem Plays.threshold {p q : ScenePlayer} (h : Plays p q) {i : ℕ}
    (hrun : q.currentStep i = p.currentStep i) : q.step i = p.step i ∧ q.threshold i = p.threshold i := by
  have hstep : q.step i = p.step i := by
    unfold step
    rw [h.layers, hrun]
  refine ⟨hstep, ?_⟩
  unfold ScenePlayer.threshold scaledDurationMs
  rw [hstep, h.speed]

theorem wheelLasts_congr {p q : ScenePlayer} (h : Plays p q) {i : ℕ}
    (hrun : q.layerRun i = p.layerRun i) (nowMs : Millis) :
    (q.WheelLasts i nowMs ↔ p.WheelLasts i nowMs) ∧ (q.WheelDue i nowMs ↔ p.WheelDue i nowMs) := by
  unfold layerRun at hrun
  simp only [Prod.mk.injEq] at hrun
  obtain ⟨hcurrent, hstart, hstate, -, -, hspawn⟩ := hrun
  obtain ⟨hstep, hthreshold⟩ := h.threshold hcurrent
  unfold WheelLasts WheelDue
  rw [hstep, hthreshold, hstart, hstate, hspawn]
  exact ⟨Iff.rfl, Iff.rfl⟩

section

variable {s : ℚ} (stops : ℕ → Millis) {a : ScenePlayer} {i : ℕ}

theorem atSpeedOne_serviceStep (h : Scalable s a) (hi : i < a.lCount) (nowMs : Millis)
    (hwheel : (a.step i).animType = .wheel →
      (a.WheelDue i nowMs ↔ (atSpeedOne s stops a).WheelDue i nowMs)) :
    ∃ stops', (atSpeedOne s stops a).serviceStep i nowMs =
      atSpeedOne s stops' (a.serviceStep i nowMs) := by
  unfold serviceStep
  rw [atSpeedOne_step s stops a i hi]
  change ∃ stops', (if (a.step i).animType = .wheel then _
    else if (a.step i).animType = .bounce then _
    else if isSpawner (a.step i).animType then _ else _) = atSpeedOne s stops' _
  split_ifs with hkind hbounce hspawner
  · by_cases hdue : a.WheelDue i nowMs
    · have hdue' := (hwheel hkind).mp hdue
      refine ⟨Function.update stops i 0, ?_⟩
      change (if (atSpeedOne s stops a).WheelDue i nowMs then _ else _) =
        atSpeedOne s _ (if a.WheelDue i nowMs then _ else _)
      rw [if_pos hdue, if_pos hdue', ← atSpeedOne_stopLayerGroup]
      exact congrArg (fun p => ScenePlayer.stopLayerGroup p i)
        (atSpeedOne_setStop s stops a i _ _)
    · have hdue' := mt (hwheel hkind).mpr hdue
      refine ⟨stops, ?_⟩
      change (if (atSpeedOne s stops a).WheelDue i nowMs then _ else _) =
        atSpeedOne s _ (if a.WheelDue i nowMs then _ else _)
      rw [if_neg hdue, if_neg hdue']
  · exact ⟨stops, atSpeedOne_flipBounce s stops i nowMs _ a hi⟩
  · exact ⟨stops, atSpeedOne_serviceSpawner stops h hi hspawner nowMs⟩
  · exact ⟨stops, rfl⟩

theorem atSpeedOne_advanceLayer (h : Scalable s a) (hi : i < a.lCount) (nowMs : Millis) :
    ∃ stops', (atSpeedOne s stops a).advanceLayer i nowMs =
      atSpeedOne s stops' (a.advanceLayer i nowMs) := by
  unfold advanceLayer
  rw [atSpeedOne_layer s stops a i (fun layer => layer.steps.length) fun _ => List.length_map _,
    atSpeedOne_layer s stops a i SceneLayer.isAsyncLayer fun _ => rfl]
  change ∃ stops', (if a.currentStep i + 1 < _ then _ else _) = atSpeedOne s stops' _
  split_ifs
  · exact atSpeedOne_enterStep stops h hi _ nowMs
  · exact atSpeedOne_enterStep stops h hi 0 nowMs
  · exact ⟨stops, rfl⟩

theorem atSpeedOne_tickLayer (h : Scalable s a) (hi : i < a.lCount) (nowMs : Millis)
    (hwheel : a.WheelLasts i nowMs →
      (a.WheelDue i nowMs ↔ (atSpeedOne s stops a).WheelDue i nowMs)) :
    ∃ stops', tickLayer nowMs (atSpeedOne s stops a) i =
      atSpeedOne s stops' (tickLayer nowMs a i) := by
  have hscales := h.step_scales hi
  unfold tickLayer threshold
  rw [atSpeedOne_step s stops a i hi]
  change ∃ stops', (if a.layerState i ≠ .running then _
    else if (a.step i |>.scaled s).durationMs = 0 then
      if isSpawner (a.step i).animType then _ else _
    else if nowMs - a.stepStartMs i < _ then _ else _) = atSpeedOne s stops' _
  by_cases hrunning : a.layerState i = .running
  · rw [if_neg (not_not.mpr hrunning), if_neg (not_not.mpr hrunning)]
    by_cases hzero : (a.step i).durationMs = 0
    · rw [if_pos hzero, if_pos ((scaled_durationMs_eq_zero hscales).mpr hzero)]
      split_ifs with hspawner
      · exact ⟨stops, atSpeedOne_serviceSpawner stops h hi hspawner nowMs⟩
      · exact ⟨stops, rfl⟩
    · rw [if_neg hzero, if_neg (mt (scaled_durationMs_eq_zero hscales).mp hzero),
        atSpeedOne_scaledDurationMs stops h.speed hscales hzero]
      split_ifs with hlasts
      · exact atSpeedOne_serviceStep stops h hi nowMs
          fun hkind => hwheel ⟨hrunning, hkind, hzero, hlasts⟩
      · exact atSpeedOne_advanceLayer stops h hi nowMs
  · rw [if_pos hrunning, if_pos hrunning]
    exact ⟨stops, rfl⟩

theorem atSpeedOne_tickLayers {l : List ℕ} (hl : l.Nodup) {a : ScenePlayer} (stops : ℕ → Millis)
    (h : Scalable s a) (hi : ∀ i ∈ l, i < a.lCount) (nowMs : Millis)
    (hwheel : ∀ i ∈ l, a.WheelLasts i nowMs →
      (a.WheelDue i nowMs ↔ (atSpeedOne s stops a).WheelDue i nowMs)) :
    ∃ stops', l.foldl (tickLayer nowMs) (atSpeedOne s stops a) =
      atSpeedOne s stops' (l.foldl (tickLayer nowMs) a) := by
  induction l generalizing a stops with
  | nil => exact ⟨stops, rfl⟩
  | cons i l ih =>
      obtain ⟨hnot, hnodup⟩ := List.nodup_cons.mp hl
      obtain ⟨stops', hturn⟩ := atSpeedOne_tickLayer stops h (hi i List.mem_cons_self) nowMs
        (hwheel i List.mem_cons_self)
      have htouch := touches_tickLayer a i nowMs
      have htouch' := touches_tickLayer (atSpeedOne s stops a) i nowMs
      rw [List.foldl_cons, List.foldl_cons, hturn]
      apply ih hnodup stops' (h.plays htouch.plays)
      · intro j hj
        rw [htouch.plays.lCount]
        exact hi j (List.mem_cons_of_mem i hj)
      · intro j hj hlasts
        have hne : j ≠ i := fun heq => hnot (heq ▸ hj)
        obtain ⟨hlasts', hdue⟩ := wheelLasts_congr htouch.plays (htouch.other j hne) nowMs
        obtain ⟨-, hdue'⟩ := wheelLasts_congr htouch'.plays (htouch'.other j hne) nowMs
        rw [← hturn, hdue, hdue']
        exact hwheel j (List.mem_cons_of_mem i hj) (hlasts'.mp hlasts)

/-! ### Ticks -/

theorem atSpeedOne_isReady (stops : ℕ → Millis) (a : ScenePlayer) (i : ℕ) :
    (atSpeedOne s stops a).isReady i = a.isReady i := by
  have hindex : (atSpeedOne s stops a).layerIndexForGroup = a.layerIndexForGroup := by
    funext g
    unfold layerIndexForGroup
    simp only [atSpeedOne_groupId s stops a]
    rfl
  unfold isReady
  rw [hindex, atSpeedOne_layer s stops a i SceneLayer.startAfterGroupId fun _ => rfl,
    atSpeedOne_layer s stops a i SceneLayer.startAfterStepIndex fun _ => rfl]
  rfl

theorem atSpeedOne_promoteLayer (h : Scalable s a) (hi : i < a.lCount) (nowMs : Millis) :
    ∃ stops', promoteLayer nowMs (atSpeedOne s stops a) i =
      atSpeedOne s stops' (promoteLayer nowMs a i) := by
  unfold promoteLayer
  rw [atSpeedOne_isReady]
  change ∃ stops', (if a.layerState i = .waiting ∧ a.isReady i then _ else _) =
    atSpeedOne s stops' _
  split_ifs
  · let promoted : ScenePlayer :=
      { a with layerState := Function.update a.layerState i .running }
    have hpromoted : Scalable s promoted := h.plays ⟨rfl, List.prefix_rfl⟩
    exact atSpeedOne_enterStep stops hpromoted hi 0 nowMs
  · exact ⟨stops, rfl⟩

theorem atSpeedOne_fireArmed (h : Scalable s a) (hi : i < a.lCount) (nowMs : Millis)
    (includeAsync : Bool) :
    ∃ stops', fireArmed nowMs includeAsync (atSpeedOne s stops a) i =
      atSpeedOne s stops' (fireArmed nowMs includeAsync a i) := by
  unfold fireArmed isArmed
  rw [atSpeedOne_layer s stops a i SceneLayer.isAsyncLayer fun _ => rfl]
  change ∃ stops', (if (a.isArmed includeAsync i) ∧ a.layerState i = .running then _ else _) =
    atSpeedOne s stops' (if (a.isArmed includeAsync i) ∧ a.layerState i = .running then _ else _)
  split_ifs
  · exact atSpeedOne_fireStep stops h hi nowMs
  · exact ⟨stops, rfl⟩

theorem atSpeedOne_restartReclaimsLayerSlot (stops : ℕ → Millis) (a : ScenePlayer) (i : ℕ) :
    (atSpeedOne s stops a).restartReclaimsLayerSlot i = a.restartReclaimsLayerSlot i := by
  refine atSpeedOne_layer s stops a i SceneLayer.reclaimsSlot fun layer => ?_
  have hsteps : (layer.scaled s).steps = layer.steps.map (·.scaled s) := rfl
  unfold SceneLayer.reclaimsSlot
  rw [hsteps]
  cases layer.steps with
  | nil => rfl
  | cons first rest =>
      have hrest : (rest.map (·.scaled s)).any stepUsesLayerGroup = rest.any stepUsesLayerGroup := by
        rw [List.any_map]
        rfl
      rw [List.map_cons]
      dsimp only
      rw [hrest]
      rfl

theorem atSpeedOne_flushStop (restarting : Bool) (stops : ℕ → Millis) (a : ScenePlayer) (i : ℕ) :
    flushStop restarting (atSpeedOne s stops a) i =
      atSpeedOne s stops (flushStop restarting a i) := by
  let flushed : ScenePlayer := { a with pendingStop := Function.update a.pendingStop i false }
  change (if a.pendingStop i then
    if restarting ∧ (atSpeedOne s stops flushed).restartReclaimsLayerSlot i then
      atSpeedOne s stops flushed else (atSpeedOne s stops flushed).stopLayerGroup i
    else atSpeedOne s stops a) = atSpeedOne s stops (if a.pendingStop i then
      if restarting ∧ flushed.restartReclaimsLayerSlot i then flushed
      else flushed.stopLayerGroup i else a)
  rw [atSpeedOne_restartReclaimsLayerSlot, atSpeedOne_stopLayerGroup]
  split_ifs <;> rfl

/-- Turns of layers one after the other. -/
theorem atSpeedOne_foldl {f : ScenePlayer → ℕ → ScenePlayer} (hplays : ∀ p i, Plays p (f p i))
    (hf : ∀ (stops : ℕ → Millis) (a : ScenePlayer) (i : ℕ), Scalable s a → i < a.lCount →
      ∃ stops', f (atSpeedOne s stops a) i = atSpeedOne s stops' (f a i))
    (l : List ℕ) (stops : ℕ → Millis) {a : ScenePlayer} (h : Scalable s a)
    (hi : ∀ i ∈ l, i < a.lCount) :
    ∃ stops', l.foldl f (atSpeedOne s stops a) = atSpeedOne s stops' (l.foldl f a) := by
  induction l generalizing a stops with
  | nil => exact ⟨stops, rfl⟩
  | cons i l ih =>
      obtain ⟨stops', hturn⟩ := hf stops a i h (hi i List.mem_cons_self)
      rw [List.foldl_cons, List.foldl_cons, hturn]
      apply ih stops' (h.plays (hplays a i))
      intro j hj
      rw [(hplays a i).lCount]
      exact hi j (List.mem_cons_of_mem i hj)

theorem atSpeedOne_promoteReadyLayers (h : Scalable s a) (nowMs : Millis) :
    ∃ stops', (atSpeedOne s stops a).promoteReadyLayers nowMs =
      atSpeedOne s stops' (a.promoteReadyLayers nowMs) :=
  atSpeedOne_foldl (fun p i => (touches_promoteLayer p i nowMs).plays)
    (fun stops _ _ h hi => atSpeedOne_promoteLayer stops h hi nowMs) _ stops h
    (fun _ hi => List.mem_range.mp hi)

theorem armedState_scaled (layer : SceneLayer) : armedState (layer.scaled s) = armedState layer := by
  have hsteps : (layer.scaled s).steps = [] ↔ layer.steps = [] := List.map_eq_nil_iff
  unfold armedState
  simp only [hsteps]
  rfl

theorem atSpeedOne_armLayers (h : Scalable s a) (nowMs : Millis) (includeAsync : Bool) :
    ∃ stops', (atSpeedOne s stops a).armLayers nowMs includeAsync =
      atSpeedOne s stops' (a.armLayers nowMs includeAsync) := by
  let armed : ScenePlayer := { a with
    currentStep := fun i => if a.isArmed includeAsync i then 0 else a.currentStep i
    stepStartMs := fun i => if a.isArmed includeAsync i then nowMs else a.stepStartMs i
    layerState := fun i =>
      if a.isArmed includeAsync i then armedState (a.layers i) else a.layerState i }
  have hisArmed : (atSpeedOne s stops a).isArmed includeAsync = a.isArmed includeAsync := by
    funext i
    unfold isArmed
    rw [atSpeedOne_layer s stops a i SceneLayer.isAsyncLayer fun _ => rfl]
    rfl
  have hstate : ∀ i, armedState ((atSpeedOne s stops a).layers i) = armedState (a.layers i) :=
    fun i => atSpeedOne_layer s stops a i armedState armedState_scaled
  have harmed : Scalable s armed := h.plays ⟨rfl, List.prefix_rfl⟩
  unfold armLayers
  rw [hisArmed]
  simp only [hstate]
  exact atSpeedOne_foldl (fun p i => (touches_fireArmed p i nowMs includeAsync).plays)
    (fun stops _ _ h hi => atSpeedOne_fireArmed stops h hi nowMs includeAsync) _ stops harmed
    (fun _ hi => List.mem_range.mp hi)

theorem atSpeedOne_flushPendingStops (restarting : Bool) (l : List ℕ) (stops : ℕ → Millis)
    (a : ScenePlayer) :
    l.foldl (flushStop restarting) (atSpeedOne s stops a) =
      atSpeedOne s stops (l.foldl (flushStop restarting) a) := by
  induction l generalizing a with
  | nil => rfl
  | cons i l ih => rw [List.foldl_cons, List.foldl_cons, atSpeedOne_flushStop, ih]

theorem atSpeedOne_syncLayers (stops : ℕ → Millis) (a : ScenePlayer) :
    (atSpeedOne s stops a).syncLayers = a.syncLayers := by
  have hsync : ∀ i, (!((atSpeedOne s stops a).layers i).disabled &&
      !((atSpeedOne s stops a).layers i).isAsyncLayer) =
      (!(a.layers i).disabled && !(a.layers i).isAsyncLayer) :=
    fun i => atSpeedOne_layer s stops a i (fun layer => !layer.disabled && !layer.isAsyncLayer)
      fun _ => rfl
  unfold syncLayers
  simp only [hsync]
  rfl

theorem atSpeedOne_anyBlockingAsync (stops : ℕ → Millis) (a : ScenePlayer) :
    (atSpeedOne s stops a).anyBlockingAsync = a.anyBlockingAsync := by
  have hblocking : ∀ i, (!((atSpeedOne s stops a).layers i).disabled &&
      ((atSpeedOne s stops a).layers i).isAsyncLayer &&
      decide (((atSpeedOne s stops a).layers i).async &&& layerAsyncNonBlocking = 0)) =
      (!(a.layers i).disabled && (a.layers i).isAsyncLayer &&
        decide ((a.layers i).async &&& layerAsyncNonBlocking = 0)) :=
    fun i => atSpeedOne_layer s stops a i (fun layer => !layer.disabled && layer.isAsyncLayer &&
      decide (layer.async &&& layerAsyncNonBlocking = 0)) fun _ => rfl
  unfold anyBlockingAsync
  simp only [hblocking]
  rfl

theorem atSpeedOne_endTick (h : Scalable s a) (nowMs : Millis) :
    ∃ stops', (atSpeedOne s stops a).endTick nowMs = atSpeedOne s stops' (a.endTick nowMs) := by
  have hdone : (atSpeedOne s stops a).allSyncDone = a.allSyncDone := by
    unfold allSyncDone
    rw [atSpeedOne_syncLayers]
    rfl
  have hflush : ∀ restarting, (atSpeedOne s stops a).flushPendingStops restarting =
      atSpeedOne s stops (a.flushPendingStops restarting) :=
    fun restarting => atSpeedOne_flushPendingStops restarting _ stops a
  unfold endTick
  rw [atSpeedOne_syncLayers, hdone, atSpeedOne_anyBlockingAsync]
  dsimp only
  rw [hflush]
  change ∃ stops', (if ¬ (a.syncLayers ≠ [] ∧ a.allSyncDone) then _
    else if a.loop then _ else if a.anyBlockingAsync then _ else _) = atSpeedOne s stops' _
  split_ifs
  · exact atSpeedOne_armLayers stops (h.plays (plays_flushPendingStops a _)) nowMs false
  · exact ⟨stops, rfl⟩
  · exact ⟨stops, rfl⟩
  · exact ⟨stops, rfl⟩

theorem atSpeedOne_tick (h : Scalable s a) (nowMs : Millis)
    (hwheels : WheelsAgree a (atSpeedOne s stops a) nowMs) :
    ∃ stops', (atSpeedOne s stops a).tick nowMs = atSpeedOne s stops' (a.tick nowMs) := by
  unfold tick
  change ∃ stops', (if a.playing then _ else _) = atSpeedOne s stops' _
  split_ifs
  · obtain ⟨stops₁, hturns⟩ := atSpeedOne_tickLayers List.nodup_range stops h
      (fun _ hi => List.mem_range.mp hi) nowMs fun i hi => hwheels i (List.mem_range.mp hi)
    have hturnsPlays := foldl_plays (fun q i => touches_tickLayer q i nowMs)
      (List.range a.lCount) a
    obtain ⟨stops₂, hpromote⟩ := atSpeedOne_promoteReadyLayers stops₁ (h.plays hturnsPlays) nowMs
    have hpromotePlays := foldl_plays (fun q i => touches_promoteLayer q i nowMs)
      (List.range ((List.range a.lCount).foldl (tickLayer nowMs) a).lCount)
      ((List.range a.lCount).foldl (tickLayer nowMs) a)
    change ∃ stops', (((List.range a.lCount).foldl (tickLayer nowMs)
      (atSpeedOne s stops a)).promoteReadyLayers nowMs).endTick nowMs = _
    rw [hturns, hpromote]
    exact atSpeedOne_endTick stops₂ (h.plays (hturnsPlays.trans hpromotePlays)) nowMs
  · exact ⟨stops, rfl⟩

end

/-! ### Runs -/

/-- Wheels are stopped at the same turns all along two runs. -/
def WheelsAgreeAlong : ScenePlayer → ScenePlayer → List Millis → Prop
  | _, _, [] => True
  | a, b, t :: times => WheelsAgree a b t ∧ WheelsAgreeAlong (a.tick t) (b.tick t) times

instance decidableWheelsAgreeAlong :
    ∀ (a b : ScenePlayer) (times : List Millis), Decidable (WheelsAgreeAlong a b times)
  | _, _, [] => inferInstanceAs (Decidable True)
  | a, b, t :: times =>
    have := decidableWheelsAgreeAlong (a.tick t) (b.tick t) times
    inferInstanceAs (Decidable (_ ∧ _))

theorem atSpeedOne_run {s : ℚ} (times : List Millis) (stops : ℕ → Millis) {a : ScenePlayer}
    (h : Scalable s a) (hwheels : WheelsAgreeAlong a (atSpeedOne s stops a) times) :
    ∃ stops', (atSpeedOne s stops a).run times = atSpeedOne s stops' (a.run times) := by
  induction times generalizing a stops with
  | nil => exact ⟨stops, rfl⟩
  | cons t times ih =>
      obtain ⟨hnow, hlater⟩ := hwheels
      obtain ⟨stops', htick⟩ := atSpeedOne_tick stops h t hnow
      change ∃ stops', ((atSpeedOne s stops a).tick t).run times =
        atSpeedOne s stops' ((a.tick t).run times)
      rw [htick] at hlater ⊢
      exact ih stops' (h.plays (plays_tick a t)) hlater

/-! ### Loading -/

theorem any_scaled (s : ℚ) (f : AnimationType → Bool) (steps : List SceneStep) :
    (steps.map (·.scaled s)).any (fun step => f step.animType) =
      steps.any fun step => f step.animType := by
  rw [List.any_map]
  rfl

theorem maxSweepCount_scaled (s : ℚ) (layer : SceneLayer) :
    (layer.scaled s).maxSweepCount = layer.maxSweepCount := by
  unfold SceneLayer.maxSweepCount
  refine congrArg (List.foldl max 1) ?_
  change ((layer.steps.map (·.scaled s)).filter _).map _ = _
  rw [List.filter_map, List.map_map]
  rfl

theorem clampPlayerSpeed_of_mem {s : ℚ} (hlow : Single.round (1 / 10) ≤ s) (hhigh : s ≤ 10) :
    clampPlayerSpeed s = s := by
  unfold clampPlayerSpeed
  rw [if_neg hlow.not_gt, if_neg hhigh.not_gt]

/-- The player with the layers of the scaled scene. -/
def withScaledLayers (s : ℚ) (p : ScenePlayer) : ScenePlayer :=
  { p with layers := fun i => if i < p.lCount then (p.layers i).scaled s else p.layers i }

theorem withScaledLayers_layer (s : ℚ) (p : ScenePlayer) (i : ℕ) {β : Type} (f : SceneLayer → β)
    (hf : ∀ layer : SceneLayer, f (layer.scaled s) = f layer) :
    f ((withScaledLayers s p).layers i) = f (p.layers i) := by
  change f (if i < p.lCount then _ else _) = _
  split_ifs
  · exact hf _
  · rfl

theorem withScaledLayers_poolOf (s : ℚ) (p : ScenePlayer) :
    (withScaledLayers s p).poolOf = p.poolOf := by
  refine poolOf_congr rfl (fun i _ => ?_) (fun i _ => ?_) (fun i _ => ?_) fun i _ => ?_
  · exact withScaledLayers_layer s p i SceneLayer.groupId fun _ => rfl
  · exact withScaledLayers_layer s p i SceneLayer.layerIsSpawner
      fun layer => any_scaled s isSpawner layer.steps
  · exact withScaledLayers_layer s p i SceneLayer.layerIsSweepSpawner
      fun layer => any_scaled s isSweepRunner layer.steps
  · exact withScaledLayers_layer s p i SceneLayer.maxSweepCount (maxSweepCount_scaled s)

theorem withScaledLayers_enterScene (env : SceneProviders) (header : Header) (p : ScenePlayer) :
    (withScaledLayers header.speed p).enterScene env { header with speed := 1 } =
      atSpeedOne header.speed (fun _ => 0) (p.enterScene env header) := by
  have hpalettes : (withScaledLayers header.speed p).scenePalettes env { header with speed := 1 } =
      p.scenePalettes env header := by
    funext i
    unfold scenePalettes
    rw [withScaledLayers_layer header.speed p i SceneLayer.palette fun _ => rfl]
    rfl
  have hsent : (withScaledLayers header.speed p).sendPalettesToPanels env
      { header with speed := 1 } = p.sendPalettesToPanels env header := by
    have htarget : ∀ i,
        ((withScaledLayers header.speed p).layers i).target = (p.layers i).target :=
      fun i => withScaledLayers_layer header.speed p i SceneLayer.target fun _ => rfl
    have hdisabled : ∀ i,
        ((withScaledLayers header.speed p).layers i).disabled = (p.layers i).disabled :=
      fun i => withScaledLayers_layer header.speed p i SceneLayer.disabled fun _ => rfl
    unfold sendPalettesToPanels
    simp only [htarget, hdisabled, hpalettes]
    rfl
  have hpool : (fun i => { p.poolOf i with wheelStopAtMs := 0 }) = p.poolOf := by
    funext i
    unfold poolOf
    split_ifs <;> rfl
  have hone : clampPlayerSpeed 1 = 1 := by decide +kernel
  unfold enterScene atSpeedOne
  rw [hpalettes, hsent, withScaledLayers_poolOf, hone, hpool]
  rfl

theorem loadAndPlay_scaled (env : SceneProviders) (header : Header) (p : ScenePlayer)
    (layers : List SceneLayer) (nowMs : Millis)
    (hspeed : Single.round (1 / 10) ≤ header.speed ∧ header.speed ≤ 10)
    (hplain : ∀ layer ∈ layers, ∀ step ∈ layer.steps, isParticleRunner step.animType = false)
    (hscales : ∀ layer ∈ layers, ∀ step ∈ layer.steps, step.Scales header.speed) :
    Scalable header.speed (p.loadAndPlay env layers header nowMs) ∧ ∃ stops,
      p.loadAndPlay env (layers.map (·.scaled header.speed)) { header with speed := 1 } nowMs =
        atSpeedOne header.speed stops (p.loadAndPlay env layers header nowMs) := by
  let count := min layers.length sceneMaxLayers
  let loaded : ScenePlayer := { p with
    lCount := count
    layers := fun i => if i < count then layers.getD i .blank else p.layers i }
  have hlayer : ∀ i < count, loaded.layers i ∈ layers := by
    intro i hi
    have hlt : i < layers.length := lt_of_lt_of_le hi (min_le_left _ _)
    change (if i < count then _ else _) ∈ layers
    rw [if_pos hi, List.getD_eq_getElem _ _ hlt]
    exact List.getElem_mem hlt
  have hscalable : Scalable header.speed (loaded.enterScene env header) := by
    refine ⟨clampPlayerSpeed_of_mem hspeed.1 hspeed.2, fun i hi => ?_, fun i hi => ?_⟩
    · exact hscales _ (hlayer i hi)
    · exact hplain _ (hlayer i hi)
  have hloaded : ({ p with
      lCount := min (layers.map (·.scaled header.speed)).length sceneMaxLayers
      layers := fun i => if i < min (layers.map (·.scaled header.speed)).length sceneMaxLayers then
        (layers.map (·.scaled header.speed)).getD i .blank else p.layers i } : ScenePlayer) =
      withScaledLayers header.speed loaded := by
    rw [List.length_map]
    unfold withScaledLayers
    refine congrArg (fun f => ({ p with lCount := count, layers := f } : ScenePlayer)) ?_
    funext i
    change _ = if i < count then SceneLayer.scaled header.speed (if i < count then _ else _) else
      if i < count then _ else _
    by_cases hi : i < count
    · have hlt : i < layers.length := lt_of_lt_of_le hi (min_le_left _ _)
      have hlt' : i < (layers.map (·.scaled header.speed)).length := by
        rw [List.length_map]
        exact hlt
      rw [if_pos hi, if_pos hi, if_pos hi, List.getD_eq_getElem _ _ hlt',
        List.getD_eq_getElem _ _ hlt, List.getElem_map]
    · rw [if_neg hi, if_neg hi, if_neg hi]
  refine ⟨hscalable.plays (plays_armLayers _ nowMs true), ?_⟩
  unfold loadAndPlay armScene
  rw [hloaded, withScaledLayers_enterScene]
  exact atSpeedOne_armLayers (fun _ => 0) hscalable nowMs true

/-- As long as wheels are stopped at the same turns, a scene at a speed and the scaled scene at
speed one have sent the same after the same ticks. -/
theorem run_scaled_packets (env : SceneProviders) (header : Header) (p : ScenePlayer)
    (layers : List SceneLayer) (startMs : Millis) (times : List Millis)
    (hspeed : Single.round (1 / 10) ≤ header.speed ∧ header.speed ≤ 10)
    (hplain : ∀ layer ∈ layers, ∀ step ∈ layer.steps, isParticleRunner step.animType = false)
    (hrange : ∀ layer ∈ layers, ∀ step ∈ layer.steps, step.InRange header.speed)
    (hrounds : ∀ layer ∈ layers, ∀ step ∈ layer.steps, step.RoundsDown header.speed)
    (hwheels : WheelsAgreeAlong (p.loadAndPlay env layers header startMs)
      (p.loadAndPlay env (layers.map (·.scaled header.speed)) { header with speed := 1 } startMs)
      times) :
    ((p.loadAndPlay env (layers.map (·.scaled header.speed)) { header with speed := 1 }
      startMs).run times).packets = ((p.loadAndPlay env layers header startMs).run times).packets := by
  obtain ⟨hscalable, stops, hload⟩ := loadAndPlay_scaled env header p layers startMs hspeed hplain
    fun layer hlayer step hstep => ⟨hrange layer hlayer step hstep, hrounds layer hlayer step hstep⟩
  rw [hload] at hwheels ⊢
  obtain ⟨stops', hrun⟩ := atSpeedOne_run times stops hscalable hwheels
  rw [hrun]
  rfl

/-- A layer with one wheel, on all panels. -/
def wheelLayer (flags : Byte) (durationMs : Ticks) : SceneLayer :=
  { SceneLayer.blank with
    groupId := 1
    steps := [{ SceneStep.zero with animType := .wheel, flags, durationMs }] }

theorem run_scaled_packets_loop :
    (((init pairScene).loadAndPlay pairProviders [(wheelLayer flagLoop 1000).scaled 2]
      (plainHeader false 1) 0).run [100, 300, 600]).packets =
    (((init pairScene).loadAndPlay pairProviders [wheelLayer flagLoop 1000]
      (plainHeader false 2) 0).run [100, 300, 600]).packets :=
  run_scaled_packets pairProviders (plainHeader false 2) (init pairScene) [wheelLayer flagLoop 1000] 0
    [100, 300, 600] (by decide +kernel) (by decide +kernel)
    (by
      intro layer hlayer step hstep hne
      cases List.mem_singleton.mp hlayer
      cases List.mem_singleton.mp hstep
      decide +kernel)
    (by
      intro layer hlayer step hstep hne hone
      cases List.mem_singleton.mp hlayer
      cases List.mem_singleton.mp hstep
      decide +kernel)
    (by decide +kernel)

/-- A wheel that turns for a second at speed two is stopped after a quarter of a second, the wheel
that turns for half a second at speed one is not. -/
theorem run_scaled_packets_fails : ∃ (json : Text) (r : SceneRecord), parseScene 300 json = .ok r ∧
    (∀ layer ∈ r.layers, ∀ step ∈ layer.steps, isParticleRunner step.animType = false) ∧
    (∀ layer ∈ r.layers, ∀ step ∈ layer.steps, 0 < step.durationMs.toNat ∧
      1 ≤ ⌊step.durationMs.toNat / r.speed⌋ ∧ ⌊step.durationMs.toNat / r.speed⌋ ≤ 65535) ∧
    (((init pairScene).loadAndPlay pairProviders (r.layers.map (·.scaled r.speed))
      (plainHeader r.loop 1) 0).run [300]).packets.length ≠
    (((init pairScene).loadAndPlay pairProviders r.layers
      (plainHeader r.loop r.speed) 0).run [300]).packets.length := by
  refine ⟨bytes "\x7b\"name\":\"w\",\"speed\":2,\"layers\":[\x7b\"group\":1,\"sequence\":" ++
      bytes "[\x7b\"runner\":\"WHEEL\",\"duration\":1000\x7d]\x7d]\x7d",
    { SceneRecord.default with name := bytes "w", speed := 2, layers := [wheelLayer 0 1000] },
    by decide +kernel, by decide +kernel, by decide +kernel, by decide +kernel⟩

end ScenePlayer

end Lightnet
