import Mathlib.Data.List.Find
import Lightnet.Playback.ClockAgreement
import Lightnet.Scene.Parser

/-!
# The same scene at another time

A player is compared with one on another clock, whose array of layers may also differ beyond the
layers that are counted. Both send the same, as long as everything they compare with the clock comes
out the same for both.
-/

namespace Lightnet

/-- A deadline on the other clock; zero stands for none. -/
def shiftDeadline (c deadline : Millis) : Millis := if deadline = 0 then 0 else deadline + c

/-- The deadlines of a runner on the other clock. -/
def LayerSpawnState.shifted (c : Millis) (st : LayerSpawnState) : LayerSpawnState :=
  { st with
    nextSpawnMs := if st.sweepDurationMs = 0 then st.nextSpawnMs else st.nextSpawnMs + c
    wheelStopAtMs := shiftDeadline c st.wheelStopAtMs
    bounceNextFlipAtMs := shiftDeadline c st.bounceNextFlipAtMs }

namespace ScenePlayer

/-- The same scene on the other clock; `b` has the layers that are not counted. -/
def recast (c : Millis) (b p : ScenePlayer) : ScenePlayer :=
  { p with
    layers := fun i => if i < p.lCount then p.layers i else b.layers i
    stepStartMs := fun i => if i < p.lCount then p.stepStartMs i + c else b.stepStartMs i
    spawnState := fun i => (p.spawnState i).shifted c }

/-! ### Firing a step -/

def dropsDue (p : ScenePlayer) (i : ℕ) (nowMs : Millis) : ℕ × Millis :=
  spawnDueCount (p.spawnState i).accumMs (nowMs - (p.spawnState i).lastServiceMs)
    (if (p.step i).params .waves = 0 then 1 else (p.step i).params .waves) spawnMaxBurst

/-- What a spawner of drops notes when it is serviced. -/
def awaited (p : ScenePlayer) (i : ℕ) (nowMs : Millis) : LayerSpawnState :=
  { p.spawnState i with
    lastServiceMs := nowMs
    accumMs := (p.dropsDue i nowMs).2 }

section

variable {c : Millis} {b p : ScenePlayer} {i : ℕ}

theorem shiftDeadline_of_lasting {x : Millis} (h : Lasting c x) : shiftDeadline c x = x + c := by
  unfold shiftDeadline
  split_ifs with hzero
  · rw [hzero, h hzero]
    rfl
  · rfl

theorem shiftDeadline_due {x nowMs : Millis} (h : SameDeadline c x nowMs) :
    (shiftDeadline c x ≠ 0 ∧ shiftDeadline c x ≤ nowMs + c) ↔ (x ≠ 0 ∧ x ≤ nowMs) := by
  unfold shiftDeadline
  by_cases hzero : x = 0
  · rw [if_pos hzero]
    simp [hzero]
  · rw [if_neg hzero]
    obtain ⟨hne, hdue⟩ := h hzero
    exact ⟨fun ⟨_, hle⟩ => ⟨hzero, hdue.mpr hle⟩, fun ⟨_, hle⟩ => ⟨hne, hdue.mp hle⟩⟩

omit p i in
theorem shifted_of_set (c : Millis) {st : LayerSpawnState} (h : st.sweepDurationMs ≠ 0) :
    st.shifted c = { st with
      nextSpawnMs := st.nextSpawnMs + c
      wheelStopAtMs := shiftDeadline c st.wheelStopAtMs
      bounceNextFlipAtMs := shiftDeadline c st.bounceNextFlipAtMs } := by
  unfold LayerSpawnState.shifted
  rw [if_neg h]

theorem recast_setSpawn (st : LayerSpawnState) :
    (recast c b p).setSpawn i (st.shifted c) = recast c b (p.setSpawn i st) := by
  unfold setSpawn recast
  congr 1
  funext j
  by_cases hj : j = i
  · subst hj
    simp only [Function.update_self]
  · simp only [Function.update_of_ne hj]

variable (hi : i < p.lCount)

include hi

theorem recast_layers : (recast c b p).layers i = p.layers i := if_pos hi

theorem recast_stepStartMs : (recast c b p).stepStartMs i = p.stepStartMs i + c := if_pos hi

theorem recast_step : (recast c b p).step i = p.step i := by
  unfold step
  rw [recast_layers hi]
  rfl

theorem recast_panels : (recast c b p).panels i = p.panels i := by
  unfold panels
  rw [recast_layers hi]
  rfl

theorem recast_runnerStyle (step : SceneStep) :
    (recast c b p).runnerStyle i step = p.runnerStyle i step := by
  unfold runnerStyle
  rw [recast_layers hi]
  rfl

theorem recast_stopLayerGroup :
    (recast c b p).stopLayerGroup i = recast c b (p.stopLayerGroup i) := by
  unfold stopLayerGroup
  rw [recast_panels hi, recast_layers hi]
  split_ifs <;> rfl

theorem recast_fireBouncePass (passDurMs : Ticks) :
    (recast c b p).fireBouncePass i passDurMs = recast c b (p.fireBouncePass i passDurMs) := by
  unfold fireBouncePass
  rw [recast_panels hi, recast_layers hi, recast_step hi]
  simp only [recast_runnerStyle hi]
  split_ifs <;> rfl

theorem recast_fireBounceStep (nowMs : Millis) (dur : Ticks)
    (h : Lasting c (nowMs + (atLeastOne (dur / 2)).setWidth 32)) :
    (recast c b p).fireBounceStep i (nowMs + c) dur =
      recast c b (p.fireBounceStep i nowMs dur) := by
  unfold fireBounceStep
  rw [← recast_fireBouncePass (p := p.setSpawn i _) hi, ← recast_setSpawn]
  unfold LayerSpawnState.shifted
  dsimp only
  rw [shiftDeadline_of_lasting h, add_right_comm]
  rfl

theorem recast_nextLeg (hset : (p.spawnState i).bounceNextFlipAtMs ≠ 0)
    (h : Lasting c ((p.spawnState i).bounceNextFlipAtMs +
      (p.spawnState i).bouncePassDur.setWidth 32)) :
    (recast c b p).nextLeg i = recast c b (p.nextLeg i) := by
  have hpass := recast_fireBouncePass (c := c) (b := b) (p := p.flipped i) hi
    (p.spawnState i).bouncePassDur
  have hnext : shiftDeadline c (p.spawnState i).bounceNextFlipAtMs +
      (p.spawnState i).bouncePassDur.setWidth 32 =
      shiftDeadline c ((p.spawnState i).bounceNextFlipAtMs +
        (p.spawnState i).bouncePassDur.setWidth 32) := by
    rw [shiftDeadline_of_lasting h, shiftDeadline, if_neg hset, add_right_comm]
  change ((recast c b (p.flipped i)).fireBouncePass i (p.spawnState i).bouncePassDur).setSpawn i
    { (p.spawnState i).shifted c with
      bounceNextFlipAtMs := shiftDeadline c (p.spawnState i).bounceNextFlipAtMs +
        (p.spawnState i).bouncePassDur.setWidth 32 } = _
  rw [hpass, hnext]
  exact recast_setSpawn (p := (p.flipped i).fireBouncePass i (p.spawnState i).bouncePassDur)
    { p.spawnState i with
      bounceNextFlipAtMs := (p.spawnState i).bounceNextFlipAtMs +
        (p.spawnState i).bouncePassDur.setWidth 32 }

omit hi in
theorem recast_flipBounce (nowMs : Millis) (n : ℕ) {p : ScenePlayer} (hi : i < p.lCount)
    (h : FlipsAgree c i nowMs n p) :
    flipBounce i (nowMs + c) n (recast c b p) = recast c b (flipBounce i nowMs n p) := by
  induction n generalizing p with
  | zero => rfl
  | succ n ih =>
      rw [flipBounce, flipBounce]
      by_cases hset : (p.spawnState i).bounceNextFlipAtMs = 0
      · have hnone : ¬ ((p.spawnState i).bounceNextFlipAtMs ≠ 0 ∧
            (p.spawnState i).bounceNextFlipAtMs ≤ nowMs) := fun hdue => hdue.1 hset
        have hnone' : ¬ (((recast c b p).spawnState i).bounceNextFlipAtMs ≠ 0 ∧
            ((recast c b p).spawnState i).bounceNextFlipAtMs ≤ nowMs + c) :=
          fun hdue => hdue.1 (if_pos hset)
        rw [if_neg hnone, if_neg hnone']
      · obtain ⟨hdeadline, hnext⟩ := h hset
        have hdue : (((recast c b p).spawnState i).bounceNextFlipAtMs ≠ 0 ∧
            ((recast c b p).spawnState i).bounceNextFlipAtMs ≤ nowMs + c) ↔
            ((p.spawnState i).bounceNextFlipAtMs ≠ 0 ∧
              (p.spawnState i).bounceNextFlipAtMs ≤ nowMs) := shiftDeadline_due hdeadline
        by_cases hnow : (p.spawnState i).bounceNextFlipAtMs ≠ 0 ∧
            (p.spawnState i).bounceNextFlipAtMs ≤ nowMs
        · obtain ⟨hlasting, hrest⟩ := hnext hnow.2
          rw [if_pos hnow, if_pos (hdue.mpr hnow), recast_nextLeg hi hset hlasting]
          refine ih ?_ hrest
          rw [(fires_nextLeg p i).lCount]
          exact hi
        · rw [if_neg hnow, if_neg (mt hdue.mp hnow)]

theorem recast_wheelTurns (panels : List ℕ) :
    (recast c b p).wheelTurns i panels = p.wheelTurns i panels := by
  unfold wheelTurns
  rw [recast_step hi]
  rfl

theorem recast_wheelLoop (step : SceneStep) :
    (recast c b p).wheelLoop i step = p.wheelLoop i step := by
  unfold wheelLoop
  rw [recast_layers hi]

theorem recast_startWheel (nowMs : Millis) (panels : List ℕ) (dur : Ticks) (turns : List ℚ)
    (h : p.wheelLoop i (p.step i) = false → Lasting c (nowMs + p.scaledDurationMs dur)) :
    (recast c b p).startWheel i (nowMs + c) panels dur turns =
      recast c b (p.startWheel i nowMs panels dur turns) := by
  have hstop : shiftDeadline c (if p.wheelLoop i (p.step i) = true then 0
      else nowMs + p.scaledDurationMs dur) =
      if p.wheelLoop i (p.step i) = true then 0 else nowMs + c + p.scaledDurationMs dur := by
    split_ifs with hloop
    · exact if_pos rfl
    · rw [shiftDeadline_of_lasting (h (eq_false_of_ne_true hloop)), add_right_comm]
  unfold startWheel
  rw [recast_step hi, recast_layers hi]
  dsimp only
  rw [recast_wheelLoop hi, recast_runnerStyle hi, ← recast_setSpawn]
  unfold LayerSpawnState.shifted
  dsimp only
  rw [hstop]
  rfl

theorem recast_fireWheelStep (nowMs : Millis) (panels : List ℕ) (dur : Ticks)
    (h : p.wheelTurns i panels ≠ none → p.wheelLoop i (p.step i) = false →
      Lasting c (nowMs + p.scaledDurationMs dur)) :
    (recast c b p).fireWheelStep i (nowMs + c) panels dur =
      recast c b (p.fireWheelStep i nowMs panels dur) := by
  unfold fireWheelStep
  rw [recast_wheelTurns hi]
  cases hturns : p.wheelTurns i panels with
  | none => rfl
  | some turns => exact recast_startWheel hi nowMs panels dur turns (h (by rw [hturns]; simp))

theorem recast_launchSweep (hset : (p.spawnState i).sweepDurationMs ≠ 0) (count : ℕ) :
    (recast c b p).launchSweep i count = recast c b (p.launchSweep i count) := by
  have hnext : (if (p.spawnState i).sweepSpawnIndex + 1 < count then
      p.stepStartMs i + c + spawnSweepStartMs (p.spawnState i).sweepDurationMs count
        ((p.spawnState i).sweepSpawnIndex + 1)
      else (p.spawnState i).nextSpawnMs + c) =
      (if (p.spawnState i).sweepSpawnIndex + 1 < count then
        p.stepStartMs i + spawnSweepStartMs (p.spawnState i).sweepDurationMs count
          ((p.spawnState i).sweepSpawnIndex + 1)
        else (p.spawnState i).nextSpawnMs) + c := by
    split_ifs
    · exact add_right_comm _ _ _
    · rfl
  have hst : (recast c b p).spawnState i = _ := shifted_of_set c hset
  unfold launchSweep
  rw [recast_step hi, recast_stepStartMs hi, hst]
  dsimp only
  rw [recast_runnerStyle hi, hnext, ← recast_setSpawn, shifted_of_set]
  · rfl
  · exact hset

omit hi in
theorem recast_launchSweeps (nowMs : Millis) (count n : ℕ) {p : ScenePlayer} (hi : i < p.lCount)
    (hset : (p.spawnState i).sweepDurationMs ≠ 0) (h : LaunchesAgree c i nowMs count n p) :
    launchSweeps i (nowMs + c) count n (recast c b p) =
      recast c b (launchSweeps i nowMs count n p) := by
  induction n generalizing p with
  | zero => rfl
  | succ n ih =>
      have hnext : ((recast c b p).spawnState i).nextSpawnMs = (p.spawnState i).nextSpawnMs + c :=
        if_neg hset
      have hdue : (((recast c b p).spawnState i).sweepSpawnIndex < count ∧
          ((recast c b p).spawnState i).nextSpawnMs ≤ nowMs + c) ↔
          ((p.spawnState i).sweepSpawnIndex < count ∧ (p.spawnState i).nextSpawnMs ≤ nowMs) := by
        rw [hnext]
        exact and_congr_right fun hindex => (h hindex).1.symm
      rw [launchSweeps, launchSweeps]
      by_cases hnow : (p.spawnState i).sweepSpawnIndex < count ∧
          (p.spawnState i).nextSpawnMs ≤ nowMs
      · rw [if_pos hnow, if_pos (hdue.mpr hnow), recast_launchSweep hi hset]
        refine ih hi ?_ ((h hnow.1).2 hnow.2)
        simp only [launchSweep, setSpawn, Function.update_self]
        exact hset
      · rw [if_neg hnow, if_neg (mt hdue.mp hnow)]

theorem recast_serviceSweepSpawner (nowMs : Millis) (h : SweepsAgree c nowMs p i) :
    (recast c b p).serviceSweepSpawner i (nowMs + c) =
      recast c b (p.serviceSweepSpawner i nowMs) := by
  unfold serviceSweepSpawner
  rw [recast_step hi]
  change (if (p.spawnState i).sweepPanels = [] ∨ (p.spawnState i).sweepDurationMs = 0 then _
    else _) = recast c b (if (p.spawnState i).sweepPanels = [] ∨
      (p.spawnState i).sweepDurationMs = 0 then _ else _)
  split_ifs with hnone
  · rfl
  · rw [not_or] at hnone
    exact recast_launchSweeps nowMs _ _ hi hnone.2 (h hnone.1 hnone.2)

theorem recast_fireSweepStep (nowMs : Millis)
    (hdur : p.effectiveDurationMs (p.step i).durationMs ≠ 0)
    (h : SweepsAgree c nowMs (p.setSpawn i (p.sweepState i)) i) :
    (recast c b p).fireSweepStep i (nowMs + c) (p.panels i)
        (p.effectiveDurationMs (p.step i).durationMs) =
      recast c b (p.fireSweepStep i nowMs (p.panels i)
        (p.effectiveDurationMs (p.step i).durationMs)) := by
  have hset : (p.sweepState i).sweepDurationMs ≠ 0 := hdur
  have hservice := recast_serviceSweepSpawner (b := b) (p := p.setSpawn i (p.sweepState i)) hi
    nowMs h
  rw [← recast_setSpawn, shifted_of_set c hset] at hservice
  unfold fireSweepStep
  rw [recast_step hi]
  dsimp only
  rw [recast_stepStartMs hi]
  exact hservice

omit hi in
theorem recast_spawnDrops (drops : DropSource) (l : List ℕ) {p : ScenePlayer}
    (hi : i < p.lCount) :
    l.foldl (fun q _ => q.spawnDrop i drops) (recast c b p) =
      recast c b (l.foldl (fun q _ => q.spawnDrop i drops) p) := by
  induction l generalizing p with
  | nil => rfl
  | cons d l ih =>
      have hstyle : (recast c b p).dropStyle i (p.step i) = p.dropStyle i (p.step i) := by
        unfold dropStyle
        rw [recast_layers hi]
        rfl
      have hdrop : (recast c b p).spawnDrop i drops = recast c b (p.spawnDrop i drops) := by
        unfold spawnDrop
        rw [recast_step hi, hstyle]
        dsimp only
        rw [← recast_setSpawn]
        rfl
      rw [List.foldl_cons, List.foldl_cons, hdrop]
      exact ih hi

omit hi in
/-- The drops that are due, and the time that is left. -/
theorem serviceParticleSpawner_eq (p : ScenePlayer) (nowMs : Millis) :
    p.serviceParticleSpawner i nowMs =
      match p.dropSource i with
      | none => p.setSpawn i (p.awaited i nowMs)
      | some drops => (List.range (p.dropsDue i nowMs).1).foldl (fun q _ => q.spawnDrop i drops)
          (p.setSpawn i (p.awaited i nowMs)) := rfl

theorem recast_serviceParticleSpawner (nowMs : Millis) (hc : c = 0) :
    (recast c b p).serviceParticleSpawner i (nowMs + c) =
      recast c b (p.serviceParticleSpawner i nowMs) := by
  have hnow : nowMs + c = nowMs := by rw [hc]; exact add_zero nowMs
  have hdrops : (recast c b p).dropSource i = p.dropSource i := by
    unfold dropSource
    rw [recast_step hi, recast_layers hi]
    rfl
  have hdue : (recast c b p).dropsDue i nowMs = p.dropsDue i nowMs := by
    unfold dropsDue
    rw [recast_step hi]
    rfl
  have hawaited : (recast c b p).awaited i nowMs = (p.awaited i nowMs).shifted c := by
    unfold awaited
    rw [hdue]
    rfl
  rw [hnow, serviceParticleSpawner_eq, serviceParticleSpawner_eq, hdrops, hdue, hawaited,
    recast_setSpawn]
  cases p.dropSource i with
  | none => rfl
  | some drops => exact recast_spawnDrops drops _ hi

theorem recast_serviceSpawner (nowMs : Millis) (h : SpawnsAgree c nowMs p i) :
    (recast c b p).serviceSpawner i (nowMs + c) = recast c b (p.serviceSpawner i nowMs) := by
  unfold serviceSpawner
  rw [recast_step hi]
  change (if (p.spawnState i).poolSize = 0 then _ else _) = _
  by_cases hpool : (p.spawnState i).poolSize = 0
  · rw [if_pos hpool, if_pos hpool]
  · have hagree := h hpool
    rw [if_neg hpool, if_neg hpool]
    split_ifs at hagree ⊢ with hsweep
    · exact recast_serviceSweepSpawner hi nowMs hagree
    · exact recast_serviceParticleSpawner hi nowMs hagree

omit hi in
theorem recast_fireParticleStep (nowMs : Millis) (hc : c = 0) :
    (recast c b p).fireParticleStep i (nowMs + c) = recast c b (p.fireParticleStep i nowMs) := by
  have hnow : nowMs + c = nowMs := by rw [hc]; exact add_zero nowMs
  unfold fireParticleStep
  rw [hnow]
  dsimp only
  rw [← recast_setSpawn]
  rfl

theorem recast_fireLocalAnimStep (panels : List ℕ) (dur : Ticks) :
    (recast c b p).fireLocalAnimStep i panels dur =
      recast c b (p.fireLocalAnimStep i panels dur) := by
  unfold fireLocalAnimStep
  rw [recast_step hi, recast_layers hi]
  rfl

theorem recast_fireStep (nowMs : Millis) (h : FireAgrees c nowMs p i) :
    (recast c b p).fireStep i (nowMs + c) = recast c b (p.fireStep i nowMs) := by
  have hdur : (recast c b p).effectiveDurationMs = p.effectiveDurationMs := rfl
  unfold fireStep
  rw [recast_step hi, recast_panels hi, hdur]
  dsimp only
  split_ifs with hgap hpanels hrunner hparticle hzero hbounce hwheel
  · exact recast_stopLayerGroup hi
  · rfl
  · exact recast_fireParticleStep nowMs ((h hpanels).1 hparticle)
  · rfl
  · exact recast_fireBounceStep hi nowMs _ (((h hpanels).2 hzero).1 hbounce)
  · exact recast_fireWheelStep hi nowMs _ _ (((h hpanels).2 hzero).2.1 hwheel)
  · refine recast_fireSweepStep hi nowMs hzero (((h hpanels).2 hzero).2.2 ?_)
    revert hgap hrunner hparticle hbounce hwheel
    cases (p.step i).animType <;> decide
  · exact recast_fireLocalAnimStep hi _ _

theorem recast_entered (k : ℕ) (nowMs : Millis) :
    (recast c b p).entered i k (nowMs + c) = recast c b (p.entered i k nowMs) := by
  unfold entered recast
  congr 1
  funext j
  by_cases hj : j = i
  · subst hj
    simp only [Function.update_self, if_pos hi]
  · simp only [Function.update_of_ne hj]

theorem recast_enterStep (k : ℕ) (nowMs : Millis) (h : FireAgrees c nowMs (p.entered i k nowMs) i) :
    (recast c b p).enterStep i k (nowMs + c) = recast c b (p.enterStep i k nowMs) := by
  change ((recast c b p).entered i k (nowMs + c)).fireStep i (nowMs + c) = _
  rw [recast_entered hi]
  exact recast_fireStep (p := p.entered i k nowMs) hi nowMs h

theorem recast_serviceStep (nowMs : Millis) (h : ServiceAgrees c nowMs p i) :
    (recast c b p).serviceStep i (nowMs + c) = recast c b (p.serviceStep i nowMs) := by
  unfold serviceStep
  unfold ServiceAgrees at h
  rw [recast_step hi]
  dsimp only
  split_ifs at h ⊢ with hwheel hdue hdue' hdue' hbounce hspawner
  · have hstopped : (recast c b p).setSpawn i
        { (recast c b p).spawnState i with wheelStopAtMs := 0 } =
        recast c b (p.setSpawn i { p.spawnState i with wheelStopAtMs := 0 }) :=
      recast_setSpawn { p.spawnState i with wheelStopAtMs := 0 }
    rw [hstopped]
    exact recast_stopLayerGroup hi
  · exact absurd ((shiftDeadline_due h).mp hdue) hdue'
  · exact absurd ((shiftDeadline_due h).mpr hdue') hdue
  · rfl
  · exact recast_flipBounce nowMs _ hi h
  · exact recast_serviceSpawner hi nowMs (h hspawner)
  · rfl

theorem recast_advanceLayer (nowMs : Millis)
    (h : if p.currentStep i + 1 < (p.layers i).steps.length then
      FireAgrees c nowMs (p.entered i (p.currentStep i + 1) nowMs) i
      else (p.layers i).isAsyncLayer = true → FireAgrees c nowMs (p.entered i 0 nowMs) i) :
    (recast c b p).advanceLayer i (nowMs + c) = recast c b (p.advanceLayer i nowMs) := by
  unfold advanceLayer
  rw [recast_layers hi]
  change (if p.currentStep i + 1 < (p.layers i).steps.length then _ else _) = _
  split_ifs at h ⊢ with hnext hasync
  · exact recast_enterStep hi _ nowMs h
  · exact recast_enterStep hi 0 nowMs (h hasync)
  · rfl

theorem recast_tickLayer (nowMs : Millis) (h : TurnAgrees c nowMs p i) :
    tickLayer (nowMs + c) (recast c b p) i = recast c b (tickLayer nowMs p i) := by
  have helapsed : nowMs + c - (recast c b p).stepStartMs i = nowMs - p.stepStartMs i := by
    rw [recast_stepStartMs hi]
    exact add_sub_add_right_eq_sub _ _ _
  have hthreshold : (recast c b p).threshold i = p.threshold i := by
    unfold threshold
    rw [recast_step hi]
    rfl
  unfold tickLayer
  rw [recast_step hi, helapsed, hthreshold]
  change (if p.layerState i ≠ .running then _ else _) = _
  by_cases hrunning : p.layerState i = .running
  · have hagree := h hrunning
    rw [if_neg (not_not.mpr hrunning), if_neg (not_not.mpr hrunning)]
    split_ifs at hagree ⊢ with hzero hspawner hlasts hnext
    · exact recast_serviceSpawner hi nowMs (hagree hspawner)
    · rfl
    · exact recast_serviceStep hi nowMs hagree
    · exact recast_advanceLayer hi nowMs (by rw [if_pos hnext]; exact hagree)
    · exact recast_advanceLayer hi nowMs (by rw [if_neg hnext]; exact hagree)
  · rw [if_pos hrunning, if_pos hrunning]

theorem recast_isReady : (recast c b p).isReady i = p.isReady i := by
  have hindex (g : Byte) : (recast c b p).layerIndexForGroup g = p.layerIndexForGroup g := by
    refine List.find?_congr fun j hj => ?_
    have hlt : j < p.lCount := List.mem_range.mp hj
    rw [recast_layers hlt]
  unfold isReady
  rw [recast_layers hi, hindex]
  rfl

theorem recast_promoteLayer (nowMs : Millis) (h : PromotionAgrees c nowMs p i) :
    promoteLayer (nowMs + c) (recast c b p) i = recast c b (promoteLayer nowMs p i) := by
  unfold promoteLayer
  rw [recast_isReady hi]
  change (if p.layerState i = .waiting ∧ p.isReady i then _ else _) = _
  split_ifs with hready
  · exact recast_enterStep (p := p.woken i) hi 0 nowMs (h hready.1 hready.2)
  · rfl

theorem recast_flushStop (restarting : Bool) :
    flushStop restarting (recast c b p) i = recast c b (flushStop restarting p i) := by
  have hreclaims : (recast c b p).restartReclaimsLayerSlot i = p.restartReclaimsLayerSlot i := by
    unfold restartReclaimsLayerSlot
    rw [recast_layers hi]
  change (if p.pendingStop i then
    if restarting ∧ (recast c b p).restartReclaimsLayerSlot i then recast c b (p.flushed i)
      else (recast c b (p.flushed i)).stopLayerGroup i
    else recast c b p) = recast c b (if p.pendingStop i then
      if restarting ∧ p.restartReclaimsLayerSlot i then p.flushed i
      else (p.flushed i).stopLayerGroup i else p)
  rw [hreclaims, recast_stopLayerGroup (p := p.flushed i) hi]
  split_ifs <;> rfl

theorem recast_isArmed (includeAsync : Bool) :
    (recast c b p).isArmed includeAsync i = p.isArmed includeAsync i := by
  unfold isArmed
  rw [recast_layers hi]
  rfl

theorem recast_fireArmed (nowMs : Millis) (includeAsync : Bool)
    (h : StartAgrees c nowMs includeAsync p i) :
    fireArmed (nowMs + c) includeAsync (recast c b p) i =
      recast c b (fireArmed nowMs includeAsync p i) := by
  unfold fireArmed
  rw [recast_isArmed hi]
  change (if p.isArmed includeAsync i ∧ p.layerState i = .running then _ else _) = _
  split_ifs with harmed
  · exact recast_fireStep hi nowMs (h harmed.1 harmed.2)
  · rfl

end

/-! ### The scene -/

/-- Turns of layers one after the other. -/
theorem recast_foldl {c : Millis} {b : ScenePlayer} {f g : ScenePlayer → ℕ → ScenePlayer}
    {ok : ScenePlayer → ℕ → Prop} (hplays : ∀ p i, Plays p (f p i))
    (hf : ∀ p i, i < p.lCount → ok p i → g (recast c b p) i = recast c b (f p i)) {l : List ℕ}
    {p : ScenePlayer} (hl : ∀ i ∈ l, i < p.lCount) (h : Throughout f ok l p) :
    l.foldl g (recast c b p) = recast c b (l.foldl f p) := by
  induction l generalizing p with
  | nil => rfl
  | cons i l ih =>
      rw [List.foldl_cons, List.foldl_cons, hf p i (hl i List.mem_cons_self) h.1]
      refine ih (fun j hj => ?_) h.2
      rw [(hplays p i).lCount]
      exact hl j (List.mem_cons_of_mem i hj)

section

variable {c : Millis} {b p : ScenePlayer}

theorem recast_armLayers (nowMs : Millis) (includeAsync : Bool)
    (h : ArmingAgrees c nowMs includeAsync p) :
    (recast c b p).armLayers (nowMs + c) includeAsync =
      recast c b (p.armLayers nowMs includeAsync) := by
  have harmed : (recast c b p).armed (nowMs + c) includeAsync =
      recast c b (p.armed nowMs includeAsync) := by
    have harm (i : ℕ) : (recast c b p).isArmed includeAsync i = p.isArmed includeAsync i := by
      by_cases hi : i < p.lCount
      · exact recast_isArmed hi includeAsync
      · simp [isArmed, recast, hi]
    have hlt {i : ℕ} (hi : p.isArmed includeAsync i = true) : i < p.lCount := by
      simp only [isArmed, Bool.and_eq_true, decide_eq_true_eq] at hi
      exact hi.1
    have hstate (i : ℕ) : (if p.isArmed includeAsync i then armedState ((recast c b p).layers i)
        else p.layerState i) =
        if p.isArmed includeAsync i then armedState (p.layers i) else p.layerState i := by
      split_ifs with hi
      · rw [recast_layers (hlt hi)]
      · rfl
    have hstart (i : ℕ) : (if p.isArmed includeAsync i then nowMs + c
        else (recast c b p).stepStartMs i) =
        if i < p.lCount then (if p.isArmed includeAsync i then nowMs else p.stepStartMs i) + c
        else b.stepStartMs i := by
      by_cases hi : p.isArmed includeAsync i = true
      · rw [if_pos hi, if_pos (hlt hi), if_pos hi]
      · rw [if_neg hi, if_neg hi]
        rfl
    unfold armed
    simp only [harm, hstart]
    change ({ recast c b p with
      currentStep := _, stepStartMs := _
      layerState := fun i => if p.isArmed includeAsync i then armedState ((recast c b p).layers i)
        else p.layerState i } : ScenePlayer) = _
    simp only [hstate]
    rfl
  change (List.range p.lCount).foldl (fireArmed (nowMs + c) includeAsync)
    ((recast c b p).armed (nowMs + c) includeAsync) = _
  rw [harmed]
  exact recast_foldl (fun q i => (touches_fireArmed q i nowMs includeAsync).plays)
    (fun q i hi hok => recast_fireArmed hi nowMs includeAsync hok)
    (p := p.armed nowMs includeAsync) (fun i hi => List.mem_range.mp hi) h

theorem recast_flushPendingStops (restarting : Bool) :
    (recast c b p).flushPendingStops restarting =
      recast c b (p.flushPendingStops restarting) :=
  recast_foldl (fun q i => (touches_flushStop q i restarting).plays)
    (fun _ _ hi _ => recast_flushStop hi restarting) (fun _ hi => List.mem_range.mp hi)
    (throughout_of_forall _ (fun _ _ => trivial) _)

theorem recast_syncLayers : (recast c b p).syncLayers = p.syncLayers := by
  refine List.filter_congr fun i hi => ?_
  have hlt : i < p.lCount := List.mem_range.mp hi
  rw [recast_layers hlt]

theorem recast_allSyncDone : (recast c b p).allSyncDone = p.allSyncDone := by
  unfold allSyncDone
  rw [recast_syncLayers]
  rfl

theorem recast_anyBlockingAsync : (recast c b p).anyBlockingAsync = p.anyBlockingAsync := by
  rw [Bool.eq_iff_iff]
  unfold anyBlockingAsync
  rw [List.any_eq_true, List.any_eq_true]
  refine exists_congr fun i => and_congr_right fun hi => ?_
  have hlt : i < p.lCount := List.mem_range.mp hi
  rw [recast_layers hlt]

theorem recast_endTick (nowMs : Millis)
    (h : p.syncLayers ≠ [] → p.allSyncDone = true → p.loop = true →
      ArmingAgrees c nowMs false (p.flushPendingStops true)) :
    (recast c b p).endTick (nowMs + c) = recast c b (p.endTick nowMs) := by
  unfold endTick
  rw [recast_syncLayers, recast_allSyncDone, recast_anyBlockingAsync]
  dsimp only
  rw [recast_flushPendingStops]
  change (if ¬ (p.syncLayers ≠ [] ∧ p.allSyncDone) then _
    else if p.loop then _ else if p.anyBlockingAsync then _ else _) = _
  split_ifs with hover hloop hblocking
  · have hflag : decide ((p.syncLayers ≠ [] ∧ p.allSyncDone = true) ∧ p.loop = true) = true :=
      decide_eq_true ⟨hover, hloop⟩
    have hflag' : decide ((p.syncLayers ≠ [] ∧ p.allSyncDone = true) ∧
        (recast c b p).loop = true) = true := hflag
    rw [hflag, hflag']
    exact recast_armLayers nowMs false (h hover.1 hover.2 hloop)
  · rfl
  · rfl
  · rfl

theorem recast_tick (nowMs : Millis) (h : TickAgrees c nowMs p) :
    (recast c b p).tick (nowMs + c) = recast c b (p.tick nowMs) := by
  unfold tick
  change (if p.playing = true then _ else _) = _
  split_ifs with hplay
  · obtain ⟨hturns, hpromotes, hends⟩ := h hplay
    have hturn := recast_foldl (c := c) (b := b) (g := tickLayer (nowMs + c))
      (fun q i => (touches_tickLayer q i nowMs).plays)
      (fun _ _ hi hok => recast_tickLayer hi nowMs hok) (fun _ hi => List.mem_range.mp hi) hturns
    have hcount : ((List.range p.lCount).foldl (tickLayer nowMs) p).lCount = p.lCount :=
      (foldl_plays (fun q i => touches_tickLayer q i nowMs) _ p).lCount
    have hpromote := recast_foldl (c := c) (b := b) (g := promoteLayer (nowMs + c))
      (fun q i => (touches_promoteLayer q i nowMs).plays)
      (fun _ _ hi hok => recast_promoteLayer hi nowMs hok)
      (fun _ hi => hcount.symm ▸ List.mem_range.mp hi) hpromotes
    have hbarrier : (recast c b p).atBarrier (nowMs + c) = recast c b (p.atBarrier nowMs) := by
      have hcount' : (recast c b ((List.range p.lCount).foldl (tickLayer nowMs) p)).lCount =
          p.lCount := hcount
      change ((List.range p.lCount).foldl (tickLayer (nowMs + c))
        (recast c b p)).promoteReadyLayers (nowMs + c) = _
      rw [hturn]
      unfold atBarrier promoteReadyLayers
      rw [hcount', hcount]
      exact hpromote
    change ((recast c b p).atBarrier (nowMs + c)).endTick (nowMs + c) = _
    rw [hbarrier]
    exact recast_endTick nowMs hends
  · rfl

theorem recast_poolOf : (recast c b p).poolOf = p.poolOf :=
  poolOf_congr rfl (fun _ hi => congrArg SceneLayer.groupId (recast_layers hi))
    (fun _ hi => congrArg SceneLayer.layerIsSpawner (recast_layers hi))
    (fun _ hi => congrArg SceneLayer.layerIsSweepSpawner (recast_layers hi))
    (fun _ hi => congrArg SceneLayer.maxSweepCount (recast_layers hi))

theorem recast_scenePalettes (env : SceneProviders) (header : Header) :
    (recast c b p).scenePalettes env header = p.scenePalettes env header := by
  funext i
  unfold scenePalettes
  by_cases hi : i < p.lCount
  · rw [recast_layers hi]
    rfl
  · exact (if_neg hi).trans (if_neg hi).symm

theorem recast_sendPalettesToPanels (env : SceneProviders) (header : Header) :
    (recast c b p).sendPalettesToPanels env header = p.sendPalettesToPanels env header := by
  unfold sendPalettesToPanels
  rw [recast_scenePalettes]
  refine congrArg (List.cons _) ?_
  have hfilter : ((List.range (recast c b p).lCount).filter fun i =>
      !((recast c b p).layers i).disabled && (env.rebuild (recast c b p).logicalRoot).resolvePanels
        ((recast c b p).layers i).target ≠ []) =
      (List.range p.lCount).filter fun i =>
        !(p.layers i).disabled && (env.rebuild p.logicalRoot).resolvePanels (p.layers i).target ≠ [] := by
    refine List.filter_congr fun i hi => ?_
    have hlt : i < p.lCount := List.mem_range.mp hi
    rw [recast_layers hlt]
    rfl
  rw [hfilter]
  refine List.flatMap_congr fun i hi => ?_
  have hlt : i < p.lCount := List.mem_range.mp (List.mem_filter.mp hi).1
  rw [recast_layers hlt]
  rfl

theorem recast_enterScene (env : SceneProviders) (header : Header) :
    (recast c b p).enterScene env header = recast c b (p.enterScene env header) := by
  have hpool : (fun i => (p.poolOf i).shifted c) = p.poolOf := by
    funext i
    unfold poolOf
    split_ifs <;> rfl
  unfold enterScene
  rw [recast_poolOf, recast_scenePalettes, recast_sendPalettesToPanels]
  unfold recast
  dsimp only
  rw [hpool]

theorem recast_armScene (env : SceneProviders) (header : Header) (nowMs : Millis)
    (h : ArmingAgrees c nowMs true (p.enterScene env header)) :
    (recast c b p).armScene env header (nowMs + c) =
      recast c b (p.armScene env header nowMs) := by
  unfold armScene
  rw [recast_enterScene]
  exact recast_armLayers nowMs true h

theorem recast_resume (env : SceneProviders) (nowMs : Millis) (hcount : p.lCount ≤ sceneMaxLayers)
    (h : p.lCount ≠ 0 → ArmingAgrees c nowMs true (p.reentered env)) :
    (recast c b p).resume env (nowMs + c) = recast c b (p.resume env nowMs) := by
  have hself (q : ScenePlayer) (hq : q.lCount ≤ sceneMaxLayers) :
      ({ q with lCount := min q.lCount sceneMaxLayers } : ScenePlayer) = q := by rw [min_eq_left hq]
  unfold reentered at h
  unfold resume
  rw [hself p hcount] at h ⊢
  rw [hself (recast c b p) hcount]
  change (if p.lCount = 0 then _ else _) = _
  split_ifs with hzero
  · rfl
  · exact recast_armScene env p.header nowMs (h hzero)

theorem recast_reresolvePalettes (env : SceneProviders) (newPal : Text)
    (newColors : Option (Fin baseColorsCount → ColorRGB)) :
    (recast c b p).reresolvePalettes env newPal newColors =
      recast c b (p.reresolvePalettes env newPal newColors) := by
  have hpalette (i : ℕ) : (i < p.lCount ∧ ((recast c b p).layers i).palette = []) ↔
      (i < p.lCount ∧ (p.layers i).palette = []) :=
    and_congr_right fun hi => by rw [recast_layers hi]
  unfold reresolvePalettes
  change (if (!p.playing || decide (p.lCount = 0)) = true then recast c b p else _) = _
  by_cases hidle : (!p.playing || decide (p.lCount = 0)) = true
  · rw [if_pos hidle, if_pos hidle]
  · rw [if_neg hidle, if_neg hidle]
    dsimp only
    have hcongr : (fun i => if i < (recast c b p).lCount ∧ ((recast c b p).layers i).palette = []
        then resolvePalette env.resolve (newColors.getD (recast c b p).baseColors)
          (if newPal = [] then (recast c b p).defaultPalette else paletteField newPal)
        else (recast c b p).resolvedPalettes i) = fun i =>
          if i < p.lCount ∧ (p.layers i).palette = []
          then resolvePalette env.resolve (newColors.getD p.baseColors)
            (if newPal = [] then p.defaultPalette else paletteField newPal)
          else p.resolvedPalettes i := by
      funext i
      exact ite_congr (propext (hpalette i)) (fun _ => rfl) fun _ => rfl
    rw [hcongr]
    rfl

theorem recast_handle (hcount : p.lCount ≤ sceneMaxLayers) {e : PlayerEvent}
    (h : ClockAgrees c p e) :
    (recast c b p).handle (e.shifted c) = recast c b (p.handle e) := by
  cases e with
  | tick nowMs => exact recast_tick nowMs h
  | stop => rfl
  | resume env nowMs => exact recast_resume env nowMs hcount h
  | setSpeed s => rfl
  | setLogicalRoot env panelIndex nowMs =>
      let unrooted : ScenePlayer :=
        { p.withRoot panelIndex with sceneTopo := env.rebuild (p.withRoot panelIndex).logicalRoot }
      change (if p.playing = true then (recast c b (p.withRoot panelIndex)).resume env (nowMs + c)
        else recast c b unrooted) =
        recast c b (if p.playing = true then (p.withRoot panelIndex).resume env nowMs else unrooted)
      by_cases hplay : p.playing = true
      · rw [if_pos hplay, if_pos hplay]
        exact recast_resume env nowMs hcount (h hplay)
      · rw [if_neg hplay, if_neg hplay]
  | reresolvePalettes env newPal newColors => exact recast_reresolvePalettes env newPal newColors

theorem run_recast (hcount : p.lCount ≤ sceneMaxLayers) (es : List PlayerEvent)
    (h : Transition.Guarded handle (ClockAgrees c) p es) :
    (es.map (PlayerEvent.shifted c)).foldl handle (recast c b p) =
      recast c b (es.foldl handle p) := by
  induction es generalizing p with
  | nil => rfl
  | cons e es ih =>
      rw [List.map_cons, List.foldl_cons, List.foldl_cons, recast_handle hcount h.1]
      exact ih ((handle_layers hcount e).2.le.trans hcount) h.2

end

/-- A scene that is entered is armed from scratch. -/
theorem armLayers_recast {q : ScenePlayer} (c : Millis)
    (hfresh : ∀ i, (q.spawnState i).shifted c = q.spawnState i) (nowMs : Millis)
    (h : ArmingAgrees c nowMs true q) :
    q.armLayers (nowMs + c) true = recast c q (q.armLayers nowMs true) := by
  have harmed : (recast c q q).armed (nowMs + c) true = q.armed (nowMs + c) true := by
    have hlayer (i : ℕ) : (recast c q q).layers i = q.layers i := ite_self _
    have hstart (i : ℕ) : (if q.isArmed true i then nowMs + c else (recast c q q).stepStartMs i) =
        if q.isArmed true i then nowMs + c else q.stepStartMs i := by
      by_cases hi : i < q.lCount
      · have harm : q.isArmed true i = true := by simp [isArmed, hi]
        rw [if_pos harm, if_pos harm]
      · rw [show (recast c q q).stepStartMs i = q.stepStartMs i from if_neg hi]
    have hself : recast c q q = { q with stepStartMs := (recast c q q).stepStartMs } := by
      unfold recast
      simp only [ite_self, hfresh]
    have harm : (recast c q q).isArmed true = q.isArmed true := by
      rw [hself]
      rfl
    unfold armed
    simp only [harm, hstart, hlayer]
    rw [hself]
  rw [← recast_armLayers nowMs true h]
  change _ = (List.range q.lCount).foldl (fireArmed (nowMs + c) true)
    ((recast c q q).armed (nowMs + c) true)
  rw [harmed]
  rfl

/-- A run on another clock sends the same, if everything that is compared with the clock comes out
the same. -/
theorem run_clock_shift (env : SceneProviders) (layers : List SceneLayer) (header : Header)
    (p : ScenePlayer) (startMs c : Millis) (es : List PlayerEvent)
    (hload : ArmingAgrees c startMs true ((p.withLayers layers).enterScene env header))
    (hes : Transition.Guarded handle (ClockAgrees c) (p.loadAndPlay env layers header startMs) es) :
    ((es.map (PlayerEvent.shifted c)).foldl handle
        (p.loadAndPlay env layers header (startMs + c))).sent =
      (es.foldl handle (p.loadAndPlay env layers header startMs)).sent := by
  have hfresh (i : ℕ) : (((p.withLayers layers).enterScene env header).spawnState i).shifted c =
      ((p.withLayers layers).enterScene env header).spawnState i := by
    change ((p.withLayers layers).poolOf i).shifted c = (p.withLayers layers).poolOf i
    unfold poolOf
    split_ifs <;> rfl
  have hcount : (p.loadAndPlay env layers header startMs).lCount ≤ sceneMaxLayers := by
    rw [loadAndPlay_eq, (plays_armLayers _ startMs true).lCount]
    exact min_le_right _ _
  rw [loadAndPlay_eq p env layers header (startMs + c), armLayers_recast c hfresh startMs hload,
    ← loadAndPlay_eq, run_recast hcount es hes]
  rfl

/-- Two waves on all panels, half a second apart. -/
def twoWaves : SceneRecord :=
  { SceneRecord.default with
    name := bytes "w"
    layers := [{ SceneLayer.blank with
      groupId := 7
      steps := [({ SceneStep.zero with animType := .wave, durationMs := 1000 } : SceneStep).setParam
        .count 2] }] }

/-- The text of a scene with two waves. -/
def twoWavesJson : Text :=
  bytes "\x7b\"name\":\"w\",\"layers\":[\x7b\"group\":7,\"sequence\":[" ++
    bytes "\x7b\"runner\":\"WAVE\",\"duration\":1000,\"count\":2\x7d]\x7d]\x7d"

def twoWavesAt (startMs : Millis) : ScenePlayer :=
  (init pairScene).loadAndPlay pairProviders twoWaves.layers (plainHeader false 1) startMs

theorem twoWaves_clock_shift :
    (([PlayerEvent.tick 1, .tick 500, .tick 1000].map (PlayerEvent.shifted 5000)).foldl handle
        (twoWavesAt (0 + 5000))).sent =
      ([PlayerEvent.tick 1, .tick 500, .tick 1000].foldl handle (twoWavesAt 0)).sent :=
  run_clock_shift pairProviders twoWaves.layers (plainHeader false 1) (init pairScene) 0 5000
    [.tick 1, .tick 500, .tick 1000] (by decide +kernel) (by decide +kernel)

/-- A quarter of a second before the clock starts over, the second wave comes with the first. -/
theorem twoWaves_wrap : parseScene 300 twoWavesJson = .ok twoWaves ∧
    (twoWavesAt (0 + 4294967046)).sent ≠ (twoWavesAt 0).sent :=
  ⟨by decide +kernel, fun h => absurd (congrArg List.length h) (by decide +kernel)⟩

end ScenePlayer

end Lightnet
