import Lightnet.Playback.SceneTick

/-!
# What the operations of the player leave alone

Firing a step changes what the runner of its layer remembers, a turn of a layer changes how far
that layer has come, and a tick leaves the scene as it is. Nothing that was sent is taken back.
-/

namespace Lightnet

namespace ScenePlayer

/-- A layer without a current step has the step that is all zeros. -/
theorem step_mem_or (p : ScenePlayer) (i : ℕ) : p.step i ∈ (p.layers i).steps ∨ p.step i = .zero := by
  unfold step
  rw [List.getD_eq_getElem?_getD]
  cases h : (p.layers i).steps[p.currentStep i]? with
  | none => exact Or.inr rfl
  | some step => exact Or.inl (List.mem_of_getElem? h)

/-! ### Firing a step -/

structure Fires (i : ℕ) (p q : ScenePlayer) : Prop where
  rest : q = { p with bouncePhase := q.bouncePhase, spawnState := q.spawnState, sent := q.sent }
  bounce : ∀ j, j ≠ i → q.bouncePhase j = p.bouncePhase j
  spawn : ∀ j, j ≠ i → q.spawnState j = p.spawnState j
  sent : p.sent <+: q.sent

namespace Fires

variable {i : ℕ} {p q r : ScenePlayer}

theorem refl (i : ℕ) (p : ScenePlayer) : Fires i p p where
  rest := rfl
  bounce _ _ := rfl
  spawn _ _ := rfl
  sent := List.prefix_rfl

theorem trans (h : Fires i p q) (h' : Fires i q r) : Fires i p r where
  rest := by
    have hr := h'.rest
    rw [h.rest] at hr
    exact hr
  bounce j hj := (h'.bounce j hj).trans (h.bounce j hj)
  spawn j hj := (h'.spawn j hj).trans (h.spawn j hj)
  sent := h.sent.trans h'.sent

theorem layers (h : Fires i p q) : q.layers = p.layers := (congrArg ScenePlayer.layers h.rest :)

theorem lCount (h : Fires i p q) : q.lCount = p.lCount := (congrArg ScenePlayer.lCount h.rest :)

theorem layerState (h : Fires i p q) : q.layerState = p.layerState :=
  (congrArg ScenePlayer.layerState h.rest :)

theorem currentStep (h : Fires i p q) : q.currentStep = p.currentStep :=
  (congrArg ScenePlayer.currentStep h.rest :)

theorem stepStartMs (h : Fires i p q) : q.stepStartMs = p.stepStartMs :=
  (congrArg ScenePlayer.stepStartMs h.rest :)

theorem pendingStop (h : Fires i p q) : q.pendingStop = p.pendingStop :=
  (congrArg ScenePlayer.pendingStop h.rest :)

theorem step (h : Fires i p q) (j : ℕ) : q.step j = p.step j :=
  (congrArg (fun r => ScenePlayer.step r j) h.rest :)

theorem panels (h : Fires i p q) (j : ℕ) : q.panels j = p.panels j :=
  (congrArg (fun r => ScenePlayer.panels r j) h.rest :)

end Fires

variable (p : ScenePlayer) (i : ℕ)

theorem fires_emit (commands : List AnimationScheduler.Command) : Fires i p (p.emit commands) where
  rest := rfl
  bounce _ _ := rfl
  spawn _ _ := rfl
  sent := List.prefix_append _ _

theorem fires_setSpawn (st : LayerSpawnState) : Fires i p (p.setSpawn i st) where
  rest := rfl
  bounce _ _ := rfl
  spawn _ hj := Function.update_of_ne hj _ _
  sent := List.prefix_rfl

theorem fires_stopLayerGroup : Fires i p (p.stopLayerGroup i) := by
  unfold stopLayerGroup
  split_ifs
  · exact .refl i p
  · exact fires_emit p i _

theorem fires_fireBouncePass (passDurMs : Ticks) : Fires i p (p.fireBouncePass i passDurMs) := by
  unfold fireBouncePass
  dsimp only
  split_ifs
  · exact .refl i p
  · exact fires_emit p i _

theorem fires_fireBounceStep (nowMs : Millis) (dur : Ticks) :
    Fires i p (p.fireBounceStep i nowMs dur) :=
  (fires_setSpawn p i _).trans (fires_fireBouncePass _ i _)

theorem fires_nextLeg : Fires i p (p.nextLeg i) := by
  have hphase : Fires i p
      { p with bouncePhase := Function.update p.bouncePhase i !(p.bouncePhase i) } :=
    ⟨rfl, fun _ hj => Function.update_of_ne hj _ _, fun _ _ => rfl, List.prefix_rfl⟩
  exact (hphase.trans (fires_fireBouncePass _ i _)).trans (fires_setSpawn _ i _)

theorem fires_flipBounce (nowMs : Millis) (n : ℕ) : Fires i p (flipBounce i nowMs n p) := by
  induction n generalizing p with
  | zero => exact .refl i p
  | succ n ih =>
      rw [flipBounce]
      split_ifs
      · exact (fires_nextLeg p i).trans (ih _)
      · exact .refl i p

theorem fires_fireWheelStep (nowMs : Millis) (panels : List ℕ) (dur : Ticks) :
    Fires i p (p.fireWheelStep i nowMs panels dur) := by
  unfold fireWheelStep
  split
  · exact .refl i p
  · exact (fires_emit p i _).trans (fires_setSpawn _ i _)

theorem fires_launchSweep (count : ℕ) : Fires i p (p.launchSweep i count) :=
  (fires_emit p i _).trans (fires_setSpawn _ i _)

theorem fires_launchSweeps (nowMs : Millis) (count n : ℕ) :
    Fires i p (launchSweeps i nowMs count n p) := by
  induction n generalizing p with
  | zero => exact .refl i p
  | succ n ih =>
      rw [launchSweeps]
      split_ifs
      · exact (fires_launchSweep p i count).trans (ih _)
      · exact .refl i p

theorem fires_serviceSweepSpawner (nowMs : Millis) : Fires i p (p.serviceSweepSpawner i nowMs) := by
  unfold serviceSweepSpawner
  dsimp only
  split_ifs
  · exact .refl i p
  · exact fires_launchSweeps p i nowMs _ _

theorem fires_fireSweepStep (nowMs : Millis) (panels : List ℕ) (dur : Ticks) :
    Fires i p (p.fireSweepStep i nowMs panels dur) :=
  (fires_setSpawn p i _).trans (fires_serviceSweepSpawner _ i nowMs)

theorem fires_spawnDrop (drops : DropSource) : Fires i p (p.spawnDrop i drops) :=
  (fires_emit p i _).trans (fires_setSpawn _ i _)

theorem fires_spawnDrops (drops : DropSource) (l : List ℕ) :
    Fires i p (l.foldl (fun p _ => p.spawnDrop i drops) p) := by
  induction l generalizing p with
  | nil => exact .refl i p
  | cons d l ih => exact (fires_spawnDrop p i drops).trans (ih _)

theorem fires_serviceParticleSpawner (nowMs : Millis) :
    Fires i p (p.serviceParticleSpawner i nowMs) := by
  unfold serviceParticleSpawner
  dsimp only
  split
  · exact fires_setSpawn p i _
  · exact (fires_setSpawn p i _).trans (fires_spawnDrops _ i _ _)

theorem fires_serviceSpawner (nowMs : Millis) : Fires i p (p.serviceSpawner i nowMs) := by
  unfold serviceSpawner
  split_ifs
  · exact .refl i p
  · exact fires_serviceSweepSpawner p i nowMs
  · exact fires_serviceParticleSpawner p i nowMs

theorem fires_fireStep (nowMs : Millis) : Fires i p (p.fireStep i nowMs) := by
  unfold fireStep
  dsimp only
  split_ifs
  · exact fires_stopLayerGroup p i
  · exact .refl i p
  · exact fires_setSpawn p i _
  · exact .refl i p
  · exact fires_fireBounceStep p i nowMs _
  · exact fires_fireWheelStep p i nowMs _ _
  · exact fires_fireSweepStep p i nowMs _ _
  · exact fires_emit p i _

theorem fires_serviceStep (nowMs : Millis) : Fires i p (p.serviceStep i nowMs) := by
  unfold serviceStep
  dsimp only
  split_ifs
  · exact (fires_setSpawn p i _).trans (fires_stopLayerGroup _ i)
  · exact .refl i p
  · exact fires_flipBounce p i nowMs _
  · exact fires_serviceSpawner p i nowMs
  · exact .refl i p

/-! ### A turn of a layer -/

/-- Everything about a layer that playing it changes. -/
def layerRun (j : ℕ) : ℕ × Millis × LayerState × Bool × Bool × LayerSpawnState :=
  (p.currentStep j, p.stepStartMs j, p.layerState j, p.pendingStop j, p.bouncePhase j,
    p.spawnState j)

/-- Playing does not change the scene. -/
structure Plays (p q : ScenePlayer) : Prop where
  rest : q = { p with
    currentStep := q.currentStep, stepStartMs := q.stepStartMs, layerState := q.layerState,
    pendingStop := q.pendingStop, bouncePhase := q.bouncePhase, spawnState := q.spawnState,
    playing := q.playing, sent := q.sent }
  sent : p.sent <+: q.sent

namespace Plays

variable {p q r : ScenePlayer}

theorem refl (p : ScenePlayer) : Plays p p := ⟨rfl, List.prefix_rfl⟩

theorem trans (h : Plays p q) (h' : Plays q r) : Plays p r where
  rest := by
    have hr := h'.rest
    rw [h.rest] at hr
    exact hr
  sent := h.sent.trans h'.sent

theorem layers (h : Plays p q) : q.layers = p.layers := (congrArg ScenePlayer.layers h.rest :)

theorem lCount (h : Plays p q) : q.lCount = p.lCount := (congrArg ScenePlayer.lCount h.rest :)

theorem speed (h : Plays p q) : q.speed = p.speed := (congrArg ScenePlayer.speed h.rest :)

theorem sceneTopo (h : Plays p q) : q.sceneTopo = p.sceneTopo :=
  (congrArg ScenePlayer.sceneTopo h.rest :)

theorem panels (h : Plays p q) (j : ℕ) : q.panels j = p.panels j :=
  (congrArg (fun r => ScenePlayer.panels r j) h.rest :)

theorem foldl {f : ScenePlayer → ℕ → ScenePlayer} (hf : ∀ p i, Plays p (f p i)) (l : List ℕ)
    (p : ScenePlayer) : Plays p (l.foldl f p) := by
  induction l generalizing p with
  | nil => exact .refl p
  | cons i l ih => exact (hf p i).trans (ih _)

end Plays

theorem Fires.plays {i : ℕ} {p q : ScenePlayer} (h : Fires i p q) : Plays p q := by
  refine ⟨?_, h.sent⟩
  rw [h.rest]

structure Touches (i : ℕ) (p q : ScenePlayer) : Prop where
  plays : Plays p q
  playing : q.playing = p.playing
  other : ∀ j, j ≠ i → q.layerRun j = p.layerRun j

namespace Touches

variable {i : ℕ} {p q r : ScenePlayer}

theorem refl (i : ℕ) (p : ScenePlayer) : Touches i p p := ⟨.refl p, rfl, fun _ _ => rfl⟩

theorem trans (h : Touches i p q) (h' : Touches i q r) : Touches i p r where
  plays := h.plays.trans h'.plays
  playing := h'.playing.trans h.playing
  other j hj := (h'.other j hj).trans (h.other j hj)

end Touches

theorem Fires.touches {i : ℕ} {p q : ScenePlayer} (h : Fires i p q) : Touches i p q where
  plays := h.plays
  playing := (congrArg ScenePlayer.playing h.rest :)
  other j hj := by
    unfold layerRun
    rw [h.currentStep, h.stepStartMs, h.layerState, h.pendingStop, h.bounce j hj, h.spawn j hj]

theorem touches_enterStep (k : ℕ) (nowMs : Millis) : Touches i p (p.enterStep i k nowMs) := by
  have hstart : Touches i p { p with
      currentStep := Function.update p.currentStep i k
      stepStartMs := Function.update p.stepStartMs i nowMs } := by
    refine ⟨⟨rfl, List.prefix_rfl⟩, rfl, fun j hj => ?_⟩
    simp only [layerRun, Function.update_of_ne hj]
  exact hstart.trans (fires_fireStep _ i nowMs).touches

theorem touches_advanceLayer (nowMs : Millis) : Touches i p (p.advanceLayer i nowMs) := by
  unfold advanceLayer
  split_ifs
  · exact touches_enterStep p i _ nowMs
  · exact touches_enterStep p i _ nowMs
  · refine ⟨⟨rfl, List.prefix_rfl⟩, rfl, fun j hj => ?_⟩
    simp only [layerRun, Function.update_of_ne hj]

theorem touches_tickLayer (nowMs : Millis) : Touches i p (tickLayer nowMs p i) := by
  unfold tickLayer
  split_ifs
  · exact .refl i p
  · exact (fires_serviceSpawner p i nowMs).touches
  · exact .refl i p
  · exact (fires_serviceStep p i nowMs).touches
  · exact touches_advanceLayer p i nowMs

theorem touches_promoteLayer (nowMs : Millis) : Touches i p (promoteLayer nowMs p i) := by
  unfold promoteLayer
  split_ifs
  · have hstate : Touches i p
        { p with layerState := Function.update p.layerState i .running } := by
      refine ⟨⟨rfl, List.prefix_rfl⟩, rfl, fun j hj => ?_⟩
      simp only [layerRun, Function.update_of_ne hj]
    exact hstate.trans (touches_enterStep _ i 0 nowMs)
  · exact .refl i p

theorem touches_flushStop (restarting : Bool) : Touches i p (flushStop restarting p i) := by
  have hflag : Touches i p { p with pendingStop := Function.update p.pendingStop i false } := by
    refine ⟨⟨rfl, List.prefix_rfl⟩, rfl, fun j hj => ?_⟩
    simp only [layerRun, Function.update_of_ne hj]
  unfold flushStop
  dsimp only
  split_ifs
  · exact hflag
  · exact hflag.trans (fires_stopLayerGroup _ i).touches
  · exact .refl i p

theorem touches_fireArmed (nowMs : Millis) (includeAsync : Bool) :
    Touches i p (fireArmed nowMs includeAsync p i) := by
  unfold fireArmed
  split_ifs
  · exact (fires_fireStep p i nowMs).touches
  · exact .refl i p

/-- Turns of other layers. -/
theorem foldl_other {f : ScenePlayer → ℕ → ScenePlayer} (hf : ∀ p i, Touches i p (f p i))
    {l : List ℕ} {j : ℕ} (hj : j ∉ l) (p : ScenePlayer) : (l.foldl f p).layerRun j = p.layerRun j := by
  induction l generalizing p with
  | nil => rfl
  | cons i l ih =>
      rw [List.mem_cons, not_or] at hj
      exact (ih hj.2 _).trans ((hf p i).other j hj.1)

theorem foldl_plays {f : ScenePlayer → ℕ → ScenePlayer} (hf : ∀ p i, Touches i p (f p i))
    (l : List ℕ) (p : ScenePlayer) : Plays p (l.foldl f p) :=
  Plays.foldl (fun p i => (hf p i).plays) l p

/-! ### A tick -/

theorem plays_armLayers (nowMs : Millis) (includeAsync : Bool) :
    Plays p (p.armLayers nowMs includeAsync) := by
  unfold armLayers
  refine Plays.trans ?_ (foldl_plays (fun q i => touches_fireArmed q i nowMs includeAsync) _ _)
  exact ⟨rfl, List.prefix_rfl⟩

theorem plays_flushPendingStops (restarting : Bool) : Plays p (p.flushPendingStops restarting) :=
  foldl_plays (fun q i => touches_flushStop q i restarting) _ p

theorem plays_endTick (nowMs : Millis) : Plays p (p.endTick nowMs) := by
  unfold endTick
  dsimp only
  split_ifs
  · exact (plays_flushPendingStops p _).trans (plays_armLayers _ nowMs false)
  · exact plays_flushPendingStops p _
  · exact (plays_flushPendingStops p _).trans ⟨rfl, List.prefix_rfl⟩
  · exact plays_flushPendingStops p _

theorem plays_tick (nowMs : Millis) : Plays p (p.tick nowMs) := by
  unfold tick
  split_ifs
  · exact ((foldl_plays (fun q i => touches_tickLayer q i nowMs) _ p).trans
      (foldl_plays (fun q i => touches_promoteLayer q i nowMs) _ _)).trans (plays_endTick _ nowMs)
  · exact .refl p

theorem plays_run (times : List Millis) : Plays p (p.run times) := by
  induction times generalizing p with
  | nil => exact .refl p
  | cons t times ih => exact (plays_tick p t).trans (ih _)

/-! ### Pools -/

/-- The pools depend on little of the layers. -/
theorem poolOf_congr {p q : ScenePlayer} (hcount : q.lCount = p.lCount)
    (hgroup : ∀ i < p.lCount, (q.layers i).groupId = (p.layers i).groupId)
    (hspawner : ∀ i < p.lCount, (q.layers i).layerIsSpawner = (p.layers i).layerIsSpawner)
    (hsweep : ∀ i < p.lCount, (q.layers i).layerIsSweepSpawner = (p.layers i).layerIsSweepSpawner)
    (hmax : ∀ i < p.lCount, (q.layers i).maxSweepCount = (p.layers i).maxSweepCount) :
    q.poolOf = p.poolOf := by
  have hused : q.maxUsed = p.maxUsed := by
    unfold maxUsed
    rw [hcount]
    refine congrArg (List.foldl max 0) (List.map_congr_left fun i hi => ?_)
    rw [hgroup i (List.mem_range.mp hi)]
  have hbelow : ∀ n ≤ p.lCount, q.spawnersBelow n = p.spawnersBelow n := by
    intro n hn
    unfold spawnersBelow
    refine congrArg List.length (List.filter_congr fun i hi => ?_)
    exact hspawner i ((List.mem_range.mp hi).trans_le hn)
  have hlength : q.poolLength = p.poolLength := by
    unfold poolLength
    rw [hused, hcount, hbelow _ le_rfl]
  funext i
  unfold poolOf
  rw [hcount]
  by_cases hi : i < p.lCount
  · rw [hspawner i hi, hsweep i hi, hmax i hi, hused, hbelow i hi.le, hlength]
  · rw [if_neg fun h => hi h.1, if_neg fun h => hi h.1]

end ScenePlayer

end Lightnet
