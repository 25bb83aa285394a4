import Lightnet.Library.Transition
import Lightnet.Playback.LayerFrames

/-!
# What a player does, one thing after the other

Whatever is asked of a player comes down to a few moves: a layer enters a step, waits or is done,
something is sent for a layer, or the runner of a layer notes something. What every move keeps holds
along all runs.
-/

namespace Lightnet

open AnimationScheduler (Command)

/-- Nothing is changed about the sweeps and the groups of a layer. -/
def LayerSpawnState.SamePlan (st st' : LayerSpawnState) : Prop :=
  st' = { st with
    rng := st'.rng, accumMs := st'.accumMs, lastServiceMs := st'.lastServiceMs
    wheelStopAtMs := st'.wheelStopAtMs, bounceNextFlipAtMs := st'.bounceNextFlipAtMs
    bouncePassDur := st'.bouncePassDur }

namespace ScenePlayer

/-- The layers that are armed are at their first steps. -/
def armed (p : ScenePlayer) (nowMs : Millis) (includeAsync : Bool) : ScenePlayer :=
  { p with
    currentStep := fun i => if p.isArmed includeAsync i then 0 else p.currentStep i
    stepStartMs := fun i => if p.isArmed includeAsync i then nowMs else p.stepStartMs i
    layerState := fun i => if p.isArmed includeAsync i then armedState (p.layers i)
      else p.layerState i }

def entered (p : ScenePlayer) (i k : ℕ) (nowMs : Millis) : ScenePlayer :=
  { p with
    currentStep := Function.update p.currentStep i k
    stepStartMs := Function.update p.stepStartMs i nowMs }

def finished (p : ScenePlayer) (i : ℕ) : ScenePlayer :=
  { p with
    pendingStop := Function.update p.pendingStop i true
    layerState := Function.update p.layerState i .done }

def woken (p : ScenePlayer) (i : ℕ) : ScenePlayer :=
  { p with layerState := Function.update p.layerState i .running }

def flushed (p : ScenePlayer) (i : ℕ) : ScenePlayer :=
  { p with pendingStop := Function.update p.pendingStop i false }

def flipped (p : ScenePlayer) (i : ℕ) : ScenePlayer :=
  { p with bouncePhase := Function.update p.bouncePhase i !(p.bouncePhase i) }

/-- What a spawner knows about its sweeps when a sweep step is fired. -/
def sweepState (p : ScenePlayer) (i : ℕ) : LayerSpawnState :=
  let step := p.step i
  let (sweepMaxCoord, sweepPanels) := p.sweepField step (p.panels i)
  { p.spawnState i with
    sweepPanels, sweepMaxCoord
    sweepWidth := sweepWidthOf step
    sweepDurationMs := p.effectiveDurationMs step.durationMs
    sweepSpawnIndex := 0
    nextSpawnMs := p.stepStartMs i }

/-- A sweep step of a layer that has a duration and panels. -/
def SweepsAt (p : ScenePlayer) (i : ℕ) : Prop :=
  isSweepRunner (p.step i).animType = true ∧ p.panels i ≠ [] ∧
    p.effectiveDurationMs (p.step i).durationMs ≠ 0

/-- The drops of a particle step under the speed of the scene. -/
def dropSource (p : ScenePlayer) (i : ℕ) : Option DropSource :=
  let step := p.step i
  let waves := if step.params .waves = 0 then 1 else step.params .waves
  p.sceneTopo.dropsOf (p.layers i).target step (spawnIntervalMs waves)
    (if p.speed < Single.round (1 / 10) then Single.round (1 / 10) else p.speed)

/-- A layer of the scene that is running. -/
structure Running (p : ScenePlayer) (i : ℕ) : Prop where
  lt : i < p.lCount
  state : p.layerState i = .running

theorem Running.congr {p q : ScenePlayer} {i : ℕ} (h : p.Running i) (hcount : q.lCount = p.lCount)
    (hstate : q.layerState = p.layerState) : q.Running i := by
  refine ⟨?_, ?_⟩
  · rw [hcount]
    exact h.lt
  · rw [hstate]
    exact h.state

theorem Running.fires {p q : ScenePlayer} {i : ℕ} (h : p.Running i) (hf : Fires i p q) :
    q.Running i := h.congr hf.lCount hf.layerState

/-- What is done for one layer. -/
inductive Moves (nowMs : Millis) (i : ℕ) : ScenePlayer → ScenePlayer → Prop
  | enter (p : ScenePlayer) (k : ℕ) (h : p.Running i)
      (hk : k = 0 ∨ k < (p.layers i).steps.length) : Moves nowMs i p (p.entered i k nowMs)
  | finish (p : ScenePlayer) (h : p.Running i) : Moves nowMs i p (p.finished i)
  | wake (p : ScenePlayer) (hi : i < p.lCount) (hwait : p.layerState i = .waiting)
      (hplay : p.playing = true) : Moves nowMs i p (p.woken i)
  | flush (p : ScenePlayer) : Moves nowMs i p (p.flushed i)
  | stop (p : ScenePlayer) (hi : i < p.lCount) : Moves nowMs i p (p.stopLayerGroup i)
  | light (p : ScenePlayer) (h : p.Running i) (htype : isRunnerType (p.step i).animType = false) :
      Moves nowMs i p
        (p.fireLocalAnimStep i (p.panels i) (p.effectiveDurationMs (p.step i).durationMs))
  | flip (p : ScenePlayer) : Moves nowMs i p (p.flipped i)
  | bounce (p : ScenePlayer) (passDurMs : Ticks) (h : p.Running i)
      (htype : (p.step i).animType = .bounce) : Moves nowMs i p (p.fireBouncePass i passDurMs)
  | spin (p : ScenePlayer) (turns : List ℚ) (h : p.Running i)
      (htype : (p.step i).animType = .wheel)
      (hturns : p.wheelTurns i (p.panels i) = some turns) :
      Moves nowMs i p (p.startWheel i nowMs (p.panels i)
        (p.effectiveDurationMs (p.step i).durationMs) turns)
  | aim (p : ScenePlayer) (h : p.Running i) (hsweep : p.SweepsAt i) :
      Moves nowMs i p (p.setSpawn i (p.sweepState i))
  | launch (p : ScenePlayer) (h : p.Running i)
      (hsweep : isSweepRunner (p.step i).animType = true)
      (hpool : (p.spawnState i).poolSize = 0 → p.SweepsAt i) :
      Moves nowMs i p (p.launchSweep i (sweepSpawnCount ((p.step i).params .count)))
  | drop (p : ScenePlayer) (drops : DropSource) (h : p.Running i)
      (htype : isParticleRunner (p.step i).animType = true)
      (hdrops : p.dropSource i = some drops) (hpool : (p.spawnState i).poolSize ≠ 0) :
      Moves nowMs i p (p.spawnDrop i drops)
  | note (p : ScenePlayer) (st : LayerSpawnState) (h : p.Running i)
      (hplan : (p.spawnState i).SamePlan st) : Moves nowMs i p (p.setSpawn i st)

/-- What is done for a layer or for the scene. -/
inductive SceneMoves (nowMs : Millis) : ScenePlayer → ScenePlayer → Prop
  | layer {i : ℕ} {p q : ScenePlayer} (h : Moves nowMs i p q) : SceneMoves nowMs p q
  | arm (p : ScenePlayer) (includeAsync : Bool) (hplay : p.playing = true) :
      SceneMoves nowMs p (p.armed nowMs includeAsync)
  | halt (p : ScenePlayer) : SceneMoves nowMs p { p with playing := false }

/-- A player comes from one state to another by moves for one layer. -/
abbrev DoesFor (nowMs : Millis) (i : ℕ) : ScenePlayer → ScenePlayer → Prop :=
  Relation.ReflTransGen (Moves nowMs i)

abbrev Does (nowMs : Millis) : ScenePlayer → ScenePlayer → Prop :=
  Relation.ReflTransGen (SceneMoves nowMs)

theorem DoesFor.does {nowMs : Millis} {i : ℕ} {p q : ScenePlayer} (h : DoesFor nowMs i p q) :
    Does nowMs p q :=
  Relation.ReflTransGen.mono (fun _ _ hmove => SceneMoves.layer hmove) _ _ h

/-! ### Firing a step -/

section

variable {nowMs : Millis} {p : ScenePlayer} {i : ℕ} (h : p.Running i)

include h

theorem does_fireBounceStep (htype : (p.step i).animType = .bounce) (dur : Ticks) :
    DoesFor nowMs i p (p.fireBounceStep i nowMs dur) := by
  unfold fireBounceStep
  dsimp only
  refine Relation.ReflTransGen.tail (.single (.note p _ h ?_)) (.bounce _ _ ?_ htype)
  · rfl
  · exact h.congr rfl rfl

theorem does_nextLeg (htype : (p.step i).animType = .bounce) : DoesFor nowMs i p (p.nextLeg i) := by
  have hpass := fires_fireBouncePass (p.flipped i) i (p.spawnState i).bouncePassDur
  have hrun : (p.flipped i).Running i := h.congr rfl rfl
  have hsend : DoesFor nowMs i p ((p.flipped i).fireBouncePass i (p.spawnState i).bouncePassDur) :=
    .tail (.single (.flip p)) (.bounce _ _ hrun htype)
  refine hsend.tail (.note _ _ (hrun.fires hpass) ?_)
  have hst : ((p.flipped i).fireBouncePass i (p.spawnState i).bouncePassDur).spawnState i =
      p.spawnState i := by
    unfold fireBouncePass
    dsimp only
    split_ifs <;> rfl
  rw [hst]
  rfl

theorem does_flipBounce (htype : (p.step i).animType = .bounce) (n : ℕ) :
    DoesFor nowMs i p (flipBounce i nowMs n p) := by
  induction n generalizing p with
  | zero => exact .refl
  | succ n ih =>
      have hleg := fires_nextLeg p i
      rw [flipBounce]
      split_ifs
      · exact (does_nextLeg h htype).trans (ih (h.fires hleg) (hleg.step i ▸ htype))
      · exact .refl

theorem does_fireWheelStep (htype : (p.step i).animType = .wheel) :
    DoesFor nowMs i p
      (p.fireWheelStep i nowMs (p.panels i) (p.effectiveDurationMs (p.step i).durationMs)) := by
  unfold fireWheelStep
  cases hturns : p.wheelTurns i (p.panels i) with
  | none => exact .refl
  | some turns => exact .single (.spin p turns h htype hturns)

theorem does_launchSweeps (hsweep : isSweepRunner (p.step i).animType = true)
    (hpool : (p.spawnState i).poolSize = 0 → p.SweepsAt i) (n : ℕ) :
    DoesFor nowMs i p
      (launchSweeps i nowMs (sweepSpawnCount ((p.step i).params .count)) n p) := by
  induction n generalizing p with
  | zero => exact .refl
  | succ n ih =>
      rw [launchSweeps]
      split_ifs
      · refine Relation.ReflTransGen.trans (.single (.launch p h hsweep hpool)) (ih ?_ hsweep ?_)
        · exact h.congr rfl rfl
        · intro hsize
          simp only [launchSweep, setSpawn, Function.update_self] at hsize
          exact hpool hsize
      · exact .refl

theorem does_serviceSweepSpawner (hsweep : isSweepRunner (p.step i).animType = true)
    (hpool : (p.spawnState i).poolSize = 0 → p.SweepsAt i) :
    DoesFor nowMs i p (p.serviceSweepSpawner i nowMs) := by
  unfold serviceSweepSpawner
  dsimp only
  split_ifs
  · exact .refl
  · exact does_launchSweeps h hsweep hpool _

theorem does_fireSweepStep (hsweep : p.SweepsAt i) :
    DoesFor nowMs i p
      (p.fireSweepStep i nowMs (p.panels i) (p.effectiveDurationMs (p.step i).durationMs)) := by
  have haim : DoesFor nowMs i p (p.setSpawn i (p.sweepState i)) := .single (.aim p h hsweep)
  have hrun : (p.setSpawn i (p.sweepState i)).Running i := h.congr rfl rfl
  exact haim.trans (does_serviceSweepSpawner hrun hsweep.1 fun _ => hsweep)

theorem does_spawnDrops (htype : isParticleRunner (p.step i).animType = true)
    (hpool : (p.spawnState i).poolSize ≠ 0) {drops : DropSource}
    (hdrops : p.dropSource i = some drops) (l : List ℕ) :
    DoesFor nowMs i p (l.foldl (fun p _ => p.spawnDrop i drops) p) := by
  induction l generalizing p with
  | nil => exact .refl
  | cons d l ih =>
      refine Relation.ReflTransGen.trans (.single (.drop p drops h htype hdrops hpool))
        (ih ?_ htype ?_ hdrops)
      · exact h.congr rfl rfl
      · simp only [spawnDrop, setSpawn, Function.update_self]
        exact hpool

theorem does_serviceParticleSpawner (htype : isParticleRunner (p.step i).animType = true)
    (hpool : (p.spawnState i).poolSize ≠ 0) :
    DoesFor nowMs i p (p.serviceParticleSpawner i nowMs) := by
  unfold serviceParticleSpawner
  dsimp only
  split
  · exact .single (.note p _ h rfl)
  next drops hdrops =>
    refine Relation.ReflTransGen.head (.note p _ h ?_)
      (does_spawnDrops (p := p.setSpawn i _) ?_ htype ?_ hdrops _)
    · rfl
    · exact h.congr rfl rfl
    · simp only [setSpawn, Function.update_self]
      exact hpool

theorem does_serviceSpawner (hspawner : isSpawner (p.step i).animType = true) :
    DoesFor nowMs i p (p.serviceSpawner i nowMs) := by
  unfold serviceSpawner
  split_ifs with hsize hsweep
  · exact .refl
  · exact does_serviceSweepSpawner h hsweep fun hzero => absurd hzero hsize
  · refine does_serviceParticleSpawner h ?_ hsize
    rw [isSpawner, eq_false_of_ne_true hsweep, Bool.or_false] at hspawner
    exact hspawner

theorem does_fireStep : DoesFor nowMs i p (p.fireStep i nowMs) := by
  unfold fireStep
  dsimp only
  split_ifs with hgap hpanels hrunner hparticle hdur hbounce hwheel
  · exact .single (.stop p h.lt)
  · exact .refl
  · exact .single (.note p _ h rfl)
  · exact .refl
  · exact does_fireBounceStep h hbounce _
  · exact does_fireWheelStep h hwheel
  · refine does_fireSweepStep h ⟨?_, hpanels, hdur⟩
    revert hgap hrunner hparticle hbounce hwheel
    cases (p.step i).animType <;> decide
  · exact .single (.light p h (eq_false_of_ne_true hrunner))

theorem does_serviceStep : DoesFor nowMs i p (p.serviceStep i nowMs) := by
  unfold serviceStep
  dsimp only
  split_ifs with hwheel hdue hbounce hspawn
  · refine Relation.ReflTransGen.tail (.single (.note p _ h ?_)) (.stop _ h.lt)
    rfl
  · exact .refl
  · exact does_flipBounce h hbounce _
  · exact does_serviceSpawner h hspawn
  · exact .refl

theorem does_enterStep {k : ℕ} (hk : k = 0 ∨ k < (p.layers i).steps.length) :
    DoesFor nowMs i p (p.enterStep i k nowMs) := by
  have hrun : (p.entered i k nowMs).Running i := h.congr rfl rfl
  exact Relation.ReflTransGen.trans (.single (.enter p k h hk)) (does_fireStep hrun)

theorem does_advanceLayer : DoesFor nowMs i p (p.advanceLayer i nowMs) := by
  unfold advanceLayer
  split_ifs with hnext
  · exact does_enterStep h (Or.inr hnext)
  · exact does_enterStep h (Or.inl rfl)
  · exact .single (.finish p h)

end

/-! ### A tick -/

section

variable (nowMs : Millis) (p : ScenePlayer) {i : ℕ} (hi : i < p.lCount)

include hi

theorem does_tickLayer : DoesFor nowMs i p (tickLayer nowMs p i) := by
  unfold tickLayer
  split_ifs with hstate hzero hspawner
  · exact .refl
  all_goals have h : p.Running i := ⟨hi, not_not.mp hstate⟩
  · exact does_serviceSpawner h hspawner
  · exact .refl
  · exact does_serviceStep h
  · exact does_advanceLayer h

theorem does_promoteLayer (hplay : p.playing = true) : DoesFor nowMs i p (promoteLayer nowMs p i) := by
  unfold promoteLayer
  split_ifs with hready
  · have hrun : (p.woken i).Running i := ⟨hi, Function.update_self _ _ _⟩
    exact Relation.ReflTransGen.trans (.single (.wake p hi hready.1 hplay)) (does_enterStep hrun (Or.inl rfl))
  · exact .refl

theorem does_flushStop (restarting : Bool) : DoesFor nowMs i p (flushStop restarting p i) := by
  unfold flushStop
  dsimp only
  split_ifs
  · exact .single (.flush p)
  · exact Relation.ReflTransGen.tail (.single (.flush p)) (.stop _ hi)
  · exact .refl

theorem does_fireArmed (includeAsync : Bool) : DoesFor nowMs i p (fireArmed nowMs includeAsync p i) := by
  unfold fireArmed
  split_ifs with hrun
  · exact does_fireStep ⟨hi, hrun.2⟩
  · exact .refl

end

/-- Turns of layers of the scene. -/
theorem does_foldl (nowMs : Millis) {f : ScenePlayer → ℕ → ScenePlayer}
    (htouch : ∀ p i, Touches i p (f p i))
    (hf : ∀ p i, i < p.lCount → p.playing = true → DoesFor nowMs i p (f p i)) {l : List ℕ} {p : ScenePlayer}
    (hl : ∀ i ∈ l, i < p.lCount) (hplay : p.playing = true) :
    Does nowMs p (l.foldl f p) ∧ (l.foldl f p).playing = true := by
  induction l generalizing p with
  | nil => exact ⟨.refl, hplay⟩
  | cons i l ih =>
      have ht := htouch p i
      obtain ⟨hdoes, hplays⟩ := ih (p := f p i)
        (fun j hj => ht.plays.lCount ▸ hl j (List.mem_cons_of_mem i hj)) (ht.playing.trans hplay)
      exact ⟨(hf p i (hl i List.mem_cons_self) hplay).does.trans hdoes, hplays⟩

section

variable (nowMs : Millis) {p : ScenePlayer} (hplay : p.playing = true)

include hplay

omit hplay in
/-- What follows once the layers are armed. -/
theorem does_fireArmedLayers (includeAsync : Bool) (hplay : p.playing = true) :
    Does nowMs (p.armed nowMs includeAsync) (p.armLayers nowMs includeAsync) :=
  (does_foldl (p := p.armed nowMs includeAsync) nowMs
    (fun q i => touches_fireArmed q i nowMs includeAsync)
    (fun q _ hi _ => does_fireArmed nowMs q hi includeAsync) (l := List.range p.lCount)
    (fun _ hi => List.mem_range.mp hi) hplay).1

theorem does_armLayers (includeAsync : Bool) : Does nowMs p (p.armLayers nowMs includeAsync) :=
  .head (.arm p includeAsync hplay) (does_fireArmedLayers nowMs includeAsync hplay)

theorem does_endTick : Does nowMs p (p.endTick nowMs) := by
  have hflush (restarting : Bool) := does_foldl (p := p) nowMs
    (fun q i => touches_flushStop q i restarting)
    (fun q i hi _ => does_flushStop nowMs q hi restarting) (l := List.range p.lCount)
    (fun i hi => List.mem_range.mp hi) hplay
  unfold endTick
  dsimp only
  split_ifs
  · exact (hflush _).1.trans (does_armLayers nowMs (hflush _).2 false)
  · exact (hflush _).1
  · exact (hflush _).1.tail (.halt _)
  · exact (hflush _).1

end

/-- The player when the layers have had their turns, before the end of the tick. -/
def atBarrier (p : ScenePlayer) (nowMs : Millis) : ScenePlayer :=
  ((List.range p.lCount).foldl (tickLayer nowMs) p).promoteReadyLayers nowMs

theorem does_atBarrier {p : ScenePlayer} (hplay : p.playing = true) (nowMs : Millis) :
    Does nowMs p (p.atBarrier nowMs) ∧ (p.atBarrier nowMs).playing = true := by
  obtain ⟨hturns, hplay⟩ := does_foldl (p := p) nowMs
    (fun q i => touches_tickLayer q i nowMs) (fun q i hi _ => does_tickLayer nowMs q hi)
    (l := List.range p.lCount) (fun i hi => List.mem_range.mp hi) hplay
  obtain ⟨hwakes, hplay⟩ := does_foldl nowMs
    (fun q i => touches_promoteLayer q i nowMs)
    (fun q i hi hplay => does_promoteLayer nowMs q hi hplay) (fun i hi => List.mem_range.mp hi) hplay
  exact ⟨hturns.trans hwakes, hplay⟩

theorem does_tick (p : ScenePlayer) (nowMs : Millis) : Does nowMs p (p.tick nowMs) := by
  unfold tick
  split_ifs with hplay
  · obtain ⟨hdoes, hplay⟩ := does_atBarrier hplay nowMs
    exact hdoes.trans (does_endTick nowMs hplay)
  · exact .refl

theorem Moves.plays {nowMs : Millis} {i : ℕ} {p q : ScenePlayer} (h : Moves nowMs i p q) :
    Plays p q := by
  cases h with
  | enter k h hk => exact ⟨rfl, List.prefix_rfl⟩
  | finish h => exact ⟨rfl, List.prefix_rfl⟩
  | wake hi hwait hplay => exact ⟨rfl, List.prefix_rfl⟩
  | flush => exact ⟨rfl, List.prefix_rfl⟩
  | stop hi => exact (fires_stopLayerGroup p i).plays
  | light h htype => exact (fires_emit p i _).plays
  | flip => exact ⟨rfl, List.prefix_rfl⟩
  | bounce passDurMs h htype => exact (fires_fireBouncePass p i passDurMs).plays
  | spin turns h htype hturns => exact ((fires_emit p i _).trans (fires_setSpawn _ i _)).plays
  | aim h hsweep => exact (fires_setSpawn p i _).plays
  | launch h hsweep hpool => exact (fires_launchSweep p i _).plays
  | drop drops h htype hdrops hpool => exact (fires_spawnDrop p i drops).plays
  | note st h hplan => exact (fires_setSpawn p i st).plays

theorem SceneMoves.plays {nowMs : Millis} {p q : ScenePlayer} (h : SceneMoves nowMs p q) :
    Plays p q := by
  cases h with
  | layer h => exact h.plays
  | arm includeAsync hplay => exact ⟨rfl, List.prefix_rfl⟩
  | halt => exact ⟨rfl, List.prefix_rfl⟩

/-! ### What a move sends -/

/-- The group that the next sweep or drop of a layer is under. -/
def nextGroup (p : ScenePlayer) (i : ℕ) : Byte :=
  (spawnPoolNext (p.spawnState i).cursor (p.spawnState i).poolBase (p.spawnState i).poolSize).1

/-- What is sent for a layer: a stop, a prepare or a start under its own group, or a prepare or a
start for a spawner. -/
inductive Sends (p : ScenePlayer) (i : ℕ) : Command → Prop
  | stop (hi : i < p.lCount) :
      Sends p i (.sendControlToPanels (p.layers i).groupId .stop (p.panels i))
  | own {a : ℕ} {pkt : PacketAnimationPrepare} (h : p.Running i) (ha : a ∈ p.panels i)
      (hgroup : pkt.groupId = (p.layers i).groupId) (horder : pkt.composeOrder = u8 i)
      (hflags : pkt.flags = (p.step i).flags ∨ pkt.flags = 0 ∨ pkt.flags = flagLoop)
      (huses : stepUsesLayerGroup (p.step i) = true) : Sends p i (.sendPrepareToPanel a pkt)
  | start (h : p.Running i) (huses : stepUsesLayerGroup (p.step i) = true) :
      Sends p i (.sendGroupStart (p.layers i).groupId)
  | spawned {a : ℕ} {pkt : PacketAnimationPrepare} (h : p.Running i)
      (hgroup : pkt.groupId = p.nextGroup i) (horder : pkt.composeOrder = u8 i)
      (hflags : pkt.flags = flagReapOnDone) (hspawner : isSpawner (p.step i).animType = true)
      (hpool : (p.spawnState i).poolSize = 0 → p.SweepsAt i) : Sends p i (.sendPrepareToPanel a pkt)
  | spawnStart (h : p.Running i) (hspawner : isSpawner (p.step i).animType = true)
      (hpool : (p.spawnState i).poolSize = 0 → p.SweepsAt i) :
      Sends p i (.sendGroupStart (p.nextGroup i))

theorem Sends.lt {p : ScenePlayer} {i : ℕ} {c : Command} (h : p.Sends i c) : i < p.lCount := by
  cases h with
  | stop hi => exact hi
  | own h ha hgroup horder hflags huses => exact h.lt
  | start h huses => exact h.lt
  | spawned h hgroup horder hflags hspawner hpool => exact h.lt
  | spawnStart h hspawner hpool => exact h.lt

theorem mem_sendPulse {i : ℕ} {groupId flags : Byte} {style : RunnerStyle} {panel : ℕ}
    {cp : CompiledPulse} {c : Command} (hc : c ∈ sendPulse i groupId flags style panel cp) :
    c = .sendPrepareToPanel panel
      (pulsePacket i groupId flags style cp.durationMs cp.startDelayMs cp.risePct cp.fallPct) := by
  unfold sendPulse at hc
  split_ifs at hc
  · exact List.mem_singleton.mp hc
  · cases hc

/-- Whatever a move adds to what has been sent. -/
theorem Moves.sends {nowMs : Millis} {i : ℕ} {p q : ScenePlayer} (h : Moves nowMs i p q) :
    ∃ new, q.sent = p.sent ++ new ∧ ∀ c ∈ new, p.Sends i c := by
  have hnothing : ∃ new, p.sent = p.sent ++ new ∧ ∀ c ∈ new, p.Sends i c :=
    ⟨[], (List.append_nil _).symm, by simp⟩
  cases h with
  | enter k h hk => exact hnothing
  | finish h => exact hnothing
  | wake hi hwait hplay => exact hnothing
  | flush => exact hnothing
  | stop hi =>
      unfold stopLayerGroup
      split_ifs
      · exact hnothing
      · refine ⟨_, rfl, fun c hc => ?_⟩
        rw [List.mem_singleton.mp hc]
        exact .stop hi
  | light h htype =>
      have huses : stepUsesLayerGroup (p.step i) = true := by
        unfold stepUsesLayerGroup
        rw [htype]
        rfl
      refine ⟨_, rfl, fun c hc => ?_⟩
      rcases List.mem_append.mp hc with hc | hc
      · obtain ⟨a, ha, rfl⟩ := List.mem_map.mp hc
        exact .own h ha rfl rfl (Or.inl rfl) huses
      · rw [List.mem_singleton.mp hc]
        exact .start h huses
  | flip => exact hnothing
  | bounce passDurMs h htype =>
      have huses : stepUsesLayerGroup (p.step i) = true := by simp [stepUsesLayerGroup, htype]
      unfold fireBouncePass
      dsimp only
      split_ifs
      · exact hnothing
      · refine ⟨_, rfl, fun c hc => ?_⟩
        rcases List.mem_append.mp hc with hc | hc
        · obtain ⟨x, hx, hpulse⟩ := List.mem_flatMap.mp hc
          rw [mem_sendPulse hpulse]
          exact .own h (List.of_mem_zip hx).1 rfl rfl (Or.inr (Or.inl rfl)) huses
        · rw [List.mem_singleton.mp hc]
          exact .start h huses
  | spin turns h htype hturns =>
      have huses : stepUsesLayerGroup (p.step i) = true := by simp [stepUsesLayerGroup, htype]
      refine ⟨_, rfl, fun c hc => ?_⟩
      rcases List.mem_append.mp hc with hc | hc
      · obtain ⟨x, hx, hpulse⟩ := List.mem_flatMap.mp hc
        rw [mem_sendPulse hpulse]
        exact .own h (List.of_mem_zip hx).1 rfl rfl (Or.inr (Or.inr rfl)) huses
      · rw [List.mem_singleton.mp hc]
        exact .start h huses
  | aim h hsweep => exact hnothing
  | launch h hsweep hpool =>
      have hspawner : isSpawner (p.step i).animType = true := by simp [isSpawner, hsweep]
      refine ⟨_, rfl, fun c hc => ?_⟩
      rcases List.mem_append.mp hc with hc | hc
      · obtain ⟨x, -, hpulse⟩ := List.mem_flatMap.mp hc
        rw [mem_sendPulse hpulse]
        exact .spawned h rfl rfl rfl hspawner hpool
      · rw [List.mem_singleton.mp hc]
        exact .spawnStart h hspawner hpool
  | drop drops h htype hdrops hpool =>
      have hspawner : isSpawner (p.step i).animType = true := by simp [isSpawner, htype]
      have hpool' : (p.spawnState i).poolSize = 0 → p.SweepsAt i := fun hzero => absurd hzero hpool
      refine ⟨_, rfl, fun c hc => ?_⟩
      cases hdrop : (drops (p.spawnState i).rng).1 with
      | none =>
          simp only [hdrop] at hc
          cases hc
      | some d =>
          simp only [hdrop] at hc
          rcases List.mem_append.mp hc with hc | hc
          · obtain ⟨dp, -, rfl⟩ := List.mem_map.mp hc
            exact .spawned h rfl rfl rfl hspawner hpool'
          · rw [List.mem_singleton.mp hc]
            exact .spawnStart h hspawner hpool'
  | note st h hplan => exact hnothing

/-! ### What is asked of a player -/

def withLayers (p : ScenePlayer) (layers : List SceneLayer) : ScenePlayer :=
  { p with
    lCount := min layers.length sceneMaxLayers
    layers := fun i =>
      if i < min layers.length sceneMaxLayers then layers.getD i .blank else p.layers i }

theorem withLayers_layer (p : ScenePlayer) {layers : List SceneLayer}
    (h : layers.length ≤ sceneMaxLayers) {i : ℕ} (hi : i < (p.withLayers layers).lCount) :
    ∃ hlt : i < layers.length, (p.withLayers layers).layers i = layers[i] := by
  have hlt : i < layers.length := by
    change i < min layers.length sceneMaxLayers at hi
    rwa [min_eq_left h] at hi
  refine ⟨hlt, ?_⟩
  have hlayer : (p.withLayers layers).layers i = layers.getD i .blank := if_pos hi
  rw [hlayer, List.getD_eq_getElem?_getD, List.getElem?_eq_getElem hlt]
  rfl

theorem loadAndPlay_eq (p : ScenePlayer) (env : SceneProviders) (layers : List SceneLayer)
    (header : Header) (nowMs : Millis) :
    p.loadAndPlay env layers header nowMs =
      ((p.withLayers layers).enterScene env header).armLayers nowMs true := rfl

/-- The scene in memory is entered anew. -/
def reentered (p : ScenePlayer) (env : SceneProviders) : ScenePlayer :=
  { p with lCount := min p.lCount sceneMaxLayers }.enterScene env p.header

theorem resume_eq (p : ScenePlayer) (env : SceneProviders) (nowMs : Millis) :
    p.resume env nowMs =
      if p.lCount = 0 then p else (p.reentered env).armLayers nowMs true := rfl

def withRoot (p : ScenePlayer) (panelIndex : Byte) : ScenePlayer :=
  { p with logicalRoot := if panelIndex = 0 then 1 else panelIndex }

end ScenePlayer

/-- What a playing scene is told; palettes and the topology are those of the moment. -/
inductive PlayerEvent where
  | tick (nowMs : Millis)
  | stop
  | resume (env : SceneProviders) (nowMs : Millis)
  | setSpeed (s : ℚ)
  | setLogicalRoot (env : SceneProviders) (panelIndex : Byte) (nowMs : Millis)
  | reresolvePalettes (env : SceneProviders) (newPal : Text)
      (newColors : Option (Fin baseColorsCount → ColorRGB))

namespace ScenePlayer

def handle (p : ScenePlayer) : PlayerEvent → ScenePlayer
  | .tick nowMs => p.tick nowMs
  | .stop => p.stop
  | .resume env nowMs => p.resume env nowMs
  | .setSpeed s => p.setSpeed s
  | .setLogicalRoot env panelIndex nowMs => p.setLogicalRoot env panelIndex nowMs
  | .reresolvePalettes env newPal newColors => p.reresolvePalettes env newPal newColors

/-- The scene in memory stays. -/
theorem handle_layers {p : ScenePlayer} (hcount : p.lCount ≤ sceneMaxLayers) (e : PlayerEvent) :
    (p.handle e).layers = p.layers ∧ (p.handle e).lCount = p.lCount := by
  have hresume (q : ScenePlayer) (env : SceneProviders) (nowMs : Millis)
      (hq : q.lCount ≤ sceneMaxLayers) :
      (q.resume env nowMs).layers = q.layers ∧ (q.resume env nowMs).lCount = q.lCount := by
    rw [resume_eq]
    split_ifs
    · exact ⟨rfl, rfl⟩
    · have hplays := plays_armLayers (q.reentered env) nowMs true
      exact ⟨hplays.layers, hplays.lCount.trans (min_eq_left hq)⟩
  cases e with
  | tick nowMs => exact ⟨(plays_tick p nowMs).layers, (plays_tick p nowMs).lCount⟩
  | stop => exact ⟨rfl, rfl⟩
  | resume env nowMs => exact hresume p env nowMs hcount
  | setSpeed s => exact ⟨rfl, rfl⟩
  | setLogicalRoot env panelIndex nowMs =>
      let unrooted : ScenePlayer :=
        { p.withRoot panelIndex with sceneTopo := env.rebuild (p.withRoot panelIndex).logicalRoot }
      change (if p.playing = true then (p.withRoot panelIndex).resume env nowMs
        else unrooted).layers = _ ∧ (if p.playing = true then (p.withRoot panelIndex).resume env nowMs
        else unrooted).lCount = _
      split_ifs
      · exact hresume _ env nowMs hcount
      · exact ⟨rfl, rfl⟩
  | reresolvePalettes env newPal newColors =>
      change (p.reresolvePalettes env newPal newColors).layers = _ ∧
        (p.reresolvePalettes env newPal newColors).lCount = _
      unfold reresolvePalettes
      by_cases hidle : (!p.playing || decide (p.lCount = 0)) = true
      · rw [if_pos hidle]
        exact ⟨rfl, rfl⟩
      · rw [if_neg hidle]
        exact ⟨rfl, rfl⟩

theorem run_layers {p : ScenePlayer} (hcount : p.lCount ≤ sceneMaxLayers) (es : List PlayerEvent) :
    (es.foldl handle p).layers = p.layers ∧ (es.foldl handle p).lCount = p.lCount := by
  induction es generalizing p with
  | nil => exact ⟨rfl, rfl⟩
  | cons e es ih =>
      obtain ⟨hlayers, hsame⟩ := handle_layers hcount e
      obtain ⟨hlayers', hsame'⟩ := ih (p := p.handle e) (hsame.le.trans hcount)
      exact ⟨hlayers'.trans hlayers, hsame'.trans hsame⟩

end ScenePlayer

end Lightnet
