import Lightnet.Animation.Scheduler
import Lightnet.Playback.RunnerCompile
import Lightnet.Playback.RunnerSpawn

/-!
# The scene player: firing steps

Every layer runs through its steps. Firing a step either starts one animation on the panels of the
layer, or compiles a runner into pulses, or arms a spawner that is serviced while the step lasts.
-/

namespace Lightnet

open AnimationScheduler (Command playOnPanels)

def resolveComposeMode (blend : ComposeMode) (runnerDefaultMax : Bool) : ComposeMode :=
  if blend = .default then if runnerDefaultMax then .max else .opaqueTop else blend

inductive LayerState where
  | waiting | running | done
  deriving DecidableEq

/-- A panel of a sweep, with the near and the far edge of its band. -/
structure SweepPanel where
  panel : ℕ
  coord : Byte
  coordFar : Byte
  deriving DecidableEq

structure LayerSpawnState where
  rng : BitVec 32
  accumMs : Millis
  lastServiceMs : Millis
  cursor : Ticks
  poolBase : Byte
  poolSize : Byte
  sweepPanels : List SweepPanel
  sweepMaxCoord : Byte
  sweepWidth : Byte
  sweepDurationMs : Ticks
  sweepSpawnIndex : ℕ
  nextSpawnMs : Millis
  wheelStopAtMs : Millis
  bounceNextFlipAtMs : Millis
  bouncePassDur : Ticks
  deriving DecidableEq

def LayerSpawnState.zero : LayerSpawnState where
  rng := 0
  accumMs := 0
  lastServiceMs := 0
  cursor := 0
  poolBase := 0
  poolSize := 0
  sweepPanels := []
  sweepMaxCoord := 0
  sweepWidth := 0
  sweepDurationMs := 0
  sweepSpawnIndex := 0
  nextSpawnMs := 0
  wheelStopAtMs := 0
  bounceNextFlipAtMs := 0
  bouncePassDur := 0

/-- `sent` is everything that has been handed to the scheduler. -/
structure ScenePlayer where
  sceneTopo : SceneTopology
  logicalRoot : Byte
  layers : ℕ → SceneLayer
  lCount : ℕ
  currentStep : ℕ → ℕ
  stepStartMs : ℕ → Millis
  layerState : ℕ → LayerState
  pendingStop : ℕ → Bool
  bouncePhase : ℕ → Bool
  spawnState : ℕ → LayerSpawnState
  loop : Bool
  playing : Bool
  speed : ℚ
  defaultPalette : Text
  baseColors : Fin baseColorsCount → ColorRGB
  background : ColorRGB
  resolvedPalettes : ℕ → List GradientStop
  sent : List Command

/-! ### Kinds of steps -/

def isSweepRunner : AnimationType → Bool
  | .wave | .ripple | .chase => true
  | _ => false

def isParticleRunner : AnimationType → Bool
  | .rain | .sparkle | .matrix => true
  | _ => false

def isSpawner (animType : AnimationType) : Bool := isParticleRunner animType || isSweepRunner animType

def stepUsesLayerGroup (step : SceneStep) : Bool :=
  !isRunnerType step.animType || step.animType = .bounce || step.animType = .wheel

namespace SceneLayer

def isAsyncLayer (layer : SceneLayer) : Bool :=
  layer.async &&& layerAsyncLoop ≠ 0 && layer.startAfterGroupId = 0

def layerIsSpawner (layer : SceneLayer) : Bool := layer.steps.any fun s => isSpawner s.animType

def layerIsSweepSpawner (layer : SceneLayer) : Bool :=
  layer.steps.any fun s => isSweepRunner s.animType

def maxSweepCount (layer : SceneLayer) : ℕ :=
  ((layer.steps.filter fun s => isSweepRunner s.animType).map
    fun s => sweepSpawnCount (s.params .count)).foldl max 1

end SceneLayer

namespace ScenePlayer

variable (p : ScenePlayer) (i : ℕ)

def emit (commands : List Command) : ScenePlayer := { p with sent := p.sent ++ commands }

def setSpawn (st : LayerSpawnState) : ScenePlayer :=
  { p with spawnState := Function.update p.spawnState i st }

/-- The current step of a layer. -/
def step : SceneStep := (p.layers i).steps.getD (p.currentStep i) .zero

/-- The panels of a layer. -/
def panels : List ℕ := p.sceneTopo.resolvePanels (p.layers i).target

def resolveColorToRgb (ref : ColorRef) : ColorRGB :=
  if ref.kind = 0 then ref.raw
  else if ref.kind = 1 then samplePalette (p.resolvedPalettes i) ref.raw.r
  else if h : ref.kind = 2 ∧ ref.raw.r.toNat < baseColorsCount then p.baseColors ⟨_, h.2⟩
  else .white

def stopLayerGroup : ScenePlayer :=
  if p.panels i = [] then p
  else p.emit [.sendControlToPanels (p.layers i).groupId .stop (p.panels i)]

/-! ### Pulses -/

/-- Between which values a runner sweeps, and how that is composed. -/
structure RunnerStyle where
  dark : ColorRef
  lit : ColorRef
  blend : ComposeMode
  animates : AnimateTarget

/-- Where a modifier has no effect. -/
def identityOf (target : AnimateTarget) : Byte :=
  if target = .dim ∨ target = .desaturate then 255 else 0

def runnerStyle (step : SceneStep) : RunnerStyle :=
  if step.animates = .color then
    { dark := .rgb .black
      lit := .rgb (p.resolveColorToRgb i step.colorTo)
      blend := resolveComposeMode (p.layers i).blend true
      animates := .color }
  else
    { dark := .rgb ⟨identityOf step.animates, 0, 0⟩
      lit := .rgb ⟨step.params .amount, 0, 0⟩
      blend := resolveComposeMode (p.layers i).blend false
      animates := step.animates }

def pulsePacket (groupId flags : Byte) (style : RunnerStyle) (durationMs startDelayMs : Ticks)
    (risePct fallPct : Byte) : PacketAnimationPrepare where
  animType := .pulse
  groupId := groupId
  flags := flags
  transitionMs := 0
  durationMs := durationMs
  colorFrom := style.dark
  colorTo := style.lit
  param1 := risePct
  param2 := fallPct
  composeMode := style.blend
  composeOrder := u8 i
  startDelayMs := startDelayMs
  animates := style.animates

/-- A panel that is not lit is sent nothing. -/
def sendPulse (groupId flags : Byte) (style : RunnerStyle) (panel : ℕ) (cp : CompiledPulse) :
    List Command :=
  if cp.lit then
    [.sendPrepareToPanel panel
      (pulsePacket i groupId flags style cp.durationMs cp.startDelayMs cp.risePct cp.fallPct)]
  else []

/-- The number of rings of a field in the plane. -/
def fieldResolution (panelCount : ℕ) : Byte :=
  if p.sceneTopo.index.maxDepthVal = 0 then if 1 < panelCount then u8 (panelCount - 1) else 1
  else u8 p.sceneTopo.index.maxDepthVal

def isReverse (step : SceneStep) : Bool := step.params .flags &&& runnerFlagReverse ≠ 0

def isGeometric (step : SceneStep) : Bool :=
  step.params .flags &&& runnerFlagGeometric ≠ 0 && p.sceneTopo.geom.valid

/-- A sweep along an axis of the plane or by hops. -/
def linearField (step : SceneStep) (panels : List ℕ) (reverse : Bool) : Byte × List Byte :=
  if p.isGeometric step then
    p.sceneTopo.geom.computeGeometricField panels
      (Single.mul (step.params .srcArg).toNat 2) reverse (p.fieldResolution panels.length)
  else
    p.sceneTopo.index.computeDistanceField panels (step.params .srcKind) (step.params .srcArg)
      reverse

def sweepWidthOf (step : SceneStep) : Byte :=
  if (step.params .width).toNat < 2 then 2 else step.params .width

/-! ### BOUNCE -/

def fireBouncePass (passDurMs : Ticks) : ScenePlayer :=
  let step := p.step i
  let panels := p.panels i
  if panels = [] ∨ passDurMs = 0 then p
  else
    let (maxCoord, coord) := p.linearField step panels (xor (isReverse step) (p.bouncePhase i))
    let groupId := (p.layers i).groupId
    p.emit ((panels.zip coord).flatMap (fun (panel, c) =>
      sendPulse i groupId 0 (p.runnerStyle i step) panel
        (compileBounce c.toNat maxCoord (sweepWidthOf step) passDurMs)) ++
      [.sendGroupStart groupId])

def fireBounceStep (nowMs : Millis) (effectiveDurationMs : Ticks) : ScenePlayer :=
  let passDur := atLeastOne (effectiveDurationMs / 2)
  let st := p.spawnState i
  (p.setSpawn i { st with
    bouncePassDur := passDur
    bounceNextFlipAtMs := nowMs + passDur.setWidth 32 }).fireBouncePass i passDur

/-- The next leg of a bounce, in the other direction. -/
def nextLeg : ScenePlayer :=
  let st := p.spawnState i
  let p := { p with bouncePhase := Function.update p.bouncePhase i !(p.bouncePhase i) }
  (p.fireBouncePass i st.bouncePassDur).setSpawn i { st with
    bounceNextFlipAtMs := st.bounceNextFlipAtMs + st.bouncePassDur.setWidth 32 }

/-- `while (bounceNextFlipAtMs != 0 && nowMs >= bounceNextFlipAtMs)`. A loop that has not ended
after as many rounds as there are clock values does not end. -/
def flipBounce (nowMs : Millis) : ℕ → ScenePlayer → ScenePlayer
  | 0, p => p
  | n + 1, p =>
    if (p.spawnState i).bounceNextFlipAtMs ≠ 0 ∧ (p.spawnState i).bounceNextFlipAtMs ≤ nowMs then
      flipBounce nowMs n (p.nextLeg i)
    else p

/-! ### WHEEL -/

/-- The duration of a step under the speed of the scene, without a bound. -/
def scaledDurationMs (durationMs : Ticks) : Millis :=
  if p.speed = 1 then durationMs.setWidth 32
  else BitVec.ofNat 32 (Single.toNat (Single.div durationMs.toNat p.speed))

def wheelLines (step : SceneStep) : Byte :=
  if step.params .lines = 0 then 1 else if 6 < (step.params .lines).toNat then 6
  else step.params .lines

/-- A wheel that turns on until its step is over. -/
def wheelLoop (step : SceneStep) : Bool :=
  (p.layers i).isAsyncLayer || step.flags &&& flagLoop ≠ 0

/-- The bearings of the panels, for which there must be a layout of the plane. -/
def wheelTurns (panels : List ℕ) : Option (List ℚ) :=
  let step := p.step i
  if p.sceneTopo.geom.valid then
    p.sceneTopo.geom.computeWheelField p.sceneTopo.index panels (step.params .srcKind)
      (step.params .srcArg) (isReverse step)
  else none

/-- The pulse of a wheel peaks where it starts over, so its ends are exchanged. -/
def startWheel (nowMs : Millis) (panels : List ℕ) (effectiveDurationMs : Ticks)
    (turns : List ℚ) : ScenePlayer :=
  let step := p.step i
  let groupId := (p.layers i).groupId
  let style := p.runnerStyle i step
  let st := p.spawnState i
  (p.emit ((panels.zip turns).flatMap (fun (panel, turn) =>
    sendPulse i groupId flagLoop { style with dark := style.lit, lit := style.dark } panel
      (compileWheel turn (wheelLines step) (step.params .width) effectiveDurationMs)) ++
    [.sendGroupStart groupId])).setSpawn i { st with
      wheelStopAtMs := if p.wheelLoop i step then 0
        else nowMs + p.scaledDurationMs effectiveDurationMs }

def fireWheelStep (nowMs : Millis) (panels : List ℕ) (effectiveDurationMs : Ticks) : ScenePlayer :=
  match p.wheelTurns i panels with
  | none => p
  | some turns => p.startWheel i nowMs panels effectiveDurationMs turns

/-! ### WAVE, RIPPLE and CHASE -/

def compileSweep (animType : AnimationType) (st : LayerSpawnState) (sp : SweepPanel) :
    CompiledPulse :=
  match animType with
  | .wave => compileWave sp.coord.toNat st.sweepMaxCoord st.sweepWidth st.sweepDurationMs
  | .chase => compileChase sp.coord st.sweepMaxCoord st.sweepDurationMs
  | _ => compileRipple sp.coord.toNat sp.coordFar.toNat st.sweepMaxCoord st.sweepWidth
      st.sweepDurationMs

/-- One sweep under the next group of the pool. -/
def launchSweep (count : ℕ) : ScenePlayer :=
  let step := p.step i
  let st := p.spawnState i
  let (group, cursor) := spawnPoolNext st.cursor st.poolBase st.poolSize
  let sweepSpawnIndex := st.sweepSpawnIndex + 1
  (p.emit (st.sweepPanels.flatMap (fun sp =>
    sendPulse i group flagReapOnDone (p.runnerStyle i step) sp.panel
      (compileSweep step.animType st sp)) ++ [.sendGroupStart group])).setSpawn i { st with
    cursor, sweepSpawnIndex
    nextSpawnMs := if sweepSpawnIndex < count then
      p.stepStartMs i + spawnSweepStartMs st.sweepDurationMs count sweepSpawnIndex
      else st.nextSpawnMs }

/-- `while (sweepSpawnIndex < count && nowMs >= nextSpawnMs)`, for at most as many rounds as the
last argument says. -/
def launchSweeps (nowMs : Millis) (count : ℕ) : ℕ → ScenePlayer → ScenePlayer
  | 0, p => p
  | n + 1, p =>
    if (p.spawnState i).sweepSpawnIndex < count ∧ (p.spawnState i).nextSpawnMs ≤ nowMs then
      launchSweeps nowMs count n (p.launchSweep i count)
    else p

def serviceSweepSpawner (nowMs : Millis) : ScenePlayer :=
  let st := p.spawnState i
  if st.sweepPanels = [] ∨ st.sweepDurationMs = 0 then p
  else
    let count := sweepSpawnCount ((p.step i).params .count)
    launchSweeps i nowMs count count p

/-- The coordinates of a sweep; only a ripple in the plane has far edges of its own. -/
def sweepField (step : SceneStep) (panels : List ℕ) : Byte × List SweepPanel :=
  if p.isGeometric step ∧ step.animType = .ripple then
    let (maxCoord, bands) := p.sceneTopo.geom.computeGeometricCenterField p.sceneTopo.index panels
      (step.params .srcKind) (step.params .srcArg) (isReverse step)
      (p.fieldResolution panels.length)
    (maxCoord, (panels.zip bands).map fun (panel, band) => ⟨panel, band.1, band.2⟩)
  else
    let (maxCoord, coord) := p.linearField step panels (isReverse step)
    (maxCoord, (panels.zip coord).map fun (panel, c) => ⟨panel, c, c⟩)

def fireSweepStep (nowMs : Millis) (panels : List ℕ) (effectiveDurationMs : Ticks) : ScenePlayer :=
  let step := p.step i
  let (sweepMaxCoord, sweepPanels) := p.sweepField step panels
  let st := p.spawnState i
  (p.setSpawn i { st with
    sweepPanels, sweepMaxCoord
    sweepWidth := sweepWidthOf step
    sweepDurationMs := effectiveDurationMs
    sweepSpawnIndex := 0
    nextSpawnMs := p.stepStartMs i }).serviceSweepSpawner i nowMs

/-! ### RAIN, SPARKLE and MATRIX -/

def spawnMaxBurst : ℕ := 8

/-- A byte scaled by a brightness. -/
def scale8 (v b : Byte) : Byte := u8 (v.toNat * b.toNat / 255)

/-- The ends of a drop's pulse and how it is composed. -/
structure DropStyle where
  target : AnimateTarget
  identity : Byte
  peak : Byte
  blend : ComposeMode
  fromRgb : ColorRGB
  litRgb : ColorRGB

def dropStyle (step : SceneStep) : DropStyle where
  target := step.animates
  identity := identityOf step.animates
  peak := step.params .amount
  blend := resolveComposeMode (p.layers i).blend true
  fromRgb := p.resolveColorToRgb i step.colorFrom
  litRgb := p.resolveColorToRgb i step.colorTo

def DropStyle.dimmed (s : DropStyle) (bright : Byte) : RunnerStyle :=
  if s.target = .color then
    { dark := .rgb (s.fromRgb.map (scale8 · bright))
      lit := .rgb (s.litRgb.map (scale8 · bright))
      blend := s.blend
      animates := .color }
  else
    { dark := .rgb ⟨s.identity, 0, 0⟩
      lit := .rgb ⟨scale8 s.peak bright, 0, 0⟩
      blend := s.blend
      animates := s.target }

def sendDropPrepare (group : Byte) (s : DropStyle) (jitter : Ticks) (dp : DropPanel) : Command :=
  .sendPrepareToPanel dp.panel
    (pulsePacket i group flagReapOnDone (s.dimmed dp.bright) dp.pulse.durationMs
      (BitVec.ofNat 16 (min (dp.pulse.startDelayMs.toNat + jitter.toNat) 65535))
      dp.pulse.risePct dp.pulse.fallPct)

/-- One drop under the next group of the pool, which is taken even if the drop comes to nothing. -/
def spawnDrop (drops : DropSource) : ScenePlayer :=
  let st := p.spawnState i
  let (group, cursor) := spawnPoolNext st.cursor st.poolBase st.poolSize
  let (drop, rng) := drops st.rng
  (p.emit (match drop with
    | none => []
    | some d => d.panels.map (sendDropPrepare i group (p.dropStyle i (p.step i)) d.jitter) ++
      [.sendGroupStart group])).setSpawn i { st with cursor, rng }

def serviceParticleSpawner (nowMs : Millis) : ScenePlayer :=
  let step := p.step i
  let st := p.spawnState i
  let waves := if step.params .waves = 0 then 1 else step.params .waves
  let (due, accumMs) := spawnDueCount st.accumMs (nowMs - st.lastServiceMs) waves spawnMaxBurst
  let p := p.setSpawn i { st with lastServiceMs := nowMs, accumMs }
  let spd := if p.speed < Single.round (1 / 10) then Single.round (1 / 10) else p.speed
  match p.sceneTopo.dropsOf (p.layers i).target step (spawnIntervalMs waves) spd with
  | none => p
  | some drops => (List.range due).foldl (fun p _ => p.spawnDrop i drops) p

/-- Without a pool nothing is spawned. -/
def serviceSpawner (nowMs : Millis) : ScenePlayer :=
  if (p.spawnState i).poolSize = 0 then p
  else if isSweepRunner (p.step i).animType then p.serviceSweepSpawner i nowMs
  else p.serviceParticleSpawner i nowMs

def fireParticleStep (nowMs : Millis) : ScenePlayer :=
  let st := p.spawnState i
  p.setSpawn i { st with
    rng := (nowMs * 2654435761) ^^^ 0x9E3779B9 ^^^ (st.cursor.setWidth 32 <<< 16) ^^^
      (BitVec.ofNat 32 i * 0x01000193) ^^^ 1
    accumMs := 0
    lastServiceMs := nowMs }

/-! ### Animations of the panels -/

/-- A modifier carries its two values where colours are. -/
def fireLocalAnimStep (panels : List ℕ) (effectiveDurationMs : Ticks) : ScenePlayer :=
  let step := p.step i
  let layer := p.layers i
  p.emit (playOnPanels
    { animType := step.animType
      groupId := layer.groupId
      flags := step.flags
      transitionMs := 0
      durationMs := effectiveDurationMs
      colorFrom := if step.animates = .color then step.colorFrom else .scalar step.valueFrom
      colorTo := if step.animates = .color then step.colorTo else .scalar step.valueTo
      param1 := step.params 0
      param2 := step.params 1
      composeMode := resolveComposeMode layer.blend false
      composeOrder := u8 i
      startDelayMs := 0
      animates := step.animates } panels)

/-! ### Firing a step -/

/-- The duration that is sent to the panels. -/
def effectiveDurationMs (durationMs : Ticks) : Ticks :=
  if durationMs = 0 ∨ p.speed = 1 then durationMs
  else BitVec.ofNat 16 (min 65535 (Single.toNat (Single.div durationMs.toNat p.speed)))

def fireStep (nowMs : Millis) : ScenePlayer :=
  let step := p.step i
  if step.animType = .gap then p.stopLayerGroup i
  else
    let panels := p.panels i
    if panels = [] then p
    else
      let effectiveDurationMs := p.effectiveDurationMs step.durationMs
      if isRunnerType step.animType then
        if isParticleRunner step.animType then p.fireParticleStep i nowMs
        else if effectiveDurationMs = 0 then p
        else if step.animType = .bounce then p.fireBounceStep i nowMs effectiveDurationMs
        else if step.animType = .wheel then p.fireWheelStep i nowMs panels effectiveDurationMs
        else p.fireSweepStep i nowMs panels effectiveDurationMs
      else p.fireLocalAnimStep i panels effectiveDurationMs

end ScenePlayer

end Lightnet
