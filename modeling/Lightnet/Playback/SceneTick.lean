import Lightnet.Playback.ScenePlayer

/-!
# The scene player: arming a scene and running it

A layer waits for another, runs, or is done. When all layers that do not loop on their own are
done, the scene starts over, or ends. Group numbers for spawners are taken from above the groups of
the layers.
-/

namespace Lightnet

open AnimationScheduler (Command)

def spawnPoolMax : ℕ := 64

/-- Where palettes and the topology come from; the topology is seen from a root. -/
structure SceneProviders where
  resolve : Text → Option (List GradientStop)
  rebuild : Byte → SceneTopology

def buildUserColors (baseColors : Fin baseColorsCount → ColorRGB) : List GradientStop :=
  [⟨0, baseColors 0⟩, ⟨128, baseColors 1⟩, ⟨255, baseColors 2⟩]

/-- `strncpy` into sixteen bytes that end in zero. -/
def paletteField (name : Text) : Text := name.take 15

def clampPlayerSpeed (speed : ℚ) : ℚ :=
  if speed < Single.round (1 / 10) then Single.round (1 / 10) else if 10 < speed then 10 else speed

/-- The first step takes the slot of the layer over, or none of the steps uses it. -/
def SceneLayer.reclaimsSlot (layer : SceneLayer) : Bool :=
  if layer.isAsyncLayer ∨ layer.disabled ∨ layer.startAfterGroupId ≠ 0 then false
  else
    match layer.steps with
    | [] => false
    | first :: rest => stepUsesLayerGroup first || !rest.any stepUsesLayerGroup

namespace ScenePlayer

def init (topo : SceneTopology) : ScenePlayer where
  sceneTopo := topo
  logicalRoot := 1
  layers _ := .blank
  lCount := 0
  currentStep _ := 0
  stepStartMs _ := 0
  layerState _ := .waiting
  pendingStop _ := false
  bouncePhase _ := false
  spawnState _ := .zero
  loop := false
  playing := false
  speed := 1
  defaultPalette := []
  baseColors _ := .black
  background := .black
  resolvedPalettes _ := []
  sent := []

variable (p : ScenePlayer)

def hasScene : Bool := 0 < p.lCount

def setSpeed (s : ℚ) : ScenePlayer := { p with speed := clampPlayerSpeed s }

/-! ### Group pools -/

/-- Highest group of a layer. -/
def maxUsed : ℕ := ((List.range p.lCount).map fun i => (p.layers i).groupId.toNat).foldl max 0

def spawnersBelow (i : ℕ) : ℕ :=
  ((List.range i).filter fun j => (p.layers j).layerIsSpawner).length

/-- The length of the pools. -/
def poolLength : ℕ := min spawnPoolMax ((254 - p.maxUsed) / p.spawnersBelow p.lCount)

/-- What `allocSpawnPools` leaves a layer with. -/
def poolOf (i : ℕ) : LayerSpawnState :=
  if i < p.lCount ∧ (p.layers i).layerIsSpawner then
    { LayerSpawnState.zero with
      poolBase := u8 (p.maxUsed + 1 + p.spawnersBelow i * p.poolLength)
      poolSize := u8 (if (p.layers i).layerIsSweepSpawner then
        min ((p.layers i).maxSweepCount + 1) p.poolLength else p.poolLength) }
  else .zero

/-! ### Arming -/

def stop : ScenePlayer :=
  { p with
    playing := false
    layerState := fun _ => .waiting
    pendingStop := fun _ => false
    bouncePhase := fun _ => false }.emit [.broadcastStop, .broadcastBlack]

def resolvePalette (resolve : Text → Option (List GradientStop))
    (baseColors : Fin baseColorsCount → ColorRGB) (name : Text) : List GradientStop :=
  if name = bytes "userColors" then buildUserColors baseColors
  else (resolve name).getD (buildUserColors baseColors)

/-- The state a layer starts its sequence in. -/
def armedState (layer : SceneLayer) : LayerState :=
  if layer.steps = [] ∨ layer.disabled then .done
  else if layer.startAfterGroupId = 0 then .running
  else .waiting

/-- The layers that a start of the scene is about. -/
def isArmed (includeAsync : Bool) (i : ℕ) : Bool :=
  i < p.lCount && (includeAsync || !(p.layers i).isAsyncLayer)

/-- `fireStep` for a layer that is running. -/
def fireArmed (nowMs : Millis) (includeAsync : Bool) (p : ScenePlayer) (i : ℕ) : ScenePlayer :=
  if p.isArmed includeAsync i ∧ p.layerState i = .running then p.fireStep i nowMs else p

def armLayers (nowMs : Millis) (includeAsync : Bool) : ScenePlayer :=
  let armed := p.isArmed includeAsync
  (List.range p.lCount).foldl (fireArmed nowMs includeAsync) { p with
    currentStep := fun i => if armed i then 0 else p.currentStep i
    stepStartMs := fun i => if armed i then nowMs else p.stepStartMs i
    layerState := fun i => if armed i then armedState (p.layers i) else p.layerState i }

/-- The header of a scene, apart from its layers. -/
structure Header where
  loop : Bool
  paletteDefault : Text
  baseColors : Fin baseColorsCount → ColorRGB
  speed : ℚ
  background : ColorRGB

namespace Header

def defaultPalette (header : Header) : Text :=
  paletteField (if header.paletteDefault = [] then bytes "userColors" else header.paletteDefault)

end Header

/-- The palettes of the layers, each its own or the one of the scene. -/
def scenePalettes (env : SceneProviders) (header : Header) (i : ℕ) : List GradientStop :=
  if i < p.lCount then
    resolvePalette env.resolve header.baseColors
      (if (p.layers i).palette = [] then header.defaultPalette else (p.layers i).palette)
  else p.resolvedPalettes i

def sendPalettesToPanels (env : SceneProviders) (header : Header) : List Command :=
  let topo := env.rebuild p.logicalRoot
  .broadcastBaseColors header.baseColors ::
    ((List.range p.lCount).filter fun i =>
      !(p.layers i).disabled && topo.resolvePanels (p.layers i).target ≠ []).flatMap fun i =>
        [.turnOnPanels (topo.resolvePanels (p.layers i).target),
          .unicastPaletteToPanels (p.scenePalettes env header i)
            (topo.resolvePanels (p.layers i).target)]

/-- The scene as it is when its layers are armed: what was playing has been stopped, the pools and
the palettes are those of the new layers, and the topology is the present one. -/
def enterScene (env : SceneProviders) (header : Header) : ScenePlayer :=
  { p with
    sceneTopo := env.rebuild p.logicalRoot
    layerState := fun _ => .waiting
    pendingStop := fun _ => false
    bouncePhase := fun _ => false
    spawnState := p.poolOf
    loop := header.loop
    playing := true
    speed := clampPlayerSpeed header.speed
    defaultPalette := header.defaultPalette
    baseColors := header.baseColors
    background := header.background
    resolvedPalettes := p.scenePalettes env header
    sent := p.sent ++
      [.broadcastStop, .broadcastBlack, .broadcastBackground header.background] ++
      p.sendPalettesToPanels env header }

def armScene (env : SceneProviders) (header : Header) (nowMs : Millis) : ScenePlayer :=
  (p.enterScene env header).armLayers nowMs true

/-- The layers have been written to the player's own array. -/
def playPreloaded (env : SceneProviders) (layerCount : ℕ) (header : Header) (nowMs : Millis) :
    ScenePlayer :=
  { p with lCount := min layerCount sceneMaxLayers }.armScene env header nowMs

def loadAndPlay (env : SceneProviders) (layers : List SceneLayer) (header : Header)
    (nowMs : Millis) : ScenePlayer :=
  { p with
    lCount := min layers.length sceneMaxLayers
    layers := fun i =>
      if i < min layers.length sceneMaxLayers then layers.getD i .blank
      else p.layers i }.armScene env header nowMs

/-- The header of the scene in memory. -/
def header : Header := ⟨p.loop, p.defaultPalette, p.baseColors, p.speed, p.background⟩

def resume (env : SceneProviders) (nowMs : Millis) : ScenePlayer :=
  if p.lCount = 0 then p
  else { p with lCount := min p.lCount sceneMaxLayers }.armScene env p.header nowMs

def setLogicalRoot (env : SceneProviders) (panelIndex : Byte) (nowMs : Millis) : ScenePlayer :=
  let p := { p with logicalRoot := if panelIndex = 0 then 1 else panelIndex }
  if p.playing then p.resume env nowMs else { p with sceneTopo := env.rebuild p.logicalRoot }

def reresolvePalettes (env : SceneProviders) (newPal : Text)
    (newColors : Option (Fin baseColorsCount → ColorRGB)) : ScenePlayer :=
  if !p.playing || p.lCount = 0 then p
  else
    let p : ScenePlayer := { p with
      defaultPalette := if newPal = [] then p.defaultPalette else paletteField newPal
      baseColors := newColors.getD p.baseColors }
    { p with
      resolvedPalettes := fun i =>
        if i < p.lCount ∧ (p.layers i).palette = [] then
          resolvePalette env.resolve p.baseColors p.defaultPalette
        else p.resolvedPalettes i }

/-! ### One tick -/

/-- How long a step lasts. -/
def threshold (i : ℕ) : Millis := p.scaledDurationMs (p.step i).durationMs

/-- Firing a step as the current one of its layer. -/
def enterStep (i k : ℕ) (nowMs : Millis) : ScenePlayer :=
  { p with
    currentStep := Function.update p.currentStep i k
    stepStartMs := Function.update p.stepStartMs i nowMs }.fireStep i nowMs

/-- What a step does while it lasts. -/
def serviceStep (i : ℕ) (nowMs : Millis) : ScenePlayer :=
  if (p.step i).animType = .wheel then
    let st := p.spawnState i
    if st.wheelStopAtMs ≠ 0 ∧ st.wheelStopAtMs ≤ nowMs then
      (p.setSpawn i { st with wheelStopAtMs := 0 }).stopLayerGroup i
    else p
  else if (p.step i).animType = .bounce then flipBounce i nowMs (2 ^ 32) p
  else if isSpawner (p.step i).animType then p.serviceSpawner i nowMs
  else p

/-- What follows a step that is over. -/
def advanceLayer (i : ℕ) (nowMs : Millis) : ScenePlayer :=
  if p.currentStep i + 1 < (p.layers i).steps.length then p.enterStep i (p.currentStep i + 1) nowMs
  else if (p.layers i).isAsyncLayer then p.enterStep i 0 nowMs
  else
    { p with
      pendingStop := Function.update p.pendingStop i true
      layerState := Function.update p.layerState i .done }

def tickLayer (nowMs : Millis) (p : ScenePlayer) (i : ℕ) : ScenePlayer :=
  if p.layerState i ≠ .running then p
  else if (p.step i).durationMs = 0 then
    if isSpawner (p.step i).animType then p.serviceSpawner i nowMs else p
  else if nowMs - p.stepStartMs i < p.threshold i then p.serviceStep i nowMs
  else p.advanceLayer i nowMs

def layerIndexForGroup (groupId : Byte) : Option ℕ :=
  (List.range p.lCount).find? fun i => (p.layers i).groupId = groupId

def dependencySatisfied (depIdx : ℕ) (stepIdx : Byte) : Bool :=
  p.layerState depIdx = .done ||
    stepIdx ≠ sceneNoStepIndex && stepIdx.toNat < p.currentStep depIdx

/-- A dependency that is not there is taken as satisfied. -/
def isReady (i : ℕ) : Bool :=
  match p.layerIndexForGroup (p.layers i).startAfterGroupId with
  | none => true
  | some dep => p.dependencySatisfied dep (p.layers i).startAfterStepIndex

def promoteLayer (nowMs : Millis) (p : ScenePlayer) (i : ℕ) : ScenePlayer :=
  if p.layerState i = .waiting ∧ p.isReady i then
    { p with layerState := Function.update p.layerState i .running }.enterStep i 0 nowMs
  else p

def promoteReadyLayers (nowMs : Millis) : ScenePlayer :=
  (List.range p.lCount).foldl (promoteLayer nowMs) p

/-! ### The end of a cycle -/

/-- The layers that the scene waits for. -/
def syncLayers : List ℕ :=
  (List.range p.lCount).filter fun i => !(p.layers i).disabled && !(p.layers i).isAsyncLayer

def anyBlockingAsync : Bool :=
  (List.range p.lCount).any fun i => !(p.layers i).disabled && (p.layers i).isAsyncLayer &&
    (p.layers i).async &&& layerAsyncNonBlocking = 0

def allSyncDone : Bool := p.syncLayers.all fun i => p.layerState i = .done

def restartReclaimsLayerSlot (i : ℕ) : Bool := (p.layers i).reclaimsSlot

def flushStop (restarting : Bool) (p : ScenePlayer) (i : ℕ) : ScenePlayer :=
  if p.pendingStop i then
    let p := { p with pendingStop := Function.update p.pendingStop i false }
    if restarting ∧ p.restartReclaimsLayerSlot i then p else p.stopLayerGroup i
  else p

def flushPendingStops (restarting : Bool) : ScenePlayer :=
  (List.range p.lCount).foldl (flushStop restarting) p

/-- The barrier at the end of a tick. -/
def endTick (nowMs : Millis) : ScenePlayer :=
  let ended := p.syncLayers ≠ [] ∧ p.allSyncDone
  let q := p.flushPendingStops (ended ∧ p.loop)
  if ¬ ended then q
  else if p.loop then q.armLayers nowMs false
  else if p.anyBlockingAsync then q
  else { q with playing := false }

def tick (nowMs : Millis) : ScenePlayer :=
  if p.playing then
    (((List.range p.lCount).foldl (tickLayer nowMs) p).promoteReadyLayers nowMs).endTick nowMs
  else p

/-- The player after a tick at each of the times. -/
def run (times : List Millis) : ScenePlayer := times.foldl tick p

end ScenePlayer

/-! ### On the wire -/

/-- The packets of commands, with the counter of the scheduler before them. -/
def onWire (nextSeqId : Byte) : List Command → List Addressed
  | [] => []
  | command :: commands =>
    (AnimationScheduler.run nextSeqId command).2 ++
      onWire (AnimationScheduler.run nextSeqId command).1 commands

/-- The packets that a player has sent through a scheduler of its own. -/
def ScenePlayer.packets (p : ScenePlayer) : List Addressed := onWire 1 p.sent

/-! ### Two panels -/

/-- Right on the axes, at zero and at one. -/
def axisMath : FloatMath where
  cosf _ := 1
  sinf _ := 0
  sqrtf x := x
  atan2f y x :=
    if x = 0 then if y < 0 then -(geoPi / 2) else geoPi / 2 else if x < 0 then geoPi else 0

/-- A square panel below another one. -/
def pairScene : SceneTopology where
  index := pairTopology.index
  geom :=
    { math := axisMath
      valid := true
      centroidOf := fun p => if p = 1 then some (50, 50) else if p = 2 then some (50, -50) else none
      circumradiusOf := fun _ => Single.round (7071068 / 100000) }

def pairProviders : SceneProviders := ⟨fun _ => none, fun _ => pairScene⟩

/-- A scene that plays once, with black base colours. -/
def plainHeader (loop : Bool) (speed : ℚ) : ScenePlayer.Header :=
  ⟨loop, userColorsPaletteName, fun _ => .black, speed, .black⟩

end Lightnet
