import Lightnet.Playback.PanelField
import Lightnet.Relay.Panel

/-!
# Spawners

Sweeps are launched at fixed times within a step, drops at a rate and at random places. Each is
played under the next group number of a pool that belongs to the layer.
-/

namespace Lightnet

/-! ### Random numbers -/

def spawnRandNext (state : BitVec 32) : BitVec 32 :=
  let x := if state = 0 then 0x9E3779B9 else state
  let x := x ^^^ (x <<< 13)
  let x := x ^^^ (x >>> 17)
  x ^^^ (x <<< 5)

/-- A number below `n`, and the state after it was drawn. -/
def spawnRandBelow (state : BitVec 32) (n : ℕ) : ℕ × BitVec 32 :=
  if n = 0 then (0, state) else ((spawnRandNext state).toNat % n, spawnRandNext state)

/-- An element of a list that is not empty. -/
def spawnRandOf (state : BitVec 32) (first : ℕ) (rest : List ℕ) : ℕ × BitVec 32 :=
  let (i, state) := spawnRandBelow state (rest.length + 1)
  ((first :: rest).getD i first, state)

/-! ### Rates and schedules -/

def spawnIntervalMs (wavesPerSec : Byte) : ℕ := max (1000 / wavesPerSec.toNat) 1

/-- `while (accumMs >= intervalMs && count < maxBurst)`: the drops due and the time that is left. -/
def takeDue (intervalMs : ℕ) : ℕ → Millis → ℕ × Millis
  | 0, accumMs => (0, accumMs)
  | burst + 1, accumMs =>
    if intervalMs ≤ accumMs.toNat then
      let (count, accumMs) := takeDue intervalMs burst (accumMs - BitVec.ofNat 32 intervalMs)
      (count + 1, accumMs)
    else (0, accumMs)

/-- The drops due, and the accumulator after them. -/
def spawnDueCount (accumMs dtMs : Millis) (wavesPerSec : Byte) (maxBurst : ℕ) : ℕ × Millis :=
  if wavesPerSec = 0 then (0, accumMs)
  else
    let intervalMs := spawnIntervalMs wavesPerSec
    let (count, accumMs) := takeDue intervalMs maxBurst (accumMs + dtMs)
    (count, if intervalMs < accumMs.toNat then BitVec.ofNat 32 intervalMs else accumMs)

def sweepSpawnCount (countParam : Byte) : ℕ := if countParam = 0 then 1 else min countParam.toNat 30

def spawnSweepStartMs (durationMs : Ticks) (count spawnIndex : ℕ) : Millis :=
  if count ≤ spawnIndex then BitVec.ofNat 32 durationMs.toNat
  else BitVec.ofNat 32 (durationMs.toNat * spawnIndex / count)

/-- The next group of the pool and the cursor after it; an empty pool has only its base. -/
def spawnPoolNext (cursor : Ticks) (base size : Byte) : Byte × Ticks :=
  if size = 0 then (base, cursor) else (base + u8 (cursor.toNat % size.toNat), cursor + 1)

/-! ### Drops -/

/-- From a node to the root, at most `maxLen` nodes. -/
def spawnBuildPath (parent : ℕ → Option ℕ) (root : ℕ) : ℕ → ℕ → Option (List ℕ)
  | 0, _ => none
  | maxLen + 1, n =>
    if n = root then some [n]
    else
      match parent n with
      | none => none
      | some p => if p = n then none else (spawnBuildPath parent root maxLen p).map (n :: ·)

structure DropPulse where
  startDelayMs : Ticks
  durationMs : Ticks
  risePct : Byte
  fallPct : Byte
  deriving DecidableEq

def sparkleFlash (fadeMs : Ticks) : DropPulse := ⟨0, if fadeMs = 0 then 1 else fadeMs, 0, 255⟩

def rainDropAt (fallMs : Ticks) (widthRings : Byte) (pos pathLen : ℕ) : DropPulse :=
  let span := if 1 < pathLen then pathLen - 1 else 1
  let ringTime := max (fallMs.toNat / span) 1
  let rings := max widthRings.toNat 1
  { startDelayMs := BitVec.ofNat 16 (min (pos * ringTime) 65535)
    durationMs := BitVec.ofNat 16 (min (rings * ringTime) 65535)
    risePct := 0
    fallPct := 255 }

/-- The pulse of one panel in a drop. -/
structure DropPanel where
  panel : ℕ
  pulse : DropPulse
  bright : Byte
  deriving DecidableEq

/-- What one drop is made of. -/
structure Drop where
  jitter : Ticks
  panels : List DropPanel
  deriving DecidableEq

/-- One drop after the other from a random state; a drop may come to nothing. -/
abbrev DropSource := BitVec 32 → Option Drop × BitVec 32

def matrixHeadRise : Byte := 48

def rainDefaultFallMs : ℕ := 1000

def sparkleFadeMsPerWidth : ℕ := 8

def spawnDeg2rad : ℚ := Single.round (17453293 / 1000000000)

/-- A time of a drop under the speed of the scene. -/
def scaledDropMs (ms : ℕ) (spd : ℚ) : Ticks :=
  BitVec.ofNat 16 (min (max (Single.toNat (Single.div ms spd)) 1) 65535)

namespace SceneTopology

variable (topo : SceneTopology)

/-- The pulses down a path from the root. -/
def pathPanels (path : List ℕ) (reverse : Bool) (pulse : ℕ → DropPulse) : List DropPanel :=
  path.zipIdx.map fun (slot, i) =>
    ⟨topo.index.graph.panelAt slot, pulse (if reverse then path.length - 1 - i else i), 255⟩

def sparkleDrops (panels : List ℕ) (fadeMs : Ticks) (spawnInterval : ℕ) : Option DropSource :=
  match panels with
  | [] => none
  | first :: rest => some fun rng =>
    let (panel, rng) := spawnRandOf rng first rest
    let (off, rng) := spawnRandBelow rng spawnInterval
    (some ⟨BitVec.ofNat 16 off, [⟨panel, sparkleFlash fadeMs, 255⟩]⟩, rng)

def leafSlots : List ℕ := (List.range topo.index.count).filter topo.index.isLeaf

def rootPath (leaf : ℕ) : Option (List ℕ) :=
  (spawnBuildPath topo.index.parent topo.index.rootSlot lightnetMaxPanels leaf).map List.reverse

def topologyRainDrops (spawnInterval : ℕ) (reverse : Bool) (widthRings : Byte) (fallMs : Ticks) :
    Option DropSource :=
  match topo.leafSlots with
  | [] => none
  | first :: rest => some fun rng =>
    let (leaf, rng) := spawnRandOf rng first rest
    let (off, rng) := spawnRandBelow rng spawnInterval
    ((topo.rootPath leaf).map fun path => ⟨BitVec.ofNat 16 off,
      topo.pathPanels path reverse fun pos => rainDropAt fallMs widthRings pos path.length⟩, rng)

def matrixPathDrops (spawnInterval : ℕ) (reverse : Bool) (widthRings : Byte) (fallMs : Ticks) :
    Option DropSource :=
  match topo.leafSlots with
  | [] => none
  | first :: rest => some fun rng =>
    let (off, rng) := spawnRandBelow rng spawnInterval
    let (leaf, rng) := spawnRandOf rng first rest
    let maxDepth := max topo.index.maxDepthVal 1
    ((topo.rootPath leaf).map fun path => ⟨BitVec.ofNat 16 off,
      topo.pathPanels path reverse fun pos =>
        { rainDropAt fallMs widthRings pos (maxDepth + 1) with
          risePct := matrixHeadRise
          fallPct := 255 - matrixHeadRise }⟩, rng)

/-- The axis of a fall: its cosine and sine. -/
def fallAxis (srcArg : Byte) : ℚ × ℚ :=
  let th := Single.mul (Single.mul srcArg.toNat 2) spawnDeg2rad
  (topo.geom.math.cosf th, topo.geom.math.sinf th)

def fallCoordOf (axis : ℚ × ℚ) (reverse : Bool) (slot : ℕ) : Option ℚ :=
  (topo.geom.centroidOf (topo.index.graph.panelAt slot)).map fun point =>
    Single.mul (PanelGeometry.along axis.1 axis.2 point) (if reverse then -1 else 1)

def perpCoordOf (axis : ℚ × ℚ) (slot : ℕ) : Option ℚ :=
  (topo.geom.centroidOf (topo.index.graph.panelAt slot)).map fun point =>
    Single.add (Single.mul (-point.1) axis.2) (Single.mul point.2 axis.1)

def neighborSlots (slot : ℕ) : List ℕ := (topo.index.graph.neighbors slot).map (·.slot)

/-- The slots that no neighbour is above of. -/
def topSlots (fall : ℕ → Option ℚ) : List ℕ :=
  (List.range topo.index.count).filter fun s =>
    match fall s with
    | none => false
    | some fc => (topo.neighborSlots s).all fun v =>
      match fall v with
      | none => true
      | some nf => !decide (nf < fc)

/-- The neighbour that descends most. -/
def steepest (fall : ℕ → Option ℚ) (slot : ℕ) (fc : ℚ) : Option (ℕ × ℚ) :=
  (topo.neighborSlots slot).foldl (fun best v =>
    match fall v with
    | none => best
    | some vf => if (best.map Prod.snd).getD fc < vf then some (v, vf) else best) none

/-- `while (len < n)` -/
def streak (fall : ℕ → Option ℚ) : ℕ → ℕ → ℚ → List ℕ
  | 0, _, _ => []
  | n + 1, cur, curF =>
    match topo.steepest fall cur curF with
    | none => [cur]
    | some (best, bestF) => cur :: streak fall n best bestF

def geometricRainDrops (srcArg : Byte) (spawnInterval : ℕ) (reverse : Bool) (widthRings : Byte)
    (fallMs : Ticks) : Option DropSource :=
  let fall := topo.fallCoordOf (topo.fallAxis srcArg) reverse
  match topo.topSlots fall with
  | [] => none
  | first :: rest => some fun rng =>
    let (off, rng) := spawnRandBelow rng spawnInterval
    let (cur, rng) := spawnRandOf rng first rest
    ((fall cur).map fun curF =>
      let chain := topo.streak fall topo.index.count cur curF
      ⟨BitVec.ofNat 16 off, topo.pathPanels chain false fun pos =>
        rainDropAt fallMs widthRings pos chain.length⟩, rng)

def matrixLineHalfwidthK : ℚ := 2

/-- The brightness of a panel at the distance `dd` from the middle of a line. -/
def lineBright (lineHalfWidth dd : ℚ) : Byte :=
  let t := Single.div dd lineHalfWidth
  let smooth := Single.mul (Single.mul t t) (Single.sub 3 (Single.mul 2 t))
  u8 (Single.toNat (Single.mul (Single.sub 1 smooth) 255))

def matrixLineDrops (srcArg : Byte) (spawnInterval : ℕ) (reverse : Bool) (widthRings : Byte)
    (fallMs : Ticks) : Option DropSource :=
  let axis := topo.fallAxis srcArg
  let fall := topo.fallCoordOf axis reverse
  let cand := (List.range topo.index.count).filter fun s => (fall s).isSome
  match cand, cand.filterMap fall with
  | first :: rest, fc :: fcs => some fun rng =>
    let alongMin := fcs.foldl min fc
    let alongSpan := Single.sub (fcs.foldl max fc) alongMin
    let alongSpan := if 0 < alongSpan then alongSpan else 1
    let (off, rng) := spawnRandBelow rng spawnInterval
    let (anchor, rng) := spawnRandOf rng first rest
    let panelSize := topo.geom.circumradiusOf (topo.index.graph.panelAt anchor)
    let panelSize := if panelSize ≤ 0 then Single.div alongSpan (max topo.index.count 1)
      else panelSize
    let tail := Single.toNat (Single.div (Single.mul (Single.mul (max widthRings.toNat 1 : ℕ)
      panelSize) fallMs.toNat) alongSpan)
    let tailDur := BitVec.ofNat 16 tail
    let tailDur : Ticks := if tailDur = 0 then 1 else tailDur
    let lineHalfWidth := Single.mul panelSize matrixLineHalfwidthK
    let lineHalfWidth := if lineHalfWidth ≤ 0 then Single.round (1 / 1000) else lineHalfWidth
    ((topo.perpCoordOf axis anchor).map fun anchorPerp => ⟨BitVec.ofNat 16 off,
      cand.filterMap fun s =>
        match topo.perpCoordOf axis s, fall s with
        | some sp, some sf =>
          let dd := |Single.sub sp anchorPerp|
          let bright := lineBright lineHalfWidth dd
          if lineHalfWidth ≤ dd ∨ bright < 12 then none
          else
            let startDelay := Single.toNat (Single.mul (Single.div (Single.sub sf alongMin)
              alongSpan) fallMs.toNat)
            some ⟨topo.index.graph.panelAt s,
              ⟨BitVec.ofNat 16 startDelay, tailDur, matrixHeadRise, 255 - matrixHeadRise⟩, bright⟩
        | _, _ => none⟩, rng)
  | _, _ => none

/-- The drops of a RAIN, SPARKLE or MATRIX step. -/
def dropsOf (target : PanelSelector) (step : SceneStep) (spawnInterval : ℕ) (spd : ℚ) :
    Option DropSource :=
  let reverse := step.params .flags &&& runnerFlagReverse ≠ 0
  let geometric := step.params .flags &&& runnerFlagGeometric ≠ 0 ∧ topo.geom.valid
  let widthRings := step.params .width
  let fallMs := scaledDropMs
    (if step.speedMs = 0 then rainDefaultFallMs else step.speedMs.toNat) spd
  if step.animType = .sparkle then
    sparkleDrops (topo.resolvePanels target)
      (scaledDropMs (widthRings.toNat * sparkleFadeMsPerWidth) spd) spawnInterval
  else if topo.index.count = 0 then none
  else if step.animType = .matrix then
    if geometric then
      topo.matrixLineDrops (step.params .srcArg) spawnInterval reverse widthRings fallMs
    else topo.matrixPathDrops spawnInterval reverse widthRings fallMs
  else if geometric then
    topo.geometricRainDrops (step.params .srcArg) spawnInterval reverse widthRings fallMs
  else topo.topologyRainDrops spawnInterval reverse widthRings fallMs

end SceneTopology

end Lightnet
