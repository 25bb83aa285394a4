import Lightnet.Library.SinglePrecision
import Lightnet.Scene.SelectorRun
import Lightnet.Scene.Record

/-!
# The coordinates of a sweep

A runner sweeps over coordinates of the panels: the hops from a source, or the place of the panel
in the plane, on an axis or around a centre. Sines and square roots are those of the platform, and
the layout of the plane is taken as it is.
-/

namespace Lightnet

/-! ### Hops from a source -/

structure Flood where
  queue : List ℕ
  dist : ℕ → Option ℕ

namespace Flood

def look (u : ℕ) (f : Flood) (v : ℕ) : Flood :=
  if (f.dist v).isSome then f
  else
    { queue := f.queue ++ [v]
      dist := Function.update f.dist v ((f.dist u).map (· + 1)) }

/-- `while (qh < qt)`, for at most as many rounds as the first argument says. -/
def run (g : PanelGraph) : ℕ → Flood → Flood
  | 0, f => f
  | n + 1, f =>
    match f.queue with
    | [] => f
    | u :: queue => run g n (((g.neighbors u).map (·.slot)).foldl (look u) { f with queue })

end Flood

namespace TopologyIndex

variable (topo : TopologyIndex)

def distancesFrom (sources : PanelSet) : ℕ → Option ℕ :=
  (Flood.run topo.graph topo.count
    { queue := (List.range topo.count).filter (· ∈ sources)
      dist := fun s => if s ∈ sources ∧ s < topo.count then some 0 else none }).dist

/-- An empty source is the root. -/
def buildSourceSet (kind arg : Byte) : PanelSet :=
  let out : PanelSet :=
    if kind = RunnerSource.toByte .leaves then slotsWhere topo topo.isLeaf
    else if kind = RunnerSource.toByte .all then Finset.range topo.count
    else if kind = RunnerSource.toByte .panel then
      match topo.graph.slotOf arg.toNat with
      | some sl => {sl}
      | none => ∅
    else if topo.count ≠ 0 then {topo.rootSlot}
    else ∅
  if topo.count ≠ 0 ∧ out ∩ Finset.range topo.count = ∅ then insert topo.rootSlot out else out

/-- The greatest coordinate, and the coordinates of the panels. -/
def computeDistanceField (panels : List ℕ) (srcKind srcArg : Byte) (reverse : Bool) :
    Byte × List Byte :=
  let dist := topo.distancesFrom (topo.buildSourceSet srcKind srcArg)
  let coord := panels.map fun p => ((topo.graph.slotOf p).bind dist).getD 0
  let maxD := coord.foldl max 0
  (u8 maxD, coord.map fun d => u8 (if reverse then maxD - d else d))

end TopologyIndex

/-! ### The plane -/

/-- The functions of the platform on single precision numbers. -/
structure FloatMath where
  cosf : ℚ → ℚ
  sinf : ℚ → ℚ
  sqrtf : ℚ → ℚ
  atan2f : ℚ → ℚ → ℚ

structure PanelGeometry where
  math : FloatMath
  valid : Bool
  centroidOf : ℕ → Option (ℚ × ℚ)
  circumradiusOf : ℕ → ℚ

/-- The single precision number nearest to π. -/
def geoPi : ℚ := 13176795 / 4194304

def geoEpsilon : ℚ := Single.round (1 / 10000)

/-- A coordinate within `0` and `resolution` for a place within zero and one. -/
def quantise (t : ℚ) (resolution : Byte) : ℕ :=
  min (Single.toNat (Single.add (Single.mul t resolution.toNat) (1 / 2))) resolution.toNat

namespace PanelGeometry

variable (geo : PanelGeometry)

/-- Where a point is along a direction. -/
def along (ca sa : ℚ) (point : ℚ × ℚ) : ℚ :=
  Single.add (Single.mul point.1 ca) (Single.mul point.2 sa)

def computeGeometricField (panels : List ℕ) (angleDeg : ℚ) (reverse : Bool) (resolution : Byte) :
    Byte × List Byte :=
  let resolution := if resolution = 0 then 1 else resolution
  let rad := Single.mul angleDeg (Single.div geoPi 180)
  let place (p : ℕ) := (geo.centroidOf p).map (along (geo.math.cosf rad) (geo.math.sinf rad))
  match panels.filterMap place with
  | [] => (0, panels.map fun _ => 0)
  | pr :: prs =>
    let minP := prs.foldl min pr
    let span := Single.sub (prs.foldl max pr) minP
    if span ≤ geoEpsilon then (0, panels.map fun _ => 0)
    else
      (resolution, panels.map fun p =>
        match place p with
        | none => 0
        | some pr =>
          let c := quantise (Single.div (Single.sub pr minP) span) resolution
          u8 (if reverse then resolution.toNat - c else c))

def distance (p q : ℚ × ℚ) : ℚ :=
  let dx := Single.sub p.1 q.1
  let dy := Single.sub p.2 q.2
  geo.math.sqrtf (Single.add (Single.mul dx dx) (Single.mul dy dy))

/-- The mean of the centroids of a set of slots. -/
def centre (topo : TopologyIndex) (src : PanelSet) : Option (ℚ × ℚ) :=
  let points := ((List.range topo.count).filter (· ∈ src)).filterMap
    fun s => geo.centroidOf (topo.graph.panelAt s)
  let sum := points.foldl (fun c p => (Single.add c.1 p.1, Single.add c.2 p.2)) (0, 0)
  if points = [] then none
  else some (Single.div sum.1 points.length, Single.div sum.2 points.length)

/-- The distance to the nearest origin of a ripple. -/
def nearestRippleDist (topo : TopologyIndex) (src : PanelSet) (centre : Option (ℚ × ℚ))
    (point : ℚ × ℚ) : Option ℚ :=
  match centre with
  | some c => some (geo.distance point c)
  | none =>
    ((((List.range topo.count).filter (· ∈ src)).filterMap
      fun s => geo.centroidOf (topo.graph.panelAt s)).map (geo.distance point)).min?

/-- The greatest coordinate, and the near and far edges of the panels. -/
def computeGeometricCenterField (topo : TopologyIndex) (panels : List ℕ) (srcKind srcArg : Byte)
    (reverse : Bool) (resolution : Byte) : Byte × List (Byte × Byte) :=
  let resolution := if resolution = 0 then 1 else resolution
  let src := topo.buildSourceSet srcKind srcArg
  let useCenter := srcKind = RunnerSource.toByte .all
  let centre := if useCenter then geo.centre topo src else none
  let band (p : ℕ) := (geo.centroidOf p).map fun point =>
    (geo.nearestRippleDist topo src centre point, geo.circumradiusOf p)
  let farEdges := panels.filterMap fun p =>
    (band p).bind fun b => b.1.map fun best => Single.add best b.2
  match farEdges with
  | [] => (0, panels.map fun _ => (0, 0))
  | far :: fars =>
    let maxFar := fars.foldl max far
    if useCenter ∧ centre = none ∨ maxFar ≤ geoEpsilon then (0, panels.map fun _ => (0, 0))
    else
      (resolution, panels.map fun p =>
        match band p with
        | none => (0, 0)
        | some (best, r) =>
          let c := best.getD 0
          let nc := quantise (Single.div (max (Single.sub c r) 0) maxFar) resolution
          let fc := quantise (Single.div (Single.add c r) maxFar) resolution
          if reverse then (u8 (resolution.toNat - fc), u8 (resolution.toNat - nc))
          else (u8 nc, u8 fc))

def fullTurnRad : ℚ := 2 * geoPi

/-- The bearing of a panel from the centre in turns; a panel at the hub has none. -/
def bearing (centre point : ℚ × ℚ) : Option ℚ :=
  let dx := Single.sub point.1 centre.1
  let dy := Single.sub point.2 centre.2
  if |dx| ≤ geoEpsilon ∧ |dy| ≤ geoEpsilon then none
  else
    let ang := geo.math.atan2f dy dx
    let ang := if ang < 0 then Single.add ang fullTurnRad else ang
    let t := Single.div ang fullTurnRad
    some (if 1 ≤ t then Single.sub t 1 else t)

/-- The bearings of the panels, unless none of them has one. -/
def computeWheelField (topo : TopologyIndex) (panels : List ℕ) (srcKind srcArg : Byte)
    (reverse : Bool) : Option (List ℚ) :=
  match geo.centre topo (topo.buildSourceSet srcKind srcArg) with
  | none => none
  | some centre =>
    let turns := panels.map fun p => (geo.centroidOf p).bind (geo.bearing centre)
    if turns.any Option.isSome then
      some (turns.map fun turn =>
        match turn with
        | none => 0
        | some t => if reverse then if t = 0 then 0 else Single.sub 1 t else t)
    else none

end PanelGeometry

/-! ### What the player asks of the topology -/

structure SceneTopology where
  index : TopologyIndex
  geom : PanelGeometry

namespace SceneTopology

def sceneMaxResolvedPanels : ℕ := lightnetMaxPanels

/-- A malformed selector selects nothing. -/
def resolvePanels (topo : SceneTopology) (target : PanelSelector) : List ℕ :=
  match resolveSelector topo.index target with
  | none => []
  | some set =>
    (((List.range topo.index.count).filter (· ∈ set)).map topo.index.graph.panelAt).take
      sceneMaxResolvedPanels

end SceneTopology

end Lightnet
