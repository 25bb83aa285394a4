import Lightnet.Library.CheckedTable
import Lightnet.Topology.PanelGraph

/-!
# The layout of the panels in the plane

Panels are regular polygons. A breadth first search from the anchor panel finds for every panel its
parent and the edges that face each other, and each panel is placed against the edge of its parent.
The numbers of the platform and its trigonometry are parameters; accesses to the tables and
divisions are checked.
-/

namespace Lightnet

open CheckedTable

/-- The trigonometry of the platform. -/
structure Trigonometry (F : Type) where
  cosf : F → F
  sinf : F → F
  atan2f : F → F → F
  geoPi : F

namespace PanelLayout

def maxSides : ℕ := 8

/-! ### Parents -/

structure Tree where
  queue : List ℕ
  visited : ℕ → Bool
  parent : ℕ → Option ℕ
  parentMyEdge : ℕ → ℕ
  parentPeerEdge : ℕ → ℕ
  bfsOrder : List ℕ

namespace Tree

def start (rootSlot : ℕ) : Tree where
  queue := [rootSlot]
  visited := Function.update (fun _ => false) rootSlot true
  parent _ := none
  parentMyEdge _ := 0
  parentPeerEdge _ := 0
  bfsOrder := [rootSlot]

/-- Looking at a neighbour of `u`. The tables have an entry for each slot, and `bfsOrder` is as
long as the queue gets. -/
def look (u : ℕ) (t : Tree) (nb : Neighbor) : Except Undefined Tree :=
  let v := nb.slot
  if lightnetMaxPanels ≤ v then .error .outOfRange
  else if t.visited v then .ok t
  else if lightnetMaxPanels ≤ t.bfsOrder.length then .error .outOfRange
  else .ok
    { queue := t.queue ++ [v]
      visited := Function.update t.visited v true
      parent := Function.update t.parent v (some u)
      parentMyEdge := Function.update t.parentMyEdge v nb.peerEdge
      parentPeerEdge := Function.update t.parentPeerEdge v nb.myEdge
      bfsOrder := t.bfsOrder ++ [v] }

/-- `while (qh < qt)`, for at most as many rounds as the second argument says. -/
def run (g : PanelGraph) : ℕ → Tree → Except Undefined Tree
  | 0, t => .ok t
  | n + 1, t =>
    match t.queue with
    | [] => .ok t
    | u :: queue => do
      let t ← (g.neighbors u).foldlM (look u) { t with queue }
      run g n t

end Tree

def bfsParents (g : PanelGraph) (rootSlot : ℕ) : Except Undefined Tree :=
  if lightnetMaxPanels ≤ rootSlot then .error .outOfRange
  else Tree.run g g.count (.start rootSlot)

/-! ### Polygons -/

section

variable {F : Type} [Add F] [Sub F] [Mul F] [Div F] [Neg F] [NatCast F] (trig : Trigonometry F)

def edgeLen : F := ((100 : ℕ) : F)

/-- The radians of an angle in degrees. -/
def radians (degrees : F) : F := degrees * (trig.geoPi / ((180 : ℕ) : F))

/-- The vertices of a polygon with its first edge on the axis. -/
def localVerts (sides : ℕ) : Except Undefined (List (Option (F × F))) := do
  let step : F ← divide ((360 : ℕ) : F) sides
  let zero : F := ((0 : ℕ) : F)
  let verts ← write (List.replicate (maxSides + 1) none) 0 (zero, zero)
  let (verts, _) ← (List.range sides).foldlM (fun (verts, x, y) k => do
    let rad := radians trig (step * (k : F))
    let x := x + edgeLen * trig.cosf rad
    let y := y + edgeLen * trig.sinf rad
    let verts ← write verts (k + 1) (x, y)
    pure (verts, x, y)) (verts, zero, zero)
  pure verts

structure Transform (F : Type) where
  rotDeg : F
  refLocal : F × F
  refWorld : F × F

/-- A point of a panel in the plane. -/
def applyT (transforms : List (Option (Transform F))) (s : ℕ) (point : F × F) :
    Except Undefined (F × F) := do
  let t ← read transforms s
  let rad := radians trig t.rotDeg
  let cosA := trig.cosf rad
  let sinA := trig.sinf rad
  let dx := point.1 - t.refLocal.1
  let dy := point.2 - t.refLocal.2
  pure (cosA * dx + sinA * dy + t.refWorld.1, -sinA * dx + cosA * dy + t.refWorld.2)

def angleBetween (a b : F × F) : F :=
  let cross := a.1 * b.2 - a.2 * b.1
  let dot := a.1 * b.1 + a.2 * b.2
  trig.atan2f cross dot * ((180 : ℕ) : F) / trig.geoPi

/-- The number of sides that is laid out. -/
def clampSides (sides : ℕ) : ℕ := if sides ≤ maxSides then sides else maxSides

/-! ### Placing a panel -/

structure Places (F : Type) where
  transforms : List (Option (Transform F))
  centroids : List (Option (F × F))

/-- Nothing is placed. -/
def Places.empty : Places F :=
  ⟨List.replicate lightnetMaxPanels none, List.replicate lightnetMaxPanels none⟩

variable (ec : List (Option ℕ)) (t : Tree)

/-- Where a panel is. The edge of its parent is compared with the edge count of the parent as it
is, its own with the one that is laid out. -/
def transformOf (transforms : List (Option (Transform F))) (s : ℕ) (sides : ℕ)
    (verts : List (Option (F × F))) : Except Undefined (Transform F) :=
  let zero : F := ((0 : ℕ) : F)
  match t.parent s with
  | none => .ok ⟨zero, (zero, zero), (zero, zero)⟩
  | some p => do
    let parentSides ← read ec p
    let ppe := if parentSides ≤ t.parentPeerEdge s then 0 else t.parentPeerEdge s
    let rme := if sides ≤ t.parentMyEdge s then 0 else t.parentMyEdge s
    let parentVerts ← localVerts trig (clampSides parentSides)
    let ps ← applyT trig transforms p (← read parentVerts ppe)
    let pe ← applyT trig transforms p (← read parentVerts (ppe + 1))
    let rs ← read verts rme
    let re ← read verts (rme + 1)
    pure
      { rotDeg := angleBetween trig (ps.1 - pe.1, ps.2 - pe.2) (re.1 - rs.1, re.2 - rs.2)
        refLocal := rs
        refWorld := pe }

/-- The mean of the vertices. -/
def centroid (sides : ℕ) (verts : List (Option (F × F))) : Except Undefined (F × F) := do
  let zero : F := ((0 : ℕ) : F)
  let sum ← (List.range sides).foldlM (fun (sum : F × F) k => do
    let v ← read verts k
    pure (sum.1 + v.1, sum.2 + v.2)) (zero, zero)
  let x ← divide sum.1 sides
  let y ← divide sum.2 sides
  pure (x, y)

def place (places : Places F) (s : ℕ) : Except Undefined (Places F) := do
  let sides := clampSides (← read ec s)
  let verts ← localVerts trig sides
  let transform ← transformOf trig ec t places.transforms s sides verts
  let transforms ← write places.transforms s transform
  let c ← centroid sides verts
  let c ← applyT trig transforms s c
  let centroids ← write places.centroids s c
  pure ⟨transforms, centroids⟩

def layout : Except Undefined (Places F) := t.bfsOrder.foldlM (place trig ec t) Places.empty

end

/-! ### The topology of a scene -/

/-- A side count of zero counts as one. -/
def sideCounts (edgeCounts : List ℕ) : List (Option ℕ) :=
  edgeCounts.map (fun n => some (if n = 0 then 1 else n)) ++
    List.replicate (lightnetMaxPanels - edgeCounts.length) none

/-- The lowest panel is the anchor, unless there is one with the index zero. -/
def anchorSlot (g : PanelGraph) : ℕ := TopologyIndex.pickRoot g 0

structure RegTopology where
  indices : List ℕ
  edgeCounts : List ℕ
  links : List TopoLink

/-- The topology that the app sets, which may leave the indices and the edge counts out. -/
def sceneSetTopology (indices : Option (ℕ → ℕ)) (count : ℕ) (links : List TopoLink)
    (edgeCounts : Option (ℕ → ℕ)) : RegTopology :=
  let count := min count lightnetMaxPanels
  { indices := (List.range count).map (indices.getD fun _ => 0)
    edgeCounts := (List.range count).map (edgeCounts.getD fun _ => 0)
    links := links.take lightnetMaxPanels }

/-- The graph of the topology, if it has panels. -/
def RegTopology.graph (topo : RegTopology) : Option PanelGraph :=
  PanelGraph.build topo.indices topo.links

end PanelLayout

end Lightnet
