import Lightnet.Relay.DiscoveryCoordinator
import Mathlib.Data.List.Sort
import Mathlib.Data.Finset.SymmDiff

/-!
# The graph of the panels and its rooted view

The panels are slots in the order they were discovered, the links between them come from the
discovery. The rooted view adds the depth, the parent and the place in canonical order of every
slot, found by a breadth first search and a depth first visit.
-/

namespace Lightnet

structure Neighbor where
  slot : ℕ
  myEdge : ℕ
  peerEdge : ℕ
  deriving DecidableEq

structure PanelGraph where
  idx : List ℕ
  slotByIndex : ℕ → Option ℕ
  neighbors : ℕ → List Neighbor

namespace PanelGraph

/-- A panel that is listed twice has its last slot. -/
def slotTable (panelIndices : List ℕ) : ℕ → Option ℕ :=
  panelIndices.zipIdx.foldl (fun table entry => Function.update table entry.1 (some entry.2))
    fun _ => none

/-- The ends of a link that are at the slot, each with what is at the other end. -/
def linkNeighbors (slotByIndex : ℕ → Option ℕ) (slot : ℕ) (l : TopoLink) : List Neighbor :=
  match slotByIndex l.panelA, slotByIndex l.panelB with
  | some a, some b =>
    (if a = slot then [⟨b, l.edgeA, l.edgeB⟩] else []) ++
      if b = slot then [⟨a, l.edgeB, l.edgeA⟩] else []
  | _, _ => []

def build (panelIndices : List ℕ) (links : List TopoLink) : Option PanelGraph :=
  if panelIndices.length = 0 ∨ lightnetMaxPanels < panelIndices.length then none
  else
    let slotByIndex := slotTable panelIndices
    some ⟨panelIndices, slotByIndex, fun slot => links.flatMap (linkNeighbors slotByIndex slot)⟩

def count (g : PanelGraph) : ℕ := g.idx.length

def panelAt (g : PanelGraph) (slot : ℕ) : ℕ := g.idx.getD slot 0

def slotOf (g : PanelGraph) (panelIndex : ℕ) : Option ℕ := g.slotByIndex panelIndex

/-- The first slot with the lowest panel index. -/
def lowestSlot (g : PanelGraph) : ℕ :=
  (List.range g.count).foldl (fun best s => if g.panelAt s < g.panelAt best then s else best) 0

end PanelGraph

/-! ### The search from the root -/

structure Search where
  queue : List ℕ
  visited : ℕ → Bool
  depth : ℕ → ℕ
  parent : ℕ → Option ℕ
  childCount : ℕ → ℕ
  maxDepthVal : ℕ

namespace Search

def start (rootSlot : ℕ) : Search where
  queue := [rootSlot]
  visited := Function.update (fun _ => false) rootSlot true
  depth _ := 0
  parent _ := none
  childCount _ := 0
  maxDepthVal := 0

/-- Looking at a neighbour of `u`. -/
def look (u : ℕ) (s : Search) (v : ℕ) : Search :=
  if s.visited v then s
  else
    { queue := s.queue ++ [v]
      visited := Function.update s.visited v true
      depth := Function.update s.depth v (s.depth u + 1)
      parent := Function.update s.parent v (some u)
      childCount := Function.update s.childCount u (s.childCount u + 1)
      maxDepthVal := max s.maxDepthVal (s.depth u + 1) }

/-- `while (qh < qt)`, for at most as many rounds as the first argument says. -/
def run (g : PanelGraph) : ℕ → Search → Search
  | 0, s => s
  | n + 1, s =>
    match s.queue with
    | [] => s
    | u :: queue =>
      run g n (((g.neighbors u).map (·.slot)).foldl (look u) { s with queue })

end Search

/-! ### The rooted view -/

abbrev PanelSet := Finset ℕ

namespace PanelSet

/-- Complement within the slots below `count`. -/
def invert (s : PanelSet) (count : ℕ) : PanelSet := symmDiff s (Finset.range count)

end PanelSet

structure TopologyIndex where
  graph : PanelGraph
  rootSlot : ℕ
  depth : ℕ → ℕ
  parent : ℕ → Option ℕ
  childCount : ℕ → ℕ
  maxDepthVal : ℕ
  canonPos : ℕ → ℕ

namespace TopologyIndex

def pickRoot (g : PanelGraph) (rootPanelIdx : ℕ) : ℕ :=
  match g.slotOf rootPanelIdx with
  | some slot => slot
  | none => g.lowestSlot

/-- The children of `u` by its connectors, at most eight. -/
def sortedChildren (g : PanelGraph) (parent : ℕ → Option ℕ) (u : ℕ) : List ℕ :=
  ((((g.neighbors u).filter fun nb => parent nb.slot = some u).take 8).insertionSort
    fun nb nb' => nb.myEdge ≤ nb'.myEdge).map (·.slot)

/-- `while (sp)`, for at most as many rounds as the first argument says. -/
def numberFrom (children : ℕ → List ℕ) : ℕ → List ℕ → ℕ → (ℕ → ℕ) → ℕ → ℕ
  | 0, _, _, canonPos => canonPos
  | _ + 1, [], _, canonPos => canonPos
  | n + 1, u :: stack, order, canonPos =>
    numberFrom children n (children u ++ stack) (order + 1) (Function.update canonPos u order)

def build (g : PanelGraph) (rootPanelIdx : ℕ) : TopologyIndex :=
  let rootSlot := pickRoot g rootPanelIdx
  let s := Search.run g g.count (.start rootSlot)
  { graph := g
    rootSlot
    depth := s.depth
    parent := s.parent
    childCount := s.childCount
    maxDepthVal := s.maxDepthVal
    canonPos := numberFrom (sortedChildren g s.parent) g.count [rootSlot] 0 fun _ => 0 }

def count (t : TopologyIndex) : ℕ := t.graph.count

def isLeaf (t : TopologyIndex) (slot : ℕ) : Bool := t.childCount slot = 0

def isBranch (t : TopologyIndex) (slot : ℕ) : Bool := 2 ≤ t.childCount slot

/-- The children of `u` as they are pushed to the stack, the last on top. -/
def pushedChildren (t : TopologyIndex) (u : ℕ) : List ℕ :=
  (((t.graph.neighbors u).map (·.slot)).filter fun v => t.parent v = some u).reverse

/-- `while (sp)`, for at most as many rounds as the first argument says. -/
def fill (t : TopologyIndex) : ℕ → List ℕ → PanelSet → PanelSet
  | 0, _, out => out
  | _ + 1, [], out => out
  | n + 1, u :: stack, out => fill t n (t.pushedChildren u ++ stack) (insert u out)

def fillSubtree (t : TopologyIndex) (slot : ℕ) (out : PanelSet) : PanelSet :=
  t.fill t.count [slot] out

end TopologyIndex

end Lightnet
