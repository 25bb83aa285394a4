import Mathlib.Data.Nat.Notation
import Mathlib.Logic.Function.Basic

/-!
# What a panel knows about its own edges

A panel adopts as its parent the edge on which it is first offered one, and never another: an
offer on a second edge closes a loop and is rejected. Rejected and empty edges end up alike.
-/

namespace Lightnet

inductive EdgeLinkState where
  | unexplored | connected | notConnected
  deriving DecidableEq, Repr

def maxEdges : ℕ := 6

structure PanelDiscovery where
  edgeCount : ℕ
  hasParent : Bool
  parentEdge : ℕ
  edges : ℕ → EdgeLinkState
  childIndexes : ℕ → ℕ

namespace PanelDiscovery

def init (edgeCount : ℕ) : PanelDiscovery where
  edgeCount := edgeCount
  hasParent := false
  parentEdge := 0
  edges _ := .unexplored
  childIndexes _ := 0

def edgeState (d : PanelDiscovery) (edge : ℕ) : EdgeLinkState := d.edges edge

def isConnected (d : PanelDiscovery) (edge : ℕ) : Bool := d.edges edge = .connected

def childIndex (d : PanelDiscovery) (edge : ℕ) : ℕ := d.childIndexes edge

/-- A neighbour offers itself as parent; the flag says whether it is accepted. -/
def onParentOffer (d : PanelDiscovery) (fromEdge : ℕ) : PanelDiscovery × Bool :=
  if !d.hasParent then
    ({ d with
        hasParent := true
        parentEdge := fromEdge
        edges := Function.update d.edges fromEdge .connected }, true)
  else if fromEdge = d.parentEdge then (d, true)
  else ({ d with edges := Function.update d.edges fromEdge .notConnected }, false)

def onChildProbeAccepted (d : PanelDiscovery) (edge childPanelIndex : ℕ) : PanelDiscovery :=
  { d with
      edges := Function.update d.edges edge .connected
      childIndexes := Function.update d.childIndexes edge childPanelIndex }

def onChildProbeFailed (d : PanelDiscovery) (edge : ℕ) : PanelDiscovery :=
  { d with
      edges := Function.update d.edges edge .notConnected
      childIndexes := Function.update d.childIndexes edge 0 }

end PanelDiscovery

end Lightnet
