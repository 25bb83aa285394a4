import Lightnet.Protocol
import Lightnet.Relay.PanelDiscovery

/-!
# One relay panel: discovery driver, router and frame dispatcher

The driver answers offers, probes the panel's own edges when it is told to advance, and reports
when none is left. The router forwards frames by the edge states discovery left behind. The
dispatcher runs both on every frame that arrives.

Each function returns the panel after it and the frames it puts on its edges, in order.
-/

namespace Lightnet

abbrev Millis := BitVec 32

/-- A valid frame, with the fields the relay layer reads. -/
inductive Frame where
  | initializationPull (panelIndex parentEdgeIndex : ℕ)
  | registerEdge (panelIndex edgeIndex parentEdgeIndex : ℕ)
  | discoveryAdvance (targetPanelIndex assignIndex : ℕ)
  | discoveryDone (panelIndex : ℕ)
  | other (type : PacketType) (targetPanelIndex : ℕ) (payload : List Byte)
  deriving DecidableEq

/-- Only an advance and ordinary traffic are stamped with a target; the rest carry zero. -/
def Frame.targetPanelIndex : Frame → ℕ
  | discoveryAdvance target _ => target
  | other _ target _ => target
  | _ => 0

def Frame.isPull : Frame → Bool
  | initializationPull _ _ => true
  | _ => false

def discoveryRejectedIndex : ℕ := 0

abbrev Sends := List (ℕ × Frame)

structure Panel where
  discovery : PanelDiscovery
  assignedIndex : ℕ
  pendingAssignIndex : ℕ
  probingEdgeIndex : Option ℕ
  probeAttempts : ℕ
  probeStartedMs : Millis

namespace Panel

def init (edgeCount : ℕ) : Panel where
  discovery := .init edgeCount
  assignedIndex := 0
  pendingAssignIndex := 0
  probingEdgeIndex := none
  probeAttempts := 0
  probeStartedMs := 0

/-! ### The discovery driver -/

def probeTimeoutMs : Millis := 20

def probeAttemptsMax : ℕ := 3

def sendProbe (p : Panel) (edge : ℕ) (nowMs : Millis) : Panel × Sends :=
  ({ p with probingEdgeIndex := some edge, probeStartedMs := nowMs },
    [(edge, .initializationPull p.pendingAssignIndex edge)])

/-- The first edge that is not the parent's and has not been explored. -/
def nextEdge (p : Panel) : Option ℕ :=
  (List.range p.discovery.edgeCount).find? fun edge =>
    edge ≠ p.discovery.parentEdge ∧ p.discovery.edgeState edge = .unexplored

def tryNextEdge (p : Panel) (nowMs : Millis) : Panel × Sends :=
  match p.nextEdge with
  | some edge => sendProbe { p with probeAttempts := 0 } edge nowMs
  | none => (p, [(p.discovery.parentEdge, .discoveryDone p.assignedIndex)])

def handleInitializationPull (p : Panel) (fromEdge panelIndex parentEdgeIndex : ℕ) :
    Panel × Sends :=
  let (discovery, accepted) := p.discovery.onParentOffer fromEdge
  if accepted then
    let assignedIndex := if p.assignedIndex = 0 then panelIndex else p.assignedIndex
    ({ p with discovery, assignedIndex },
      [(fromEdge, .registerEdge assignedIndex fromEdge parentEdgeIndex)])
  else
    ({ p with discovery },
      [(fromEdge, .registerEdge discoveryRejectedIndex fromEdge parentEdgeIndex)])

def handleRegisterEdgeReply (p : Panel) (fromEdge panelIndex : ℕ) (nowMs : Millis) :
    Panel × Sends :=
  let p := { p with probingEdgeIndex := none }
  if panelIndex ≠ discoveryRejectedIndex then
    -- The walk goes on in the child; this panel waits for its next advance.
    ({ p with discovery := p.discovery.onChildProbeAccepted fromEdge panelIndex }, [])
  else
    tryNextEdge { p with discovery := p.discovery.onChildProbeFailed fromEdge } nowMs

def handleAdvance (p : Panel) (targetPanelIndex assignIndex : ℕ) (nowMs : Millis) :
    Panel × Sends :=
  if targetPanelIndex ≠ p.assignedIndex then (p, [])
  else if p.probingEdgeIndex.isSome then (p, [])
  else tryNextEdge { p with pendingAssignIndex := assignIndex } nowMs

def driverOnFrameArrived (p : Panel) (fromEdge : ℕ) (frame : Frame) (nowMs : Millis) :
    Panel × Sends :=
  match frame with
  | .initializationPull panelIndex parentEdgeIndex =>
    p.handleInitializationPull fromEdge panelIndex parentEdgeIndex
  | .registerEdge panelIndex _ _ =>
    if p.probingEdgeIndex = some fromEdge then p.handleRegisterEdgeReply fromEdge panelIndex nowMs
    else (p, [])
  | .discoveryAdvance targetPanelIndex assignIndex =>
    p.handleAdvance targetPanelIndex assignIndex nowMs
  | _ => (p, [])

def tick (p : Panel) (nowMs : Millis) : Panel × Sends :=
  match p.probingEdgeIndex with
  | none => (p, [])
  | some edge =>
    if nowMs - p.probeStartedMs < probeTimeoutMs then (p, [])
    else
      let p := { p with probeAttempts := p.probeAttempts + 1 }
      if p.probeAttempts < probeAttemptsMax then sendProbe p edge nowMs
      else
        tryNextEdge { p with
          probingEdgeIndex := none
          discovery := p.discovery.onChildProbeFailed edge } nowMs

/-! ### The router -/

/-- What the scan over the connected child edges has found. -/
structure Branch where
  bestEdge : Option ℕ
  bestChildIndex : ℕ
  allChildrenIndexed : Bool

def scanBranch (p : Panel) (fromEdge target : ℕ) (b : Branch) (edge : ℕ) : Branch :=
  if edge = fromEdge ∨ p.discovery.isConnected edge = false then b
  else
    let childIndex := p.discovery.childIndex edge
    if childIndex = 0 then { b with allChildrenIndexed := false }
    else if childIndex ≤ target ∧ b.bestChildIndex < childIndex then
      { b with bestEdge := some edge, bestChildIndex := childIndex }
    else b

def branch (p : Panel) (fromEdge target : ℕ) : Branch :=
  (List.range p.discovery.edgeCount).foldl (p.scanBranch fromEdge target) ⟨none, 0, true⟩

def floodEdges (p : Panel) (fromEdge : ℕ) : List ℕ :=
  (List.range p.discovery.edgeCount).filter fun edge =>
    edge ≠ fromEdge ∧ p.discovery.isConnected edge

/-- Broadcasts go out on every connected child edge, an addressed frame on the one branch that
holds its target; a child without an index on record falls back to the flood. -/
def routeDownstream (p : Panel) (fromEdge : ℕ) (frame : Frame) : Sends :=
  let b := p.branch fromEdge frame.targetPanelIndex
  if frame.targetPanelIndex ≠ 0 ∧ b.allChildrenIndexed then
    b.bestEdge.toList.map fun edge => (edge, frame)
  else
    (p.floodEdges fromEdge).map fun edge => (edge, frame)

def routerOnFrameArrived (p : Panel) (fromEdge : ℕ) (frame : Frame) : Sends :=
  if !p.discovery.hasParent then []
  else if fromEdge = p.discovery.parentEdge then p.routeDownstream fromEdge frame
  else if p.discovery.isConnected p.discovery.parentEdge then
    [(p.discovery.parentEdge, frame)]
  else []

/-! ### The dispatcher -/

def addressedToSelf (p : Panel) (frame : Frame) : Bool :=
  p.assignedIndex ≠ 0 ∧ frame.targetPanelIndex = p.assignedIndex

def relay (p : Panel) (fromEdge : ℕ) (frame : Frame) : Sends :=
  if !frame.isPull && !p.addressedToSelf frame then p.routerOnFrameArrived fromEdge frame else []

/-- Whether the application should act on a frame, in the state after the driver saw it. -/
def actsLocally (p : Panel) (frame : Frame) : Bool :=
  p.assignedIndex ≠ 0 ∧
    (frame.targetPanelIndex = 0 ∨ frame.targetPanelIndex = p.assignedIndex)

/-- Relaying comes before the driver's reaction on the wire. -/
def onFrameArrived (p : Panel) (fromEdge : ℕ) (frame : Frame) (nowMs : Millis) :
    Panel × Sends × Bool :=
  let relayed := p.relay fromEdge frame
  let (p', sends) := p.driverOnFrameArrived fromEdge frame nowMs
  (p', relayed ++ sends, p'.actsLocally frame)

end Panel

end Lightnet
