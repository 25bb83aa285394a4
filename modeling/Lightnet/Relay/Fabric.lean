import Lightnet.Library.Transition
import Lightnet.Relay.DiscoveryCoordinator

/-!
# Panels, controller and cables as one system

A wiring says which port each cable joins to which. The fabric holds the state of every node and
the frames that are on their way. An adversary picks the events: any frame in flight may be
delivered, lost or repeated, in any order, and any node may be ticked at any time.
-/

namespace Lightnet

/-- An end of a cable: the controller's trunk, or an edge of a panel. -/
inductive Port (P : Type*) where
  | trunk
  | edge (p : P) (e : ℕ)
  deriving DecidableEq

/-- Cables join distinct ports in pairs; a port without a cable is empty. -/
structure Wiring (P : Type*) where
  edgeCount : P → ℕ
  edgeCount_le : ∀ p, edgeCount p ≤ maxEdges
  cable : Port P → Option (Port P)
  cable_symm : ∀ {a b}, cable a = some b → cable b = some a
  cable_irrefl : ∀ a, cable a ≠ some a
  edge_lt : ∀ {p e b}, cable (.edge p e) = some b → e < edgeCount p

structure Fabric (P : Type*) where
  clock : ℕ
  coordinator : DiscoveryCoordinator
  panels : P → Panel
  inFlight : List (Port P × Frame)

namespace Fabric

variable {P : Type*} (W : Wiring P)

def nowMs (s : Fabric P) : Millis := BitVec.ofNat 32 s.clock

/-- Frames put on a port arrive at the other end of its cable, if there is one. -/
def transmit (port : Port P) (frame : Frame) : List (Port P × Frame) :=
  (W.cable port).toList.map fun q => (q, frame)

def sendAll (p : P) (sends : Sends) : List (Port P × Frame) :=
  sends.flatMap fun x => transmit W (.edge p x.1) x.2

def sendTrunk (frames : List Frame) : List (Port P × Frame) :=
  frames.flatMap (transmit W .trunk)

def putPanel [DecidableEq P] (s : Fabric P) (p : P) (out : Panel × Sends) : Fabric P :=
  { s with
      panels := Function.update s.panels p out.1
      inFlight := s.inFlight ++ sendAll W p out.2 }

def putCoordinator (s : Fabric P) (out : DiscoveryCoordinator × List Frame) : Fabric P :=
  { s with
      coordinator := out.1
      inFlight := s.inFlight ++ sendTrunk W out.2 }

/-- Every node as it boots, and nothing on its way. -/
def blank (clock : ℕ) : Fabric P where
  clock := clock
  coordinator := .init
  panels p := .init (W.edgeCount p)
  inFlight := []

/-- Nothing is discovered yet and the first root offer has just been sent. -/
def init (clock : ℕ) : Fabric P :=
  (blank W clock).putCoordinator W (DiscoveryCoordinator.init.begin (BitVec.ofNat 32 clock))

/-- A frame reaches a port; what it provokes is put in flight. -/
def arrive [DecidableEq P] (s : Fabric P) : Port P → Frame → Fabric P
  | .trunk, frame => s.putCoordinator W (s.coordinator.onFrameArrived frame s.nowMs)
  | .edge p e, frame =>
    let out := (s.panels p).onFrameArrived e frame s.nowMs
    s.putPanel W p (out.1, out.2.1)

inductive Event (P : Type*) where
  | elapse (ms : ℕ)
  | deliver (i : ℕ)
  | lose (i : ℕ)
  | again (i : ℕ)
  | tickPanel (p : P)
  | tickController

def drop (s : Fabric P) (i : ℕ) : Fabric P := { s with inFlight := s.inFlight.eraseIdx i }

def step [DecidableEq P] (s : Fabric P) : Event P → Fabric P
  | .elapse ms => { s with clock := s.clock + ms }
  | .deliver i =>
    match s.inFlight[i]? with
    | some (port, frame) => (s.drop i).arrive W port frame
    | none => s
  | .lose i => s.drop i
  | .again i => { s with inFlight := s.inFlight ++ s.inFlight[i]?.toList }
  | .tickPanel p => s.putPanel W p ((s.panels p).tick s.nowMs)
  | .tickController => s.putCoordinator W (s.coordinator.tick s.nowMs)

/-! ### What the updates change -/

variable {W}

@[simp] theorem putCoordinator_panels (s : Fabric P) (out : DiscoveryCoordinator × List Frame) :
    (s.putCoordinator W out).panels = s.panels := rfl

@[simp] theorem putCoordinator_inFlight (s : Fabric P)
    (out : DiscoveryCoordinator × List Frame) :
    (s.putCoordinator W out).inFlight = s.inFlight ++ sendTrunk W out.2 := rfl

theorem mem_sendAll {p : P} {sends : Sends} {x : Port P × Frame} :
    x ∈ sendAll W p sends ↔ ∃ e, (e, x.2) ∈ sends ∧ W.cable (.edge p e) = some x.1 := by
  rcases x with ⟨port, frame⟩
  simp only [sendAll, transmit, List.mem_flatMap, List.mem_map, Option.mem_toList,
    Prod.exists, Prod.mk.injEq]
  constructor
  · rintro ⟨e, f, hmem, q, hcable, rfl, rfl⟩
    exact ⟨e, hmem, hcable⟩
  · rintro ⟨e, hmem, hcable⟩
    exact ⟨e, frame, hmem, port, hcable, rfl, rfl⟩

theorem mem_sendTrunk {frames : List Frame} {x : Port P × Frame} :
    x ∈ sendTrunk W frames ↔ x.2 ∈ frames ∧ W.cable .trunk = some x.1 := by
  rcases x with ⟨port, frame⟩
  simp only [sendTrunk, transmit, List.mem_flatMap, List.mem_map, Option.mem_toList,
    Prod.mk.injEq]
  constructor
  · rintro ⟨f, hmem, q, hcable, rfl, rfl⟩
    exact ⟨hmem, hcable⟩
  · rintro ⟨hmem, hcable⟩
    exact ⟨frame, hmem, port, hcable, rfl, rfl⟩

variable [DecidableEq P]

@[simp] theorem putPanel_panels_self (s : Fabric P) (p : P) (out : Panel × Sends) :
    (s.putPanel W p out).panels p = out.1 := Function.update_self _ _ _

@[simp] theorem putPanel_panels_of_ne (s : Fabric P) {p q : P} (out : Panel × Sends)
    (h : q ≠ p) : (s.putPanel W p out).panels q = s.panels q := Function.update_of_ne h _ _

@[simp] theorem putPanel_coordinator (s : Fabric P) (p : P) (out : Panel × Sends) :
    (s.putPanel W p out).coordinator = s.coordinator := rfl

@[simp] theorem putPanel_inFlight (s : Fabric P) (p : P) (out : Panel × Sends) :
    (s.putPanel W p out).inFlight = s.inFlight ++ sendAll W p out.2 := rfl

end Fabric

end Lightnet
