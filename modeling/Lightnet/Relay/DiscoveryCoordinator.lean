import Lightnet.Relay.Panel

/-!
# The controller's half of discovery

The coordinator keeps one panel active, the frontier of a depth-first walk, and a stack of the
panels to resume. A registration descends, a report that a subtree is done backtracks. The tree
builder collects what was registered.
-/

namespace Lightnet

def lightnetMaxPanels : ℕ := 100

structure TopoLink where
  panelA : ℕ
  edgeA : ℕ
  panelB : ℕ
  edgeB : ℕ
  deriving DecidableEq

structure DiscoveryTreeBuilder where
  indices : List ℕ
  links : List TopoLink
  deriving DecidableEq

namespace DiscoveryTreeBuilder

def recordPanel (b : DiscoveryTreeBuilder) (panelIndex : ℕ) : DiscoveryTreeBuilder :=
  if lightnetMaxPanels ≤ b.indices.length then b
  else { b with indices := b.indices ++ [panelIndex % 256] }

def addRoot (b : DiscoveryTreeBuilder) (panelIndex : ℕ) : DiscoveryTreeBuilder :=
  b.recordPanel panelIndex

def addLink (b : DiscoveryTreeBuilder) (parentIndex parentEdge childIndex childEdge : ℕ) :
    DiscoveryTreeBuilder :=
  let b := b.recordPanel childIndex
  if lightnetMaxPanels ≤ b.links.length then b
  else { b with links := b.links ++
    [⟨parentIndex % 256, parentEdge % 256, childIndex % 256, childEdge % 256⟩] }

end DiscoveryTreeBuilder

/-- Frontier zero is the controller itself, before the root registers. The top of the stack
comes first. -/
structure DiscoveryCoordinator where
  treeBuilder : DiscoveryTreeBuilder
  nextPanelIndex : ℕ
  frontierPanelIndex : ℕ
  stack : List ℕ
  complete : Bool
  walkStalled : Bool
  beginMs : Millis
  lastRootPullMs : Millis
  lastProgressMs : Millis
  lastAdvanceMs : Millis
  deriving DecidableEq

namespace DiscoveryCoordinator

def trunkEdge : ℕ := 0

def rootTimeoutMs : Millis := 3000

def walkStallTimeoutMs : Millis := 2000

def rootRetryIntervalMs : Millis := 200

def advanceRetryIntervalMs : Millis := 200

def init : DiscoveryCoordinator where
  treeBuilder := ⟨[], []⟩
  nextPanelIndex := 1
  frontierPanelIndex := 0
  stack := []
  complete := false
  walkStalled := false
  beginMs := 0
  lastRootPullMs := 0
  lastProgressMs := 0
  lastAdvanceMs := 0

def sendRootPull (c : DiscoveryCoordinator) (nowMs : Millis) :
    DiscoveryCoordinator × List Frame :=
  ({ c with lastRootPullMs := nowMs }, [.initializationPull c.nextPanelIndex trunkEdge])

def begin (c : DiscoveryCoordinator) (nowMs : Millis) : DiscoveryCoordinator × List Frame :=
  sendRootPull { c with beginMs := nowMs, lastProgressMs := nowMs, walkStalled := false } nowMs

def sendAdvance (c : DiscoveryCoordinator) (target : ℕ) (nowMs : Millis) :
    DiscoveryCoordinator × List Frame :=
  ({ c with lastAdvanceMs := nowMs }, [.discoveryAdvance target c.nextPanelIndex])

def handleRegisterEdgeReply (c : DiscoveryCoordinator)
    (panelIndex edgeIndex parentEdgeIndex : ℕ) (nowMs : Millis) :
    DiscoveryCoordinator × List Frame :=
  if panelIndex = discoveryRejectedIndex then (c, [])
  else if panelIndex ≠ c.nextPanelIndex then (c, [])
  else if lightnetMaxPanels < c.nextPanelIndex ∨ lightnetMaxPanels ≤ c.stack.length then (c, [])
  else
    let treeBuilder :=
      if c.frontierPanelIndex = 0 then c.treeBuilder.addRoot panelIndex
      else c.treeBuilder.addLink c.frontierPanelIndex parentEdgeIndex panelIndex edgeIndex
    sendAdvance { c with
      treeBuilder
      lastProgressMs := nowMs
      stack := c.frontierPanelIndex :: c.stack
      frontierPanelIndex := panelIndex
      nextPanelIndex := c.nextPanelIndex + 1 } panelIndex nowMs

def handleDiscoveryDone (c : DiscoveryCoordinator) (panelIndex : ℕ) (nowMs : Millis) :
    DiscoveryCoordinator × List Frame :=
  if panelIndex ≠ c.frontierPanelIndex then (c, [])
  else
    let c := { c with lastProgressMs := nowMs }
    match c.stack with
    | [] => ({ c with complete := true }, [])
    | resumeTarget :: stack =>
      -- The sentinel is popped when the root's own subtree is done.
      if resumeTarget = 0 then ({ c with stack, complete := true }, [])
      else sendAdvance { c with stack, frontierPanelIndex := resumeTarget } resumeTarget nowMs

def onFrameArrived (c : DiscoveryCoordinator) (frame : Frame) (nowMs : Millis) :
    DiscoveryCoordinator × List Frame :=
  match frame with
  | .registerEdge panelIndex edgeIndex parentEdgeIndex =>
    c.handleRegisterEdgeReply panelIndex edgeIndex parentEdgeIndex nowMs
  | .discoveryDone panelIndex => c.handleDiscoveryDone panelIndex nowMs
  | _ => (c, [])

def tick (c : DiscoveryCoordinator) (nowMs : Millis) : DiscoveryCoordinator × List Frame :=
  if c.complete then (c, [])
  else if c.frontierPanelIndex = 0 then
    if rootTimeoutMs ≤ nowMs - c.beginMs then ({ c with complete := true }, [])
    else if rootRetryIntervalMs ≤ nowMs - c.lastRootPullMs then c.sendRootPull nowMs
    else (c, [])
  else if walkStallTimeoutMs ≤ nowMs - c.lastProgressMs then
    ({ c with complete := true, walkStalled := true }, [])
  else if advanceRetryIntervalMs ≤ nowMs - c.lastAdvanceMs then
    c.sendAdvance c.frontierPanelIndex nowMs
  else (c, [])

/-! ### What one step does -/

/-- Where the walk stands, without the clocks and the verdict. -/
def SameWalk (c c' : DiscoveryCoordinator) : Prop :=
  c'.nextPanelIndex = c.nextPanelIndex ∧ c'.frontierPanelIndex = c.frontierPanelIndex ∧
    c'.stack = c.stack

/-- One reaction of the coordinator, to a frame from the root or to its timers. -/
inductive Reacts (c : DiscoveryCoordinator) :
    Option Frame → DiscoveryCoordinator → List Frame → Prop
  | waits (input : Option Frame) {c' : DiscoveryCoordinator} : c.SameWalk c' →
      Reacts c input c' []
  | registers {e pe : ℕ} {c' : DiscoveryCoordinator} : c.nextPanelIndex ≠ 0 →
      c.nextPanelIndex ≤ lightnetMaxPanels →
      c'.nextPanelIndex = c.nextPanelIndex + 1 → c'.frontierPanelIndex = c.nextPanelIndex →
      c'.stack = c.frontierPanelIndex :: c.stack →
      Reacts c (some (.registerEdge c.nextPanelIndex e pe)) c'
        [.discoveryAdvance c.nextPanelIndex (c.nextPanelIndex + 1)]
  | resumes {t : ℕ} {c' : DiscoveryCoordinator} : t ≠ 0 → c.stack = t :: c'.stack →
      c'.nextPanelIndex = c.nextPanelIndex → c'.frontierPanelIndex = t →
      Reacts c (some (.discoveryDone c.frontierPanelIndex)) c'
        [.discoveryAdvance t c.nextPanelIndex]
  | finishes {c' : DiscoveryCoordinator} : c.stack = 0 :: c'.stack →
      c'.nextPanelIndex = c.nextPanelIndex → c'.frontierPanelIndex = c.frontierPanelIndex →
      Reacts c (some (.discoveryDone c.frontierPanelIndex)) c' []
  | offers {c' : DiscoveryCoordinator} : c.frontierPanelIndex = 0 → c.SameWalk c' →
      Reacts c none c' [.initializationPull c.nextPanelIndex trunkEdge]
  | advances {c' : DiscoveryCoordinator} : c.frontierPanelIndex ≠ 0 → c.SameWalk c' →
      Reacts c none c' [.discoveryAdvance c.frontierPanelIndex c.nextPanelIndex]

theorem sameWalk_refl (c : DiscoveryCoordinator) : c.SameWalk c := ⟨rfl, rfl, rfl⟩

theorem reacts_handleRegisterEdgeReply (c : DiscoveryCoordinator) (k e pe : ℕ) (nowMs : Millis) :
    Reacts c (some (.registerEdge k e pe)) (c.handleRegisterEdgeReply k e pe nowMs).1
      (c.handleRegisterEdgeReply k e pe nowMs).2 := by
  unfold handleRegisterEdgeReply
  by_cases hrejected : k = discoveryRejectedIndex
  · rw [if_pos hrejected]
    exact .waits _ c.sameWalk_refl
  · by_cases hnext : k = c.nextPanelIndex
    · rw [if_neg hrejected, if_neg (not_not.mpr hnext)]
      subst hnext
      by_cases hfull : lightnetMaxPanels < c.nextPanelIndex ∨ lightnetMaxPanels ≤ c.stack.length
      · rw [if_pos hfull]
        exact .waits _ c.sameWalk_refl
      · rw [if_neg hfull]
        exact .registers hrejected (by omega) rfl rfl rfl
    · rw [if_neg hrejected, if_pos hnext]
      exact .waits _ c.sameWalk_refl

theorem reacts_handleDiscoveryDone (c : DiscoveryCoordinator) (k : ℕ) (nowMs : Millis) :
    Reacts c (some (.discoveryDone k)) (c.handleDiscoveryDone k nowMs).1
      (c.handleDiscoveryDone k nowMs).2 := by
  unfold handleDiscoveryDone
  by_cases hfrontier : k = c.frontierPanelIndex
  · subst hfrontier
    rw [if_neg (not_not.mpr rfl)]
    dsimp only
    cases hstack : c.stack with
    | nil => exact .waits _ ⟨rfl, rfl, hstack.symm⟩
    | cons t stack =>
        dsimp only
        by_cases ht : t = 0
        · subst ht
          exact .finishes hstack rfl rfl
        · rw [if_neg ht]
          exact .resumes ht hstack rfl rfl
  · rw [if_pos hfrontier]
    exact .waits _ c.sameWalk_refl

theorem reacts_onFrameArrived (c : DiscoveryCoordinator) (frame : Frame) (nowMs : Millis) :
    Reacts c (some frame) (c.onFrameArrived frame nowMs).1 (c.onFrameArrived frame nowMs).2 := by
  cases frame with
  | registerEdge k e pe => exact c.reacts_handleRegisterEdgeReply k e pe nowMs
  | discoveryDone k => exact c.reacts_handleDiscoveryDone k nowMs
  | initializationPull k pe => exact .waits _ c.sameWalk_refl
  | discoveryAdvance t k => exact .waits _ c.sameWalk_refl
  | other type t payload => exact .waits _ c.sameWalk_refl

theorem reacts_tick (c : DiscoveryCoordinator) (nowMs : Millis) :
    Reacts c none (c.tick nowMs).1 (c.tick nowMs).2 := by
  unfold tick
  split_ifs with hcomplete hroot htimeout hretry hstall hadvance
  · exact .waits _ c.sameWalk_refl
  · exact .waits _ ⟨rfl, rfl, rfl⟩
  · exact .offers hroot ⟨rfl, rfl, rfl⟩
  · exact .waits _ c.sameWalk_refl
  · exact .waits _ ⟨rfl, rfl, rfl⟩
  · exact .advances hroot ⟨rfl, rfl, rfl⟩
  · exact .waits _ c.sameWalk_refl

/-- Everything the controller sends is an offer to the root or an advance to a real panel. -/
theorem Reacts.sends {c c' : DiscoveryCoordinator} {input : Option Frame} {frames : List Frame}
    (h : Reacts c input c' frames) : ∀ f ∈ frames,
      (∃ k pe, f = .initializationPull k pe) ∨ ∃ t k, f = .discoveryAdvance t k ∧ t ≠ 0 := by
  intro f hf
  cases h with
  | waits => cases hf
  | finishes => cases hf
  | registers hne =>
      cases List.mem_singleton.mp hf
      exact Or.inr ⟨_, _, rfl, hne⟩
  | resumes hne =>
      cases List.mem_singleton.mp hf
      exact Or.inr ⟨_, _, rfl, hne⟩
  | offers =>
      cases List.mem_singleton.mp hf
      exact Or.inl ⟨_, _, rfl⟩
  | advances hne =>
      cases List.mem_singleton.mp hf
      exact Or.inr ⟨_, _, rfl, hne⟩

end DiscoveryCoordinator

end Lightnet
