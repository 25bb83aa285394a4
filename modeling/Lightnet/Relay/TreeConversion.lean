import Lightnet.Relay.DiscoveryCoordinator
import Lightnet.Topology.TreeTopology

/-!
# From registrations to panels

When discovery is complete, the collected links become pointers between the edges of panels. A
registration carries both edges of its link, and nothing between the wire and the pointers looks
at them: an edge that no panel has is a null pointer to write through.
-/

namespace Lightnet

def panelEdgeCount : ℕ := 3

namespace PanelsInitializer

/-- A pointer to an edge is the place of its panel and the number of the edge. -/
structure Edge where
  connectedEdge : Option (ℕ × ℕ)
  deriving DecidableEq

structure Panel where
  index : ℕ
  edges : List Edge
  deriving DecidableEq

def newPanel (index : ℕ) : Panel := ⟨index, List.replicate panelEdgeCount ⟨none⟩⟩

/-- The place of the last panel with this index. -/
def getPanelByIndex (panels : List Panel) (panelIndex : ℕ) : Option ℕ :=
  (List.range panels.length).reverse.find? (fun i => panels[i]?.map Panel.index = some panelIndex)

/-- Writing to an edge that the panel does not have is writing through a null pointer. -/
def setConnectedEdge (panels : List Panel) (place edge : ℕ) (peer : ℕ × ℕ) : Option (List Panel) :=
  match panels[place]? with
  | none => none
  | some panel =>
    if edge < panel.edges.length then
      some (panels.set place { panel with edges := panel.edges.set edge ⟨some peer⟩ })
    else none

def connect (panels : List Panel) (link : TopoLink) : Option (List Panel) :=
  match getPanelByIndex panels link.panelA, getPanelByIndex panels link.panelB with
  | some parent, some child => do
    let panels ← setConnectedEdge panels parent link.edgeA (child, link.edgeB)
    setConnectedEdge panels child link.edgeB (parent, link.edgeA)
  | _, _ => some panels

/-- `none` where the controller crashes. -/
def convertDiscoveredTreeToPanels (tree : DiscoveryTreeBuilder) : Option (List Panel) :=
  tree.links.foldlM connect (tree.indices.map newPanel)

/-! ### What the conversion needs -/

/-- The panels of a tree, whatever they are connected to. -/
structure PanelsOf (indices : List ℕ) (panels : List Panel) : Prop where
  indices_eq : panels.map Panel.index = indices
  edges_length : ∀ p ∈ panels, p.edges.length = panelEdgeCount

theorem panelsOf_newPanel (indices : List ℕ) : PanelsOf indices (indices.map newPanel) := by
  constructor
  · rw [List.map_map]
    exact List.map_id indices
  · intro p hp
    obtain ⟨i, -, rfl⟩ := List.mem_map.mp hp
    exact List.length_replicate

theorem getPanelByIndex_of_mem {indices : List ℕ} {panels : List Panel}
    (h : PanelsOf indices panels) {index : ℕ} (hindex : index ∈ indices) :
    ∃ place, getPanelByIndex panels index = some place ∧ place < panels.length := by
  cases hfind : getPanelByIndex panels index with
  | some place =>
      have hmem := List.mem_of_find?_eq_some hfind
      rw [List.mem_reverse, List.mem_range] at hmem
      exact ⟨place, rfl, hmem⟩
  | none =>
      exfalso
      rw [← h.indices_eq] at hindex
      obtain ⟨p, hp, hpindex⟩ := List.mem_map.mp hindex
      obtain ⟨i, hi, hget⟩ := List.mem_iff_getElem.mp hp
      have hnone := List.find?_eq_none.mp hfind i (by
        rw [List.mem_reverse, List.mem_range]
        exact hi)
      apply hnone
      rw [List.getElem?_eq_getElem hi, hget, Option.map_some, hpindex]
      exact decide_eq_true rfl

theorem setConnectedEdge_cases {indices : List ℕ} {panels : List Panel}
    (h : PanelsOf indices panels) {place : ℕ} (edge : ℕ) (peer : ℕ × ℕ) (hplace : place < panels.length) :
    (edge < panelEdgeCount ∧ ∃ panels', setConnectedEdge panels place edge peer = some panels' ∧
      PanelsOf indices panels' ∧ panels'.length = panels.length) ∨
    (¬ edge < panelEdgeCount ∧ setConnectedEdge panels place edge peer = none) := by
  have hlength := h.edges_length panels[place] (List.getElem_mem hplace)
  have hset : setConnectedEdge panels place edge peer =
      if edge < panelEdgeCount then
        some (panels.set place
          { panels[place] with edges := panels[place].edges.set edge ⟨some peer⟩ })
      else none := by
    rw [setConnectedEdge, List.getElem?_eq_getElem hplace, ← hlength]
  by_cases hedge : edge < panelEdgeCount
  · refine Or.inl ⟨hedge, _, by rw [hset, if_pos hedge], ⟨?_, ?_⟩, List.length_set⟩
    · rw [List.map_set, ← h.indices_eq]
      apply List.ext_getElem?
      intro i
      rw [List.getElem?_set]
      split_ifs with hi hlt
      · subst hi
        rw [List.getElem?_map, List.getElem?_eq_getElem hplace]
        rfl
      · subst hi
        rw [List.length_map] at hlt
        exact absurd hplace hlt
      · rfl
    · intro p hp
      rcases List.mem_or_eq_of_mem_set hp with hp | rfl
      · exact h.edges_length p hp
      · exact (List.length_set).trans hlength
  · exact Or.inr ⟨hedge, by rw [hset, if_neg hedge]⟩

/-- A link between two panels is connected if and only if both have the edge that it names. -/
theorem connect_cases {indices : List ℕ} {panels : List Panel} (h : PanelsOf indices panels)
    {link : TopoLink} (hA : link.panelA ∈ indices) (hB : link.panelB ∈ indices) :
    ((link.edgeA < panelEdgeCount ∧ link.edgeB < panelEdgeCount) ∧
      ∃ panels', connect panels link = some panels' ∧ PanelsOf indices panels') ∨
    (¬ (link.edgeA < panelEdgeCount ∧ link.edgeB < panelEdgeCount) ∧
      connect panels link = none) := by
  obtain ⟨parent, hparent, hplaceA⟩ := getPanelByIndex_of_mem h hA
  obtain ⟨child, hchild, hplaceB⟩ := getPanelByIndex_of_mem h hB
  have hconnect : connect panels link =
      (setConnectedEdge panels parent link.edgeA (child, link.edgeB)).bind
        (fun panels => setConnectedEdge panels child link.edgeB (parent, link.edgeA)) := by
    rw [connect, hparent, hchild]
    rfl
  rw [hconnect]
  rcases setConnectedEdge_cases h link.edgeA (child, link.edgeB) hplaceA with
    ⟨hedgeA, mid, hmid, hpanels, hlength⟩ | ⟨hedgeA, hnone⟩
  · rw [hmid, Option.bind_some]
    rcases setConnectedEdge_cases hpanels link.edgeB (parent, link.edgeA)
      (by rw [hlength]; exact hplaceB) with ⟨hedgeB, last, hlast, hpanels', -⟩ | ⟨hedgeB, hnone⟩
    · exact Or.inl ⟨⟨hedgeA, hedgeB⟩, last, hlast, hpanels'⟩
    · exact Or.inr ⟨fun hboth => hedgeB hboth.2, hnone⟩
  · rw [hnone]
    exact Or.inr ⟨fun hboth => hedgeA hboth.1, rfl⟩

theorem foldlM_connect {indices : List ℕ} {links : List TopoLink}
    (hlinks : ∀ l ∈ links, l.panelA ∈ indices ∧ l.panelB ∈ indices) {panels : List Panel}
    (h : PanelsOf indices panels) :
    (∃ panels', links.foldlM connect panels = some panels') ↔
      ∀ l ∈ links, l.edgeA < panelEdgeCount ∧ l.edgeB < panelEdgeCount := by
  induction links generalizing panels with
  | nil => exact iff_of_true ⟨panels, rfl⟩ (by simp)
  | cons l links ih =>
      obtain ⟨hA, hB⟩ := hlinks l List.mem_cons_self
      have hrest : ∀ l ∈ links, l.panelA ∈ indices ∧ l.panelB ∈ indices :=
        fun l hl => hlinks l (List.mem_cons_of_mem _ hl)
      rw [List.foldlM_cons, List.forall_mem_cons]
      rcases connect_cases h hA hB with ⟨hedges, panels', hconnect, hpanels⟩ | ⟨hedges, hconnect⟩
      · rw [hconnect]
        change (∃ panels'', links.foldlM connect panels' = some panels'') ↔ _
        rw [ih hrest hpanels]
        exact ⟨fun hall => ⟨hedges, hall⟩, And.right⟩
      · rw [hconnect]
        refine iff_of_false ?_ (fun hall => hedges hall.1)
        rintro ⟨panels', hno⟩
        cases hno

/-- With links between existing panels, the conversion ends well if and only if every edge of
every link exists. -/
theorem converts_iff {tree : DiscoveryTreeBuilder}
    (hlinks : ∀ l ∈ tree.links, l.panelA ∈ tree.indices ∧ l.panelB ∈ tree.indices) :
    (∃ panels, convertDiscoveredTreeToPanels tree = some panels) ↔
      ∀ l ∈ tree.links, l.edgeA < panelEdgeCount ∧ l.edgeB < panelEdgeCount :=
  foldlM_connect hlinks (panelsOf_newPanel tree.indices)

/-- Every link joins existing edges of existing panels, no edge belongs to two links, and the
conversion does not crash. -/
structure SafeTree (tree : DiscoveryTreeBuilder) : Prop where
  converts : ∃ panels, convertDiscoveredTreeToPanels tree = some panels
  panels_exist : ∀ l ∈ tree.links, l.panelA ∈ tree.indices ∧ l.panelB ∈ tree.indices
  edges_exist : ∀ l ∈ tree.links, l.edgeA < panelEdgeCount ∧ l.edgeB < panelEdgeCount
  unshared : tree.links.Pairwise (fun l l' => ∀ x ∈ l.ends, x ∉ l'.ends)

end PanelsInitializer

namespace DiscoveryCoordinator

open PanelsInitializer

/-! ### Runs of the coordinator -/

inductive Input where
  | frame (frame : Frame) (nowMs : Millis)
  | tick (nowMs : Millis)
  deriving DecidableEq

def react (c : DiscoveryCoordinator) : Input → DiscoveryCoordinator
  | .frame frame nowMs => (c.onFrameArrived frame nowMs).1
  | .tick nowMs => (c.tick nowMs).1

def run (c : DiscoveryCoordinator) (is : List Input) : DiscoveryCoordinator := is.foldl react c

/-- The registration that the coordinator is waiting for. -/
def Accepts (c : DiscoveryCoordinator) (panelIndex : ℕ) : Prop :=
  panelIndex ≠ discoveryRejectedIndex ∧ panelIndex = c.nextPanelIndex ∧
    ¬ (lightnetMaxPanels < c.nextPanelIndex ∨ lightnetMaxPanels ≤ c.stack.length)

/-- An accepted registration below the root names edges that panels have, and an edge of the
frontier that no link has taken yet. -/
def Plausible (c : DiscoveryCoordinator) : Input → Prop
  | .frame (.registerEdge panelIndex edgeIndex parentEdgeIndex) _ =>
    c.Accepts panelIndex → c.frontierPanelIndex ≠ 0 →
      (parentEdgeIndex % 256 < panelEdgeCount ∧ edgeIndex % 256 < panelEdgeCount) ∧
      ∀ l ∈ c.treeBuilder.links, (c.frontierPanelIndex, parentEdgeIndex % 256) ∉ l.ends
  | _ => True

def PlausibleRun : DiscoveryCoordinator → List Input → Prop
  | _, [] => True
  | c, i :: is => c.Plausible i ∧ PlausibleRun (c.react i) is

/-- Panels are numbered as they register, from one on. -/
structure Numbered (c : DiscoveryCoordinator) : Prop where
  next_pos : 1 ≤ c.nextPanelIndex
  next_le : c.nextPanelIndex ≤ lightnetMaxPanels + 1
  indices : c.treeBuilder.indices = List.range' 1 (c.nextPanelIndex - 1)
  frontier_lt : c.frontierPanelIndex < c.nextPanelIndex
  frontier_zero : c.frontierPanelIndex = 0 → c.nextPanelIndex = 1
  stack_lt : ∀ t ∈ c.stack, t < c.nextPanelIndex
  links_length : c.treeBuilder.links.length < c.nextPanelIndex
  links_lt : ∀ l ∈ c.treeBuilder.links, (1 ≤ l.panelA ∧ l.panelA < c.nextPanelIndex) ∧
    (1 ≤ l.panelB ∧ l.panelB < c.nextPanelIndex)

/-- The links of the tree are sound, apart from the conversion. -/
def SafeLinks (links : List TopoLink) : Prop :=
  (∀ l ∈ links, l.edgeA < panelEdgeCount ∧ l.edgeB < panelEdgeCount) ∧
    links.Pairwise (fun l l' => ∀ x ∈ l.ends, x ∉ l'.ends)

theorem Numbered.safeTree_iff {c : DiscoveryCoordinator} (h : c.Numbered) :
    SafeTree c.treeBuilder ↔ SafeLinks c.treeBuilder.links := by
  have hpanels : ∀ l ∈ c.treeBuilder.links,
      l.panelA ∈ c.treeBuilder.indices ∧ l.panelB ∈ c.treeBuilder.indices := by
    intro l hl
    obtain ⟨hA, hB⟩ := h.links_lt l hl
    rw [h.indices]
    constructor
    · rw [List.mem_range'_1]
      omega
    · rw [List.mem_range'_1]
      omega
  constructor
  · intro hsafe
    exact ⟨hsafe.edges_exist, hsafe.unshared⟩
  · rintro ⟨hedges, hunshared⟩
    exact ⟨(converts_iff hpanels).mpr hedges, hpanels, hedges, hunshared⟩

theorem safeLinks_append_singleton (links : List TopoLink) (l : TopoLink) :
    SafeLinks (links ++ [l]) ↔ SafeLinks links ∧
      (l.edgeA < panelEdgeCount ∧ l.edgeB < panelEdgeCount) ∧
      ∀ l' ∈ links, ∀ x ∈ l'.ends, x ∉ l.ends := by
  unfold SafeLinks
  rw [List.pairwise_append, List.forall_mem_append, List.forall_mem_singleton]
  constructor
  · rintro ⟨⟨hold, hnew⟩, hpairs, -, hcross⟩
    exact ⟨⟨hold, hpairs⟩, hnew, fun l' hl' => hcross l' hl' l List.mem_cons_self⟩
  · rintro ⟨⟨hold, hpairs⟩, hnew, hcross⟩
    refine ⟨⟨hold, hnew⟩, hpairs, List.pairwise_singleton _ _, ?_⟩
    intro l' hl' l'' hl''
    cases List.mem_singleton.mp hl''
    exact hcross l' hl'

/-- The link that an accepted registration below the root adds. -/
theorem react_link {c : DiscoveryCoordinator} (h : c.Numbered) (e pe : ℕ) (nowMs : Millis)
    (haccepts : c.Accepts c.nextPanelIndex) (hfrontier : c.frontierPanelIndex ≠ 0) :
    (c.react (.frame (.registerEdge c.nextPanelIndex e pe) nowMs)).treeBuilder =
      { indices := c.treeBuilder.indices ++ [c.nextPanelIndex]
        links := c.treeBuilder.links ++
          [⟨c.frontierPanelIndex, pe % 256, c.nextPanelIndex, e % 256⟩] } := by
  obtain ⟨hrejected, -, hfull⟩ := haccepts
  have hnext : c.nextPanelIndex ≤ lightnetMaxPanels := by omega
  have hindices : ¬ lightnetMaxPanels ≤ c.treeBuilder.indices.length := by
    rw [h.indices, List.length_range']
    have := h.next_pos
    omega
  have hlinks : ¬ lightnetMaxPanels ≤ c.treeBuilder.links.length := by
    have := h.links_length
    omega
  have hsmall : c.nextPanelIndex < 256 := by
    unfold lightnetMaxPanels at hnext
    omega
  have hfsmall : c.frontierPanelIndex < 256 := h.frontier_lt.trans hsmall
  have hreact : (c.react (.frame (.registerEdge c.nextPanelIndex e pe) nowMs)).treeBuilder =
      c.treeBuilder.addLink c.frontierPanelIndex pe c.nextPanelIndex e := by
    change (c.handleRegisterEdgeReply c.nextPanelIndex e pe nowMs).1.treeBuilder = _
    rw [handleRegisterEdgeReply, if_neg hrejected, if_neg (not_not.mpr rfl), if_neg hfull]
    change (if c.frontierPanelIndex = 0 then _ else _) = _
    rw [if_neg hfrontier]
  rw [hreact, DiscoveryTreeBuilder.addLink, DiscoveryTreeBuilder.recordPanel, if_neg hindices]
  change (if lightnetMaxPanels ≤ c.treeBuilder.links.length then _ else _) = _
  rw [if_neg hlinks]
  simp only [Nat.mod_eq_of_lt hsmall, Nat.mod_eq_of_lt hfsmall]

theorem react_registers {c : DiscoveryCoordinator} (e pe : ℕ) (nowMs : Millis)
    (haccepts : c.Accepts c.nextPanelIndex) :
    (c.react (.frame (.registerEdge c.nextPanelIndex e pe) nowMs)).nextPanelIndex =
        c.nextPanelIndex + 1 ∧
      (c.react (.frame (.registerEdge c.nextPanelIndex e pe) nowMs)).frontierPanelIndex =
        c.nextPanelIndex ∧
      (c.react (.frame (.registerEdge c.nextPanelIndex e pe) nowMs)).stack =
        c.frontierPanelIndex :: c.stack := by
  obtain ⟨hrejected, -, hfull⟩ := haccepts
  change (c.handleRegisterEdgeReply c.nextPanelIndex e pe nowMs).1.nextPanelIndex = _ ∧
    (c.handleRegisterEdgeReply c.nextPanelIndex e pe nowMs).1.frontierPanelIndex = _ ∧
    (c.handleRegisterEdgeReply c.nextPanelIndex e pe nowMs).1.stack = _
  rw [handleRegisterEdgeReply, if_neg hrejected, if_neg (not_not.mpr rfl), if_neg hfull]
  exact ⟨rfl, rfl, rfl⟩

theorem react_root {c : DiscoveryCoordinator} (h : c.Numbered) (e pe : ℕ) (nowMs : Millis)
    (haccepts : c.Accepts c.nextPanelIndex) (hfrontier : c.frontierPanelIndex = 0) :
    (c.react (.frame (.registerEdge c.nextPanelIndex e pe) nowMs)).treeBuilder =
      { c.treeBuilder with indices := [1] } := by
  have hnext := h.frontier_zero hfrontier
  have hindices : c.treeBuilder.indices = [] := by
    rw [h.indices, hnext]
    rfl
  obtain ⟨hrejected, -, hfull⟩ := haccepts
  have hreact : (c.react (.frame (.registerEdge c.nextPanelIndex e pe) nowMs)).treeBuilder =
      c.treeBuilder.addRoot c.nextPanelIndex := by
    change (c.handleRegisterEdgeReply c.nextPanelIndex e pe nowMs).1.treeBuilder = _
    rw [handleRegisterEdgeReply, if_neg hrejected, if_neg (not_not.mpr rfl), if_neg hfull]
    change (if c.frontierPanelIndex = 0 then _ else _) = _
    rw [if_pos hfrontier]
  rw [hreact, DiscoveryTreeBuilder.addRoot, DiscoveryTreeBuilder.recordPanel, hindices, hnext]
  rfl

/-- Everything else leaves the tree alone, and at most goes back to a panel of the stack. -/
theorem react_others {c : DiscoveryCoordinator} {i : Input}
    (hother : ∀ e pe nowMs, i = .frame (.registerEdge c.nextPanelIndex e pe) nowMs →
      ¬ c.Accepts c.nextPanelIndex) :
    (c.react i).treeBuilder = c.treeBuilder ∧ (c.react i).nextPanelIndex = c.nextPanelIndex ∧
      ((c.react i).frontierPanelIndex = c.frontierPanelIndex ∨
        (c.react i).frontierPanelIndex ∈ c.stack ∧ (c.react i).frontierPanelIndex ≠ 0) ∧
      ∀ t ∈ (c.react i).stack, t ∈ c.stack := by
  cases i with
  | tick nowMs =>
      change (c.tick nowMs).1.treeBuilder = _ ∧ (c.tick nowMs).1.nextPanelIndex = _ ∧
        ((c.tick nowMs).1.frontierPanelIndex = _ ∨ _) ∧ ∀ t ∈ (c.tick nowMs).1.stack, _
      unfold tick
      split_ifs <;> exact ⟨rfl, rfl, Or.inl rfl, fun t ht => ht⟩
  | frame frame nowMs =>
      cases frame with
      | registerEdge k e pe =>
          have hreact : c.react (.frame (.registerEdge k e pe) nowMs) = c := by
            change (c.handleRegisterEdgeReply k e pe nowMs).1 = c
            unfold handleRegisterEdgeReply
            by_cases hrejected : k = discoveryRejectedIndex
            · rw [if_pos hrejected]
            · by_cases hnext : k = c.nextPanelIndex
              · subst hnext
                have hfull : lightnetMaxPanels < c.nextPanelIndex ∨
                    lightnetMaxPanels ≤ c.stack.length := by
                  by_contra hfull
                  exact hother e pe nowMs rfl ⟨hrejected, rfl, hfull⟩
                rw [if_neg hrejected, if_neg (not_not.mpr rfl), if_pos hfull]
              · rw [if_neg hrejected, if_pos hnext]
          rw [hreact]
          exact ⟨rfl, rfl, Or.inl rfl, fun t ht => ht⟩
      | discoveryDone k =>
          change (c.handleDiscoveryDone k nowMs).1.treeBuilder = _ ∧
            (c.handleDiscoveryDone k nowMs).1.nextPanelIndex = _ ∧
            ((c.handleDiscoveryDone k nowMs).1.frontierPanelIndex = _ ∨
              (c.handleDiscoveryDone k nowMs).1.frontierPanelIndex ∈ _ ∧
              (c.handleDiscoveryDone k nowMs).1.frontierPanelIndex ≠ 0) ∧
            ∀ t ∈ (c.handleDiscoveryDone k nowMs).1.stack, _
          unfold handleDiscoveryDone
          by_cases hfrontier : k = c.frontierPanelIndex
          · rw [if_neg (not_not.mpr hfrontier)]
            dsimp only
            cases c.stack with
            | nil =>
                exact ⟨rfl, rfl, Or.inl rfl, fun t ht => ht⟩
            | cons r stack =>
                dsimp only
                by_cases hr : r = 0
                · rw [if_pos hr]
                  exact ⟨rfl, rfl, Or.inl rfl, fun t ht => List.mem_cons_of_mem _ ht⟩
                · rw [if_neg hr]
                  exact ⟨rfl, rfl, Or.inr ⟨List.mem_cons_self, hr⟩,
                    fun t ht => List.mem_cons_of_mem _ ht⟩
          · rw [if_pos hfrontier]
            exact ⟨rfl, rfl, Or.inl rfl, fun t ht => ht⟩
      | initializationPull k pe => exact ⟨rfl, rfl, Or.inl rfl, fun t ht => ht⟩
      | discoveryAdvance t k => exact ⟨rfl, rfl, Or.inl rfl, fun t ht => ht⟩
      | other type t payload => exact ⟨rfl, rfl, Or.inl rfl, fun t ht => ht⟩

theorem Numbered.react_registers {c : DiscoveryCoordinator} (h : c.Numbered) {e pe : ℕ}
    {nowMs : Millis} (haccepts : c.Accepts c.nextPanelIndex) :
    (c.react (.frame (.registerEdge c.nextPanelIndex e pe) nowMs)).Numbered ∧
      (SafeLinks (c.react (.frame (.registerEdge c.nextPanelIndex e pe) nowMs)).treeBuilder.links ↔
        SafeLinks c.treeBuilder.links ∧
          c.Plausible (.frame (.registerEdge c.nextPanelIndex e pe) nowMs)) := by
  obtain ⟨hnext, hfrontier, hstack⟩ := c.react_registers e pe nowMs haccepts
  have hle : c.nextPanelIndex ≤ lightnetMaxPanels := by
    have := haccepts.2.2
    omega
  have hpos := h.next_pos
  have hlt := h.frontier_lt
  by_cases hroot : c.frontierPanelIndex = 0
  · have htree := react_root h e pe nowMs haccepts hroot
    have hone := h.frontier_zero hroot
    have hempty : c.treeBuilder.links = [] := by
      have hlength := h.links_length
      rw [hone] at hlength
      exact List.length_eq_zero_iff.mp (by omega)
    refine ⟨⟨?_, ?_, ?_, ?_, ?_, ?_, ?_, ?_⟩, ?_⟩
    · omega
    · omega
    · rw [htree, hnext, hone]
      rfl
    · omega
    · omega
    · intro t ht
      rw [hstack, List.mem_cons] at ht
      rcases ht with rfl | ht
      · omega
      · have := h.stack_lt t ht
        omega
    · rw [htree, hempty, hnext]
      exact Nat.succ_pos _
    · intro l hl
      rw [htree, hempty] at hl
      cases hl
    · rw [htree]
      exact ⟨fun hsafe => ⟨hsafe, fun _ hne => absurd hroot hne⟩, And.left⟩
  · have htree := react_link h e pe nowMs haccepts hroot
    refine ⟨⟨?_, ?_, ?_, ?_, ?_, ?_, ?_, ?_⟩, ?_⟩
    · omega
    · omega
    · have hsucc : c.nextPanelIndex + 1 - 1 = (c.nextPanelIndex - 1) + 1 := by omega
      have hlast : 1 + (c.nextPanelIndex - 1) = c.nextPanelIndex := by omega
      rw [htree, hnext, hsucc, List.range'_1_concat, hlast, h.indices]
    · omega
    · omega
    · intro t ht
      rw [hstack, List.mem_cons] at ht
      rcases ht with rfl | ht
      · omega
      · have := h.stack_lt t ht
        omega
    · have := h.links_length
      rw [htree, hnext, List.length_append, List.length_singleton]
      omega
    · intro l hl
      rw [htree, List.mem_append, List.mem_singleton] at hl
      rw [hnext]
      rcases hl with hl | rfl
      · have := h.links_lt l hl
        omega
      · dsimp only
        omega
    · rw [htree, safeLinks_append_singleton]
      refine and_congr_right fun hsafe => ?_
      constructor
      · rintro ⟨hedges, hfree⟩ - -
        exact ⟨hedges, fun l hl hmem => hfree l hl _ hmem List.mem_cons_self⟩
      · intro hplausible
        obtain ⟨hedges, hfree⟩ := hplausible haccepts hroot
        refine ⟨hedges, ?_⟩
        intro l hl x hx hmem
        rw [TopoLink.ends, List.mem_cons, List.mem_singleton] at hmem
        rcases hmem with rfl | rfl
        · exact hfree l hl hx
        · have hold := h.links_lt l hl
          rw [TopoLink.ends, List.mem_cons, List.mem_singleton, Prod.mk.injEq, Prod.mk.injEq] at hx
          dsimp only at hx
          omega

theorem Numbered.react {c : DiscoveryCoordinator} (h : c.Numbered) (i : Input) :
    (c.react i).Numbered ∧
      (SafeLinks (c.react i).treeBuilder.links ↔ SafeLinks c.treeBuilder.links ∧ c.Plausible i) := by
  by_cases hregisters : ∃ e pe nowMs, i = .frame (.registerEdge c.nextPanelIndex e pe) nowMs ∧
      c.Accepts c.nextPanelIndex
  · obtain ⟨e, pe, nowMs, rfl, haccepts⟩ := hregisters
    exact h.react_registers haccepts
  · have hother : ∀ e pe nowMs, i = .frame (.registerEdge c.nextPanelIndex e pe) nowMs →
        ¬ c.Accepts c.nextPanelIndex :=
      fun e pe nowMs hi haccepts => hregisters ⟨e, pe, nowMs, hi, haccepts⟩
    have hplausible : c.Plausible i := by
      cases i with
      | tick nowMs => trivial
      | frame frame nowMs =>
          cases frame with
          | registerEdge k e pe =>
              intro haccepts
              have hk := haccepts.2.1
              subst hk
              exact absurd haccepts (hother e pe nowMs rfl)
          | _ => trivial
    obtain ⟨htree, hnext, hfrontier, hstack⟩ := react_others hother
    refine ⟨⟨?_, ?_, ?_, ?_, ?_, ?_, ?_, ?_⟩, ?_⟩
    · rw [hnext]
      exact h.next_pos
    · rw [hnext]
      exact h.next_le
    · rw [htree, hnext]
      exact h.indices
    · rw [hnext]
      rcases hfrontier with hsame | ⟨hmem, -⟩
      · rw [hsame]
        exact h.frontier_lt
      · exact h.stack_lt _ hmem
    · intro hzero
      rw [hnext]
      rcases hfrontier with hsame | ⟨-, hne⟩
      · exact h.frontier_zero (hsame ▸ hzero)
      · exact absurd hzero hne
    · intro t ht
      rw [hnext]
      exact h.stack_lt t (hstack t ht)
    · rw [htree, hnext]
      exact h.links_length
    · rw [htree, hnext]
      exact h.links_lt
    · rw [htree]
      exact ⟨fun hsafe => ⟨hsafe, hplausible⟩, And.left⟩

theorem Numbered.run {c : DiscoveryCoordinator} (h : c.Numbered) (is : List Input) :
    (c.run is).Numbered ∧
      (SafeLinks (c.run is).treeBuilder.links ↔
        SafeLinks c.treeBuilder.links ∧ PlausibleRun c is) := by
  induction is generalizing c with
  | nil => exact ⟨h, (and_iff_left trivial).symm⟩
  | cons i is ih =>
      obtain ⟨hreact, hsafe⟩ := h.react i
      obtain ⟨hrun, hrest⟩ := ih hreact
      refine ⟨hrun, ?_⟩
      change SafeLinks ((c.react i).run is).treeBuilder.links ↔ _
      rw [hrest, hsafe, and_assoc]
      rfl

theorem numbered_begin (nowMs : Millis) : (init.begin nowMs).1.Numbered where
  next_pos := le_refl _
  next_le := Nat.le_add_left 1 lightnetMaxPanels
  indices := rfl
  frontier_lt := Nat.zero_lt_one
  frontier_zero := fun _ => rfl
  stack_lt := fun _ ht => nomatch ht
  links_length := Nat.zero_lt_one
  links_lt := fun _ hl => nomatch hl

theorem safeLinks_nil : SafeLinks [] := ⟨fun _ hl => (nomatch hl), List.Pairwise.nil⟩

/-- Whatever frames and ticks the coordinator has seen, its tree is converted safely if and only if
every registration that it took below the root named edges that panels have, the parent's not yet
taken. -/
theorem run_safeTree_iff (beginMs : Millis) (is : List Input) :
    SafeTree ((init.begin beginMs).1.run is).treeBuilder ↔
      PlausibleRun (init.begin beginMs).1 is := by
  obtain ⟨hnumbered, hsafe⟩ := (numbered_begin beginMs).run is
  rw [hnumbered.safeTree_iff, hsafe]
  exact and_iff_right safeLinks_nil

/-- The second panel names the eighth edge of its parent, and the walk then stalls. -/
theorem run_not_safeTree : ∃ is : List Input,
    ((init.begin 0).1.run is).complete = true ∧
      convertDiscoveredTreeToPanels ((init.begin 0).1.run is).treeBuilder = none ∧
      ¬ SafeTree ((init.begin 0).1.run is).treeBuilder := by
  refine ⟨[.frame (.registerEdge 1 0 0) 10, .frame (.registerEdge 2 1 7) 20, .tick 2020],
    by decide, by decide, ?_⟩
  intro hsafe
  exact absurd (hsafe.edges_exist ⟨1, 7, 2, 1⟩ (by decide)).1 (by decide)

end DiscoveryCoordinator

end Lightnet
