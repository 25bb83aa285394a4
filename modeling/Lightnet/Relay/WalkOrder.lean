import Lightnet.Relay.TreeConversion
import Mathlib.Logic.Relation

/-!
# The walk and the numbers of the panels

Whatever arrives, and whenever, the resume stack of the coordinator holds ancestors of the
frontier, the root's sentinel at its bottom, and the tree builder holds the panels in the order of
their numbers. A parent registers before its children, so going through the panels from the last
one to the first meets every panel before the panels it hangs from.
-/

namespace Lightnet

namespace DiscoveryTreeBuilder

def IsParent (tree : DiscoveryTreeBuilder) (parent child : ℕ) : Prop :=
  ∃ l ∈ tree.links, l.panelA = parent ∧ l.panelB = child

def IsAncestor (tree : DiscoveryTreeBuilder) : ℕ → ℕ → Prop := Relation.TransGen tree.IsParent

/-- The panels are numbered from one on, and the links in the order of their children. -/
structure Consecutive (tree : DiscoveryTreeBuilder) (n : ℕ) : Prop where
  indices : tree.indices = List.range' 1 n
  links_length : tree.links.length = n - 1
  child : ∀ k l, tree.links[k]? = some l → l.panelB = k + 2
  parent : ∀ l ∈ tree.links, 1 ≤ l.panelA ∧ l.panelA < l.panelB

theorem Consecutive.isAncestor_lt {tree : DiscoveryTreeBuilder} {n : ℕ} (h : tree.Consecutive n)
    {a d : ℕ} (had : tree.IsAncestor a d) : a < d := by
  induction had with
  | single hlink =>
      obtain ⟨l, hl, rfl, rfl⟩ := hlink
      exact (h.parent l hl).2
  | tail _ hlink ih =>
      obtain ⟨l, hl, rfl, rfl⟩ := hlink
      exact ih.trans (h.parent l hl).2

end DiscoveryTreeBuilder

namespace PanelsInitializer

theorem foldlM_connect_panelsOf {indices : List ℕ} {links : List TopoLink}
    (hlinks : ∀ l ∈ links, l.panelA ∈ indices ∧ l.panelB ∈ indices) {panels panels' : List Panel}
    (h : PanelsOf indices panels) (hconverts : links.foldlM connect panels = some panels') :
    PanelsOf indices panels' := by
  induction links generalizing panels with
  | nil =>
      cases hconverts
      exact h
  | cons l links ih =>
      obtain ⟨hA, hB⟩ := hlinks l List.mem_cons_self
      rw [List.foldlM_cons] at hconverts
      rcases connect_cases h hA hB with ⟨-, mid, hconnect, hmid⟩ | ⟨-, hconnect⟩
      · rw [hconnect] at hconverts
        exact ih (fun l hl => hlinks l (List.mem_cons_of_mem _ hl)) hmid hconverts
      · rw [hconnect] at hconverts
        cases hconverts

end PanelsInitializer

namespace PanelFlasher

open PanelsInitializer

/-- The panel that is flashed after `panelIdx` others; no panel is 0. -/
def currentPanelAddress (panels : List PanelsInitializer.Panel) (panelIdx : ℕ) : ℕ :=
  let totalPanels := panels.length % 256
  let reverseIdx := (totalPanels + 65536 - 1 - panelIdx) % 65536
  (panels[reverseIdx]?).elim 0 (·.index)

theorem currentPanelAddress_eq {tree : DiscoveryTreeBuilder} {n : ℕ} (h : tree.Consecutive n)
    {panels : List PanelsInitializer.Panel} (hpanels : panels.map (·.index) = tree.indices) (hn : n < 256)
    {panelIdx : ℕ} (hlt : panelIdx < panels.length) :
    currentPanelAddress panels panelIdx + panelIdx = n := by
  have hlength : panels.length = n := by
    rw [← List.length_map (f := PanelsInitializer.Panel.index), hpanels, h.indices,
      List.length_range']
  have hreverse : (panels.length % 256 + 65536 - 1 - panelIdx) % 65536 = n - 1 - panelIdx := by
    omega
  have hget : (panels.map (·.index))[n - 1 - panelIdx]? = some (1 + (n - 1 - panelIdx)) := by
    rw [hpanels, h.indices, List.getElem?_range' (by omega), Nat.one_mul]
  unfold currentPanelAddress
  dsimp only
  rw [hreverse]
  rw [List.getElem?_map] at hget
  obtain ⟨panel, hpanel, hindex⟩ := Option.map_eq_some_iff.mp hget
  rw [hpanel]
  change panel.index + panelIdx = n
  omega

/-- Every panel is flashed before the panels it hangs from. -/
def FlashesLeavesFirst (tree : DiscoveryTreeBuilder) (panels : List PanelsInitializer.Panel) : Prop :=
  ∀ i j, i < panels.length → j < panels.length →
    tree.IsAncestor (currentPanelAddress panels j) (currentPanelAddress panels i) → i < j

theorem flashesLeavesFirst {tree : DiscoveryTreeBuilder} {n : ℕ} (h : tree.Consecutive n)
    {panels : List PanelsInitializer.Panel} (hpanels : panels.map (·.index) = tree.indices)
    (hn : n < 256) :
    FlashesLeavesFirst tree panels := by
  intro i j hi hj hancestor
  have hlt := h.isAncestor_lt hancestor
  have hdescendant := currentPanelAddress_eq h hpanels hn hi
  have hancestor := currentPanelAddress_eq h hpanels hn hj
  omega

end PanelFlasher

namespace DiscoveryCoordinator

open DiscoveryTreeBuilder PanelsInitializer

/-- The frontier and the panels to resume are each older than the one above. -/
structure Walks (c : DiscoveryCoordinator) : Prop where
  numbered : c.Numbered
  stack : (c.frontierPanelIndex :: c.stack).Pairwise (· > ·)
  tree : c.treeBuilder.Consecutive (c.nextPanelIndex - 1)

theorem walks_begin (nowMs : Millis) : (init.begin nowMs).1.Walks where
  numbered := numbered_begin nowMs
  stack := List.pairwise_singleton _ _
  tree := ⟨rfl, rfl, fun _ _ hl => (nomatch hl), fun _ hl => nomatch hl⟩

/-- A registration numbers the panel and hangs it from the frontier. -/
theorem Walks.react_registers {c : DiscoveryCoordinator} (h : c.Walks) (e pe : ℕ) (nowMs : Millis)
    (haccepts : c.Accepts c.nextPanelIndex) :
    (c.react (.frame (.registerEdge c.nextPanelIndex e pe) nowMs)).Walks := by
  have hnumbered := (h.numbered.react (.frame (.registerEdge c.nextPanelIndex e pe) nowMs)).1
  obtain ⟨hnext, hfrontier, hstack⟩ := c.react_registers e pe nowMs haccepts
  have hpos := h.numbered.next_pos
  have hlt := h.numbered.frontier_lt
  have hindices := hnumbered.indices
  refine ⟨hnumbered, ?_, ?_⟩
  · rw [hfrontier, hstack, List.pairwise_cons]
    refine ⟨fun t ht => ?_, h.stack⟩
    rcases List.mem_cons.mp ht with rfl | ht
    · exact hlt
    · exact h.numbered.stack_lt t ht
  · rw [hnext, Nat.add_sub_cancel] at hindices ⊢
    by_cases hroot : c.frontierPanelIndex = 0
    · have hone := h.numbered.frontier_zero hroot
      have hempty : c.treeBuilder.links = [] := by
        have hlength := h.tree.links_length
        rw [hone] at hlength
        exact List.length_eq_zero_iff.mp hlength
      have htree := react_root h.numbered e pe nowMs haccepts hroot
      rw [htree] at hindices ⊢
      refine ⟨hindices, ?_, ?_, ?_⟩
      · rw [hempty, hone]
        rfl
      · intro k l hl
        rw [hempty] at hl
        cases hl
      · intro l hl
        rw [hempty] at hl
        cases hl
    · have hnot : c.nextPanelIndex ≠ 1 := by omega
      have hlength := h.tree.links_length
      have htree := react_link h.numbered e pe nowMs haccepts hroot
      rw [htree] at hindices ⊢
      refine ⟨hindices, ?_, ?_, ?_⟩
      · rw [List.length_append, List.length_singleton]
        omega
      · intro k l hl
        rw [List.getElem?_append] at hl
        split_ifs at hl with hk
        · exact h.tree.child k l hl
        · have hlast : k = c.treeBuilder.links.length := by
            have := (List.getElem?_eq_some_iff.mp hl).1
            rw [List.length_singleton] at this
            omega
          rw [hlast, Nat.sub_self] at hl
          cases hl
          dsimp only
          omega
      · intro l hl
        rcases List.mem_append.mp hl with hl | hl
        · exact h.tree.parent l hl
        · cases List.mem_singleton.mp hl
          exact ⟨Nat.pos_of_ne_zero hroot, hlt⟩

theorem reacts_react (c : DiscoveryCoordinator) (i : Input) :
    ∃ input frames, Reacts c input (c.react i) frames := by
  cases i with
  | frame frame nowMs => exact ⟨_, _, c.reacts_onFrameArrived frame nowMs⟩
  | tick nowMs => exact ⟨_, _, c.reacts_tick nowMs⟩

theorem Walks.react {c : DiscoveryCoordinator} (h : c.Walks) (i : Input) : (c.react i).Walks := by
  by_cases hregisters : ∃ e pe nowMs, i = .frame (.registerEdge c.nextPanelIndex e pe) nowMs ∧
      c.Accepts c.nextPanelIndex
  · obtain ⟨e, pe, nowMs, rfl, haccepts⟩ := hregisters
    exact h.react_registers e pe nowMs haccepts
  · obtain ⟨htree, hnext, -, -⟩ := react_others
      (fun e pe nowMs hi haccepts => hregisters ⟨e, pe, nowMs, hi, haccepts⟩)
    have hstack : ((c.react i).frontierPanelIndex :: (c.react i).stack).Pairwise (· > ·) := by
      obtain ⟨input, frames, hreacts⟩ := c.reacts_react i
      have hdesc := h.stack
      cases hreacts with
      | waits _ hsame =>
          rw [hsame.2.1, hsame.2.2]
          exact hdesc
      | registers _ _ hmoved =>
          rw [hmoved] at hnext
          omega
      | resumes _ hpop _ hfrontier =>
          rw [hpop] at hdesc
          rw [hfrontier]
          exact hdesc.of_cons
      | finishes hpop _ hfrontier =>
          -- Nothing lies below the sentinel.
          rw [hpop] at hdesc
          rw [hfrontier]
          exact hdesc.sublist ((List.sublist_cons_self _ _).cons_cons _)
      | offers _ hsame =>
          rw [hsame.2.1, hsame.2.2]
          exact hdesc
      | advances _ hsame =>
          rw [hsame.2.1, hsame.2.2]
          exact hdesc
    exact ⟨(h.numbered.react i).1, hstack, by rw [htree, hnext]; exact h.tree⟩

theorem Walks.run {c : DiscoveryCoordinator} (h : c.Walks) (is : List Input) : (c.run is).Walks := by
  induction is generalizing c with
  | nil => exact h
  | cons i is ih => exact ih (h.react i)

/-- What the coordinator and the tree builder look like between two inputs. The next index is the
number of panels registered plus one, and the builder holds every one of them. -/
structure WalkInvariant (c : DiscoveryCoordinator) : Prop where
  stack_increasing : c.stack.reverse.Pairwise (· < ·)
  stack_fits : c.stack.length ≤ lightnetMaxPanels
  stack_registered : ∀ t ∈ c.stack, t ≠ 0 → t ∈ c.treeBuilder.indices
  next_le : c.nextPanelIndex ≤ lightnetMaxPanels + 1
  next_registered : c.nextPanelIndex = c.treeBuilder.indices.length + 1
  consecutive : c.treeBuilder.Consecutive c.treeBuilder.indices.length
  converted : ∀ panels, convertDiscoveredTreeToPanels c.treeBuilder = some panels →
    panels.map (·.index) = c.treeBuilder.indices
  flashes : ∀ panels, panels.map (·.index) = c.treeBuilder.indices →
    PanelFlasher.FlashesLeavesFirst c.treeBuilder panels

/-- Numbers that decrease from a bound on are at most as many as the bound says. -/
theorem length_le_of_decreasing {m : ℕ} {l : List ℕ} (h : (m :: l).Pairwise (· > ·)) :
    l.length ≤ m := by
  induction l generalizing m with
  | nil => exact Nat.zero_le m
  | cons a l ih =>
      have hlt := List.rel_of_pairwise_cons h List.mem_cons_self
      have hrest := ih h.of_cons
      rw [List.length_cons]
      omega

theorem Walks.walkInvariant {c : DiscoveryCoordinator} (h : c.Walks) : c.WalkInvariant := by
  have hindices := h.numbered.indices
  have hnext := h.numbered.next_le
  have hpos := h.numbered.next_pos
  have hlength : c.treeBuilder.indices.length = c.nextPanelIndex - 1 := by
    rw [hindices, List.length_range']
  have hconsecutive : c.treeBuilder.Consecutive c.treeBuilder.indices.length := by
    rw [hlength]
    exact h.tree
  refine ⟨?_, ?_, ?_, hnext, by omega, hconsecutive, ?_, ?_⟩
  · exact List.pairwise_reverse.mpr h.stack.of_cons
  · have := length_le_of_decreasing h.stack
    have := h.numbered.frontier_lt
    omega
  · intro t ht hne
    have := h.numbered.stack_lt t ht
    rw [hindices, List.mem_range'_1]
    omega
  · intro panels hconverts
    refine (foldlM_connect_panelsOf ?_ (panelsOf_newPanel _) hconverts).indices_eq
    intro l hl
    obtain ⟨hA, hB⟩ := h.numbered.links_lt l hl
    rw [hindices, List.mem_range'_1, List.mem_range'_1]
    omega
  · intro panels hpanels
    refine PanelFlasher.flashesLeavesFirst hconsecutive hpanels ?_
    unfold lightnetMaxPanels at hnext
    omega

/-- Whatever frames and ticks the coordinator has seen since it began. -/
theorem run_walkInvariant (beginMs : Millis) (is : List Input) :
    ((init.begin beginMs).1.run is).WalkInvariant :=
  ((walks_begin beginMs).run is).walkInvariant

end DiscoveryCoordinator

end Lightnet
