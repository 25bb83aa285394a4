import Lightnet.Library.Flooding
import Lightnet.Playback.PanelField
import Lightnet.Topology.CanonicalOrder

/-!
# The tables of the rooted view

All that the rooted view answers about a tree: depths, parents, subtrees, distances and the
canonical order.
-/

namespace Lightnet

/-! ### Distances -/

namespace Flood

def state (f : Flood) : Flooding.State ℕ := ⟨f.queue, f.dist⟩

theorem state_look (u : ℕ) (f : Flood) (v : ℕ) :
    (look u f v).state = Flooding.look u f.state v := by
  by_cases h : (f.dist v).isSome = true
  · have hstate : (f.state.dist v).isSome = true := h
    rw [look, if_pos h, Flooding.look, if_pos hstate]
  · have hstate : ¬(f.state.dist v).isSome = true := h
    rw [look, if_neg h, Flooding.look, if_neg hstate]
    rfl

theorem state_looks (u : ℕ) (f : Flood) (vs : List ℕ) :
    (vs.foldl (look u) f).state = vs.foldl (Flooding.look u) f.state := by
  induction vs generalizing f with
  | nil => rfl
  | cons v vs ih => rw [List.foldl_cons, List.foldl_cons, ih, state_look]

theorem state_run (g : PanelGraph) (n : ℕ) (f : Flood) :
    (run g n f).state = Flooding.run (fun u => (g.neighbors u).map (·.slot)) n f.state := by
  induction n generalizing f with
  | zero => rfl
  | succ n ih =>
      unfold run Flooding.run
      cases hqueue : f.queue with
      | nil =>
          have hstate : f.state.queue = [] := hqueue
          rw [hstate]
      | cons u queue =>
          have hstate : f.state.queue = u :: queue := hqueue
          rw [hstate]
          dsimp only
          rw [ih, state_looks]
          rfl

end Flood

namespace TreeTopology

variable (t : TreeTopology)

/-- The distance to the nearest of the slots. -/
theorem distancesFrom_isLeast {sources : PanelSet} (hne : ∃ s ∈ sources, s < t.count) {v : ℕ}
    (hv : v < t.count) :
    ∃ d, t.index.distancesFrom sources v = some d ∧
      IsLeast {n | ∃ s ∈ sources, s < t.count ∧ t.graph.dist s v = n} d := by
  let queue := (List.range t.count).filter (· ∈ sources)
  have hqueue {s : ℕ} : s ∈ queue ↔ s ∈ sources ∧ s < t.count := by
    rw [List.mem_filter, List.mem_range, decide_eq_true_eq, and_comm]
  have hreach {s : ℕ} (hs : s < t.count) : t.graph.Reachable s v :=
    (t.reachable_of_lt hs).symm.trans (t.reachable_of_lt hv)
  obtain ⟨s₀, hs₀, hlt₀⟩ := hne
  obtain ⟨w₀⟩ := hreach hlt₀
  have hneighbors (u v : ℕ) : v ∈ (t.panelGraph.neighbors u).map (·.slot) ↔ t.graph.Adj u v :=
    t.mem_neighborSlots
  have hvertices (u v : ℕ) (hadj : t.graph.Adj u v) : v ∈ Finset.range t.count :=
    Finset.mem_range.mpr (t.lt_of_adj hadj)
  obtain ⟨d, hd, hleast⟩ := Flooding.run_isLeast hneighbors hvertices (List.nodup_range.filter _)
    (fun s hs => Finset.mem_range.mpr (hqueue.mp hs).2) ⟨s₀, hqueue.mpr ⟨hs₀, hlt₀⟩, w₀, rfl⟩
  refine ⟨d, ?_, ?_, ?_⟩
  · have hstart : (⟨queue, fun s => if s ∈ sources ∧ s < t.count then some 0 else none⟩ :
        Flooding.State ℕ) = ⟨queue, fun s => if s ∈ queue then some 0 else none⟩ := by
      congr 1
      funext s
      exact if_congr hqueue.symm rfl rfl
    rw [Finset.card_range, ← hstart] at hd
    have hrun := Flood.state_run t.panelGraph t.count
      ⟨queue, fun s => if s ∈ sources ∧ s < t.count then some 0 else none⟩
    have hdist := congrFun (congrArg Flooding.State.dist hrun) v
    rw [index_eq]
    exact hdist.trans hd
  · obtain ⟨s, hs, w, hw⟩ := hleast.1
    obtain ⟨hmem, hlt⟩ := hqueue.mp hs
    refine ⟨s, hmem, hlt, le_antisymm (hw ▸ SimpleGraph.dist_le w) ?_⟩
    obtain ⟨w', hw'⟩ := (hreach hlt).exists_walk_length_eq_dist
    exact hleast.2 ⟨s, hs, w', hw'⟩
  · rintro n ⟨s, hs, hlt, rfl⟩
    obtain ⟨w, hw⟩ := (hreach hlt).exists_walk_length_eq_dist
    exact hleast.2 ⟨s, hqueue.mpr ⟨hs, hlt⟩, w, hw⟩

/-! ### Parents -/

theorem parent_on_path {v : ℕ} (hv : v < t.count) (hne : v ≠ t.root) :
    ∃ u, t.index.parent v = some u ∧ t.graph.Adj u v ∧
      ∀ p : t.graph.Walk t.root v, p.IsPath → u ∈ p.support := by
  obtain ⟨u, hu⟩ := RootedTree.exists_parent (t.reachable_of_lt hv) hne
  refine ⟨u, ?_, hu.1, fun p hp => hu.mem_support t.acyclic hp⟩
  rw [index_eq]
  exact t.parent_searched.mpr hu

theorem parent_root : t.index.parent t.root = none := by
  rw [index_eq]
  exact t.sound_searched.1.parent_root

/-! ### The canonical order -/

def visited : List ℕ := DepthFirst.visit t.children t.count [t.root]

theorem nodup_visited : t.visited.Nodup :=
  t.canonical_visit.1.imp fun {a b} hab => by
    rintro rfl
    exact RootedTree.Before.irrefl t.acyclic a hab

theorem length_visited : t.visited.length = t.count := by
  have hset : t.visited.toFinset = Finset.range t.count := by
    ext s
    rw [List.mem_toFinset, Finset.mem_range]
    exact t.canonical_visit.2 s
  rw [← List.toFinset_card_of_nodup t.nodup_visited, hset, Finset.card_range]

theorem canonPos_eq {s : ℕ} (hs : s < t.count) : t.index.canonPos s = t.visited.idxOf s := by
  rw [index_eq]
  change TopologyIndex.numberFrom _ _ _ _ _ s = _
  rw [numberFrom_eq _ _ _ _ _ t.nodup_visited, if_pos ((t.canonical_visit.2 s).mpr hs),
    Nat.zero_add]
  rfl

theorem canonPos_bijOn : Set.BijOn t.index.canonPos (Set.Iio t.count) (Set.Iio t.count) := by
  have hmem {s : ℕ} (hs : s < t.count) : s ∈ t.visited := (t.canonical_visit.2 s).mpr hs
  refine ⟨fun s hs => ?_, fun s hs r hr heq => ?_, fun k hk => ?_⟩
  · rw [Set.mem_Iio, canonPos_eq t hs, ← length_visited]
    exact List.idxOf_lt_length_iff.mpr (hmem hs)
  · rw [canonPos_eq t hs, canonPos_eq t hr] at heq
    exact (List.idxOf_inj (hmem hs)).mp heq
  · have hlength : k < t.visited.length := by rwa [length_visited]
    have hlt : t.visited[k] < t.count :=
      (t.canonical_visit.2 _).mp (List.getElem_mem hlength)
    refine ⟨t.visited[k], hlt, ?_⟩
    rw [canonPos_eq t hlt, t.nodup_visited.idxOf_getElem]

/-- What comes before in the visit has a smaller number. -/
theorem canonPos_lt {a b : ℕ} (ha : a < t.count) (hb : b < t.count)
    (h : RootedTree.Before t.graph t.root t.connector a b) :
    t.index.canonPos a < t.index.canonPos b := by
  rw [canonPos_eq t ha, canonPos_eq t hb]
  have hmem {s : ℕ} (hs : s < t.count) : s ∈ t.visited := (t.canonical_visit.2 s).mpr hs
  by_contra hle
  have hle := not_lt.mp hle
  rcases hle.eq_or_lt with heq | hlt
  · have hab := (List.idxOf_inj (hmem hb)).mp heq
    rw [hab] at h
    exact RootedTree.Before.irrefl t.acyclic a h
  · have hpairwise : t.visited.Pairwise (RootedTree.Before t.graph t.root t.connector) :=
      t.canonical_visit.1
    have hba := List.pairwise_iff_getElem.mp hpairwise (t.visited.idxOf b) (t.visited.idxOf a)
      (List.idxOf_lt_length_iff.mpr (hmem hb)) (List.idxOf_lt_length_iff.mpr (hmem ha)) hlt
    rw [List.getElem_idxOf, List.getElem_idxOf] at hba
    exact RootedTree.Before.asymm t.acyclic h hba

/-- The numbers of a depth first visit that comes to the children of each slot in the order of the
connectors that the slot has towards them. -/
structure IsPreOrder (pos : ℕ → ℕ) : Prop where
  bijOn : Set.BijOn pos (Set.Iio t.count) (Set.Iio t.count)
  below : ∀ u v x, t.IsChild u v → t.Descendant v x → pos u < pos x
  siblings : ∀ u v w, t.IsChild u v → t.IsChild u w → t.connector u v < t.connector u w →
    ∀ x y, t.Descendant v x → t.Descendant w y → pos x < pos y

theorem canonPos_isPreOrder : t.IsPreOrder t.index.canonPos := by
  have hord := RootedTree.inOrder_before t.acyclic (fun u v => t.mem_children.mp)
    (fun u v h => t.isChild_reachable (t.mem_children.mp h)) t.children_sorted
  have hunder {u x : ℕ} (h : t.Descendant u x) : DepthFirst.Under t.children u x :=
    (t.under_iff fun u v => t.mem_children).mpr h
  have hchild {u v : ℕ} (h : t.IsChild u v) : v < t.count := t.lt_of_adj h.1
  refine ⟨t.canonPos_bijOn, fun u v x huv hvx => ?_, fun u v w huv huw hlt x y hx hy => ?_⟩
  · exact t.canonPos_lt (t.lt_of_adj huv.1.symm) (hvx.lt_count (hchild huv))
      (hord.below (t.mem_children.mpr huv) (hunder hvx))
  · exact t.canonPos_lt (hx.lt_count (hchild huv)) (hy.lt_count (hchild huw))
      (RootedTree.before_of_siblings (t.isChild_reachable huv) huv huw hlt hx hy)

/-! ### All tables -/

/-- What the rooted view is to tell about the tree. -/
structure Describes (index : TopologyIndex) : Prop where
  depth : ∀ v < t.count, index.depth v = t.graph.dist t.root v
  parent_root : index.parent t.root = none
  parent : ∀ v < t.count, v ≠ t.root → ∃ u, index.parent v = some u ∧ t.graph.Adj u v ∧
    ∀ p : t.graph.Walk t.root v, p.IsPath → u ∈ p.support
  subtree : ∀ u < t.count, ∀ out s, s ∈ index.fillSubtree u out ↔ s ∈ out ∨ t.Descendant u s
  distances : ∀ sources : PanelSet, (∃ s ∈ sources, s < t.count) → ∀ v < t.count,
    ∃ d, index.distancesFrom sources v = some d ∧
      IsLeast {n | ∃ s ∈ sources, s < t.count ∧ t.graph.dist s v = n} d
  canonPos : t.IsPreOrder index.canonPos

/-- The rooted view that is built of a tree describes it, in whatever order the links are. -/
theorem build_describes : ∃ g, PanelGraph.build t.panels t.links = some g ∧
    t.Describes (TopologyIndex.build g t.logicalRoot) := by
  refine ⟨t.panelGraph, t.build_panelGraph, fun v hv => ?_, t.parent_root,
    fun v hv hne => t.parent_on_path hv hne, fun u hu out s => t.mem_fillSubtree hu out,
    fun sources hne v hv => t.distancesFrom_isLeast hne hv, t.canonPos_isPreOrder⟩
  change t.index.depth v = _
  rw [index_eq]
  exact t.depth_searched hv

end TreeTopology

/-! ### A tree that branches -/

/-- A new leaf closes no circle. -/
theorem acyclic_leaf {G : SimpleGraph ℕ} (h : G.IsAcyclic) {a b : ℕ} (hab : a ≠ b)
    (hleaf : ∀ c, ¬ G.Adj b c) : (G ⊔ SimpleGraph.edge a b).IsAcyclic := by
  refine h.sup_edge_of_not_reachable fun hreach => ?_
  obtain ⟨w⟩ := hreach.symm
  cases w with
  | nil => exact hab rfl
  | cons hadj _ => exact hleaf _ hadj

/-- Panel 1 has panel 3 at its first connector and panel 2 at its third, and panel 4 hangs on
panel 3. -/
def branchTopology : TreeTopology where
  panels := [1, 2, 3, 4]
  links := [⟨4, 1, 3, 2⟩, ⟨1, 2, 2, 0⟩, ⟨3, 0, 1, 0⟩]
  logicalRoot := 1
  ne_nil := by decide
  length_le := by decide
  nodup := by decide
  panel_le := by decide
  ends_mem := by decide
  no_loop := by decide
  once := by
    unfold TopoLink.Joins
    decide
  connectors := by decide
  connector_lt := by decide
  connected := by
    set G := linkGraph [1, 2, 3, 4] [⟨4, 1, 3, 2⟩, ⟨1, 2, 2, 0⟩, ⟨3, 0, 1, 0⟩]
    have h01 : G.Adj 0 1 := ⟨by decide, ⟨1, 2, 2, 0⟩, by decide, 1, 2, rfl, rfl, .inl ⟨rfl, rfl⟩⟩
    have h02 : G.Adj 0 2 := ⟨by decide, ⟨3, 0, 1, 0⟩, by decide, 1, 3, rfl, rfl, .inr ⟨rfl, rfl⟩⟩
    have h23 : G.Adj 2 3 := ⟨by decide, ⟨4, 1, 3, 2⟩, by decide, 3, 4, rfl, rfl, .inr ⟨rfl, rfl⟩⟩
    have hroot : ∀ a < 4, G.Reachable 0 a := by
      intro a ha
      obtain rfl | rfl | rfl | rfl : a = 0 ∨ a = 1 ∨ a = 2 ∨ a = 3 := by omega
      · exact .refl _
      · exact h01.reachable
      · exact h02.reachable
      · exact h02.reachable.trans h23.reachable
    exact fun a ha b hb => (hroot a ha).symm.trans (hroot b hb)
  acyclic := by
    have hle : linkGraph [1, 2, 3, 4] [⟨4, 1, 3, 2⟩, ⟨1, 2, 2, 0⟩, ⟨3, 0, 1, 0⟩] ≤
        ⊥ ⊔ SimpleGraph.edge 0 1 ⊔ SimpleGraph.edge 0 2 ⊔ SimpleGraph.edge 2 3 := by
      rintro a b ⟨hne, l, hl, p, q, hp, hq, hjoins⟩
      have hslot : ∀ (a p : ℕ), [1, 2, 3, 4][a]? = some p → p = a + 1 := by
        intro a p hp
        have ha : a < 4 := (List.getElem?_eq_some_iff.mp hp).1
        obtain rfl | rfl | rfl | rfl : a = 0 ∨ a = 1 ∨ a = 2 ∨ a = 3 := by omega
        all_goals exact (Option.some.inj hp).symm
      have hp := hslot a p hp
      have hq := hslot b q hq
      simp only [SimpleGraph.sup_adj, SimpleGraph.edge_adj, SimpleGraph.bot_adj, false_or]
      simp only [List.mem_cons, List.not_mem_nil, or_false] at hl
      rcases hl with rfl | rfl | rfl <;> simp only [TopoLink.Joins] at hjoins <;> omega
    refine .anti hle (acyclic_leaf (acyclic_leaf (acyclic_leaf SimpleGraph.isAcyclic_bot ?_ ?_) ?_ ?_)
      ?_ ?_)
    · decide
    · simp
    · decide
    · simp [SimpleGraph.edge_adj]
    · decide
    · simp [SimpleGraph.edge_adj]

example : (List.range 4).map branchTopology.index.depth = [0, 1, 1, 2] ∧
    (List.range 4).map branchTopology.index.parent = [none, some 0, some 0, some 2] ∧
    (List.range 4).map branchTopology.index.canonPos = [0, 3, 1, 2] := by
  decide +kernel

end Lightnet
