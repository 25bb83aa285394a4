import Lightnet.Topology.Search

/-!
# Canonical order and subtrees

The visit with the children sorted by connectors numbers the slots by their positions, and the
visit of a subtree collects the descendants.
-/

namespace Lightnet

namespace TreeTopology

variable (t : TreeTopology)

/-! ### Children -/

/-- The neighbours that are children. -/
def childNeighbors (u : ℕ) : List Neighbor :=
  (t.panelGraph.neighbors u).filter fun nb => t.searched.parent nb.slot = some u

theorem childNeighbors_sublist (u : ℕ) : (t.childNeighbors u).Sublist (t.panelGraph.neighbors u) :=
  List.filter_sublist

theorem mem_childNeighbors_slot {u v : ℕ} :
    v ∈ (t.childNeighbors u).map (·.slot) ↔ t.IsChild u v := by
  rw [List.mem_map]
  constructor
  · rintro ⟨nb, hnb, rfl⟩
    obtain ⟨-, hparent⟩ := List.mem_filter.mp hnb
    exact t.parent_searched.mp (of_decide_eq_true hparent)
  · intro h
    obtain ⟨nb, hnb, rfl⟩ := List.mem_map.mp (t.mem_neighborSlots.mpr h.1)
    exact ⟨nb, List.mem_filter.mpr ⟨hnb, decide_eq_true (t.parent_searched.mpr h)⟩, rfl⟩

def children (u : ℕ) : List ℕ := TopologyIndex.sortedChildren t.panelGraph t.searched.parent u

/-- No child is left out. -/
theorem children_eq (u : ℕ) : t.children u =
    ((t.childNeighbors u).insertionSort fun nb nb' => nb.myEdge ≤ nb'.myEdge).map (·.slot) := by
  have hlen := (t.childNeighbors_sublist u).length_le.trans (t.length_neighbors_le u)
  rw [children, TopologyIndex.sortedChildren]
  exact congrArg (fun l : List Neighbor =>
    (l.insertionSort fun nb nb' => nb.myEdge ≤ nb'.myEdge).map (·.slot)) (List.take_of_length_le hlen)

theorem mem_children {u v : ℕ} : v ∈ t.children u ↔ t.IsChild u v := by
  rw [children_eq, ← mem_childNeighbors_slot]
  exact ((List.perm_insertionSort _ _).map _).mem_iff

theorem children_sorted (u : ℕ) :
    (t.children u).Pairwise fun v v' => t.connector u v < t.connector u v' := by
  have htotal : Std.Total fun nb nb' : Neighbor => nb.myEdge ≤ nb'.myEdge :=
    ⟨fun nb nb' => le_total _ _⟩
  have htrans : IsTrans Neighbor fun nb nb' : Neighbor => nb.myEdge ≤ nb'.myEdge :=
    ⟨fun _ _ _ hab hbc => hab.trans hbc⟩
  have hsorted := List.pairwise_insertionSort (fun nb nb' : Neighbor => nb.myEdge ≤ nb'.myEdge)
    (t.childNeighbors u)
  have hnodup : ((t.childNeighbors u).insertionSort
      fun nb nb' => nb.myEdge ≤ nb'.myEdge).Pairwise fun nb nb' => nb.myEdge ≠ nb'.myEdge := by
    have hedges := (((t.childNeighbors_sublist u).map (·.myEdge)).nodup (t.nodup_myEdge u))
    rw [← ((List.perm_insertionSort (fun nb nb' : Neighbor => nb.myEdge ≤ nb'.myEdge)
      (t.childNeighbors u)).map _).nodup_iff] at hedges
    exact List.pairwise_map.mp hedges
  rw [children_eq, List.pairwise_map]
  refine List.Pairwise.imp_of_mem ?_ (hsorted.and hnodup)
  rintro nb nb' hnb hnb' ⟨hle, hne⟩
  have hmem : ∀ {nb}, nb ∈ (t.childNeighbors u).insertionSort
      (fun nb nb' => nb.myEdge ≤ nb'.myEdge) → nb ∈ t.panelGraph.neighbors u := fun h =>
    (t.childNeighbors_sublist u).subset ((List.mem_insertionSort _).mp h)
  rw [t.connector_eq (hmem hnb), t.connector_eq (hmem hnb')]
  exact lt_of_le_of_ne hle hne

theorem isChild_reachable {u v : ℕ} (h : t.IsChild u v) : t.graph.Reachable t.root u :=
  t.reachable_of_lt (t.lt_of_adj h.1.symm)

/-- What is below a slot in the visits are its descendants. -/
theorem under_iff {children : ℕ → List ℕ} (hchildren : ∀ u v, v ∈ children u ↔ t.IsChild u v)
    {u v : ℕ} : DepthFirst.Under children u v ↔ t.Descendant u v := by
  constructor
  · intro h
    exact RootedTree.descendant_of_under (fun u v => (hchildren u v).mp) h
  · intro h
    induction h with
    | refl => exact .refl
    | tail _ h ih => exact ih.tail ((hchildren _ _).mpr h)

theorem descendant_root {v : ℕ} : t.Descendant t.root v ↔ v < t.count := by
  constructor
  · intro h
    exact t.reachable_iff.mp (RootedTree.Descendant.reachable h (.refl _))
  · intro hv
    exact RootedTree.reachable_induction (P := fun v => t.Descendant t.root v) .refl
      (fun _ _ _ hc hu => hu.tail hc) (t.reachable_of_lt hv)

theorem Descendant.lt_count {t : TreeTopology} {u v : ℕ} (h : t.Descendant u v)
    (hu : u < t.count) : v < t.count :=
  t.reachable_iff.mp (RootedTree.Descendant.reachable h (t.reachable_of_lt hu))

/-! ### Numbers -/

/-- The numbers follow the visit. -/
theorem numberFrom_eq (children : ℕ → List ℕ) (n : ℕ) (stack : List ℕ) (order : ℕ) (pos : ℕ → ℕ)
    (hnodup : (DepthFirst.visit children n stack).Nodup) (s : ℕ) :
    TopologyIndex.numberFrom children n stack order pos s =
      if s ∈ DepthFirst.visit children n stack then
        order + (DepthFirst.visit children n stack).idxOf s
      else pos s := by
  induction n generalizing stack order pos with
  | zero =>
      cases stack <;> rfl
  | succ n ih =>
      cases stack with
      | nil => rfl
      | cons u stack =>
          rw [DepthFirst.visit] at hnodup ⊢
          obtain ⟨hu, hrest⟩ := List.nodup_cons.mp hnodup
          rw [TopologyIndex.numberFrom, ih _ _ _ hrest]
          by_cases hsu : s = u
          · subst hsu
            rw [if_neg hu, if_pos List.mem_cons_self, Function.update_self, List.idxOf_cons_self]
            rfl
          · rw [Function.update_of_ne hsu, List.idxOf_cons_ne _ (Ne.symm hsu)]
            by_cases hmem : s ∈ DepthFirst.visit children n (children u ++ stack)
            · rw [if_pos hmem, if_pos (List.mem_cons_of_mem u hmem)]
              omega
            · rw [if_neg hmem, if_neg (by simp [hsu, hmem])]

/-- The visit of all slots is in canonical order. -/
theorem canonical_visit :
    (DepthFirst.visit t.children t.count [t.root]).Pairwise
        (RootedTree.Before t.graph t.root t.connector) ∧
      ∀ s, s ∈ DepthFirst.visit t.children t.count [t.root] ↔ s < t.count := by
  have hord := RootedTree.inOrder_before t.acyclic (fun u v => t.mem_children.mp)
    (fun u v h => t.isChild_reachable (t.mem_children.mp h)) t.children_sorted
  have hunder : ∀ {s}, (∃ a ∈ [t.root], DepthFirst.Under t.children a s) ↔ s < t.count := by
    intro s
    rw [← descendant_root, ← t.under_iff fun u v => t.mem_children]
    simp
  refine ⟨hord.visit_pairwise (List.pairwise_singleton _ _), fun s => ?_⟩
  rw [hord.mem_visit (List.pairwise_singleton _ _) (s := Finset.range t.count)
    (fun x hx => Finset.mem_range.mpr (hunder.mp hx)) (Finset.card_range _).le]
  exact hunder

theorem numberFrom_position {s : ℕ} (hs : s < t.count) :
    TopologyIndex.numberFrom t.children t.count [t.root] 0 (fun _ => 0) s = t.position s := by
  obtain ⟨hpairwise, hmem⟩ := t.canonical_visit
  have hnodup : (DepthFirst.visit t.children t.count [t.root]).Nodup :=
    hpairwise.imp fun {a b} hab => by
      rintro rfl
      exact RootedTree.Before.irrefl t.acyclic a hab
  rw [numberFrom_eq _ _ _ _ _ hnodup, if_pos ((hmem s).mpr hs), Nat.zero_add]
  exact RootedTree.idxOf_eq_position t.acyclic hpairwise
    (fun u hu => (hmem u).mpr (t.reachable_iff.mp hu)) ((hmem s).mpr hs)

/-! ### Subtrees -/

theorem fill_eq (index : TopologyIndex) (n : ℕ) (stack : List ℕ) (out : PanelSet) :
    index.fill n stack out = out ∪ (DepthFirst.visit index.pushedChildren n stack).toFinset := by
  induction n generalizing stack out with
  | zero =>
      cases stack <;> exact (Finset.union_empty _).symm
  | succ n ih =>
      cases stack with
      | nil => exact (Finset.union_empty _).symm
      | cons u stack =>
          rw [TopologyIndex.fill, ih, DepthFirst.visit, List.toFinset_cons, Finset.insert_union,
            Finset.union_insert]

theorem index_eq : t.index =
    { graph := t.panelGraph
      rootSlot := t.root
      depth := t.searched.depth
      parent := t.searched.parent
      childCount := t.searched.childCount
      maxDepthVal := t.searched.maxDepthVal
      canonPos := TopologyIndex.numberFrom t.children t.count [t.root] 0 fun _ => 0 } := by
  rw [index, TopologyIndex.build, t.pickRoot_eq]
  rfl

theorem mem_pushedChildren {u v : ℕ} : v ∈ t.index.pushedChildren u ↔ t.IsChild u v := by
  rw [index_eq, TopologyIndex.pushedChildren, List.mem_reverse, List.mem_filter]
  constructor
  · rintro ⟨-, hparent⟩
    exact t.parent_searched.mp (of_decide_eq_true hparent)
  · intro h
    exact ⟨t.mem_neighborSlots.mpr h.1, decide_eq_true (t.parent_searched.mpr h)⟩

theorem mem_fillSubtree {u s : ℕ} (hu : u < t.count) (out : PanelSet) :
    s ∈ t.index.fillSubtree u out ↔ s ∈ out ∨ t.Descendant u s := by
  have hord := RootedTree.inOrder_ne t.acyclic (fun u v => t.mem_pushedChildren.mp)
    (fun u v h => t.isChild_reachable (t.mem_pushedChildren.mp h)) fun u => by
      rw [index_eq, TopologyIndex.pushedChildren, List.nodup_reverse]
      exact (t.nodup_neighborSlots u).filter _
  have hunder : ∀ {s}, (∃ a ∈ [u], DepthFirst.Under t.index.pushedChildren a s) ↔
      t.Descendant u s := by
    intro s
    rw [← t.under_iff fun u v => t.mem_pushedChildren]
    simp
  have hcount : t.index.count = t.count := by
    rw [index_eq]
    rfl
  rw [TopologyIndex.fillSubtree, fill_eq, Finset.mem_union, List.mem_toFinset, hcount,
    hord.mem_visit (List.pairwise_singleton _ _) (s := Finset.range t.count)
      (fun x hx => Finset.mem_range.mpr ((hunder.mp hx).lt_count hu)) (Finset.card_range _).le,
    hunder]

end TreeTopology

end Lightnet
