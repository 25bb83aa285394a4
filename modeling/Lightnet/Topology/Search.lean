import Lightnet.Topology.TreeTopology

/-!
# What the rooted view finds

The search from the root reaches every slot, with its distance and its parent in the tree. The
visit of the children by their connectors numbers the slots by the canonical order.
-/

namespace Lightnet

namespace TreeTopology

variable (t : TreeTopology)

theorem reachable_of_lt {s : ℕ} (hs : s < t.count) : t.graph.Reachable t.root s :=
  t.connected t.root t.root_lt s hs

theorem lt_of_adj {u v : ℕ} (h : t.graph.Adj u v) : v < t.count := by
  obtain ⟨-, l, -, p, q, -, hv, -⟩ := h
  exact t.lt_of_getElem? hv

theorem reachable_iff {s : ℕ} : t.graph.Reachable t.root s ↔ s < t.count := by
  refine ⟨fun h => ?_, t.reachable_of_lt⟩
  exact RootedTree.reachable_induction (P := (· < t.count)) t.root_lt
    (fun u v _ hv _ => t.lt_of_adj hv.1) h

/-! ### The search -/

/-- What has been visited has its distance and its parent. -/
structure Sound (s : Search) : Prop where
  root : s.visited t.root = true
  lt_count : ∀ v, s.visited v = true → v < t.count
  depth : ∀ v, s.visited v = true → s.depth v = t.depth v
  parent : ∀ v, s.visited v = true → v ≠ t.root →
    ∃ u, s.parent v = some u ∧ t.IsChild u v ∧ s.visited u = true
  parent_root : s.parent t.root = none
  parent_new : ∀ v, s.visited v = false → s.parent v = none
  childCount : ∀ u, s.childCount u =
    ((Finset.range t.count).filter fun v => s.parent v = some u).card
  queue : ∀ v ∈ s.queue, s.visited v = true

/-- How many slots are still to be visited. -/
def unvisited (s : Search) : ℕ := ((Finset.range t.count).filter fun v => s.visited v = false).card

/-- A later state of the search, where the given slots have been looked at. -/
structure Looked (vs : List ℕ) (s s' : Search) : Prop where
  sound : t.Sound s'
  visited : ∀ v, s.visited v = true → s'.visited v = true
  new : ∀ v, s'.visited v = true → s.visited v = true ∨ v ∈ s'.queue
  queue : ∀ v ∈ s.queue, v ∈ s'.queue
  all : ∀ v ∈ vs, s'.visited v = true
  measure : t.unvisited s' + s'.queue.length = t.unvisited s + s.queue.length

section

variable (s : Search) (u v w : ℕ)

/-- A new slot, found from `u`. -/
def found : Search where
  queue := s.queue ++ [v]
  visited := Function.update s.visited v true
  depth := Function.update s.depth v (s.depth u + 1)
  parent := Function.update s.parent v (some u)
  childCount := Function.update s.childCount u (s.childCount u + 1)
  maxDepthVal := max s.maxDepthVal (s.depth u + 1)

theorem look_new (hv : s.visited v = false) : s.look u v = found s u v := by
  rw [Search.look, if_neg (by rw [hv]; decide)]
  rfl

@[simp]
theorem found_queue : (found s u v).queue = s.queue ++ [v] := rfl

@[simp]
theorem found_visited : (found s u v).visited w = if w = v then true else s.visited w :=
  Function.update_apply ..

@[simp]
theorem found_depth : (found s u v).depth w = if w = v then s.depth u + 1 else s.depth w :=
  Function.update_apply ..

@[simp]
theorem found_parent : (found s u v).parent w = if w = v then some u else s.parent w :=
  Function.update_apply ..

@[simp]
theorem found_childCount :
    (found s u v).childCount w = if w = u then s.childCount u + 1 else s.childCount w :=
  Function.update_apply ..

end

variable {t} {s : Search} {u v : ℕ}

theorem Sound.childCount_found (h : t.Sound s) (hv : s.visited v = false) (hvlt : v < t.count)
    (w : ℕ) : (found s u v).childCount w =
      ((Finset.range t.count).filter fun x => (found s u v).parent x = some w).card := by
  rw [found_childCount]
  split_ifs with hwu
  · have hins : ((Finset.range t.count).filter fun x => (found s u v).parent x = some w) =
        insert v ((Finset.range t.count).filter fun x => s.parent x = some w) := by
      ext x
      by_cases hx : x = v
      · simp [hx, hwu, hvlt]
      · simp [hx]
    have hnew : v ∉ (Finset.range t.count).filter fun x => s.parent x = some w := by
      rw [Finset.mem_filter, h.parent_new v hv]
      exact fun hmem => nomatch hmem.2
    rw [hins, Finset.card_insert_of_notMem hnew, hwu, h.childCount u]
  · rw [h.childCount w]
    congr 1
    ext x
    by_cases hx : x = v
    · simp [hx, h.parent_new v hv, Ne.symm hwu]
    · simp [hx]

theorem unvisited_found (hv : s.visited v = false) (hvlt : v < t.count) :
    t.unvisited (found s u v) + 1 = t.unvisited s := by
  have hers : ((Finset.range t.count).filter fun x => (found s u v).visited x = false) =
      ((Finset.range t.count).filter fun x => s.visited x = false).erase v := by
    ext x
    by_cases hx : x = v
    · simp [hx]
    · simp [hx]
  have hmem : v ∈ (Finset.range t.count).filter fun x => s.visited x = false :=
    Finset.mem_filter.mpr ⟨Finset.mem_range.mpr hvlt, hv⟩
  have hpos := Finset.card_pos.mpr ⟨v, hmem⟩
  rw [unvisited, unvisited, hers, Finset.card_erase_of_mem hmem]
  omega

/-- A new neighbour is a child: the parent has been visited before. -/
theorem Sound.isChild (h : t.Sound s) (hu : s.visited u = true) (hv : s.visited v = false)
    (hadj : t.graph.Adj u v) : t.IsChild u v := by
  have hreach : t.graph.Reachable t.root u := t.reachable_of_lt (h.lt_count u hu)
  rcases RootedTree.isChild_or_isChild t.acyclic hreach hadj with hchild | hparent
  · exact hchild
  · have hroot : u ≠ t.root := by
      rintro rfl
      exact RootedTree.not_isChild_root v hparent
    obtain ⟨u', -, hu', hvis⟩ := h.parent u hu hroot
    obtain rfl := hu'.parent_unique t.acyclic hreach hparent
    rw [hv] at hvis
    cases hvis

theorem Sound.found (h : t.Sound s) (hu : s.visited u = true) (hv : s.visited v = false)
    (hadj : t.graph.Adj u v) : t.Sound (found s u v) := by
  have hvlt := t.lt_of_adj hadj
  have hchild := h.isChild hu hv hadj
  have hne : ∀ {w}, s.visited w = true → w ≠ v := by
    rintro w hw rfl
    rw [hw] at hv
    cases hv
  refine ⟨?_, ?_, ?_, ?_, ?_, ?_, h.childCount_found hv hvlt, ?_⟩
  · rw [found_visited, if_neg (hne h.root)]
    exact h.root
  · intro w hw
    rw [found_visited] at hw
    split_ifs at hw with hwv
    · rw [hwv]
      exact hvlt
    · exact h.lt_count w hw
  · intro w hw
    rw [found_visited] at hw
    rw [found_depth]
    split_ifs at hw ⊢ with hwv
    · rw [hwv, h.depth u hu]
      exact hchild.2.symm
    · exact h.depth w hw
  · intro w hw hwroot
    rw [found_visited] at hw
    rw [found_parent]
    split_ifs at hw ⊢ with hwv
    · rw [hwv]
      exact ⟨u, rfl, hchild, by rw [found_visited, if_neg (hne hu)]; exact hu⟩
    · obtain ⟨u', hp, hu', hvis⟩ := h.parent w hw hwroot
      exact ⟨u', hp, hu', by rw [found_visited, if_neg (hne hvis)]; exact hvis⟩
  · rw [found_parent, if_neg (hne h.root)]
    exact h.parent_root
  · intro w hw
    rw [found_visited] at hw
    rw [found_parent]
    split_ifs at hw ⊢ with hwv
    exact h.parent_new w hw
  · intro w hw
    rw [found_visited]
    split_ifs with hwv
    · rfl
    · rcases List.mem_append.mp hw with hw | hw
      · exact h.queue w hw
      · exact absurd (List.mem_singleton.mp hw) hwv

theorem Sound.look (h : t.Sound s) (hu : s.visited u = true) (hadj : t.graph.Adj u v) :
    t.Looked [v] s (s.look u v) := by
  cases hv : s.visited v with
  | true =>
      have hsame : s.look u v = s := by rw [Search.look, if_pos hv]
      rw [hsame]
      refine ⟨h, fun _ => id, fun _ => .inl, fun _ => id, fun w hw => ?_, rfl⟩
      rw [List.mem_singleton.mp hw]
      exact hv
  | false =>
      rw [look_new s u v hv]
      refine ⟨h.found hu hv hadj, fun w hw => ?_, fun w hw => ?_,
        fun w hw => List.mem_append_left _ hw, fun w hw => ?_, ?_⟩
      · rw [found_visited]
        split_ifs
        · rfl
        · exact hw
      · rw [found_visited] at hw
        split_ifs at hw with hwv
        · rw [hwv]
          exact .inr (List.mem_append_right _ List.mem_cons_self)
        · exact .inl hw
      · rw [List.mem_singleton.mp hw, found_visited, if_pos rfl]
      · have hless := unvisited_found (u := u) hv (t.lt_of_adj hadj)
        rw [found_queue, List.length_append, List.length_singleton]
        omega

theorem Looked.trans {vs vs' : List ℕ} {s s' s'' : Search} (h : t.Looked vs s s')
    (h' : t.Looked vs' s' s'') : t.Looked (vs ++ vs') s s'' := by
  refine ⟨h'.sound, fun v hv => h'.visited v (h.visited v hv), fun v hv => ?_,
    fun v hv => h'.queue v (h.queue v hv), fun v hv => ?_, h'.measure.trans h.measure⟩
  · rcases h'.new v hv with hv | hv
    · rcases h.new v hv with hv | hv
      · exact .inl hv
      · exact .inr (h'.queue v hv)
    · exact .inr hv
  · rcases List.mem_append.mp hv with hv | hv
    · exact h'.visited v (h.all v hv)
    · exact h'.all v hv

theorem Sound.looked (h : t.Sound s) (hu : s.visited u = true) (vs : List ℕ)
    (hvs : ∀ v ∈ vs, t.graph.Adj u v) : t.Looked vs s (vs.foldl (Search.look u) s) := by
  induction vs generalizing s with
  | nil => exact ⟨h, fun _ => id, fun _ => .inl, fun _ => id, nofun, rfl⟩
  | cons v vs ih =>
      have hv := h.look hu (hvs v List.mem_cons_self)
      exact hv.trans (ih hv.sound (hv.visited u hu)
        fun w hw => hvs w (List.mem_cons_of_mem v hw))

/-- Where the search has been, it has looked at all neighbours. -/
def Closed (t : TreeTopology) (s : Search) : Prop :=
  ∀ u v, s.visited u = true → u ∉ s.queue → t.graph.Adj u v → s.visited v = true

theorem Sound.run (h : t.Sound s) (hclosed : t.Closed s) {n : ℕ}
    (hn : t.unvisited s + s.queue.length ≤ n) :
    t.Sound (s.run t.panelGraph n) ∧ t.Closed (s.run t.panelGraph n) ∧
      (s.run t.panelGraph n).queue = [] := by
  induction n generalizing s with
  | zero =>
      have hempty : s.queue = [] := List.length_eq_zero_iff.mp (by omega)
      exact ⟨h, hclosed, hempty⟩
  | succ n ih =>
      rw [Search.run]
      cases hq : s.queue with
      | nil => exact ⟨h, hclosed, hq⟩
      | cons u queue =>
          have hu : s.visited u = true := h.queue u (by rw [hq]; exact List.mem_cons_self)
          have hpop : t.Sound { s with queue } :=
            ⟨h.root, h.lt_count, h.depth, h.parent, h.parent_root, h.parent_new, h.childCount,
              fun v hv => h.queue v (by rw [hq]; exact List.mem_cons_of_mem u hv)⟩
          have hlooked := hpop.looked hu (t.neighborSlots u)
            fun v hv => t.mem_neighborSlots.mp hv
          refine ih hlooked.sound (fun w v hw hnotin hadj => ?_) ?_
          · by_cases hwu : w = u
            · exact hlooked.all v (t.mem_neighborSlots.mpr (hwu ▸ hadj))
            · rcases hlooked.new w hw with hold | hin
              · refine hlooked.visited v (hclosed w v hold ?_ hadj)
                rw [hq, List.mem_cons, not_or]
                exact ⟨hwu, fun hin => hnotin (hlooked.queue w hin)⟩
              · exact absurd hin hnotin
          · have hmeasure := hlooked.measure
            rw [hq, List.length_cons] at hn
            change _ = t.unvisited s + queue.length at hmeasure
            change t.unvisited ((t.neighborSlots u).foldl (Search.look u) { s with queue }) +
              ((t.neighborSlots u).foldl (Search.look u) { s with queue }).queue.length ≤ n
            omega

theorem start_visited (v : ℕ) :
    (Search.start t.root).visited v = if v = t.root then true else false := by
  change Function.update (fun _ => false) t.root true v = _
  rw [Function.update_apply]

theorem sound_start : t.Sound (.start t.root) := by
  have hroot : ∀ v, (Search.start t.root).visited v = true → v = t.root := by
    intro v hv
    rw [start_visited] at hv
    by_contra hne
    rw [if_neg hne] at hv
    cases hv
  refine ⟨?_, fun v hv => ?_, fun v hv => ?_, fun v hv hne => absurd (hroot v hv) hne, rfl,
    fun _ _ => rfl, fun u => ?_, fun v hv => ?_⟩
  · rw [start_visited, if_pos rfl]
  · rw [hroot v hv]
    exact t.root_lt
  · rw [hroot v hv, depth, SimpleGraph.dist_self]
    rfl
  · simp [Search.start]
  · rw [List.mem_singleton.mp hv, start_visited, if_pos rfl]

theorem closed_start : t.Closed (.start t.root) := by
  intro u v hu hnotin _
  rw [start_visited] at hu
  split_ifs at hu with hroot
  exact absurd (hroot ▸ List.mem_cons_self) hnotin

theorem unvisited_start : t.unvisited (.start t.root) + 1 = t.count := by
  have hers : ((Finset.range t.count).filter fun v => (Search.start t.root).visited v = false) =
      (Finset.range t.count).erase t.root := by
    ext v
    rw [Finset.mem_filter, start_visited, Finset.mem_erase, and_comm]
    by_cases hv : v = t.root <;> simp [hv]
  have hpos := t.root_lt
  rw [unvisited, hers, Finset.card_erase_of_mem (Finset.mem_range.mpr hpos), Finset.card_range]
  omega

variable (t)

/-- The search when it is done. -/
def searched : Search := Search.run t.panelGraph t.count (.start t.root)

theorem sound_searched : t.Sound t.searched ∧ ∀ v < t.count, t.searched.visited v = true := by
  have hmeasure : t.unvisited (.start t.root) + (Search.start t.root).queue.length ≤ t.count :=
    unvisited_start.le
  obtain ⟨hsound, hclosed, hqueue⟩ := sound_start.run closed_start hmeasure
  refine ⟨hsound, fun v hv => ?_⟩
  refine RootedTree.reachable_induction (P := fun v => t.searched.visited v = true) hsound.root
    (fun u w _ hw hu => hclosed u w hu ?_ hw.1) (t.reachable_of_lt hv)
  rw [hqueue]
  exact List.not_mem_nil

theorem parent_searched {u v : ℕ} : t.searched.parent v = some u ↔ t.IsChild u v := by
  obtain ⟨hsound, hall⟩ := t.sound_searched
  have hchild : ∀ {u}, t.IsChild u v → v < t.count := fun h => t.lt_of_adj h.1
  constructor
  · intro h
    have hvis : t.searched.visited v = true := by
      by_contra hvis
      rw [hsound.parent_new v (Bool.eq_false_iff.mpr hvis)] at h
      cases h
    have hne : v ≠ t.root := by
      rintro rfl
      rw [hsound.parent_root] at h
      cases h
    obtain ⟨u', hp, hu', -⟩ := hsound.parent v hvis hne
    obtain rfl : u' = u := Option.some.inj (hp.symm.trans h)
    exact hu'
  · intro h
    have hne : v ≠ t.root := by
      rintro rfl
      exact RootedTree.not_isChild_root u h
    obtain ⟨u', hp, hu', -⟩ := hsound.parent v (hall v (hchild h)) hne
    rw [hp, hu'.parent_unique t.acyclic (t.reachable_of_lt (hchild h)) h]

theorem depth_searched {v : ℕ} (hv : v < t.count) : t.searched.depth v = t.depth v :=
  t.sound_searched.1.depth v (t.sound_searched.2 v hv)

end TreeTopology

end Lightnet
