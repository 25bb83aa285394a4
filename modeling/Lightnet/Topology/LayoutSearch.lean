import Lightnet.Topology.PanelLayout

/-!
# The search for the parents

Whatever the links are, the search ends, stays within its tables and finds each slot that can be
reached once, behind its parent.
-/

namespace Lightnet

open CheckedTable

namespace PanelGraph

/-- A neighbour of `u` is `v`. -/
def Edge (g : PanelGraph) (u v : ℕ) : Prop := ∃ nb ∈ g.neighbors u, nb.slot = v

def Reached (g : PanelGraph) (root : ℕ) : ℕ → Prop := Relation.ReflTransGen g.Edge root

/-- The slots of the graph are those of its panels. -/
structure Bounded (g : PanelGraph) : Prop where
  count_pos : 0 < g.count
  count_le : g.count ≤ lightnetMaxPanels
  slotOf_lt : ∀ p s, g.slotOf p = some s → s < g.count
  edge_lt : ∀ u v, g.Edge u v → v < g.count

theorem slotTable_lt {l : List ℕ} {p s : ℕ} (h : slotTable l p = some s) : s < l.length := by
  have hfold (entries : List (ℕ × ℕ)) (table : ℕ → Option ℕ)
      (hentries : ∀ e ∈ entries, e.2 < l.length)
      (htable : ∀ q r, table q = some r → r < l.length) :
      ∀ q r, entries.foldl (fun (table : ℕ → Option ℕ) e => Function.update table e.1 (some e.2))
        table q = some r → r < l.length := by
    induction entries generalizing table with
    | nil => exact htable
    | cons e entries ih =>
        refine ih _ (fun d hd => hentries d (.tail e hd)) fun q r hq => ?_
        dsimp only at hq
        by_cases hqe : q = e.1
        · rw [hqe, Function.update_self, Option.some.injEq] at hq
          rw [← hq]
          exact hentries e (.head entries)
        · rw [Function.update_of_ne hqe] at hq
          exact htable q r hq
  refine hfold l.zipIdx (fun _ => none) (fun e he => ?_) (fun q r hq => by cases hq) p s h
  have hindex := List.snd_lt_of_mem_zipIdx he
  omega

theorem mem_linkNeighbors_lt {l : List ℕ} {u : ℕ} {link : TopoLink} {nb : Neighbor}
    (h : nb ∈ linkNeighbors (slotTable l) u link) : nb.slot < l.length := by
  unfold linkNeighbors at h
  split at h
  · rename_i a b ha hb
    have ha := slotTable_lt ha
    have hb := slotTable_lt hb
    rw [List.mem_append] at h
    rcases h with h | h
    · split_ifs at h
      · rw [List.mem_singleton.mp h]
        exact hb
      · cases h
    · split_ifs at h
      · rw [List.mem_singleton.mp h]
        exact ha
      · cases h
  · cases h

theorem build_bounded {panels : List ℕ} {links : List TopoLink} {g : PanelGraph}
    (h : build panels links = some g) : g.Bounded := by
  unfold build at h
  split_ifs at h with hcount
  rw [not_or, not_lt] at hcount
  obtain rfl := Option.some.inj h
  refine ⟨Nat.pos_of_ne_zero hcount.1, hcount.2, fun p s hs => slotTable_lt hs, ?_⟩
  rintro u v ⟨nb, hnb, rfl⟩
  obtain ⟨link, -, hlink⟩ := List.mem_flatMap.mp hnb
  exact mem_linkNeighbors_lt hlink

theorem Bounded.lowestSlot_lt {g : PanelGraph} (h : g.Bounded) : g.lowestSlot < g.count := by
  have hfold (l : List ℕ) (best : ℕ) (hl : ∀ s ∈ l, s < g.count) (hbest : best < g.count) :
      l.foldl (fun best s => if g.panelAt s < g.panelAt best then s else best) best < g.count := by
    induction l generalizing best with
    | nil => exact hbest
    | cons s l ih =>
        refine ih _ (fun r hr => hl r (.tail s hr)) ?_
        dsimp only
        split_ifs
        · exact hl s (.head l)
        · exact hbest
  exact hfold (List.range g.count) 0 (fun s hs => List.mem_range.mp hs) h.count_pos

theorem Bounded.anchorSlot_lt {g : PanelGraph} (h : g.Bounded) :
    PanelLayout.anchorSlot g < g.count := by
  unfold PanelLayout.anchorSlot TopologyIndex.pickRoot
  split
  · exact h.slotOf_lt _ _ (by assumption)
  · exact h.lowestSlot_lt

end PanelGraph

namespace PanelLayout

open PanelGraph

namespace Tree

/-- What the search has found. The slots of `done` have left the queue. -/
structure Sound (g : PanelGraph) (root : ℕ) (done : List ℕ) (t : Tree) : Prop where
  order : t.bfsOrder = done ++ t.queue
  nodup : t.bfsOrder.Nodup
  visited : ∀ v, t.visited v = true ↔ v ∈ t.bfsOrder
  lt_count : ∀ v ∈ t.bfsOrder, v < g.count
  reached : ∀ v ∈ t.bfsOrder, g.Reached root v
  root_mem : root ∈ t.bfsOrder
  parents : ∀ pre v post, t.bfsOrder = pre ++ v :: post → ∀ p, t.parent v = some p → p ∈ pre
  entered : ∀ v p, t.parent v = some p →
    ∃ nb ∈ g.neighbors p, nb.slot = v ∧ t.parentPeerEdge v = nb.myEdge

/-- The neighbours of these slots have been found. -/
def Closed (g : PanelGraph) (done : List ℕ) (t : Tree) : Prop :=
  ∀ u ∈ done, ∀ v, g.Edge u v → v ∈ t.bfsOrder

theorem sound_start {g : PanelGraph} {root : ℕ} (h : root < g.count) :
    Sound g root [] (start root) := by
  refine ⟨rfl, List.nodup_singleton root, fun v => ?_, fun v hv => ?_, fun v hv => ?_,
    List.mem_singleton_self root, ?_, ?_⟩
  · change Function.update (fun _ => false) root true v = true ↔ v ∈ [root]
    rw [List.mem_singleton, Function.update_apply]
    split_ifs with hv
    · exact iff_of_true rfl hv
    · exact iff_of_false not_false hv
  · rw [List.mem_singleton.mp hv]
    exact h
  · rw [List.mem_singleton.mp hv]
    exact .refl
  · intro pre v post _ p hp
    cases hp
  · intro v p hp
    cases hp

variable {g : PanelGraph} {root : ℕ} {done : List ℕ} {t : Tree}

theorem Sound.length_le (h : Sound g root done t) : t.bfsOrder.length ≤ g.count := by
  have hsubset : t.bfsOrder ⊆ List.range g.count :=
    fun v hv => List.mem_range.mpr (h.lt_count v hv)
  have hle := (h.nodup.subperm hsubset).length_le
  rwa [List.length_range] at hle

/-- A slot that is found has been found before or comes last, behind its parent. -/
theorem Sound.look (h : Sound g root done t) (hg : g.Bounded) {u : ℕ} (hu : u ∈ t.bfsOrder)
    {nb : Neighbor} (hnb : nb ∈ g.neighbors u) :
    ∃ t', look u t nb = .ok t' ∧ Sound g root done t' ∧ nb.slot ∈ t'.bfsOrder ∧
      t.bfsOrder ⊆ t'.bfsOrder := by
  have hlt : nb.slot < g.count := hg.edge_lt u nb.slot ⟨nb, hnb, rfl⟩
  have hcount := hg.count_le
  unfold Tree.look
  rw [if_neg (by omega)]
  by_cases hvisited : t.visited nb.slot = true
  · rw [if_pos hvisited]
    exact ⟨t, rfl, h, (h.visited nb.slot).mp hvisited, List.Subset.refl _⟩
  · have hnew : nb.slot ∉ t.bfsOrder := fun hmem => hvisited ((h.visited nb.slot).mpr hmem)
    have hroom : t.bfsOrder.length < lightnetMaxPanels := by
      have hnodup : (nb.slot :: t.bfsOrder).Nodup := List.nodup_cons.mpr ⟨hnew, h.nodup⟩
      have hsubset : nb.slot :: t.bfsOrder ⊆ List.range g.count := by
        intro v hv
        rcases List.mem_cons.mp hv with rfl | hv
        · exact List.mem_range.mpr hlt
        · exact List.mem_range.mpr (h.lt_count v hv)
      have hle := (hnodup.subperm hsubset).length_le
      rw [List.length_range, List.length_cons] at hle
      omega
    rw [if_neg hvisited, if_neg (by omega)]
    have hold {v : ℕ} (hv : v ∈ t.bfsOrder) : v ≠ nb.slot := fun heq => hnew (heq ▸ hv)
    refine ⟨_, rfl, ⟨?_, ?_, ?_, ?_, ?_, ?_, ?_, ?_⟩, ?_, ?_⟩
    · change t.bfsOrder ++ [nb.slot] = done ++ (t.queue ++ [nb.slot])
      rw [h.order, List.append_assoc]
    · exact List.nodup_append'.mpr ⟨h.nodup, List.nodup_singleton _, by simpa using hnew⟩
    · intro v
      change Function.update t.visited nb.slot true v = true ↔ v ∈ t.bfsOrder ++ [nb.slot]
      rw [List.mem_append, List.mem_singleton, Function.update_apply]
      split_ifs with hv
      · exact iff_of_true rfl (.inr hv)
      · rw [h.visited v]
        exact (or_iff_left hv).symm
    · intro v hv
      rcases List.mem_append.mp hv with hv | hv
      · exact h.lt_count v hv
      · rw [List.mem_singleton.mp hv]
        exact hlt
    · intro v hv
      rcases List.mem_append.mp hv with hv | hv
      · exact h.reached v hv
      · rw [List.mem_singleton.mp hv]
        exact (h.reached u hu).tail ⟨nb, hnb, rfl⟩
    · exact List.mem_append_left _ h.root_mem
    · intro pre v post horder p hp
      change Function.update t.parent nb.slot (some u) v = some p at hp
      change t.bfsOrder ++ [nb.slot] = _ at horder
      rcases List.eq_nil_or_concat post with rfl | ⟨post', w, rfl⟩
      · obtain ⟨hpre, hv⟩ := List.append_inj' horder rfl
        rw [← (List.cons.inj hv).1, Function.update_self] at hp
        rw [← Option.some.inj hp, ← hpre]
        exact hu
      · rw [List.concat_eq_append, ← List.cons_append, ← List.append_assoc] at horder
        have hbefore := (List.append_inj' horder rfl).1
        have hv : v ∈ t.bfsOrder := by
          rw [hbefore]
          exact List.mem_append_right pre List.mem_cons_self
        rw [Function.update_of_ne (hold hv)] at hp
        exact h.parents pre v post' hbefore p hp
    · intro v p hp
      change Function.update t.parent nb.slot (some u) v = some p at hp
      change ∃ nb' ∈ g.neighbors p, nb'.slot = v ∧
        Function.update t.parentPeerEdge nb.slot nb.myEdge v = nb'.myEdge
      by_cases hv : v = nb.slot
      · rw [hv, Function.update_self, Option.some.injEq] at hp
        rw [hv, Function.update_self, ← hp]
        exact ⟨nb, hnb, rfl, rfl⟩
      · rw [Function.update_of_ne hv] at hp ⊢
        exact h.entered v p hp
    · exact List.mem_append_right _ (List.mem_singleton_self _)
    · exact fun v hv => List.mem_append_left _ hv

theorem Sound.looks (h : Sound g root done t) (hg : g.Bounded) {u : ℕ} (hu : u ∈ t.bfsOrder)
    {nbs : List Neighbor} (hnbs : ∀ nb ∈ nbs, nb ∈ g.neighbors u) :
    ∃ t', nbs.foldlM (Tree.look u) t = .ok t' ∧ Sound g root done t' ∧
      (∀ nb ∈ nbs, nb.slot ∈ t'.bfsOrder) ∧ t.bfsOrder ⊆ t'.bfsOrder := by
  induction nbs generalizing t with
  | nil => exact ⟨t, rfl, h, List.forall_mem_nil _, List.Subset.refl _⟩
  | cons nb nbs ih =>
      obtain ⟨t₁, hlook, h₁, hmem, hsub₁⟩ := h.look hg hu (hnbs nb (.head nbs))
      obtain ⟨t₂, hlooks, h₂, hmems, hsub₂⟩ :=
        ih h₁ (hsub₁ hu) fun nb' hnb' => hnbs nb' (.tail nb hnb')
      refine ⟨t₂, ?_, h₂, ?_, fun v hv => hsub₂ (hsub₁ hv)⟩
      · rw [List.foldlM_cons, hlook]
        exact hlooks
      · intro nb' hnb'
        rcases List.mem_cons.mp hnb' with rfl | hnb'
        · exact hsub₂ hmem
        · exact hmems nb' hnb'

/-- As many rounds as there are slots are enough. -/
theorem Sound.run (h : Sound g root done t) (hg : g.Bounded) (hclosed : Closed g done t) {n : ℕ}
    (hn : done.length + n = g.count) :
    ∃ t' done', Tree.run g n t = .ok t' ∧ Sound g root done' t' ∧ Closed g done' t' ∧
      t'.queue = [] := by
  induction n generalizing done t with
  | zero =>
      refine ⟨t, done, rfl, h, hclosed, ?_⟩
      have hle := h.length_le
      rw [h.order, List.length_append] at hle
      exact List.length_eq_zero_iff.mp (by omega)
  | succ n ih =>
      cases hqueue : t.queue with
      | nil =>
          refine ⟨t, done, ?_, h, hclosed, hqueue⟩
          rw [Tree.run, hqueue]
      | cons u queue =>
          have horder : t.bfsOrder = (done ++ [u]) ++ queue := by
            rw [h.order, hqueue, List.append_assoc]
            rfl
          have hpop : Sound g root (done ++ [u]) { t with queue } :=
            ⟨horder, h.nodup, h.visited, h.lt_count, h.reached, h.root_mem, h.parents, h.entered⟩
          have hu : u ∈ t.bfsOrder := by
            rw [h.order, hqueue]
            exact List.mem_append_right done List.mem_cons_self
          obtain ⟨t₁, hlooks, h₁, hmems, hsub⟩ := hpop.looks hg hu fun nb hnb => hnb
          have hclosed₁ : Closed g (done ++ [u]) t₁ := by
            intro w hw v hedge
            rcases List.mem_append.mp hw with hw | hw
            · exact hsub (hclosed w hw v hedge)
            · rw [List.mem_singleton.mp hw] at hedge
              obtain ⟨nb, hnb, rfl⟩ := hedge
              exact hmems nb hnb
          have hlength : (done ++ [u]).length + n = g.count := by
            rw [List.length_append, List.length_singleton]
            omega
          obtain ⟨t', done', hrun, h'⟩ := ih h₁ hclosed₁ hlength
          refine ⟨t', done', ?_, h'⟩
          rw [Tree.run, hqueue]
          dsimp only
          rw [hlooks]
          exact hrun

end Tree

/-- The search ends and finds what can be reached. -/
theorem exists_bfsParents {g : PanelGraph} (hg : g.Bounded) {root : ℕ} (hroot : root < g.count) :
    ∃ t, bfsParents g root = .ok t ∧ Tree.Sound g root t.bfsOrder t ∧ t.queue = [] ∧
      ∀ v, v ∈ t.bfsOrder ↔ g.Reached root v := by
  have hstart := Tree.sound_start hroot
  obtain ⟨t, done, hrun, h, hclosed, hqueue⟩ :=
    hstart.run hg (fun u hu => by cases hu) (Nat.zero_add g.count)
  have hdone : t.bfsOrder = done := by
    rw [h.order, hqueue, List.append_nil]
  have hcount := hg.count_le
  refine ⟨t, ?_, ?_, hqueue, fun v => ⟨h.reached v, fun hv => ?_⟩⟩
  · rw [bfsParents, if_neg (by omega)]
    exact hrun
  · rw [hdone]
    exact h
  · induction hv with
    | refl => exact h.root_mem
    | tail _ hedge ih => exact hclosed _ (hdone ▸ ih) _ hedge

end PanelLayout

end Lightnet
