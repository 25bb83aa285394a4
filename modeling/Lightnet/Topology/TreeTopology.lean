import Lightnet.Library.RootedTree
import Lightnet.Relay.PanelDiscovery
import Lightnet.Topology.PanelGraph

/-!
# Tree topologies

A topology that discovery can find: at most a hundred panels whose links form a tree, no connector
used twice. Its rooted view is stated on the graph alone, without a search: depth is distance from
the root, and the canonical order compares the connectors on the ways from the root.
-/

namespace Lightnet

def TopoLink.Joins (l : TopoLink) (p q : ℕ) : Prop :=
  (l.panelA = p ∧ l.panelB = q) ∨ (l.panelA = q ∧ l.panelB = p)

def TopoLink.ends (l : TopoLink) : List (ℕ × ℕ) := [(l.panelA, l.edgeA), (l.panelB, l.edgeB)]

/-- The slots of linked panels are adjacent. -/
def linkGraph (panels : List ℕ) (links : List TopoLink) : SimpleGraph ℕ where
  Adj a b := a ≠ b ∧ ∃ l ∈ links, ∃ p q, panels[a]? = some p ∧ panels[b]? = some q ∧ l.Joins p q
  symm := ⟨fun _ _ ⟨hne, l, hl, p, q, hp, hq, h⟩ => ⟨hne.symm, l, hl, q, p, hq, hp, h.symm⟩⟩
  loopless := ⟨fun _ h => h.1 rfl⟩

structure TreeTopology where
  panels : List ℕ
  links : List TopoLink
  logicalRoot : ℕ
  ne_nil : panels ≠ []
  length_le : panels.length ≤ lightnetMaxPanels
  nodup : panels.Nodup
  panel_le : ∀ p ∈ panels, p ≤ 255
  ends_mem : ∀ l ∈ links, l.panelA ∈ panels ∧ l.panelB ∈ panels
  no_loop : ∀ l ∈ links, l.panelA ≠ l.panelB
  once : links.Pairwise fun l l' => ¬l.Joins l'.panelA l'.panelB
  connectors : (links.flatMap TopoLink.ends).Nodup
  connector_lt : ∀ l ∈ links, l.edgeA < maxEdges ∧ l.edgeB < maxEdges
  connected : ∀ a < panels.length, ∀ b < panels.length, (linkGraph panels links).Reachable a b
  acyclic : (linkGraph panels links).IsAcyclic

namespace TreeTopology

variable (t : TreeTopology)

def count : ℕ := t.panels.length

def graph : SimpleGraph ℕ := linkGraph t.panels t.links

/-- The panel with the lowest index. -/
def lowest : ℕ := t.panels.foldl (fun b p => if p < b then p else b) 255

/-- The slot of the panel that is to be the root, or of the lowest if there is no such panel. -/
def root : ℕ :=
  if t.logicalRoot ∈ t.panels then t.panels.idxOf t.logicalRoot else t.panels.idxOf t.lowest

/-- The connector of the first slot that the link uses towards the second. -/
def linkConnector (a b : ℕ) (l : TopoLink) : Option ℕ :=
  if t.panels[a]? = some l.panelA ∧ t.panels[b]? = some l.panelB then some l.edgeA
  else if t.panels[a]? = some l.panelB ∧ t.panels[b]? = some l.panelA then some l.edgeB
  else none

/-- The connector of the first slot that faces the second. -/
def connector (a b : ℕ) : ℕ := (t.links.findSome? (t.linkConnector a b)).getD 0

noncomputable def depth (s : ℕ) : ℕ := t.graph.dist t.root s

def IsChild : ℕ → ℕ → Prop := RootedTree.IsChild t.graph t.root

def Descendant : ℕ → ℕ → Prop := RootedTree.Descendant t.graph t.root

/-- The place in canonical order. -/
noncomputable def position : ℕ → ℕ := RootedTree.position t.graph t.root t.connector

/-- The graph that is built of the topology, which has panels and not too many. -/
def panelGraph : PanelGraph :=
  ⟨t.panels, PanelGraph.slotTable t.panels,
    fun slot => t.links.flatMap (PanelGraph.linkNeighbors (PanelGraph.slotTable t.panels) slot)⟩

def index : TopologyIndex := TopologyIndex.build t.panelGraph t.logicalRoot

theorem build_panelGraph : PanelGraph.build t.panels t.links = some t.panelGraph := by
  have hpos := List.length_pos_iff.mpr t.ne_nil
  have hle := t.length_le
  rw [PanelGraph.build, if_neg (by omega)]
  rfl

/-! ### Slots -/

theorem foldl_update_zipIdx {l : List ℕ} (hl : l.Nodup) (k : ℕ) (table : ℕ → Option ℕ)
    (p : ℕ) :
    (l.zipIdx k).foldl
        (fun (table : ℕ → Option ℕ) entry => Function.update table entry.1 (some entry.2))
        table p =
      if p ∈ l then some (k + l.idxOf p) else table p := by
  induction l generalizing k table with
  | nil => rfl
  | cons q l ih =>
      obtain ⟨hq, hl'⟩ := List.nodup_cons.mp hl
      rw [List.zipIdx_cons, List.foldl_cons, ih hl']
      by_cases hp : p = q
      · subst hp
        rw [if_neg hq, if_pos List.mem_cons_self, Function.update_self, List.idxOf_cons_self]
        rfl
      · rw [Function.update_of_ne hp, List.idxOf_cons_ne l (Ne.symm hp)]
        by_cases hmem : p ∈ l
        · rw [if_pos hmem, if_pos (List.mem_cons_of_mem q hmem)]
          congr 1
          omega
        · rw [if_neg hmem, if_neg (by simp [hp, hmem])]

theorem slotTable_eq_some {p : ℕ} {s : ℕ} :
    PanelGraph.slotTable t.panels p = some s ↔ t.panels[s]? = some p := by
  rw [PanelGraph.slotTable, foldl_update_zipIdx t.nodup, Nat.zero_add]
  split_ifs with hp
  · rw [Option.some.injEq]
    constructor
    · rintro rfl
      exact List.getElem?_idxOf hp
    · intro hs
      obtain ⟨hlt, rfl⟩ := List.getElem?_eq_some_iff.mp hs
      exact t.nodup.idxOf_getElem s hlt
  · refine ⟨nofun, fun hs => ?_⟩
    exact absurd (List.mem_of_getElem? hs) hp

theorem lt_of_getElem? {s p : ℕ} (h : t.panels[s]? = some p) : s < t.count :=
  (List.getElem?_eq_some_iff.mp h).1

theorem slot_unique {s s' : ℕ} {p : ℕ} (h : t.panels[s]? = some p)
    (h' : t.panels[s']? = some p) : s = s' :=
  Option.some.inj ((t.slotTable_eq_some.mpr h).symm.trans (t.slotTable_eq_some.mpr h'))

/-! ### Neighbours -/

/-- A link seen from one of its ends. -/
theorem mem_linkNeighbors {u : ℕ} {l : TopoLink} {nb : Neighbor} :
    nb ∈ PanelGraph.linkNeighbors (PanelGraph.slotTable t.panels) u l ↔
      (t.panels[u]? = some l.panelA ∧ t.panels[nb.slot]? = some l.panelB ∧ nb.myEdge = l.edgeA ∧
        nb.peerEdge = l.edgeB) ∨
      (t.panels[u]? = some l.panelB ∧ t.panels[nb.slot]? = some l.panelA ∧ nb.myEdge = l.edgeB ∧
        nb.peerEdge = l.edgeA) := by
  rw [PanelGraph.linkNeighbors]
  simp only [← t.slotTable_eq_some]
  cases ha : PanelGraph.slotTable t.panels l.panelA with
  | none => simp
  | some a =>
      cases hb : PanelGraph.slotTable t.panels l.panelB with
      | none => simp
      | some b =>
          obtain ⟨slot, myEdge, peerEdge⟩ := nb
          simp only [List.mem_append, List.mem_ite_nil_right, List.mem_singleton,
            Neighbor.mk.injEq, Option.some.injEq]
          constructor
          · rintro (⟨rfl, rfl, rfl, rfl⟩ | ⟨rfl, rfl, rfl, rfl⟩)
            · exact .inl ⟨rfl, rfl, rfl, rfl⟩
            · exact .inr ⟨rfl, rfl, rfl, rfl⟩
          · rintro (⟨rfl, rfl, rfl, rfl⟩ | ⟨rfl, rfl, rfl, rfl⟩)
            · exact .inl ⟨rfl, rfl, rfl, rfl⟩
            · exact .inr ⟨rfl, rfl, rfl, rfl⟩

def neighborSlots (u : ℕ) : List ℕ := (t.panelGraph.neighbors u).map (·.slot)

theorem mem_neighborSlots {u v : ℕ} : v ∈ t.neighborSlots u ↔ t.graph.Adj u v := by
  rw [neighborSlots, List.mem_map]
  constructor
  · rintro ⟨nb, hnb, rfl⟩
    obtain ⟨l, hl, hmem⟩ := List.mem_flatMap.mp hnb
    rcases t.mem_linkNeighbors.mp hmem with ⟨hu, hv, -, -⟩ | ⟨hu, hv, -, -⟩
    · refine ⟨fun h => t.no_loop l hl ?_, l, hl, _, _, hu, hv, .inl ⟨rfl, rfl⟩⟩
      rw [h, hv] at hu
      exact (Option.some.inj hu).symm
    · refine ⟨fun h => t.no_loop l hl ?_, l, hl, _, _, hu, hv, .inr ⟨rfl, rfl⟩⟩
      rw [h, hv] at hu
      exact Option.some.inj hu
  · rintro ⟨-, l, hl, p, q, hu, hv, ⟨rfl, rfl⟩ | ⟨rfl, rfl⟩⟩
    · exact ⟨⟨v, l.edgeA, l.edgeB⟩, List.mem_flatMap.mpr ⟨l, hl,
        t.mem_linkNeighbors.mpr (.inl ⟨hu, hv, rfl, rfl⟩)⟩, rfl⟩
    · exact ⟨⟨v, l.edgeB, l.edgeA⟩, List.mem_flatMap.mpr ⟨l, hl,
        t.mem_linkNeighbors.mpr (.inr ⟨hu, hv, rfl, rfl⟩)⟩, rfl⟩

theorem joins_of_mem_linkNeighbors {u : ℕ} {l l' : TopoLink} {nb nb' : Neighbor}
    (h : nb ∈ PanelGraph.linkNeighbors (PanelGraph.slotTable t.panels) u l)
    (h' : nb' ∈ PanelGraph.linkNeighbors (PanelGraph.slotTable t.panels) u l')
    (hslot : nb.slot = nb'.slot) : l.Joins l'.panelA l'.panelB := by
  have hinj : ∀ {s : ℕ} {p q : ℕ}, t.panels[s]? = some p → t.panels[s]? = some q → p = q :=
    fun hp hq => Option.some.inj (hp.symm.trans hq)
  rcases t.mem_linkNeighbors.mp h with ⟨hu, hv, -, -⟩ | ⟨hu, hv, -, -⟩ <;>
    rcases t.mem_linkNeighbors.mp h' with ⟨hu', hv', -, -⟩ | ⟨hu', hv', -, -⟩ <;>
    rw [hslot] at hv
  · exact .inl ⟨hinj hu hu', hinj hv hv'⟩
  · exact .inr ⟨hinj hu hu', hinj hv hv'⟩
  · exact .inr ⟨hinj hv hv', hinj hu hu'⟩
  · exact .inl ⟨hinj hv hv', hinj hu hu'⟩

theorem end_mem_of_mem_linkNeighbors {u : ℕ} {l : TopoLink} {nb : Neighbor}
    (h : nb ∈ PanelGraph.linkNeighbors (PanelGraph.slotTable t.panels) u l) :
    ∃ p, t.panels[u]? = some p ∧ (p, nb.myEdge) ∈ l.ends := by
  rcases t.mem_linkNeighbors.mp h with ⟨hu, -, he, -⟩ | ⟨hu, -, he, -⟩
  · exact ⟨_, hu, by rw [he]; exact List.mem_cons_self⟩
  · exact ⟨_, hu, by rw [he]; exact List.mem_cons_of_mem _ List.mem_cons_self⟩

theorem length_linkNeighbors_le {l : TopoLink} (hl : l ∈ t.links) (u : ℕ) :
    (PanelGraph.linkNeighbors (PanelGraph.slotTable t.panels) u l).length ≤ 1 := by
  rw [PanelGraph.linkNeighbors]
  cases ha : PanelGraph.slotTable t.panels l.panelA with
  | none => exact Nat.zero_le _
  | some a =>
      cases hb : PanelGraph.slotTable t.panels l.panelB with
      | none => exact Nat.zero_le _
      | some b =>
          have hne : a ≠ b := by
            rintro rfl
            refine t.no_loop l hl ?_
            exact Option.some.inj
              ((t.slotTable_eq_some.mp ha).symm.trans (t.slotTable_eq_some.mp hb))
          dsimp only
          split_ifs with hau hbu
          · exact absurd (hau.trans hbu.symm) hne
          · exact le_rfl
          · exact le_rfl
          · exact Nat.zero_le _

theorem nodup_of_length_le_one {α : Type} {l : List α} (h : l.length ≤ 1) : l.Nodup := by
  cases l with
  | nil => exact .nil
  | cons a l =>
      obtain rfl : l = [] := List.length_eq_zero_iff.mp (by simp only [List.length_cons] at h; omega)
      exact List.nodup_singleton a

/-- Two links of a panel lead to different panels. -/
theorem nodup_neighborSlots (u : ℕ) : (t.neighborSlots u).Nodup := by
  rw [neighborSlots, panelGraph, List.map_flatMap, List.nodup_flatMap]
  refine ⟨fun l hl => nodup_of_length_le_one ?_, t.once.imp fun {l l'} hjoins => ?_⟩
  · rw [List.length_map]
    exact t.length_linkNeighbors_le hl u
  · intro v hv hv'
    obtain ⟨nb, hnb, rfl⟩ := List.mem_map.mp hv
    obtain ⟨nb', hnb', hslot⟩ := List.mem_map.mp hv'
    exact hjoins (t.joins_of_mem_linkNeighbors hnb hnb' hslot.symm)

theorem nodup_myEdge (u : ℕ) : ((t.panelGraph.neighbors u).map (·.myEdge)).Nodup := by
  obtain ⟨-, hends⟩ := List.nodup_flatMap.mp t.connectors
  rw [panelGraph, List.map_flatMap, List.nodup_flatMap]
  refine ⟨fun l hl => nodup_of_length_le_one ?_, hends.imp fun {l l'} hdisjoint => ?_⟩
  · rw [List.length_map]
    exact t.length_linkNeighbors_le hl u
  · intro e he he'
    obtain ⟨nb, hnb, rfl⟩ := List.mem_map.mp he
    obtain ⟨nb', hnb', hedge⟩ := List.mem_map.mp he'
    obtain ⟨p, hp, hmem⟩ := t.end_mem_of_mem_linkNeighbors hnb
    obtain ⟨p', hp', hmem'⟩ := t.end_mem_of_mem_linkNeighbors hnb'
    obtain rfl : p = p' := Option.some.inj (hp.symm.trans hp')
    rw [hedge] at hmem'
    exact hdisjoint hmem hmem'

theorem length_neighbors_le (u : ℕ) : (t.panelGraph.neighbors u).length ≤ 8 := by
  have hsub : ((t.panelGraph.neighbors u).map (·.myEdge)).toFinset ⊆ Finset.range maxEdges := by
    intro e he
    obtain ⟨nb, hnb, rfl⟩ := List.mem_map.mp (List.mem_toFinset.mp he)
    obtain ⟨l, hl, hmem⟩ := List.mem_flatMap.mp hnb
    have hlt := t.connector_lt l hl
    rw [Finset.mem_range]
    rcases t.mem_linkNeighbors.mp hmem with ⟨-, -, he, -⟩ | ⟨-, -, he, -⟩
    · rw [he]
      exact hlt.1
    · rw [he]
      exact hlt.2
  have hcard := Finset.card_le_card hsub
  rw [List.toFinset_card_of_nodup (t.nodup_myEdge u), Finset.card_range, List.length_map,
    maxEdges] at hcard
  omega

theorem joins_of_linkConnector {a b : ℕ} {p q : ℕ} {l : TopoLink} {e : ℕ}
    (ha : t.panels[a]? = some p) (hb : t.panels[b]? = some q)
    (h : t.linkConnector a b l = some e) : l.Joins p q := by
  rw [linkConnector, ha, hb] at h
  split_ifs at h with h₁ h₂
  · exact .inl ⟨(Option.some.inj h₁.1).symm, (Option.some.inj h₁.2).symm⟩
  · exact .inr ⟨(Option.some.inj h₂.2).symm, (Option.some.inj h₂.1).symm⟩

/-- The connector of a neighbour is the one its link uses. -/
theorem connector_eq {u : ℕ} {nb : Neighbor} (h : nb ∈ t.panelGraph.neighbors u) :
    t.connector u nb.slot = nb.myEdge := by
  obtain ⟨l, hl, hmem⟩ := List.mem_flatMap.mp h
  have hlink : t.linkConnector u nb.slot l = some nb.myEdge ∧
      ∃ p q, t.panels[u]? = some p ∧ t.panels[nb.slot]? = some q ∧ l.Joins p q := by
    rcases t.mem_linkNeighbors.mp hmem with ⟨hu, hv, he, -⟩ | ⟨hu, hv, he, -⟩
    · refine ⟨?_, _, _, hu, hv, .inl ⟨rfl, rfl⟩⟩
      rw [linkConnector, if_pos ⟨hu, hv⟩, he]
    · refine ⟨?_, _, _, hu, hv, .inr ⟨rfl, rfl⟩⟩
      have hne : l.panelB ≠ l.panelA := (t.no_loop l hl).symm
      rw [linkConnector, if_neg, if_pos ⟨hu, hv⟩, he]
      rw [hu]
      rintro ⟨hBA, -⟩
      exact hne (Option.some.inj hBA)
  obtain ⟨hl', p, q, hp, hq, hjoins⟩ := hlink
  have honly : ∀ links : List TopoLink, links.Pairwise (fun l l' => ¬l.Joins l'.panelA l'.panelB) →
      l ∈ links → links.findSome? (t.linkConnector u nb.slot) = some nb.myEdge := by
    intro links hlinks hmem
    induction links with
    | nil => exact nomatch hmem
    | cons x links ih =>
        obtain ⟨hx, hlinks⟩ := List.pairwise_cons.mp hlinks
        rw [List.findSome?_cons]
        rcases List.mem_cons.mp hmem with rfl | hmem
        · rw [hl']
        · cases hfx : t.linkConnector u nb.slot x with
          | none => exact ih hlinks hmem
          | some e =>
              have hx' := t.joins_of_linkConnector hp hq hfx
              refine absurd ?_ (hx l hmem)
              rcases hjoins with ⟨rfl, rfl⟩ | ⟨rfl, rfl⟩
              · exact hx'
              · exact hx'.symm
  rw [connector, honly t.links t.once hl, Option.getD_some]

/-! ### The root -/

theorem foldl_min (l : List ℕ) (b : ℕ) :
    (l.foldl (fun b p => if p < b then p else b) b ∈ l ∨
      l.foldl (fun b p => if p < b then p else b) b = b) ∧
    l.foldl (fun b p => if p < b then p else b) b ≤ b ∧
    ∀ p ∈ l, l.foldl (fun b p => if p < b then p else b) b ≤ p := by
  induction l generalizing b with
  | nil => exact ⟨.inr rfl, le_rfl, nofun⟩
  | cons q l ih =>
      rw [List.foldl_cons]
      obtain ⟨hmem, hle, hall⟩ := ih (if q < b then q else b)
      have hmin : (if q < b then q else b) ≤ b ∧ (if q < b then q else b) ≤ q := by
        split_ifs with h
        · exact ⟨h.le, le_rfl⟩
        · exact ⟨le_rfl, not_lt.mp h⟩
      refine ⟨?_, hle.trans hmin.1, fun p hp => ?_⟩
      · rcases hmem with hmem | heq
        · exact .inl (List.mem_cons_of_mem q hmem)
        · rw [heq]
          split_ifs with h
          · exact .inl List.mem_cons_self
          · exact .inr rfl
      · rcases List.mem_cons.mp hp with rfl | hp
        · exact hle.trans hmin.2
        · exact hall p hp

theorem lowest_mem : t.lowest ∈ t.panels := by
  obtain ⟨hmem, -, hall⟩ := foldl_min t.panels 255
  rcases hmem with hmem | heq
  · exact hmem
  · obtain ⟨p, hp⟩ := List.exists_mem_of_ne_nil t.panels t.ne_nil
    have hle := hall p hp
    rw [heq] at hle
    have hp' : p = 255 := le_antisymm (t.panel_le p hp) hle
    rw [lowest, heq, ← hp']
    exact hp

/-- No panel has a lower index. -/
theorem lowest_le {p : ℕ} (hp : p ∈ t.panels) : t.lowest ≤ p := (foldl_min t.panels 255).2.2 p hp

theorem root_lt : t.root < t.count := by
  rw [root]
  split_ifs with h
  · exact List.idxOf_lt_length_of_mem h
  · exact List.idxOf_lt_length_of_mem t.lowest_mem

theorem panelAt_eq {s : ℕ} (hs : s < t.count) : t.panels[s]? = some (t.panelGraph.panelAt s) := by
  rw [PanelGraph.panelAt, panelGraph, List.getD_eq_getElem?_getD,
    List.getElem?_eq_getElem (by exact hs), Option.getD_some]

theorem lowestSlot_spec (l : List ℕ) (hl : ∀ s ∈ l, s < t.count) (b : ℕ) (hb : b < t.count) :
    let best := l.foldl (fun best s =>
      if t.panelGraph.panelAt s < t.panelGraph.panelAt best then s else best) b
    best < t.count ∧ ∀ s, s ∈ l ∨ s = b →
      t.panelGraph.panelAt best ≤ t.panelGraph.panelAt s := by
  induction l generalizing b with
  | nil =>
      refine ⟨hb, fun s hs => ?_⟩
      rcases hs with hs | rfl
      · exact nomatch hs
      · exact le_rfl
  | cons q l ih =>
      have hq := hl q List.mem_cons_self
      have hnext : (if t.panelGraph.panelAt q < t.panelGraph.panelAt b then q else b) < t.count := by
        split_ifs
        · exact hq
        · exact hb
      obtain ⟨hlt, hall⟩ := ih (fun s hs => hl s (List.mem_cons_of_mem q hs)) _ hnext
      refine ⟨hlt, fun s hs => ?_⟩
      have hle := hall _ (.inr rfl)
      rw [List.foldl_cons]
      rcases hs with hs | rfl
      · rcases List.mem_cons.mp hs with rfl | hs
        · refine hle.trans ?_
          split_ifs with h
          · exact le_rfl
          · exact not_lt.mp h
        · exact hall s (.inl hs)
      · refine hle.trans ?_
        split_ifs with h
        · exact h.le
        · exact le_rfl

theorem panelAt_lowestSlot : t.panelGraph.panelAt t.panelGraph.lowestSlot = t.lowest ∧
    t.panelGraph.lowestSlot < t.count := by
  have hpos : 0 < t.count := List.length_pos_iff.mpr t.ne_nil
  obtain ⟨hlt, hall⟩ := t.lowestSlot_spec (List.range t.count) (fun s hs => List.mem_range.mp hs) 0
    hpos
  refine ⟨le_antisymm ?_ ?_, hlt⟩
  · obtain ⟨s, hs, hlow⟩ := List.mem_iff_getElem.mp t.lowest_mem
    have hle := hall s (.inl (List.mem_range.mpr hs))
    have hs' := t.panelAt_eq hs
    rw [List.getElem?_eq_getElem hs, Option.some.injEq] at hs'
    rw [← hlow, hs']
    exact hle
  · exact t.lowest_le (List.mem_of_getElem? (t.panelAt_eq hlt))

theorem pickRoot_eq : TopologyIndex.pickRoot t.panelGraph t.logicalRoot = t.root := by
  have hslot : ∀ {p : ℕ}, p ∈ t.panels →
      PanelGraph.slotTable t.panels p = some (t.panels.idxOf p) :=
    fun hp => t.slotTable_eq_some.mpr (List.getElem?_idxOf hp)
  rw [TopologyIndex.pickRoot, root, PanelGraph.slotOf]
  dsimp only [panelGraph]
  by_cases h : t.logicalRoot ∈ t.panels
  · rw [if_pos h, hslot h]
  · rw [if_neg h]
    cases htable : PanelGraph.slotTable t.panels t.logicalRoot with
    | some s => exact absurd (List.mem_of_getElem? (t.slotTable_eq_some.mp htable)) h
    | none =>
        obtain ⟨hlow, hlt⟩ := t.panelAt_lowestSlot
        refine t.slot_unique (p := t.lowest) ?_ (List.getElem?_idxOf t.lowest_mem)
        rw [← hlow]
        exact t.panelAt_eq hlt

end TreeTopology

end Lightnet
