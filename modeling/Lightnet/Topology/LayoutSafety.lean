import Lightnet.Topology.LayoutSearch

/-!
# The layout stays within its tables

A panel is placed without harm unless its parent has more sides than are laid out and the edge
towards the panel is one of those that are not.
-/

namespace Lightnet

open CheckedTable

namespace PanelLayout

section Polygons

variable {F : Type} [Add F] [Mul F] [Div F] [NatCast F] (trig : Trigonometry F)

theorem exists_localVerts {sides : ℕ} (hpos : 0 < sides) (hle : sides ≤ maxSides) :
    ∃ verts, localVerts trig sides = .ok verts ∧ verts.length = maxSides + 1 ∧
      ∀ k ≤ sides, IsSet verts k := by
  have hzero : 0 < (List.replicate (maxSides + 1) (none : Option (F × F))).length :=
    Nat.succ_pos _
  unfold localVerts
  rw [divide_ok _ hpos, ok_bind]
  dsimp only
  rw [write_ok _ hzero, ok_bind]
  let zero : F := ((0 : ℕ) : F)
  have hstart : ((List.replicate (maxSides + 1) none).set 0 (some (zero, zero))).length =
      maxSides + 1 ∧
        ∀ k ≤ 0, IsSet ((List.replicate (maxSides + 1) none).set 0 (some (zero, zero))) k := by
    refine ⟨by rw [List.length_set, List.length_replicate], fun k hk => ?_⟩
    exact (isSet_set hzero).mpr (.inl (Nat.le_zero.mp hk))
  obtain ⟨acc, hloop, hlength, hset⟩ := foldlM_range_ok
    (f := fun (acc : List (Option (F × F)) × F × F) k => do
      let rad := radians trig (((360 : ℕ) : F) / (sides : F) * (k : F))
      let x := acc.2.1 + edgeLen * trig.cosf rad
      let y := acc.2.2 + edgeLen * trig.sinf rad
      let verts ← write acc.1 (k + 1) (x, y)
      pure (verts, x, y))
    (fun m acc => acc.1.length = maxSides + 1 ∧ ∀ k ≤ m, IsSet acc.1 k)
    (b := ((List.replicate (maxSides + 1) none).set 0 (some (zero, zero)), zero, zero))
    sides hstart (by
      rintro m hm acc ⟨hlength, hset⟩
      have hroom : m + 1 < acc.1.length := by omega
      refine ⟨_, bind_eq_ok.mpr ⟨_, write_ok _ hroom, rfl⟩, ?_, fun k hk => ?_⟩
      · rw [List.length_set, hlength]
      · rw [isSet_set hroom]
        rcases Nat.le_succ_iff.mp hk with hk | hk
        · exact .inr (hset k hk)
        · exact .inl hk)
  exact ⟨acc.1, bind_eq_ok.mpr ⟨acc, hloop, rfl⟩, hlength, hset⟩

omit [Mul F] in
theorem exists_centroid {sides : ℕ} {verts : List (Option (F × F))} (hpos : 0 < sides)
    (hset : ∀ k ≤ sides, IsSet verts k) : ∃ c, centroid sides verts = .ok c := by
  obtain ⟨sum, hloop, -⟩ := foldlM_range_ok
    (f := fun (sum : F × F) k => do
      let v ← read verts k
      pure (sum.1 + v.1, sum.2 + v.2))
    (fun _ _ => True) (b := (((0 : ℕ) : F), ((0 : ℕ) : F))) sides trivial (by
      intro k hk sum _
      obtain ⟨v, hv⟩ := exists_read (hset k hk.le)
      exact ⟨_, bind_eq_ok.mpr ⟨v, hv, rfl⟩, trivial⟩)
  have hmean : (do
      let x ← divide sum.1 sides
      let y ← divide sum.2 sides
      pure (x, y)) = Except.ok (sum.1 / (sides : F), sum.2 / (sides : F)) := by
    rw [divide_ok _ hpos, ok_bind, divide_ok _ hpos]
    rfl
  exact ⟨_, bind_eq_ok.mpr ⟨sum, hloop, hmean⟩⟩

end Polygons

theorem clampSides_pos {sides : ℕ} (h : 0 < sides) : 0 < clampSides sides := by
  unfold clampSides maxSides
  split_ifs
  · exact h
  · decide

theorem clampSides_le (sides : ℕ) : clampSides sides ≤ maxSides := by
  unfold clampSides
  split_ifs with h
  · exact h
  · exact le_rfl

/-! ### Side counts -/

/-- Each slot has a side count and none is zero. -/
theorem sideCounts_spec {edgeCounts : List ℕ} {s : ℕ} (hs : s < edgeCounts.length) :
    ∃ n, (sideCounts edgeCounts)[s]? = some (some n) ∧ 0 < n := by
  have hlength : s < (edgeCounts.map fun n => some (if n = 0 then 1 else n)).length := by
    rwa [List.length_map]
  rw [sideCounts, List.getElem?_append_left hlength, List.getElem?_map,
    List.getElem?_eq_getElem hs]
  refine ⟨_, rfl, ?_⟩
  split_ifs with hzero
  · exact Nat.one_pos
  · exact Nat.pos_of_ne_zero hzero

/-- The tables after these slots have been placed. -/
structure Placed {F : Type} (slots : List ℕ) (places : Places F) : Prop where
  transforms_length : places.transforms.length = lightnetMaxPanels
  centroids_length : places.centroids.length = lightnetMaxPanels
  transforms : ∀ s, IsSet places.transforms s ↔ s ∈ slots
  centroids : ∀ s, IsSet places.centroids s ↔ s ∈ slots

theorem placed_empty {F : Type} : Placed [] (Places.empty : Places F) :=
  ⟨List.length_replicate, List.length_replicate,
    fun _ => iff_of_false not_isSet_replicate List.not_mem_nil,
    fun _ => iff_of_false not_isSet_replicate List.not_mem_nil⟩

section Placing

variable {F : Type} [Add F] [Sub F] [Mul F] [Div F] [Neg F] [NatCast F] {trig : Trigonometry F}
  {ec : List (Option ℕ)} {t : Tree} {transforms : List (Option (Transform F))} {s p : ℕ}

theorem exists_applyT (trig : Trigonometry F) (h : IsSet transforms s) (point : F × F) :
    ∃ c, applyT trig transforms s point = .ok c := by
  obtain ⟨transform, hread⟩ := exists_read h
  exact ⟨_, bind_eq_ok.mpr ⟨transform, hread, rfl⟩⟩

/-- The edge towards the panel is one that is laid out, if the parent has it. -/
def EdgeLaidOut (ec : List (Option ℕ)) (t : Tree) (s p : ℕ) : Prop :=
  ∀ n, ec[p]? = some (some n) → t.parentPeerEdge s < n → t.parentPeerEdge s < maxSides

theorem exists_transformOf {sides : ℕ} {verts : List (Option (F × F))} {n : ℕ}
    (hsides : 0 < sides) (hverts : ∀ k ≤ sides, IsSet verts k)
    (hparent : ∀ p, t.parent s = some p → IsSet transforms p ∧ ec[p]? = some (some n) ∧ 0 < n ∧
      EdgeLaidOut ec t s p) :
    ∃ transform, transformOf trig ec t transforms s sides verts = .ok transform := by
  unfold transformOf
  cases hp : t.parent s with
  | none => exact ⟨_, rfl⟩
  | some p =>
      obtain ⟨hset, hn, hpos, hedge⟩ := hparent p hp
      obtain ⟨parentVerts, hlocal, -, hvertices⟩ :=
        exists_localVerts trig (clampSides_pos hpos) (clampSides_le n)
      have hppe : (if n ≤ t.parentPeerEdge s then 0 else t.parentPeerEdge s) < clampSides n := by
        split_ifs with hfar
        · exact clampSides_pos hpos
        · have hlaid := hedge n hn (not_le.mp hfar)
          unfold clampSides
          split_ifs
          · exact not_le.mp hfar
          · exact hlaid
      have hrme : (if sides ≤ t.parentMyEdge s then 0 else t.parentMyEdge s) < sides := by
        split_ifs with hfar
        · exact hsides
        · exact not_le.mp hfar
      obtain ⟨v, hv⟩ := exists_read (hvertices _ hppe.le)
      obtain ⟨w, hw⟩ := exists_read (hvertices _ hppe)
      obtain ⟨rs, hrs⟩ := exists_read (hverts _ hrme.le)
      obtain ⟨re, hre⟩ := exists_read (hverts _ hrme)
      obtain ⟨ps, hps⟩ := exists_applyT trig hset v
      obtain ⟨pe, hpe⟩ := exists_applyT trig hset w
      dsimp only
      rw [read_ok hn, ok_bind, hlocal, ok_bind, hv, ok_bind, hps, ok_bind, hw, ok_bind, hpe,
        ok_bind, hrs, ok_bind, hre, ok_bind]
      exact ⟨_, rfl⟩

/-- A panel that is placed against an edge that is not laid out has read a vertex that there is
not. -/
theorem edgeLaidOut_of_transformOf {sides : ℕ} {verts : List (Option (F × F))}
    {transform : Transform F} {n : ℕ} (hn : ec[p]? = some (some n)) (hpos : 0 < n)
    (hp : t.parent s = some p)
    (h : transformOf trig ec t transforms s sides verts = .ok transform) :
    EdgeLaidOut ec t s p := by
  intro n' hn' hlt
  obtain rfl : n = n' := by
    rw [hn] at hn'
    exact Option.some.inj (Option.some.inj hn')
  obtain ⟨parentVerts, hlocal, hlength, -⟩ :=
    exists_localVerts trig (clampSides_pos hpos) (clampSides_le n)
  unfold transformOf at h
  rw [hp] at h
  dsimp only at h
  rw [read_ok hn, ok_bind, hlocal, ok_bind, if_neg (not_le.mpr hlt)] at h
  obtain ⟨v, -, h⟩ := bind_eq_ok.mp h
  obtain ⟨ps, -, h⟩ := bind_eq_ok.mp h
  obtain ⟨w, hw, -⟩ := bind_eq_ok.mp h
  have hset := (isSet_of_read hw).lt_length
  omega

theorem Placed.place {pre : List ℕ} {places : Places F} (h : Placed pre places) {n : ℕ}
    (hs : s < lightnetMaxPanels) (hn : ec[s]? = some (some n)) (hpos : 0 < n)
    (hparent : ∀ p, t.parent s = some p → p ∈ pre ∧ EdgeLaidOut ec t s p ∧
      ∃ n, ec[p]? = some (some n) ∧ 0 < n) :
    ∃ places', place trig ec t places s = .ok places' ∧ Placed (pre ++ [s]) places' := by
  have hsides := clampSides_pos hpos
  obtain ⟨verts, hlocal, -, hverts⟩ := exists_localVerts trig hsides (clampSides_le n)
  have htransform : ∃ transform,
      transformOf trig ec t places.transforms s (clampSides n) verts = .ok transform := by
    cases hp : t.parent s with
    | none =>
        unfold transformOf
        rw [hp]
        exact ⟨_, rfl⟩
    | some p =>
        obtain ⟨hmem, hedge, m, hm, hmpos⟩ := hparent p hp
        refine exists_transformOf hsides hverts (n := m) fun q hq => ?_
        rw [hp, Option.some.injEq] at hq
        rw [← hq]
        exact ⟨(h.transforms p).mpr hmem, hm, hmpos, hedge⟩
  obtain ⟨transform, htransform⟩ := htransform
  have hroom : s < places.transforms.length := by rw [h.transforms_length]; exact hs
  have hroom' : s < places.centroids.length := by rw [h.centroids_length]; exact hs
  have hset : IsSet (places.transforms.set s (some transform)) s :=
    (isSet_set hroom).mpr (.inl rfl)
  obtain ⟨c, hcentroid⟩ := exists_centroid hsides hverts
  obtain ⟨c', happly⟩ := exists_applyT trig hset c
  refine ⟨⟨places.transforms.set s (some transform), places.centroids.set s (some c')⟩, ?_, ?_⟩
  · unfold PanelLayout.place
    rw [read_ok hn, ok_bind]
    dsimp only
    rw [hlocal, ok_bind, htransform, ok_bind, write_ok _ hroom, ok_bind, hcentroid, ok_bind, happly,
      ok_bind, write_ok _ hroom', ok_bind]
    rfl
  · have hmem (r : ℕ) : r ∈ pre ++ [s] ↔ r = s ∨ r ∈ pre := by
      rw [List.mem_append, List.mem_singleton, or_comm]
    refine ⟨?_, ?_, fun r => ?_, fun r => ?_⟩
    · rw [List.length_set, h.transforms_length]
    · rw [List.length_set, h.centroids_length]
    · rw [isSet_set hroom, h.transforms r, hmem]
    · rw [isSet_set hroom', h.centroids r, hmem]

end Placing

/-! ### The layout of a topology -/

/-- The layout ends without an access outside the tables, to a cell that is not set and without a
division by zero, and places each panel that can be reached from the anchor once. -/
def LaidOut {F : Type} [Add F] [Sub F] [Mul F] [Div F] [Neg F] [NatCast F] (trig : Trigonometry F)
    (topo : RegTopology) : Prop :=
  ∀ g, topo.graph = some g → ∃ t places, bfsParents g (anchorSlot g) = .ok t ∧ t.queue = [] ∧
    layout trig (sideCounts topo.edgeCounts) t = .ok places ∧ t.bfsOrder.Nodup ∧
    (∀ s, s ∈ t.bfsOrder ↔ g.Reached (anchorSlot g) s) ∧
    ∀ s, IsSet places.centroids s ↔ s ∈ t.bfsOrder

/-- A panel that others are entered from does this through edges that are laid out, as far as it
has them. -/
def EdgesLaidOut (topo : RegTopology) : Prop :=
  ∀ g t, topo.graph = some g → bfsParents g (anchorSlot g) = .ok t →
    ∀ s ∈ t.bfsOrder, ∀ p, t.parent s = some p → EdgeLaidOut (sideCounts topo.edgeCounts) t s p

theorem count_graph {panels : List ℕ} {links : List TopoLink} {g : PanelGraph}
    (h : PanelGraph.build panels links = some g) : g.count = panels.length := by
  unfold PanelGraph.build at h
  split_ifs at h
  rw [← Option.some.inj h]
  rfl

/-- Whatever the app sets, the layout is safe as long as no panel is entered through an edge of its
parent that the parent has and that is not laid out. -/
theorem laidOut_iff {F : Type} [Add F] [Sub F] [Mul F] [Div F] [Neg F] [NatCast F]
    (trig : Trigonometry F) (indices : Option (ℕ → ℕ)) (count : ℕ) (links : List TopoLink)
    (edgeCounts : Option (ℕ → ℕ)) :
    LaidOut trig (sceneSetTopology indices count links edgeCounts) ↔
      EdgesLaidOut (sceneSetTopology indices count links edgeCounts) := by
  generalize htopo : sceneSetTopology indices count links edgeCounts = topo
  have hlengths : topo.indices.length = topo.edgeCounts.length := by
    rw [← htopo]
    simp only [sceneSetTopology, List.length_map]
  constructor
  · intro h g t hg ht s hs p hp
    obtain ⟨t', places, ht', -, hlayout, -, hreached, -⟩ := h g hg
    obtain rfl : t = t' := Except.ok.inj (ht.symm.trans ht')
    have hbounded := PanelGraph.build_bounded hg
    obtain ⟨t', ht', hsound, -, -⟩ := exists_bfsParents hbounded hbounded.anchorSlot_lt
    obtain rfl : t = t' := Except.ok.inj (ht.symm.trans ht')
    obtain ⟨pre, post, horder⟩ := List.append_of_mem hs
    have hpmem : p ∈ t.bfsOrder := by
      rw [horder]
      exact List.mem_append_left _ (hsound.parents pre s post horder p hp)
    have hplt : p < topo.edgeCounts.length := by
      rw [← hlengths, ← count_graph hg]
      exact hsound.lt_count p hpmem
    obtain ⟨n, hn, hpos⟩ := sideCounts_spec hplt
    obtain ⟨places₁, places₂, hplace⟩ := exists_ok_of_mem hlayout hs
    unfold place at hplace
    obtain ⟨m, -, hplace⟩ := bind_eq_ok.mp hplace
    obtain ⟨verts, -, hplace⟩ := bind_eq_ok.mp hplace
    obtain ⟨transform, htransform, -⟩ := bind_eq_ok.mp hplace
    exact edgeLaidOut_of_transformOf hn hpos hp htransform
  · intro h g hg
    have hbounded := PanelGraph.build_bounded hg
    obtain ⟨t, ht, hsound, hqueue, hreached⟩ :=
      exists_bfsParents hbounded hbounded.anchorSlot_lt
    have hspec {s : ℕ} (hs : s ∈ t.bfsOrder) :
        ∃ n, (sideCounts topo.edgeCounts)[s]? = some (some n) ∧ 0 < n := by
      apply sideCounts_spec
      rw [← hlengths, ← count_graph hg]
      exact hsound.lt_count s hs
    obtain ⟨places, hlayout, hplaced⟩ := foldlM_ok
      (f := place trig (sideCounts topo.edgeCounts) t) Placed t.bfsOrder placed_empty (by
        intro pre s post places horder hplaced
        have hs : s ∈ t.bfsOrder := by
          rw [horder]
          exact List.mem_append_right pre List.mem_cons_self
        obtain ⟨n, hn, hpos⟩ := hspec hs
        have hlt := (hsound.lt_count s hs).trans_le hbounded.count_le
        refine hplaced.place hlt hn hpos fun p hp => ?_
        have hpmem := hsound.parents pre s post horder p hp
        have hpmem' : p ∈ t.bfsOrder := by
          rw [horder]
          exact List.mem_append_left _ hpmem
        exact ⟨hpmem, h g t hg ht s hs p hp, hspec hpmem'⟩)
    exact ⟨t, places, ht, hqueue, hlayout, hsound.nodup, hreached, hplaced.centroids⟩

/-- It is enough that links are at edges that are laid out. -/
theorem edgesLaidOut_of_neighbors {topo : RegTopology}
    (h : ∀ g, topo.graph = some g → ∀ p, ∀ nb ∈ g.neighbors p, ∀ n,
      (sideCounts topo.edgeCounts)[p]? = some (some n) → nb.myEdge < n → nb.myEdge < maxSides) :
    EdgesLaidOut topo := by
  intro g t hg ht s _ p hp n hn hlt
  have hbounded := PanelGraph.build_bounded hg
  obtain ⟨t', ht', hsound, -, -⟩ := exists_bfsParents hbounded hbounded.anchorSlot_lt
  obtain rfl : t = t' := Except.ok.inj (ht.symm.trans ht')
  obtain ⟨nb, hnb, -, hedge⟩ := hsound.entered s p hp
  rw [hedge] at hlt ⊢
  exact h g hg p nb hnb n hn hlt

/-- A panel with nine sides and a triangle at the last of them. -/
def nonagon : RegTopology :=
  sceneSetTopology (some fun i => i + 1) 2 [⟨1, 8, 2, 0⟩] (some fun i => if i = 0 then 9 else 3)

def noTrigonometry : Trigonometry ℤ := ⟨fun _ => 0, fun _ => 0, fun _ _ => 0, 1⟩

theorem nonagon_not_laidOut : ¬LaidOut noTrigonometry nonagon := by
  intro h
  let g : PanelGraph := ⟨[1, 2], PanelGraph.slotTable [1, 2], fun slot =>
    [⟨1, 8, 2, 0⟩].flatMap (PanelGraph.linkNeighbors (PanelGraph.slotTable [1, 2]) slot)⟩
  obtain ⟨t, places, ht, -, hlayout, -⟩ := h g rfl
  have hbad : (bfsParents g (anchorSlot g) >>=
      layout noTrigonometry (sideCounts nonagon.edgeCounts)) = .error .outOfRange := by
    rfl
  rw [ht, ok_bind, hlayout] at hbad
  cases hbad

end PanelLayout

end Lightnet
