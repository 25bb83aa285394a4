import Lightnet.Relay.IndexOrder

/-!
# Where frames go

The router decides by the edge states and the child indices that discovery left behind. A frame
that is on its way down takes the branch whose interval holds its target, so that it meets only
the panels on the way to the target; a broadcast takes every branch. A frame that is on its way
up takes parent edges only.
-/

namespace Lightnet

namespace Panel

/-! ### The scan for a branch -/

/-- The child edges that the scan looks at, and the indices on record for them. -/
def Offers (p : Panel) (fromEdge target edge : ℕ) : Prop :=
  edge ≠ fromEdge ∧ p.Connected edge ∧ p.discovery.childIndex edge ≤ target

theorem scanBranch_skip {p : Panel} {fromEdge target edge : ℕ} {b : Branch}
    (hindexed : edge ≠ fromEdge → p.Connected edge → p.discovery.childIndex edge ≠ 0)
    (hless : p.Offers fromEdge target edge → p.discovery.childIndex edge ≤ b.bestChildIndex) :
    p.scanBranch fromEdge target b edge = b := by
  unfold scanBranch
  by_cases hskip : edge = fromEdge ∨ p.discovery.isConnected edge = false
  · exact if_pos hskip
  · rw [if_neg hskip]
    rw [not_or, Bool.not_eq_false, isConnected_iff] at hskip
    dsimp only
    rw [if_neg (hindexed hskip.1 hskip.2), if_neg]
    rintro ⟨hle, hlt⟩
    exact absurd (hless ⟨hskip.1, hskip.2, hle⟩) (not_le.mpr hlt)

theorem scanBranch_take {p : Panel} {fromEdge target edge : ℕ} {b : Branch}
    (hoffers : p.Offers fromEdge target edge)
    (hless : b.bestChildIndex < p.discovery.childIndex edge) :
    p.scanBranch fromEdge target b edge =
      { b with bestEdge := some edge, bestChildIndex := p.discovery.childIndex edge } := by
  obtain ⟨hne, hconn, hle⟩ := hoffers
  have hskip : ¬ (edge = fromEdge ∨ p.discovery.isConnected edge = false) := by
    rw [not_or, Bool.not_eq_false, isConnected_iff]
    exact ⟨hne, hconn⟩
  unfold scanBranch
  rw [if_neg hskip]
  dsimp only
  rw [if_neg (by omega), if_pos ⟨hle, hless⟩]

theorem foldl_scanBranch_skip {p : Panel} {fromEdge target : ℕ} {edges : List ℕ} {b : Branch}
    (hindexed : ∀ edge ∈ edges, edge ≠ fromEdge → p.Connected edge →
      p.discovery.childIndex edge ≠ 0)
    (hless : ∀ edge ∈ edges, p.Offers fromEdge target edge →
      p.discovery.childIndex edge ≤ b.bestChildIndex) :
    edges.foldl (p.scanBranch fromEdge target) b = b := by
  induction edges with
  | nil => rfl
  | cons edge edges ih =>
      rw [List.foldl_cons, scanBranch_skip (hindexed edge List.mem_cons_self)
        (hless edge List.mem_cons_self)]
      exact ih (fun edge' hmem => hindexed edge' (List.mem_cons_of_mem edge hmem))
        fun edge' hmem => hless edge' (List.mem_cons_of_mem edge hmem)

/-- The scan settles on the child with the largest index up to the target. -/
theorem foldl_scanBranch_take {p : Panel} {fromEdge target best : ℕ} {edges : List ℕ} {b : Branch}
    (hbest : best ∈ edges) (hoffers : p.Offers fromEdge target best)
    (hindexed : ∀ edge ∈ edges, edge ≠ fromEdge → p.Connected edge →
      p.discovery.childIndex edge ≠ 0)
    (hless : ∀ edge ∈ edges, p.Offers fromEdge target edge → edge ≠ best →
      p.discovery.childIndex edge < p.discovery.childIndex best)
    (hb : b.bestChildIndex < p.discovery.childIndex best) :
    edges.foldl (p.scanBranch fromEdge target) b =
      { b with bestEdge := some best, bestChildIndex := p.discovery.childIndex best } := by
  induction edges generalizing b with
  | nil => cases hbest
  | cons edge edges ih =>
      have hindexed' : ∀ edge' ∈ edges, edge' ≠ fromEdge → p.Connected edge' →
          p.discovery.childIndex edge' ≠ 0 :=
        fun edge' hmem => hindexed edge' (List.mem_cons_of_mem edge hmem)
      have hless' : ∀ edge' ∈ edges, p.Offers fromEdge target edge' → edge' ≠ best →
          p.discovery.childIndex edge' < p.discovery.childIndex best :=
        fun edge' hmem => hless edge' (List.mem_cons_of_mem edge hmem)
      rw [List.foldl_cons]
      by_cases heq : edge = best
      · subst heq
        rw [scanBranch_take hoffers hb]
        refine foldl_scanBranch_skip hindexed' fun edge' hmem hoffers' => ?_
        by_cases hself : edge' = edge
        · rw [hself]
        · exact (hless' edge' hmem hoffers' hself).le
      · have hrest := (List.mem_cons.mp hbest).resolve_left (Ne.symm heq)
        by_cases htake : p.Offers fromEdge target edge ∧
            b.bestChildIndex < p.discovery.childIndex edge
        · rw [scanBranch_take htake.1 htake.2]
          exact ih hrest hindexed' hless' (hless edge List.mem_cons_self htake.1 heq)
        · rw [scanBranch_skip (hindexed edge List.mem_cons_self)
            fun hoffers' => not_lt.mp fun hlt => htake ⟨hoffers', hlt⟩]
          exact ih hrest hindexed' hless' hb

theorem routeDownstream_branch {p : Panel} {fromEdge best : ℕ} {frame : Frame}
    (htarget : frame.targetPanelIndex ≠ 0) (hbest : best < p.discovery.edgeCount)
    (hoffers : p.Offers fromEdge frame.targetPanelIndex best)
    (hindexed : ∀ edge, edge ≠ fromEdge → p.Connected edge → p.discovery.childIndex edge ≠ 0)
    (hless : ∀ edge, p.Offers fromEdge frame.targetPanelIndex edge → edge ≠ best →
      p.discovery.childIndex edge < p.discovery.childIndex best) :
    p.routeDownstream fromEdge frame = [(best, frame)] := by
  have hbranch : p.branch fromEdge frame.targetPanelIndex =
      ⟨some best, p.discovery.childIndex best, true⟩ :=
    foldl_scanBranch_take (List.mem_range.mpr hbest) hoffers (fun edge _ => hindexed edge)
      (fun edge _ => hless edge) (Nat.pos_of_ne_zero (hindexed best hoffers.1 hoffers.2.1))
  unfold routeDownstream
  rw [hbranch]
  exact if_pos ⟨htarget, rfl⟩

/-! ### Relaying -/

theorem relay_down {p : Panel} {e : ℕ} {frame : Frame} (hvia : p.ParentVia e)
    (hpull : frame.isPull = false) (hself : p.addressedToSelf frame = false) :
    p.relay e frame = p.routeDownstream e frame := by
  unfold relay routerOnFrameArrived
  rw [hpull, hself, hvia.1, hvia.2]
  simp

theorem relay_up {p : Panel} {e : ℕ} {frame : Frame} (helse : p.ParentElsewhere e)
    (hconn : p.Connected p.discovery.parentEdge) (hpull : frame.isPull = false)
    (hself : p.addressedToSelf frame = false) :
    p.relay e frame = [(p.discovery.parentEdge, frame)] := by
  unfold relay routerOnFrameArrived
  rw [hpull, hself, helse.1, isConnected_iff.mpr hconn]
  simp [Ne.symm helse.2]

theorem addressedToSelf_eq_false_iff {p : Panel} {frame : Frame} :
    p.addressedToSelf frame = false ↔
      p.assignedIndex = 0 ∨ frame.targetPanelIndex ≠ p.assignedIndex := by
  unfold addressedToSelf
  rw [decide_eq_false_iff_not, not_and_or, not_not]

/-! ### What a panel keeps -/

/-- The parent's edge counts as connected. -/
def ParentConnected (p : Panel) : Prop := ∀ e, p.ParentVia e → p.Connected e

theorem ParentConnected.searches {p p' : Panel} {sends : Sends} (h : p.ParentConnected)
    (hs : Searches p p' sends) : p'.ParentConnected ∧
      p'.discovery.edgeCount = p.discovery.edgeCount := by
  cases hs with
  | probes nowMs hnext => exact ⟨h, rfl⟩
  | finds_none hnext => exact ⟨h, rfl⟩

theorem ParentConnected.failChild {p : Panel} {e : ℕ} (h : p.ParentConnected)
    (helse : p.ParentElsewhere e) : (p.failChild e).ParentConnected := by
  intro e' hvia
  have hne : e' ≠ e := fun heq => helse.2 (hvia.2.trans heq)
  change Function.update p.discovery.edges e .notConnected e' = .connected
  rw [Function.update_of_ne hne]
  exact h e' hvia

theorem ParentConnected.reacts {p p' : Panel} {input : Option (ℕ × Frame)} {sends : Sends}
    (h : p.ParentConnected)
    (hprobing : ∀ e, p.probingEdgeIndex = some e → p.ParentElsewhere e)
    (hr : Reacts p input p' sends) :
    p'.ParentConnected ∧ p'.discovery.edgeCount = p.discovery.edgeCount := by
  cases hr with
  | ignores => exact ⟨h, rfl⟩
  | @adopts e k pe hnew =>
      refine ⟨fun e' hvia => ?_, rfl⟩
      obtain ⟨-, rfl⟩ := hvia
      exact Function.update_self e EdgeLinkState.connected p.discovery.edges
  | confirms hvia => exact ⟨h, rfl⟩
  | @rejects e k pe helse =>
      refine ⟨fun e' hvia => ?_, rfl⟩
      have hne : e' ≠ e := fun heq => helse.2 (hvia.2.trans heq)
      change Function.update p.discovery.edges e .notConnected e' = .connected
      rw [Function.update_of_ne hne]
      exact h e' hvia
  | @accepts e k ce pe he hk =>
      refine ⟨fun e' hvia => ?_, rfl⟩
      have hne : e' ≠ e := fun heq => (hprobing e he).2 (hvia.2.trans heq)
      change Function.update p.discovery.edges e .connected e' = .connected
      rw [Function.update_of_ne hne]
      exact h e' hvia
  | refused he hs => exact (h.failChild (hprobing _ he)).searches hs
  | @advances e t k _ _ ht hidle hs =>
      have hadvance : (p.advanceTo k).ParentConnected := h
      exact hadvance.searches hs
  | retries nowMs he => exact ⟨h, rfl⟩
  | @gives_up e _ _ he hs =>
      have hfail : ParentConnected { p.failChild e with probeAttempts := p.probeAttempts + 1 } :=
        h.failChild (hprobing e he)
      exact hfail.searches hs

end Panel

end Lightnet
