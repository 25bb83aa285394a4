import Lightnet.Relay.LoopFreedom

/-!
# Who hands out which index

A panel hands the index it was told to assign to its edges one by one until a child takes it. The
invariant follows, for every index, the one panel entitled to hand it out: the frontier while the
index is the next one, and the panel that was the frontier when it was registered from then on.

An advance that is repeated after the child's registration was lost on its way up breaks this:
the panel has already given the index away, and gives it to the next edge again.
-/

namespace Lightnet.Fabric

open Panel

variable {P : Type*} {W : Wiring P}

/-- Panels reached from the controller over connected edges. -/
inductive OnTree (W : Wiring P) (s : Fabric P) : P → Prop
  | trunk {r : P} {e : ℕ} : W.cable .trunk = some (.edge r e) →
      (s.panels r).discovery.isConnected e = true → OnTree W s r
  | across {p q : P} {e f : ℕ} : OnTree W s p → (s.panels p).discovery.isConnected e = true →
      W.cable (.edge p e) = some (.edge q f) → OnTree W s q

/-! ### The invariant -/

structure ChildLink (W : Wiring P) (s : Fabric P) (p : P) (e : ℕ) (q : P) (f : ℕ) : Prop where
  connected : (s.panels p).Connected e
  elsewhere : (s.panels p).ParentElsewhere e
  cable : W.cable (.edge p e) = some (.edge q f)

/-- Panels reached from the controller from parent to child. -/
inductive Linked (W : Wiring P) (s : Fabric P) : P → Prop
  | root {r : P} {e : ℕ} : W.cable .trunk = some (.edge r e) → (s.panels r).ParentVia e →
      Linked W s r
  | child {p q : P} {e f : ℕ} : Linked W s p → ChildLink W s p e q f → Linked W s q

def Finished (p : Panel) : Prop := p.probingEdgeIndex = none ∧ p.nextEdge = none

def ChildrenBelow (p : Panel) (k : ℕ) : Prop :=
  ∀ e, p.Connected e → p.ParentElsewhere e → p.discovery.childIndex e < k

/-- The panel may give its pending index to a child. -/
structure HandsOut (W : Wiring P) (s : Fabric P) (owner : ℕ → ℕ) (p : P) (panel : Panel) :
    Prop where
  linked : Linked W s p
  two_le : 2 ≤ panel.pendingAssignIndex
  le_next : panel.pendingAssignIndex ≤ s.coordinator.nextPanelIndex
  owns : panel.assignedIndex = owner panel.pendingAssignIndex
  below : ChildrenBelow panel panel.pendingAssignIndex

/-- The subtree of this index is done, and so is the panel that holds it. -/
def DoneBelow (W : Wiring P) (s : Fabric P) (t : ℕ) : Prop :=
  ∃ p, Linked W s p ∧ (s.panels p).assignedIndex = t ∧ Finished (s.panels p) ∧
    ChildrenBelow (s.panels p) s.coordinator.nextPanelIndex

/-- What may be on its way to a port, as far as indices go. -/
def FrameIndexed (W : Wiring P) (s : Fabric P) (owner : ℕ → ℕ) (port : Port P) : Frame → Prop
  | .initializationPull k _ =>
    (W.cable port = some .trunk → k = 1) ∧ ∀ p e, W.cable port = some (.edge p e) →
      Linked W s p ∧ 2 ≤ k ∧ k ≤ s.coordinator.nextPanelIndex
  | .registerEdge k _ _ => k ≠ 0 → ∀ q f, W.cable port = some (.edge q f) →
      Linked W s q ∨ k = (s.panels q).assignedIndex
  | .discoveryAdvance t k =>
    (W.cable port = some .trunk ∨ ∃ p e q f, port = .edge q f ∧ Linked W s p ∧
      ChildLink W s p e q f) ∧
    2 ≤ k ∧ k ≤ s.coordinator.nextPanelIndex ∧
      (t = owner k ∨ DoneBelow W s t)
  | .discoveryDone t => DoneBelow W s t
  | .other _ _ _ => True

structure Indexed (W : Wiring P) (s : Fabric P) (owner : ℕ → ℕ) : Prop where
  walk : s.coordinator.frontierPanelIndex = 0 ∧ s.coordinator.nextPanelIndex = 1 ∨
    s.coordinator.frontierPanelIndex ≠ 0 ∧ 2 ≤ s.coordinator.nextPanelIndex
  owner_next : owner s.coordinator.nextPanelIndex = s.coordinator.frontierPanelIndex
  index_ne_zero : ∀ p e, (s.panels p).ParentVia e → (s.panels p).assignedIndex ≠ 0
  root_index : ∀ r e, W.cable .trunk = some (.edge r e) → (s.panels r).ParentVia e →
    (s.panels r).assignedIndex = 1
  parent_linked : ∀ p e q f, W.cable (.edge p e) = some (.edge q f) →
    (s.panels q).ParentVia f → Linked W s p
  child : ∀ p e, (s.panels p).Connected e → (s.panels p).ParentElsewhere e →
    2 ≤ (s.panels p).discovery.childIndex e ∧
      (s.panels p).discovery.childIndex e ≤ s.coordinator.nextPanelIndex ∧
      (s.panels p).assignedIndex = owner ((s.panels p).discovery.childIndex e)
  child_index : ∀ p e q f, ChildLink W s p e q f →
    (s.panels p).discovery.childIndex e = (s.panels q).assignedIndex
  unique : ∀ p q, Linked W s p → Linked W s q →
    (s.panels p).assignedIndex = (s.panels q).assignedIndex → p = q
  probing : ∀ p e, (s.panels p).probingEdgeIndex = some e →
    ¬ (s.panels p).Connected e ∧ HandsOut W s owner p (s.panels p)
  offered : ∀ p e q f, W.cable (.edge p e) = some (.edge q f) →
    (s.panels p).probingEdgeIndex = some e → (s.panels q).ParentVia f →
    (s.panels q).assignedIndex = (s.panels p).pendingAssignIndex
  offering : ∀ p e q f, W.cable (.edge p e) = some (.edge q f) →
    (s.panels p).probingEdgeIndex = some e →
    ∀ k pe, (.edge q f, .initializationPull k pe) ∈ s.inFlight →
      k = (s.panels p).pendingAssignIndex
  untouched : ∀ p e q f, W.cable (.edge p e) = some (.edge q f) →
    (s.panels p).discovery.edges e = .unexplored → (s.panels p).probingEdgeIndex ≠ some e →
    ¬ (s.panels q).ParentVia f ∧ ∀ k pe, (.edge q f, .initializationPull k pe) ∉ s.inFlight
  frames : ∀ x ∈ s.inFlight, FrameIndexed W s owner x.1 x.2

/-! ### What the invariant says -/

theorem ChildLink.parentVia {s : Fabric P} {rank : P → ℕ} (hs : Sound W s rank) {p q : P}
    {e f : ℕ} (h : ChildLink W s p e q f) : (s.panels q).ParentVia f := by
  obtain ⟨q', f', hcable, hvia⟩ :=
    hs.claimed_of_connected h.connected fun hvia => hvia.not_elsewhere h.elsewhere
  rw [h.cable] at hcable
  cases hcable
  exact hvia

theorem Linked.hasParent {s : Fabric P} {rank : P → ℕ} (hs : Sound W s rank) {p : P}
    (h : Linked W s p) : ∃ e, (s.panels p).ParentVia e := by
  cases h with
  | root _ hvia => exact ⟨_, hvia⟩
  | child _ hlink => exact ⟨_, hlink.parentVia hs⟩

/-- A linked panel's parent counts it among its connected children. -/
theorem Linked.childLink {s : Fabric P} {rank : P → ℕ} (hs : Sound W s rank) {p q : P} {e f : ℕ}
    (hq : Linked W s q) (hcable : W.cable (.edge p e) = some (.edge q f))
    (hvia : (s.panels q).ParentVia f) : ChildLink W s p e q f := by
  cases hq with
  | root htrunk hroot =>
      obtain rfl := hroot.eq hvia
      have := (W.cable_symm htrunk).symm.trans (W.cable_symm hcable)
      cases this
  | child _ hlink =>
      obtain rfl := (hlink.parentVia hs).eq hvia
      have := (W.cable_symm hlink.cable).symm.trans (W.cable_symm hcable)
      cases this
      exact hlink

theorem Indexed.linked_of_onTree {s : Fabric P} {rank : P → ℕ} {owner : ℕ → ℕ}
    (hs : Sound W s rank) (h : Indexed W s owner) {p : P} (hp : OnTree W s p) : Linked W s p := by
  induction hp with
  | @trunk r e htrunk hconn =>
      rcases hs.connected r e (isConnected_iff.mp hconn) with hvia | ⟨q, f, hcable, -⟩
      · exact .root htrunk hvia
      · rw [W.cable_symm htrunk] at hcable
        cases hcable
  | @across p q e f _ hconn hcable ih =>
      have hc : (s.panels p).Connected e := isConnected_iff.mp hconn
      obtain ⟨e₀, hvia⟩ := ih.hasParent hs
      rcases parentVia_or_elsewhere hvia.1 e with hup | helse
      · exact h.parent_linked q f p e (W.cable_symm hcable) hup
      · exact .child ih ⟨hc, helse, hcable⟩

/-! ### What a step keeps -/

theorem Linked.mono {s s' : Fabric P}
    (hlink : ∀ p e q f, ChildLink W s p e q f → ChildLink W s' p e q f)
    (hvia : ∀ q f, (s.panels q).ParentVia f → (s'.panels q).ParentVia f) {p : P}
    (h : Linked W s p) : Linked W s' p := by
  induction h with
  | root htrunk hr => exact .root htrunk (hvia _ _ hr)
  | child _ hl ih => exact .child ih (hlink _ _ _ _ hl)

theorem ChildLink.of_panels {s s' : Fabric P} (hpanels : s'.panels = s.panels) {p q : P} {e f : ℕ}
    (h : ChildLink W s p e q f) : ChildLink W s' p e q f :=
  ⟨hpanels ▸ h.connected, hpanels ▸ h.elsewhere, h.cable⟩

theorem Linked.of_panels {s s' : Fabric P} (hpanels : s'.panels = s.panels) {p : P}
    (h : Linked W s p) : Linked W s' p :=
  h.mono (fun _ _ _ _ => ChildLink.of_panels hpanels) fun _ _ hvia => hpanels ▸ hvia

/-- What a step keeps of the parts that frames in flight depend on. -/
structure Keeps (W : Wiring P) (s s' : Fabric P) (owner owner' : ℕ → ℕ) : Prop where
  link : ∀ p e q f, ChildLink W s p e q f → ChildLink W s' p e q f
  via : ∀ q f, (s.panels q).ParentVia f → (s'.panels q).ParentVia f
  index : ∀ q f, (s.panels q).ParentVia f →
    (s'.panels q).assignedIndex = (s.panels q).assignedIndex
  finished : ∀ q f k, (s.panels q).ParentVia f → Finished (s.panels q) →
    ChildrenBelow (s.panels q) k →
    Finished (s'.panels q) ∧ ChildrenBelow (s'.panels q) k
  next_le : s.coordinator.nextPanelIndex ≤ s'.coordinator.nextPanelIndex
  owner : ∀ k, k ≤ s.coordinator.nextPanelIndex →
    owner' k = owner k ∨ k = s.coordinator.nextPanelIndex ∧ DoneBelow W s (owner k)

theorem ChildrenBelow.mono {p : Panel} {k k' : ℕ} (h : ChildrenBelow p k) (hk : k ≤ k') :
    ChildrenBelow p k' := fun e hc he => (h e hc he).trans_le hk

theorem Keeps.doneBelow {s s' : Fabric P} {owner owner' : ℕ → ℕ} {rank : P → ℕ}
    (hs : Sound W s rank) (hk : Keeps W s s' owner owner') {t : ℕ} (h : DoneBelow W s t) :
    DoneBelow W s' t := by
  obtain ⟨p, hp, ht, hfin, hbelow⟩ := h
  obtain ⟨e, hvia⟩ := hp.hasParent hs
  obtain ⟨hfin', hbelow'⟩ := hk.finished p e _ hvia hfin hbelow
  exact ⟨p, hp.mono hk.link hk.via, (hk.index p e hvia).trans ht, hfin',
    hbelow'.mono hk.next_le⟩

theorem Keeps.frameIndexed {s s' : Fabric P} {owner owner' : ℕ → ℕ} {rank : P → ℕ}
    (hs : Sound W s rank) (hk : Keeps W s s' owner owner') {port : Port P} {frame : Frame}
    (h : FrameIndexed W s owner port frame) :
    FrameIndexed W s' owner' port frame := by
  cases frame with
  | initializationPull k pe =>
      refine ⟨h.1, fun p e hcable => ?_⟩
      obtain ⟨hp, htwo, hle⟩ := h.2 p e hcable
      exact ⟨hp.mono hk.link hk.via, htwo, hle.trans hk.next_le⟩
  | registerEdge k ce pe =>
      intro hne q f hcable
      rcases h hne q f hcable with hq | hq
      · exact Or.inl (hq.mono hk.link hk.via)
      · have hparent := hs.assigned q (hq ▸ hne)
        exact Or.inr (hq.trans (hk.index q _ ⟨hparent, rfl⟩).symm)
  | discoveryAdvance t k =>
      obtain ⟨hdown, htwo, hle, howner⟩ := h
      refine ⟨?_, htwo, hle.trans hk.next_le, ?_⟩
      · rcases hdown with htrunk | ⟨p, e, q, f, rfl, hp, hlink⟩
        · exact Or.inl htrunk
        · exact Or.inr ⟨p, e, q, f, rfl, hp.mono hk.link hk.via, hk.link _ _ _ _ hlink⟩
      · rcases howner with rfl | hdone
        · exact (hk.owner k hle).imp Eq.symm fun hdone => hk.doneBelow hs hdone.2
        · exact Or.inr (hk.doneBelow hs hdone)
  | discoveryDone t => exact hk.doneBelow hs h
  | other type t payload => trivial

theorem Indexed.of_subset {s s' : Fabric P} {rank : P → ℕ} {owner : ℕ → ℕ} (hs : Sound W s rank)
    (h : Indexed W s owner) (hpanels : s'.panels = s.panels)
    (hcoordinator : s'.coordinator = s.coordinator)
    (hflight : ∀ x ∈ s'.inFlight, x ∈ s.inFlight) : Indexed W s' owner := by
  obtain ⟨clock, coordinator, panels, inFlight⟩ := s
  obtain ⟨clock', coordinator', panels', inFlight'⟩ := s'
  dsimp only at hpanels hcoordinator hflight
  subst hpanels hcoordinator
  have hkeeps : Keeps W ⟨clock, coordinator', panels', inFlight⟩
      ⟨clock', coordinator', panels', inFlight'⟩ owner owner :=
    ⟨fun _ _ _ _ hl => hl.of_panels (by rfl), fun _ _ hvia => hvia, fun _ _ _ => rfl,
      fun _ _ _ _ hfin hb => ⟨hfin, hb⟩, le_rfl, fun _ _ => Or.inl rfl⟩
  refine ⟨h.walk, h.owner_next, h.index_ne_zero, h.root_index, ?_, h.child, ?_, ?_, ?_,
    h.offered, ?_, ?_, fun x hx => hkeeps.frameIndexed hs (h.frames x (hflight x hx))⟩
  · intro p e q f hcable hq
    exact (h.parent_linked p e q f hcable hq).of_panels (by rfl)
  · intro p e q f hl
    exact h.child_index p e q f (hl.of_panels (by rfl))
  · intro p q hp hq
    exact h.unique p q (hp.of_panels (by rfl)) (hq.of_panels (by rfl))
  · intro p e hprobing
    obtain ⟨hconn, hhands⟩ := h.probing p e hprobing
    exact ⟨hconn, hhands.linked.of_panels (by rfl), hhands.two_le, hhands.le_next, hhands.owns,
      hhands.below⟩
  · intro p e q f hcable hprobing k pe hmem
    exact h.offering p e q f hcable hprobing k pe (hflight _ hmem)
  · intro p e q f hcable hunexplored hprobing
    obtain ⟨hvia, hnone⟩ := h.untouched p e q f hcable hunexplored hprobing
    exact ⟨hvia, fun k pe hmem => hnone k pe (hflight _ hmem)⟩

/-! ### The coordinator -/

theorem Indexed.putCoordinator_of {s : Fabric P} {rank : P → ℕ} {owner owner' : ℕ → ℕ}
    (hs : Sound W s rank) (h : Indexed W s owner) {c : DiscoveryCoordinator}
    {frames : List Frame}
    (hwalk : c.frontierPanelIndex = 0 ∧ c.nextPanelIndex = 1 ∨
      c.frontierPanelIndex ≠ 0 ∧ 2 ≤ c.nextPanelIndex)
    (howner_next : owner' c.nextPanelIndex = c.frontierPanelIndex)
    (hnext : s.coordinator.nextPanelIndex ≤ c.nextPanelIndex)
    (howner : ∀ k, k ≤ s.coordinator.nextPanelIndex → owner' k = owner k ∨
      k = s.coordinator.nextPanelIndex ∧ DoneBelow W s (owner k))
    (hframes : ∀ f ∈ frames, ∀ port, W.cable .trunk = some port →
      FrameIndexed W (s.putCoordinator W (c, frames)) owner' port f) :
    Indexed W (s.putCoordinator W (c, frames)) owner' := by
  have hkeeps : Keeps W s (s.putCoordinator W (c, frames)) owner owner' :=
    ⟨fun _ _ _ _ hl => hl.of_panels (by rfl), fun _ _ hvia => hvia, fun _ _ _ => rfl,
      fun _ _ _ _ hfin hb => ⟨hfin, hb⟩, hnext, howner⟩
  have hpull : ∀ {p e q f k pe}, W.cable (.edge p e) = some (.edge q f) →
      (.edge q f, .initializationPull k pe) ∈ (s.putCoordinator W (c, frames)).inFlight →
      (.edge q f, .initializationPull k pe) ∈ s.inFlight := by
    intro p e q f k pe hcable hmem
    rw [putCoordinator_inFlight] at hmem
    rcases List.mem_append.mp hmem with hmem | hmem
    · exact hmem
    · have := (W.cable_symm hcable).symm.trans (W.cable_symm (mem_sendTrunk.mp hmem).2)
      cases this
  refine ⟨hwalk, howner_next, h.index_ne_zero, h.root_index, ?_, ?_, ?_, ?_, ?_, h.offered, ?_, ?_,
    ?_⟩
  · intro p e q f hcable hq
    exact (h.parent_linked p e q f hcable hq).of_panels (by rfl)
  · intro p e hc he
    obtain ⟨htwo, hle, howns⟩ := h.child p e hc he
    refine ⟨htwo, hle.trans hnext, ?_⟩
    rcases howner _ hle with hsame | ⟨hk, q, hq, hindex, -, hbelow⟩
    · exact howns.trans hsame.symm
    · -- The frontier that is done has no child with the next index.
      obtain ⟨p', f, hcable, hvia⟩ :=
        hs.claimed_of_connected hc fun hvia => hvia.not_elsewhere he
      have hp := h.parent_linked p e p' f hcable hvia
      obtain rfl := h.unique q p hq hp (hindex.trans howns.symm)
      have := hbelow e hc he
      omega
  · intro p e q f hl
    exact h.child_index p e q f (hl.of_panels (by rfl))
  · intro p q hp hq
    exact h.unique p q (hp.of_panels (by rfl)) (hq.of_panels (by rfl))
  · intro p e hprobing
    obtain ⟨hconn, hhands⟩ := h.probing p e hprobing
    refine ⟨hconn, hhands.linked.of_panels (by rfl), hhands.two_le, hhands.le_next.trans hnext, ?_,
      hhands.below⟩
    rcases howner _ hhands.le_next with hsame | ⟨-, q, hq, hindex, hfin, -⟩
    · exact hhands.owns.trans hsame.symm
    · obtain rfl := h.unique q p hq hhands.linked (hindex.trans hhands.owns.symm)
      have hnone := hfin.1
      rw [putCoordinator_panels] at hprobing
      rw [hnone] at hprobing
      cases hprobing
  · intro p e q f hcable hprobing k pe hmem
    exact h.offering p e q f hcable hprobing k pe (hpull hcable hmem)
  · intro p e q f hcable hunexplored hprobing
    obtain ⟨hvia, hnone⟩ := h.untouched p e q f hcable hunexplored hprobing
    exact ⟨hvia, fun k pe hmem => hnone k pe (hpull hcable hmem)⟩
  · intro x hx
    rw [putCoordinator_inFlight] at hx
    rcases List.mem_append.mp hx with hx | hx
    · exact hkeeps.frameIndexed hs (h.frames x hx)
    · obtain ⟨hmem, hcable⟩ := mem_sendTrunk.mp hx
      exact hframes _ hmem _ hcable

/-- How the owners change with the coordinator: only the next index changes hands. -/
inductive OwnerMoves (c c' : DiscoveryCoordinator) (owner : ℕ → ℕ) : (ℕ → ℕ) → Prop
  | stays : c.SameWalk c' → OwnerMoves c c' owner owner
  | registers : c'.nextPanelIndex = c.nextPanelIndex + 1 →
      c'.frontierPanelIndex = c.nextPanelIndex → c'.stack = c.frontierPanelIndex :: c.stack →
      OwnerMoves c c' owner (Function.update owner (c.nextPanelIndex + 1) c.nextPanelIndex)
  | resumes {t : ℕ} : t ≠ 0 → c.stack = t :: c'.stack → c'.nextPanelIndex = c.nextPanelIndex →
      c'.frontierPanelIndex = t → OwnerMoves c c' owner (Function.update owner c.nextPanelIndex t)
  | finishes : c.stack = 0 :: c'.stack → c'.nextPanelIndex = c.nextPanelIndex →
      c'.frontierPanelIndex = c.frontierPanelIndex → OwnerMoves c c' owner owner

theorem Indexed.coordinator_moves {s : Fabric P} {rank : P → ℕ} {owner : ℕ → ℕ}
    (hs : Sound W s rank) (h : Indexed W s owner) {input : Option Frame}
    {c : DiscoveryCoordinator} {frames : List Frame} (hr : s.coordinator.Reacts input c frames)
    (hin : ∀ f ∈ input, (.trunk, f) ∈ s.inFlight) :
    ∃ owner', OwnerMoves s.coordinator c owner owner' ∧
      Indexed W (s.putCoordinator W (c, frames)) owner' := by
  cases hr with
  | waits _ hsame =>
      have hmoves : OwnerMoves s.coordinator c owner owner := .stays hsame
      obtain ⟨hnext, hfrontier, -⟩ := hsame
      refine ⟨owner, hmoves, h.putCoordinator_of hs ?_ ?_ hnext.ge (fun _ _ => Or.inl rfl) ?_⟩
      · rw [hnext, hfrontier]
        exact h.walk
      · rw [hnext, hfrontier]
        exact h.owner_next
      · intro f hf
        cases hf
  | @registers e pe _ hne hmax hnext hfrontier hstack =>
      refine ⟨Function.update owner (s.coordinator.nextPanelIndex + 1) s.coordinator.nextPanelIndex,
        .registers hnext hfrontier hstack, h.putCoordinator_of hs ?_ ?_ (by omega) ?_ ?_⟩
      · rw [hnext, hfrontier]
        exact Or.inr ⟨hne, by omega⟩
      · rw [hnext, hfrontier, Function.update_self]
      · intro k hk
        exact Or.inl (Function.update_of_ne (by omega) _ _)
      · intro f hf port hport
        cases List.mem_singleton.mp hf
        refine ⟨Or.inl (W.cable_symm hport), by omega, hnext.ge, Or.inl ?_⟩
        rw [Function.update_self]
  | @resumes t _ ht hstack hnext hfrontier =>
      have hdone : DoneBelow W s s.coordinator.frontierPanelIndex := h.frames _ (hin _ rfl)
      have htwo : 2 ≤ s.coordinator.nextPanelIndex := by
        obtain ⟨p, hp, hindex, -⟩ := hdone
        obtain ⟨e, hvia⟩ := hp.hasParent hs
        rcases h.walk with ⟨hzero, -⟩ | ⟨-, htwo⟩
        · exact absurd (hindex.trans hzero) (h.index_ne_zero p e hvia)
        · exact htwo
      refine ⟨Function.update owner s.coordinator.nextPanelIndex t,
        .resumes ht hstack hnext hfrontier, h.putCoordinator_of hs ?_ ?_ hnext.ge ?_ ?_⟩
      · rw [hnext, hfrontier]
        exact Or.inr ⟨ht, htwo⟩
      · rw [hnext, hfrontier, Function.update_self]
      · intro k hk
        by_cases heq : k = s.coordinator.nextPanelIndex
        · rw [heq, h.owner_next]
          exact Or.inr ⟨rfl, hdone⟩
        · exact Or.inl (Function.update_of_ne heq _ _)
      · intro f hf port hport
        cases List.mem_singleton.mp hf
        refine ⟨Or.inl (W.cable_symm hport), htwo, hnext.ge, Or.inl ?_⟩
        rw [Function.update_self]
  | finishes hstack hnext hfrontier =>
      refine ⟨owner, .finishes hstack hnext hfrontier,
        h.putCoordinator_of hs ?_ ?_ hnext.ge (fun _ _ => Or.inl rfl) ?_⟩
      · rw [hnext, hfrontier]
        exact h.walk
      · rw [hnext, hfrontier]
        exact h.owner_next
      · intro f hf
        cases hf
  | offers hzero hsame =>
      have hmoves : OwnerMoves s.coordinator c owner owner := .stays hsame
      obtain ⟨hnext, hfrontier, -⟩ := hsame
      refine ⟨owner, hmoves, h.putCoordinator_of hs ?_ ?_ hnext.ge (fun _ _ => Or.inl rfl) ?_⟩
      · rw [hnext, hfrontier]
        exact h.walk
      · rw [hnext, hfrontier]
        exact h.owner_next
      · intro f hf port hport
        cases List.mem_singleton.mp hf
        have hone : s.coordinator.nextPanelIndex = 1 := by
          rcases h.walk with ⟨-, hone⟩ | ⟨hne, -⟩
          · exact hone
          · exact absurd hzero hne
        refine ⟨fun _ => hone, fun p e hcable => ?_⟩
        rw [W.cable_symm hport] at hcable
        cases hcable
  | advances hne hsame =>
      have hmoves : OwnerMoves s.coordinator c owner owner := .stays hsame
      obtain ⟨hnext, hfrontier, -⟩ := hsame
      refine ⟨owner, hmoves, h.putCoordinator_of hs ?_ ?_ hnext.ge (fun _ _ => Or.inl rfl) ?_⟩
      · rw [hnext, hfrontier]
        exact h.walk
      · rw [hnext, hfrontier]
        exact h.owner_next
      · intro f hf port hport
        cases List.mem_singleton.mp hf
        have htwo : 2 ≤ s.coordinator.nextPanelIndex := by
          rcases h.walk with ⟨hzero, -⟩ | ⟨-, htwo⟩
          · exact absurd hzero hne
          · exact htwo
        exact ⟨Or.inl (W.cable_symm hport), htwo, hnext.ge, Or.inl h.owner_next.symm⟩

/-! ### Panel steps that link no new panel -/

/-- What a panel may put on an edge: something that may be in flight already, a probe of its
pending index, or the report that it is done. -/
def SendIndexed (W : Wiring P) (s : Fabric P) (owner : ℕ → ℕ) (p : P) (p' : Panel) (e : ℕ)
    (frame : Frame) : Prop :=
  (frame.isPull = false ∧
    ∀ port, W.cable (.edge p e) = some port → FrameIndexed W s owner port frame) ∨
  (p'.probingEdgeIndex = some e ∧ ∃ pe, frame = .initializationPull p'.pendingAssignIndex pe) ∨
  (frame = .discoveryDone p'.assignedIndex ∧ Linked W s p ∧ Finished p' ∧
    ChildrenBelow p' s.coordinator.nextPanelIndex)

/-- How a panel may change when it neither takes a parent nor accepts a child. -/
structure Steady (W : Wiring P) (s : Fabric P) (owner : ℕ → ℕ) (p : P) (p' : Panel) : Prop where
  via : ∀ e, p'.ParentVia e ↔ (s.panels p).ParentVia e
  index : p'.assignedIndex = (s.panels p).assignedIndex
  connected : ∀ e, p'.Connected e → (s.panels p).Connected e
  kept : ∀ e, (s.panels p).Connected e → (s.panels p).ParentElsewhere e →
    p'.Connected e ∧ p'.discovery.childIndex e = (s.panels p).discovery.childIndex e
  unexplored : ∀ e, p'.discovery.edges e = .unexplored →
    (s.panels p).discovery.edges e = .unexplored ∧
      ((s.panels p).probingEdgeIndex = some e → p'.probingEdgeIndex = some e)
  finished : Finished (s.panels p) → Finished p'
  probing : ∀ e, p'.probingEdgeIndex = some e → HandsOut W s owner p p' ∧
    ((s.panels p).probingEdgeIndex = some e ∧
        p'.pendingAssignIndex = (s.panels p).pendingAssignIndex ∨
      (s.panels p).probingEdgeIndex ≠ some e ∧
        (s.panels p).discovery.edges e = .unexplored)

theorem Steady.elsewhere {s : Fabric P} {owner : ℕ → ℕ} {p : P} {p' : Panel}
    (h : Steady W s owner p p') (e : ℕ) :
    p'.ParentElsewhere e ↔ (s.panels p).ParentElsewhere e := by
  constructor
  · rintro ⟨hparent, hne⟩
    have := (h.via _).mp ⟨hparent, rfl⟩
    exact ⟨this.1, this.2.trans_ne hne⟩
  · rintro ⟨hparent, hne⟩
    have := (h.via _).mpr ⟨hparent, rfl⟩
    exact ⟨this.1, this.2.trans_ne hne⟩

theorem Steady.childrenBelow {s : Fabric P} {owner : ℕ → ℕ} {p : P} {p' : Panel}
    (h : Steady W s owner p p') {k : ℕ} (hb : ChildrenBelow (s.panels p) k) :
    ChildrenBelow p' k := by
  intro e hc he
  have hold := h.connected e hc
  have helse := (h.elsewhere e).mp he
  rw [(h.kept e hold helse).2]
  exact hb e hold helse

/-- A probe put on an edge goes to the port across it, and is of the pending index. -/
theorem pull_mem_sends {s : Fabric P} {owner : ℕ → ℕ} {p p₀ : P} {p' : Panel} {sends : Sends}
    (hsends : ∀ x ∈ sends, SendIndexed W s owner p p' x.1 x.2) {e f : ℕ} {q : P} {k pe : ℕ}
    (hcable : W.cable (.edge p₀ e) = some (.edge q f))
    (hmem : (.edge q f, .initializationPull k pe) ∈ sendAll W p sends) :
    p₀ = p ∧ p'.probingEdgeIndex = some e ∧ k = p'.pendingAssignIndex := by
  obtain ⟨e', hmem', hcable'⟩ := mem_sendAll.mp hmem
  have := (W.cable_symm hcable).symm.trans (W.cable_symm hcable')
  cases this
  rcases hsends _ hmem' with ⟨hpull, -⟩ | ⟨hprobing, pe', heq⟩ | ⟨heq, -⟩
  · cases hpull
  · cases heq
    exact ⟨rfl, hprobing, rfl⟩
  · cases heq

/-- A panel without a parent has no children either. -/
theorem Sound.not_connected {s : Fabric P} {rank : P → ℕ} (hs : Sound W s rank) {p : P}
    (hnew : (s.panels p).discovery.hasParent = false) (e : ℕ) : ¬ (s.panels p).Connected e := by
  intro hc
  rcases hs.connected p e hc with hvia | ⟨q, f, hcable, hvia⟩
  · rw [hvia.1] at hnew
    cases hnew
  · rcases hs.parent q f hvia with htrunk | ⟨p', e', hcable', helse, -⟩
    · rw [W.cable_symm hcable] at htrunk
      cases htrunk
    · rw [W.cable_symm hcable] at hcable'
      cases hcable'
      rw [helse.1] at hnew
      cases hnew

/-! ### What reaches a panel -/

/-- An advance reaches a panel that has a parent through that parent. -/
theorem Sound.linked_of_advance {s : Fabric P} {rank : P → ℕ} {owner : ℕ → ℕ}
    (hs : Sound W s rank) {p : P} {e t k : ℕ}
    (hparent : (s.panels p).discovery.hasParent = true)
    (hin : FrameIndexed W s owner (.edge p e) (.discoveryAdvance t k)) :
    Linked W s p ∧ (s.panels p).ParentVia e := by
  obtain ⟨htrunk | ⟨q, f, p', e', heq, hq, hl⟩, -⟩ := hin
  · obtain ⟨r, f, hcable, hr⟩ := hs.root_adopted (p := p) ⟨hparent, rfl⟩
    rw [W.cable_symm htrunk] at hcable
    cases hcable
    exact ⟨.root (W.cable_symm htrunk) hr, hr⟩
  · cases heq
    exact ⟨.child hq hl, hl.parentVia hs⟩

/-- What may arrive may be passed on. -/
theorem Indexed.relay {s : Fabric P} {rank : P → ℕ} {owner : ℕ → ℕ} (hs : Sound W s rank)
    (h : Indexed W s owner) {p : P} {e : ℕ} {frame : Frame}
    (hmem : (.edge p e, frame) ∈ s.inFlight) :
    ∀ x ∈ (s.panels p).relay e frame, x.2.isPull = false ∧
      ∀ port, W.cable (.edge p x.1) = some port → FrameIndexed W s owner port x.2 := by
  rintro ⟨e', frame'⟩ hx
  obtain ⟨rfl, hpull, hroute⟩ := mem_relay hx
  refine ⟨hpull, fun port hport => ?_⟩
  have hin := h.frames _ hmem
  have hsound := hs.frames _ hmem
  dsimp only at hport hin hsound ⊢
  cases frame' with
  | initializationPull k pe => cases hpull
  | registerEdge k ce pe =>
      intro hk q f hcable
      rw [W.cable_symm hport] at hcable
      cases hcable
      obtain ⟨q', f', hcable', hvia⟩ := hsound hk
      exact Or.inl (h.parent_linked p e q' f' hcable' hvia)
  | discoveryAdvance t k =>
      rcases hroute with ⟨helse, -⟩ | ⟨hvia, helse, hconn⟩
      · exact absurd helse (hs.linked_of_advance helse.1 hin).2.not_elsewhere
      · obtain ⟨q, f, hcable, -⟩ :=
          hs.claimed_of_connected hconn fun hvia => hvia.not_elsewhere helse
        rw [hport] at hcable
        cases hcable
        exact ⟨Or.inr ⟨p, e', q, f, rfl, (hs.linked_of_advance hvia.1 hin).1, hconn, helse,
          hport⟩, hin.2⟩
  | discoveryDone t => exact hin
  | other type t payload => trivial

/-- The panel has given an index at least as high to a child already. -/
def GivenAway (p : Panel) (k : ℕ) : Prop :=
  ∃ e < maxEdges, e ≠ p.discovery.parentEdge ∧ p.discovery.isConnected e = true ∧
    k ≤ p.discovery.childIndex e

instance (p : Panel) (k : ℕ) : Decidable (GivenAway p k) := by
  unfold GivenAway
  infer_instance

theorem Sound.childrenBelow {s : Fabric P} {rank : P → ℕ} (hs : Sound W s rank) {p : P} {k : ℕ}
    (h : ¬ GivenAway (s.panels p) k) : ChildrenBelow (s.panels p) k := by
  intro e hc helse
  obtain ⟨q, f, hcable, -⟩ := hs.claimed_of_connected hc fun hvia => hvia.not_elsewhere helse
  by_contra hle
  exact h ⟨e, (W.edge_lt hcable).trans_le (W.edgeCount_le p), helse.2.symm,
    isConnected_iff.mpr hc, not_lt.mp hle⟩

theorem steady_refl {s : Fabric P} {owner : ℕ → ℕ} (h : Indexed W s owner) (p : P) :
    Steady W s owner p (s.panels p) :=
  ⟨fun _ => Iff.rfl, rfl, fun _ => id, fun _ hc _ => ⟨hc, rfl⟩, fun _ hu => ⟨hu, id⟩, id,
    fun e he => ⟨(h.probing p e he).2, Or.inl ⟨he, rfl⟩⟩⟩

theorem steady_failChild {s : Fabric P} {owner : ℕ → ℕ} (h : Indexed W s owner) {p : P} {e n : ℕ}
    (hprobing : (s.panels p).probingEdgeIndex = some e) :
    Steady W s owner p { (s.panels p).failChild e with probeAttempts := n } := by
  have hne : ∀ {f}, (s.panels p).Connected f → f ≠ e := by
    rintro f hc rfl
    exact (h.probing p f hprobing).1 hc
  have hedges : ∀ {f}, f ≠ e → ((s.panels p).failChild e).discovery.edges f =
      (s.panels p).discovery.edges f := fun hf => Function.update_of_ne hf _ _
  have hself : ((s.panels p).failChild e).discovery.edges e = .notConnected :=
    Function.update_self _ _ _
  refine ⟨fun _ => Iff.rfl, rfl, ?_, ?_, ?_, ?_, ?_⟩
  · intro f hc
    by_cases hf : f = e
    · subst hf
      rw [Connected, hself] at hc
      cases hc
    · exact (hedges hf).symm.trans hc
  · intro f hc _
    exact ⟨(hedges (hne hc)).trans hc, Function.update_of_ne (hne hc) _ _⟩
  · intro f hun
    by_cases hf : f = e
    · subst hf
      rw [hself] at hun
      cases hun
    · refine ⟨(hedges hf).symm.trans hun, fun hp => ?_⟩
      rw [hprobing] at hp
      cases hp
      exact absurd rfl hf
  · intro hfin
    rw [hfin.1] at hprobing
    cases hprobing
  · intro f hf
    cases hf

theorem steady_reject {s : Fabric P} {rank : P → ℕ} {owner : ℕ → ℕ} (hs : Sound W s rank)
    (h : Indexed W s owner) {p : P} {e : ℕ} (helse : (s.panels p).ParentElsewhere e)
    (hup : Upstream W s (.edge p e)) : Steady W s owner p ((s.panels p).reject e) := by
  have hne : ∀ {f}, (s.panels p).Connected f → f ≠ e := by
    rintro f hc rfl
    obtain ⟨q, g, hcable, hq⟩ := hs.claimed_of_connected hc fun hvia => hvia.not_elsewhere helse
    rcases hup with htrunk | ⟨q', g', hcable', hq'⟩
    · rw [hcable] at htrunk
      cases htrunk
    · rw [hcable] at hcable'
      cases hcable'
      exact hq.not_elsewhere hq'
  have hedges : ∀ {f}, f ≠ e → ((s.panels p).reject e).discovery.edges f =
      (s.panels p).discovery.edges f := fun hf => Function.update_of_ne hf _ _
  have hself : ((s.panels p).reject e).discovery.edges e = .notConnected :=
    Function.update_self _ _ _
  have hconn : ∀ f, ((s.panels p).reject e).Connected f → (s.panels p).Connected f := by
    intro f hc
    by_cases hf : f = e
    · subst hf
      rw [Connected, hself] at hc
      cases hc
    · exact (hedges hf).symm.trans hc
  have hbelow : ∀ k, ChildrenBelow (s.panels p) k → ChildrenBelow ((s.panels p).reject e) k :=
    fun k hb f hc hf => hb f (hconn f hc) hf
  refine ⟨fun _ => Iff.rfl, rfl, hconn, fun f hc _ => ⟨(hedges (hne hc)).trans hc, rfl⟩, ?_, ?_, ?_⟩
  · intro f hun
    by_cases hf : f = e
    · subst hf
      rw [hself] at hun
      cases hun
    · exact ⟨(hedges hf).symm.trans hun, id⟩
  · rintro ⟨hidle, hnone⟩
    refine ⟨hidle, nextEdge_eq_none_iff.mpr fun f hlt hparent hun => ?_⟩
    by_cases hf : f = e
    · subst hf
      rw [hself] at hun
      cases hun
    · exact nextEdge_eq_none_iff.mp hnone f hlt hparent ((hedges hf).symm.trans hun)
  · intro f hf
    obtain ⟨hlinked, htwo, hle, howns, hb⟩ := (h.probing p f hf).2
    exact ⟨⟨hlinked, htwo, hle, howns, hbelow _ hb⟩, Or.inl ⟨hf, rfl⟩⟩

/-! ### Steps of panels -/

variable [DecidableEq P]

theorem Steady.keeps {s : Fabric P} {owner : ℕ → ℕ} {p : P} {p' : Panel}
    (h : Steady W s owner p p') (sends : Sends) :
    Keeps W s (s.putPanel W p (p', sends)) owner owner := by
  refine ⟨?_, ?_, ?_, ?_, le_rfl, fun _ _ => Or.inl rfl⟩
  · rintro q e q' f ⟨hc, he, hcable⟩
    by_cases hq : q = p
    · subst hq
      refine ⟨?_, ?_, hcable⟩ <;> rw [putPanel_panels_self]
      · exact (h.kept e hc he).1
      · exact (h.elsewhere e).mpr he
    · refine ⟨?_, ?_, hcable⟩ <;> rwa [putPanel_panels_of_ne s _ hq]
  · intro q f hvia
    by_cases hq : q = p
    · subst hq
      rw [putPanel_panels_self]
      exact (h.via f).mpr hvia
    · rwa [putPanel_panels_of_ne s _ hq]
  · intro q f _
    by_cases hq : q = p
    · subst hq
      rw [putPanel_panels_self]
      exact h.index
    · rw [putPanel_panels_of_ne s _ hq]
  · intro q f k _ hfin hb
    by_cases hq : q = p
    · subst hq
      rw [putPanel_panels_self]
      exact ⟨h.finished hfin, h.childrenBelow hb⟩
    · rw [putPanel_panels_of_ne s _ hq]
      exact ⟨hfin, hb⟩

theorem Steady.childLink {s : Fabric P} {owner : ℕ → ℕ} {p : P} {p' : Panel}
    (h : Steady W s owner p p') {sends : Sends} {q q' : P} {e f : ℕ}
    (hl : ChildLink W (s.putPanel W p (p', sends)) q e q' f) : ChildLink W s q e q' f := by
  obtain ⟨hc, he, hcable⟩ := hl
  by_cases hq : q = p
  · subst hq
    rw [putPanel_panels_self] at hc he
    exact ⟨h.connected e hc, (h.elsewhere e).mp he, hcable⟩
  · rw [putPanel_panels_of_ne s _ hq] at hc he
    exact ⟨hc, he, hcable⟩

theorem putPanel_cases (s : Fabric P) (p : P) (p' : Panel) (sends : Sends) (q : P) :
    q = p ∧ (s.putPanel W p (p', sends)).panels q = p' ∨
      q ≠ p ∧ (s.putPanel W p (p', sends)).panels q = s.panels q := by
  by_cases hq : q = p
  · subst hq
    exact Or.inl ⟨rfl, putPanel_panels_self _ _ _⟩
  · exact Or.inr ⟨hq, putPanel_panels_of_ne s _ hq⟩

theorem Steady.via_iff {s : Fabric P} {owner : ℕ → ℕ} {p : P} {p' : Panel}
    (h : Steady W s owner p p') (sends : Sends) (q : P) (f : ℕ) :
    ((s.putPanel W p (p', sends)).panels q).ParentVia f ↔ (s.panels q).ParentVia f := by
  rcases putPanel_cases (W := W) s p p' sends q with ⟨rfl, heq⟩ | ⟨-, heq⟩ <;> rw [heq]
  exact h.via f

theorem Steady.index_eq {s : Fabric P} {owner : ℕ → ℕ} {p : P} {p' : Panel}
    (h : Steady W s owner p p') (sends : Sends) (q : P) :
    ((s.putPanel W p (p', sends)).panels q).assignedIndex = (s.panels q).assignedIndex := by
  rcases putPanel_cases (W := W) s p p' sends q with ⟨rfl, heq⟩ | ⟨-, heq⟩ <;> rw [heq]
  exact h.index

theorem Steady.linked_iff {s : Fabric P} {owner : ℕ → ℕ} {p : P} {p' : Panel}
    (h : Steady W s owner p p') (sends : Sends) (q : P) :
    Linked W (s.putPanel W p (p', sends)) q ↔ Linked W s q :=
  ⟨Linked.mono (fun _ _ _ _ => h.childLink) fun q f => (h.via_iff sends q f).mp,
    Linked.mono (h.keeps sends).link (h.keeps sends).via⟩

theorem Indexed.putPanel {s : Fabric P} {rank : P → ℕ} {owner : ℕ → ℕ} (hs : Sound W s rank)
    (h : Indexed W s owner) {p : P} {p' : Panel} {sends : Sends}
    (hsteady : Steady W s owner p p')
    (hsends : ∀ x ∈ sends, SendIndexed W s owner p p' x.1 x.2) :
    Indexed W (s.putPanel W p (p', sends)) owner := by
  have hkeeps := hsteady.keeps sends
  have hcases := putPanel_cases (W := W) s p p' sends
  refine ⟨h.walk, h.owner_next, ?_, ?_, ?_, ?_, ?_, ?_, ?_, ?_, ?_, ?_, ?_⟩
  · intro q f hvia
    rw [hsteady.index_eq]
    exact h.index_ne_zero q f ((hsteady.via_iff sends q f).mp hvia)
  · intro r e htrunk hvia
    rw [hsteady.index_eq]
    exact h.root_index r e htrunk ((hsteady.via_iff sends r e).mp hvia)
  · intro q e q' f hcable hvia
    exact (hsteady.linked_iff sends q).mpr
      (h.parent_linked q e q' f hcable ((hsteady.via_iff sends q' f).mp hvia))
  · intro q e hc he
    rw [hsteady.index_eq]
    rcases hcases q with ⟨rfl, heq⟩ | ⟨-, heq⟩ <;> rw [heq] at hc he ⊢
    · have hold := hsteady.connected e hc
      have helse := (hsteady.elsewhere e).mp he
      rw [(hsteady.kept e hold helse).2]
      exact h.child q e hold helse
    · exact h.child q e hc he
  · intro q e q' f hl
    have hold := hsteady.childLink hl
    rw [hsteady.index_eq, ← h.child_index q e q' f hold]
    rcases hcases q with ⟨rfl, heq⟩ | ⟨-, heq⟩ <;> rw [heq]
    exact (hsteady.kept e hold.connected hold.elsewhere).2
  · intro q q' hq hq' hindex
    rw [hsteady.index_eq, hsteady.index_eq] at hindex
    exact h.unique q q' ((hsteady.linked_iff sends q).mp hq)
      ((hsteady.linked_iff sends q').mp hq') hindex
  · intro q e hprobing
    rcases hcases q with ⟨rfl, heq⟩ | ⟨-, heq⟩ <;> rw [heq] at hprobing ⊢
    · obtain ⟨hhands, hwhich⟩ := hsteady.probing e hprobing
      refine ⟨fun hc => ?_, (hsteady.linked_iff sends q).mpr hhands.linked, hhands.two_le,
        hhands.le_next, hhands.owns, hhands.below⟩
      have hold := hsteady.connected e hc
      rcases hwhich with ⟨hp, -⟩ | ⟨-, hunexplored⟩
      · exact (h.probing q e hp).1 hold
      · rw [Connected, hunexplored] at hold
        cases hold
    · obtain ⟨hconn, hhands⟩ := h.probing q e hprobing
      exact ⟨hconn, (hsteady.linked_iff sends q).mpr hhands.linked, hhands.two_le,
        hhands.le_next, hhands.owns, hhands.below⟩
  · intro q e q' f hcable hprobing hvia
    have hvia' := (hsteady.via_iff sends q' f).mp hvia
    rw [hsteady.index_eq]
    rcases hcases q with ⟨rfl, heq⟩ | ⟨-, heq⟩ <;> rw [heq] at hprobing ⊢
    · rcases (hsteady.probing e hprobing).2 with ⟨hp, hpending⟩ | ⟨hp, hunexplored⟩
      · rw [hpending]
        exact h.offered q e q' f hcable hp hvia'
      · exact absurd hvia' (h.untouched q e q' f hcable hunexplored hp).1
    · exact h.offered q e q' f hcable hprobing hvia'
  · intro q e q' f hcable hprobing k pe hmem
    rw [putPanel_inFlight] at hmem
    rcases List.mem_append.mp hmem with hold | hnew
    · rcases hcases q with ⟨rfl, heq⟩ | ⟨-, heq⟩ <;> rw [heq] at hprobing ⊢
      · rcases (hsteady.probing e hprobing).2 with ⟨hp, hpending⟩ | ⟨hp, hunexplored⟩
        · rw [hpending]
          exact h.offering q e q' f hcable hp k pe hold
        · exact absurd hold ((h.untouched q e q' f hcable hunexplored hp).2 k pe)
      · exact h.offering q e q' f hcable hprobing k pe hold
    · obtain ⟨rfl, -, rfl⟩ := pull_mem_sends hsends hcable hnew
      rw [putPanel_panels_self]
  · intro q e q' f hcable hunexplored hprobing
    have hold : ¬ (s.panels q').ParentVia f ∧
        ∀ k pe, (.edge q' f, .initializationPull k pe) ∉ s.inFlight := by
      rcases hcases q with ⟨rfl, heq⟩ | ⟨-, heq⟩ <;> rw [heq] at hprobing hunexplored
      · obtain ⟨hun, hkeep⟩ := hsteady.unexplored e hunexplored
        exact h.untouched q e q' f hcable hun fun hp => hprobing (hkeep hp)
      · exact h.untouched q e q' f hcable hunexplored hprobing
    refine ⟨fun hvia => hold.1 ((hsteady.via_iff sends q' f).mp hvia), fun k pe hmem => ?_⟩
    rw [putPanel_inFlight] at hmem
    rcases List.mem_append.mp hmem with hmem | hmem
    · exact hold.2 k pe hmem
    · obtain ⟨rfl, hp, -⟩ := pull_mem_sends hsends hcable hmem
      rw [putPanel_panels_self] at hprobing
      exact hprobing hp
  · intro x hx
    rw [putPanel_inFlight] at hx
    rcases List.mem_append.mp hx with hx | hx
    · exact hkeeps.frameIndexed hs (h.frames x hx)
    · obtain ⟨e, hmem, hcable⟩ := mem_sendAll.mp hx
      rcases hsends _ hmem with ⟨-, hframe⟩ | ⟨hp, pe, heq⟩ | ⟨heq, hlinked, hfin, hbelow⟩
      · exact hkeeps.frameIndexed hs (hframe _ hcable)
      · obtain ⟨hhands, -⟩ := hsteady.probing e hp
        rw [heq]
        constructor
        · intro htrunk
          rw [W.cable_symm hcable] at htrunk
          cases htrunk
        · intro q e' hcable'
          rw [W.cable_symm hcable] at hcable'
          cases hcable'
          exact ⟨(hsteady.linked_iff sends _).mpr hhands.linked, hhands.two_le, hhands.le_next⟩
      · rw [heq]
        refine ⟨p, (hsteady.linked_iff sends p).mpr hlinked, ?_⟩
        rw [putPanel_panels_self]
        exact ⟨rfl, hfin, hbelow⟩

/-! ### Steps that add a panel -/

theorem Indexed.adopt {s : Fabric P} {rank : P → ℕ} {owner : ℕ → ℕ} (hs : Sound W s rank)
    (h : Indexed W s owner) {p : P} {e k pe : ℕ}
    (hnew : (s.panels p).discovery.hasParent = false)
    (hmem : (.edge p e, .initializationPull k pe) ∈ s.inFlight) :
    Indexed W (s.putPanel W p ((s.panels p).adopt e k,
      [(e, .registerEdge ((s.panels p).adopt e k).assignedIndex e pe)])) owner := by
  have hno : ∀ {q f}, (s.panels q).ParentVia f → q ≠ p := by
    rintro q f hvia rfl
    rw [hvia.1] at hnew
    cases hnew
  have hindex : ((s.panels p).adopt e k).assignedIndex = k := by
    have hzero : (s.panels p).assignedIndex = 0 := by
      by_contra hne
      rw [hs.assigned p hne] at hnew
      cases hnew
    simp [Panel.adopt, assign, hzero]
  have hvia : ∀ {f}, ((s.panels p).adopt e k).ParentVia f → f = e := fun h' => h'.2.symm
  have hchild : ∀ f, ((s.panels p).adopt e k).Connected f →
      ¬ ((s.panels p).adopt e k).ParentElsewhere f := by
    intro f hc helse
    have hne : f ≠ e := fun h' => helse.2 h'.symm
    refine hs.not_connected hnew f ?_
    simpa [Connected, Panel.adopt, assign, Function.update_of_ne hne] using hc
  have hidle : ∀ f, (s.panels p).probingEdgeIndex ≠ some f := by
    intro f hf
    exact hno (q := p) ⟨(hs.probing p f hf).1, rfl⟩ rfl
  obtain ⟨htrunk, hup⟩ := h.frames _ hmem
  rw [hindex]
  set s' := s.putPanel W p ((s.panels p).adopt e k, [(e, .registerEdge k e pe)]) with hs'
  have hcases : ∀ q, q = p ∧ s'.panels q = (s.panels p).adopt e k ∨
      q ≠ p ∧ s'.panels q = s.panels q := putPanel_cases s p _ _
  have hlink : ∀ {q f q' f'}, ChildLink W s' q f q' f' ↔ ChildLink W s q f q' f' := by
    intro q f q' f'
    rcases hcases q with ⟨rfl, heq⟩ | ⟨-, heq⟩
    · constructor
      · rintro ⟨hc, he, -⟩
        rw [heq] at hc he
        exact absurd he (hchild f hc)
      · rintro ⟨-, he, -⟩
        exact absurd rfl (hno (q := q) ⟨he.1, rfl⟩)
    · constructor <;> rintro ⟨hc, he, hcable⟩
      · rw [heq] at hc he
        exact ⟨hc, he, hcable⟩
      · exact ⟨heq ▸ hc, heq ▸ he, hcable⟩
  have hkeeps : Keeps W s s' owner owner := by
    refine ⟨fun _ _ _ _ => hlink.mpr, ?_, ?_, ?_, le_rfl, fun _ _ => Or.inl rfl⟩
    · intro q f hq
      rwa [hs', putPanel_panels_of_ne s _ (hno hq)]
    · intro q f hq
      rw [hs', putPanel_panels_of_ne s _ (hno hq)]
    · intro q f m hq hfin hb
      rw [hs', putPanel_panels_of_ne s _ (hno hq)]
      exact ⟨hfin, hb⟩
  have hlinked : ∀ {x}, Linked W s' x →
      Linked W s x ∨ x = p ∧ W.cable .trunk = some (.edge p e) := by
    intro x hx
    induction hx with
    | @root r f htr hr =>
        rcases hcases r with ⟨rfl, heq⟩ | ⟨-, heq⟩ <;> rw [heq] at hr
        · exact Or.inr ⟨rfl, by rw [htr, hvia hr]⟩
        · exact Or.inl (.root htr hr)
    | child _ hl ih =>
        have hold := hlink.mp hl
        rcases ih with hq | ⟨rfl, -⟩
        · exact Or.inl (.child hq hold)
        · exact absurd rfl (hno ⟨hold.elsewhere.1, rfl⟩)
  have hlinked_p : ∀ {x}, Linked W s x → Linked W s' x := Linked.mono hkeeps.link hkeeps.via
  have hindex_old : ∀ {q f}, (s.panels q).ParentVia f →
      (s'.panels q).assignedIndex = (s.panels q).assignedIndex := hkeeps.index _ _
  have hvia_cases : ∀ {q f}, (s'.panels q).ParentVia f →
      q = p ∧ f = e ∧ (s'.panels q).assignedIndex = k ∨ (s.panels q).ParentVia f := by
    intro q f hq
    rcases hcases q with ⟨rfl, heq⟩ | ⟨-, heq⟩ <;> rw [heq] at hq ⊢
    · exact Or.inl ⟨rfl, hvia hq, hindex⟩
    · exact Or.inr hq
  refine ⟨h.walk, h.owner_next, ?_, ?_, ?_, ?_, ?_, ?_, ?_, ?_, ?_, ?_, ?_⟩
  · intro q f hq
    rcases hvia_cases hq with ⟨rfl, rfl, hk⟩ | hold
    · rw [hk]
      rcases hs.frames _ hmem with htr | ⟨p₀, e₀, hcable, -⟩
      · rw [htrunk htr]
        decide
      · have := (hup p₀ e₀ hcable).2.1
        omega
    · rw [hindex_old hold]
      exact h.index_ne_zero q f hold
  · intro r f htr hr
    rcases hvia_cases hr with ⟨rfl, rfl, hk⟩ | hold
    · rw [hk]
      exact htrunk (W.cable_symm htr)
    · rw [hindex_old hold]
      exact h.root_index r f htr hold
  · intro q f q' f' hcable hq'
    rcases hvia_cases hq' with ⟨rfl, rfl, -⟩ | hold
    · exact hlinked_p (hup q f (W.cable_symm hcable)).1
    · exact hlinked_p (h.parent_linked q f q' f' hcable hold)
  · intro q f hc he
    rcases hcases q with ⟨rfl, heq⟩ | ⟨-, heq⟩ <;> rw [heq] at hc he ⊢
    · exact absurd he (hchild f hc)
    · exact h.child q f hc he
  · intro q f q' f' hl
    have hold := hlink.mp hl
    have hq : s'.panels q = s.panels q :=
      putPanel_panels_of_ne s _ (hno (q := q) ⟨hold.elsewhere.1, rfl⟩)
    rw [hindex_old (hold.parentVia hs), hq]
    exact h.child_index q f q' f' hold
  · intro q q' hq hq' heq
    have hroot : ∀ {x}, W.cable .trunk = some (.edge p e) → ¬ Linked W s x := by
      intro x htr hx
      obtain ⟨f, hf⟩ := hx.hasParent hs
      obtain ⟨r, f', hcable, hr⟩ := hs.root_adopted hf
      rw [htr] at hcable
      cases hcable
      exact hno hr rfl
    rcases hlinked hq with hold | ⟨rfl, htr⟩ <;> rcases hlinked hq' with hold' | ⟨rfl, htr'⟩
    · obtain ⟨f, hf⟩ := hold.hasParent hs
      obtain ⟨f', hf'⟩ := hold'.hasParent hs
      rw [hindex_old hf, hindex_old hf'] at heq
      exact h.unique q q' hold hold' heq
    · exact absurd hold (hroot htr')
    · exact absurd hold' (hroot htr)
    · rfl
  · intro q f hprobing
    rcases hcases q with ⟨rfl, heq⟩ | ⟨-, heq⟩ <;> rw [heq] at hprobing ⊢
    · exact absurd hprobing (hidle f)
    · obtain ⟨hconn, hhands⟩ := h.probing q f hprobing
      exact ⟨hconn, hlinked_p hhands.linked, hhands.two_le, hhands.le_next, hhands.owns,
        hhands.below⟩
  · intro q f q' f' hcable hprobing hq'
    rcases hcases q with ⟨rfl, heq⟩ | ⟨-, heq⟩ <;> rw [heq] at hprobing ⊢
    · exact absurd hprobing (hidle f)
    · rcases hvia_cases hq' with ⟨rfl, rfl, hk⟩ | hold
      · rw [hk]
        exact h.offering q f q' f' hcable hprobing k pe hmem
      · rw [hindex_old hold]
        exact h.offered q f q' f' hcable hprobing hold
  · intro q f q' f' hcable hprobing k' pe' hpull
    have hold : (.edge q' f', .initializationPull k' pe') ∈ s.inFlight := by
      rw [hs', putPanel_inFlight] at hpull
      rcases List.mem_append.mp hpull with hpull | hpull
      · exact hpull
      · obtain ⟨_, hsend, -⟩ := mem_sendAll.mp hpull
        cases List.mem_singleton.mp hsend
    rcases hcases q with ⟨rfl, heq⟩ | ⟨-, heq⟩ <;> rw [heq] at hprobing ⊢
    · exact absurd hprobing (hidle f)
    · exact h.offering q f q' f' hcable hprobing k' pe' hold
  · intro q f q' f' hcable hunexplored hprobing
    have hold : ¬ (s.panels q').ParentVia f' ∧
        ∀ k pe, (.edge q' f', .initializationPull k pe) ∉ s.inFlight := by
      rcases hcases q with ⟨rfl, heq⟩ | ⟨-, heq⟩ <;> rw [heq] at hprobing hunexplored
      · have hne : f ≠ e := by
          rintro rfl
          simp [Panel.adopt, assign] at hunexplored
        refine h.untouched q f q' f' hcable ?_ (hidle f)
        simpa [Panel.adopt, assign, Function.update_of_ne hne] using hunexplored
      · exact h.untouched q f q' f' hcable hunexplored hprobing
    refine ⟨fun hq' => ?_, fun k' pe' hpull => ?_⟩
    · rcases hvia_cases hq' with ⟨rfl, rfl, -⟩ | hvia'
      · exact hold.2 k pe hmem
      · exact hold.1 hvia'
    · rw [hs', putPanel_inFlight] at hpull
      rcases List.mem_append.mp hpull with hpull | hpull
      · exact hold.2 k' pe' hpull
      · obtain ⟨_, hsend, -⟩ := mem_sendAll.mp hpull
        cases List.mem_singleton.mp hsend
  · intro x hx
    rw [hs', putPanel_inFlight] at hx
    rcases List.mem_append.mp hx with hx | hx
    · exact hkeeps.frameIndexed hs (h.frames x hx)
    · obtain ⟨f, hsend, hcable⟩ := mem_sendAll.mp hx
      have hpair := List.mem_singleton.mp hsend
      rw [Prod.mk.injEq] at hpair
      obtain ⟨rfl, hframe⟩ := hpair
      rw [hframe]
      intro _ q f' hcable'
      rw [W.cable_symm hcable] at hcable'
      cases hcable'
      rw [hs', putPanel_panels_self]
      exact Or.inr hindex.symm

theorem Indexed.acceptChild {s : Fabric P} {rank : P → ℕ} {owner : ℕ → ℕ} (hs : Sound W s rank)
    (h : Indexed W s owner) {p : P} {e k ce pe : ℕ} {sends : Sends}
    (hprobing : (s.panels p).probingEdgeIndex = some e) (hk : k ≠ 0)
    (hmem : (.edge p e, .registerEdge k ce pe) ∈ s.inFlight)
    (hsends : ∀ x ∈ sends, x.2.isPull = false ∧
      ∀ port, W.cable (.edge p x.1) = some port → FrameIndexed W s owner port x.2) :
    Indexed W (s.putPanel W p ((s.panels p).acceptChild e k, sends)) owner := by
  obtain ⟨hconn, hhands⟩ := h.probing p e hprobing
  have helse := hs.probing p e hprobing
  obtain ⟨q, f, hcable, hq⟩ := hs.frames _ hmem hk
  have hpending := h.offered p e q f hcable hprobing hq
  have hindex : k = (s.panels q).assignedIndex := by
    rcases h.frames _ hmem hk q f hcable with hlinked | hindex
    · exact absurd (hlinked.childLink hs hcable hq).connected hconn
    · exact hindex
  set s' := s.putPanel W p ((s.panels p).acceptChild e k, sends) with hs'
  have hcases : ∀ x, x = p ∧ s'.panels x = (s.panels p).acceptChild e k ∨
      x ≠ p ∧ s'.panels x = s.panels x := putPanel_cases s p _ _
  have hvia : ∀ x g, (s'.panels x).ParentVia g ↔ (s.panels x).ParentVia g := by
    intro x g
    rcases hcases x with ⟨rfl, heq⟩ | ⟨-, heq⟩ <;> rw [heq]
    exact Iff.rfl
  have helse' : ∀ x g, (s'.panels x).ParentElsewhere g ↔ (s.panels x).ParentElsewhere g := by
    intro x g
    rcases hcases x with ⟨rfl, heq⟩ | ⟨-, heq⟩ <;> rw [heq]
    exact Iff.rfl
  have hindex' : ∀ x, (s'.panels x).assignedIndex = (s.panels x).assignedIndex := by
    intro x
    rcases hcases x with ⟨rfl, heq⟩ | ⟨-, heq⟩ <;> rw [heq]
    rfl
  -- The accepted edge is the only one whose state and child change.
  have hedge : ∀ x g, (x = p ∧ g = e ∧ (s'.panels x).discovery.edges g = .connected ∧
        (s'.panels x).discovery.childIndex g = k) ∨
      ((s'.panels x).discovery.edges g = (s.panels x).discovery.edges g ∧
        (s'.panels x).discovery.childIndex g = (s.panels x).discovery.childIndex g ∧
        (x, g) ≠ (p, e)) := by
    intro x g
    rcases hcases x with ⟨rfl, heq⟩ | ⟨hne, heq⟩ <;> rw [heq]
    · by_cases hg : g = e
      · subst hg
        simp [Panel.acceptChild, PanelDiscovery.onChildProbeAccepted, PanelDiscovery.childIndex]
      · simp [Panel.acceptChild, PanelDiscovery.onChildProbeAccepted, PanelDiscovery.childIndex,
          hg]
    · exact Or.inr ⟨rfl, rfl, fun hpair => hne (congrArg Prod.fst hpair)⟩
  have hlink_new : ∀ {x g y g'}, ChildLink W s' x g y g' → ChildLink W s x g y g' ∨
      x = p ∧ g = e ∧ y = q ∧ g' = f := by
    rintro x g y g' ⟨hc, he, hcable'⟩
    rcases hedge x g with ⟨rfl, rfl, -⟩ | ⟨hsame, -⟩
    · rw [hcable] at hcable'
      cases hcable'
      exact Or.inr ⟨rfl, rfl, rfl, rfl⟩
    · exact Or.inl ⟨hsame.symm.trans hc, (helse' x g).mp he, hcable'⟩
  have hlink_old : ∀ x g y g', ChildLink W s x g y g' → ChildLink W s' x g y g' := by
    rintro x g y g' ⟨hc, he, hcable'⟩
    refine ⟨?_, (helse' x g).mpr he, hcable'⟩
    rcases hedge x g with ⟨-, -, hc', -⟩ | ⟨hsame, -⟩
    · exact hc'
    · exact hsame.trans hc
  have hkeeps : Keeps W s s' owner owner := by
    refine ⟨hlink_old, fun x g => (hvia x g).mpr, fun x _ _ => hindex' x, ?_, le_rfl,
      fun _ _ => Or.inl rfl⟩
    intro x _ m _ hfin hb
    rcases hcases x with ⟨rfl, heq⟩ | ⟨-, heq⟩ <;> rw [heq]
    · rw [hfin.1] at hprobing
      cases hprobing
    · exact ⟨hfin, hb⟩
  have hlinked_old : ∀ {x}, Linked W s x → Linked W s' x := Linked.mono hkeeps.link hkeeps.via
  have hlinked : ∀ {x}, Linked W s' x → Linked W s x ∨ x = q := by
    intro x hx
    induction hx with
    | root htr hr => exact Or.inl (.root htr ((hvia _ _).mp hr))
    | child _ hl ih =>
        rcases hlink_new hl with hold | ⟨-, -, rfl, -⟩
        · exact Or.inl (.child (h.parent_linked _ _ _ _ hold.cable (hold.parentVia hs)) hold)
        · exact Or.inr rfl
  have hfresh : ∀ {x}, Linked W s x → (s.panels x).assignedIndex ≠ k := by
    intro x hx hxk
    have htwo := hhands.two_le
    cases hx with
    | root htr hr =>
        have := h.root_index _ _ htr hr
        omega
    | @child p₁ _ e₁ f₁ hp₁ hl =>
        have hchild := h.child_index _ _ _ _ hl
        have howner := (h.child p₁ e₁ hl.connected hl.elsewhere).2.2
        have hsame : p₁ = p := h.unique _ _ hp₁ hhands.linked (by
          rw [howner, hhands.owns, hchild, hxk, hindex, hpending])
        subst hsame
        have := hhands.below e₁ hl.connected hl.elsewhere
        omega
  have hprobing' : ∀ {x g}, (s'.panels x).probingEdgeIndex = some g →
      x ≠ p ∧ s'.panels x = s.panels x := by
    intro x g hg
    rcases hcases x with ⟨rfl, heq⟩ | hne
    · rw [heq] at hg
      cases hg
    · exact hne
  have hpull : ∀ {y g k' pe'}, (.edge y g, .initializationPull k' pe') ∈ s'.inFlight →
      (.edge y g, .initializationPull k' pe') ∈ s.inFlight := by
    intro y g k' pe' hx
    rw [hs', putPanel_inFlight] at hx
    rcases List.mem_append.mp hx with hx | hx
    · exact hx
    · obtain ⟨_, hsend, -⟩ := mem_sendAll.mp hx
      cases (hsends _ hsend).1
  refine ⟨h.walk, h.owner_next, ?_, ?_, ?_, ?_, ?_, ?_, ?_, ?_, ?_, ?_, ?_⟩
  · intro x g hx
    rw [hindex']
    exact h.index_ne_zero x g ((hvia x g).mp hx)
  · intro r g htr hr
    rw [hindex']
    exact h.root_index r g htr ((hvia r g).mp hr)
  · intro x g y g' hcable' hy
    exact hlinked_old (h.parent_linked x g y g' hcable' ((hvia y g').mp hy))
  · intro x g hc he
    rw [hindex']
    rcases hedge x g with ⟨rfl, rfl, -, hchild⟩ | ⟨hsame, hchild, -⟩ <;> rw [hchild]
    · rw [hindex, hpending]
      exact ⟨hhands.two_le, hhands.le_next, hhands.owns⟩
    · exact h.child x g (hsame.symm.trans hc) ((helse' x g).mp he)
  · intro x g y g' hl
    rw [hindex']
    rcases hedge x g with ⟨rfl, rfl, -, hchild⟩ | ⟨-, hchild, hne⟩ <;> rw [hchild]
    · have := hl.cable
      rw [hcable] at this
      cases this
      exact hindex
    · rcases hlink_new hl with hold | ⟨rfl, rfl, -⟩
      · exact h.child_index x g y g' hold
      · exact absurd rfl hne
  · intro x y hx hy heq
    rw [hindex', hindex'] at heq
    rcases hlinked hx with hx | rfl <;> rcases hlinked hy with hy | rfl
    · exact h.unique x y hx hy heq
    · exact absurd (heq.trans hindex.symm) (hfresh hx)
    · exact absurd (heq.symm.trans hindex.symm) (hfresh hy)
    · rfl
  · intro x g hx
    obtain ⟨-, heq⟩ := hprobing' hx
    rw [heq] at hx ⊢
    obtain ⟨hc, hhands'⟩ := h.probing x g hx
    exact ⟨hc, hlinked_old hhands'.linked, hhands'.two_le, hhands'.le_next, hhands'.owns,
      hhands'.below⟩
  · intro x g y g' hcable' hx hy
    obtain ⟨-, heq⟩ := hprobing' hx
    rw [heq] at hx ⊢
    rw [hindex']
    exact h.offered x g y g' hcable' hx ((hvia y g').mp hy)
  · intro x g y g' hcable' hx k' pe' hmem'
    obtain ⟨-, heq⟩ := hprobing' hx
    rw [heq] at hx ⊢
    exact h.offering x g y g' hcable' hx k' pe' (hpull hmem')
  · intro x g y g' hcable' hunexplored hx
    have hold : ¬ (s.panels y).ParentVia g' ∧
        ∀ k pe, (.edge y g', .initializationPull k pe) ∉ s.inFlight := by
      rcases hedge x g with ⟨rfl, rfl, hc, -⟩ | ⟨hsame, -, hne⟩
      · rw [hunexplored] at hc
        cases hc
      · refine h.untouched x g y g' hcable' (hsame.symm.trans hunexplored) ?_
        rcases hcases x with ⟨rfl, -⟩ | ⟨-, heq⟩
        · rw [hprobing]
          rintro ⟨⟩
          exact hne rfl
        · rwa [heq] at hx
    exact ⟨fun hy => hold.1 ((hvia y g').mp hy), fun k' pe' hmem' => hold.2 k' pe' (hpull hmem')⟩
  · intro x hx
    rw [hs', putPanel_inFlight] at hx
    rcases List.mem_append.mp hx with hx | hx
    · exact hkeeps.frameIndexed hs (h.frames x hx)
    · obtain ⟨g, hsend, hcable'⟩ := mem_sendAll.mp hx
      exact hkeeps.frameIndexed hs ((hsends _ hsend).2 _ hcable')

end Lightnet.Fabric
