import Lightnet.Relay.IndexInvariant

/-!
# Index uniqueness

The invariant holds along every run in which no advance makes a panel hand out an index that it
has given to a child already. One lost registration is enough to leave that behaviour: the
coordinator repeats its advance, and the panel offers the same index on its next edge.
-/

namespace Lightnet.Fabric

open Panel

variable {P : Type*} {W : Wiring P}

/-- No panel that is probing no edge is told to hand out an index that it has given away, or one
below. -/
def NotGivenAway (s : Fabric P) : Port P × Frame → Prop
  | (.edge p _, .discoveryAdvance t k) =>
    t = (s.panels p).assignedIndex → (s.panels p).probingEdgeIndex = none →
      ¬ GivenAway (s.panels p) k
  | _ => True

/-- The event delivers no advance for `k` to an idle holder of its target that has a child with an
index of `k` or more. -/
def AdvancesOnce (s : Fabric P) : Event P → Prop
  | .deliver i => ∀ x ∈ s.inFlight[i]?, NotGivenAway s x
  | _ => True

instance decidableNotGivenAway (s : Fabric P) :
    ∀ x : Port P × Frame, Decidable (NotGivenAway s x)
  | (.trunk, _) => isTrue trivial
  | (.edge _ _, .initializationPull _ _) => isTrue trivial
  | (.edge _ _, .registerEdge _ _ _) => isTrue trivial
  | (.edge _ _, .discoveryDone _) => isTrue trivial
  | (.edge _ _, .other _ _ _) => isTrue trivial
  | (.edge p _, .discoveryAdvance t k) =>
    inferInstanceAs (Decidable (t = (s.panels p).assignedIndex →
      (s.panels p).probingEdgeIndex = none → ¬ GivenAway (s.panels p) k))

instance decidableAdvancesOnce (s : Fabric P) : ∀ ev : Event P, Decidable (AdvancesOnce s ev)
  | .deliver i => inferInstanceAs (Decidable (∀ x ∈ s.inFlight[i]?, NotGivenAway s x))
  | .elapse _ => isTrue trivial
  | .lose _ => isTrue trivial
  | .again _ => isTrue trivial
  | .tickPanel _ => isTrue trivial
  | .tickController => isTrue trivial

theorem indexed_blank (W : Wiring P) (clock : ℕ) : Indexed W (blank W clock) fun _ => 0 := by
  have hlinked : ∀ p, ¬ Linked W (blank W clock) p := by
    intro p hp
    obtain ⟨e, hvia⟩ := hp.hasParent (sound_blank W clock)
    cases hvia.1
  refine ⟨Or.inl ⟨rfl, rfl⟩, rfl, ?_, ?_, ?_, ?_, ?_, ?_, ?_, ?_, ?_, ?_, ?_⟩
  · intro p e hvia
    cases hvia.1
  · intro r e _ hvia
    cases hvia.1
  · intro p e q f _ hvia
    cases hvia.1
  · intro p e hc
    cases hc
  · intro p e q f hl
    cases hl.connected
  · intro p q hp
    exact absurd hp (hlinked p)
  · intro p e hprobing
    cases hprobing
  · intro p e q f _ hprobing
    cases hprobing
  · intro p e q f _ hprobing
    cases hprobing
  · intro p e q f _ _ _
    exact ⟨fun hvia => (by cases hvia.1), fun k pe hmem => by cases hmem⟩
  · intro x hx
    cases hx

theorem exists_indexed_init (W : Wiring P) (clock : ℕ) :
    ∃ owner, Indexed W (init W clock) owner := by
  refine ⟨_, (indexed_blank W clock).putCoordinator_of (sound_blank W clock) (Or.inl ⟨rfl, rfl⟩)
    rfl le_rfl (fun _ _ => Or.inl rfl) ?_⟩
  intro f hf port hport
  cases List.mem_singleton.mp hf
  refine ⟨fun _ => rfl, fun p e hcable => ?_⟩
  rw [W.cable_symm hport] at hcable
  cases hcable

variable [DecidableEq P]

/-! ### Any reaction -/

/-- A panel that looks for its next edge, with the probe it starts or the report it makes. -/
theorem Indexed.searches {s : Fabric P} {rank : P → ℕ} {owner : ℕ → ℕ} (hs : Sound W s rank)
    (h : Indexed W s owner) {p : P} {r p' : Panel} {relayed sends : Sends}
    (hsearch : Searches r p' sends) (hsteady : Steady W s owner p r)
    (hidle : r.probingEdgeIndex = none) (hlinked : Linked W s p)
    (hbelow : ChildrenBelow r s.coordinator.nextPanelIndex)
    (hhands : r.nextEdge ≠ none → HandsOut W s owner p r)
    (hrelayed : ∀ x ∈ relayed, x.2.isPull = false ∧
      ∀ port, W.cable (.edge p x.1) = some port → FrameIndexed W s owner port x.2) :
    Indexed W (s.putPanel W p (p', relayed ++ sends)) owner := by
  cases hsearch with
  | @probes e nowMs he =>
      have hunexplored := (nextEdge_eq_some he).2.2
      have hhands' := hhands (by rw [he]; exact Option.some_ne_none e)
      have hnot : ∀ f, r.discovery.edges f = .unexplored →
          (s.panels p).probingEdgeIndex ≠ some f := by
        intro f hf hp
        have := (hsteady.unexplored f hf).2 hp
        rw [hidle] at this
        cases this
      refine h.putPanel hs ⟨hsteady.via, hsteady.index, hsteady.connected, hsteady.kept, ?_, ?_, ?_⟩
        ?_
      · intro f hf
        exact ⟨(hsteady.unexplored f hf).1, fun hp => absurd hp (hnot f hf)⟩
      · intro hfin
        have hnone := (hsteady.finished hfin).2
        rw [he] at hnone
        cases hnone
      · intro f hf
        cases hf
        exact ⟨⟨hlinked, hhands'.two_le, hhands'.le_next, hhands'.owns, hhands'.below⟩,
          Or.inr ⟨hnot e hunexplored, (hsteady.unexplored e hunexplored).1⟩⟩
      · intro x hx
        rcases List.mem_append.mp hx with hx | hx
        · exact Or.inl (hrelayed x hx)
        · cases List.mem_singleton.mp hx
          exact Or.inr (Or.inl ⟨rfl, _, rfl⟩)
  | finds_none hnone =>
      refine h.putPanel hs hsteady ?_
      intro x hx
      rcases List.mem_append.mp hx with hx | hx
      · exact Or.inl (hrelayed x hx)
      · cases List.mem_singleton.mp hx
        exact Or.inr (Or.inr ⟨rfl, hlinked, ⟨hidle, hnone⟩, hbelow⟩)

theorem Indexed.reacts {s : Fabric P} {rank : P → ℕ} {owner : ℕ → ℕ} (hs : Sound W s rank)
    (h : Indexed W s owner) {p : P} {input : Option (ℕ × Frame)} {p' : Panel}
    {sends : Sends} (relayed : Sends) (hr : Reacts (s.panels p) input p' sends)
    (hin : ∀ x ∈ input, (.edge p x.1, x.2) ∈ s.inFlight)
    (honce : ∀ e t k, input = some (e, .discoveryAdvance t k) →
      t = (s.panels p).assignedIndex → (s.panels p).probingEdgeIndex = none →
        ¬ GivenAway (s.panels p) k)
    (hrelayed : ∀ x ∈ relayed, x.2.isPull = false ∧
      ∀ port, W.cable (.edge p x.1) = some port → FrameIndexed W s owner port x.2)
    (hnone : (s.panels p).discovery.hasParent = false → relayed = []) :
    Indexed W (s.putPanel W p (p', relayed ++ sends)) owner := by
  have hpast : ∀ {n e p' sends}, (s.panels p).probingEdgeIndex = some e →
      Searches { (s.panels p).failChild e with probeAttempts := n } p' sends →
      Indexed W (s.putPanel W p (p', relayed ++ sends)) owner := by
    intro n e p' sends hprobing hsearch
    obtain ⟨-, hhands⟩ := h.probing p e hprobing
    have hsteady := steady_failChild (n := n) h hprobing
    have hbelow := hsteady.childrenBelow hhands.below
    exact h.searches hs hsearch hsteady rfl hhands.linked (hbelow.mono hhands.le_next)
      (fun _ => ⟨hhands.linked, hhands.two_le, hhands.le_next, hhands.owns, hbelow⟩) hrelayed
  cases hr with
  | ignores =>
      rw [List.append_nil]
      exact h.putPanel hs (steady_refl h p) fun x hx => Or.inl (hrelayed x hx)
  | @adopts e k pe hnew =>
      rw [hnone hnew, List.nil_append]
      exact h.adopt hs hnew (hin _ rfl)
  | @confirms e k pe hvia =>
      have hassign : (s.panels p).assign k = s.panels p := by
        simp [assign, h.index_ne_zero p e hvia]
      rw [hassign]
      refine h.putPanel hs (steady_refl h p) fun x hx => ?_
      rcases List.mem_append.mp hx with hx | hx
      · exact Or.inl (hrelayed x hx)
      · cases List.mem_singleton.mp hx
        refine Or.inl ⟨rfl, fun port hport _ q f hcable => ?_⟩
        rw [W.cable_symm hport] at hcable
        cases hcable
        exact Or.inr rfl
  | @rejects e k pe helse =>
      refine h.putPanel hs (steady_reject hs h helse (hs.frames _ (hin _ rfl))) fun x hx => ?_
      rcases List.mem_append.mp hx with hx | hx
      · exact Or.inl (hrelayed x hx)
      · cases List.mem_singleton.mp hx
        exact Or.inl ⟨rfl, fun port hport hk => absurd rfl hk⟩
  | @accepts e k ce pe hprobing hk =>
      rw [List.append_nil]
      exact h.acceptChild hs hprobing hk (hin _ rfl) hrelayed
  | refused hprobing hsearch => exact hpast hprobing hsearch
  | @advances e t k _ _ ht hprobing hsearch =>
      have hframe := h.frames _ (hin _ rfl)
      have hparent : (s.panels p).discovery.hasParent = true := by
        apply hs.assigned
        rw [← ht]
        exact hs.frames _ (hin _ rfl)
      have hlinked := (hs.linked_of_advance hparent hframe).1
      obtain ⟨-, htwo, hle, howner⟩ := hframe
      have hbelow : ChildrenBelow (s.panels p) k :=
        hs.childrenBelow (honce e t k rfl ht hprobing)
      refine h.searches hs hsearch (r := (s.panels p).advanceTo k) ?_ hprobing hlinked
        (hbelow.mono hle) ?_ hrelayed
      · refine ⟨fun _ => Iff.rfl, rfl, fun _ => id, fun _ hc _ => ⟨hc, rfl⟩, fun _ hu => ⟨hu, id⟩,
          id, fun f hf => ?_⟩
        rw [show ((s.panels p).advanceTo k).probingEdgeIndex = none from hprobing] at hf
        cases hf
      · intro hnext
        refine ⟨hlinked, htwo, hle, ?_, hbelow⟩
        rcases howner with howner | ⟨q, hq, hindex, hfin, -⟩
        · exact ht.symm.trans howner
        · obtain rfl := h.unique q p hq hlinked (hindex.trans ht)
          exact absurd hfin.2 hnext
  | @retries e nowMs hprobing =>
      obtain ⟨-, hhands⟩ := h.probing p e hprobing
      refine h.putPanel hs ⟨fun _ => Iff.rfl, rfl, fun _ => id, fun _ hc _ => ⟨hc, rfl⟩, ?_, ?_, ?_⟩
        fun x hx => ?_
      · intro f hu
        refine ⟨hu, fun hf => ?_⟩
        rw [hprobing] at hf
        exact hf
      · intro hfin
        rw [hfin.1] at hprobing
        cases hprobing
      · intro f hf
        cases hf
        exact ⟨⟨hhands.linked, hhands.two_le, hhands.le_next, hhands.owns, hhands.below⟩,
          Or.inl ⟨hprobing, rfl⟩⟩
      · rcases List.mem_append.mp hx with hx | hx
        · exact Or.inl (hrelayed x hx)
        · cases List.mem_singleton.mp hx
          exact Or.inr (Or.inl ⟨rfl, _, rfl⟩)
  | gives_up hprobing hsearch => exact hpast hprobing hsearch

/-! ### Runs -/

/-- A step of the fabric keeps the invariant, unless an index is handed out a second time. -/
theorem Indexed.step {s : Fabric P} {rank : P → ℕ} {owner : ℕ → ℕ} (hs : Sound W s rank)
    (h : Indexed W s owner) (ev : Event P) (hok : AdvancesOnce s ev) :
    ∃ owner', OwnerMoves s.coordinator (step W s ev).coordinator owner owner' ∧
      Indexed W (step W s ev) owner' := by
  have hstays : OwnerMoves s.coordinator s.coordinator owner owner :=
    .stays s.coordinator.sameWalk_refl
  cases ev with
  | elapse ms => exact ⟨owner, hstays, h.of_subset hs rfl rfl fun _ hx => hx⟩
  | lose i => exact ⟨owner, hstays, h.of_subset hs rfl rfl fun _ hx => List.mem_of_mem_eraseIdx hx⟩
  | again i =>
      refine ⟨owner, hstays, h.of_subset hs rfl rfl fun x hx => ?_⟩
      rcases List.mem_append.mp hx with hx | hx
      · exact hx
      · exact List.mem_of_getElem? (Option.mem_toList.mp hx)
  | tickPanel p =>
      exact ⟨owner, hstays, h.reacts hs [] (reacts_tick (s.panels p) s.nowMs)
        (fun x hx => by cases hx) (fun e t k hx => by cases hx) (fun x hx => by cases hx)
        fun _ => rfl⟩
  | tickController =>
      exact h.coordinator_moves hs (DiscoveryCoordinator.reacts_tick _ _) fun f hf => by cases hf
  | deliver i =>
      cases hi : s.inFlight[i]? with
      | none => simpa only [Fabric.step, hi] using ⟨owner, hstays, h⟩
      | some x =>
          obtain ⟨port, frame⟩ := x
          have hmem : (port, frame) ∈ s.inFlight := List.mem_of_getElem? hi
          simp only [Fabric.step, hi]
          cases port with
          | trunk =>
              obtain ⟨owner', hmoves, h'⟩ := h.coordinator_moves hs
                (s.coordinator.reacts_onFrameArrived frame s.nowMs) fun f hf => by
                  cases hf
                  exact hmem
              have hs' : Sound W (s.putCoordinator W (s.coordinator.onFrameArrived frame s.nowMs))
                  rank := hs.putCoordinator (s.coordinator.reacts_onFrameArrived frame s.nowMs).sends
              refine ⟨owner', hmoves, h'.of_subset hs' rfl rfl fun x hx => ?_⟩
              rcases List.mem_append.mp hx with hx | hx
              · exact List.mem_append_left _ (List.mem_of_mem_eraseIdx hx)
              · exact List.mem_append_right _ hx
          | edge p e =>
              have hr := reacts_driverOnFrameArrived (s.panels p) e frame s.nowMs
              have hrelay := hs.sendSound_of_relay (hs.frames _ hmem)
              have hin : ∀ x ∈ some (e, frame), (Port.edge p x.1, x.2) ∈ s.inFlight := by
                intro x hx
                cases hx
                exact hmem
              have honce : ∀ e' t k, some (e, frame) = some (e', .discoveryAdvance t k) →
                  t = (s.panels p).assignedIndex → (s.panels p).probingEdgeIndex = none →
                    ¬ GivenAway (s.panels p) k := by
                intro e' t k heq
                cases heq
                exact hok _ hi
              have hnone : (s.panels p).discovery.hasParent = false →
                  (s.panels p).relay e frame = [] := by
                intro hnew
                refine List.eq_nil_iff_forall_not_mem.mpr fun x hx => ?_
                rw [(hrelay x hx).1] at hnew
                cases hnew
              obtain ⟨rank', hs'⟩ := hs.reacts _ (fun x hx => hs.frames _ (hin x hx)) hr hrelay
              refine ⟨owner, hstays,
                (h.reacts hs _ hr hin honce (h.relay hs hmem) hnone).of_subset hs' rfl rfl
                  fun x hx => ?_⟩
              rcases List.mem_append.mp hx with hx | hx
              · exact List.mem_append_left _ (List.mem_of_mem_eraseIdx hx)
              · exact List.mem_append_right _ hx

theorem exists_indexed_step {s : Fabric P} (ev : Event P)
    (h : (∃ rank, Sound W s rank) ∧ ∃ owner, Indexed W s owner) (hok : AdvancesOnce s ev) :
    (∃ rank, Sound W (step W s ev) rank) ∧ ∃ owner, Indexed W (step W s ev) owner := by
  refine ⟨exists_sound_step h.1 ev, ?_⟩
  obtain ⟨⟨rank, hs⟩, owner, h⟩ := h
  obtain ⟨owner', -, h'⟩ := h.step hs ev hok
  exact ⟨owner', h'⟩

/-- In every run in which no idle panel with a child of index `k` or more is told to hand out `k`,
no two panels that are reachable over connected edges hold the same index. -/
theorem index_unique (W : Wiring P) (clock : ℕ) (s : Fabric P)
    (hs : Transition.Reachable (step W) AdvancesOnce (init W clock) s) :
    ∀ p q, OnTree W s p → OnTree W s q → (s.panels p).assignedIndex ≠ 0 →
      (s.panels p).assignedIndex = (s.panels q).assignedIndex → p = q := by
  have hinv := hs.invariant _ (fun s ev h hok => exists_indexed_step (s := s) ev h hok)
    ⟨exists_sound_init W clock, exists_indexed_init W clock⟩
  obtain ⟨⟨rank, hsound⟩, owner, h⟩ := hinv
  intro p q hp hq _ hindex
  exact h.unique p q (h.linked_of_onTree hsound hp) (h.linked_of_onTree hsound hq) hindex

/-! ### One lost registration -/

/-- The panel on the trunk has a leaf on each of its other two edges. -/
def twoLeaves : Wiring (Fin 3) where
  edgeCount p := if p = 0 then 3 else 1
  edgeCount_le := by decide
  cable
    | .trunk => some (.edge 0 0)
    | .edge 0 0 => some .trunk
    | .edge 0 1 => some (.edge 1 0)
    | .edge 0 2 => some (.edge 2 0)
    | .edge 1 0 => some (.edge 0 1)
    | .edge 2 0 => some (.edge 0 2)
    | _ => none
  cable_symm := by
    intro a b h
    split at h <;> cases h <;> rfl
  cable_irrefl := by
    intro a h
    split at h <;> cases h
  edge_lt := by
    intro p e b h
    split at h
    case h_7 => cases h
    all_goals rename_i heq; cases heq <;> decide

/-- The first leaf's registration reaches its parent and is lost between there and the
controller, which repeats its advance. -/
def lostRegistration : List (Event (Fin 3)) :=
  [.deliver 0, .deliver 0, .deliver 0, .deliver 0, .deliver 0, .lose 0, .elapse 200,
    .tickController, .deliver 0, .deliver 0, .deliver 0]

theorem index_unique_twoLeaves :
    let s := (lostRegistration.take 8).foldl (step twoLeaves) (init twoLeaves 0)
    OnTree twoLeaves s 0 ∧ OnTree twoLeaves s 1 ∧ ((s.panels 0).assignedIndex ≠ 0 →
      (s.panels 0).assignedIndex = (s.panels 1).assignedIndex → (0 : Fin 3) = 1) := by
  intro s
  have hs : Transition.Reachable (step twoLeaves) AdvancesOnce (init twoLeaves 0) s :=
    Transition.reachable_of_guarded _ .refl (by decide +kernel)
  have hroot : OnTree twoLeaves s 0 := .trunk (e := 0) rfl (by decide +kernel)
  have hleaf : OnTree twoLeaves s 1 := .across (e := 1) hroot (by decide +kernel) rfl
  exact ⟨hroot, hleaf, index_unique twoLeaves 0 s hs 0 1 hroot hleaf⟩

theorem lostRegistration_shares_index :
    let s := lostRegistration.foldl (step twoLeaves) (init twoLeaves 0)
    OnTree twoLeaves s 1 ∧ OnTree twoLeaves s 2 ∧ (s.panels 1).assignedIndex = 2 ∧
      (s.panels 2).assignedIndex = 2 := by
  intro s
  have hroot : OnTree twoLeaves s 0 := .trunk (e := 0) rfl (by decide +kernel)
  refine ⟨.across (e := 1) hroot (by decide +kernel) rfl,
    .across (e := 2) hroot (by decide +kernel) rfl, by decide +kernel, by decide +kernel⟩

end Lightnet.Fabric
