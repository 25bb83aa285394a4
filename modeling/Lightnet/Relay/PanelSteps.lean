import Lightnet.Relay.Panel
import Mathlib.Data.List.Nodup

/-!
# What a panel can do in one step

Every reaction of the driver, to a frame or to its timer, is one of a few kinds. The invariants of
the fabric are proved over these kinds and over what the router passes on, not over the code.
-/

namespace Lightnet.Panel

def ParentVia (p : Panel) (e : ℕ) : Prop :=
  p.discovery.hasParent = true ∧ p.discovery.parentEdge = e

def ParentElsewhere (p : Panel) (e : ℕ) : Prop :=
  p.discovery.hasParent = true ∧ p.discovery.parentEdge ≠ e

instance (p : Panel) (e : ℕ) : Decidable (p.ParentVia e) := by
  unfold ParentVia
  infer_instance

def Connected (p : Panel) (e : ℕ) : Prop := p.discovery.edges e = .connected

theorem isConnected_iff {p : Panel} {e : ℕ} :
    p.discovery.isConnected e = true ↔ p.Connected e := decide_eq_true_iff

theorem ParentVia.not_elsewhere {p : Panel} {e : ℕ} (h : p.ParentVia e) :
    ¬ p.ParentElsewhere e := fun h' => h'.2 h.2

theorem ParentVia.eq {p : Panel} {e f : ℕ} (h : p.ParentVia e) (h' : p.ParentVia f) : e = f :=
  h.2.symm.trans h'.2

theorem parentVia_or_elsewhere {p : Panel} (h : p.discovery.hasParent = true) (e : ℕ) :
    p.ParentVia e ∨ p.ParentElsewhere e := by
  by_cases he : p.discovery.parentEdge = e
  · exact Or.inl ⟨h, he⟩
  · exact Or.inr ⟨h, he⟩

/-! ### The panel after each kind of event -/

def assign (p : Panel) (k : ℕ) : Panel :=
  { p with assignedIndex := if p.assignedIndex = 0 then k else p.assignedIndex }

def adopt (p : Panel) (e k : ℕ) : Panel :=
  assign { p with discovery := { p.discovery with
    hasParent := true
    parentEdge := e
    edges := Function.update p.discovery.edges e .connected } } k

def reject (p : Panel) (e : ℕ) : Panel :=
  { p with discovery := { p.discovery with
    edges := Function.update p.discovery.edges e .notConnected } }

def acceptChild (p : Panel) (e k : ℕ) : Panel :=
  { p with probingEdgeIndex := none, discovery := p.discovery.onChildProbeAccepted e k }

def failChild (p : Panel) (e : ℕ) : Panel :=
  { p with probingEdgeIndex := none, discovery := p.discovery.onChildProbeFailed e }

def advanceTo (p : Panel) (k : ℕ) : Panel := { p with pendingAssignIndex := k }

def startProbe (p : Panel) (e : ℕ) (nowMs : Millis) : Panel :=
  { p with probeAttempts := 0, probingEdgeIndex := some e, probeStartedMs := nowMs }

def probeAgain (p : Panel) (e : ℕ) (nowMs : Millis) : Panel :=
  { p with
      probeAttempts := p.probeAttempts + 1
      probingEdgeIndex := some e
      probeStartedMs := nowMs }

/-- The panel looks for its next edge: it probes one or reports that none is left. -/
inductive Searches (p : Panel) : Panel → Sends → Prop
  | probes {e : ℕ} (nowMs : Millis) : p.nextEdge = some e →
      Searches p (p.startProbe e nowMs) [(e, .initializationPull p.pendingAssignIndex e)]
  | finds_none : p.nextEdge = none →
      Searches p p [(p.discovery.parentEdge, .discoveryDone p.assignedIndex)]

/-- One reaction of the driver, to a frame on an edge or to its timer. -/
inductive Reacts (p : Panel) : Option (ℕ × Frame) → Panel → Sends → Prop
  | ignores (input : Option (ℕ × Frame)) : Reacts p input p []
  | adopts {e k pe : ℕ} : p.discovery.hasParent = false →
      Reacts p (some (e, .initializationPull k pe)) (p.adopt e k)
        [(e, .registerEdge (p.adopt e k).assignedIndex e pe)]
  | confirms {e k pe : ℕ} : p.ParentVia e →
      Reacts p (some (e, .initializationPull k pe)) (p.assign k)
        [(e, .registerEdge (p.assign k).assignedIndex e pe)]
  | rejects {e k pe : ℕ} : p.ParentElsewhere e →
      Reacts p (some (e, .initializationPull k pe)) (p.reject e)
        [(e, .registerEdge discoveryRejectedIndex e pe)]
  | accepts {e k ce pe : ℕ} : p.probingEdgeIndex = some e → k ≠ 0 →
      Reacts p (some (e, .registerEdge k ce pe)) (p.acceptChild e k) []
  | refused {e ce pe : ℕ} {p' : Panel} {sends : Sends} : p.probingEdgeIndex = some e →
      Searches (p.failChild e) p' sends →
      Reacts p (some (e, .registerEdge 0 ce pe)) p' sends
  | advances {e t k : ℕ} {p' : Panel} {sends : Sends} : t = p.assignedIndex →
      p.probingEdgeIndex = none → Searches (p.advanceTo k) p' sends →
      Reacts p (some (e, .discoveryAdvance t k)) p' sends
  | retries {e : ℕ} (nowMs : Millis) : p.probingEdgeIndex = some e →
      Reacts p none (p.probeAgain e nowMs) [(e, .initializationPull p.pendingAssignIndex e)]
  | gives_up {e : ℕ} {p' : Panel} {sends : Sends} : p.probingEdgeIndex = some e →
      Searches { p.failChild e with probeAttempts := p.probeAttempts + 1 } p' sends →
      Reacts p none p' sends

theorem searches_tryNextEdge (p : Panel) (nowMs : Millis) :
    Searches p (p.tryNextEdge nowMs).1 (p.tryNextEdge nowMs).2 := by
  unfold tryNextEdge
  cases h : p.nextEdge with
  | none => exact .finds_none h
  | some e => exact .probes nowMs h

theorem handleInitializationPull_of_no_parent {p : Panel} (h : p.discovery.hasParent = false)
    (e k pe : ℕ) : p.handleInitializationPull e k pe =
      (p.adopt e k, [(e, .registerEdge (p.adopt e k).assignedIndex e pe)]) := by
  simp [handleInitializationPull, PanelDiscovery.onParentOffer, h, adopt, assign]

theorem handleInitializationPull_of_parentVia {p : Panel} {e : ℕ} (h : p.ParentVia e)
    (k pe : ℕ) : p.handleInitializationPull e k pe =
      (p.assign k, [(e, .registerEdge (p.assign k).assignedIndex e pe)]) := by
  simp [handleInitializationPull, PanelDiscovery.onParentOffer, h.1, h.2, assign]

theorem handleInitializationPull_of_elsewhere {p : Panel} {e : ℕ} (h : p.ParentElsewhere e)
    (k pe : ℕ) : p.handleInitializationPull e k pe =
      (p.reject e, [(e, .registerEdge discoveryRejectedIndex e pe)]) := by
  simp [handleInitializationPull, PanelDiscovery.onParentOffer, h.1, Ne.symm h.2, reject]

theorem reacts_handleInitializationPull (p : Panel) (e k pe : ℕ) :
    Reacts p (some (e, .initializationPull k pe)) (p.handleInitializationPull e k pe).1
      (p.handleInitializationPull e k pe).2 := by
  cases hparent : p.discovery.hasParent with
  | false =>
      rw [handleInitializationPull_of_no_parent hparent]
      exact .adopts hparent
  | true =>
      rcases parentVia_or_elsewhere hparent e with h | h
      · rw [handleInitializationPull_of_parentVia h]
        exact .confirms h
      · rw [handleInitializationPull_of_elsewhere h]
        exact .rejects h

theorem reacts_driverOnFrameArrived (p : Panel) (e : ℕ) (frame : Frame) (nowMs : Millis) :
    Reacts p (some (e, frame)) (p.driverOnFrameArrived e frame nowMs).1
      (p.driverOnFrameArrived e frame nowMs).2 := by
  cases frame with
  | initializationPull k pe => exact p.reacts_handleInitializationPull e k pe
  | registerEdge k ce pe =>
      simp only [driverOnFrameArrived]
      split_ifs with hprobing
      · by_cases hk : k = 0
        · subst hk
          simp only [handleRegisterEdgeReply, discoveryRejectedIndex, ne_eq, not_true, if_false]
          exact .refused hprobing (searches_tryNextEdge _ nowMs)
        · simp only [handleRegisterEdgeReply, discoveryRejectedIndex, ne_eq, hk, not_false_eq_true,
            if_true]
          exact .accepts hprobing hk
      · exact .ignores _
  | discoveryAdvance t k =>
      simp only [driverOnFrameArrived, handleAdvance]
      split_ifs with ht hprobing
      · exact .ignores _
      · exact .ignores _
      · rw [Option.not_isSome_iff_eq_none] at hprobing
        exact .advances (not_ne_iff.mp ht) hprobing (searches_tryNextEdge _ nowMs)
  | discoveryDone k => exact .ignores _
  | other type t payload => exact .ignores _

theorem reacts_tick (p : Panel) (nowMs : Millis) :
    Reacts p none (p.tick nowMs).1 (p.tick nowMs).2 := by
  unfold tick
  cases hprobing : p.probingEdgeIndex with
  | none => exact .ignores _
  | some e =>
      dsimp only
      split_ifs with htime hattempts
      · exact .ignores _
      · exact .retries nowMs hprobing
      · exact .gives_up hprobing (searches_tryNextEdge _ nowMs)

theorem nextEdge_eq_some {p : Panel} {e : ℕ} (h : p.nextEdge = some e) :
    e < p.discovery.edgeCount ∧ e ≠ p.discovery.parentEdge ∧
      p.discovery.edges e = .unexplored := by
  have hfound := List.find?_some h
  exact ⟨List.mem_range.mp (List.mem_of_find?_eq_some h), of_decide_eq_true hfound⟩

theorem nextEdge_eq_none_iff {p : Panel} :
    p.nextEdge = none ↔ ∀ e < p.discovery.edgeCount, e ≠ p.discovery.parentEdge →
      p.discovery.edges e ≠ .unexplored := by
  rw [nextEdge, List.find?_eq_none]
  constructor
  · intro h e hlt hne hun
    exact h e (List.mem_range.mpr hlt) (decide_eq_true ⟨hne, hun⟩)
  · intro h e hmem hfound
    obtain ⟨hne, hun⟩ := of_decide_eq_true hfound
    exact h e (List.mem_range.mp hmem) hne hun

/-! ### The router -/

theorem mem_floodEdges {p : Panel} {e e' : ℕ} :
    e' ∈ p.floodEdges e ↔ e' < p.discovery.edgeCount ∧ e' ≠ e ∧ p.Connected e' := by
  simp [floodEdges, PanelDiscovery.isConnected, Connected]

/-- The branch the scan settles on is one of the edges the flood would use. -/
theorem mem_floodEdges_of_branch {p : Panel} {e target e' : ℕ}
    (h : (p.branch e target).bestEdge = some e') : e' ∈ p.floodEdges e := by
  have hscan : ∀ (edges : List ℕ) (b : Branch),
      (edges.foldl (p.scanBranch e target) b).bestEdge = some e' →
      b.bestEdge = some e' ∨ e' ∈ edges ∧ e' ≠ e ∧ p.Connected e' := by
    intro edges
    induction edges with
    | nil => exact fun b hb => Or.inl hb
    | cons edge edges ih =>
        intro b hb
        rcases ih _ hb with hb | ⟨hmem, hrest⟩
        · unfold scanBranch at hb
          dsimp only at hb
          split_ifs at hb with hskip
          · exact Or.inl hb
          · exact Or.inl hb
          · cases hb
            rw [not_or, Bool.not_eq_false] at hskip
            exact Or.inr ⟨List.mem_cons_self, hskip.1,
              by simpa [PanelDiscovery.isConnected, Connected] using hskip.2⟩
          · exact Or.inl hb
        · exact Or.inr ⟨List.mem_cons_of_mem _ hmem, hrest⟩
  rcases hscan _ _ h with h | ⟨hmem, hne, hconn⟩
  · cases h
  · exact mem_floodEdges.mpr ⟨List.mem_range.mp hmem, hne, hconn⟩

theorem mem_routeDownstream {p : Panel} {e e' : ℕ} {frame frame' : Frame}
    (h : (e', frame') ∈ p.routeDownstream e frame) :
    frame' = frame ∧ e' ∈ p.floodEdges e := by
  unfold routeDownstream at h
  dsimp only at h
  split_ifs at h
  · obtain ⟨edge, hedge, heq⟩ := List.mem_map.mp h
    cases heq
    exact ⟨rfl, mem_floodEdges_of_branch (Option.mem_toList.mp hedge)⟩
  · obtain ⟨edge, hedge, heq⟩ := List.mem_map.mp h
    cases heq
    exact ⟨rfl, hedge⟩

/-- No edge gets two copies of a frame. -/
theorem relay_nodup (p : Panel) (e : ℕ) (frame : Frame) :
    ((p.relay e frame).map Prod.fst).Nodup := by
  have hroute : ((p.routeDownstream e frame).map Prod.fst).Nodup := by
    unfold routeDownstream
    dsimp only
    split_ifs
    · cases (p.branch e frame.targetPanelIndex).bestEdge with
      | none => exact List.nodup_nil
      | some edge => exact List.nodup_singleton _
    · rw [List.map_map, show (p.floodEdges e).map (Prod.fst ∘ fun edge => (edge, frame)) =
        p.floodEdges e from List.map_id' _]
      exact List.nodup_range.filter _
  unfold relay routerOnFrameArrived
  split_ifs
  · exact List.nodup_nil
  · exact hroute
  · exact List.nodup_singleton _
  · exact List.nodup_nil
  · exact List.nodup_nil

/-- Whatever is passed on goes up the parent edge, or down the connected child edges when it came
from the parent. -/
theorem mem_relay {p : Panel} {e e' : ℕ} {frame frame' : Frame}
    (h : (e', frame') ∈ p.relay e frame) :
    frame' = frame ∧ frame.isPull = false ∧
      (p.ParentElsewhere e ∧ p.ParentVia e' ∨
        p.ParentVia e ∧ p.ParentElsewhere e' ∧ p.Connected e') := by
  unfold relay routerOnFrameArrived at h
  split_ifs at h with hrelay hparent hedge hup
  · cases h
  · rw [Bool.not_eq_true, Bool.not_eq_false'] at hparent
    rw [Bool.and_eq_true, Bool.not_eq_true'] at hrelay
    obtain ⟨rfl, hflood⟩ := mem_routeDownstream h
    obtain ⟨-, hne, hconn⟩ := mem_floodEdges.mp hflood
    exact ⟨rfl, hrelay.1, Or.inr ⟨⟨hparent, hedge.symm⟩,
      ⟨hparent, fun h' => hne (h'.symm.trans hedge.symm)⟩, hconn⟩⟩
  · rw [Bool.not_eq_true, Bool.not_eq_false'] at hparent
    rw [Bool.and_eq_true, Bool.not_eq_true'] at hrelay
    cases List.mem_singleton.mp h
    exact ⟨rfl, hrelay.1, Or.inl ⟨⟨hparent, Ne.symm hedge⟩, hparent, rfl⟩⟩
  · cases h
  · cases h

end Lightnet.Panel
