import Lightnet.Relay.PacketFramer

/-!
# Frames and the edges they arrive on

A panel has one receive line for all its edges. A wake on an edge claims the line for it, and the
claim ends with a complete frame, with silence, after too long a time, or when another edge is
preferred. The one framer behind the line survives all of this, so it must never carry bytes from
one claim into the next.
-/

namespace Lightnet

open Framing

structure EdgeFrameReceiver where
  framer : PacketFramer
  activeEdge : Byte
  completedEdge : Byte
  lastActivityMs : BitVec 32
  claimStartMs : BitVec 32
  deriving DecidableEq

namespace EdgeFrameReceiver

def noEdge : Byte := 0xFF

def frameTimeoutMs : BitVec 32 := 20

def maxClaimMs : BitVec 32 := 100

def init : EdgeFrameReceiver := ⟨.init true, noEdge, noEdge, 0, 0⟩

def claim (r : EdgeFrameReceiver) (edgeIndex : Byte) (nowMs : BitVec 32) : EdgeFrameReceiver :=
  { r with activeEdge := edgeIndex, lastActivityMs := nowMs, claimStartMs := nowMs }

def release (r : EdgeFrameReceiver) : EdgeFrameReceiver := { r with activeEdge := noEdge }

def resetFramer (r : EdgeFrameReceiver) : EdgeFrameReceiver := { r with framer := r.framer.reset }

def onEdgeWake (r : EdgeFrameReceiver) (edgeIndex : Byte) (nowMs : BitVec 32) :
    EdgeFrameReceiver × Bool :=
  if r.activeEdge ≠ noEdge then (r, false) else (r.claim edgeIndex nowMs, true)

def preemptClaim (r : EdgeFrameReceiver) (edgeIndex : Byte) (nowMs : BitVec 32) :
    EdgeFrameReceiver × Bool :=
  if r.activeEdge = edgeIndex then (r, false)
  else ((if r.activeEdge ≠ noEdge then r.resetFramer else r).claim edgeIndex nowMs, true)

def onByte (r : EdgeFrameReceiver) (value : Byte) (nowMs : BitVec 32) :
    EdgeFrameReceiver × Bool :=
  if r.activeEdge = noEdge then (r, false)
  else
    let (framer, ready) := r.framer.pushByte value
    let r := { r with lastActivityMs := nowMs, framer := framer }
    if ready then ({ r with completedEdge := r.activeEdge }.release, true) else (r, false)

def tick (r : EdgeFrameReceiver) (nowMs : BitVec 32) : EdgeFrameReceiver :=
  if r.activeEdge = noEdge then r
  else if frameTimeoutMs ≤ nowMs - r.lastActivityMs then r.resetFramer.release
  else if maxClaimMs ≤ nowMs - r.claimStartMs then r.resetFramer.release
  else r

def frame (r : EdgeFrameReceiver) : List Byte := r.framer.frame.take r.framer.frameSize

def fromEdge (r : EdgeFrameReceiver) : Byte := r.completedEdge

def claimedEdge (r : EdgeFrameReceiver) : Byte := r.activeEdge

inductive Event where
  | wake (edgeIndex : Byte) (nowMs : BitVec 32)
  | preempt (edgeIndex : Byte) (nowMs : BitVec 32)
  | byte (value : Byte) (nowMs : BitVec 32)
  | tick (nowMs : BitVec 32)
  deriving DecidableEq

/-- The result of the call: a claim that moved, or a frame that is ready. -/
def handle (r : EdgeFrameReceiver) : Event → EdgeFrameReceiver × Bool
  | .wake edgeIndex nowMs => r.onEdgeWake edgeIndex nowMs
  | .preempt edgeIndex nowMs => r.preemptClaim edgeIndex nowMs
  | .byte value nowMs => r.onByte value nowMs
  | .tick nowMs => (r.tick nowMs, false)

def after (r : EdgeFrameReceiver) (evs : List Event) : EdgeFrameReceiver :=
  evs.foldl (fun r ev => (r.handle ev).1) r

theorem after_snoc (r : EdgeFrameReceiver) (evs : List Event) (ev : Event) :
    r.after (evs ++ [ev]) = ((r.after evs).handle ev).1 := by
  simp only [after, List.foldl_append, List.foldl_cons, List.foldl_nil]

/-! ### Claims -/

/-- The event gives the line to this edge. -/
def Claims (r : EdgeFrameReceiver) (start : Event) (edge : Byte) : Prop :=
  (r.handle start).2 = true ∧ ∃ t, start = .wake edge t ∨ start = .preempt edge t

/-- From the claiming event on, the line has belonged to this edge without interruption. -/
structure ClaimRun (r : EdgeFrameReceiver) (edge : Byte) (start : Event) (during : List Event) :
    Prop where
  edge_ne : edge ≠ noEdge
  claims : r.Claims start edge
  kept : ∀ evs, evs <+: during → ((r.handle start).1.after evs).claimedEdge = edge

def fedBytes (evs : List Event) : List Byte :=
  evs.filterMap (fun ev => match ev with | .byte value _ => some value | _ => none)

theorem ClaimRun.start {r : EdgeFrameReceiver} {edge : Byte} {start : Event}
    (hne : edge ≠ noEdge) (hclaims : r.Claims start edge)
    (hactive : (r.handle start).1.activeEdge = edge) : r.ClaimRun edge start [] := by
  refine ⟨hne, hclaims, ?_⟩
  intro evs hevs
  obtain rfl := List.prefix_nil.mp hevs
  exact hactive

theorem ClaimRun.snoc {r : EdgeFrameReceiver} {edge : Byte} {start : Event} {during : List Event}
    (h : r.ClaimRun edge start during) (ev : Event)
    (hactive : ((r.handle start).1.after (during ++ [ev])).activeEdge = edge) :
    r.ClaimRun edge start (during ++ [ev]) := by
  refine ⟨h.edge_ne, h.claims, ?_⟩
  intro evs hevs
  rcases List.prefix_concat_iff.mp hevs with rfl | hprefix
  · exact hactive
  · exact h.kept evs hprefix

/-! ### What the framer holds -/

theorem hasPartialFrame_of_pending_nil {f : PacketFramer} (hpending : f.pending = []) :
    f.hasPartialFrame = false := by
  unfold PacketFramer.hasPartialFrame
  by_cases hfull : f.filled = f.expectedSize
  · simp [hfull]
  · rw [PacketFramer.pending, if_neg hfull] at hpending
    simp [PacketFramer.filled, hpending]

theorem pushByte_pending {f : PacketFramer} (hf : f.WellFormed) (value : Byte) :
    (f.pushByte value).1.WellFormed ∧
    (f.pushByte value).1.pending <:+ f.pending ++ [value] ∧
    ((f.pushByte value).2 = true → (f.pushByte value).1.pending = [] ∧
      (f.pushByte value).1.frame.take (f.pushByte value).1.frameSize = f.pending ++ [value]) := by
  obtain ⟨hwell, -, hpush⟩ := PacketFramer.handle_letter_refines hf value
  have hpending : (PacketFramer.packetCode f.validateProtocolVersion).Pending f.pending := by
    intro hne
    rw [← PacketFramer.makeRoom_buffer] at hne
    have hroom := PacketFramer.makeRoom_room hf hne
    have hhead := (PacketFramer.makeRoom_wellFormed hf).expectedSize_eq
    rw [PacketFramer.filled, PacketFramer.makeRoom_buffer] at hroom
    rw [PacketFramer.makeRoom_buffer] at hne hhead
    obtain ⟨b, rest, hcons⟩ := List.exists_cons_of_ne_nil hne
    rw [hcons] at hroom hhead ⊢
    rw [hhead b rfl] at hroom
    exact hroom
  have hreport : (f.handle (.letter value)).2 = if (f.pushByte value).2 then
      some ((f.pushByte value).1.frame.take (f.pushByte value).1.frameSize) else none := rfl
  refine ⟨hwell, ?_⟩
  change ((f.pushByte value).1.pending, (f.handle (.letter value)).2) = _ at hpush
  rw [hreport] at hpush
  rcases Code.push_letter_cases _ f.pending value hpending with hcase | ⟨hcase, -⟩ | ⟨hcase, -⟩
  all_goals
    rw [hcase, Prod.mk.injEq] at hpush
    obtain ⟨hleft, hright⟩ := hpush
  · refine ⟨by rw [hleft]; exact List.nil_suffix, fun hready => ?_⟩
    rw [if_pos hready] at hright
    exact absurd hright (by simp)
  · refine ⟨by rw [hleft], fun hready => ?_⟩
    rw [if_pos hready] at hright
    exact absurd hright (by simp)
  · refine ⟨by rw [hleft]; exact List.nil_suffix, fun hready => ?_⟩
    rw [if_pos hready] at hright
    exact ⟨hleft, Option.some.inj hright⟩

/-- All that an event can do to the claim and to the candidate in the framer. -/
theorem handle_cases {r : EdgeFrameReceiver} (hr : r.framer.WellFormed)
    (hidle : r.activeEdge = noEdge → r.framer.pending = []) (ev : Event) :
    (r.handle ev).1.framer.WellFormed ∧
    (((r.handle ev).1.activeEdge = noEdge ∧ (r.handle ev).1.framer.pending = []) ∨
    (∃ edge, r.Claims ev edge ∧ (r.handle ev).1.activeEdge = edge ∧
      (r.handle ev).1.framer.pending = []) ∨
    ((r.handle ev).1.activeEdge = r.activeEdge ∧ r.activeEdge ≠ noEdge ∧
      (r.handle ev).1.framer.pending <:+ r.framer.pending ++ fedBytes [ev])) := by
  have hempty : r.framer.reset.pending = [] := PacketFramer.pending_of_empty rfl
  have hreset : r.framer.reset.WellFormed := PacketFramer.wellFormed_of_empty rfl
  cases ev with
  | wake edge t =>
      by_cases hactive : r.activeEdge = noEdge
      · have hhandle : r.handle (.wake edge t) = (r.claim edge t, true) :=
          if_neg (not_not.mpr hactive)
        rw [hhandle]
        refine ⟨hr, Or.inr (Or.inl ⟨edge, ⟨by rw [hhandle], t, Or.inl rfl⟩, rfl, hidle hactive⟩)⟩
      · have hhandle : r.handle (.wake edge t) = (r, false) := if_pos hactive
        rw [hhandle]
        refine ⟨hr, Or.inr (Or.inr ⟨rfl, hactive, ?_⟩)⟩
        rw [fedBytes, List.filterMap_cons_none rfl, List.filterMap_nil, List.append_nil]
  | preempt edge t =>
      by_cases hsame : r.activeEdge = edge
      · have hhandle : r.handle (.preempt edge t) = (r, false) := if_pos hsame
        rw [hhandle]
        refine ⟨hr, ?_⟩
        by_cases hactive : r.activeEdge = noEdge
        · exact Or.inl ⟨hactive, hidle hactive⟩
        · refine Or.inr (Or.inr ⟨rfl, hactive, ?_⟩)
          rw [fedBytes, List.filterMap_cons_none rfl, List.filterMap_nil, List.append_nil]
      · have hhandle : r.handle (.preempt edge t) =
            ((if r.activeEdge ≠ noEdge then r.resetFramer else r).claim edge t, true) :=
          if_neg hsame
        have hclaims : r.Claims (.preempt edge t) edge := ⟨by rw [hhandle], t, Or.inr rfl⟩
        rw [hhandle]
        by_cases hactive : r.activeEdge = noEdge
        · rw [if_neg (not_not.mpr hactive)]
          exact ⟨hr, Or.inr (Or.inl ⟨edge, hclaims, rfl, hidle hactive⟩)⟩
        · rw [if_pos hactive]
          exact ⟨hreset, Or.inr (Or.inl ⟨edge, hclaims, rfl, hempty⟩)⟩
  | byte value t =>
      by_cases hactive : r.activeEdge = noEdge
      · have hhandle : r.handle (.byte value t) = (r, false) := if_pos hactive
        rw [hhandle]
        exact ⟨hr, Or.inl ⟨hactive, hidle hactive⟩⟩
      · obtain ⟨hwell, hsuffix, hready⟩ := pushByte_pending hr value
        simp only [handle, onByte, if_neg hactive]
        cases hresult : (r.framer.pushByte value).2 with
        | true =>
            simp only [if_true]
            exact ⟨hwell, Or.inl ⟨rfl, (hready hresult).1⟩⟩
        | false =>
            simp only [Bool.false_eq_true, if_false]
            exact ⟨hwell, Or.inr (Or.inr ⟨trivial, hactive, hsuffix⟩)⟩
  | tick t =>
      by_cases hactive : r.activeEdge = noEdge
      · have hhandle : (r.handle (.tick t)).1 = r := if_pos hactive
        rw [hhandle]
        exact ⟨hr, Or.inl ⟨hactive, hidle hactive⟩⟩
      · simp only [handle, tick, if_neg hactive]
        split_ifs
        · exact ⟨hreset, Or.inl ⟨rfl, hempty⟩⟩
        · exact ⟨hreset, Or.inl ⟨rfl, hempty⟩⟩
        · refine ⟨hr, Or.inr (Or.inr ⟨rfl, hactive, ?_⟩)⟩
          rw [fedBytes, List.filterMap_cons_none rfl, List.filterMap_nil, List.append_nil]

/-! ### Whole runs -/

/-- An idle line has no candidate in the framer; a claimed one only bytes of that claim. -/
structure HoldsOnlyClaim (evs : List Event) : Prop where
  wellFormed : (init.after evs).framer.WellFormed
  idle : (init.after evs).activeEdge = noEdge → (init.after evs).framer.pending = []
  claimed : (init.after evs).activeEdge ≠ noEdge → ∃ before start during,
    evs = before ++ start :: during ∧
    (init.after before).ClaimRun (init.after evs).activeEdge start during ∧
    (init.after evs).framer.pending <:+ fedBytes during

theorem after_start (before : List Event) (start : Event) (during : List Event) :
    init.after (before ++ start :: during) = ((init.after before).handle start).1.after during := by
  simp only [after, List.foldl_append, List.foldl_cons]

theorem holdsOnlyClaim (evs : List Event) : HoldsOnlyClaim evs := by
  induction evs using List.reverseRecOn with
  | nil =>
      exact ⟨PacketFramer.wellFormed_of_empty rfl, fun _ => rfl, fun h => absurd rfl h⟩
  | append_singleton evs ev ih =>
      obtain ⟨hwell, hcases⟩ := handle_cases ih.wellFormed ih.idle ev
      rw [← after_snoc] at hwell hcases
      rcases hcases with ⟨hactive, hempty⟩ | ⟨edge, hclaims, hactive, hempty⟩ |
        ⟨hactive, hne, hsuffix⟩
      · exact ⟨hwell, fun _ => hempty, fun h => absurd hactive h⟩
      · refine ⟨hwell, fun _ => hempty, fun h => ⟨evs, ev, [], rfl, ?_, ?_⟩⟩
        · rw [hactive] at h ⊢
          rw [after_snoc] at hactive
          exact ClaimRun.start h hclaims hactive
        · rw [hempty]
          exact List.nil_suffix
      · refine ⟨hwell, fun h => absurd (hactive.symm.trans h) hne, fun _ => ?_⟩
        obtain ⟨before, start, during, hsplit, hrun, hfed⟩ := ih.claimed hne
        have hsplit' : evs ++ [ev] = before ++ start :: (during ++ [ev]) := by
          rw [hsplit]
          simp
        refine ⟨before, start, during ++ [ev], hsplit', ?_, ?_⟩
        · rw [hactive]
          refine hrun.snoc ev ?_
          rw [← after_start, ← hsplit', hactive]
        · refine hsuffix.trans ?_
          rw [fedBytes, fedBytes, List.filterMap_append]
          exact List.suffix_append_self_iff.mpr hfed

/-- A ready frame is the candidate of the claim that the byte belongs to, and is tagged with the
claimed edge. -/
theorem onByte_ready {r : EdgeFrameReceiver} (hr : r.framer.WellFormed) {value : Byte}
    {t : BitVec 32} (hready : (r.onByte value t).2 = true) :
    r.activeEdge ≠ noEdge ∧ (r.onByte value t).1.fromEdge = r.activeEdge ∧
      (r.onByte value t).1.frame = r.framer.pending ++ [value] := by
  by_cases hactive : r.activeEdge = noEdge
  · rw [onByte, if_pos hactive] at hready
    exact absurd hready Bool.false_ne_true
  · obtain ⟨-, -, hcomplete⟩ := pushByte_pending hr value
    simp only [onByte, if_neg hactive] at hready ⊢
    cases hresult : (r.framer.pushByte value).2 with
    | true =>
        simp only [if_true]
        exact ⟨hactive, rfl, (hcomplete hresult).2⟩
    | false =>
        rw [hresult] at hready
        exact absurd hready Bool.false_ne_true

/-- Every frame was fed in one uninterrupted claim of the edge it is tagged with, and no claim,
nor an idle line, starts with a partial frame. -/
theorem frames_within_claims (evs : List Event) :
    (∀ value t, ((init.after evs).onByte value t).2 = true →
      ∃ before start during, evs = before ++ start :: during ∧
        (init.after before).ClaimRun ((init.after evs).onByte value t).1.fromEdge start during ∧
        ((init.after evs).onByte value t).1.frame <:+ fedBytes during ++ [value]) ∧
    ((init.after evs).claimedEdge = noEdge →
      (init.after evs).framer.hasPartialFrame = false) ∧
    (∀ ev edge, (init.after evs).Claims ev edge →
      ((init.after evs).handle ev).1.framer.hasPartialFrame = false) := by
  have hholds := holdsOnlyClaim evs
  refine ⟨?_, fun hidle => hasPartialFrame_of_pending_nil (hholds.idle hidle), ?_⟩
  · intro value t hready
    obtain ⟨hactive, hedge, hframe⟩ := onByte_ready hholds.wellFormed hready
    obtain ⟨before, start, during, hsplit, hrun, hfed⟩ := hholds.claimed hactive
    refine ⟨before, start, during, hsplit, ?_, ?_⟩
    · rw [hedge]
      exact hrun
    · rw [hframe]
      exact List.suffix_append_self_iff.mpr hfed
  · intro ev edge hclaims
    apply hasPartialFrame_of_pending_nil
    obtain ⟨hmoved, t, rfl | rfl⟩ := hclaims
    · by_cases hactive : (init.after evs).activeEdge = noEdge
      · rw [handle, onEdgeWake, if_neg (not_not.mpr hactive)]
        exact hholds.idle hactive
      · rw [handle, onEdgeWake, if_pos hactive] at hmoved
        exact absurd hmoved Bool.false_ne_true
    · by_cases hsame : (init.after evs).activeEdge = edge
      · rw [handle, preemptClaim, if_pos hsame] at hmoved
        exact absurd hmoved Bool.false_ne_true
      · rw [handle, preemptClaim, if_neg hsame]
        by_cases hactive : (init.after evs).activeEdge = noEdge
        · rw [if_neg (not_not.mpr hactive)]
          exact hholds.idle hactive
        · rw [if_pos hactive]
          exact PacketFramer.pending_of_empty rfl

/-- A frame fed on edge 2 after a claim of edge 0 died mid-frame. -/
theorem frame_after_preemption :
    ∃ before start during,
      [Event.wake 0 1, .byte 1 2, .preempt 2 3] ++
        (frameBytes .ack 0 []).dropLast.map (fun b => Event.byte b 4) =
        before ++ start :: during ∧
      (init.after before).ClaimRun 2 start during ∧
      frameBytes .ack 0 [] <:+ fedBytes during ++ [(frameBytes .ack 0 []).getLast (by decide)] := by
  have h := (frames_within_claims ([Event.wake 0 1, .byte 1 2, .preempt 2 3] ++
    (frameBytes .ack 0 []).dropLast.map (fun b => Event.byte b 4))).1
    ((frameBytes .ack 0 []).getLast (by decide)) 5 (by decide +kernel)
  have hedge : ((init.after ([Event.wake 0 1, .byte 1 2, .preempt 2 3] ++
      (frameBytes .ack 0 []).dropLast.map (fun b => Event.byte b 4))).onByte
      ((frameBytes .ack 0 []).getLast (by decide)) 5).1.fromEdge = 2 := by decide +kernel
  have hframe : ((init.after ([Event.wake 0 1, .byte 1 2, .preempt 2 3] ++
      (frameBytes .ack 0 []).dropLast.map (fun b => Event.byte b 4))).onByte
      ((frameBytes .ack 0 []).getLast (by decide)) 5).1.frame = frameBytes .ack 0 [] := by decide +kernel
  rw [hedge, hframe] at h
  exact h

end EdgeFrameReceiver

end Lightnet
