import Lightnet.Animation.Settling

/-!
# Slots and their pending steps

A group has at most one slot, and the pending step of a slot waits there for its start. Only a
start that is accepted, a stop, a cleared queue or a newer prepare of the group may take it, with
one exception: a frame that reaps a finished step frees the whole slot, and the step that is
pending behind it is lost. The slots keep their discipline in exactly the runs in which no frame
falls on such a slot.
-/

namespace Lightnet.AnimationPlayer

/-- At most one occupied slot a group. -/
def OneSlotPerGroup (p : AnimationPlayer) : Prop :=
  ∀ i j, (p.slots i).occupied = true → (p.slots j).occupied = true →
    (p.slots i).groupId = (p.slots j).groupId → i = j

/-- The slot serves the group, and the step is what its next start will run. -/
structure Awaits (s : Slot) (g : Byte) (a : AnimationState) : Prop where
  occupied : s.occupied = true
  groupId : s.groupId = g
  hasPending : s.hasPending = true
  pending : s.pending = a

/-- The inputs that may take the pending step of the group. -/
def takes (p : AnimationPlayer) (g : Byte) : PlayerInput → Prop
  | .packet (.prepare pkt) => pkt.groupId = g
  | .packet (.start seqId groupId) => groupId = g ∧ seqId ≠ p.lastStartSeqId
  | .packet (.control .stop groupId) => groupId = 0 ∨ g = groupId
  | .packet (.control .clearQueue groupId) => groupId = 0 ∨ g = groupId
  | _ => False

/-- The slot runs the step as of now, its flagged colours taken from the last output, and nothing
waits behind it. -/
structure Runs (lastOutput : ColorRGB) (now : Ticks) (g : Byte) (a : AnimationState) (s' : Slot) :
    Prop where
  occupied : s'.occupied = true
  groupId : s'.groupId = g
  started : s'.started = true
  holding : s'.holding = false
  paused : s'.paused = false
  hasPending : s'.hasPending = false
  pausedElapsedMs : s'.pausedElapsedMs = 0
  cur : s'.cur = { a with
    startMs := now
    colorFrom := if a.hasFlag flagCurrentColorFrom then .rgb lastOutput else a.colorFrom
    colorTo := if a.hasFlag flagCurrentColorTo then .rgb lastOutput else a.colorTo }
  reactive : a.animType = .reactive → s'.reactiveTriggerMs = now ∧ s'.reactiveLevel = 0

/-- The pending step of the slot has been started. -/
structure StartedFrom (lastOutput : ColorRGB) (now : Ticks) (s s' : Slot) : Prop extends
    Runs lastOutput now s.groupId s.pending s' where
  pending : s'.pending = s.pending
  level : s.pending.animType ≠ .reactive →
    s'.reactiveTriggerMs = s.reactiveTriggerMs ∧ s'.reactiveLevel = s.reactiveLevel

/-- The slot is free, with the two steps as they were. -/
structure Freed (s s' : Slot) : Prop where
  occupied : s'.occupied = false
  started : s'.started = false
  holding : s'.holding = false
  paused : s'.paused = false
  hasPending : s'.hasPending = false
  pausedElapsedMs : s'.pausedElapsedMs = 0
  groupId : s'.groupId = 0
  reactiveLevel : s'.reactiveLevel = 0
  reactiveTriggerMs : s'.reactiveTriggerMs = 0
  cur : s'.cur = s.cur
  pending : s'.pending = s.pending

/-- What becomes of the step that is pending in the slot `i`. -/
def PendingLaw (p : AnimationPlayer) (e : TimedInput) (i : Fin maxAnimSlots) : Prop :=
  let s := p.slots i
  let s' := (p.stepAt e).slots i
  match e.input with
  | .packet (.prepare pkt) =>
      Awaits s' s.groupId (if pkt.groupId = s.groupId then pkt.toState else s.pending)
  | .packet (.start seqId g) =>
      if g = s.groupId ∧ seqId ≠ p.lastStartSeqId then
        StartedFrom p.lastOutput (clock e.time) s s'
      else Awaits s' s.groupId s.pending
  | .packet (.control .stop g) =>
      if g = 0 ∨ s.groupId = g then Freed s s' else Awaits s' s.groupId s.pending
  | .packet (.control .clearQueue g) =>
      if g = 0 ∨ s.groupId = g then s' = { s with hasPending := false }
      else Awaits s' s.groupId s.pending
  | _ => Awaits s' s.groupId s.pending

/-- The discipline of the slots, in every state of the run. -/
structure SlotDiscipline (es : List TimedInput) : Prop where
  oneSlot : ∀ pre post, es = pre ++ post → (init.run pre).OneSlotPerGroup
  law : ∀ pre e post, es = pre ++ e :: post → ∀ i, ((init.run pre).slots i).occupied = true →
    ((init.run pre).slots i).hasPending = true → PendingLaw (init.run pre) e i
  /-- A prepare that has a slot of its group, or a free one, is taken. -/
  taken : ∀ pre t pkt post, es = pre ++ ⟨t, .packet (.prepare pkt)⟩ :: post →
    ((init.run pre).findSlot pkt.groupId).isSome ∨ (init.run pre).freeSlot.isSome →
    ∃ i, Awaits ((init.run (pre ++ [⟨t, .packet (.prepare pkt)⟩])).slots i) pkt.groupId pkt.toState
  /-- As long as nothing takes it, a start of the group finds it. -/
  found : ∀ pre mid post g a, es = pre ++ mid ++ post →
    (∃ i, Awaits ((init.run pre).slots i) g a) →
    (∀ u e v, mid = u ++ e :: v → ¬ takes (init.run (pre ++ u)) g e.input) →
    ∃ i, Awaits ((init.run (pre ++ mid)).slots i) g a ∧
      (init.run (pre ++ mid)).findSlot g = some i

/-! ### What a start and a stop leave -/

theorem activatePending_eq (p : AnimationPlayer) (s : Slot) :
    p.activatePending s = { s with
      cur := { s.pending with
        startMs := p.nowMs
        colorFrom :=
          if s.pending.hasFlag flagCurrentColorFrom then .rgb p.lastOutput else s.pending.colorFrom
        colorTo :=
          if s.pending.hasFlag flagCurrentColorTo then .rgb p.lastOutput else s.pending.colorTo }
      hasPending := false
      started := true
      holding := false
      paused := false
      pausedElapsedMs := 0
      reactiveTriggerMs :=
        if s.pending.animType = .reactive then p.nowMs else s.reactiveTriggerMs
      reactiveLevel := if s.pending.animType = .reactive then 0 else s.reactiveLevel } := by
  unfold activatePending AnimationState.hasFlag
  dsimp only
  split_ifs <;> rfl

theorem activatePending_startedFrom (p : AnimationPlayer) {s : Slot} (hocc : s.occupied = true) :
    StartedFrom p.lastOutput p.nowMs s (p.activatePending s) := by
  rw [activatePending_eq]
  exact ⟨⟨hocc, rfl, rfl, rfl, rfl, rfl, rfl, rfl, fun h => ⟨if_pos h, if_pos h⟩⟩, rfl,
    fun h => ⟨if_neg h, if_neg h⟩⟩

theorem clearSlot_freed (s : Slot) : Freed s (clearSlot s) :=
  ⟨rfl, rfl, rfl, rfl, rfl, rfl, rfl, rfl, rfl, rfl, rfl⟩

/-! ### One slot a group -/

section
variable {p : AnimationPlayer}

theorem findSlot_of_occupied (hone : p.OneSlotPerGroup) {i : Fin maxAnimSlots}
    (hocc : (p.slots i).occupied = true) : p.findSlot (p.slots i).groupId = some i := by
  cases hfind : p.findSlot (p.slots i).groupId with
  | none => exact absurd rfl (p.findSlot_none hfind i hocc)
  | some j =>
      obtain ⟨hocc', hgroup⟩ := p.findSlot_some hfind
      rw [hone j i hocc' hocc hgroup]

/-- A frame that does not reap the slot changes nothing of it but the latch and a reactive level. -/
theorem compositeSlot_fst_of_not_expired {s : Slot} (h : expired p.nowMs s = false) :
    ∃ holding level, (p.compositeSlot s).1 = { s with holding, reactiveLevel := level } := by
  unfold compositeSlot
  by_cases hidle : (!s.occupied || !s.started) = true
  · rw [if_pos hidle]
    exact ⟨s.holding, s.reactiveLevel, rfl⟩
  obtain ⟨hocc, hstarted⟩ : s.occupied = true ∧ s.started = true := by simpa using hidle
  rw [if_neg hidle]
  dsimp only
  by_cases hloop : (s.cur.hasFlag flagLoop && s.cur.durationMs ≠ 0) = true
  · rw [if_pos hloop]
    exact ⟨s.holding, p.contribute_fst s _⟩
  rw [if_neg hloop]
  by_cases hearly : (!s.holding && p.slotElapsed s < s.cur.startDelayMs) = true
  · rw [if_pos hearly]
    exact ⟨s.holding, s.reactiveLevel, rfl⟩
  rw [if_neg hearly]
  rw [Bool.not_eq_true] at hloop hearly
  have hfin := finishes_eq_ended hocc hstarted hloop hearly
  rw [hfin, ← expired, h, if_neg Bool.false_ne_true]
  by_cases hended : ended p.nowMs s = true
  · rw [if_pos hended]
    exact ⟨true, p.contribute_fst { s with holding := true } _⟩
  · rw [if_neg hended]
    exact ⟨s.holding, p.contribute_fst s _⟩

theorem compositeSlot_fst_of_expired {s : Slot} (h : expired p.nowMs s = true) :
    (p.compositeSlot s).1 = reaped s := by
  rw [expired, Bool.and_eq_true] at h
  obtain ⟨-, -, -, -, hone, -⟩ := ended_iff.mp h.1
  simp only [oneShot, Bool.and_eq_true, decide_eq_true_eq] at hone
  have hdecays : decays p.nowMs s = false := by
    simp [decays, hone.2]
  rw [compositeSlot_fst hdecays, latch, if_pos h.1, if_pos h.2]

/-- The slot after a frame: freed, or as it was for all that its group and pending step are. -/
theorem compositeSlot_keeps (s : Slot) :
    (p.compositeSlot s).1.groupId = s.groupId ∧
      ((p.compositeSlot s).1.occupied = true → s.occupied = true) := by
  cases hexp : expired p.nowMs s with
  | true =>
      rw [compositeSlot_fst_of_expired hexp]
      exact ⟨rfl, fun h => absurd h Bool.false_ne_true⟩
  | false =>
      obtain ⟨holding, level, heq⟩ := compositeSlot_fst_of_not_expired hexp
      rw [heq]
      exact ⟨rfl, id⟩

/-- An occupied slot was occupied for its group before, or is the free slot that a prepare of a new
group took. -/
theorem stepAt_slot_origin (e : TimedInput) (i : Fin maxAnimSlots)
    (hocc : ((p.stepAt e).slots i).occupied = true) :
    ((p.slots i).occupied = true ∧ ((p.stepAt e).slots i).groupId = (p.slots i).groupId) ∨
    (p.findSlot ((p.stepAt e).slots i).groupId = none ∧ p.freeSlot = some i) := by
  obtain ⟨t, input⟩ := e
  cases input with
  | tick =>
      change ((p.tick (clock t)).slots i).occupied = true at hocc
      refine .inl ?_
      change (p.slots i).occupied = true ∧
        ((p.tick (clock t)).slots i).groupId = (p.slots i).groupId
      by_cases hframe : p.framesAt t
      · rw [tick_of_framesAt hframe, composite_slots] at hocc ⊢
        have hkeeps := compositeSlot_keeps (p := p.atFrame t) (p.slots i)
        exact ⟨hkeeps.2 hocc, hkeeps.1⟩
      · rw [tick_of_not_framesAt hframe] at hocc ⊢
        exact ⟨hocc, rfl⟩
  | packet packet =>
      have hchange := p.handlePacket_slotChange (clock t) packet i
      change ((p.handlePacket (clock t) packet).slots i).occupied = true at hocc
      change (_ ∧ ((p.handlePacket (clock t) packet).slots i).groupId = _) ∨
        p.findSlot ((p.handlePacket (clock t) packet).slots i).groupId = none ∧ _
      generalize (p.handlePacket (clock t) packet).slots i = s' at hchange hocc ⊢
      cases hchange with
      | same => exact .inl ⟨hocc, rfl⟩
      | refill pkt hfind => exact .inl ⟨hocc, rfl⟩
      | alloc pkt hnone hfree => exact .inr ⟨hnone, hfree⟩
      | activate seqId g hfind hpending =>
          refine .inl ⟨(p.findSlot_some hfind).1, ?_⟩
          unfold activatePending
          dsimp only
          split_ifs <;> rfl
      | control cmd g hocc' haddr =>
          refine .inl ⟨hocc', ?_⟩
          cases cmd <;> simp only [controlSlot] at hocc ⊢
          case stop => exact absurd hocc Bool.false_ne_true
          all_goals split_ifs <;> rfl
      | trigger seqId g t value ms haddr htype => exact .inl ⟨hocc, rfl⟩

theorem OneSlotPerGroup.step (hone : p.OneSlotPerGroup) (e : TimedInput) :
    (p.stepAt e).OneSlotPerGroup := by
  intro i j hi hj hgroup
  rcases stepAt_slot_origin e i hi with ⟨hocc, hkeep⟩ | ⟨hnone, hfree⟩ <;>
    rcases stepAt_slot_origin e j hj with ⟨hocc', hkeep'⟩ | ⟨hnone', hfree'⟩
  · exact hone i j hocc hocc' (by rw [← hkeep, ← hkeep', hgroup])
  · rw [← hgroup, hkeep] at hnone'
    exact absurd rfl (p.findSlot_none hnone' i hocc)
  · rw [hgroup, hkeep'] at hnone
    exact absurd rfl (p.findSlot_none hnone j hocc')
  · exact Option.some.inj (hfree.symm.trans hfree')

theorem run_append (p : AnimationPlayer) (es es' : List TimedInput) :
    p.run (es ++ es') = (p.run es).run es' := List.foldl_append

/-- A group never has two slots, whatever the panel receives. -/
theorem run_oneSlotPerGroup (es : List TimedInput) : (init.run es).OneSlotPerGroup := by
  induction es using List.reverseRecOn with
  | nil =>
      intro i j hocc
      exact absurd hocc Bool.false_ne_true
  | append_singleton es e ih =>
      rw [run_append]
      exact ih.step e

/-! ### What becomes of a pending step -/

/-- A frame never falls on a finished step that is to be reaped while another step is pending
behind it. -/
def NoReapOverPending (p : AnimationPlayer) (e : TimedInput) : Prop :=
  e.input = .tick → p.framesAt e.time →
    ∀ i, (p.slots i).hasPending = true → expired (clock e.time) (p.slots i) = false

theorem Awaits.of_eq {s s' : Slot} (h : s' = s) (hocc : s.occupied = true)
    (hpending : s.hasPending = true) : Awaits s' s.groupId s.pending := by
  rw [h]
  exact ⟨hocc, rfl, hpending, rfl⟩

theorem prepare_awaits {pkt : PacketAnimationPrepare} {i : Fin maxAnimSlots}
    (h : p.findSlot pkt.groupId = some i ∨
      p.findSlot pkt.groupId = none ∧ p.freeSlot = some i) :
    Awaits ((p.prepare pkt).slots i) pkt.groupId pkt.toState := by
  unfold prepare allocSlot
  rcases h with hfind | ⟨hnone, hfree⟩
  · obtain ⟨hocc, hgroup⟩ := p.findSlot_some hfind
    simp only [hfind, setSlot_slots, Function.update_self]
    exact ⟨hocc, hgroup, rfl, rfl⟩
  · simp only [hnone, hfree, setSlot_slots, Function.update_self]
    exact ⟨rfl, rfl, rfl, rfl⟩

/-- Packets for other groups leave the step pending. -/
theorem handlePacket_awaits_other {now : Ticks} {packet : AnimationPacket} {i : Fin maxAnimSlots}
    (hocc : (p.slots i).occupied = true) (hpending : (p.slots i).hasPending = true)
    (h : addresses (p.slots i).groupId packet = false) :
    Awaits ((p.handlePacket now packet).slots i) (p.slots i).groupId (p.slots i).pending :=
  Awaits.of_eq (p.handlePacket_slots_other hocc h) hocc hpending

theorem pendingLaw_prepare (hone : p.OneSlotPerGroup) {i : Fin maxAnimSlots}
    (hocc : (p.slots i).occupied = true) (hpending : (p.slots i).hasPending = true) (t : ℕ)
    (pkt : PacketAnimationPrepare) : p.PendingLaw ⟨t, .packet (.prepare pkt)⟩ i := by
  change Awaits ((p.handlePacket (clock t) (.prepare pkt)).slots i) _ _
  by_cases hgroup : pkt.groupId = (p.slots i).groupId
  · rw [if_pos hgroup, ← hgroup]
    apply prepare_awaits
    rw [hgroup]
    exact .inl (findSlot_of_occupied hone hocc)
  · rw [if_neg hgroup]
    apply handlePacket_awaits_other hocc hpending
    simpa [addresses] using hgroup

theorem pendingLaw_start (hone : p.OneSlotPerGroup) {i : Fin maxAnimSlots}
    (hocc : (p.slots i).occupied = true) (hpending : (p.slots i).hasPending = true) (t : ℕ)
    (seqId g : Byte) : p.PendingLaw ⟨t, .packet (.start seqId g)⟩ i := by
  change if g = (p.slots i).groupId ∧ seqId ≠ p.lastStartSeqId then
      StartedFrom p.lastOutput (clock t) (p.slots i) ((p.start seqId g (clock t)).slots i)
    else Awaits ((p.start seqId g (clock t)).slots i) _ _
  by_cases hseq : seqId = p.lastStartSeqId
  · rw [if_neg (fun h => h.2 hseq), start_of_seqId_eq p hseq]
    exact Awaits.of_eq rfl hocc hpending
  by_cases hgroup : g = (p.slots i).groupId
  · rw [if_pos ⟨hgroup, hseq⟩]
    have hfind : p.findSlot g = some i := by
      rw [hgroup]
      exact findSlot_of_occupied hone hocc
    rw [start_of_pending p hseq hfind hpending, Function.update_self]
    exact activatePending_startedFrom { p with nowMs := clock t } hocc
  · rw [if_neg (fun h => hgroup h.1)]
    apply @handlePacket_awaits_other p (clock t) (.start seqId g) i hocc hpending
    simpa [addresses] using hgroup

theorem pendingLaw_control {i : Fin maxAnimSlots} (hocc : (p.slots i).occupied = true)
    (hpending : (p.slots i).hasPending = true) (t : ℕ) (cmd : AnimationControl) (g : Byte) :
    p.PendingLaw ⟨t, .packet (.control cmd g)⟩ i := by
  have hstep : (p.stepAt ⟨t, .packet (.control cmd g)⟩).slots i =
      (p.control cmd g (clock t)).slots i := rfl
  by_cases haddr : g = 0 ∨ (p.slots i).groupId = g
  · have hslot := @control_slots_addressed p cmd g (clock t) i hocc haddr
    rw [← hstep] at hslot
    cases cmd <;> simp only [PendingLaw, if_pos haddr]
    case stop =>
      rw [hslot]
      exact clearSlot_freed _
    case clearQueue => exact hslot
    all_goals
      rw [hslot, controlSlot]
      split_ifs <;> exact ⟨hocc, rfl, hpending, rfl⟩
  · have hslot := @control_slots_other p cmd g (clock t) i (by tauto)
    rw [← hstep] at hslot
    cases cmd <;> simp only [PendingLaw, if_neg haddr] <;> exact Awaits.of_eq hslot hocc hpending

theorem pendingLaw_tick_iff {i : Fin maxAnimSlots} (hocc : (p.slots i).occupied = true)
    (hpending : (p.slots i).hasPending = true) (t : ℕ) :
    p.PendingLaw ⟨t, .tick⟩ i ↔ (p.framesAt t → expired (clock t) (p.slots i) = false) := by
  change Awaits ((p.tick (clock t)).slots i) _ _ ↔ _
  by_cases hframe : p.framesAt t
  · rw [tick_of_framesAt hframe, composite_slots]
    constructor
    · intro hawaits _
      rw [Bool.eq_false_iff]
      intro hexp
      have hpend : ((p.atFrame t).compositeSlot (p.slots i)).1.hasPending = true :=
        hawaits.hasPending
      rw [compositeSlot_fst_of_expired (p := p.atFrame t) hexp] at hpend
      exact Bool.false_ne_true hpend
    · intro hexp
      obtain ⟨holding, level, heq⟩ :=
        compositeSlot_fst_of_not_expired (p := p.atFrame t) (hexp hframe)
      change Awaits ((p.atFrame t).compositeSlot (p.slots i)).1 _ _
      rw [heq]
      exact ⟨hocc, rfl, hpending, rfl⟩
  · rw [tick_of_not_framesAt hframe]
    exact ⟨fun _ h => absurd h hframe, fun _ => Awaits.of_eq rfl hocc hpending⟩

theorem pendingLaw_packet (hone : p.OneSlotPerGroup) {i : Fin maxAnimSlots}
    (hocc : (p.slots i).occupied = true) (hpending : (p.slots i).hasPending = true) (t : ℕ)
    (packet : AnimationPacket) : p.PendingLaw ⟨t, .packet packet⟩ i := by
  cases packet with
  | prepare pkt => exact pendingLaw_prepare hone hocc hpending t pkt
  | start seqId g => exact pendingLaw_start hone hocc hpending t seqId g
  | control cmd g => exact pendingLaw_control hocc hpending t cmd g
  | updateParams seqId g paramType value ms =>
      change Awaits ((p.updateParams seqId g paramType value (clock t)).slots i) _ _
      rw [updateParams_slots]
      split_ifs <;> exact ⟨hocc, rfl, hpending, rfl⟩
  | setPalette stops => exact Awaits.of_eq (congrFun (p.setPalette_slots stops) i) hocc hpending
  | setBackground c => exact Awaits.of_eq (congrFun (p.setBackground_slots c) i) hocc hpending
  | setColor c => exact Awaits.of_eq rfl hocc hpending
  | setBaseColors colors => exact Awaits.of_eq rfl hocc hpending
  | setGlobalBrightness value => exact Awaits.of_eq rfl hocc hpending
  | turnOnOff on => exact Awaits.of_eq rfl hocc hpending

/-- The one step that breaks the law is the frame that reaps a slot with a pending step. -/
theorem pendingLaw_iff (hone : p.OneSlotPerGroup) (e : TimedInput) :
    (∀ i, (p.slots i).occupied = true → (p.slots i).hasPending = true → p.PendingLaw e i) ↔
      p.NoReapOverPending e := by
  obtain ⟨t, input⟩ := e
  cases input with
  | packet packet =>
      constructor
      · intro _ htick
        cases htick
      · intro _ i hocc hpending
        exact pendingLaw_packet hone hocc hpending t packet
  | tick =>
      constructor
      · intro hlaw _ hframe i hpending
        rw [Bool.eq_false_iff]
        intro hexp
        rw [expired, Bool.and_eq_true] at hexp
        have hocc := (ended_iff.mp hexp.1).1
        have hspared := (pendingLaw_tick_iff hocc hpending t).mp (hlaw i hocc hpending) hframe
        rw [expired, hexp.1, hexp.2] at hspared
        exact absurd hspared.symm Bool.false_ne_true
      · intro hspares i hocc hpending
        rw [pendingLaw_tick_iff hocc hpending]
        exact fun hframe => hspares rfl hframe i hpending

/-- What takes the step is named by `takes`. -/
theorem PendingLaw.awaits {e : TimedInput} {i : Fin maxAnimSlots} {g : Byte} {a : AnimationState}
    (hlaw : p.PendingLaw e i) (h : Awaits (p.slots i) g a) (hkept : ¬ p.takes g e.input) :
    Awaits ((p.stepAt e).slots i) g a := by
  obtain ⟨-, rfl, -, rfl⟩ := h
  obtain ⟨t, input⟩ := e
  cases input with
  | tick => exact hlaw
  | packet packet =>
      cases packet with
      | prepare pkt =>
          simp only [PendingLaw, if_neg (show ¬ pkt.groupId = (p.slots i).groupId from hkept)]
            at hlaw
          exact hlaw
      | start seqId g =>
          have hnot : ¬ (g = (p.slots i).groupId ∧ seqId ≠ p.lastStartSeqId) := hkept
          simp only [PendingLaw, if_neg hnot] at hlaw
          exact hlaw
      | control cmd g =>
          cases cmd
          case pause => exact hlaw
          case resume => exact hlaw
          all_goals
            have hnot : ¬ (g = 0 ∨ (p.slots i).groupId = g) := hkept
            simp only [PendingLaw, if_neg hnot] at hlaw
            exact hlaw
      | updateParams seqId g paramType value ms => exact hlaw
      | setPalette stops => exact hlaw
      | setBackground c => exact hlaw
      | setColor c => exact hlaw
      | setBaseColors colors => exact hlaw
      | setGlobalBrightness value => exact hlaw
      | turnOnOff on => exact hlaw

end

/-- A step that nothing takes stays pending through a run that reaps nothing over it. -/
theorem run_awaits {pre mid : List TimedInput} {g : Byte} {a : AnimationState}
    {i : Fin maxAnimSlots}
    (hspares : ∀ u e v, mid = u ++ e :: v → (init.run (pre ++ u)).NoReapOverPending e)
    (hkept : ∀ u e v, mid = u ++ e :: v → ¬ takes (init.run (pre ++ u)) g e.input)
    (h : Awaits ((init.run pre).slots i) g a) : Awaits ((init.run (pre ++ mid)).slots i) g a := by
  induction mid using List.reverseRecOn with
  | nil => rwa [List.append_nil]
  | append_singleton mid e ih =>
      have hmid : Awaits ((init.run (pre ++ mid)).slots i) g a := by
        apply ih
        · intro u e' v huv
          exact hspares u e' (v ++ [e]) (by rw [huv, List.append_assoc, List.cons_append])
        · intro u e' v huv
          exact hkept u e' (v ++ [e]) (by rw [huv, List.append_assoc, List.cons_append])
      have hlaw := (pendingLaw_iff (run_oneSlotPerGroup (pre ++ mid)) e).mpr (hspares mid e [] rfl)
        i hmid.occupied hmid.hasPending
      rw [← List.append_assoc, run_append]
      exact hlaw.awaits hmid (hkept mid e [] rfl)

end Lightnet.AnimationPlayer

namespace Lightnet

open AnimationPlayer in
/-- The slots keep their discipline in a run if and only if no frame of it reaps a slot that has a
pending step. -/
theorem slotDiscipline_iff (es : List TimedInput) :
    SlotDiscipline es ↔
      ∀ pre e post, es = pre ++ e :: post → (init.run pre).NoReapOverPending e := by
  constructor
  · intro h pre e post hes
    exact (pendingLaw_iff (run_oneSlotPerGroup pre) e).mp (h.law pre e post hes)
  · intro hspares
    refine ⟨fun pre _ _ => run_oneSlotPerGroup pre, ?law, ?taken, ?found⟩
    case law =>
      intro pre e post hes
      exact (pendingLaw_iff (run_oneSlotPerGroup pre) e).mpr (hspares pre e post hes)
    case taken =>
      intro pre t pkt post hes hroom
      rw [run_append]
      cases hfind : (init.run pre).findSlot pkt.groupId with
      | some i => exact ⟨i, prepare_awaits (.inl hfind)⟩
      | none =>
          rw [hfind] at hroom
          cases hfree : (init.run pre).freeSlot with
          | some i => exact ⟨i, prepare_awaits (.inr ⟨hfind, hfree⟩)⟩
          | none =>
              rw [hfree] at hroom
              simp at hroom
    case found =>
      rintro pre mid post g a hes ⟨i, hi⟩ hkept
      have hmid : Awaits ((init.run (pre ++ mid)).slots i) g a := by
        apply run_awaits _ hkept hi
        intro u e v huv
        apply hspares (pre ++ u) e (v ++ post)
        rw [hes, huv, List.append_assoc, List.append_assoc, List.append_assoc, List.cons_append]
      refine ⟨i, hmid, ?_⟩
      rw [← hmid.groupId]
      exact findSlot_of_occupied (run_oneSlotPerGroup _) hmid.occupied

/-- A drop of 100 ms that frees its slot when it is done. -/
def reapedPulse : PacketAnimationPrepare where
  animType := .pulse
  groupId := 5
  flags := flagReapOnDone
  transitionMs := 0
  durationMs := 100
  colorFrom := .rgb .black
  colorTo := .rgb .white
  param1 := 64
  param2 := 191
  composeMode := .default
  composeOrder := 0
  startDelayMs := 0
  animates := .color

/-- The next drop of the group is prepared as the last one ends. -/
def preparedAsReaped : List TimedInput :=
  [⟨0, .packet (.prepare reapedPulse)⟩, ⟨0, .packet (.start 1 5)⟩,
    ⟨100, .packet (.prepare reapedPulse)⟩]

open AnimationPlayer in
/-- The frame at the end of the old drop discards the new one, and its start finds no slot. -/
theorem preparedAsReaped_lost :
    ¬ SlotDiscipline (preparedAsReaped ++ [⟨100, .tick⟩] ++ [⟨101, .packet (.start 2 5)⟩]) := by
  intro h
  have hpending : Awaits ((init.run preparedAsReaped).slots 0) 5 reapedPulse.toState :=
    ⟨by decide, by decide, by decide, by decide⟩
  obtain ⟨i, -, hfind⟩ := h.found preparedAsReaped [⟨100, .tick⟩] _ 5 _ rfl ⟨0, hpending⟩ (by
    intro u e v huv
    obtain ⟨rfl, rfl, -⟩ : u = [] ∧ e = ⟨100, .tick⟩ ∧ v = [] := by
      cases u with
      | nil => simpa using huv.symm
      | cons e' u => simp at huv
    exact id)
  have hnone : (init.run (preparedAsReaped ++ [⟨100, .tick⟩])).findSlot 5 = none := by decide
  rw [hnone] at hfind
  cases hfind

end Lightnet
