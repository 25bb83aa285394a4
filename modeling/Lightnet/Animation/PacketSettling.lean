import Lightnet.Animation.Settling

/-!
# Packets and settling

A packet that does not depend on an end that no frame has seen does the same to the settled slots
as to the slots themselves. Besides its slots a player keeps the numbers of the last start and
update and the colours of the scene; what it shows is no part of either, as long as no step takes
its colours from there.
-/

namespace Lightnet.AnimationPlayer

/-! ### What a player keeps besides its slots -/

structure Settings where
  lastStartSeqId : Byte
  lastParamsSeqId : Byte
  palette : List GradientStop
  baseColors : Fin baseColorsCount → ColorRGB
  backgroundColor : ColorRGB

def settings (p : AnimationPlayer) : Settings :=
  ⟨p.lastStartSeqId, p.lastParamsSeqId, p.palette, p.baseColors, p.backgroundColor⟩

def Settings.handlePacket (s : Settings) : AnimationPacket → Settings
  | .start seqId _ => { s with lastStartSeqId := seqId }
  | .updateParams seqId _ _ _ _ => { s with lastParamsSeqId := seqId }
  | .setColor color => { s with backgroundColor := color }
  | .setPalette stops => if stops = [] then s else { s with palette := stops.take paletteStops }
  | .setBaseColors colors => { s with baseColors := colors }
  | .setBackground color => { s with backgroundColor := color }
  | _ => s

section
variable (p : AnimationPlayer)

@[simp] theorem setOutput_settings (c : ColorRGB) : (p.setOutput c).settings = p.settings := by
  unfold setOutput
  split_ifs <;> rfl

@[simp] theorem composite_settings : p.composite.settings = p.settings := by
  unfold composite
  dsimp only
  split_ifs <;> rw [setOutput_settings] <;> rfl

theorem prepare_settings (pkt : PacketAnimationPrepare) :
    (p.prepare pkt).settings = p.settings := by
  unfold prepare allocSlot
  cases p.findSlot pkt.groupId with
  | some i => rfl
  | none => cases p.freeSlot <;> rfl

theorem start_settings (seqId g : Byte) (now : Ticks) :
    (p.start seqId g now).settings = { p.settings with lastStartSeqId := seqId } := by
  unfold start
  dsimp only
  split_ifs with hseq
  · rw [hseq]
    rfl
  · split
    · rfl
    · split_ifs <;> rfl

theorem updateParams_settings (seqId g : Byte) (t : AnimationParamType) (value : Byte)
    (now : Ticks) :
    (p.updateParams seqId g t value now).settings =
      { p.settings with lastParamsSeqId := seqId } := by
  unfold updateParams
  dsimp only
  split_ifs with hseq
  · rw [hseq]
    rfl
  · rfl
  · rfl

theorem handlePacket_settings (now : Ticks) (packet : AnimationPacket) :
    (p.handlePacket now packet).settings = p.settings.handlePacket packet := by
  cases packet with
  | prepare pkt => exact p.prepare_settings pkt
  | start seqId g => exact p.start_settings seqId g now
  | updateParams seqId g t value ms => exact p.updateParams_settings seqId g t value now
  | setPalette stops =>
      simp only [handlePacket, setPalette, Settings.handlePacket]
      split_ifs <;> rfl
  | setBackground c =>
      simp only [handlePacket, setBackground, Settings.handlePacket]
      split_ifs
      · rfl
      · rw [setOutput_settings]
        rfl
  | control cmd g => rfl
  | setColor c => rfl
  | setBaseColors colors => rfl
  | setGlobalBrightness value => rfl
  | turnOnOff on => rfl

end

/-! ### Packets and settling -/

def settledAt (now : Ticks) (p : AnimationPlayer) : AnimationPlayer :=
  { p with slots := fun i => settled now (p.slots i) }

/-- No packet depends on an end that no frame has seen: a prepare finds the slot it would find
after a frame, the pending step that a start looks for is not about to be dropped, and a pause
addresses no step that has ended. -/
def Unaffected (now : Ticks) (p : AnimationPlayer) : AnimationPacket → Prop
  | .prepare pkt =>
    (∀ i, expired now (p.slots i) = true → (p.slots i).groupId ≠ pkt.groupId) ∧
      (p.findSlot pkt.groupId = none →
        ∀ i, expired now (p.slots i) = true → ∃ j < i, (p.slots j).occupied = false)
  | .start _ g =>
    ∀ i, expired now (p.slots i) = true → (p.slots i).groupId = g → (p.slots i).hasPending = false
  | .control .pause g =>
    ∀ i, g = 0 ∨ (p.slots i).groupId = g → ended now (p.slots i) = false
  | _ => True

instance (now : Ticks) (p : AnimationPlayer) (packet : AnimationPacket) :
    Decidable (Unaffected now p packet) := by
  unfold Unaffected
  split <;> infer_instance

/-- One slot a group. -/
def UniqueGroups (p : AnimationPlayer) : Prop :=
  ∀ i j, (p.slots i).occupied = true → (p.slots j).occupied = true →
    (p.slots i).groupId = (p.slots j).groupId → i = j

theorem find?_finRange_eq_some {n : ℕ} {P : Fin n → Bool} {i : Fin n} :
    (List.finRange n).find? P = some i ↔ P i = true ∧ ∀ j < i, P j = false := by
  rw [List.find?_eq_some_iff_getElem]
  constructor
  · rintro ⟨hi, k, hk, hget, hlt⟩
    rw [List.getElem_finRange] at hget
    subst hget
    refine ⟨hi, fun j hj => ?_⟩
    have hjk := hlt j.val (by simpa [Fin.lt_def] using hj)
    rw [List.getElem_finRange] at hjk
    simpa using hjk
  · rintro ⟨hi, hlt⟩
    refine ⟨hi, i, by simp, by simp, fun j hj => ?_⟩
    rw [List.getElem_finRange]
    simpa using hlt _ (by simpa [Fin.lt_def] using hj)

section
variable {p : AnimationPlayer} {now : Ticks}

theorem findSlot_eq_some (h : UniqueGroups p) {g : Byte} {i : Fin maxAnimSlots}
    (hocc : (p.slots i).occupied = true) (hgroup : (p.slots i).groupId = g) :
    p.findSlot g = some i := by
  refine find?_finRange_eq_some.mpr ⟨by simp [hocc, hgroup], fun j hj => ?_⟩
  rw [decide_eq_false_iff_not]
  rintro ⟨hoccj, hgroupj⟩
  exact hj.ne (h j i hoccj hocc (hgroupj.trans hgroup.symm))

theorem settled_keeps {s : Slot} (h : (settled now s).occupied = true) :
    s.occupied = true ∧ expired now s = false ∧ (settled now s).groupId = s.groupId ∧
      (settled now s).hasPending = s.hasPending := by
  have hocc := settled_occupied now s
  rw [h, eq_comm, Bool.and_eq_true, Bool.not_eq_true'] at hocc
  refine ⟨hocc.1, hocc.2, ?_⟩
  rcases settled_cases now s with ⟨hgone, -⟩ | ⟨-, -, -, heq⟩ | ⟨-, -, heq⟩
  · rcases hgone with hgone | hgone
    · rw [hocc.1] at hgone
      cases hgone
    · rw [hocc.2] at hgone
      cases hgone
  · rw [heq]
    exact ⟨rfl, rfl⟩
  · rw [heq]
    exact ⟨rfl, rfl⟩

theorem UniqueGroups.settledAt (h : UniqueGroups p) : UniqueGroups (settledAt now p) := by
  intro i j hi hj hgroup
  obtain ⟨hocci, -, hgroupi, -⟩ := settled_keeps hi
  obtain ⟨hoccj, -, hgroupj, -⟩ := settled_keeps hj
  exact h i j hocci hoccj (hgroupi.symm.trans (hgroup.trans hgroupj))

theorem findSlot_settledAt_none {g : Byte}
    (h : ∀ i, (p.slots i).occupied = true → (p.slots i).groupId = g →
      expired now (p.slots i) = true) : (settledAt now p).findSlot g = none := by
  refine List.find?_eq_none.mpr fun i _ => ?_
  rw [decide_eq_true_eq]
  rintro ⟨hocc, hgroup⟩
  obtain ⟨hocc', hexp, hgroup', -⟩ := settled_keeps hocc
  rw [h i hocc' (hgroup'.symm.trans hgroup)] at hexp
  cases hexp

theorem findSlot_settledAt_some (hunique : UniqueGroups p) {g : Byte} {i : Fin maxAnimSlots}
    (h : p.findSlot g = some i) (hexp : expired now (p.slots i) = false) :
    (settledAt now p).findSlot g = some i := by
  obtain ⟨hocc, hgroup⟩ := p.findSlot_some h
  have hocc' : (settled now (p.slots i)).occupied = true := by
    rw [settled_occupied, hocc, hexp]
    rfl
  exact findSlot_eq_some hunique.settledAt hocc'
    ((settled_keeps hocc').2.2.1.trans hgroup)

/-- A change of one slot, before and after settling. -/
theorem settled_update {q : AnimationPlayer} {i : Fin maxAnimSlots} {s s' : Slot}
    (hslots : q.slots = fun j => settled now (p.slots j)) (h : settled now s = settled now s')
    (j : Fin maxAnimSlots) :
    settled now (Function.update p.slots i s j) =
      settled now (Function.update q.slots i s' j) := by
  by_cases hj : j = i
  · subst hj
    rw [Function.update_self, Function.update_self, h]
  · rw [Function.update_of_ne hj, Function.update_of_ne hj, hslots, settled_settled]

theorem settled_withPending {s : Slot} (hocc : s.occupied = true) (hexp : expired now s = false)
    (a : AnimationState) :
    settled now { s with pending := a, hasPending := true } =
      settled now { settled now s with pending := a, hasPending := true } := by
  rcases settled_cases now s with ⟨hgone, -⟩ | ⟨-, -, hend, heq⟩ | ⟨-, -, heq⟩
  · rcases hgone with hgone | hgone
    · rw [hocc] at hgone
      cases hgone
    · rw [hexp] at hgone
      cases hgone
  · have hend' : ended now { s with pending := a, hasPending := true } = true := hend
    have hexp' : expired now { s with pending := a, hasPending := true } = false := hexp
    rw [settled_of_ended hend' hexp', heq]
    exact (settled_of_not_ended
      (s := { s with holding := true, pending := a, hasPending := true }) hocc
      (by simp [ended])).symm
  · rw [heq]

theorem activatePending_settled {s : Slot} (hocc : s.occupied = true)
    (hexp : expired now s = false) :
    activatePending p s = activatePending (settledAt now p) (settled now s) := by
  rcases settled_cases now s with ⟨hgone, -⟩ | ⟨-, -, -, heq⟩ | ⟨-, -, heq⟩
  · rcases hgone with hgone | hgone
    · rw [hocc] at hgone
      cases hgone
    · rw [hexp] at hgone
      cases hgone
  · rw [heq]
    rfl
  · rw [heq]
    rfl

theorem freeSlot_settledAt
    (h : ∀ i, expired now (p.slots i) = true → ∃ j < i, (p.slots j).occupied = false) :
    (settledAt now p).freeSlot = p.freeSlot := by
  cases hslot : p.freeSlot with
  | some i =>
      obtain ⟨hi, hlt⟩ := find?_finRange_eq_some.mp hslot
      refine find?_finRange_eq_some.mpr ⟨?_, fun j hj => ?_⟩
      · change (!(settled now (p.slots i)).occupied) = true
        rw [Bool.not_eq_true'] at hi
        rw [settled_occupied, hi]
        rfl
      · have hexp : expired now (p.slots j) = false := by
          rw [Bool.eq_false_iff]
          intro hexp
          obtain ⟨k, hk, hfree⟩ := h j hexp
          have hocc := hlt k (hk.trans hj)
          rw [hfree] at hocc
          cases hocc
        have hocc := hlt j hj
        rw [Bool.not_eq_false'] at hocc
        change (!(settled now (p.slots j)).occupied) = false
        rw [settled_occupied, hocc, hexp]
        rfl
  | none =>
      have hall : ∀ j, (p.slots j).occupied = true := fun j => by
        simpa using List.find?_eq_none.mp hslot j (List.mem_finRange j)
      refine List.find?_eq_none.mpr fun j _ => ?_
      have hexp : expired now (p.slots j) = false := by
        rw [Bool.eq_false_iff]
        intro hexp
        obtain ⟨k, -, hfree⟩ := h j hexp
        rw [hall k] at hfree
        cases hfree
      change ¬ (!(settled now (p.slots j)).occupied) = true
      rw [settled_occupied, hall j, hexp]
      decide

theorem settled_prepare (hunique : UniqueGroups p) {pkt : PacketAnimationPrepare}
    (h : Unaffected now p (.prepare pkt)) (j : Fin maxAnimSlots) :
    settled now ((p.prepare pkt).slots j) =
      settled now (((settledAt now p).prepare pkt).slots j) := by
  obtain ⟨hgroup, hfree⟩ := h
  unfold prepare allocSlot
  cases hfind : p.findSlot pkt.groupId with
  | some i =>
      obtain ⟨hocc, hg⟩ := p.findSlot_some hfind
      have hexp : expired now (p.slots i) = false := by
        rw [Bool.eq_false_iff]
        intro hexp
        exact hgroup i hexp hg
      rw [findSlot_settledAt_some hunique hfind hexp]
      exact settled_update rfl (settled_withPending hocc hexp _) j
  | none =>
      have hnone : (settledAt now p).findSlot pkt.groupId = none :=
        findSlot_settledAt_none fun i hocc hg => absurd hg (p.findSlot_none hfind i hocc)
      rw [hnone, freeSlot_settledAt (hfree hfind)]
      cases hslot : p.freeSlot with
      | some i =>
          have hfreed : settled now (p.slots i) = clearSlot (p.slots i) :=
            settled_of_free (p.freeSlot_some hslot)
          simp only [setSlot_slots, Function.update_self, Function.update_idem]
          refine settled_update rfl ?_ j
          change _ = settled now { clearSlot (settled now (p.slots i)) with
            occupied := true, groupId := pkt.groupId, pending := pkt.toState, hasPending := true }
          rw [hfreed]
          rfl
      | none => exact (settled_settled now (p.slots j)).symm

theorem settled_start (hunique : UniqueGroups p) {seqId g : Byte}
    (h : Unaffected now p (.start seqId g)) (j : Fin maxAnimSlots) :
    settled now ((p.start seqId g now).slots j) =
      settled now (((settledAt now p).start seqId g now).slots j) := by
  have hidle : (∀ i, p.findSlot g = some i → (p.slots i).hasPending = false) →
      (∀ i, (settledAt now p).findSlot g = some i →
        ((settledAt now p).slots i).hasPending = false) →
      settled now ((p.start seqId g now).slots j) =
        settled now (((settledAt now p).start seqId g now).slots j) := by
    intro hp hq
    rw [start_slots_of_idle p hp, start_slots_of_idle _ hq]
    exact (settled_settled now (p.slots j)).symm
  by_cases hseq : seqId = p.lastStartSeqId
  · rw [start_of_seqId_eq p hseq, start_of_seqId_eq (settledAt now p) hseq]
    exact (settled_settled now (p.slots j)).symm
  cases hfind : p.findSlot g with
  | none =>
      have hnone : (settledAt now p).findSlot g = none :=
        findSlot_settledAt_none fun i hocc hg => absurd hg (p.findSlot_none hfind i hocc)
      refine hidle (fun i hi => ?_) fun i hi => ?_
      · rw [hfind] at hi
        cases hi
      · rw [hnone] at hi
        cases hi
  | some i =>
      obtain ⟨hocc, hg⟩ := p.findSlot_some hfind
      by_cases hexp : expired now (p.slots i) = true
      · have hnone : (settledAt now p).findSlot g = none :=
          findSlot_settledAt_none fun k hk hgk => by
            rw [hunique k i hk hocc (hgk.trans hg.symm)]
            exact hexp
        refine hidle (fun k hk => ?_) fun k hk => ?_
        · rw [hfind] at hk
          cases hk
          exact h i hexp hg
        · rw [hnone] at hk
          cases hk
      · rw [Bool.not_eq_true] at hexp
        have hfind' := findSlot_settledAt_some hunique hfind hexp
        have hocc' : (settled now (p.slots i)).occupied = true :=
          ((settledAt now p).findSlot_some hfind').1
        have hpending' := (settled_keeps hocc').2.2.2
        by_cases hpending : (p.slots i).hasPending = true
        · rw [start_of_pending p hseq hfind hpending,
            start_of_pending (settledAt now p) hseq hfind' (hpending'.trans hpending)]
          exact settled_update rfl (congrArg (settled now)
            (activatePending_settled (p := { p with nowMs := now }) hocc hexp)) j
        · rw [Bool.not_eq_true] at hpending
          refine hidle (fun k hk => ?_) fun k hk => ?_
          · rw [hfind] at hk
            cases hk
            exact hpending
          · rw [hfind'] at hk
            cases hk
            exact hpending'.trans hpending

theorem controlSlot_resume_of_ended {s : Slot} (h : ended now s = true) :
    controlSlot .resume now s = s := by
  have hpaused := (ended_iff.mp h).2.2.1
  simp [controlSlot, hpaused]

/-- A frame that comes first makes no difference to a slot's answer to a control packet. -/
theorem settled_controlSlot {s : Slot} (hocc : s.occupied = true) (cmd : AnimationControl)
    (h : cmd = .pause → ended now s = false) :
    settled now (controlSlot cmd now s) =
      if (settled now s).occupied then settled now (controlSlot cmd now (settled now s))
      else settled now s := by
  rcases settled_cases now s with ⟨hgone, heq⟩ | ⟨-, hexp, hend, heq⟩ | ⟨-, -, heq⟩
  · have hexp : expired now s = true := by
      rcases hgone with hgone | hgone
      · rw [hocc] at hgone
        cases hgone
      · exact hgone
    have hend : ended now s = true := by
      rw [expired, Bool.and_eq_true] at hexp
      exact hexp.1
    rw [heq, if_neg (by simp [clearSlot])]
    cases cmd with
    | stop => exact settled_of_free rfl
    | pause =>
        rw [h rfl] at hend
        cases hend
    | resume => rw [controlSlot_resume_of_ended hend, heq]
    | clearQueue =>
        have hexp' : expired now { s with hasPending := false } = true := hexp
        exact settled_of_expired hexp'
  · rw [heq, if_pos hocc]
    cases cmd with
    | stop => rfl
    | pause =>
        rw [h rfl] at hend
        cases hend
    | resume =>
        have hpaused := (ended_iff.mp hend).2.2.1
        have hkeep : controlSlot .resume now { s with holding := true } =
            { s with holding := true } := by
          simp only [controlSlot, hpaused, Bool.false_eq_true, if_false]
        rw [controlSlot_resume_of_ended hend, heq, hkeep]
        exact (settled_of_not_ended (s := { s with holding := true }) hocc
          (ended_holding now s)).symm
    | clearQueue =>
        have hend' : ended now { s with hasPending := false } = true := hend
        have hexp' : expired now { s with hasPending := false } = false := hexp
        refine (settled_of_ended hend' hexp').trans (settled_of_not_ended
          (s := { s with holding := true, hasPending := false }) hocc ?_).symm
        simp [ended]
  · rw [heq, if_pos hocc]

theorem settled_control {cmd : AnimationControl} {g : Byte}
    (h : Unaffected now p (.control cmd g)) (j : Fin maxAnimSlots) :
    settled now ((p.control cmd g now).slots j) =
      settled now (((settledAt now p).control cmd g now).slots j) := by
  have hsame : settled now (p.slots j) = settled now ((settledAt now p).slots j) :=
    (settled_settled now (p.slots j)).symm
  by_cases hocc : (p.slots j).occupied = true
  · by_cases haddr : g = 0 ∨ (p.slots j).groupId = g
    · have hpause : cmd = .pause → ended now (p.slots j) = false := by
        rintro rfl
        exact h j haddr
      rw [p.control_slots_addressed hocc haddr, settled_controlSlot hocc cmd hpause]
      split_ifs with hkept
      · have haddr' : g = 0 ∨ ((settledAt now p).slots j).groupId = g :=
          haddr.imp_right (settled_keeps hkept).2.2.1.trans
        rw [(settledAt now p).control_slots_addressed hkept haddr']
        rfl
      · rw [Bool.not_eq_true] at hkept
        rw [(settledAt now p).control_slots_free hkept]
        exact hsame
    · have hother : g ≠ 0 ∧ (p.slots j).groupId ≠ g := by tauto
      rw [p.control_slots_other hother]
      by_cases hkept : ((settledAt now p).slots j).occupied = true
      · have hother' : g ≠ 0 ∧ ((settledAt now p).slots j).groupId ≠ g :=
          ⟨hother.1, fun hg => hother.2 ((settled_keeps hkept).2.2.1.symm.trans hg)⟩
        rw [(settledAt now p).control_slots_other hother']
        exact hsame
      · rw [Bool.not_eq_true] at hkept
        rw [(settledAt now p).control_slots_free hkept]
        exact hsame
  · rw [Bool.not_eq_true] at hocc
    have hfree : ((settledAt now p).slots j).occupied = false := by
      change (settled now (p.slots j)).occupied = false
      rw [settled_occupied, hocc]
      rfl
    rw [p.control_slots_free hocc, (settledAt now p).control_slots_free hfree]
    exact hsame

/-- A reactive step never ends. -/
theorem settled_of_reactive {s : Slot} (hocc : s.occupied = true)
    (htype : s.cur.animType = .reactive) : settled now s = s :=
  settled_of_not_ended hocc (by simp [ended, oneShot, htype])

theorem settled_updateParams (seqId g : Byte) (t : AnimationParamType) (value : Byte)
    (j : Fin maxAnimSlots) :
    settled now ((p.updateParams seqId g t value now).slots j) =
      settled now (((settledAt now p).updateParams seqId g t value now).slots j) := by
  by_cases hreactive : (p.slots j).occupied = true ∧ (p.slots j).cur.animType = .reactive
  · have hslot : (settledAt now p).slots j = p.slots j :=
      settled_of_reactive hreactive.1 hreactive.2
    rw [updateParams_slots, updateParams_slots, hslot]
    rfl
  · have hp : (p.updateParams seqId g t value now).slots j = p.slots j := by
      rw [updateParams_slots, if_neg fun h => hreactive ⟨h.2.2.1, h.2.2.2.2.2⟩]
    have hq : ((settledAt now p).updateParams seqId g t value now).slots j =
        (settledAt now p).slots j := by
      rw [updateParams_slots, if_neg]
      rintro ⟨-, -, hocc, -, -, htype⟩
      refine hreactive ⟨(settled_keeps hocc).1, ?_⟩
      rw [← htype]
      exact (congrArg AnimationState.animType (settled_cur now (p.slots j))).symm
    rw [hp, hq]
    exact (settled_settled now (p.slots j)).symm

/-- A frame just before the packet makes no difference to the settled slots after it. -/
theorem settledAt_handlePacket (hunique : UniqueGroups p) {packet : AnimationPacket}
    (h : Unaffected now p packet) :
    (settledAt now (p.handlePacket now packet)).slots =
      (settledAt now ((settledAt now p).handlePacket now packet)).slots := by
  funext j
  have hsame : settled now (p.slots j) = settled now ((settledAt now p).slots j) :=
    (settled_settled now (p.slots j)).symm
  cases packet with
  | prepare pkt => exact settled_prepare hunique h j
  | start seqId g => exact settled_start hunique h j
  | control cmd g => exact settled_control h j
  | updateParams seqId g t value ms => exact settled_updateParams seqId g t value j
  | setPalette stops =>
      change settled now ((p.setPalette stops).slots j) =
        settled now (((settledAt now p).setPalette stops).slots j)
      rw [setPalette_slots, setPalette_slots]
      exact hsame
  | setBackground c =>
      change settled now ((p.setBackground c).slots j) =
        settled now (((settledAt now p).setBackground c).slots j)
      rw [setBackground_slots, setBackground_slots]
      exact hsame
  | setColor c => exact hsame
  | setBaseColors colors => exact hsame
  | setGlobalBrightness value => exact hsame
  | turnOnOff on => exact hsame

end

/-! ### Players that differ in their output only -/

structure Agrees (p q : AnimationPlayer) : Prop where
  slots : p.slots = q.slots
  settings : p.settings = q.settings

/-- Steps that do not take their colours from the output. -/
def Plain (a : AnimationState) : Prop :=
  a.hasFlag flagCurrentColorFrom = false ∧ a.hasFlag flagCurrentColorTo = false

section
variable {p q : AnimationPlayer}

theorem Agrees.settledAt (h : Agrees p q) (now : Ticks) :
    Agrees (settledAt now p) (settledAt now q) := by
  refine ⟨?_, h.settings⟩
  funext i
  change settled now (p.slots i) = settled now (q.slots i)
  rw [h.slots]

theorem prepare_slots_congr (h : p.slots = q.slots) (pkt : PacketAnimationPrepare) :
    (p.prepare pkt).slots = (q.prepare pkt).slots := by
  have hfind : p.findSlot pkt.groupId = q.findSlot pkt.groupId := by
    rw [findSlot, findSlot, h]
  have hfree : p.freeSlot = q.freeSlot := by
    rw [freeSlot, freeSlot, h]
  unfold prepare allocSlot
  rw [hfind, hfree]
  cases q.findSlot pkt.groupId with
  | some i => simp [h]
  | none =>
      cases q.freeSlot with
      | some i => simp [h]
      | none => exact h

theorem activatePending_congr {s : Slot} (hplain : Plain s.pending) (hnow : p.nowMs = q.nowMs) :
    p.activatePending s = q.activatePending s := by
  have hfrom : ∀ now, AnimationState.hasFlag { s.pending with startMs := now }
      flagCurrentColorFrom = false := fun _ => hplain.1
  have hto : ∀ now, AnimationState.hasFlag { s.pending with startMs := now }
      flagCurrentColorTo = false := fun _ => hplain.2
  unfold activatePending
  simp only [hfrom, hto, Bool.false_eq_true, if_false, hnow]

theorem start_slots_congr (h : Agrees p q) (hplain : ∀ i, Plain (p.slots i).pending)
    (seqId g : Byte) (now : Ticks) :
    (p.start seqId g now).slots = (q.start seqId g now).slots := by
  have hlast : p.lastStartSeqId = q.lastStartSeqId := congrArg Settings.lastStartSeqId h.settings
  have hfind : p.findSlot g = q.findSlot g := by
    rw [findSlot, findSlot, h.slots]
  by_cases hseq : seqId = p.lastStartSeqId
  · rw [start_of_seqId_eq p hseq, start_of_seqId_eq q (hseq.trans hlast)]
    exact h.slots
  by_cases hidle : ∀ i, p.findSlot g = some i → (p.slots i).hasPending = false
  · rw [start_slots_of_idle p hidle, start_slots_of_idle q (by rwa [← hfind, ← h.slots])]
    exact h.slots
  · push Not at hidle
    obtain ⟨i, hi, hpending⟩ := hidle
    rw [ne_eq, Bool.not_eq_false] at hpending
    have hactivate := @activatePending_congr { p with nowMs := now } { q with nowMs := now } _
      (hplain i) rfl
    rw [start_of_pending p hseq hi hpending,
      start_of_pending q (hlast ▸ hseq) (hfind ▸ hi) (h.slots ▸ hpending), hactivate, h.slots]

theorem Agrees.handlePacket (h : Agrees p q) (hplain : ∀ i, Plain (p.slots i).pending)
    (now : Ticks) (packet : AnimationPacket) :
    Agrees (p.handlePacket now packet) (q.handlePacket now packet) := by
  have hsettings : (p.handlePacket now packet).settings = (q.handlePacket now packet).settings := by
    rw [handlePacket_settings, handlePacket_settings, h.settings]
  refine ⟨?_, hsettings⟩
  cases packet with
  | prepare pkt => exact prepare_slots_congr h.slots pkt
  | start seqId g => exact start_slots_congr h hplain seqId g now
  | control cmd g =>
      funext i
      change (p.control cmd g now).slots i = (q.control cmd g now).slots i
      simp only [control, h.slots]
  | updateParams seqId g t value ms =>
      have hlast : p.lastParamsSeqId = q.lastParamsSeqId :=
        congrArg Settings.lastParamsSeqId h.settings
      funext i
      change (p.updateParams seqId g t value now).slots i =
        (q.updateParams seqId g t value now).slots i
      rw [updateParams_slots, updateParams_slots, h.slots, hlast]
  | setPalette stops =>
      change (p.setPalette stops).slots = (q.setPalette stops).slots
      rw [setPalette_slots, setPalette_slots, h.slots]
  | setBackground c =>
      change (p.setBackground c).slots = (q.setBackground c).slots
      rw [setBackground_slots, setBackground_slots, h.slots]
  | setColor c => exact h.slots
  | setBaseColors colors => exact h.slots
  | setGlobalBrightness value => exact h.slots
  | turnOnOff on => exact h.slots

end

end Lightnet.AnimationPlayer
