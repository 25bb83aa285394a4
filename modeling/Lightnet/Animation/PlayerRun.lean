import Lightnet.Animation.Scheduler

/-!
# Runs of a panel's player

A run is a list of packets and ticks at real times, in milliseconds since the panel booted. The
player sees sixteen bits of the time.
-/

namespace Lightnet

def clock (t : ℕ) : Ticks := BitVec.ofNat 16 t

inductive PlayerInput where
  | packet (packet : AnimationPacket)
  | tick

/-- What the panel hands to its player, and when. -/
structure TimedInput where
  time : ℕ
  input : PlayerInput

namespace AnimationPlayer

def stepAt (p : AnimationPlayer) (e : TimedInput) : AnimationPlayer :=
  match e.input with
  | .packet packet => p.handlePacket (clock e.time) packet
  | .tick => p.tick (clock e.time)

def run (p : AnimationPlayer) (es : List TimedInput) : AnimationPlayer := es.foldl stepAt p

/-- Whether a tick at this time computes a frame. -/
def framesAt (p : AnimationPlayer) (t : ℕ) : Prop := ¬ clock t - p.lastTickMs < 16

instance (p : AnimationPlayer) (t : ℕ) : Decidable (p.framesAt t) :=
  inferInstanceAs (Decidable (¬ _))

/-- The player as the frame of this time is computed. -/
def atFrame (p : AnimationPlayer) (t : ℕ) : AnimationPlayer :=
  { p with nowMs := clock t, lastTickMs := clock t }

theorem tick_of_framesAt {p : AnimationPlayer} {t : ℕ} (h : p.framesAt t) :
    p.tick (clock t) = (p.atFrame t).composite := if_neg h

theorem tick_of_not_framesAt {p : AnimationPlayer} {t : ℕ} (h : ¬ p.framesAt t) :
    p.tick (clock t) = { p with nowMs := clock t } := if_pos (not_not.mp h)

theorem clock_sub_toNat {s t : ℕ} (h : s ≤ t) :
    (clock t - clock s).toNat = (t - s) % 65536 := by
  rw [clock, clock, BitVec.toNat_sub, BitVec.toNat_ofNat, BitVec.toNat_ofNat]
  omega

@[simp] theorem setOutput_lastTickMs (p : AnimationPlayer) (c : ColorRGB) :
    (p.setOutput c).lastTickMs = p.lastTickMs := by
  unfold setOutput
  split_ifs <;> rfl

theorem setOutput_lastOutput (p : AnimationPlayer) (c : ColorRGB) :
    (p.setOutput c).lastOutput = c := by
  unfold setOutput
  split_ifs with h
  · exact h.symm
  · rfl

@[simp] theorem composite_lastTickMs (p : AnimationPlayer) :
    p.composite.lastTickMs = p.lastTickMs := by
  unfold composite
  dsimp only
  split_ifs <;> rw [setOutput_lastTickMs]

theorem handlePacket_lastTickMs (p : AnimationPlayer) (now : Ticks) (packet : AnimationPacket) :
    (p.handlePacket now packet).lastTickMs = p.lastTickMs := by
  cases packet <;>
    simp only [handlePacket, prepare, allocSlot, start, control, updateParams, setColorDirect,
      setPalette, setBaseColors, setBackground]
  case prepare pkt =>
    cases p.findSlot pkt.groupId with
    | some i => rfl
    | none => cases p.freeSlot <;> rfl
  case start seqId g =>
    split_ifs
    · rfl
    · split
      · rfl
      · split_ifs <;> rfl
  all_goals split_ifs <;> first | rfl | exact setOutput_lastTickMs _ _

theorem tick_lastTickMs (p : AnimationPlayer) (t : ℕ) :
    (p.tick (clock t)).lastTickMs = if p.framesAt t then clock t else p.lastTickMs := by
  split_ifs with hframe
  · rw [tick_of_framesAt hframe, composite_lastTickMs]
    rfl
  · rw [tick_of_not_framesAt hframe]

/-! ### What a slot shows -/

/-- The elapsed time a frame computes the slot's output at, if the slot shows at all. -/
def renderedElapsed (p : AnimationPlayer) (s : Slot) : Option Ticks :=
  if !s.occupied || !s.started then none
  else
    let elapsed := p.slotElapsed s
    if s.cur.hasFlag flagLoop && s.cur.durationMs ≠ 0 then some (loopPhase s.cur elapsed)
    else if !s.holding && elapsed < s.cur.startDelayMs then none
    else
      let animElapsed := elapsed - s.cur.startDelayMs
      if finishes s animElapsed && s.cur.hasFlag flagReapOnDone then none
      else if (s.holding || finishes s animElapsed) && s.cur.durationMs ≠ 0 then
        some s.cur.durationMs
      else some animElapsed

theorem contribute_holding (p : AnimationPlayer) (s : Slot) (e : Ticks) :
    (p.contribute { s with holding := true } e).2 = (p.contribute s e).2 := by
  obtain ⟨_, _, _, _, _, _, _, ⟨animType, _, _, _, _, _, _, _, _, _, _, _, _, _⟩, _, _, _⟩ := s
  cases animType <;>
    simp only [contribute, computeSlotOutput, decayReactive] <;> split_ifs <;> rfl

/-- What a slot shows is the output of its animation at the rendered time. -/
theorem compositeSlot_snd (p : AnimationPlayer) (s : Slot) :
    (p.compositeSlot s).2 = (p.renderedElapsed s).bind fun e => (p.contribute s e).2 := by
  unfold compositeSlot renderedElapsed
  dsimp only
  by_cases hfin : finishes s (p.slotElapsed s - s.cur.startDelayMs)
  · have hduration : s.cur.durationMs ≠ 0 := by
      simp only [finishes, Bool.and_eq_true, decide_eq_true_eq] at hfin
      exact hfin.1.1.2
    simp only [hfin, Bool.true_and, Bool.or_true, if_true, hduration, ne_eq, not_false_iff,
      decide_true]
    split_ifs
    · rfl
    · rfl
    · rfl
    · rfl
    · exact contribute_holding p s _
  · simp only [hfin, Bool.false_and, Bool.or_false, if_false, Bool.false_eq_true]
    split_ifs <;> rfl

/-! ### What a packet does to the slots -/

/-- Packets for the group, or for all groups at once. -/
def addresses (g : Byte) : AnimationPacket → Bool
  | .prepare pkt => pkt.groupId = g
  | .start _ groupId => groupId = g
  | .control _ groupId => groupId = 0 ∨ groupId = g
  | .updateParams _ groupId _ _ _ => groupId = 0 ∨ groupId = g
  | _ => false

section
variable (p : AnimationPlayer)

theorem findSlot_some {g : Byte} {i : Fin maxAnimSlots} (h : p.findSlot g = some i) :
    (p.slots i).occupied = true ∧ (p.slots i).groupId = g := by
  have := List.find?_some h
  simpa using this

theorem findSlot_none {g : Byte} (h : p.findSlot g = none) (i : Fin maxAnimSlots)
    (hocc : (p.slots i).occupied = true) : (p.slots i).groupId ≠ g := by
  have := List.find?_eq_none.mp h i (List.mem_finRange i)
  simpa [hocc] using this

theorem freeSlot_some {i : Fin maxAnimSlots} (h : p.freeSlot = some i) :
    (p.slots i).occupied = false := by
  have := List.find?_some h
  simpa using this

@[simp] theorem setSlot_slots (i : Fin maxAnimSlots) (s : Slot) :
    (p.setSlot i s).slots = Function.update p.slots i s := rfl

/-- A start that finds nothing pending changes no slot. -/
theorem start_slots_of_idle {g : Byte}
    (h : ∀ i, p.findSlot g = some i → (p.slots i).hasPending = false) (seqId : Byte)
    (now : Ticks) : (p.start seqId g now).slots = p.slots := by
  unfold start
  dsimp only
  split_ifs with hseq
  · rfl
  · split
    · rfl
    · next i hfind =>
      have hidle : (p.slots i).hasPending = false := h i hfind
      simp only [hidle, Bool.false_eq_true, if_false]

theorem control_slots_free {cmd : AnimationControl} {g : Byte} {now : Ticks} {i : Fin maxAnimSlots}
    (h : (p.slots i).occupied = false) : (p.control cmd g now).slots i = p.slots i := by
  simp only [control, h, Bool.not_false, if_true]

theorem control_slots_other {cmd : AnimationControl} {g : Byte} {now : Ticks}
    {i : Fin maxAnimSlots} (h : g ≠ 0 ∧ (p.slots i).groupId ≠ g) :
    (p.control cmd g now).slots i = p.slots i := by
  simp only [control, if_pos h, ite_self]

theorem control_slots_addressed {cmd : AnimationControl} {g : Byte} {now : Ticks}
    {i : Fin maxAnimSlots} (hocc : (p.slots i).occupied = true)
    (h : g = 0 ∨ (p.slots i).groupId = g) :
    (p.control cmd g now).slots i = controlSlot cmd now (p.slots i) := by
  have hnot : ¬ (g ≠ 0 ∧ (p.slots i).groupId ≠ g) := by tauto
  simp only [control, hocc, Bool.not_true, Bool.false_eq_true, if_false, if_neg hnot]

/-- What an update of a new number does to a slot. -/
theorem updateParams_slots (seqId g : Byte) (t : AnimationParamType) (value : Byte) (now : Ticks)
    (i : Fin maxAnimSlots) :
    (p.updateParams seqId g t value now).slots i =
      if seqId ≠ p.lastParamsSeqId ∧ t = .trigger ∧ (p.slots i).occupied = true ∧
          (p.slots i).started = true ∧ (g = 0 ∨ (p.slots i).groupId = g) ∧
          (p.slots i).cur.animType = .reactive then
        { p.slots i with reactiveLevel := value, reactiveTriggerMs := now }
      else p.slots i := by
  unfold updateParams
  dsimp only
  by_cases hseq : seqId = p.lastParamsSeqId
  · rw [if_pos hseq, if_neg (fun h => h.1 hseq)]
  rw [if_neg hseq]
  by_cases htype : t = .trigger
  · rw [if_neg (not_not.mpr htype)]
    dsimp only
    split_ifs with hidle hother hreactive hall hall <;> first | rfl | simp_all
  · rw [if_pos htype, if_neg (fun h => htype h.2.1)]

@[simp] theorem setBackground_slots (c : ColorRGB) : (p.setBackground c).slots = p.slots := by
  unfold setBackground
  dsimp only
  split_ifs
  · rfl
  · rw [setOutput_slots]

@[simp] theorem setPalette_slots (stops : List GradientStop) :
    (p.setPalette stops).slots = p.slots := by
  unfold setPalette
  split_ifs <;> rfl

/-- What a packet can make of the slot `i`. -/
inductive SlotChange (now : Ticks) (i : Fin maxAnimSlots) : AnimationPacket → Slot → Prop
  | same (packet : AnimationPacket) : SlotChange now i packet (p.slots i)
  | refill (pkt : PacketAnimationPrepare) (hfind : p.findSlot pkt.groupId = some i) :
    SlotChange now i (.prepare pkt)
      { p.slots i with pending := pkt.toState, hasPending := true }
  | alloc (pkt : PacketAnimationPrepare) (hnone : p.findSlot pkt.groupId = none)
      (hfree : p.freeSlot = some i) :
    SlotChange now i (.prepare pkt)
      { clearSlot (p.slots i) with
          occupied := true
          groupId := pkt.groupId
          pending := pkt.toState
          hasPending := true }
  | activate (seqId g : Byte) (hfind : p.findSlot g = some i)
      (hpending : (p.slots i).hasPending = true) :
    SlotChange now i (.start seqId g) (activatePending { p with nowMs := now } (p.slots i))
  | control (cmd : AnimationControl) (g : Byte) (hocc : (p.slots i).occupied = true)
      (haddr : g = 0 ∨ (p.slots i).groupId = g) :
    SlotChange now i (.control cmd g) (controlSlot cmd now (p.slots i))
  | trigger (seqId g : Byte) (t : AnimationParamType) (value ms : Byte)
      (haddr : g = 0 ∨ (p.slots i).groupId = g) (htype : (p.slots i).cur.animType = .reactive) :
    SlotChange now i (.updateParams seqId g t value ms)
      { p.slots i with reactiveLevel := value, reactiveTriggerMs := now }

theorem slotChange_prepare (pkt : PacketAnimationPrepare) (now : Ticks) (i : Fin maxAnimSlots) :
    SlotChange p now i (.prepare pkt) ((p.prepare pkt).slots i) := by
  have hother : ∀ (j : Fin maxAnimSlots) (s : Slot), i ≠ j →
      SlotChange p now i (.prepare pkt) (Function.update p.slots j s i) := by
    intro j s hij
    rw [Function.update_of_ne hij]
    exact .same _
  unfold prepare allocSlot
  cases hfind : p.findSlot pkt.groupId with
  | some j =>
      simp only [setSlot_slots]
      by_cases hij : i = j
      · subst hij
        rw [Function.update_self]
        exact .refill pkt hfind
      · exact hother j _ hij
  | none =>
      cases hfree : p.freeSlot with
      | none => exact .same _
      | some j =>
          simp only [setSlot_slots, Function.update_idem, Function.update_self]
          by_cases hij : i = j
          · subst hij
            rw [Function.update_self]
            exact .alloc pkt hfind hfree
          · exact hother j _ hij

theorem slotChange_start (seqId g : Byte) (now : Ticks) (i : Fin maxAnimSlots) :
    SlotChange p now i (.start seqId g) ((p.start seqId g now).slots i) := by
  by_cases hseq : seqId = p.lastStartSeqId
  · rw [start_of_seqId_eq p hseq]
    exact .same _
  by_cases hidle : ∀ j, p.findSlot g = some j → (p.slots j).hasPending = false
  · rw [start_slots_of_idle p hidle]
    exact .same _
  push Not at hidle
  obtain ⟨j, hfind, hpending⟩ := hidle
  rw [ne_eq, Bool.not_eq_false] at hpending
  rw [start_of_pending p hseq hfind hpending]
  by_cases hij : i = j
  · subst hij
    rw [Function.update_self]
    exact .activate seqId g hfind hpending
  · rw [Function.update_of_ne hij]
    exact .same _

theorem handlePacket_slotChange (now : Ticks) (packet : AnimationPacket) (i : Fin maxAnimSlots) :
    SlotChange p now i packet ((p.handlePacket now packet).slots i) := by
  cases packet with
  | prepare pkt => exact p.slotChange_prepare pkt now i
  | start seqId g => exact p.slotChange_start seqId g now i
  | control cmd g =>
      by_cases hocc : (p.slots i).occupied = true
      · by_cases haddr : g = 0 ∨ (p.slots i).groupId = g
        · rw [handlePacket, p.control_slots_addressed hocc haddr]
          exact .control cmd g hocc haddr
        · rw [handlePacket, p.control_slots_other (by tauto)]
          exact .same _
      · rw [handlePacket, p.control_slots_free (by simpa using hocc)]
        exact .same _
  | updateParams seqId g t value ms =>
      rw [handlePacket, updateParams_slots]
      split_ifs with h
      · exact .trigger seqId g t value ms h.2.2.2.2.1 h.2.2.2.2.2
      · exact .same _
  | setPalette stops =>
      rw [handlePacket, setPalette_slots]
      exact .same _
  | setBackground c =>
      rw [handlePacket, setBackground_slots]
      exact .same _
  | setColor c => exact .same _
  | setBaseColors colors => exact .same _
  | setGlobalBrightness value => exact .same _
  | turnOnOff on => exact .same _

/-- An occupied slot is out of reach of the packets for other groups. -/
theorem handlePacket_slots_other {now : Ticks} {packet : AnimationPacket} {i : Fin maxAnimSlots}
    (hocc : (p.slots i).occupied = true) (h : addresses (p.slots i).groupId packet = false) :
    (p.handlePacket now packet).slots i = p.slots i := by
  have hchange := p.handlePacket_slotChange now packet i
  generalize (p.handlePacket now packet).slots i = s' at hchange
  cases hchange with
  | same => rfl
  | refill pkt hfind =>
      have hne : pkt.groupId ≠ (p.slots i).groupId := by simpa [addresses] using h
      exact absurd (p.findSlot_some hfind).2.symm hne
  | alloc pkt hnone hfree =>
      rw [p.freeSlot_some hfree] at hocc
      cases hocc
  | activate seqId g hfind hpending =>
      have hne : g ≠ (p.slots i).groupId := by simpa [addresses] using h
      exact absurd (p.findSlot_some hfind).2.symm hne
  | control cmd g hocc' haddr =>
      have hne : g ≠ 0 ∧ g ≠ (p.slots i).groupId := by simpa [addresses] using h
      exact absurd haddr (by tauto)
  | trigger seqId g t value ms haddr htype =>
      have hne : g ≠ 0 ∧ g ≠ (p.slots i).groupId := by simpa [addresses] using h
      exact absurd haddr (by tauto)

/-- A frame changes nothing of a slot that it lets run but the level of a reactive step. -/
theorem contribute_fst (s : Slot) (e : Ticks) :
    ∃ level, (p.contribute s e).1 = { s with reactiveLevel := level } := by
  obtain ⟨_, _, _, _, _, _, _, ⟨animType, _, _, _, _, _, _, _, _, _, _, _, _, _⟩, _, level, _⟩ := s
  cases animType <;> simp only [contribute, computeSlotOutput]
  case reactive =>
    unfold decayReactive
    split_ifs
    · exact ⟨level, rfl⟩
    · exact ⟨_, rfl⟩
  all_goals try split_ifs
  all_goals exact ⟨level, rfl⟩

end

end AnimationPlayer

end Lightnet
