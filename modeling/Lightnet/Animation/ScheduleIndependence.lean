import Lightnet.Animation.PacketSettling
import Lightnet.Library.Transition

/-!
# Packets decide the colour, ticks do not

Two runs of a player get the same packets at the same times and differ in their ticks. A reference
run takes no ticks at all: it settles the slots every millisecond and never lets a reactive level
decay. Each run refines the reference run of its packets, as long as no packet depends on an end
that no frame has seen yet, and then the frames of both runs show the same colour.
-/

namespace Lightnet.AnimationPlayer

/-! ### The reference run -/

/-- The player settled every millisecond for `n` ms from time `s` on. -/
def advance (p : AnimationPlayer) (s : ℕ) : ℕ → AnimationPlayer
  | 0 => p
  | n + 1 => settledAt (clock (s + n + 1)) (advance p s n)

/-- A player without ticks, and the time of the packet it handled last. -/
structure Reference where
  player : AnimationPlayer
  time : ℕ

def Reference.init : Reference := ⟨.init, 0⟩

def Reference.step (r : Reference) (packet : ℕ × AnimationPacket) : Reference where
  player := settledAt (clock packet.1)
    ((advance r.player r.time (packet.1 - r.time)).handlePacket (clock packet.1) packet.2)
  time := packet.1

/-- The settled slots of a player at a time are those of the reference run. -/
structure Refines (t : ℕ) (p : AnimationPlayer) (r : Reference) : Prop where
  time_le : r.time ≤ t
  agrees : Agrees (settledAt (clock t) p) (advance r.player r.time (t - r.time))

section
variable {p : AnimationPlayer} {r : Reference} {t : ℕ}

theorem Refines.later (h : Refines t p r) {lag : ℕ}
    (htimely : ∀ i, Timely lag (clock t) (p.slots i)) {d : ℕ} (hlag : lag + d ≤ 5000) :
    Refines (t + d) p r := by
  induction d with
  | zero => exact h
  | succ d ih =>
      obtain ⟨hle, hagrees⟩ := ih (by omega)
      have hsub : t + (d + 1) - r.time = (t + d - r.time) + 1 := by omega
      have htime : r.time + (t + d - r.time) + 1 = t + (d + 1) := by omega
      refine ⟨by omega, ?_⟩
      rw [hsub, advance, htime]
      have hslots : (settledAt (clock (t + (d + 1))) p).slots =
          (settledAt (clock (t + (d + 1))) (settledAt (clock (t + d)) p)).slots := by
        funext i
        have hlater := (htimely i).later (d := d) (by omega)
        exact (hlater.settled_later (d := 1) (by omega)).symm
      have hnext := hagrees.settledAt (clock (t + (d + 1)))
      exact ⟨hslots.trans hnext.slots, hnext.settings⟩

theorem Refines.packet (h : Refines t p r) (hunique : UniqueGroups p)
    (hplain : ∀ i, Plain (p.slots i).pending) {packet : AnimationPacket}
    (hunaffected : Unaffected (clock t) p packet) :
    Refines t (p.handlePacket (clock t) packet) (r.step (t, packet)) := by
  have hplain' : ∀ i, Plain ((settledAt (clock t) p).slots i).pending := fun i => by
    change Plain (settled (clock t) (p.slots i)).pending
    rw [settled_pending]
    exact hplain i
  have hagrees := (h.agrees.handlePacket hplain' (clock t) packet).settledAt (clock t)
  refine ⟨le_rfl, ?_, ?_⟩
  · change _ = (advance _ t (t - t)).slots
    rw [Nat.sub_self]
    exact (settledAt_handlePacket hunique hunaffected).trans hagrees.slots
  · change _ = (advance _ t (t - t)).settings
    rw [Nat.sub_self]
    have hsettings : (p.handlePacket (clock t) packet).settings =
        ((settledAt (clock t) p).handlePacket (clock t) packet).settings := by
      rw [handlePacket_settings, handlePacket_settings]
      rfl
    exact hsettings.trans hagrees.settings

theorem latched_slots (h : ∀ i, decays (clock t) (p.slots i) = false) (i : Fin maxAnimSlots) :
    (p.atFrame t).composite.slots i = latch (clock t) (p.slots i) := by
  rw [composite_slots]
  exact compositeSlot_fst (p := p.atFrame t) (h i)

theorem Refines.frame (h : Refines t p r) (hdecays : ∀ i, decays (clock t) (p.slots i) = false) :
    Refines t (p.atFrame t).composite r := by
  refine ⟨h.time_le, ?_, ?_⟩
  · rw [← h.agrees.slots]
    funext i
    change settled (clock t) ((p.atFrame t).composite.slots i) = settled (clock t) (p.slots i)
    rw [latched_slots hdecays, settled_latch]
  · rw [← h.agrees.settings]
    exact (composite_settings (p.atFrame t)).trans rfl

end

/-! ### The state of a run -/

/-- The last tick was at `k` and the last frame at `c`. -/
structure Regular (k c t : ℕ) (p : AnimationPlayer) : Prop where
  lastTick : p.lastTickMs = clock c
  frame_le : c ≤ k
  lt_frame : k < c + 16
  tick_le : k ≤ t
  le_tick : t ≤ k + 1000
  timely : ∀ i, Timely (t - c) (clock t) (p.slots i)
  plain : ∀ i, Plain (p.slots i).pending
  unique : UniqueGroups p

/-- Prepares of steps that end within a minute and bring their own colours. -/
def Permitted : AnimationPacket → Prop
  | .prepare pkt => Brief pkt.toState ∧ Plain pkt.toState
  | _ => True

section
variable {p : AnimationPlayer} {k c t : ℕ}

theorem Regular.later (h : Regular k c t p) {t' : ℕ} (ht : t ≤ t') (hk : t' ≤ k + 1000) :
    Regular k c t' p := by
  have hc := h.frame_le
  have hlt := h.lt_frame
  have hkt := h.tick_le
  refine ⟨h.lastTick, hc, hlt, hkt.trans ht, hk, fun i => ?_, h.plain, h.unique⟩
  have hlater := (h.timely i).later (d := t' - t) (by omega)
  have hlag : t - c + (t' - t) = t' - c := by omega
  have htime : t + (t' - t) = t' := by omega
  rwa [hlag, htime] at hlater

theorem Timely.latch {lag : ℕ} {now : Ticks} {s : Slot} (h : Timely lag now s) :
    Timely 0 now (latch now s) := by
  by_cases hended : ended now s = true
  · unfold AnimationPlayer.latch
    rw [if_pos hended]
    split_ifs
    · exact ⟨h.cur_brief, h.pending_brief, nofun, nofun⟩
    · exact ⟨h.cur_brief, h.pending_brief, nofun, nofun⟩
  · have hnot := hended
    rw [Bool.not_eq_true] at hended
    rw [latch_of_not_ended hended]
    refine ⟨h.cur_brief, h.pending_brief, ?_, h.frozen⟩
    intro hocc hstarted hpaused hholding hone
    by_contra hle
    exact hnot (ended_iff_toNat.mpr ⟨hocc, hstarted, hpaused, hholding, hone, by omega⟩)

theorem latch_pending (now : Ticks) (s : Slot) : (latch now s).pending = s.pending := by
  unfold latch
  split_ifs <;> rfl

theorem latch_keeps {now : Ticks} {s : Slot} (h : (latch now s).occupied = true) :
    s.occupied = true ∧ (latch now s).groupId = s.groupId := by
  unfold latch at h ⊢
  split_ifs at h ⊢
  · cases h
  · exact ⟨h, rfl⟩
  · exact ⟨h, rfl⟩

theorem Regular.frame (h : Regular k c t p) (hdecays : ∀ i, decays (clock t) (p.slots i) = false) :
    Regular t t t (p.atFrame t).composite := by
  have hslots := latched_slots hdecays
  refine ⟨?_, le_rfl, by omega, le_rfl, by omega, fun i => ?_, fun i => ?_, fun i j => ?_⟩
  · rw [composite_lastTickMs]
    rfl
  · rw [hslots, Nat.sub_self]
    exact (h.timely i).latch
  · rw [hslots, latch_pending]
    exact h.plain i
  · rw [hslots, hslots]
    intro hi hj hgroup
    obtain ⟨hocci, hgroupi⟩ := latch_keeps hi
    obtain ⟨hoccj, hgroupj⟩ := latch_keeps hj
    exact h.unique i j hocci hoccj (hgroupi.symm.trans (hgroup.trans hgroupj))

/-- A tick too soon after the last frame. -/
theorem Regular.idleTick (h : Regular k c t p) (hframe : ¬ p.framesAt t) :
    Regular t c t { p with nowMs := clock t } := by
  have hc := h.frame_le
  have hlt := h.lt_frame
  have hkt := h.tick_le
  have htk := h.le_tick
  have hsoon : t < c + 16 := by
    have hnot := not_not.mp hframe
    rw [h.lastTick, BitVec.lt_def, clock_sub_toNat (by omega)] at hnot
    change (t - c) % 65536 < 16 at hnot
    omega
  exact ⟨h.lastTick, by omega, hsoon, le_rfl, by omega, h.timely, h.plain, h.unique⟩

theorem clock_sub_self (t : ℕ) (c : Ticks) : clock t - (clock t - c) = c := sub_sub_cancel _ _

theorem Timely.controlSlot {lag : ℕ} {s : Slot} {cmd : AnimationControl}
    (h : Timely lag (clock t) s) (hocc : s.occupied = true)
    (hpause : cmd = .pause → ended (clock t) s = false) :
    Timely lag (clock t) (controlSlot cmd (clock t) s) := by
  cases cmd with
  | stop =>
      refine ⟨h.cur_brief, h.pending_brief, fun hstop => ?_, fun hstop => ?_⟩
      · cases hstop
      · cases hstop
  | pause =>
      simp only [AnimationPlayer.controlSlot]
      split_ifs with hrun
      · rw [Bool.and_eq_true, Bool.not_eq_true'] at hrun
        refine ⟨h.cur_brief, h.pending_brief, fun _ _ hpaused => ?_, ?_⟩
        · cases hpaused
        intro _ _ _ hholding hone
        have hended := hpause rfl
        by_contra hle
        rw [ended_iff_toNat.mpr ⟨hocc, hrun.1, hrun.2, hholding, hone, not_lt.mp hle⟩] at hended
        cases hended
      · exact h
  | resume =>
      simp only [AnimationPlayer.controlSlot]
      split_ifs with hpaused
      · refine ⟨h.cur_brief, h.pending_brief, ?_, fun _ _ hrun => ?_⟩
        · intro _ hstarted _ hholding hone
          have hfrozen := h.frozen hocc hstarted hpaused hholding hone
          change (clock t - (clock t - s.pausedElapsedMs)).toNat < _
          rw [clock_sub_self]
          exact hfrozen.trans_le (Nat.le_add_right _ _)
        · cases hrun
      · exact h
  | clearQueue => exact ⟨h.cur_brief, h.pending_brief, h.running, h.frozen⟩

theorem activatePending_of_plain {s : Slot} (h : Plain s.pending) :
    ∃ trigger level, p.activatePending s =
      { s with
          cur := { s.pending with startMs := p.nowMs }
          hasPending := false
          started := true
          holding := false
          paused := false
          pausedElapsedMs := 0
          reactiveTriggerMs := trigger
          reactiveLevel := level } := by
  have hfrom : AnimationState.hasFlag { s.pending with startMs := p.nowMs }
      flagCurrentColorFrom = false := h.1
  have hto : AnimationState.hasFlag { s.pending with startMs := p.nowMs }
      flagCurrentColorTo = false := h.2
  unfold activatePending
  simp only [hfrom, hto, Bool.false_eq_true, if_false]
  split_ifs
  · exact ⟨_, _, rfl⟩
  · exact ⟨s.reactiveTriggerMs, s.reactiveLevel, rfl⟩

theorem SlotChange.timely {lag : ℕ} {i : Fin maxAnimSlots} {packet : AnimationPacket} {s' : Slot}
    (hchange : SlotChange p (clock t) i packet s') (h : Timely lag (clock t) (p.slots i))
    (hplain : Plain (p.slots i).pending) (hpermitted : Permitted packet)
    (hunaffected : Unaffected (clock t) p packet) : Timely lag (clock t) s' := by
  cases hchange with
  | same => exact h
  | refill pkt _ => exact ⟨h.cur_brief, hpermitted.1, h.running, h.frozen⟩
  | alloc pkt _ _ => exact ⟨h.cur_brief, hpermitted.1, nofun, nofun⟩
  | activate seqId g _ _ =>
      obtain ⟨trigger, level, hactivate⟩ :=
        @activatePending_of_plain { p with nowMs := clock t } _ hplain
      rw [hactivate]
      refine ⟨h.pending_brief, h.pending_brief, ?_, nofun⟩
      intro _ _ _ _ hone
      have hduration : (p.slots i).pending.durationMs.toNat ≠ 0 := by
        intro h0
        have hzero : (p.slots i).pending.durationMs = 0 := BitVec.eq_of_toNat_eq h0
        simp [oneShot, hzero] at hone
      change (clock t - clock t).toNat < _
      rw [clock_sub_toNat le_rfl]
      change (t - t) % 65536 < (p.slots i).pending.startDelayMs.toNat +
        (p.slots i).pending.durationMs.toNat + lag
      omega
  | control cmd g hocc haddr =>
      refine h.controlSlot hocc ?_
      rintro rfl
      exact hunaffected i haddr
  | trigger seqId g ty value ms haddr htype =>
      exact ⟨h.cur_brief, h.pending_brief, h.running, h.frozen⟩

theorem SlotChange.plain {now : Ticks} {i : Fin maxAnimSlots} {packet : AnimationPacket} {s' : Slot}
    (hchange : SlotChange p now i packet s') (hplain : Plain (p.slots i).pending)
    (hpermitted : Permitted packet) : Plain s'.pending := by
  cases hchange with
  | same => exact hplain
  | refill pkt _ => exact hpermitted.2
  | alloc pkt _ _ => exact hpermitted.2
  | activate seqId g _ _ =>
      obtain ⟨trigger, level, hactivate⟩ :=
        @activatePending_of_plain { p with nowMs := now } _ hplain
      rw [hactivate]
      exact hplain
  | control cmd g _ _ =>
      cases cmd <;> simp only [AnimationPlayer.controlSlot] <;> first | exact hplain | skip
      all_goals
        split_ifs
        · exact hplain
        · exact hplain
  | trigger seqId g ty value ms haddr htype => exact hplain

/-- An occupied slot was occupied by its group before, or has just been given to it. -/
theorem SlotChange.occupied {now : Ticks} {i : Fin maxAnimSlots} {packet : AnimationPacket}
    {s' : Slot} (hchange : SlotChange p now i packet s') (hocc : s'.occupied = true) :
    ((p.slots i).occupied = true ∧ s'.groupId = (p.slots i).groupId) ∨
      (p.findSlot s'.groupId = none ∧ p.freeSlot = some i) := by
  cases hchange with
  | same => exact .inl ⟨hocc, rfl⟩
  | refill pkt hfind => exact .inl ⟨hocc, rfl⟩
  | alloc pkt hnone hfree => exact .inr ⟨hnone, hfree⟩
  | activate seqId g hfind hpending =>
      refine .inl ⟨(p.findSlot_some hfind).1, ?_⟩
      unfold activatePending
      dsimp only
      split_ifs <;> rfl
  | control cmd g hocc' haddr =>
      refine .inl ⟨hocc', ?_⟩
      cases cmd <;> simp only [AnimationPlayer.controlSlot] at hocc ⊢
      · cases hocc
      · split_ifs <;> rfl
      · split_ifs <;> rfl
  | trigger seqId g ty value ms haddr htype => exact .inl ⟨hocc, rfl⟩

theorem UniqueGroups.handlePacket (h : UniqueGroups p) (now : Ticks) (packet : AnimationPacket) :
    UniqueGroups (p.handlePacket now packet) := by
  intro i j hi hj hgroup
  rcases (p.handlePacket_slotChange now packet i).occupied hi with ⟨hocci, hgi⟩ | ⟨hnonei, hfreei⟩
  · rcases (p.handlePacket_slotChange now packet j).occupied hj with ⟨hoccj, hgj⟩ | ⟨hnonej, -⟩
    · exact h i j hocci hoccj (hgi.symm.trans (hgroup.trans hgj))
    · exact absurd (hgi.symm.trans hgroup) (p.findSlot_none hnonej i hocci)
  · rcases (p.handlePacket_slotChange now packet j).occupied hj with ⟨hoccj, hgj⟩ | ⟨-, hfreej⟩
    · exact absurd (hgj.symm.trans hgroup.symm) (p.findSlot_none hnonei j hoccj)
    · rw [hfreei] at hfreej
      exact Option.some_inj.mp hfreej

theorem Regular.packet (h : Regular k c t p) {packet : AnimationPacket}
    (hpermitted : Permitted packet) (hunaffected : Unaffected (clock t) p packet) :
    Regular k c t (p.handlePacket (clock t) packet) where
  lastTick := (p.handlePacket_lastTickMs (clock t) packet).trans h.lastTick
  frame_le := h.frame_le
  lt_frame := h.lt_frame
  tick_le := h.tick_le
  le_tick := h.le_tick
  timely i := (p.handlePacket_slotChange (clock t) packet i).timely (h.timely i) (h.plain i)
    hpermitted hunaffected
  plain i := (p.handlePacket_slotChange (clock t) packet i).plain (h.plain i) hpermitted
  unique := h.unique.handlePacket (clock t) packet

end

/-! ### Runs -/

/-- From time `t` on, with the last tick at `k`: time does not go back, and nothing comes later
than a second after the last tick. -/
def Paced : ℕ → ℕ → List TimedInput → Prop
  | _, _, [] => True
  | k, t, e :: es => t ≤ e.time ∧ e.time ≤ k + 1000 ∧
      match e.input with
      | .tick => Paced e.time e.time es
      | .packet _ => Paced k e.time es

def packets (es : List TimedInput) : List (ℕ × AnimationPacket) :=
  es.filterMap fun e =>
    match e.input with
    | .packet packet => some (e.time, packet)
    | .tick => none

/-- No packet depends on an end that no frame has seen, and no frame lets a reactive level decay. -/
def Undisturbed (p : AnimationPlayer) (e : TimedInput) : Prop :=
  match e.input with
  | .packet packet => Unaffected (clock e.time) p packet
  | .tick => p.framesAt e.time → ∀ i, decays (clock e.time) (p.slots i) = false

instance (p : AnimationPlayer) (e : TimedInput) : Decidable (Undisturbed p e) := by
  unfold Undisturbed
  split <;> infer_instance

section
variable {p : AnimationPlayer} {r : Reference} {k c t : ℕ}

theorem Regular.refines_later (h : Regular k c t p) (hr : Refines t p r) {t' : ℕ} (ht : t ≤ t')
    (hk : t' ≤ k + 1000) : Refines t' p r := by
  have hc := h.frame_le
  have hlt := h.lt_frame
  have hkt := h.tick_le
  have hlater := hr.later (d := t' - t) h.timely (by omega)
  have htime : t + (t' - t) = t' := by omega
  rwa [htime] at hlater

/-- Every run refines the reference run of its packets. -/
theorem run_refines (es rest : List TimedInput) (h : Regular k c t p) (hr : Refines t p r)
    (hpaced : Paced k t (es ++ rest)) (hguard : Transition.Guarded stepAt Undisturbed p es)
    (hpermitted : ∀ x ∈ packets es, Permitted x.2) :
    ∃ k' c' t', Regular k' c' t' (p.run es) ∧
      Refines t' (p.run es) ((packets es).foldl Reference.step r) ∧ Paced k' t' rest := by
  induction es generalizing p r k c t with
  | nil => exact ⟨k, c, t, h, hr, hpaced⟩
  | cons e es ih =>
      obtain ⟨time, input⟩ := e
      obtain ⟨ht, hk, hnext⟩ := hpaced
      obtain ⟨hok, hguard⟩ := hguard
      have hlater := h.later ht hk
      have hrefines := h.refines_later hr ht hk
      cases input with
      | packet packet =>
          have hpacket : Permitted packet := hpermitted (time, packet) List.mem_cons_self
          have hstep := hrefines.packet hlater.unique hlater.plain hok
          exact ih (hlater.packet hpacket hok) hstep hnext hguard
            fun x hx => hpermitted x (List.mem_cons_of_mem _ hx)
      | tick =>
          by_cases hframe : p.framesAt time
          · have hrun : p.stepAt ⟨time, .tick⟩ = (p.atFrame time).composite :=
              tick_of_framesAt hframe
            have hregular := hlater.frame (hok hframe)
            have hstep := hrefines.frame (hok hframe)
            rw [← hrun] at hregular hstep
            exact ih hregular hstep hnext hguard hpermitted
          · have hrun : p.stepAt ⟨time, .tick⟩ = { p with nowMs := clock time } :=
              tick_of_not_framesAt hframe
            have hregular := hlater.idleTick hframe
            have hstep : Refines time { p with nowMs := clock time } r :=
              ⟨hrefines.time_le, hrefines.agrees.slots, hrefines.agrees.settings⟩
            rw [← hrun] at hregular hstep
            exact ih hregular hstep hnext hguard hpermitted

theorem regular_init : Regular 0 0 0 init := by
  have hbrief : Brief idleState := Nat.zero_le _
  have hplain : Plain idleState := ⟨by decide, by decide⟩
  refine ⟨rfl, le_rfl, by omega, le_rfl, by omega, fun i => ?_, fun i => hplain, ?_⟩
  · exact ⟨hbrief, hbrief, nofun, nofun⟩
  · exact nofun

theorem refines_init : Refines 0 init .init := ⟨le_rfl, rfl, rfl⟩

end

/-! ### The colour of a frame -/

section
variable {p q : AnimationPlayer}

theorem contribute_congr (h : p.settings = q.settings) (hnow : p.nowMs = q.nowMs) (s : Slot)
    (e : Ticks) : p.contribute s e = q.contribute s e := by
  have hpalette : p.palette = q.palette := congrArg Settings.palette h
  have hbase : p.baseColors = q.baseColors := congrArg Settings.baseColors h
  have hresolve : p.resolveColorRef = q.resolveColorRef := by
    funext ref
    unfold resolveColorRef
    rw [hpalette, hbase]
  have happly : p.applyProgress = q.applyProgress := by
    funext a progress
    unfold applyProgress
    rw [hresolve]
  have hdecay : p.decayReactive = q.decayReactive := by
    funext s
    unfold decayReactive
    rw [hnow]
  unfold contribute computeSlotOutput tickFade tickBreathe tickPulse tickBlink tickStrobe
  rw [hresolve, happly, hdecay]

theorem compositeSlot_congr (h : p.settings = q.settings) (hnow : p.nowMs = q.nowMs) (s : Slot) :
    p.compositeSlot s = q.compositeSlot s := by
  have hcontribute : p.contribute = q.contribute := by
    funext s e
    exact contribute_congr h hnow s e
  have helapsed : p.slotElapsed = q.slotElapsed := by
    funext s
    unfold slotElapsed
    rw [hnow]
  unfold compositeSlot
  rw [hcontribute, helapsed]

/-- The frame of a time, from the settled slots. -/
theorem composite_lastOutput_congr {t : ℕ}
    (h : Agrees (settledAt (clock t) p) (settledAt (clock t) q)) :
    (p.atFrame t).composite.lastOutput = (q.atFrame t).composite.lastOutput := by
  have hsettings : (p.atFrame t).settings = (q.atFrame t).settings := h.settings
  have hslots : ∀ i, settled (clock t) (p.slots i) = settled (clock t) (q.slots i) :=
    congrFun h.slots
  have hlayers : ∀ i, ((p.atFrame t).compositeSlot (p.slots i)).2 =
      ((q.atFrame t).compositeSlot (q.slots i)).2 := by
    intro i
    have hp := (p.atFrame t).compositeSlot_settled (p.slots i)
    have hq := (q.atFrame t).compositeSlot_settled (q.slots i)
    rw [← hp, ← hq, compositeSlot_congr hsettings rfl]
    exact congrArg (fun s => ((q.atFrame t).compositeSlot s).2) (hslots i)
  have hbackground : p.backgroundColor = q.backgroundColor :=
    congrArg Settings.backgroundColor h.settings
  unfold composite
  dsimp only
  change AnimationPlayer.lastOutput (if _ then _ else _) =
    AnimationPlayer.lastOutput (if _ then _ else _)
  have hlist : (List.finRange maxAnimSlots).filterMap
        (fun i => ((p.atFrame t).compositeSlot ((p.atFrame t).slots i)).2) =
      (List.finRange maxAnimSlots).filterMap
        fun i => ((q.atFrame t).compositeSlot ((q.atFrame t).slots i)).2 :=
    List.filterMap_congr fun i _ => hlayers i
  rw [hlist]
  split_ifs
  · rw [setOutput_lastOutput, setOutput_lastOutput]
    exact hbackground
  · rw [setOutput_lastOutput, setOutput_lastOutput]
    exact congrArg _ hbackground

end

/-- The colour of the frame at `t` after a run from boot. -/
def colourAt (es : List TimedInput) (t : ℕ) : ColorRGB :=
  ((init.run es).tick (clock t)).lastOutput

/-- The last tick of this run, at `t`, computes a frame, and the ticks are a second apart at most. -/
structure Schedule (es : List TimedInput) (t : ℕ) : Prop where
  paced : Paced 0 0 (es ++ [⟨t, .tick⟩])
  frame : (init.run es).framesAt t

theorem Schedule.refines {es : List TimedInput} {t : ℕ} (h : Schedule es t)
    (hguard : Transition.Guarded stepAt Undisturbed init es)
    (hpermitted : ∀ x ∈ packets es, Permitted x.2) :
    Refines t (init.run es) ((packets es).foldl Reference.step .init) := by
  obtain ⟨k, c, t', hregular, hrefines, ht, hk, -⟩ :=
    run_refines es _ regular_init refines_init h.paced hguard hpermitted
  exact hregular.refines_later hrefines ht hk

/-- Two runs with the same packets at the same times, whose steps are all undisturbed, show the
same colour in a frame of the same time, whatever their ticks. -/
theorem colourAt_eq_of_same_packets {es₁ es₂ : List TimedInput} {t : ℕ}
    (hsame : packets es₁ = packets es₂) (hpermitted : ∀ x ∈ packets es₁, Permitted x.2)
    (h₁ : Schedule es₁ t) (h₂ : Schedule es₂ t)
    (hguard₁ : Transition.Guarded stepAt Undisturbed init es₁)
    (hguard₂ : Transition.Guarded stepAt Undisturbed init es₂) :
    colourAt es₁ t = colourAt es₂ t := by
  have hrefines₁ := h₁.refines hguard₁ hpermitted
  have hrefines₂ := h₂.refines hguard₂ (hsame ▸ hpermitted)
  rw [hsame] at hrefines₁
  have hagrees : Agrees (settledAt (clock t) (init.run es₁)) (settledAt (clock t) (init.run es₂)) :=
    ⟨hrefines₁.agrees.slots.trans hrefines₂.agrees.slots.symm,
      hrefines₁.agrees.settings.trans hrefines₂.agrees.settings.symm⟩
  unfold colourAt
  rw [tick_of_framesAt h₁.frame, tick_of_framesAt h₂.frame]
  exact composite_lastOutput_congr hagrees

/-! ### A reactive step between two frames -/

def reactiveFlash (decayRate : Byte) : PacketAnimationPrepare where
  animType := .reactive
  groupId := 7
  flags := 0
  transitionMs := 0
  durationMs := 0
  colorFrom := .rgb .black
  colorTo := .rgb ⟨255, 0, 0⟩
  param1 := decayRate
  param2 := 0
  composeMode := .opaqueTop
  composeOrder := 0
  startDelayMs := 0
  animates := .color

/-- A triggered flash, and then the ticks. -/
def flashRun (decayRate : Byte) (ticks : List ℕ) : List TimedInput :=
  [⟨0, .packet (.prepare (reactiveFlash decayRate))⟩, ⟨0, .packet (.start 1 7)⟩,
    ⟨0, .packet (.updateParams 2 7 .trigger 255 10)⟩] ++ ticks.map fun t => ⟨t, .tick⟩

theorem flashRun_permitted (decayRate : Byte) :
    ∀ x ∈ packets (flashRun decayRate []), Permitted x.2 := by
  intro x hx
  change x ∈ [(0, AnimationPacket.prepare (reactiveFlash decayRate)), (0, .start 1 7),
    (0, .updateParams 2 7 .trigger 255 10)] at hx
  simp only [List.mem_cons, List.not_mem_nil, or_false] at hx
  rcases hx with rfl | rfl | rfl
  · have hflags : ∀ flag, (reactiveFlash decayRate).toState.hasFlag flag = false := by
      intro flag
      simp [AnimationState.hasFlag, PacketAnimationPrepare.toState, reactiveFlash]
    exact ⟨Nat.zero_le _, hflags _, hflags _⟩
  · trivial
  · trivial

instance (k t : ℕ) (es : List TimedInput) : Decidable (Paced k t es) := by
  induction es generalizing k t with
  | nil => exact instDecidableTrue
  | cons e es ih =>
      obtain ⟨time, input⟩ := e
      cases input with
      | packet packet =>
          haveI := ih k time
          exact inferInstanceAs (Decidable (t ≤ time ∧ time ≤ k + 1000 ∧ Paced k time es))
      | tick =>
          haveI := ih time time
          exact inferInstanceAs (Decidable (t ≤ time ∧ time ≤ k + 1000 ∧ Paced time time es))

/-- One more frame in between, and the level is lower by another fifty. -/
theorem flashRun_colour_differs :
    packets (flashRun 200 []) = packets (flashRun 200 [250]) ∧
      (∀ x ∈ packets (flashRun 200 []), Permitted x.2) ∧
      Schedule (flashRun 200 []) 500 ∧ Schedule (flashRun 200 [250]) 500 ∧
      colourAt (flashRun 200 []) 500 ≠ colourAt (flashRun 200 [250]) 500 :=
  ⟨rfl, flashRun_permitted 200, ⟨by decide +kernel, by decide +kernel⟩,
    ⟨by decide +kernel, by decide +kernel⟩, by decide +kernel⟩

/-- So slow a decay does not show in the frame in between. -/
theorem flashRun_colour_eq : colourAt (flashRun 3 []) 500 = colourAt (flashRun 3 [250]) 500 :=
  colourAt_eq_of_same_packets rfl (flashRun_permitted 3) ⟨by decide +kernel, by decide +kernel⟩
    ⟨by decide +kernel, by decide +kernel⟩ (by decide +kernel) (by decide +kernel)

end Lightnet.AnimationPlayer
