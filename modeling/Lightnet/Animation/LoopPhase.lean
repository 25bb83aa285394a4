import Lightnet.Animation.PlayerRun
import Mathlib.Data.Int.ModEq

/-!
# The phase of a looping slot

A looping slot is rendered at a phase that the player takes from the sixteen bits of time since its
start. They wrap every 65536 ms, and unless the duration divides the time that is lost by the wraps
so far, the phase jumps.
-/

namespace Lightnet.AnimationPlayer

/-! ### The phase a frame renders -/

/-- The slot with another animation in its place, in the same time. -/
def showing (x : Slot) (look : AnimationState) : Slot :=
  { x with cur := { look with
      flags := x.cur.flags
      durationMs := x.cur.durationMs
      startMs := x.cur.startMs
      startDelayMs := x.cur.startDelayMs } }

/-- The frame of real time `t` renders the slot at this phase: whatever the animation, what the
slot contributes to the frame is what the animation shows then. -/
def RendersAt (p : AnimationPlayer) (t : ℕ) (i : Fin maxAnimSlots) (φ : Ticks) : Prop :=
  ∀ look, ((p.atFrame t).compositeSlot (showing (p.slots i) look)).2 =
    ((p.atFrame t).contribute (showing (p.slots i) look) φ).2

/-- The slot, activated at `s`, is rendered at `t` in the phase that the time since its onset
gives. -/
def InPhase (p : AnimationPlayer) (i : Fin maxAnimSlots) (a : AnimationState) (s t : ℕ) : Prop :=
  ∃ φ, p.RendersAt t i φ ∧
    (φ.toNat : ℤ) = ((t : ℤ) - s - a.startDelayMs.toNat) % a.durationMs.toNat

theorem loopPhase_toNat (a : AnimationState) (elapsed : Ticks) (h : a.durationMs ≠ 0) :
    ((loopPhase a elapsed).toNat : ℤ) =
      ((elapsed.toNat : ℤ) - a.startDelayMs.toNat) % a.durationMs.toNat := by
  have hD : 0 < a.durationMs.toNat := by
    rw [Nat.pos_iff_ne_zero]
    intro h0
    exact h (BitVec.eq_of_toNat_eq h0)
  have hlt : (elapsed.toNat + (a.durationMs.toNat - a.startDelayMs.toNat % a.durationMs.toNat)) %
      a.durationMs.toNat < 65536 := (Nat.mod_lt _ hD).trans a.durationMs.isLt
  have hle : a.startDelayMs.toNat % a.durationMs.toNat ≤ a.durationMs.toNat :=
    (Nat.mod_lt _ hD).le
  simp only [loopPhase]
  rw [BitVec.toNat_ofNat, Nat.mod_eq_of_lt hlt]
  push_cast [Nat.cast_sub hle]
  rw [show (elapsed.toNat : ℤ) + (a.durationMs.toNat -
      (a.startDelayMs.toNat : ℤ) % a.durationMs.toNat) =
      (elapsed.toNat - (a.startDelayMs.toNat : ℤ) % a.durationMs.toNat) + a.durationMs.toNat by
    omega]
  rw [Int.add_emod_right, Int.sub_emod, Int.emod_emod, ← Int.sub_emod]

/-- The wraps lose a multiple of 65536 ms. -/
theorem elapsed_phase_iff {s t d D : ℕ} (h : s ≤ t) :
    (((t - s) % 65536 : ℕ) - d : ℤ) % D = ((t : ℤ) - s - d) % D ↔
      D ∣ 65536 * ((t - s) / 65536) := by
  have hdiv := Nat.mod_add_div (t - s) 65536
  have hsub : ((t : ℤ) - s - d) = (((t - s) % 65536 : ℕ) - d : ℤ) +
      (65536 * ((t - s) / 65536) : ℕ) := by
    omega
  rw [hsub]
  change Int.ModEq _ _ _ ↔ _
  rw [Int.modEq_iff_dvd, add_sub_cancel_left, Int.natCast_dvd_natCast]

/-! ### Animations tell the phases apart -/

/-- A square wave of this period, black and white. -/
def blinking (period : Byte) : AnimationState :=
  { idleState with animType := .blink, param1 := period, colorTo := .rgb .white }

/-- The hue wheel, one step a millisecond. -/
def cycling : AnimationState := { idleState with animType := .hueCycle, param1 := 10 }

theorem contribute_blinking (p : AnimationPlayer) (x : Slot) {period : Byte} (h : period ≠ 0)
    (e : Ticks) : (p.contribute (showing x (blinking period)) e).2 =
      some ⟨0, .source .default
        (if e.toNat % (period.toNat * 2) < period.toNat then .white else .black)⟩ := by
  have hout : (p.contribute (showing x (blinking period)) e).2 = some ⟨0, .source .default
      (rgbLerp .black .white (if e.toNat % ((if period = 0 then 1 else period.toNat) * 2) <
        (if period = 0 then 1 else period.toNat) then 255 else 0))⟩ := by
    unfold contribute computeSlotOutput tickBlink
    rfl
  rw [hout, if_neg h]
  split_ifs <;> rfl

/-- Where on the wheel a colour lies. -/
def hueStep (c : ColorRGB) : ℕ :=
  if c.b = 0 then if c.r = 255 then c.g.toNat else 255 + (255 - c.r).toNat
  else if c.r = 0 then if c.g = 255 then 510 + c.b.toNat else 765 + (255 - c.g).toNat
  else if c.b = 255 then 1020 + c.r.toNat else 1275 + (255 - c.b).toNat

theorem contribute_cycling (p : AnimationPlayer) (x : Slot) (e : Ticks) :
    (p.contribute (showing x cycling) e).2 =
      some ⟨0, .source .default (tickHueCycle cycling e).color⟩ := rfl

theorem hueStep_tickHueCycle (e : Ticks) :
    hueStep (tickHueCycle cycling e).color = e.toNat % 1530 := by
  have hperiod : tickHueCycle cycling e =
      tickHueCycle cycling (BitVec.ofNat 16 (e.toNat % 1530)) := by
    have hspeed : (if cycling.param1 = 0 then 1 else cycling.param1.toNat) = 10 := rfl
    have hstep : e.toNat * 10 / 10 % 1530 =
        (BitVec.ofNat 16 (e.toNat % 1530)).toNat * 10 / 10 % 1530 := by
      rw [BitVec.toNat_ofNat]
      omega
    unfold tickHueCycle
    dsimp only
    rw [hspeed, hstep]
  have hwheel : ∀ n : Fin 1530, hueStep (tickHueCycle cycling (BitVec.ofNat 16 n)).color = n := by
    decide +kernel
  rw [hperiod]
  exact hwheel ⟨e.toNat % 1530, Nat.mod_lt _ (by decide)⟩

theorem blinks_alike {p : AnimationPlayer} {x : Slot} {e e' : Ticks}
    (h : ∀ look, (p.contribute (showing x look) e).2 = (p.contribute (showing x look) e').2)
    {period : Byte} (hperiod : period ≠ 0) :
    e.toNat % (period.toNat * 2) < period.toNat ↔
      e'.toNat % (period.toNat * 2) < period.toNat := by
  have hblink := h (blinking period)
  rw [contribute_blinking p x hperiod, contribute_blinking p x hperiod] at hblink
  by_cases he : e.toNat % (period.toNat * 2) < period.toNat <;>
    by_cases he' : e'.toNat % (period.toNat * 2) < period.toNat
  · exact iff_of_true he he'
  · rw [if_pos he, if_neg he'] at hblink
    cases hblink
  · rw [if_neg he, if_pos he'] at hblink
    cases hblink
  · exact iff_of_false he he'

/-- What a square wave adds to the one of half its period. -/
theorem mod_double {m a b : ℕ} (hm : 0 < m) (h : a % m = b % m)
    (hhalf : a % (m * 2) < m ↔ b % (m * 2) < m) : a % (m * 2) = b % (m * 2) := by
  have hlt := Nat.mod_lt a hm
  have ha := Nat.mod_mul (a := m) (b := 2) (x := a)
  have hb := Nat.mod_mul (a := m) (b := 2) (x := b)
  rcases Nat.mod_two_eq_zero_or_one (a / m) with ha2 | ha2 <;>
    rcases Nat.mod_two_eq_zero_or_one (b / m) with hb2 | hb2 <;>
    rw [ha2] at ha <;> rw [hb2] at hb
  · omega
  · have := hhalf.mp (by omega)
    omega
  · have := hhalf.mpr (by omega)
    omega
  · omega

/-- No two times look alike in all animations: the square waves tell them apart modulo 256, and
the hue wheel modulo 1530. -/
theorem contribute_injective {p : AnimationPlayer} {x : Slot} {e e' : Ticks}
    (h : ∀ look, (p.contribute (showing x look) e).2 = (p.contribute (showing x look) e').2) :
    e = e' := by
  have hhue : e.toNat % 1530 = e'.toNat % 1530 := by
    have hcycle := h cycling
    rw [contribute_cycling, contribute_cycling, Option.some_inj, CompositeLayer.mk.injEq,
      LayerOp.source.injEq] at hcycle
    rw [← hueStep_tickHueCycle, ← hueStep_tickHueCycle, hcycle.2.2]
  have hbits : e.toNat % 256 = e'.toNat % 256 := by
    have hstep : ∀ period : Byte, period ≠ 0 →
        e.toNat % period.toNat = e'.toNat % period.toNat →
        e.toNat % (period.toNat * 2) = e'.toNat % (period.toNat * 2) :=
      fun period hperiod hmod => mod_double
        (Nat.pos_of_ne_zero fun h0 => hperiod (BitVec.eq_of_toNat_eq h0)) hmod
        (blinks_alike h hperiod)
    have h2 := hstep 1 (by decide) ((Nat.mod_one _).trans (Nat.mod_one _).symm)
    have h4 := hstep 2 (by decide) h2
    have h8 := hstep 4 (by decide) h4
    have h16 := hstep 8 (by decide) h8
    have h32 := hstep 16 (by decide) h16
    have h64 := hstep 32 (by decide) h32
    have h128 := hstep 64 (by decide) h64
    exact hstep 128 (by decide) h128
  have he := e.isLt
  have he' := e'.isLt
  exact BitVec.eq_of_toNat_eq (by omega)

/-! ### A run that leaves the slot alone -/

/-- The slot runs the looping step `a` in group `g` since real time `s`. -/
structure LoopsIn (g : Byte) (a : AnimationState) (s : ℕ) (x : Slot) : Prop where
  occupied : x.occupied = true
  started : x.started = true
  unpaused : x.paused = false
  group : x.groupId = g
  loops : x.cur.hasFlag flagLoop = true
  duration_ne : x.cur.durationMs ≠ 0
  duration : x.cur.durationMs = a.durationMs
  delay : x.cur.startDelayMs = a.startDelayMs
  start : x.cur.startMs = clock s

/-- Ticks, and packets for other groups. -/
def Spares (g : Byte) (e : TimedInput) : Prop :=
  match e.input with
  | .packet packet => addresses g packet = false
  | .tick => True

section
variable {g : Byte} {a : AnimationState} {s : ℕ}

theorem LoopsIn.looping {x : Slot} (h : LoopsIn g a s x) :
    (x.cur.hasFlag flagLoop && decide (x.cur.durationMs ≠ 0)) = true := by
  rw [h.loops, Bool.true_and]
  exact decide_eq_true h.duration_ne

theorem LoopsIn.compositeSlot {x : Slot} (h : LoopsIn g a s x) (p : AnimationPlayer) :
    LoopsIn g a s (p.compositeSlot x).1 := by
  have hcomposite : p.compositeSlot x = p.contribute x (loopPhase x.cur (p.slotElapsed x)) := by
    unfold AnimationPlayer.compositeSlot
    simp only [h.occupied, h.started, Bool.not_true, Bool.or_self, Bool.false_eq_true, if_false,
      h.looping, if_true]
  obtain ⟨level, hlevel⟩ := p.contribute_fst x (loopPhase x.cur (p.slotElapsed x))
  rw [hcomposite, hlevel]
  exact ⟨h.occupied, h.started, h.unpaused, h.group, h.loops, h.duration_ne, h.duration, h.delay,
    h.start⟩

theorem LoopsIn.stepAt {p : AnimationPlayer} {i : Fin maxAnimSlots} (h : LoopsIn g a s (p.slots i))
    {e : TimedInput} (he : Spares g e) : LoopsIn g a s ((p.stepAt e).slots i) := by
  obtain ⟨t, input⟩ := e
  cases input with
  | packet packet =>
      have hother : (p.handlePacket (clock t) packet).slots i = p.slots i :=
        p.handlePacket_slots_other h.occupied (by rw [h.group]; exact he)
      exact hother ▸ h
  | tick =>
      change LoopsIn g a s ((p.tick (clock t)).slots i)
      by_cases hframe : p.framesAt t
      · rw [tick_of_framesAt hframe, composite_slots]
        exact h.compositeSlot _
      · rw [tick_of_not_framesAt hframe]
        exact h

theorem LoopsIn.run {p : AnimationPlayer} {i : Fin maxAnimSlots} (h : LoopsIn g a s (p.slots i))
    (es : List TimedInput) (hes : ∀ e ∈ es, Spares g e) : LoopsIn g a s ((p.run es).slots i) := by
  induction es generalizing p with
  | nil => exact h
  | cons e es ih =>
      exact ih (h.stepAt (hes e List.mem_cons_self)) fun e' he' => hes e' (List.mem_cons_of_mem _ he')

theorem loopsIn_start {p : AnimationPlayer} {seqId : Byte} {i : Fin maxAnimSlots}
    (hseq : seqId ≠ p.lastStartSeqId) (hfind : p.findSlot g = some i)
    (hpending : (p.slots i).hasPending = true)
    (hloop : (p.slots i).pending.hasFlag flagLoop = true)
    (hduration : (p.slots i).pending.durationMs ≠ 0) (s : ℕ) :
    LoopsIn g (p.slots i).pending s ((p.start seqId g (clock s)).slots i) := by
  obtain ⟨hocc, hgroup⟩ := p.findSlot_some hfind
  rw [start_of_pending p hseq hfind hpending, Function.update_self]
  unfold activatePending
  dsimp only
  split_ifs <;>
    exact ⟨hocc, rfl, rfl, hgroup, hloop, hduration, rfl, rfl, rfl⟩

theorem LoopsIn.showing {x : Slot} (h : LoopsIn g a s x) (look : AnimationState) :
    LoopsIn g a s (showing x look) :=
  ⟨h.occupied, h.started, h.unpaused, h.group, h.loops, h.duration_ne, h.duration, h.delay, h.start⟩

theorem LoopsIn.renderedElapsed {x : Slot} (h : LoopsIn g a s x) (p : AnimationPlayer) :
    p.renderedElapsed x = some (loopPhase x.cur (p.nowMs - clock s)) := by
  unfold AnimationPlayer.renderedElapsed slotElapsed
  simp only [h.occupied, h.started, h.unpaused, h.looping, h.start, Bool.not_true, Bool.or_self,
    Bool.false_eq_true, if_false, if_true]

theorem LoopsIn.rendersAt_iff {p : AnimationPlayer} {i : Fin maxAnimSlots}
    (h : LoopsIn g a s (p.slots i)) (t : ℕ) (φ : Ticks) :
    p.RendersAt t i φ ↔ φ = loopPhase (p.slots i).cur (clock t - clock s) := by
  have hshown : ∀ look, ((p.atFrame t).compositeSlot (AnimationPlayer.showing (p.slots i) look)).2 =
      ((p.atFrame t).contribute (AnimationPlayer.showing (p.slots i) look)
        (loopPhase (p.slots i).cur (clock t - clock s))).2 := by
    intro look
    rw [compositeSlot_snd, (h.showing look).renderedElapsed]
    rfl
  constructor
  · intro hrenders
    exact contribute_injective fun look => (hrenders look).symm.trans (hshown look)
  · rintro rfl
    exact hshown

theorem LoopsIn.inPhase_iff {p : AnimationPlayer} {i : Fin maxAnimSlots}
    (h : LoopsIn g a s (p.slots i)) {t : ℕ} (hst : s ≤ t) :
    p.InPhase i a s t ↔ a.durationMs.toNat ∣ 65536 * ((t - s) / 65536) := by
  have hphase := loopPhase_toNat (p.slots i).cur (clock t - clock s) h.duration_ne
  rw [clock_sub_toNat hst, h.duration, h.delay] at hphase
  rw [← elapsed_phase_iff (d := a.startDelayMs.toNat) hst, ← hphase]
  constructor
  · rintro ⟨φ, hφ, hmod⟩
    rw [(h.rendersAt_iff t φ).mp hφ] at hmod
    exact hmod
  · intro hmod
    exact ⟨_, (h.rendersAt_iff t _).mpr rfl, hmod⟩

end

/-- A start at real time `s` activates a looping step, and from then on nothing arrives for its
group. The frame of real time `t` renders it in phase exactly when the duration divides the whole
wraps of the clock since the start. -/
theorem loop_inPhase_iff (p : AnimationPlayer) {seqId g : Byte} {i : Fin maxAnimSlots}
    (hseq : seqId ≠ p.lastStartSeqId) (hfind : p.findSlot g = some i)
    (hpending : (p.slots i).hasPending = true)
    (hloop : (p.slots i).pending.hasFlag flagLoop = true)
    (hduration : (p.slots i).pending.durationMs ≠ 0) (s : ℕ) (es : List TimedInput)
    (hes : ∀ e ∈ es, Spares g e) {t : ℕ} (hst : s ≤ t) :
    ((p.start seqId g (clock s)).run es).InPhase i (p.slots i).pending s t ↔
      (p.slots i).pending.durationMs.toNat ∣ 65536 * ((t - s) / 65536) :=
  ((loopsIn_start hseq hfind hpending hloop hduration s).run es hes).inPhase_iff hst

/-! ### A loop of one second -/

def loopingFade : PacketAnimationPrepare where
  animType := .fade
  groupId := 7
  flags := flagLoop
  transitionMs := 0
  durationMs := 1000
  colorFrom := .rgb .black
  colorTo := .rgb ⟨255, 0, 0⟩
  param1 := 0
  param2 := 0
  composeMode := .opaqueTop
  composeOrder := 0
  startDelayMs := 0
  animates := .color

def steadyTicks (n : ℕ) : List TimedInput :=
  (List.range n).map fun k => ⟨16 * (k + 1), .tick⟩

theorem steadyTicks_spares (g : Byte) (n : ℕ) : ∀ e ∈ steadyTicks n, Spares g e := by
  intro e he
  obtain ⟨k, -, rfl⟩ := List.mem_map.mp he
  trivial

theorem framesAt_of_lastTickMs {p : AnimationPlayer} {s t : ℕ} (hlast : p.lastTickMs = clock s)
    (hst : s + 16 ≤ t) (ht : t - s < 65536) : p.framesAt t := by
  have hsub : (clock t - clock s).toNat = t - s := by
    rw [clock_sub_toNat (by omega), Nat.mod_eq_of_lt ht]
  intro hlt
  rw [hlast, BitVec.lt_def, hsub] at hlt
  change t - s < 16 at hlt
  omega

/-- Every one of the ticks computes a frame. -/
theorem run_steadyTicks_lastTickMs {p : AnimationPlayer} (h : p.lastTickMs = clock 0) (n : ℕ) :
    (p.run (steadyTicks n)).lastTickMs = clock (16 * n) := by
  induction n with
  | zero => exact h
  | succ n ih =>
      have hframe := framesAt_of_lastTickMs ih (t := 16 * (n + 1)) (by omega) (by omega)
      have hrun : p.run (steadyTicks (n + 1)) =
          (p.run (steadyTicks n)).tick (clock (16 * (n + 1))) := by
        simp [run, steadyTicks, List.range_succ, stepAt]
      rw [hrun, tick_lastTickMs, if_pos hframe]

/-- The first frame after the clock has wrapped. -/
theorem loopingFade_out_of_phase :
    let p := (init.prepare loopingFade).start 1 7 (clock 0)
    (p.run (steadyTicks 4095)).framesAt 65536 ∧
      ¬ (p.run (steadyTicks 4095)).InPhase 0 loopingFade.toState 0 65536 := by
  refine ⟨?_, ?_⟩
  · exact framesAt_of_lastTickMs (run_steadyTicks_lastTickMs (by decide) 4095) (by omega)
      (by omega)
  · have hloops := @loopsIn_start 7 (init.prepare loopingFade) 1 0 (by decide) (by decide)
      (by decide) (by decide) (by decide) 0
    have hiff := (hloops.run (steadyTicks 4095) (steadyTicks_spares 7 4095)).inPhase_iff
      (t := 65536) (by omega)
    intro hphase
    have hdvd : 1000 ∣ 65536 * ((65536 - 0) / 65536) := hiff.mp hphase
    omega

theorem loopingFade_inPhase :
    (((init.prepare loopingFade).start 1 7 (clock 0)).run (steadyTicks 62)).InPhase 0
      loopingFade.toState 0 1008 :=
  (loop_inPhase_iff (init.prepare loopingFade) (by decide) (by decide) (by decide) (by decide)
    (by decide) 0 (steadyTicks 62) (steadyTicks_spares 7 62) (by omega)).mpr (by decide)

end Lightnet.AnimationPlayer
