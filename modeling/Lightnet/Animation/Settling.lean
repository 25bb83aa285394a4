import Lightnet.Animation.PlayerRun

/-!
# Slots between two frames

The end of a one-shot step takes effect in the first frame after it: the slot then holds, or is
reaped. `settled now s` is the slot with the end put into effect at once. As long as frames come
often enough for the clock not to wrap in between, a slot that is settled late is the slot that was
settled on time.
-/

namespace Lightnet.AnimationPlayer

/-! ### Ends and their effect -/

def oneShot (a : AnimationState) : Bool :=
  !(a.hasFlag flagLoop) && a.durationMs ≠ 0 && a.animType ≠ .reactive

/-- The running step has run its full duration, and no frame has seen it yet. -/
def ended (now : Ticks) (s : Slot) : Bool :=
  s.occupied && s.started && !s.paused && !s.holding && oneShot s.cur &&
    s.cur.startDelayMs ≤ now - s.cur.startMs &&
    s.cur.durationMs ≤ now - s.cur.startMs - s.cur.startDelayMs

def reaped (s : Slot) : Slot :=
  { s with
      occupied := false
      started := false
      holding := false
      paused := false
      hasPending := false }

/-- The end of the step put into effect, as a frame does it. -/
def latch (now : Ticks) (s : Slot) : Slot :=
  if ended now s then if s.cur.hasFlag flagReapOnDone then reaped s else { s with holding := true }
  else s

/-- A free slot keeps nothing. -/
def settled (now : Ticks) (s : Slot) : Slot :=
  if (latch now s).occupied then latch now s else clearSlot s

/-- The step has ended and its slot is about to be freed. -/
def expired (now : Ticks) (s : Slot) : Bool := ended now s && s.cur.hasFlag flagReapOnDone

theorem ended_iff {now : Ticks} {s : Slot} : ended now s = true ↔
    s.occupied = true ∧ s.started = true ∧ s.paused = false ∧ s.holding = false ∧
      oneShot s.cur = true ∧ s.cur.startDelayMs ≤ now - s.cur.startMs ∧
      s.cur.durationMs ≤ now - s.cur.startMs - s.cur.startDelayMs := by
  simp only [ended, Bool.and_eq_true, Bool.not_eq_true', decide_eq_true_eq]
  tauto

theorem latch_of_not_ended {now : Ticks} {s : Slot} (h : ended now s = false) :
    latch now s = s := by
  rw [latch, h]
  rfl

theorem settled_of_free {now : Ticks} {s : Slot} (h : s.occupied = false) :
    settled now s = clearSlot s := by
  have hended : ended now s = false := by simp [ended, h]
  rw [settled, latch_of_not_ended hended, h]
  rfl

theorem settled_of_not_ended {now : Ticks} {s : Slot} (hocc : s.occupied = true)
    (h : ended now s = false) : settled now s = s := by
  rw [settled, latch_of_not_ended h, if_pos hocc]

theorem settled_of_expired {now : Ticks} {s : Slot} (h : expired now s = true) :
    settled now s = clearSlot s := by
  rw [expired, Bool.and_eq_true] at h
  rw [settled, latch, h.1, h.2]
  rfl

theorem settled_of_ended {now : Ticks} {s : Slot} (h : ended now s = true)
    (hkeep : expired now s = false) : settled now s = { s with holding := true } := by
  have hreap : s.cur.hasFlag flagReapOnDone = false := by simpa [expired, h] using hkeep
  have hocc := (ended_iff.mp h).1
  rw [settled, latch, h, hreap]
  simp [hocc]

/-- What settling does to a slot: it is freed, or latched, or nothing. -/
theorem settled_cases (now : Ticks) (s : Slot) :
    ((s.occupied = false ∨ expired now s = true) ∧ settled now s = clearSlot s) ∨
    (s.occupied = true ∧ expired now s = false ∧ ended now s = true ∧
      settled now s = { s with holding := true }) ∨
    (s.occupied = true ∧ ended now s = false ∧ settled now s = s) := by
  by_cases hocc : s.occupied = true
  · by_cases hexp : expired now s = true
    · exact .inl ⟨.inr hexp, settled_of_expired hexp⟩
    · rw [Bool.not_eq_true] at hexp
      by_cases hend : ended now s = true
      · exact .inr (.inl ⟨hocc, hexp, hend, settled_of_ended hend hexp⟩)
      · rw [Bool.not_eq_true] at hend
        exact .inr (.inr ⟨hocc, hend, settled_of_not_ended hocc hend⟩)
  · rw [Bool.not_eq_true] at hocc
    exact .inl ⟨.inl hocc, settled_of_free hocc⟩

@[simp] theorem clearSlot_clearSlot (s : Slot) : clearSlot (clearSlot s) = clearSlot s := rfl

theorem ended_holding (now : Ticks) (s : Slot) : ended now { s with holding := true } = false := by
  simp [ended]

theorem settled_settled (now : Ticks) (s : Slot) :
    settled now (settled now s) = settled now s := by
  rcases settled_cases now s with ⟨-, h⟩ | ⟨hocc, -, -, h⟩ | ⟨-, -, h⟩
  · rw [h]
    exact settled_of_free rfl
  · rw [h]
    exact settled_of_not_ended hocc (ended_holding now s)
  · rw [h, h]

theorem settled_occupied (now : Ticks) (s : Slot) :
    (settled now s).occupied = (s.occupied && !expired now s) := by
  rcases settled_cases now s with ⟨hgone, h⟩ | ⟨hocc, hexp, -, h⟩ | ⟨hocc, hend, h⟩
  · rw [h]
    rcases hgone with hgone | hgone <;> simp [hgone, clearSlot]
  · simp [h, hocc, hexp]
  · simp [h, hocc, expired, hend]

@[simp] theorem settled_cur (now : Ticks) (s : Slot) : (settled now s).cur = s.cur := by
  rcases settled_cases now s with ⟨-, h⟩ | ⟨-, -, -, h⟩ | ⟨-, -, h⟩ <;> (rw [h]; try rfl)

@[simp] theorem settled_pending (now : Ticks) (s : Slot) :
    (settled now s).pending = s.pending := by
  rcases settled_cases now s with ⟨-, h⟩ | ⟨-, -, -, h⟩ | ⟨-, -, h⟩ <;> (rw [h]; try rfl)

/-- Settling goes further than a latch only in what a free slot remembers. -/
theorem settled_latch (now : Ticks) (s : Slot) : settled now (latch now s) = settled now s := by
  rcases settled_cases now s with ⟨hgone, h⟩ | ⟨hocc, hexp, hend, h⟩ | ⟨hocc, hend, h⟩
  · rcases hgone with hfree | hexp
    · rw [latch_of_not_ended (by simp [ended, hfree])]
    · rw [h]
      rw [expired, Bool.and_eq_true] at hexp
      rw [latch, if_pos hexp.1, if_pos hexp.2]
      exact settled_of_free rfl
  · have hreap : s.cur.hasFlag flagReapOnDone = false := by simpa [expired, hend] using hexp
    rw [h, latch, if_pos hend, hreap]
    exact settled_of_not_ended (s := { s with holding := true }) hocc (ended_holding now s)
  · rw [latch_of_not_ended hend]

/-! ### Settling and frames -/

/-- A reactive slot is about to lose some of its level. -/
def decays (now : Ticks) (s : Slot) : Bool :=
  s.occupied && s.started && s.cur.animType = .reactive && s.reactiveLevel ≠ 0 &&
    1000 ≤ s.cur.param1.toNat * (now - s.reactiveTriggerMs).toNat

theorem decayReactive_of_not_decays {p : AnimationPlayer} {s : Slot} (hocc : s.occupied = true)
    (hstarted : s.started = true) (htype : s.cur.animType = .reactive)
    (h : decays p.nowMs s = false) : p.decayReactive s = s := by
  unfold decayReactive
  split_ifs with hlevel
  · rfl
  · have hsmall : s.cur.param1.toNat * (p.nowMs - s.reactiveTriggerMs).toNat < 1000 := by
      simpa only [decays, hocc, hstarted, htype, hlevel, decide_true, Bool.true_and, ne_eq,
        not_false_iff, decide_eq_false_iff_not, not_le] using h
    have hpos : s.reactiveLevel.toNat ≠ 0 := fun h0 => hlevel (BitVec.eq_of_toNat_eq h0)
    simp only [Nat.div_eq_of_lt hsmall, Nat.le_zero_eq, if_neg hpos, Nat.sub_zero]
    simp

theorem contribute_fst_of_not_decays {p : AnimationPlayer} {s : Slot} (hocc : s.occupied = true)
    (hstarted : s.started = true) (h : decays p.nowMs s = false) (e : Ticks) :
    (p.contribute s e).1 = s := by
  cases htype : s.cur.animType
  case reactive =>
    simp only [contribute, computeSlotOutput, htype,
      decayReactive_of_not_decays hocc hstarted htype h]
  all_goals
    simp only [contribute, computeSlotOutput, htype]
    try split_ifs
    all_goals rfl

theorem ended_of_looping {now : Ticks} {s : Slot}
    (h : (s.cur.hasFlag flagLoop && s.cur.durationMs ≠ 0) = true) : ended now s = false := by
  rw [Bool.and_eq_true] at h
  simp [ended, oneShot, h.1]

theorem ended_of_early {p : AnimationPlayer} {s : Slot}
    (h : (!s.holding && p.slotElapsed s < s.cur.startDelayMs) = true) :
    ended p.nowMs s = false := by
  rw [Bool.and_eq_true, Bool.not_eq_true', decide_eq_true_eq] at h
  rw [Bool.eq_false_iff]
  intro hended
  obtain ⟨-, -, hpaused, -, -, hdelay, -⟩ := ended_iff.mp hended
  have helapsed : p.slotElapsed s = p.nowMs - s.cur.startMs := by
    rw [slotElapsed, hpaused]
    rfl
  rw [helapsed] at h
  exact BitVec.not_le.mpr h.2 hdelay

/-- Past the onset of a step that does not loop, the frame detects the end. -/
theorem finishes_eq_ended {p : AnimationPlayer} {s : Slot} (hocc : s.occupied = true)
    (hstarted : s.started = true)
    (hloop : (s.cur.hasFlag flagLoop && s.cur.durationMs ≠ 0) = false)
    (hearly : (!s.holding && p.slotElapsed s < s.cur.startDelayMs) = false) :
    finishes s (p.slotElapsed s - s.cur.startDelayMs) = ended p.nowMs s := by
  rw [Bool.eq_iff_iff, ended_iff]
  simp only [finishes, oneShot, Bool.and_eq_true, Bool.not_eq_true', decide_eq_true_eq]
  constructor
  · rintro ⟨⟨⟨⟨hpaused, hholding⟩, hduration⟩, hle⟩, htype⟩
    have helapsed : p.slotElapsed s = p.nowMs - s.cur.startMs := by
      rw [slotElapsed, hpaused]
      rfl
    have hflag : s.cur.hasFlag flagLoop = false := by
      simpa only [hduration, ne_eq, not_false_iff, decide_true, Bool.and_true] using hloop
    have hdelay : s.cur.startDelayMs ≤ p.slotElapsed s := by
      simpa [hholding] using hearly
    rw [helapsed] at hle hdelay
    exact ⟨hocc, hstarted, hpaused, hholding, ⟨⟨hflag, hduration⟩, htype⟩, hdelay, hle⟩
  · rintro ⟨-, -, hpaused, hholding, ⟨⟨-, hduration⟩, htype⟩, -, hle⟩
    have helapsed : p.slotElapsed s = p.nowMs - s.cur.startMs := by
      rw [slotElapsed, hpaused]
      rfl
    rw [helapsed]
    exact ⟨⟨⟨⟨hpaused, hholding⟩, hduration⟩, hle⟩, htype⟩

/-- A frame latches the slots, unless a reactive level decays in it. -/
theorem compositeSlot_fst {p : AnimationPlayer} {s : Slot} (h : decays p.nowMs s = false) :
    (p.compositeSlot s).1 = latch p.nowMs s := by
  unfold compositeSlot
  by_cases hidle : (!s.occupied || !s.started) = true
  · have hended : ended p.nowMs s = false := by
      rw [Bool.eq_false_iff]
      intro hended
      obtain ⟨hocc, hstarted, -⟩ := ended_iff.mp hended
      simp [hocc, hstarted] at hidle
    rw [if_pos hidle, latch_of_not_ended hended]
  obtain ⟨hocc, hstarted⟩ : s.occupied = true ∧ s.started = true := by simpa using hidle
  have hkeeps := contribute_fst_of_not_decays hocc hstarted h
  rw [if_neg hidle]
  dsimp only
  by_cases hloop : (s.cur.hasFlag flagLoop && s.cur.durationMs ≠ 0) = true
  · rw [if_pos hloop, latch_of_not_ended (ended_of_looping hloop)]
    exact hkeeps _
  rw [if_neg hloop]
  by_cases hearly : (!s.holding && p.slotElapsed s < s.cur.startDelayMs) = true
  · rw [if_pos hearly, latch_of_not_ended (ended_of_early hearly)]
  rw [if_neg hearly]
  rw [Bool.not_eq_true] at hloop hearly
  rw [finishes_eq_ended hocc hstarted hloop hearly, latch]
  cases hended : ended p.nowMs s with
  | false =>
      simp only [Bool.false_and, Bool.false_eq_true, if_false]
      exact hkeeps _
  | true =>
      simp only [Bool.true_and, if_true]
      by_cases hreap : s.cur.hasFlag flagReapOnDone = true
      · rw [if_pos hreap, if_pos hreap]
        rfl
      · rw [if_neg hreap, if_neg hreap]
        exact contribute_fst_of_not_decays (s := { s with holding := true }) hocc hstarted h _

theorem renderedElapsed_of_ended {p : AnimationPlayer} {s : Slot}
    (h : ended p.nowMs s = true) :
    p.renderedElapsed s =
      if s.cur.hasFlag flagReapOnDone then none else some s.cur.durationMs := by
  obtain ⟨hocc, hstarted, hpaused, hholding, hone, hdelay, -⟩ := ended_iff.mp h
  simp only [oneShot, Bool.and_eq_true, Bool.not_eq_true', decide_eq_true_eq] at hone
  obtain ⟨⟨hflag, hduration⟩, -⟩ := hone
  have hloop : (s.cur.hasFlag flagLoop && s.cur.durationMs ≠ 0) = false := by
    rw [hflag, Bool.false_and]
  have hearly : (!s.holding && p.slotElapsed s < s.cur.startDelayMs) = false := by
    rw [slotElapsed, hpaused, hholding]
    simpa using hdelay
  have hfin := finishes_eq_ended hocc hstarted hloop hearly
  unfold renderedElapsed
  simp only [hocc, hstarted, hflag, hearly, hfin, h, Bool.not_true, Bool.or_self,
    Bool.false_eq_true, if_false, Bool.false_and, Bool.true_and, Bool.or_true, hduration, ne_eq,
    not_false_iff, decide_true, if_true]

theorem renderedElapsed_holding {p : AnimationPlayer} {s : Slot} (h : ended p.nowMs s = true) :
    p.renderedElapsed { s with holding := true } = some s.cur.durationMs := by
  obtain ⟨hocc, hstarted, -, -, hone, -⟩ := ended_iff.mp h
  simp only [oneShot, Bool.and_eq_true, Bool.not_eq_true', decide_eq_true_eq] at hone
  obtain ⟨⟨hflag, hduration⟩, -⟩ := hone
  unfold renderedElapsed
  simp only [hocc, hstarted, hflag, hduration, finishes, Bool.not_true, Bool.or_self,
    Bool.false_eq_true, if_false, Bool.false_and, Bool.and_false, Bool.or_false, ne_eq,
    not_false_iff, decide_true, Bool.and_true, if_true]

theorem compositeSlot_of_free {p : AnimationPlayer} {s : Slot} (h : s.occupied = false) :
    (p.compositeSlot s).2 = none := by
  unfold compositeSlot
  simp [h]

/-- A frame shows a slot as if it had been settled. -/
theorem compositeSlot_settled (p : AnimationPlayer) (s : Slot) :
    (p.compositeSlot (settled p.nowMs s)).2 = (p.compositeSlot s).2 := by
  rcases settled_cases p.nowMs s with ⟨hgone, h⟩ | ⟨-, hexp, hend, h⟩ | ⟨-, -, h⟩
  · rw [h, compositeSlot_of_free rfl]
    rcases hgone with hfree | hexp
    · rw [compositeSlot_of_free hfree]
    · rw [expired, Bool.and_eq_true] at hexp
      rw [compositeSlot_snd, renderedElapsed_of_ended hexp.1, if_pos hexp.2]
      rfl
  · have hreap : s.cur.hasFlag flagReapOnDone = false := by simpa [expired, hend] using hexp
    rw [h, compositeSlot_snd, compositeSlot_snd, renderedElapsed_holding hend,
      renderedElapsed_of_ended hend, hreap]
    exact contribute_holding p s _
  · rw [h]

/-! ### Settling as time passes -/

/-- Steps that end within a minute. -/
def Brief (a : AnimationState) : Prop := a.startDelayMs.toNat + a.durationMs.toNat ≤ 60000

/-- The slot's step, if it can end, has not been past its end for more than `lag` ms, and it was
not past it when it was paused. -/
structure Timely (lag : ℕ) (now : Ticks) (s : Slot) : Prop where
  cur_brief : Brief s.cur
  pending_brief : Brief s.pending
  running : s.occupied = true → s.started = true → s.paused = false → s.holding = false →
    oneShot s.cur = true →
    (now - s.cur.startMs).toNat < s.cur.startDelayMs.toNat + s.cur.durationMs.toNat + lag
  frozen : s.occupied = true → s.started = true → s.paused = true → s.holding = false →
    oneShot s.cur = true →
    s.pausedElapsedMs.toNat < s.cur.startDelayMs.toNat + s.cur.durationMs.toNat

theorem ended_iff_toNat {now : Ticks} {s : Slot} : ended now s = true ↔
    s.occupied = true ∧ s.started = true ∧ s.paused = false ∧ s.holding = false ∧
      oneShot s.cur = true ∧
      s.cur.startDelayMs.toNat + s.cur.durationMs.toNat ≤ (now - s.cur.startMs).toNat := by
  rw [ended_iff]
  have htime : (s.cur.startDelayMs ≤ now - s.cur.startMs ∧
      s.cur.durationMs ≤ now - s.cur.startMs - s.cur.startDelayMs) ↔
      s.cur.startDelayMs.toNat + s.cur.durationMs.toNat ≤ (now - s.cur.startMs).toNat := by
    generalize now - s.cur.startMs = e
    constructor
    · rintro ⟨h₁, h₂⟩
      rw [BitVec.le_def] at h₁
      rw [BitVec.le_def, BitVec.toNat_sub_of_le h₁] at h₂
      omega
    · intro h
      have h₁ : s.cur.startDelayMs ≤ e := by
        rw [BitVec.le_def]
        omega
      refine ⟨h₁, ?_⟩
      rw [BitVec.le_def, BitVec.toNat_sub_of_le h₁]
      omega
  rw [htime]

theorem clock_add_sub_toNat {t d : ℕ} {c : Ticks} (h : (clock t - c).toNat + d < 65536) :
    (clock (t + d) - c).toNat = (clock t - c).toNat + d := by
  have hc := c.isLt
  rw [clock, BitVec.toNat_sub, BitVec.toNat_ofNat] at h ⊢
  rw [clock, BitVec.toNat_sub, BitVec.toNat_ofNat]
  omega

theorem Timely.later {lag t d : ℕ} {s : Slot} (h : Timely lag (clock t) s)
    (hlag : lag + d ≤ 5000) : Timely (lag + d) (clock (t + d)) s := by
  refine ⟨h.cur_brief, h.pending_brief, ?_, h.frozen⟩
  intro hocc hstarted hpaused hholding hone
  have hrunning := h.running hocc hstarted hpaused hholding hone
  have hbrief : s.cur.startDelayMs.toNat + s.cur.durationMs.toNat ≤ 60000 := h.cur_brief
  rw [clock_add_sub_toNat (by omega)]
  omega

/-- What has ended stays ended, until the clock wraps. -/
theorem Timely.ended_later {lag t d : ℕ} {s : Slot} (h : Timely lag (clock t) s)
    (hlag : lag + d ≤ 5000) (hended : ended (clock t) s = true) :
    ended (clock (t + d)) s = true := by
  rw [ended_iff_toNat] at hended ⊢
  obtain ⟨hocc, hstarted, hpaused, hholding, hone, hle⟩ := hended
  have hrunning := h.running hocc hstarted hpaused hholding hone
  have hbrief : s.cur.startDelayMs.toNat + s.cur.durationMs.toNat ≤ 60000 := h.cur_brief
  refine ⟨hocc, hstarted, hpaused, hholding, hone, ?_⟩
  rw [clock_add_sub_toNat (by omega)]
  omega

/-- Settling a slot early makes no difference later. -/
theorem Timely.settled_later {lag t d : ℕ} {s : Slot} (h : Timely lag (clock t) s)
    (hlag : lag + d ≤ 5000) :
    settled (clock (t + d)) (settled (clock t) s) = settled (clock (t + d)) s := by
  rcases settled_cases (clock t) s with ⟨hgone, heq⟩ | ⟨hocc, hexp, hend, heq⟩ | ⟨-, -, heq⟩
  · rw [heq, settled_of_free rfl, clearSlot_clearSlot]
    rcases hgone with hfree | hexp
    · rw [settled_of_free hfree]
    · rw [expired, Bool.and_eq_true] at hexp
      have hexp' : expired (clock (t + d)) s = true := by
        rw [expired, h.ended_later hlag hexp.1, hexp.2]
        rfl
      rw [settled_of_expired hexp']
  · have hend' := h.ended_later hlag hend
    have hexp' : expired (clock (t + d)) s = false := by
      rw [expired, hend] at hexp
      rw [expired, hend']
      exact hexp
    rw [heq, settled_of_not_ended (s := { s with holding := true }) hocc (ended_holding _ s),
      settled_of_ended hend' hexp']
  · rw [heq]

end Lightnet.AnimationPlayer
