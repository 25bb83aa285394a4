import Lightnet.Animation.LoopPhase
import Lightnet.Animation.SlotDiscipline

/-!
# Slots that free themselves

A step that is to be reaped is done when its delay and its duration have passed, and the next
frame frees its slot. A frame sees sixteen bits of the elapsed time, and on a panel that is ticked
every sixteen milliseconds it can be thirty-one milliseconds away from the frame before it. So a
step whose delay and duration come to at most 65505 ms is seen to end, and a longer one can be
missed in every round of the counter.
-/

namespace Lightnet.AnimationPlayer

/-- How long after its start a step ends. -/
def lifetime (a : AnimationState) : ℕ := a.startDelayMs.toNat + a.durationMs.toNat

/-- The step ends, and its slot is freed then. -/
def ReapsOnDone (a : AnimationState) : Prop :=
  oneShot a = true ∧ a.hasFlag flagReapOnDone = true

instance (a : AnimationState) : Decidable (ReapsOnDone a) := inferInstanceAs (Decidable (_ ∧ _))

/-- No slot serves the group. -/
def Gone (g : Byte) (p : AnimationPlayer) : Prop :=
  ∀ i, (p.slots i).occupied = true → (p.slots i).groupId ≠ g

/-- The slot runs the step `a` of group `g` since real time `s`, and is to be reaped. -/
structure FiredIn (g : Byte) (a : AnimationState) (s : ℕ) (x : Slot) : Prop where
  occupied : x.occupied = true
  started : x.started = true
  unpaused : x.paused = false
  unheld : x.holding = false
  group : x.groupId = g
  reaps : ReapsOnDone x.cur
  lifetime : lifetime x.cur = lifetime a
  start : x.cur.startMs = clock s

/-! ### Ticks that come often enough -/

/-- From `k` on a tick comes every sixteen milliseconds at the latest. -/
def Ticking : ℕ → List TimedInput → Prop
  | _, [] => True
  | k, e :: es =>
    match e.input with
    | .tick => k ≤ e.time ∧ e.time ≤ k + 16 ∧ Ticking e.time es
    | .packet _ => Ticking k es

/-- The time of the last tick, which is `k` if there is none. -/
def lastTick : ℕ → List TimedInput → ℕ
  | k, [] => k
  | k, e :: es =>
    match e.input with
    | .tick => lastTick e.time es
    | .packet _ => lastTick k es

/-- A panel frees the slot of a prepare some time after its start, which is accepted, unless
something else arrives for the group: the time is the same for all its ticks, provided that they
are never more than sixteen milliseconds apart. -/
def Reaped (pkt : PacketAnimationPrepare) : Prop :=
  ∃ T, ∀ (before between after : List TimedInput) (t s : ℕ) (seqId : Byte),
    (∀ e ∈ between, Spares pkt.groupId e) → (∀ e ∈ after, Spares pkt.groupId e) →
    seqId ≠ ((init.run before).run (⟨t, .packet (.prepare pkt)⟩ :: between)).lastStartSeqId →
    Ticking s after → s + T ≤ lastTick s after →
    Gone pkt.groupId ((((init.run before).run (⟨t, .packet (.prepare pkt)⟩ :: between)).stepAt
      ⟨s, .packet (.start seqId pkt.groupId)⟩).run after)

section
variable {p : AnimationPlayer} {g : Byte} {a : AnimationState} {s k : ℕ}

/-! ### A slot that is gone stays away -/

theorem Gone.stepAt (h : Gone g p) {e : TimedInput} (he : Spares g e) : Gone g (p.stepAt e) := by
  obtain ⟨t, input⟩ := e
  intro i hocc
  cases input with
  | tick =>
      change ((p.tick (clock t)).slots i).occupied = true at hocc
      change ((p.tick (clock t)).slots i).groupId ≠ g
      by_cases hframe : p.framesAt t
      · rw [tick_of_framesAt hframe, composite_slots] at hocc ⊢
        have hkeeps := compositeSlot_keeps (p := p.atFrame t) (p.slots i)
        have hold : (p.slots i).groupId ≠ g := h i (hkeeps.2 hocc)
        rw [← hkeeps.1] at hold
        exact hold
      · rw [tick_of_not_framesAt hframe] at hocc ⊢
        exact h i hocc
  | packet packet =>
      change ((p.handlePacket (clock t) packet).slots i).occupied = true at hocc
      change ((p.handlePacket (clock t) packet).slots i).groupId ≠ g
      have hchange := p.handlePacket_slotChange (clock t) packet i
      generalize (p.handlePacket (clock t) packet).slots i = x at hchange hocc ⊢
      cases hchange with
      | same => exact h i hocc
      | refill pkt hfind => exact h i hocc
      | alloc pkt hnone hfree =>
          have hother : pkt.groupId ≠ g := by simpa [Spares, addresses] using he
          exact hother
      | activate seqId g' hfind hpending =>
          have hold := h i (p.findSlot_some hfind).1
          unfold activatePending
          dsimp only
          split_ifs <;> exact hold
      | control cmd g' hocc' haddr =>
          have hold := h i hocc'
          cases cmd <;> simp only [controlSlot] at hocc ⊢
          case stop => cases hocc
          case clearQueue => exact hold
          all_goals split_ifs <;> exact hold
      | trigger seqId g' t value ms haddr htype => exact h i hocc

theorem Gone.run (h : Gone g p) (es : List TimedInput) (hes : ∀ e ∈ es, Spares g e) :
    Gone g (p.run es) := by
  induction es generalizing p with
  | nil => exact h
  | cons e es ih =>
      exact ih (h.stepAt (hes e List.mem_cons_self)) fun e' he' => hes e' (List.mem_cons_of_mem _ he')

/-- A start finds no slot of a group that is gone. -/
theorem Gone.start (h : Gone g p) (seqId : Byte) (now : Ticks) : Gone g (p.start seqId g now) := by
  have hidle : ∀ i, p.findSlot g = some i → (p.slots i).hasPending = false := by
    intro i hfind
    obtain ⟨hocc, hgroup⟩ := p.findSlot_some hfind
    exact absurd hgroup (h i hocc)
  intro i
  rw [start_slots_of_idle p hidle]
  exact h i

/-! ### A slot that is running -/

theorem FiredIn.expired_iff {x : Slot} (h : FiredIn g a s x) {t : ℕ} (hst : s ≤ t) :
    expired (clock t) x = true ↔ AnimationPlayer.lifetime a ≤ (t - s) % 65536 := by
  have hlife := h.lifetime
  unfold AnimationPlayer.lifetime at hlife
  rw [expired, Bool.and_eq_true, ended_iff_toNat, h.start, clock_sub_toNat hst, hlife]
  constructor
  · rintro ⟨⟨-, -, -, -, -, hle⟩, -⟩
    exact hle
  · intro hle
    exact ⟨⟨h.occupied, h.started, h.unpaused, h.unheld, h.reaps.1, hle⟩, h.reaps.2⟩

/-- A frame that does not free the slot leaves it running. -/
theorem FiredIn.frame {x : Slot} (h : FiredIn g a s x) (hexp : expired p.nowMs x = false) :
    FiredIn g a s (p.compositeSlot x).1 := by
  have hended : ended p.nowMs x = false := by
    rw [expired, h.reaps.2, Bool.and_true] at hexp
    exact hexp
  have hdecays : decays p.nowMs x = false := by
    have hone := h.reaps.1
    simp only [oneShot, Bool.and_eq_true, decide_eq_true_eq] at hone
    simp [decays, hone.2]
  rw [compositeSlot_fst hdecays, latch_of_not_ended hended]
  exact h

theorem FiredIn.packet {i : Fin maxAnimSlots} (h : FiredIn g a s (p.slots i)) {now : Ticks}
    {packet : AnimationPacket} (hother : addresses g packet = false) :
    FiredIn g a s ((p.handlePacket now packet).slots i) := by
  rw [p.handlePacket_slots_other h.occupied (by rw [h.group]; exact hother)]
  exact h

/-- The one slot of the group is freed by the frame that sees its end. -/
theorem FiredIn.gone {i : Fin maxAnimSlots} (h : FiredIn g a s (p.slots i))
    (hone : p.OneSlotPerGroup) {t : ℕ} (hexp : expired (clock t) (p.slots i) = true) :
    Gone g (p.atFrame t).composite := by
  intro j hocc hgroup
  rw [composite_slots] at hocc hgroup
  change ((p.atFrame t).compositeSlot (p.slots j)).1.occupied = true at hocc
  change ((p.atFrame t).compositeSlot (p.slots j)).1.groupId = g at hgroup
  have hkeeps := compositeSlot_keeps (p := p.atFrame t) (p.slots j)
  rw [hkeeps.1] at hgroup
  have hij : j = i := hone j i (hkeeps.2 hocc) h.occupied (hgroup.trans h.group.symm)
  rw [hij, compositeSlot_fst_of_expired (p := p.atFrame t) hexp] at hocc
  cases hocc

/-- The player's last frame is not long ago, and neither that frame nor the one that has to come
sees the elapsed time after it wrapped. -/
structure Waits (g : Byte) (a : AnimationState) (s k : ℕ) (p : AnimationPlayer) : Prop where
  fired : ∃ i, FiredIn g a s (p.slots i)
  start_le : s ≤ k
  served : k = s ∨ (clock k - p.lastTickMs).toNat < 16
  unwrapped : k ≤ s + 65504 + (clock k - p.lastTickMs).toNat
  unseen : k < s + AnimationPlayer.lifetime a + 16 + (clock k - p.lastTickMs).toNat

theorem lifetime_pos (h : ReapsOnDone a) : 0 < lifetime a := by
  have hone := h.1
  simp only [oneShot, Bool.and_eq_true, decide_eq_true_eq] at hone
  have hpos : a.durationMs.toNat ≠ 0 := fun hzero => hone.1.2 (BitVec.eq_of_toNat_eq hzero)
  unfold lifetime
  omega

theorem FiredIn.lifetime_pos {x : Slot} (h : FiredIn g a s x) :
    0 < AnimationPlayer.lifetime a := by
  rw [← h.lifetime]
  exact AnimationPlayer.lifetime_pos h.reaps

/-- One tick: the slot is freed, or goes on waiting. -/
theorem Waits.tick (h : Waits g a s k p) (hone : p.OneSlotPerGroup)
    (hlife : lifetime a ≤ 65505) {t : ℕ} (hkt : k ≤ t) (ht : t ≤ k + 16) :
    Gone g (p.tick (clock t)) ∨ Waits g a s t (p.tick (clock t)) := by
  obtain ⟨i, hi⟩ := h.fired
  have hserved := h.served
  have hunwrapped := h.unwrapped
  have hunseen := h.unseen
  have hstart := h.start_le
  have hpos := hi.lifetime_pos
  by_cases hframe : p.framesAt t
  · rw [tick_of_framesAt hframe]
    cases hexp : expired (clock t) (p.slots i) with
    | true => exact .inl (hi.gone hone hexp)
    | false =>
        have hend : ¬ lifetime a ≤ (t - s) % 65536 := by
          rw [← hi.expired_iff (hstart.trans hkt), hexp]
          exact Bool.false_ne_true
        have hwrap : t - s < 65536 := by omega
        rw [Nat.mod_eq_of_lt hwrap] at hend
        have hnow : (p.atFrame t).composite.lastTickMs = clock t := by
          rw [composite_lastTickMs]
          rfl
        refine .inr ⟨⟨i, ?_⟩, by omega, ?_, ?_, ?_⟩
        · rw [composite_slots]
          exact hi.frame (p := p.atFrame t) hexp
        all_goals rw [hnow, clock_sub_toNat le_rfl]
        · exact .inr (by omega)
        · omega
        · omega
  · have hsoon : (clock t - p.lastTickMs).toNat < 16 := by
      unfold framesAt at hframe
      rw [not_not, BitVec.lt_def] at hframe
      exact hframe
    have hlater : k = s ∨ (clock t - p.lastTickMs).toNat =
        (clock k - p.lastTickMs).toNat + (t - k) := by
      rcases hserved with hks | hlt
      · exact .inl hks
      · have hadd := clock_add_sub_toNat (t := k) (d := t - k) (c := p.lastTickMs) (by omega)
        rw [Nat.add_sub_cancel' hkt] at hadd
        exact .inr hadd
    rw [tick_of_not_framesAt hframe]
    refine .inr ⟨⟨i, hi⟩, by omega, .inr hsoon, ?_, ?_⟩
    · change t ≤ s + 65504 + (clock t - p.lastTickMs).toNat
      omega
    · change t < s + AnimationPlayer.lifetime a + 16 + (clock t - p.lastTickMs).toNat
      omega

theorem Waits.run (h : Waits g a s k p) (hone : p.OneSlotPerGroup) (hlife : lifetime a ≤ 65505)
    (es : List TimedInput) (hes : ∀ e ∈ es, Spares g e) (hticks : Ticking k es) :
    Gone g (p.run es) ∨ Waits g a s (lastTick k es) (p.run es) := by
  induction es generalizing p k with
  | nil => exact .inr h
  | cons e es ih =>
      obtain ⟨t, input⟩ := e
      have hspares := hes ⟨t, input⟩ List.mem_cons_self
      have hes' : ∀ e ∈ es, Spares g e := fun e' he' => hes e' (List.mem_cons_of_mem _ he')
      have hone' := hone.step ⟨t, input⟩
      cases input with
      | tick =>
          obtain ⟨hkt, ht, hticks⟩ := hticks
          rcases h.tick hone hlife hkt ht with hgone | hwaits
          · exact .inl (Gone.run (p := p.tick (clock t)) hgone es hes')
          · exact ih (p := p.tick (clock t)) hwaits hone' hes' hticks
      | packet packet =>
          have hlast := p.handlePacket_lastTickMs (clock t) packet
          obtain ⟨i, hi⟩ := h.fired
          refine ih (p := p.handlePacket (clock t) packet) ⟨⟨i, hi.packet hspares⟩, h.start_le, ?_,
            ?_, ?_⟩ hone' hes' hticks
          all_goals rw [hlast]
          · exact h.served
          · exact h.unwrapped
          · exact h.unseen

/-! ### From the prepare to the start -/

/-- The step waits for its start, unless its group has lost its slot. -/
theorem awaits_or_gone {i : Fin maxAnimSlots} (hone : p.OneSlotPerGroup)
    (h : Awaits (p.slots i) g a) {e : TimedInput} (he : Spares g e) :
    Awaits ((p.stepAt e).slots i) g a ∨ Gone g (p.stepAt e) := by
  obtain ⟨t, input⟩ := e
  cases input with
  | packet packet =>
      left
      have hother : (p.handlePacket (clock t) packet).slots i = p.slots i :=
        p.handlePacket_slots_other h.occupied (by rw [h.groupId]; exact he)
      exact hother ▸ h
  | tick =>
      change Awaits ((p.tick (clock t)).slots i) g a ∨ Gone g (p.tick (clock t))
      by_cases hframe : p.framesAt t
      · rw [tick_of_framesAt hframe]
        cases hexp : expired (clock t) (p.slots i) with
        | true =>
            right
            intro j hocc hgroup
            rw [composite_slots] at hocc hgroup
            change ((p.atFrame t).compositeSlot (p.slots j)).1.occupied = true at hocc
            change ((p.atFrame t).compositeSlot (p.slots j)).1.groupId = g at hgroup
            have hkeeps := compositeSlot_keeps (p := p.atFrame t) (p.slots j)
            rw [hkeeps.1] at hgroup
            have hij : j = i := hone j i (hkeeps.2 hocc) h.occupied (hgroup.trans h.groupId.symm)
            rw [hij, compositeSlot_fst_of_expired (p := p.atFrame t) hexp] at hocc
            cases hocc
        | false =>
            left
            obtain ⟨holding, level, heq⟩ :=
              compositeSlot_fst_of_not_expired (p := p.atFrame t) (s := p.slots i) hexp
            rw [composite_slots]
            change Awaits ((p.atFrame t).compositeSlot (p.slots i)).1 g a
            rw [heq]
            exact ⟨h.occupied, h.groupId, h.hasPending, h.pending⟩
      · rw [tick_of_not_framesAt hframe]
        exact .inl h

theorem run_awaits_or_gone {i : Fin maxAnimSlots} (hone : p.OneSlotPerGroup)
    (h : Awaits (p.slots i) g a) (es : List TimedInput) (hes : ∀ e ∈ es, Spares g e) :
    Awaits ((p.run es).slots i) g a ∨ Gone g (p.run es) := by
  induction es generalizing p with
  | nil => exact .inl h
  | cons e es ih =>
      have hes' : ∀ e ∈ es, Spares g e := fun e' he' => hes e' (List.mem_cons_of_mem _ he')
      rcases awaits_or_gone hone h (hes e List.mem_cons_self) with hawaits | hgone
      · exact ih (hone.step e) hawaits hes'
      · exact .inr (hgone.run es hes')

/-- A prepare takes a slot, or there is none for its group. -/
theorem prepare_awaits_or_gone (pkt : PacketAnimationPrepare) (t : ℕ) :
    (∃ i, Awaits ((p.stepAt ⟨t, .packet (.prepare pkt)⟩).slots i) pkt.groupId pkt.toState) ∨
      Gone pkt.groupId (p.stepAt ⟨t, .packet (.prepare pkt)⟩) := by
  cases hfind : p.findSlot pkt.groupId with
  | some i => exact .inl ⟨i, prepare_awaits (.inl hfind)⟩
  | none =>
      cases hfree : p.freeSlot with
      | some i => exact .inl ⟨i, prepare_awaits (.inr ⟨hfind, hfree⟩)⟩
      | none =>
          right
          have hsame : p.stepAt ⟨t, .packet (.prepare pkt)⟩ = p := by
            change p.prepare pkt = p
            unfold prepare allocSlot
            rw [hfind, hfree]
          rw [hsame]
          exact p.findSlot_none hfind

theorem FiredIn.of_start {i : Fin maxAnimSlots} (hone : p.OneSlotPerGroup)
    (h : Awaits (p.slots i) g a) (hreaps : ReapsOnDone a) {seqId : Byte}
    (hseq : seqId ≠ p.lastStartSeqId) (s : ℕ) :
    FiredIn g a s ((p.stepAt ⟨s, .packet (.start seqId g)⟩).slots i) := by
  have hfind : p.findSlot g = some i := by
    rw [← h.groupId]
    exact findSlot_of_occupied hone h.occupied
  change FiredIn g a s ((p.start seqId g (clock s)).slots i)
  rw [start_of_pending p hseq hfind h.hasPending, Function.update_self]
  have hpending := h.pending
  unfold activatePending
  dsimp only
  rw [hpending]
  split_ifs <;> exact ⟨h.occupied, rfl, rfl, rfl, h.groupId, hreaps, rfl, rfl⟩

end

/-! ### Steps that are seen to end -/

theorem reaped_of_lifetime {pkt : PacketAnimationPrepare} (hreaps : ReapsOnDone pkt.toState)
    (hlife : lifetime pkt.toState ≤ 65505) : Reaped pkt := by
  refine ⟨lifetime pkt.toState + 31, ?_⟩
  intro before between after t s seqId hbetween hafter hseq hticks hlast
  have hone : ((init.run before).stepAt ⟨t, .packet (.prepare pkt)⟩).OneSlotPerGroup :=
    (run_oneSlotPerGroup before).step _
  have hone' : ∀ es, (((init.run before).stepAt ⟨t, .packet (.prepare pkt)⟩).run es).OneSlotPerGroup := by
    intro es
    induction es using List.reverseRecOn with
    | nil => exact hone
    | append_singleton es e ih =>
        rw [run_append]
        exact ih.step e
  change seqId ≠ (((init.run before).stepAt ⟨t, .packet (.prepare pkt)⟩).run between).lastStartSeqId
    at hseq
  change Gone pkt.groupId (((((init.run before).stepAt ⟨t, .packet (.prepare pkt)⟩).run between).stepAt
    ⟨s, .packet (.start seqId pkt.groupId)⟩).run after)
  rcases prepare_awaits_or_gone (p := init.run before) pkt t with ⟨i, hawaits⟩ | hgone
  · rcases run_awaits_or_gone hone hawaits between hbetween with hawaits | hgone
    · have hfired := FiredIn.of_start (hone' between) hawaits hreaps hseq s
      have hpos := lifetime_pos hreaps
      have hwaits : Waits pkt.groupId pkt.toState s s
          ((((init.run before).stepAt ⟨t, .packet (.prepare pkt)⟩).run between).stepAt
            ⟨s, .packet (.start seqId pkt.groupId)⟩) :=
        ⟨⟨i, hfired⟩, le_rfl, .inl rfl, by omega, by omega⟩
      rcases hwaits.run ((hone' between).step _) hlife after hafter hticks with hgone | hwaits
      · exact hgone
      · have hserved := hwaits.served
        have hunseen := hwaits.unseen
        omega
    · exact Gone.run (hgone.start seqId (clock s)) after hafter
  · exact Gone.run ((hgone.run between hbetween).start seqId (clock s)) after hafter

/-! ### Steps that can be missed -/

/-- The times of frames that fall on the last millisecond before 65506 in every round of the
counter. -/
def missedFrame (n : ℕ) : ℕ :=
  65536 * (n / 2115) +
    if n % 2115 = 0 then 0 else if n % 2115 = 1 then 16 else 33 + 31 * (n % 2115 - 2)

/-- A tick a millisecond too soon for a frame, and one at each of the times. -/
def missedTicks (n : ℕ) : List TimedInput :=
  (List.range n).flatMap fun j => [⟨missedFrame j + 15, .tick⟩, ⟨missedFrame (j + 1), .tick⟩]

theorem missedFrame_gap (n : ℕ) :
    missedFrame n + 16 ≤ missedFrame (n + 1) ∧ missedFrame (n + 1) ≤ missedFrame n + 31 := by
  unfold missedFrame
  have hlt := Nat.mod_lt n (by omega : 2115 > 0)
  by_cases hlast : n % 2115 = 2114
  · have hdiv : (n + 1) / 2115 = n / 2115 + 1 := by omega
    have hmod : (n + 1) % 2115 = 0 := by omega
    rw [hdiv, hmod, hlast, if_neg (by omega), if_neg (by omega), if_pos rfl]
    omega
  · have hdiv : (n + 1) / 2115 = n / 2115 := by omega
    have hmod : (n + 1) % 2115 = n % 2115 + 1 := by omega
    rw [hdiv, hmod, if_neg (Nat.succ_ne_zero _)]
    by_cases hzero : n % 2115 = 0
    · rw [hzero]
      simp
    · by_cases hone : n % 2115 = 1
      · rw [hone]
        simp
      · rw [if_neg hzero, if_neg hone, if_neg (by omega)]
        omega

theorem missedFrame_mod (n : ℕ) : missedFrame n % 65536 ≤ 65505 := by
  unfold missedFrame
  have hlt := Nat.mod_lt n (by omega : 2115 > 0)
  rw [Nat.mul_add_mod]
  refine (Nat.mod_le _ _).trans ?_
  split_ifs <;> omega

theorem le_missedFrame (n : ℕ) : n ≤ missedFrame n := by
  induction n with
  | zero => exact Nat.zero_le _
  | succ n ih =>
      have hgap := missedFrame_gap n
      omega

theorem missedTicks_succ (n : ℕ) : missedTicks (n + 1) =
    missedTicks n ++ [⟨missedFrame n + 15, .tick⟩, ⟨missedFrame (n + 1), .tick⟩] := by
  rw [missedTicks, List.range_succ, List.flatMap_append, List.flatMap_singleton]
  rfl

theorem ticking_append (k : ℕ) (es es' : List TimedInput) :
    (Ticking k (es ++ es') ↔ Ticking k es ∧ Ticking (lastTick k es) es') ∧
      lastTick k (es ++ es') = lastTick (lastTick k es) es' := by
  induction es generalizing k with
  | nil => exact ⟨(iff_of_eq (true_and _)).symm, rfl⟩
  | cons e es ih =>
      obtain ⟨t, input⟩ := e
      cases input with
      | tick =>
          simp only [List.cons_append, Ticking, lastTick, (ih t).1, (ih t).2, and_assoc, and_self]
      | packet packet => exact ih k

theorem missedTicks_ticking (n : ℕ) :
    Ticking 0 (missedTicks n) ∧ lastTick 0 (missedTicks n) = missedFrame n := by
  induction n with
  | zero => exact ⟨trivial, rfl⟩
  | succ n ih =>
      have hgap := missedFrame_gap n
      obtain ⟨happend, hlast⟩ := ticking_append 0 (missedTicks n)
        [⟨missedFrame n + 15, .tick⟩, ⟨missedFrame (n + 1), .tick⟩]
      rw [missedTicks_succ]
      constructor
      · rw [happend, ih.2]
        simp only [Ticking, and_true]
        exact ⟨ih.1, by omega⟩
      · rw [hlast]
        rfl

/-- The slot is running after every one of these frames. -/
theorem run_missedTicks {p : AnimationPlayer} {g : Byte} {a : AnimationState}
    {i : Fin maxAnimSlots} (h : FiredIn g a 0 (p.slots i)) (hlast : p.lastTickMs = clock 0)
    (hlife : 65505 < lifetime a) (n : ℕ) :
    FiredIn g a 0 ((p.run (missedTicks n)).slots i) ∧
      (p.run (missedTicks n)).lastTickMs = clock (missedFrame n) := by
  induction n with
  | zero => exact ⟨h, hlast⟩
  | succ n ih =>
      obtain ⟨hfired, hframe⟩ := ih
      have hgap := missedFrame_gap n
      have hmod := missedFrame_mod (n + 1)
      rw [missedTicks_succ, run_append]
      generalize p.run (missedTicks n) = q at hfired hframe
      have hearly : ¬ q.framesAt (missedFrame n + 15) := by
        unfold framesAt
        rw [hframe, not_not, BitVec.lt_def, clock_sub_toNat (by omega)]
        change _ < 16
        omega
      change FiredIn g a 0 (((q.tick (clock (missedFrame n + 15))).tick
        (clock (missedFrame (n + 1)))).slots i) ∧ AnimationPlayer.lastTickMs
          ((q.tick (clock (missedFrame n + 15))).tick (clock (missedFrame (n + 1)))) = _
      rw [tick_of_not_framesAt hearly]
      have hdue : framesAt { q with nowMs := clock (missedFrame n + 15) } (missedFrame (n + 1)) :=
        framesAt_of_lastTickMs hframe (by omega) (by omega)
      have hexp : expired (clock (missedFrame (n + 1))) (q.slots i) = false := by
        rw [Bool.eq_false_iff, ne_eq, hfired.expired_iff (Nat.zero_le _), Nat.sub_zero]
        omega
      rw [tick_of_framesAt hdue, composite_slots, composite_lastTickMs]
      exact ⟨hfired.frame (p := atFrame _ _) hexp, rfl⟩

/-- A step that reaps its slot is seen to end on every panel if and only if its delay and its
duration together are at most 65505 ms. -/
theorem reaped_iff {pkt : PacketAnimationPrepare} (hreaps : ReapsOnDone pkt.toState) :
    Reaped pkt ↔ lifetime pkt.toState ≤ 65505 := by
  constructor
  · rintro ⟨T, h⟩
    by_contra hlife
    have hawaits : Awaits ((init.stepAt ⟨0, .packet (.prepare pkt)⟩).slots 0) pkt.groupId
        pkt.toState := by
      change Awaits ((init.prepare pkt).slots 0) _ _
      apply prepare_awaits
      right
      constructor
      · cases hfind : init.findSlot pkt.groupId with
        | none => rfl
        | some i => cases (init.findSlot_some hfind).1
      · rfl
    have hone := run_oneSlotPerGroup [⟨0, .packet (.prepare pkt)⟩]
    have hseq : (1 : Byte) ≠ (init.stepAt ⟨0, .packet (.prepare pkt)⟩).lastStartSeqId := by
      change (1 : Byte) ≠ (init.prepare pkt).lastStartSeqId
      rw [prepare_lastStartSeqId]
      decide
    have hfired := FiredIn.of_start hone hawaits hreaps hseq 0
    have hlast : ((init.stepAt ⟨0, .packet (.prepare pkt)⟩).stepAt
        ⟨0, .packet (.start 1 pkt.groupId)⟩).lastTickMs = clock 0 := by
      change ((init.handlePacket (clock 0) (.prepare pkt)).handlePacket (clock 0)
        (.start 1 pkt.groupId)).lastTickMs = clock 0
      rw [handlePacket_lastTickMs, handlePacket_lastTickMs]
      rfl
    obtain ⟨hrun, -⟩ := run_missedTicks hfired hlast (not_le.mp hlife) T
    obtain ⟨hticking, htime⟩ := missedTicks_ticking T
    have hspares : ∀ e ∈ missedTicks T, Spares pkt.groupId e := by
      intro e he
      obtain ⟨j, -, hj⟩ := List.mem_flatMap.mp he
      simp only [List.mem_cons, List.not_mem_nil, or_false] at hj
      rcases hj with rfl | rfl <;> trivial
    refine h [] [] (missedTicks T) 0 0 1 (by simp) hspares hseq hticking ?_ 0 hrun.occupied
      hrun.group
    rw [htime, Nat.zero_add]
    exact le_missedFrame T
  · exact reaped_of_lifetime hreaps

end Lightnet.AnimationPlayer
