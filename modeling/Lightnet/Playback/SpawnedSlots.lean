import Lightnet.Animation.Reaping
import Lightnet.Playback.DropTimes
import Lightnet.Playback.GroupPools

/-!
# The slots of spawned pulses

Sweeps and drops are sent to panels that free the slots on their own. Every such slot is freed, if
the sweeps and the falls of the scene are over before the counters of the panels wrap.
-/

namespace Lightnet

open AnimationScheduler (Command)

/-- A prepare whose slot is to free itself has its slot freed. -/
def Frees : Command → Prop
  | .sendPrepareToPanel _ pkt => pkt.flags &&& flagReapOnDone ≠ 0 → AnimationPlayer.Reaped pkt
  | _ => True

namespace ScenePlayer

theorem frees_of_groupOf {c : Command} (h : groupOf c = none) : Frees c := by
  cases c with
  | sendPrepareToPanel a pkt => cases h
  | _ => trivial

/-! ### The times of a scene -/

/-- The sweeps of a step end before the counters of the panels wrap, and so do its drops; a sweep
without panels and a spawner without groups come to nothing. -/
def StepInTime (p : ScenePlayer) (i : ℕ) (step : SceneStep) : Prop :=
  if isSweepRunner step.animType then
    p.panels i ≠ [] → (p.effectiveDurationMs step.durationMs).toNat < reapLimit
  else if isParticleRunner step.animType then
    (p.spawnState i).poolSize ≠ 0 →
      p.sceneTopo.FallsInTime step
        (spawnIntervalMs (if step.params .waves = 0 then 1 else step.params .waves))
        (if p.speed < Single.round (1 / 10) then Single.round (1 / 10) else p.speed)
  else True

instance (p : ScenePlayer) (i : ℕ) (step : SceneStep) : Decidable (p.StepInTime i step) := by
  unfold StepInTime
  infer_instance

/-- Every step of the layers that are played is over in time. -/
def InTime (p : ScenePlayer) : Prop :=
  ∀ i < p.lCount, (p.layers i).disabled = false → ∀ step ∈ (p.layers i).steps, p.StepInTime i step

instance (p : ScenePlayer) : Decidable p.InTime :=
  inferInstanceAs (Decidable (∀ i < p.lCount, _ → ∀ step ∈ _, _))

theorem InTime.moves {nowMs : Millis} {p q : ScenePlayer} (h : p.InTime)
    (hmove : SceneMoves nowMs p q) : q.InTime := by
  intro i hi hdisabled step hstep
  have hplays := hmove.plays
  rw [hplays.layers] at hdisabled hstep
  have hold := h i (hplays.lCount ▸ hi) hdisabled step hstep
  have heffective : q.effectiveDurationMs step.durationMs =
      p.effectiveDurationMs step.durationMs := by
    unfold effectiveDurationMs
    rw [hplays.speed]
  unfold StepInTime at hold ⊢
  rw [hplays.panels, heffective, hplays.sceneTopo, hplays.speed, (hmove.samePool i).2]
  exact hold

/-! ### What a spawner sends -/

/-- A pulse that is to free its slot does so if it is short enough. -/
theorem reaped_pulse {i : ℕ} {group : Byte} {style : RunnerStyle}
    {durationMs startDelayMs : Ticks} {risePct fallPct : Byte} (hlasts : durationMs ≠ 0)
    (hends : startDelayMs.toNat + durationMs.toNat ≤ reapLimit) :
    AnimationPlayer.Reaped
      (pulsePacket i group flagReapOnDone style durationMs startDelayMs risePct fallPct) := by
  refine AnimationPlayer.reaped_of_lifetime ⟨?_, ?_⟩ hends
  · change (!(decide (flagReapOnDone &&& flagLoop ≠ 0)) && decide (durationMs ≠ 0) &&
      decide (AnimationType.pulse ≠ .reactive)) = true
    rw [decide_eq_true hlasts]
    rfl
  · change decide (flagReapOnDone &&& flagReapOnDone ≠ 0) = true
    rfl

/-- What a spawner keeps of its last sweep is over in time. -/
structure Sweeping (st : LayerSpawnState) : Prop where
  spans : st.Spans
  duration : st.sweepDurationMs.toNat < reapLimit

theorem Sweeping.frees {st : LayerSpawnState} (h : Sweeping st) {i : ℕ} {group flags : Byte}
    {style : RunnerStyle} {animType : AnimationType} {sp : SweepPanel} (hsp : sp ∈ st.sweepPanels)
    {c : Command} (hflags : flags = flagReapOnDone)
    (hc : c ∈ sendPulse i group flags style sp.panel (compileSweep animType st sp)) :
    Frees c := by
  unfold sendPulse at hc
  split_ifs at hc with hlit
  · obtain ⟨hlasts, hends⟩ := compileSweep_within h.spans hsp hlit
    have hduration := h.duration
    rw [List.mem_singleton.mp hc, hflags]
    intro _
    exact reaped_pulse hlasts (by omega)
  · cases hc

theorem frees_sendDropPrepare {d : Drop} (h : d.InTime) {dp : DropPanel} (hdp : dp ∈ d.panels)
    (i : ℕ) (group : Byte) (s : DropStyle) : Frees (sendDropPrepare i group s d.jitter dp) := by
  obtain ⟨hlasts, hends⟩ := h dp hdp
  intro _
  refine reaped_pulse hlasts ?_
  have hclamp : (BitVec.ofNat 16 (min (dp.pulse.startDelayMs.toNat + d.jitter.toNat) 65535)).toNat ≤
      dp.pulse.startDelayMs.toNat + d.jitter.toNat := by
    rw [BitVec.toNat_ofNat]
    exact (Nat.mod_le _ _).trans (min_le_left _ _)
  omega

/-! ### Moves -/

/-- A player of a scene in which every slot that is to free itself is freed; `sent₀` had been sent
before. -/
structure Timed (sent₀ : List Command) (p : ScenePlayer) : Prop where
  layers : p.lCount ≤ sceneMaxLayers
  plain : ∀ i < p.lCount, Plain (p.layers i)
  idle : p.Idle
  sized : p.sceneTopo.index.count ≤ lightnetMaxPanels
  sweeping : ∀ i, Sweeping (p.spawnState i)
  sent : ∃ new, p.sent = sent₀ ++ new ∧ ∀ c ∈ new, Frees c

theorem Sweeping.update {st : ℕ → LayerSpawnState} (h : ∀ j, Sweeping (st j)) {i : ℕ}
    {st' : LayerSpawnState} (hnew : Sweeping st') (j : ℕ) :
    Sweeping (Function.update st i st' j) := by
  by_cases hj : j = i
  · rw [hj, Function.update_self]
    exact hnew
  · rw [Function.update_of_ne hj]
    exact h j

section

variable {sent₀ : List Command} {p : ScenePlayer} {i : ℕ} (h : Timed sent₀ p) (hin : p.InTime)
  (hrun : p.Running i)

include h hin hrun

/-- The step of a layer that is running is one of those that are over in time. -/
theorem Timed.step_mem (hspawner : isSpawner (p.step i).animType = true) :
    p.StepInTime i (p.step i) := by
  have henabled : (p.layers i).disabled = false := by
    cases hdisabled : (p.layers i).disabled with
    | false => rfl
    | true => exact absurd hrun.state (h.idle i hrun.lt hdisabled).1
  rcases p.step_mem_or i with hmem | hzero
  · exact hin i hrun.lt henabled _ hmem
  · rw [hzero] at hspawner
    cases hspawner

theorem Timed.aim (hsweep : p.SweepsAt i) : Sweeping (p.sweepState i) := by
  have htime := h.step_mem hin hrun (by rw [isSpawner, hsweep.1, Bool.or_true])
  unfold StepInTime at htime
  rw [if_pos hsweep.1] at htime
  refine ⟨fun sp hsp => ?_, htime hsweep.2.1⟩
  have hspans := p.sweepState_spans (h.sized.trans (by decide)) i
  rw [List.all_eq_true] at hspans
  exact of_decide_eq_true (hspans sp hsp)

theorem Timed.drops (htype : isParticleRunner (p.step i).animType = true)
    (hpool : (p.spawnState i).poolSize ≠ 0) {drops : DropSource}
    (hdrops : p.dropSource i = some drops) : DropsInTime drops := by
  have htime := h.step_mem hin hrun (by rw [isSpawner, htype, Bool.true_or])
  have hsweep : isSweepRunner (p.step i).animType = false := by
    revert htype
    cases (p.step i).animType <;> decide
  unfold StepInTime at htime
  rw [if_neg (by rw [hsweep]; exact Bool.false_ne_true), if_pos htype] at htime
  refine dropsOf_inTime ?_ (htime hpool) hdrops
  split_ifs with hslow
  · exact le_rfl
  · exact not_lt.mp hslow

end

theorem Moves.sweeping {nowMs : Millis} {sent₀ : List Command} {i : ℕ} {p q : ScenePlayer}
    (h : Timed sent₀ p) (hin : p.InTime) (hmove : Moves nowMs i p q) (j : ℕ) :
    Sweeping (q.spawnState j) := by
  have hold := h.sweeping
  have hkept {st : LayerSpawnState} (hplan : (p.spawnState i).SamePlan st) : Sweeping st := by
    rw [hplan]
    exact ⟨(hold i).spans, (hold i).duration⟩
  cases hmove with
  | enter k hrun hk => exact hold j
  | finish hrun => exact hold j
  | wake hi hwait hplay => exact hold j
  | flush => exact hold j
  | stop hi =>
      unfold stopLayerGroup
      split_ifs <;> exact hold j
  | light hrun htype => exact hold j
  | flip => exact hold j
  | bounce passDurMs hrun htype =>
      unfold fireBouncePass
      dsimp only
      split_ifs <;> exact hold j
  | spin turns hrun htype hturns =>
      refine Sweeping.update hold ?_ j
      exact ⟨(hold i).spans, (hold i).duration⟩
  | aim hrun hsweep => exact Sweeping.update hold (h.aim hin hrun hsweep) j
  | launch hrun hsweep hpool =>
      refine Sweeping.update hold ?_ j
      exact ⟨(hold i).spans, (hold i).duration⟩
  | drop drops hrun htype hdrops hpool =>
      refine Sweeping.update hold ?_ j
      exact ⟨(hold i).spans, (hold i).duration⟩
  | note st hrun hplan => exact Sweeping.update hold (hkept hplan) j

/-- What is sent under a layer's own group is to free no slot. -/
theorem frees_of_step {p : ScenePlayer} {i : ℕ} (h : Plain (p.layers i))
    {pkt : PacketAnimationPrepare} (a : ℕ)
    (hflags : pkt.flags = (p.step i).flags ∨ pkt.flags = 0 ∨ pkt.flags = flagLoop) :
    Frees (.sendPrepareToPanel a pkt) := by
  intro hreap
  refine absurd ?_ hreap
  rcases hflags with hflags | hflags | hflags <;> rw [hflags]
  · exact flags_step h
  · rfl
  · rfl

/-- Whatever a move sends frees its slot. -/
theorem Moves.frees {nowMs : Millis} {sent₀ : List Command} {i : ℕ} {p q : ScenePlayer}
    (h : Timed sent₀ p) (hin : p.InTime) (hmove : Moves nowMs i p q) :
    ∃ new, q.sent = p.sent ++ new ∧ ∀ c ∈ new, Frees c := by
  have hnothing : ∃ new, p.sent = p.sent ++ new ∧ ∀ c ∈ new, Frees c :=
    ⟨[], (List.append_nil _).symm, by simp⟩
  cases hmove with
  | enter k hrun hk => exact hnothing
  | finish hrun => exact hnothing
  | wake hi hwait hplay => exact hnothing
  | flush => exact hnothing
  | stop hi =>
      unfold stopLayerGroup
      split_ifs
      · exact hnothing
      · refine ⟨_, rfl, fun c hc => ?_⟩
        rw [List.mem_singleton.mp hc]
        trivial
  | light hrun htype =>
      refine ⟨_, rfl, fun c hc => ?_⟩
      rcases List.mem_append.mp hc with hc | hc
      · obtain ⟨a, -, rfl⟩ := List.mem_map.mp hc
        exact frees_of_step (h.plain i hrun.lt) a (.inl rfl)
      · rw [List.mem_singleton.mp hc]
        trivial
  | flip => exact hnothing
  | bounce passDurMs hrun htype =>
      unfold fireBouncePass
      dsimp only
      split_ifs
      · exact hnothing
      · refine ⟨_, rfl, fun c hc => ?_⟩
        rcases List.mem_append.mp hc with hc | hc
        · obtain ⟨x, -, hpulse⟩ := List.mem_flatMap.mp hc
          rw [mem_sendPulse hpulse]
          exact frees_of_step (h.plain i hrun.lt) _ (.inr (.inl rfl))
        · rw [List.mem_singleton.mp hc]
          trivial
  | spin turns hrun htype hturns =>
      refine ⟨_, rfl, fun c hc => ?_⟩
      rcases List.mem_append.mp hc with hc | hc
      · obtain ⟨x, -, hpulse⟩ := List.mem_flatMap.mp hc
        rw [mem_sendPulse hpulse]
        exact frees_of_step (h.plain i hrun.lt) _ (.inr (.inr rfl))
      · rw [List.mem_singleton.mp hc]
        trivial
  | aim hrun hsweep => exact hnothing
  | launch hrun hsweep hpool =>
      refine ⟨_, rfl, fun c hc => ?_⟩
      rcases List.mem_append.mp hc with hc | hc
      · obtain ⟨sp, hsp, hpulse⟩ := List.mem_flatMap.mp hc
        exact (h.sweeping i).frees hsp rfl hpulse
      · rw [List.mem_singleton.mp hc]
        trivial
  | drop drops hrun htype hdrops hpool =>
      refine ⟨_, rfl, fun c hc => ?_⟩
      cases hdrop : (drops (p.spawnState i).rng).1 with
      | none =>
          simp only [hdrop] at hc
          cases hc
      | some d =>
          simp only [hdrop] at hc
          have htime := h.drops hin hrun htype hpool hdrops _ d hdrop
          rcases List.mem_append.mp hc with hc | hc
          · obtain ⟨dp, hdp, rfl⟩ := List.mem_map.mp hc
            exact frees_sendDropPrepare htime hdp i _ _
          · rw [List.mem_singleton.mp hc]
            trivial
  | note st hrun hplan => exact hnothing

theorem Timed.moves {nowMs : Millis} {sent₀ : List Command} {p q : ScenePlayer}
    (h : Timed sent₀ p) (hin : p.InTime) (hmove : SceneMoves nowMs p q) : Timed sent₀ q := by
  have hplays := hmove.plays
  obtain ⟨old, hold, hfrees⟩ := h.sent
  have hsweeping : ∀ i, Sweeping (q.spawnState i) := by
    cases hmove with
    | layer hmove => exact hmove.sweeping h hin
    | arm includeAsync hplay => exact h.sweeping
    | halt => exact h.sweeping
  have hsent : ∃ new, q.sent = p.sent ++ new ∧ ∀ c ∈ new, Frees c := by
    cases hmove with
    | layer hmove => exact hmove.frees h hin
    | arm includeAsync hplay => exact ⟨[], (List.append_nil _).symm, by simp⟩
    | halt => exact ⟨[], (List.append_nil _).symm, by simp⟩
  obtain ⟨new, hnew, hfrees'⟩ := hsent
  refine ⟨hplays.lCount ▸ h.layers, ?_, h.idle.moves hmove, ?_, hsweeping, old ++ new, ?_,
    fun c hc => ?_⟩
  · rw [hplays.lCount, hplays.layers]
    exact h.plain
  · rw [hplays.sceneTopo]
    exact h.sized
  · rw [hnew, hold, List.append_assoc]
  · exact (List.mem_append.mp hc).elim (hfrees c) (hfrees' c)

theorem Timed.does {nowMs : Millis} {sent₀ : List Command} {p q : ScenePlayer}
    (h : Timed sent₀ p) (hin : p.InTime) (hdoes : Does nowMs p q) : Timed sent₀ q := by
  have hboth : Timed sent₀ q ∧ q.InTime := by
    induction hdoes with
    | refl => exact ⟨h, hin⟩
    | tail _ hmove ih => exact ⟨ih.1.moves ih.2 hmove, ih.2.moves hmove⟩
  exact hboth.1

/-! ### Runs -/

theorem Timed.retunes {sent₀ : List Command} {p q : ScenePlayer} (h : Timed sent₀ p)
    (hq : Retunes p q) (hsized : q.sceneTopo.index.count ≤ lightnetMaxPanels) :
    Timed sent₀ q := by
  obtain ⟨old, hold, hfrees⟩ := h.sent
  obtain ⟨new, hnew, hsends⟩ := hq.sent
  refine ⟨hq.lCount ▸ h.layers, ?_, hq.idle h.idle, hsized, ?_, old ++ new, ?_, fun c hc => ?_⟩
  · rw [hq.layers, hq.lCount]
    exact h.plain
  · rw [hq.spawnState]
    exact h.sweeping
  · rw [hnew, hold, List.append_assoc]
  · rcases List.mem_append.mp hc with hc | hc
    · exact hfrees c hc
    · exact frees_of_groupOf (hsends c hc)

/-- Spawners that have not swept yet. -/
theorem sweeping_poolOf (p : ScenePlayer) (i : ℕ) : Sweeping (p.poolOf i) := by
  have hzero : Sweeping .zero := by
    refine ⟨fun sp hsp => ?_, by decide⟩
    cases hsp
  unfold poolOf
  split_ifs <;> exact ⟨hzero.spans, hzero.duration⟩

end ScenePlayer

/-- No more panels than there can be are seen from any root. -/
def SceneProviders.Sized (env : SceneProviders) : Prop :=
  ∀ root, (env.rebuild root).index.count ≤ lightnetMaxPanels

/-- The topology that comes with an event is of a size that there can be. -/
def PlayerEvent.Sized : PlayerEvent → Prop
  | .resume env _ => env.Sized
  | .setLogicalRoot env _ _ => env.Sized
  | _ => True

namespace ScenePlayer

theorem timed_armed {sent₀ : List Command} {p : ScenePlayer} (hlayers : p.lCount ≤ sceneMaxLayers)
    (hplain : ∀ i < p.lCount, Plain (p.layers i)) {env : SceneProviders} (henv : env.Sized)
    (header : Header) (nowMs : Millis)
    (hsent : ∃ new, p.sent = sent₀ ++ new ∧ ∀ c ∈ new, Frees c) :
    Timed sent₀ ((p.enterScene env header).armed nowMs true) := by
  obtain ⟨old, hold, hfrees⟩ := hsent
  obtain ⟨new, hnew, hsends⟩ := p.enterScene_sends env header
  refine ⟨hlayers, hplain, idle_armed _ nowMs, henv _, p.sweeping_poolOf, old ++ new, ?_,
    fun c hc => ?_⟩
  · rw [← List.append_assoc, ← hold]
    exact hnew
  · rcases List.mem_append.mp hc with hc | hc
    · exact hfrees c hc
    · exact frees_of_groupOf (hsends c hc)

theorem Timed.reentered {sent₀ : List Command} {p : ScenePlayer} (h : Timed sent₀ p)
    {env : SceneProviders} (henv : env.Sized) (nowMs : Millis) :
    Timed sent₀ ((p.reentered env).armed nowMs true) := by
  have hself : ({ p with lCount := min p.lCount sceneMaxLayers } : ScenePlayer) = p := by
    rw [min_eq_left h.layers]
  unfold ScenePlayer.reentered
  rw [hself]
  exact timed_armed h.layers h.plain henv p.header nowMs h.sent

/-- The topology of a player is the one it had, or one that came with the event. -/
theorem handle_sized {p : ScenePlayer} (h : p.sceneTopo.index.count ≤ lightnetMaxPanels)
    {e : PlayerEvent} (he : e.Sized) :
    (p.handle e).sceneTopo.index.count ≤ lightnetMaxPanels := by
  have hresume (q : ScenePlayer) (hq : q.sceneTopo.index.count ≤ lightnetMaxPanels)
      (env : SceneProviders) (henv : env.Sized) (nowMs : Millis) :
      (q.resume env nowMs).sceneTopo.index.count ≤ lightnetMaxPanels := by
    rw [resume_eq]
    split_ifs
    · exact hq
    · rw [(plays_armLayers _ nowMs true).sceneTopo]
      exact henv _
  cases e with
  | tick nowMs =>
      change (p.tick nowMs).sceneTopo.index.count ≤ _
      rw [(plays_tick p nowMs).sceneTopo]
      exact h
  | stop => exact h
  | resume env nowMs => exact hresume p h env he nowMs
  | setSpeed s => exact h
  | setLogicalRoot env panelIndex nowMs =>
      change (if p.playing = true then (p.withRoot panelIndex).resume env nowMs
        else { p.withRoot panelIndex with
          sceneTopo := env.rebuild (p.withRoot panelIndex).logicalRoot }).sceneTopo.index.count ≤ _
      split_ifs
      · exact hresume (p.withRoot panelIndex) h env he nowMs
      · exact he _
  | reresolvePalettes env newPal newColors =>
      change (p.reresolvePalettes env newPal newColors).sceneTopo.index.count ≤ _
      unfold reresolvePalettes
      split_ifs <;> exact h

/-- The scene as a turn of its layers or a new start finds it, if the event leads to one. -/
def spawning (p : ScenePlayer) : PlayerEvent → Option ScenePlayer
  | .tick _ => if p.playing then some p else none
  | .resume env _ => if p.lCount = 0 then none else some (p.reentered env)
  | .setLogicalRoot env panelIndex _ =>
    if p.playing ∧ p.lCount ≠ 0 then some ((p.withRoot panelIndex).reentered env) else none
  | _ => none

/-- Where an event could spawn, the sweeps and the falls are over in time. -/
def SpawnsInTime (p : ScenePlayer) (e : PlayerEvent) : Prop := ∀ q ∈ p.spawning e, q.InTime

instance (p : ScenePlayer) (e : PlayerEvent) : Decidable (p.SpawnsInTime e) :=
  inferInstanceAs (Decidable (∀ q ∈ p.spawning e, q.InTime))

theorem Timed.handle {sent₀ : List Command} {p : ScenePlayer} (h : Timed sent₀ p)
    {e : PlayerEvent} (he : e.Sized) (htimes : p.SpawnsInTime e) : Timed sent₀ (p.handle e) := by
  have htold := handle_told p e
  have hsized := handle_sized h.sized he
  generalize p.handle e = q at htold hsized
  cases htold with
  | turn nowMs hplay hdoes =>
      exact h.does (htimes p (if_pos hplay)) hdoes
  | resume env nowMs hcount hdoes =>
      have hin : (p.reentered env).InTime := htimes _ (if_neg hcount)
      exact (h.reentered he nowMs).does (hin.moves (.arm _ true rfl)) hdoes
  | root env panelIndex nowMs hplay hcount hdoes =>
      have hroot := h.retunes (retunes_withRoot p panelIndex) h.sized
      have hin : ((p.withRoot panelIndex).reentered env).InTime := htimes _ (if_pos ⟨hplay, hcount⟩)
      exact (hroot.reentered he nowMs).does (hin.moves (.arm _ true rfl)) hdoes
  | tune e htunes => exact h.retunes htunes hsized

theorem Timed.run {sent₀ : List Command} {es : List PlayerEvent} (hsized : ∀ e ∈ es, e.Sized)
    {p : ScenePlayer} (h : Timed sent₀ p)
    (hes : Transition.Guarded ScenePlayer.handle SpawnsInTime p es) :
    Timed sent₀ (es.foldl ScenePlayer.handle p) := by
  induction es generalizing p with
  | nil => exact h
  | cons e es ih =>
      have he := hsized e List.mem_cons_self
      exact ih (fun e' he' => hsized e' (List.mem_cons_of_mem _ he')) (h.handle he hes.1) hes.2

/-! ### Accepted scenes -/

/-- Every slot that a scene is to free is freed. -/
theorem run_frees {fuel : ℕ} {json : Text} {r : SceneRecord}
    (hparse : parseScene fuel json = .ok r) {env : SceneProviders} (henv : env.Sized)
    (header : Header) (p : ScenePlayer) (startMs : Millis) {es : List PlayerEvent}
    (hsized : ∀ e ∈ es, e.Sized)
    (hload : ((p.withLayers r.layers).enterScene env header).InTime)
    (hes : Transition.Guarded handle SpawnsInTime (p.loadAndPlay env r.layers header startMs) es) :
    ∃ new, (es.foldl handle (p.loadAndPlay env r.layers header startMs)).sent = p.sent ++ new ∧
      ∀ c ∈ new, Frees c := by
  have harmed : Timed p.sent (((p.withLayers r.layers).enterScene env header).armed startMs true) :=
    timed_armed (min_le_right _ _) (p.withLayers_plain (parseScene_wellFormed hparse)) henv header
      startMs ⟨[], (List.append_nil _).symm, by simp⟩
  have hstart : Timed p.sent (p.loadAndPlay env r.layers header startMs) :=
    harmed.does (hload.moves (.arm _ true rfl)) (does_fireArmedLayers startMs true rfl)
  exact (hstart.run hsized hes).sent

/-! ### Rain -/

/-- A prepare whose slot is to free itself, later than the counter of its panel is sure to see. -/
def Clogs : Command → Prop
  | .sendPrepareToPanel _ pkt =>
    AnimationPlayer.ReapsOnDone pkt.toState ∧ reapLimit < AnimationPlayer.lifetime pkt.toState
  | _ => False

instance (c : Command) : Decidable (Clogs c) := by
  cases c <;> unfold Clogs <;> infer_instance

theorem Clogs.not_frees {c : Command} (h : Clogs c) : ¬ Frees c := by
  cases c with
  | sendPrepareToPanel a pkt =>
      obtain ⟨hreaps, hlong⟩ := h
      intro hfrees
      have hflag := hreaps.2
      rw [AnimationState.hasFlag, decide_eq_true_eq] at hflag
      exact absurd ((AnimationPlayer.reaped_iff hreaps).mp (hfrees hflag)) (not_le.mpr hlong)
  | _ => exact h.elim

/-- The text of a scene of rain on all panels. -/
def rainJson (speedMs : String) : Text :=
  bytes "\x7b\"name\":\"r\",\"layers\":[\x7b\"group\":1,\"sequence\":[\x7b\"runner\":\"RAIN\"," ++
    bytes "\"duration\":5000,\"speed\":" ++ bytes speedMs ++ bytes "\x7d]\x7d]\x7d"

def rainScene (speedMs : Ticks) : SceneRecord :=
  { SceneRecord.default with
    name := bytes "r"
    layers := [{ SceneLayer.blank with
      groupId := 1
      steps := [{ SceneStep.zero with animType := .rain, durationMs := 5000, speedMs }] }] }

def rainRun (speedMs : Ticks) (es : List PlayerEvent) : ScenePlayer :=
  es.foldl handle ((init pairScene).loadAndPlay pairProviders (rainScene speedMs).layers
    (plainHeader true 1) 0)

theorem pairProviders_sized : pairProviders.Sized := by
  intro root
  change pairScene.index.count ≤ lightnetMaxPanels
  decide

/-- Rain that takes a second and a half from one panel to the other frees its slots. -/
theorem rainRun_frees :
    ∃ new, (rainRun 1500 [.tick 1000, .setSpeed 2, .tick 2000, .resume pairProviders 2500]).sent =
      (init pairScene).sent ++ new ∧ ∀ c ∈ new, Frees c := by
  refine @run_frees 300 (rainJson "1500") (rainScene 1500) (by decide +kernel) pairProviders
    pairProviders_sized (plainHeader true 1) (init pairScene) 0
    [.tick 1000, .setSpeed 2, .tick 2000, .resume pairProviders 2500] ?_ (by decide +kernel)
    (by decide +kernel)
  intro e he
  simp only [List.mem_cons, List.not_mem_nil, or_false] at he
  rcases he with rfl | rfl | rfl | rfl
  · trivial
  · trivial
  · trivial
  · exact pairProviders_sized

/-- Rain that takes a minute from one panel to the other clogs a slot of the lower one. -/
theorem rainRun_clogs : parseScene 300 (rainJson "60000") = .ok (rainScene 60000) ∧
    pairProviders.Sized ∧ ∃ c ∈ (rainRun 60000 [.tick 1000]).sent, ¬ Frees c := by
  have hclogs : ∃ c ∈ (rainRun 60000 [.tick 1000]).sent, Clogs c := by decide +kernel
  obtain ⟨c, hc, hlong⟩ := hclogs
  exact ⟨by decide +kernel, pairProviders_sized, c, hc, hlong.not_frees⟩

end ScenePlayer

end Lightnet
