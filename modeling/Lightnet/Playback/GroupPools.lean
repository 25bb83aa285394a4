import Mathlib.Data.Nat.Count
import Lightnet.Playback.LitPulses
import Lightnet.Playback.PlayerMoves
import Lightnet.Scene.Accepted

/-!
# The groups of spawners

The pools of the spawners lie above the groups of all layers and next to each other. What is sent
for a layer is under its own group, or, if it was spawned, under a group of its pool.
-/

namespace Lightnet

open AnimationScheduler (Command)

/-- A group of the pool of a spawner. -/
def LayerSpawnState.InPool (st : LayerSpawnState) (g : Byte) : Prop :=
  st.poolBase.toNat ≤ g.toNat ∧ g.toNat < st.poolBase.toNat + st.poolSize.toNat

instance (st : LayerSpawnState) (g : Byte) : Decidable (st.InPool g) :=
  inferInstanceAs (Decidable (_ ∧ _))

namespace ScenePlayer

/-! ### Where the pools lie -/

variable (p : ScenePlayer)

theorem groupId_le_maxUsed {i : ℕ} (hi : i < p.lCount) :
    (p.layers i).groupId.toNat ≤ p.maxUsed := by
  refine (le_foldl_max _ 0).2 _ ?_
  exact List.mem_map.mpr ⟨i, List.mem_range.mpr hi, rfl⟩

theorem spawnersBelow_eq_count (i : ℕ) :
    p.spawnersBelow i = Nat.count (fun j => (p.layers j).layerIsSpawner = true) i := by
  unfold spawnersBelow Nat.count
  rw [List.countP_eq_length_filter]
  simp only [Bool.decide_eq_true]

theorem spawnersBelow_lt {i j : ℕ} (hi : (p.layers i).layerIsSpawner = true) (hij : i < j) :
    p.spawnersBelow i < p.spawnersBelow j := by
  rw [spawnersBelow_eq_count, spawnersBelow_eq_count]
  exact Nat.count_strict_mono hi hij

theorem toNat_u8 (n : ℕ) : (u8 n).toNat = n % 256 := rfl

theorem poolOf_eq_zero {i : ℕ} (h : ¬ (i < p.lCount ∧ (p.layers i).layerIsSpawner = true)) :
    p.poolOf i = .zero := by
  unfold poolOf
  rw [if_neg h]

theorem poolOf_poolSize_le (i : ℕ) : (p.poolOf i).poolSize.toNat ≤ p.poolLength := by
  have hbyte (n : ℕ) (hn : n ≤ p.poolLength) : (u8 n).toNat ≤ p.poolLength :=
    (Nat.mod_le n 256).trans hn
  unfold poolOf
  split_ifs
  · exact hbyte _ (min_le_right _ _)
  · exact hbyte _ le_rfl
  · exact Nat.zero_le _

theorem poolOf_poolBase {i : ℕ} (h : i < p.lCount ∧ (p.layers i).layerIsSpawner = true) :
    (p.poolOf i).poolBase = u8 (p.maxUsed + 1 + p.spawnersBelow i * p.poolLength) := by
  unfold poolOf
  rw [if_pos h]

theorem poolOf_room {i : ℕ} (h : i < p.lCount ∧ (p.layers i).layerIsSpawner = true) :
    p.spawnersBelow i * p.poolLength + p.poolLength ≤ 254 - p.maxUsed := by
  have hpart := Nat.mul_le_mul_right p.poolLength (p.spawnersBelow_lt h.2 h.1)
  rw [Nat.succ_mul] at hpart
  exact hpart.trans ((Nat.mul_le_mul_left _ (min_le_right _ _)).trans (Nat.mul_div_le _ _))

/-- The pool of a spawner lies within its own part of the groups that are left. -/
theorem poolOf_inPool {i : ℕ} {g : Byte} (h : (p.poolOf i).InPool g) :
    i < p.lCount ∧ (p.layers i).layerIsSpawner = true ∧
      p.maxUsed + 1 + p.spawnersBelow i * p.poolLength ≤ g.toNat ∧
      g.toNat < p.maxUsed + 1 + (p.spawnersBelow i + 1) * p.poolLength ∧ g.toNat ≤ 254 := by
  obtain ⟨hlow, hhigh⟩ := h
  by_cases hspawner : i < p.lCount ∧ (p.layers i).layerIsSpawner = true
  · have hsize := p.poolOf_poolSize_le i
    have hroom := p.poolOf_room hspawner
    rw [Nat.add_mul, Nat.one_mul]
    rw [p.poolOf_poolBase hspawner, toNat_u8, Nat.mod_eq_of_lt (by omega)] at hlow hhigh
    exact ⟨hspawner.1, hspawner.2, hlow, by omega, by omega⟩
  · rw [p.poolOf_eq_zero hspawner] at hlow hhigh
    exact absurd hhigh (Nat.not_lt.mpr hlow)

theorem poolOf_disjoint {i j : ℕ} (hij : i ≠ j) {g : Byte} (hi : (p.poolOf i).InPool g) :
    ¬ (p.poolOf j).InPool g := by
  intro hj
  obtain ⟨-, hspawner, hlow, hhigh, -⟩ := p.poolOf_inPool hi
  obtain ⟨-, hspawner', hlow', hhigh', -⟩ := p.poolOf_inPool hj
  rcases Nat.lt_or_gt_of_ne hij with hlt | hlt
  · have hpart := Nat.mul_le_mul_right p.poolLength (p.spawnersBelow_lt hspawner hlt)
    rw [Nat.succ_mul] at hpart
    rw [Nat.add_mul, Nat.one_mul] at hhigh
    omega
  · have hpart := Nat.mul_le_mul_right p.poolLength (p.spawnersBelow_lt hspawner' hlt)
    rw [Nat.succ_mul] at hpart
    rw [Nat.add_mul, Nat.one_mul] at hhigh'
    omega

theorem poolOf_above {i j : ℕ} (hj : j < p.lCount) :
    ¬ (p.poolOf i).InPool (p.layers j).groupId := by
  intro h
  obtain ⟨-, -, hlow, -, -⟩ := p.poolOf_inPool h
  have hown := p.groupId_le_maxUsed hj
  omega

theorem poolOf_fits (i : ℕ) :
    (p.poolOf i).poolBase.toNat + (p.poolOf i).poolSize.toNat ≤ 256 := by
  by_cases hspawner : i < p.lCount ∧ (p.layers i).layerIsSpawner = true
  · have hsize := p.poolOf_poolSize_le i
    have hroom := p.poolOf_room hspawner
    rw [p.poolOf_poolBase hspawner, toNat_u8]
    have hle := Nat.mod_le (p.maxUsed + 1 + p.spawnersBelow i * p.poolLength) 256
    have hlt := Nat.mod_lt (p.maxUsed + 1 + p.spawnersBelow i * p.poolLength) (by decide : 256 > 0)
    omega
  · rw [p.poolOf_eq_zero hspawner]
    decide

/-- The layers use so few groups that one is left for every layer that spawns. -/
def Room (p : ScenePlayer) : Prop := p.maxUsed + p.spawnersBelow p.lCount ≤ 254

theorem Room.poolOf {p : ScenePlayer} (h : p.Room) {i : ℕ} (hi : i < p.lCount)
    (hspawner : (p.layers i).layerIsSpawner = true) : (p.poolOf i).poolSize ≠ 0 := by
  have hsome : 0 < p.spawnersBelow p.lCount :=
    (Nat.zero_le _).trans_lt (p.spawnersBelow_lt hspawner hi)
  have hpart : 1 ≤ (254 - p.maxUsed) / p.spawnersBelow p.lCount :=
    (Nat.one_le_div_iff hsome).mpr (Nat.le_sub_of_add_le' h)
  have hpos : 1 ≤ p.poolLength := le_min (by decide) hpart
  have hle : p.poolLength ≤ 64 := min_le_left _ _
  have hbyte {n : ℕ} (hn : 1 ≤ n) (hn' : n ≤ p.poolLength) : u8 n ≠ 0 := by
    intro hzero
    have hnat : n % 256 = 0 := congrArg BitVec.toNat hzero
    omega
  unfold ScenePlayer.poolOf
  rw [if_pos ⟨hi, hspawner⟩]
  dsimp only
  split_ifs
  · exact hbyte (le_min (Nat.succ_le_succ (Nat.zero_le _)) hpos) (min_le_right _ _)
  · exact hbyte hpos le_rfl

theorem poolOf_eq_of_layers {q : ScenePlayer} (hlayers : q.layers = p.layers)
    (hcount : q.lCount = p.lCount) (i : ℕ) : q.poolOf i = p.poolOf i := by
  simp only [poolOf, poolLength, maxUsed, spawnersBelow, hlayers, hcount]

/-! ### What is sent under which group -/

/-- The group that a command is about. -/
def groupOf : Command → Option Byte
  | .sendPrepareToPanel _ pkt => some pkt.groupId
  | .sendGroupStart g => some g
  | .sendControlToPanels g _ _ => some g
  | .sendGeneralCallUpdateParams g _ _ => some g
  | _ => none

/-- What is sent for a layer is under its own group or, if it was spawned, under one of the layer's
pool. The layer is where a prepare stands in the order of composition. -/
def GroupedFor (p : ScenePlayer) (i : ℕ) : Command → Prop
  | .sendPrepareToPanel _ pkt => pkt.composeOrder = u8 i ∧
    if pkt.flags &&& flagReapOnDone = 0 then pkt.groupId = (p.layers i).groupId
    else (p.spawnState i).InPool pkt.groupId
  | .sendGroupStart g => g = (p.layers i).groupId ∨ (p.spawnState i).InPool g
  | .sendControlToPanels g _ _ => g = (p.layers i).groupId
  | _ => False

/-- A command about no group, or for one of the layers. -/
def Grouped (p : ScenePlayer) (c : Command) : Prop :=
  groupOf c = none ∨ ∃ i < p.lCount, p.GroupedFor i c

/-- A spawner remembers the same pool. -/
def SamePool (st st' : LayerSpawnState) : Prop :=
  st'.poolBase = st.poolBase ∧ st'.poolSize = st.poolSize

theorem SamePool.inPool {st st' : LayerSpawnState} (h : SamePool st st') (g : Byte) :
    st'.InPool g ↔ st.InPool g := by
  unfold LayerSpawnState.InPool
  rw [h.1, h.2]

theorem SamePool.update {st : ℕ → LayerSpawnState} {i : ℕ} {st' : LayerSpawnState}
    (h : SamePool (st i) st') (j : ℕ) : SamePool (st j) (Function.update st i st' j) := by
  by_cases hj : j = i
  · rw [hj, Function.update_self]
    exact h
  · rw [Function.update_of_ne hj]
    exact ⟨rfl, rfl⟩

theorem Moves.samePool {nowMs : Millis} {i : ℕ} {p q : ScenePlayer} (h : Moves nowMs i p q)
    (j : ℕ) : SamePool (p.spawnState j) (q.spawnState j) := by
  cases h with
  | enter k h hk => exact ⟨rfl, rfl⟩
  | finish h => exact ⟨rfl, rfl⟩
  | wake hi hwait hplay => exact ⟨rfl, rfl⟩
  | flush => exact ⟨rfl, rfl⟩
  | stop hi =>
      unfold stopLayerGroup
      split_ifs <;> exact ⟨rfl, rfl⟩
  | light h htype => exact ⟨rfl, rfl⟩
  | flip => exact ⟨rfl, rfl⟩
  | bounce passDurMs h htype =>
      unfold fireBouncePass
      dsimp only
      split_ifs <;> exact ⟨rfl, rfl⟩
  | spin turns h htype hturns =>
      refine SamePool.update ?_ j
      exact ⟨rfl, rfl⟩
  | aim h hsweep =>
      refine SamePool.update ?_ j
      exact ⟨rfl, rfl⟩
  | launch h hsweep hpool =>
      refine SamePool.update ?_ j
      exact ⟨rfl, rfl⟩
  | drop drops h htype hdrops hpool =>
      refine SamePool.update ?_ j
      exact ⟨rfl, rfl⟩
  | note st h hplan =>
      refine SamePool.update ?_ j
      rw [hplan]
      exact ⟨rfl, rfl⟩

theorem SceneMoves.samePool {nowMs : Millis} {p q : ScenePlayer} (h : SceneMoves nowMs p q)
    (j : ℕ) : SamePool (p.spawnState j) (q.spawnState j) := by
  cases h with
  | layer h => exact h.samePool j
  | arm includeAsync hplay => exact ⟨rfl, rfl⟩
  | halt => exact ⟨rfl, rfl⟩

theorem Grouped.congr {p q : ScenePlayer} (hlayers : q.layers = p.layers)
    (hcount : q.lCount = p.lCount)
    (hpool : ∀ i, SamePool (p.spawnState i) (q.spawnState i)) {c : Command} (h : p.Grouped c) :
    q.Grouped c := by
  rcases h with hnone | ⟨i, hi, hfor⟩
  · exact Or.inl hnone
  · refine Or.inr ⟨i, hcount ▸ hi, ?_⟩
    cases c <;> simp only [GroupedFor, hlayers, (hpool i).inPool] at hfor ⊢ <;> exact hfor

/-! ### Spawners without a pool -/

/-- A layer that is played has panels and a sweep step with a duration. -/
def Sweeps (p : ScenePlayer) (i : ℕ) : Prop :=
  (p.layers i).disabled = false ∧ p.panels i ≠ [] ∧
    ∃ step ∈ (p.layers i).steps, isSweepRunner step.animType = true ∧
      p.effectiveDurationMs step.durationMs ≠ 0

instance (p : ScenePlayer) (i : ℕ) : Decidable (p.Sweeps i) :=
  inferInstanceAs (Decidable (_ ∧ _ ∧ _))

/-- Every layer that sweeps has groups for its sweeps. -/
def SweepsHavePools (p : ScenePlayer) : Prop :=
  ∀ i < p.lCount, p.Sweeps i → (p.spawnState i).poolSize ≠ 0

instance (p : ScenePlayer) : Decidable p.SweepsHavePools :=
  inferInstanceAs (Decidable (∀ i < p.lCount, _ → _))

theorem Sweeps.congr {p q : ScenePlayer} (h : Plays p q) {i : ℕ} (hs : q.Sweeps i) :
    p.Sweeps i := by
  rw [h.rest] at hs
  exact hs

theorem SweepsHavePools.moves {nowMs : Millis} {p q : ScenePlayer} (h : p.SweepsHavePools)
    (hmove : SceneMoves nowMs p q) : q.SweepsHavePools := by
  intro i hi hs
  rw [(hmove.samePool i).2]
  exact h i (hmove.plays.lCount ▸ hi) (hs.congr hmove.plays)

/-- A layer whose sweep step is played is at one of its steps. -/
theorem SweepsAt.sweeps {p : ScenePlayer} {i : ℕ} (h : p.SweepsAt i)
    (hdisabled : (p.layers i).disabled = false) : p.Sweeps i := by
  refine ⟨hdisabled, h.2.1, p.step i, ?_, h.1, h.2.2⟩
  rcases p.step_mem_or i with hmem | hzero
  · exact hmem
  · have hsweep := h.1
    rw [hzero] at hsweep
    cases hsweep

/-! ### Layers that are switched off -/

theorem armedState_disabled {layer : SceneLayer} (h : layer.disabled = true) :
    armedState layer = .done := by
  unfold armedState
  rw [if_pos (Or.inr h)]

/-- Layers that are switched off stay so. -/
def Idle (p : ScenePlayer) : Prop :=
  ∀ i < p.lCount, (p.layers i).disabled = true →
    p.layerState i ≠ .running ∧ (p.playing = true → p.layerState i = .done)

theorem Idle.layer {nowMs : Millis} {i : ℕ} {p q : ScenePlayer} (h : p.Idle)
    (hmove : Moves nowMs i p q) : q.Idle := by
  cases hmove with
  | enter k hrun hk => exact h
  | finish hrun =>
      intro j hj hdisabled
      by_cases hji : j = i
      · have hdone : (p.finished i).layerState j = .done := by
          rw [hji]
          exact Function.update_self _ _ _
        rw [hdone]
        exact ⟨by decide, fun _ => rfl⟩
      · simp only [finished, Function.update_of_ne hji]
        exact h j hj hdisabled
  | wake hi hwait hplay =>
      intro j hj hdisabled
      by_cases hji : j = i
      · rw [hji] at hdisabled
        have hdone := (h i hi hdisabled).2 hplay
        rw [hwait] at hdone
        cases hdone
      · simp only [woken, Function.update_of_ne hji]
        exact h j hj hdisabled
  | flush => exact h
  | stop hi =>
      unfold stopLayerGroup
      split_ifs <;> exact h
  | light hrun htype => exact h
  | flip => exact h
  | bounce passDurMs hrun htype =>
      unfold fireBouncePass
      dsimp only
      split_ifs <;> exact h
  | spin turns hrun htype hturns => exact h
  | aim hrun hsweep => exact h
  | launch hrun hsweep hpool => exact h
  | drop drops hrun htype hdrops hpool => exact h
  | note st hrun hplan => exact h

theorem Idle.moves {nowMs : Millis} {p q : ScenePlayer} (h : p.Idle)
    (hmove : SceneMoves nowMs p q) : q.Idle := by
  cases hmove with
  | layer hmove => exact h.layer hmove
  | arm includeAsync hplay =>
      intro j hj hdisabled
      simp only [armed]
      split_ifs
      · have hdone : armedState (p.layers j) = .done := armedState_disabled hdisabled
        rw [hdone]
        exact ⟨by decide, fun _ => rfl⟩
      · exact h j hj hdisabled
  | halt => exact fun j hj hdisabled => ⟨(h j hj hdisabled).1, fun hplay => by cases hplay⟩

/-! ### Moves stay within the groups -/

/-- A group of its own and the flags that a scene can give. -/
structure Plain (layer : SceneLayer) : Prop where
  group_pos : layer.groupId ≠ 0
  group_le : layer.groupId.toNat ≤ 254
  flags : ∀ step ∈ layer.steps, step.PlainFlags

/-- A player in which every layer has the pool it was given, and layers that are switched off do
nothing; `sent₀` had been sent before. -/
structure Pooled (sent₀ : List Command) (p : ScenePlayer) : Prop where
  layers : p.lCount ≤ sceneMaxLayers
  plain : ∀ i < p.lCount, Plain (p.layers i)
  pool : ∀ i, SamePool (p.poolOf i) (p.spawnState i)
  idle : p.Idle
  sent : ∃ new, p.sent = sent₀ ++ new ∧ ∀ c ∈ new, p.Grouped c

theorem spawnPoolNext_inPool {st : LayerSpawnState} (hsize : st.poolSize ≠ 0)
    (hfits : st.poolBase.toNat + st.poolSize.toNat ≤ 256) :
    st.InPool (spawnPoolNext st.cursor st.poolBase st.poolSize).1 := by
  have hpos : 0 < st.poolSize.toNat := by
    rcases Nat.eq_zero_or_pos st.poolSize.toNat with hzero | hpos
    · exact absurd (BitVec.eq_of_toNat_eq hzero) hsize
    · exact hpos
  have hmod : st.cursor.toNat % st.poolSize.toNat < st.poolSize.toNat := Nat.mod_lt _ hpos
  have hbyte := st.poolSize.isLt
  unfold LayerSpawnState.InPool spawnPoolNext
  rw [if_neg hsize]
  dsimp only
  rw [BitVec.toNat_add, toNat_u8, Nat.mod_eq_of_lt (by omega : _ < 256)]
  rw [Nat.mod_eq_of_lt (by omega)]
  omega

theorem Pooled.nextGroup {sent₀ : List Command} {p : ScenePlayer} (h : Pooled sent₀ p) {i : ℕ}
    (hsize : (p.spawnState i).poolSize ≠ 0) :
    (p.spawnState i).InPool (p.nextGroup i) := by
  refine spawnPoolNext_inPool hsize ?_
  rw [(h.pool i).1, (h.pool i).2]
  exact p.poolOf_fits i

theorem flags_step {p : ScenePlayer} {i : ℕ} (h : Plain (p.layers i)) :
    (p.step i).flags &&& flagReapOnDone = 0 := by
  have hplain : (p.step i).PlainFlags := by
    rcases p.step_mem_or i with hmem | hzero
    · exact h.flags _ hmem
    · rw [hzero]
      rfl
  have hmask : flagReapOnDone = 0xFC &&& flagReapOnDone := by decide
  rw [hmask, ← BitVec.and_assoc, hplain]
  rfl

theorem Pooled.enabled {sent₀ : List Command} {p : ScenePlayer} (h : Pooled sent₀ p) {i : ℕ}
    (hrun : p.Running i) : (p.layers i).disabled = false := by
  cases hdisabled : (p.layers i).disabled with
  | false => rfl
  | true => exact absurd hrun.state (h.idle i hrun.lt hdisabled).1

/-- Whatever is sent for a layer is under the right group. -/
theorem Pooled.groups {sent₀ : List Command} {p : ScenePlayer} (h : Pooled sent₀ p)
    (hpools : p.SweepsHavePools) {i : ℕ} {c : Command} (hc : p.Sends i c) : p.GroupedFor i c := by
  have hreap : ¬ flagReapOnDone &&& flagReapOnDone = 0 := by decide
  have hgroup (hrun : p.Running i) (hpool : (p.spawnState i).poolSize = 0 → p.SweepsAt i) :
      (p.spawnState i).InPool (p.nextGroup i) := by
    refine h.nextGroup fun hzero => ?_
    exact hpools i hrun.lt ((hpool hzero).sweeps (h.enabled hrun)) hzero
  cases hc with
  | stop hi => rfl
  | own hrun ha hown horder hflags huses =>
      refine ⟨horder, (if_pos ?_).mpr hown⟩
      rcases hflags with hflags | hflags | hflags <;> rw [hflags]
      · exact flags_step (h.plain i hrun.lt)
      · rfl
      · rfl
  | start hrun huses => exact Or.inl rfl
  | spawned hrun hnext horder hflags hspawner hpool =>
      refine ⟨horder, ?_⟩
      rw [hflags, if_neg hreap, hnext]
      exact hgroup hrun hpool
  | spawnStart hrun hspawner hpool => exact Or.inr (hgroup hrun hpool)

theorem SceneMoves.sends {nowMs : Millis} {p q : ScenePlayer} (h : SceneMoves nowMs p q) :
    ∃ new, q.sent = p.sent ++ new ∧ ∀ c ∈ new, ∃ i, p.Sends i c := by
  cases h with
  | @layer i p q h =>
      obtain ⟨new, hnew, hsends⟩ := h.sends
      exact ⟨new, hnew, fun c hc => ⟨i, hsends c hc⟩⟩
  | arm includeAsync hplay => exact ⟨[], (List.append_nil _).symm, by simp⟩
  | halt => exact ⟨[], (List.append_nil _).symm, by simp⟩

theorem Pooled.moves {nowMs : Millis} {sent₀ : List Command} {p q : ScenePlayer}
    (h : Pooled sent₀ p) (hpools : p.SweepsHavePools) (hmove : SceneMoves nowMs p q) :
    Pooled sent₀ q := by
  have hplays := hmove.plays
  obtain ⟨old, hold, hgrouped⟩ := h.sent
  obtain ⟨new, hnew, hsends⟩ := hmove.sends
  refine ⟨hplays.lCount ▸ h.layers, ?_, fun i => ?_, h.idle.moves hmove, old ++ new, ?_,
    fun c hc => ?_⟩
  · rw [hplays.lCount, hplays.layers]
    exact h.plain
  · rw [poolOf_eq_of_layers p hplays.layers hplays.lCount]
    exact ⟨(hmove.samePool i).1.trans (h.pool i).1, (hmove.samePool i).2.trans (h.pool i).2⟩
  · rw [hnew, hold, List.append_assoc]
  · refine Grouped.congr hplays.layers hplays.lCount hmove.samePool ?_
    rcases List.mem_append.mp hc with hc | hc
    · exact hgrouped c hc
    · obtain ⟨i, hi⟩ := hsends c hc
      exact Or.inr ⟨i, hi.lt, h.groups hpools hi⟩

theorem Pooled.does {nowMs : Millis} {sent₀ : List Command} {p q : ScenePlayer}
    (h : Pooled sent₀ p) (hpools : p.SweepsHavePools) (hdoes : Does nowMs p q) :
    Pooled sent₀ q ∧ q.SweepsHavePools := by
  induction hdoes with
  | refl => exact ⟨h, hpools⟩
  | tail _ hmove ih => exact ⟨ih.1.moves ih.2 hmove, ih.2.moves hmove⟩

/-! ### What a player is told -/

/-- The scene is told something that concerns no group, and goes on, or is stopped. -/
structure Retunes (p q : ScenePlayer) : Prop where
  layers : q.layers = p.layers
  lCount : q.lCount = p.lCount
  spawnState : q.spawnState = p.spawnState
  idle : p.Idle → q.Idle
  sent : ∃ new, q.sent = p.sent ++ new ∧ ∀ c ∈ new, groupOf c = none

/-- What can become of a player that is told something: the layers have their turns, or the scene
is started over, or nothing happens to the layers. -/
inductive Told (p : ScenePlayer) : PlayerEvent → ScenePlayer → Prop
  | turn {q : ScenePlayer} (nowMs : Millis) (hplay : p.playing = true) (h : Does nowMs p q) :
      Told p (.tick nowMs) q
  | resume {q : ScenePlayer} (env : SceneProviders) (nowMs : Millis) (hcount : p.lCount ≠ 0)
      (h : Does nowMs ((p.reentered env).armed nowMs true) q) : Told p (.resume env nowMs) q
  | root {q : ScenePlayer} (env : SceneProviders) (panelIndex : Byte) (nowMs : Millis)
      (hplay : p.playing = true) (hcount : p.lCount ≠ 0)
      (h : Does nowMs (((p.withRoot panelIndex).reentered env).armed nowMs true) q) :
      Told p (.setLogicalRoot env panelIndex nowMs) q
  | tune {q : ScenePlayer} (e : PlayerEvent) (h : Retunes p q) : Told p e q

theorem Retunes.of_sent {p q : ScenePlayer} (hlayers : q.layers = p.layers)
    (hcount : q.lCount = p.lCount) (hspawn : q.spawnState = p.spawnState) (hidle : p.Idle → q.Idle)
    (hsent : q.sent = p.sent) : Retunes p q :=
  ⟨hlayers, hcount, hspawn, hidle, [], by rw [hsent, List.append_nil], by simp⟩

theorem retunes_withRoot (p : ScenePlayer) (panelIndex : Byte) : Retunes p (p.withRoot panelIndex) :=
  .of_sent rfl rfl rfl id rfl

theorem retunes_stop (p : ScenePlayer) : Retunes p p.stop := by
  refine ⟨rfl, rfl, rfl, fun _ i _ _ => ⟨?_, fun hplay => ?_⟩, _, rfl, fun c hc => ?_⟩
  · change LayerState.waiting ≠ .running
    decide
  · cases hplay
  · simp only [List.mem_cons, List.not_mem_nil, or_false] at hc
    rcases hc with rfl | rfl <;> rfl

theorem does_resume (p : ScenePlayer) (env : SceneProviders) (nowMs : Millis)
    (hcount : p.lCount ≠ 0) :
    Does nowMs ((p.reentered env).armed nowMs true) (p.resume env nowMs) := by
  rw [resume_eq, if_neg hcount]
  exact does_fireArmedLayers nowMs true rfl

theorem handle_told (p : ScenePlayer) (e : PlayerEvent) : Told p e (p.handle e) := by
  cases e with
  | tick nowMs =>
      by_cases hplay : p.playing = true
      · exact .turn nowMs hplay (does_tick p nowMs)
      · change Told p _ (p.tick nowMs)
        unfold tick
        rw [if_neg hplay]
        exact .tune _ (.of_sent rfl rfl rfl id rfl)
  | stop => exact .tune _ (retunes_stop p)
  | resume env nowMs =>
      by_cases hcount : p.lCount = 0
      · change Told p _ (p.resume env nowMs)
        rw [resume_eq, if_pos hcount]
        exact .tune _ (.of_sent rfl rfl rfl id rfl)
      · exact .resume env nowMs hcount (does_resume p env nowMs hcount)
  | setSpeed s => exact .tune _ (.of_sent rfl rfl rfl id rfl)
  | setLogicalRoot env panelIndex nowMs =>
      change Told p _ (if p.playing = true then (p.withRoot panelIndex).resume env nowMs
        else { p.withRoot panelIndex with sceneTopo := env.rebuild (p.withRoot panelIndex).logicalRoot })
      by_cases hplay : p.playing = true
      · rw [if_pos hplay]
        by_cases hcount : p.lCount = 0
        · have hcount' : (p.withRoot panelIndex).lCount = 0 := hcount
          rw [resume_eq, if_pos hcount']
          exact .tune _ (retunes_withRoot p panelIndex)
        · exact .root env panelIndex nowMs hplay hcount
            (does_resume (p.withRoot panelIndex) env nowMs hcount)
      · rw [if_neg hplay]
        exact .tune _ (.of_sent rfl rfl rfl id rfl)
  | reresolvePalettes env newPal newColors =>
      change Told p _ (p.reresolvePalettes env newPal newColors)
      unfold reresolvePalettes
      split
      · exact .tune _ (.of_sent rfl rfl rfl id rfl)
      · exact .tune _ (.of_sent rfl rfl rfl id rfl)

/-! ### Runs -/

/-- A change to what is said about the scene, with more that is sent. -/
theorem Pooled.retunes {sent₀ : List Command} {p q : ScenePlayer} (h : Pooled sent₀ p)
    (hq : Retunes p q) : Pooled sent₀ q := by
  obtain ⟨old, hold, hgrouped⟩ := h.sent
  obtain ⟨new, hnew, hsends⟩ := hq.sent
  have hpool (i : ℕ) : SamePool (p.spawnState i) (q.spawnState i) := by
    rw [hq.spawnState]
    exact ⟨rfl, rfl⟩
  refine ⟨hq.lCount ▸ h.layers, ?_, fun i => ?_, hq.idle h.idle, old ++ new, ?_, fun c hc => ?_⟩
  · rw [hq.layers, hq.lCount]
    exact h.plain
  · rw [hq.spawnState, poolOf_eq_of_layers p hq.layers hq.lCount]
    exact h.pool i
  · rw [hnew, hold, List.append_assoc]
  · refine Grouped.congr hq.layers hq.lCount hpool ?_
    rcases List.mem_append.mp hc with hc | hc
    · exact hgrouped c hc
    · exact Or.inl (hsends c hc)

/-- What is sent when a scene is entered is about no group. -/
theorem enterScene_sends (p : ScenePlayer) (env : SceneProviders) (header : Header) :
    ∃ new, (p.enterScene env header).sent = p.sent ++ new ∧ ∀ c ∈ new, groupOf c = none := by
  refine ⟨_, List.append_assoc _ _ _, fun c hc => ?_⟩
  rcases List.mem_append.mp hc with hc | hc
  · simp only [List.mem_cons, List.not_mem_nil, or_false] at hc
    rcases hc with rfl | rfl | rfl <;> rfl
  · unfold sendPalettesToPanels at hc
    rcases List.mem_cons.mp hc with rfl | hc
    · rfl
    · obtain ⟨i, -, hi⟩ := List.mem_flatMap.mp hc
      simp only [List.mem_cons, List.not_mem_nil, or_false] at hi
      rcases hi with rfl | rfl <;> rfl

/-- Layers that are switched off are done when the layers are armed. -/
theorem idle_armed (p : ScenePlayer) (nowMs : Millis) : (p.armed nowMs true).Idle := by
  intro i hi hdisabled
  have hdone : (p.armed nowMs true).layerState i = .done := by
    have harm : p.isArmed true i = true := by
      simp only [isArmed, Bool.true_or, Bool.and_true]
      exact decide_eq_true hi
    simp only [armed, harm, if_true]
    exact armedState_disabled hdisabled
  rw [hdone]
  exact ⟨by decide, fun _ => rfl⟩

theorem pooled_armed {sent₀ : List Command} {p : ScenePlayer} (hlayers : p.lCount ≤ sceneMaxLayers)
    (hplain : ∀ i < p.lCount, Plain (p.layers i))
    (env : SceneProviders) (header : Header) (nowMs : Millis)
    (hsent : ∃ new, p.sent = sent₀ ++ new ∧ ∀ c ∈ new, (p.enterScene env header).Grouped c) :
    Pooled sent₀ ((p.enterScene env header).armed nowMs true) := by
  obtain ⟨old, hold, hgrouped⟩ := hsent
  obtain ⟨new, hnew, hsends⟩ := p.enterScene_sends env header
  refine ⟨hlayers, hplain, fun i => ⟨rfl, rfl⟩, idle_armed _ nowMs, old ++ new, ?_, fun c hc => ?_⟩
  · rw [← List.append_assoc, ← hold]
    exact hnew
  · rcases List.mem_append.mp hc with hc | hc
    · exact hgrouped c hc
    · exact Or.inl (hsends c hc)

theorem Pooled.reentered {sent₀ : List Command} {p : ScenePlayer} (h : Pooled sent₀ p)
    (env : SceneProviders) (nowMs : Millis) :
    Pooled sent₀ ((p.reentered env).armed nowMs true) := by
  have hself : ({ p with lCount := min p.lCount sceneMaxLayers } : ScenePlayer) = p := by
    rw [min_eq_left h.layers]
  unfold ScenePlayer.reentered
  rw [hself]
  refine pooled_armed h.layers h.plain env p.header nowMs ?_
  obtain ⟨old, hold, hgrouped⟩ := h.sent
  have hpool (i : ℕ) : SamePool (p.spawnState i) ((p.enterScene env p.header).spawnState i) :=
    ⟨(h.pool i).1.symm, (h.pool i).2.symm⟩
  exact ⟨old, hold, fun c hc =>
    Grouped.congr (p := p) (q := p.enterScene env p.header) rfl rfl hpool (hgrouped c hc)⟩

/-- Where a turn of the scene or a new start could sweep, every layer that sweeps has groups. -/
def SweepsInPools (p : ScenePlayer) : PlayerEvent → Prop
  | .tick _ => p.playing = true → p.SweepsHavePools
  | .resume env _ => p.lCount ≠ 0 → (p.reentered env).SweepsHavePools
  | .setLogicalRoot env panelIndex _ => p.playing = true → p.lCount ≠ 0 →
    ((p.withRoot panelIndex).reentered env).SweepsHavePools
  | _ => True

instance (p : ScenePlayer) (e : PlayerEvent) : Decidable (p.SweepsInPools e) := by
  cases e <;> unfold SweepsInPools <;> infer_instance

theorem Pooled.handle {sent₀ : List Command} {p : ScenePlayer} (h : Pooled sent₀ p)
    (e : PlayerEvent) (hpools : p.SweepsInPools e) : Pooled sent₀ (p.handle e) := by
  have htold := handle_told p e
  generalize p.handle e = q at htold
  cases htold with
  | turn nowMs hplay hdoes => exact (h.does (hpools hplay) hdoes).1
  | resume env nowMs hcount hdoes =>
      exact ((h.reentered env nowMs).does ((hpools hcount).moves (.arm _ true rfl)) hdoes).1
  | root env panelIndex nowMs hplay hcount hdoes =>
      have hroot := h.retunes (retunes_withRoot p panelIndex)
      exact ((hroot.reentered env nowMs).does ((hpools hplay hcount).moves (.arm _ true rfl)) hdoes).1
  | tune e htunes => exact h.retunes htunes

theorem Pooled.run {sent₀ : List Command} (es : List PlayerEvent) {p : ScenePlayer}
    (h : Pooled sent₀ p) (hes : Transition.Guarded ScenePlayer.handle SweepsInPools p es) :
    Pooled sent₀ (es.foldl ScenePlayer.handle p) :=
  Transition.Reachable.invariant (Pooled sent₀) (fun _ e hp hok => hp.handle e hok) h
    (Transition.reachable_of_guarded es .refl hes)

/-! ### Room for every spawner -/

theorem Room.congr {p q : ScenePlayer} (h : p.Room) (hlayers : q.layers = p.layers)
    (hcount : q.lCount = p.lCount) : q.Room := by
  simp only [Room, maxUsed, spawnersBelow, hlayers, hcount] at h ⊢
  exact h

theorem Room.sweepsHavePools {p : ScenePlayer} (h : p.Room)
    (hpool : ∀ i, SamePool (p.poolOf i) (p.spawnState i)) : p.SweepsHavePools := by
  rintro i hi ⟨-, -, step, hstep, hsweep, -⟩
  have hspawner : isSpawner step.animType = true := by
    rw [isSpawner, hsweep, Bool.or_true]
  rw [(hpool i).2]
  exact h.poolOf hi (List.any_eq_true.mpr ⟨step, hstep, hspawner⟩)

/-- A scene that is entered gives a pool to everything that spawns. -/
theorem Room.enterScene {p : ScenePlayer} (h : p.Room) (env : SceneProviders) (header : Header) :
    (p.enterScene env header).SweepsHavePools := by
  have hentered : (p.enterScene env header).Room := h.congr rfl rfl
  exact hentered.sweepsHavePools fun i => ⟨rfl, rfl⟩

theorem Pooled.sweepsInPools {sent₀ : List Command} {p : ScenePlayer} (h : Pooled sent₀ p)
    (hroom : p.Room) (e : PlayerEvent) : p.SweepsInPools e := by
  have hreentered (q : ScenePlayer) (hlayers : q.layers = p.layers) (hcount : q.lCount = p.lCount)
      (env : SceneProviders) : (q.reentered env).SweepsHavePools := by
    have hclamped : ({ q with lCount := min q.lCount sceneMaxLayers } : ScenePlayer).Room := by
      refine hroom.congr hlayers ?_
      exact (congrArg (min · sceneMaxLayers) hcount).trans (min_eq_left h.layers)
    exact hclamped.enterScene env q.header
  cases e with
  | tick nowMs => exact fun _ => hroom.sweepsHavePools h.pool
  | resume env nowMs => exact fun _ => hreentered p rfl rfl env
  | setLogicalRoot env panelIndex nowMs =>
      exact fun _ _ => hreentered (p.withRoot panelIndex) rfl rfl env
  | stop => trivial
  | setSpeed s => trivial
  | reresolvePalettes env newPal newColors => trivial

/-- Where the groups go as far as the layers need them, no run sweeps without a pool. -/
theorem Pooled.guarded {sent₀ : List Command} {p : ScenePlayer} (h : Pooled sent₀ p)
    (hroom : p.Room) (es : List PlayerEvent) :
    Transition.Guarded ScenePlayer.handle SweepsInPools p es := by
  induction es generalizing p with
  | nil => trivial
  | cons e es ih =>
      have hpools := h.sweepsInPools hroom e
      obtain ⟨hlayers, hcount⟩ := handle_layers h.layers e
      exact ⟨hpools, ih (h.handle e hpools) (hroom.congr hlayers hcount)⟩

/-! ### Accepted scenes -/

/-- The pools are apart from each other and from the groups of the layers. -/
structure PoolsApart (p : ScenePlayer) : Prop where
  pools : ∀ i j g, (p.spawnState i).InPool g → (p.spawnState j).InPool g → i = j
  own : ∀ i, ∀ j < p.lCount, ¬ (p.spawnState i).InPool (p.layers j).groupId

theorem Pooled.apart {sent₀ : List Command} {p : ScenePlayer} (h : Pooled sent₀ p) :
    p.PoolsApart := by
  refine ⟨fun i j g hi hj => ?_, fun i j hj hin => ?_⟩
  · rw [(h.pool i).inPool] at hi
    rw [(h.pool j).inPool] at hj
    by_contra hij
    exact p.poolOf_disjoint hij hi hj
  · rw [(h.pool i).inPool] at hin
    exact p.poolOf_above hj hin

theorem Pooled.group_range {sent₀ : List Command} {p : ScenePlayer} (h : Pooled sent₀ p)
    {c : Command} (hc : p.Grouped c) {g : Byte} (hg : groupOf c = some g) :
    1 ≤ g.toNat ∧ g.toNat ≤ 254 := by
  have hown {i : ℕ} (hi : i < p.lCount) :
      1 ≤ (p.layers i).groupId.toNat ∧ (p.layers i).groupId.toNat ≤ 254 := by
    refine ⟨Nat.one_le_iff_ne_zero.mpr fun hzero => ?_, (h.plain i hi).group_le⟩
    exact (h.plain i hi).group_pos (BitVec.eq_of_toNat_eq hzero)
  have hpool {i : ℕ} {g : Byte} (hin : (p.spawnState i).InPool g) : 1 ≤ g.toNat ∧ g.toNat ≤ 254 := by
    rw [(h.pool i).inPool] at hin
    obtain ⟨-, -, hlow, -, hhigh⟩ := p.poolOf_inPool hin
    exact ⟨by omega, hhigh⟩
  rcases hc with hnone | ⟨i, hi, hfor⟩
  · rw [hg] at hnone
    cases hnone
  · cases c with
    | sendPrepareToPanel a pkt =>
        cases hg
        obtain ⟨-, hgroup⟩ := hfor
        split_ifs at hgroup
        · rw [hgroup]
          exact hown hi
        · exact hpool hgroup
    | sendGroupStart g' =>
        cases hg
        rcases hfor with rfl | hin
        · exact hown hi
        · exact hpool hin
    | sendControlToPanels g' cmd a =>
        cases hg
        rw [hfor]
        exact hown hi
    | _ => exact hfor.elim

theorem withLayers_plain (p : ScenePlayer) {r : SceneRecord} (h : r.WellFormed) :
    ∀ i < (p.withLayers r.layers).lCount, Plain ((p.withLayers r.layers).layers i) := by
  intro i hi
  obtain ⟨hlt, hlayer⟩ := p.withLayers_layer h.layers_le hi
  have hwell := h.layer _ (List.getElem_mem hlt)
  rw [hlayer]
  exact ⟨hwell.group_pos, hwell.group_le, hwell.flags⟩

theorem pooled_loadAndPlay (p : ScenePlayer) {r : SceneRecord} (h : r.WellFormed)
    (env : SceneProviders) (header : Header) (startMs : Millis)
    (hload : ((p.withLayers r.layers).enterScene env header).SweepsHavePools) :
    Pooled p.sent (p.loadAndPlay env r.layers header startMs) := by
  have harmed : Pooled p.sent (((p.withLayers r.layers).enterScene env header).armed startMs true) :=
    pooled_armed (min_le_right _ _) (p.withLayers_plain h) env header startMs
      ⟨[], (List.append_nil _).symm, by simp⟩
  exact (harmed.does (hload.moves (.arm _ true rfl)) (does_fireArmedLayers startMs true rfl)).1

/-- Every run of a scene that leaves room for its spawners meets the condition under which its
groups stay apart. -/
theorem guarded_of_room {r : SceneRecord} (h : r.WellFormed) (env : SceneProviders)
    (header : Header) (p : ScenePlayer) (startMs : Millis) (es : List PlayerEvent)
    (hroom : (p.withLayers r.layers).Room) :
    ((p.withLayers r.layers).enterScene env header).SweepsHavePools ∧
      Transition.Guarded handle SweepsInPools (p.loadAndPlay env r.layers header startMs) es := by
  have hload := hroom.enterScene env header
  refine ⟨hload, (p.pooled_loadAndPlay h env header startMs hload).guarded ?_ es⟩
  have hplays := plays_armLayers ((p.withLayers r.layers).enterScene env header) startMs true
  exact hroom.congr hplays.layers hplays.lCount

theorem run_groups_apart {fuel : ℕ} {json : Text} {r : SceneRecord}
    (hparse : parseScene fuel json = .ok r) (env : SceneProviders) (header : Header)
    (p : ScenePlayer) (startMs : Millis) (es : List PlayerEvent)
    (hload : ((p.withLayers r.layers).enterScene env header).SweepsHavePools)
    (hes : Transition.Guarded handle SweepsInPools (p.loadAndPlay env r.layers header startMs) es) :
    (es.foldl handle (p.loadAndPlay env r.layers header startMs)).PoolsApart ∧
      ∃ new, (es.foldl handle (p.loadAndPlay env r.layers header startMs)).sent = p.sent ++ new ∧
        ∀ c ∈ new, (es.foldl handle (p.loadAndPlay env r.layers header startMs)).Grouped c ∧
          ∀ g, groupOf c = some g → 1 ≤ g.toNat ∧ g.toNat ≤ 254 := by
  have hstart := p.pooled_loadAndPlay (parseScene_wellFormed hparse) env header startMs hload
  have hrun := hstart.run es hes
  obtain ⟨new, hnew, hgrouped⟩ := hrun.sent
  exact ⟨hrun.apart, new, hnew, fun c hc =>
    ⟨hgrouped c hc, fun g hg => hrun.group_range (hgrouped c hc) hg⟩⟩

/-- A layer with one wave, on all panels. -/
def waveLayer (groupId : Byte) (durationMs : Ticks) : SceneLayer :=
  { SceneLayer.blank with
    groupId
    steps := [{ SceneStep.zero with animType := .wave, durationMs }] }

/-- The text of a scene with one wave. -/
def waveJson (group : String) : Text :=
  bytes "\x7b\"name\":\"w\",\"layers\":[\x7b\"group\":" ++ bytes group ++
    bytes ",\"sequence\":[\x7b\"runner\":\"WAVE\",\"duration\":1000\x7d]\x7d]\x7d"

def waveScene (groupId : Byte) : SceneRecord :=
  { SceneRecord.default with name := bytes "w", layers := [waveLayer groupId 1000] }

def waveRun (groupId : Byte) (es : List PlayerEvent) : ScenePlayer :=
  es.foldl handle ((init pairScene).loadAndPlay pairProviders (waveScene groupId).layers
    (plainHeader true 1) 0)

theorem waveRun_groups_apart :
    (waveRun 7 [.tick 500, .setSpeed 2, .tick 1000, .resume pairProviders 1500]).PoolsApart ∧
      ∃ new, (waveRun 7 [.tick 500, .setSpeed 2, .tick 1000, .resume pairProviders 1500]).sent =
        (init pairScene).sent ++ new ∧ ∀ c ∈ new,
          (waveRun 7 [.tick 500, .setSpeed 2, .tick 1000, .resume pairProviders 1500]).Grouped c ∧
            ∀ g, groupOf c = some g → 1 ≤ g.toNat ∧ g.toNat ≤ 254 :=
  @run_groups_apart 300 (waveJson "7") (waveScene 7) (by decide +kernel) pairProviders
    (plainHeader true 1) (init pairScene) 0
    [.tick 500, .setSpeed 2, .tick 1000, .resume pairProviders 1500] (by decide +kernel)
    (by decide +kernel)

/-- With group 254 in use a wave has no groups, and is started under group 255. -/
theorem waveRun_out_of_range : parseScene 300 (waveJson "254") = .ok (waveScene 254) ∧
    (∀ i < 8, ((waveRun 254 []).spawnState i).poolSize = 0) ∧
    ∃ c ∈ (waveRun 254 []).sent, groupOf c = some 255 := by
  decide +kernel

end ScenePlayer

end Lightnet
