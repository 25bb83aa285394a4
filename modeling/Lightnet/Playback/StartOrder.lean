import Mathlib.Algebra.BigOperators.Fin
import Mathlib.Algebra.Order.BigOperators.Group.Finset
import Lightnet.Playback.PlayerMoves
import Lightnet.Scene.Accepted

/-!
# Layers that wait for others

A layer that waits is woken at the end of the turns in which the layer that it waits for gets past a
step or is done. Only a layer that loops on its own is never done.
-/

namespace Lightnet

/-- The layer waits for the end of a layer that loops on its own. -/
def SceneLayer.waitsForLoop (layers : List SceneLayer) (layer : SceneLayer) : Bool :=
  match findGroup layers layer.startAfterGroupId with
  | none => false
  | some t => t.isAsyncLayer && !t.disabled &&
      (layer.startAfterStepIndex = sceneNoStepIndex ||
        t.steps.length ≤ layer.startAfterStepIndex.toNat + 1)

namespace ScenePlayer

variable (p : ScenePlayer)

/-- How far a layer has come. -/
def place (i : ℕ) : LayerState × ℕ × Millis := (p.layerState i, p.currentStep i, p.stepStartMs i)

theorem place_of_layerRun {p q : ScenePlayer} {i : ℕ} (h : q.layerRun i = p.layerRun i) :
    q.place i = p.place i :=
  congrArg (fun x : ℕ × Millis × LayerState × Bool × Bool × LayerSpawnState =>
    (x.2.2.1, x.1, x.2.1)) h

theorem Fires.place {i : ℕ} {p q : ScenePlayer} (h : Fires i p q) (j : ℕ) :
    q.place j = p.place j := by
  unfold ScenePlayer.place
  rw [h.layerState, h.currentStep, h.stepStartMs]

/-! ### Turns -/

/-- Where the turn of a layer leaves it. -/
def nextPlace (i : ℕ) (nowMs : Millis) : LayerState × ℕ × Millis :=
  if p.layerState i ≠ .running then p.place i
  else if (p.step i).durationMs = 0 then p.place i
  else if nowMs - p.stepStartMs i < p.threshold i then p.place i
  else if p.currentStep i + 1 < (p.layers i).steps.length then
    (.running, p.currentStep i + 1, nowMs)
  else if (p.layers i).isAsyncLayer then (.running, 0, nowMs)
  else (.done, p.currentStep i, p.stepStartMs i)

theorem place_enterStep (i k : ℕ) (nowMs : Millis) :
    (p.enterStep i k nowMs).place i = (p.layerState i, k, nowMs) := by
  have hentered : (p.entered i k nowMs).place i = (p.layerState i, k, nowMs) := by
    simp only [place, entered, Function.update_self]
  exact ((fires_fireStep (p.entered i k nowMs) i nowMs).place i).trans hentered

theorem place_tickLayer (nowMs : Millis) (i : ℕ) :
    (tickLayer nowMs p i).place i = p.nextPlace i nowMs := by
  unfold tickLayer nextPlace
  split_ifs with hstate hzero hspawner hwithin hnext hasync
  · rfl
  · exact (fires_serviceSpawner p i nowMs).place i
  · rfl
  · exact (fires_serviceStep p i nowMs).place i
  all_goals
    have hrun : p.layerState i = .running := not_not.mp hstate
    unfold advanceLayer
  · rw [if_pos hnext, place_enterStep, hrun]
  · rw [if_neg hnext, if_pos hasync, place_enterStep, hrun]
  · rw [if_neg hnext, if_neg hasync]
    simp only [place, Function.update_self]

theorem place_promoteLayer (nowMs : Millis) (i : ℕ) :
    (promoteLayer nowMs p i).place i =
      if p.layerState i = .waiting ∧ p.isReady i then (.running, 0, nowMs) else p.place i := by
  unfold promoteLayer
  split_ifs with hready
  · have hwoken : (p.woken i).layerState i = .running := Function.update_self _ _ _
    exact (place_enterStep (p.woken i) i 0 nowMs).trans (by rw [hwoken])
  · rfl

theorem place_flushPendingStops (restarting : Bool) (j : ℕ) :
    (p.flushPendingStops restarting).place j = p.place j := by
  unfold flushPendingStops
  refine List.foldlRecOn (motive := fun q : ScenePlayer => q.place j = p.place j) _ _ rfl ?_
  intro q hq i hi
  rw [← hq]
  unfold flushStop
  dsimp only
  split_ifs
  · rfl
  · exact (fires_stopLayerGroup (q.flushed i) i).place j
  · rfl

/-- The turn of one layer among the turns of all. -/
theorem foldl_turn {f : ScenePlayer → ℕ → ScenePlayer} (hf : ∀ p i, Touches i p (f p i))
    {K : ScenePlayer → Prop} (hinv : ∀ p i, K p → K (f p i)) {l : List ℕ} (hl : l.Nodup)
    {j : ℕ} (hj : j ∈ l) {p : ScenePlayer} (hp : K p) :
    ∃ q, Plays p q ∧ K q ∧ q.layerRun j = p.layerRun j ∧
      (l.foldl f p).layerRun j = (f q j).layerRun j := by
  obtain ⟨before, after, rfl⟩ := List.append_of_mem hj
  obtain ⟨hbefore, hafter⟩ := List.nodup_middle.mp hl |> List.nodup_cons.mp
  rw [List.mem_append, not_or] at hbefore
  refine ⟨before.foldl f p, foldl_plays hf before p, ?_, foldl_other hf hbefore.1 p, ?_⟩
  · exact List.foldlRecOn (motive := K) before f hp fun q hq i _ => hinv q i hq
  · rw [List.foldl_append, List.foldl_cons]
    exact foldl_other hf hbefore.2 _

/-- What a turn does depends on little. -/
theorem nextPlace_congr {p q : ScenePlayer} (h : Plays p q) {i : ℕ} (hplace : q.place i = p.place i)
    (nowMs : Millis) : q.nextPlace i nowMs = p.nextPlace i nowMs := by
  have hstate : q.layerState i = p.layerState i := congrArg (fun x => x.1) hplace
  have hcurrent : q.currentStep i = p.currentStep i := congrArg (fun x => x.2.1) hplace
  have hstart : q.stepStartMs i = p.stepStartMs i := congrArg (fun x => x.2.2) hplace
  have hstep : q.step i = p.step i := by
    unfold step
    rw [h.layers, hcurrent]
  have hthreshold : q.threshold i = p.threshold i := by
    unfold threshold scaledDurationMs
    rw [hstep, h.speed]
  unfold nextPlace
  rw [hstate, hstep, hstart, hthreshold, hcurrent, hplace, h.layers]

/-- The player when the layers have had their turns, before layers are woken. -/
def turned (nowMs : Millis) : ScenePlayer := (List.range p.lCount).foldl (tickLayer nowMs) p

theorem plays_turned (nowMs : Millis) : Plays p (p.turned nowMs) :=
  foldl_plays (fun q i => touches_tickLayer q i nowMs) _ p

theorem place_turned (nowMs : Millis) {j : ℕ} (hj : j < p.lCount) :
    (p.turned nowMs).place j = p.nextPlace j nowMs := by
  obtain ⟨q, hplays, -, hown, hturn⟩ := foldl_turn (f := tickLayer nowMs)
    (fun q i => touches_tickLayer q i nowMs) (K := fun _ => True) (fun _ _ _ => trivial)
    List.nodup_range (List.mem_range.mpr hj) (p := p) trivial
  have hplace := (place_of_layerRun hturn).trans (place_tickLayer q nowMs j)
  exact hplace.trans (nextPlace_congr hplays (place_of_layerRun hown) nowMs)

/-! ### Waking -/

/-- Only layers that wait have been moved. -/
def WakesOnly (p q : ScenePlayer) : Prop := ∀ j, p.layerState j ≠ .waiting → q.place j = p.place j

theorem WakesOnly.promoteLayer {p q : ScenePlayer} (h : WakesOnly p q) (nowMs : Millis) (i : ℕ) :
    WakesOnly p (promoteLayer nowMs q i) := by
  intro j hj
  by_cases hji : j = i
  · have hstate : q.layerState i = p.layerState i := congrArg (fun x => x.1) (h i (hji ▸ hj))
    rw [hji, place_promoteLayer, if_neg fun hready => hj ?_]
    · exact h i (hji ▸ hj)
    · rw [hji, ← hstate]
      exact hready.1
  · exact (place_of_layerRun ((touches_promoteLayer q i nowMs).other j hji)).trans (h j hj)

/-- The turn of a layer in which it may be woken. -/
theorem place_promoteReadyLayers (nowMs : Millis) {i : ℕ} (hi : i < p.lCount) :
    ∃ q, Plays p q ∧ WakesOnly p q ∧ (p.promoteReadyLayers nowMs).place i =
      if p.layerState i = .waiting ∧ q.isReady i then (.running, 0, nowMs) else p.place i := by
  obtain ⟨q, hplays, hwakes, hown, hturn⟩ := foldl_turn (f := promoteLayer nowMs)
    (fun q i => touches_promoteLayer q i nowMs) (K := WakesOnly p)
    (fun _ i hq => hq.promoteLayer nowMs i) List.nodup_range (List.mem_range.mpr hi) (p := p)
    (fun _ _ => rfl)
  have hplace : q.place i = p.place i := place_of_layerRun hown
  have hstate : q.layerState i = p.layerState i := congrArg (fun x => x.1) hplace
  refine ⟨q, hplays, hwakes, (place_of_layerRun hturn).trans ?_⟩
  rw [place_promoteLayer, hplace, hstate]

theorem place_atBarrier (nowMs : Millis) {i : ℕ} (hi : i < p.lCount) :
    ∃ q, Plays p q ∧ WakesOnly (p.turned nowMs) q ∧ (p.atBarrier nowMs).place i =
      if (p.nextPlace i nowMs).1 = .waiting ∧ q.isReady i then (.running, 0, nowMs)
      else p.nextPlace i nowMs := by
  have hturned := p.plays_turned nowMs
  obtain ⟨q, hplays, hwakes, hplace⟩ :=
    (p.turned nowMs).place_promoteReadyLayers nowMs (hturned.lCount ▸ hi)
  have hown := p.place_turned nowMs hi
  have hstate : (p.turned nowMs).layerState i = (p.nextPlace i nowMs).1 :=
    congrArg (fun x => x.1) hown
  refine ⟨q, hturned.trans hplays, hwakes, hplace.trans ?_⟩
  rw [hstate, hown]

theorem plays_atBarrier (nowMs : Millis) : Plays p (p.atBarrier nowMs) :=
  (p.plays_turned nowMs).trans (foldl_plays (fun q i => touches_promoteLayer q i nowMs) _ _)

theorem playing_atBarrier (nowMs : Millis) : (p.atBarrier nowMs).playing = p.playing := by
  have hfold {f : ScenePlayer → ℕ → ScenePlayer} (hf : ∀ p i, Touches i p (f p i)) (l : List ℕ)
      (q : ScenePlayer) : (l.foldl f q).playing = q.playing :=
    List.foldlRecOn (motive := fun r : ScenePlayer => r.playing = q.playing) l f rfl
      fun r hr i _ => ((hf r i).playing).trans hr
  exact (hfold (fun q i => touches_promoteLayer q i nowMs) _ _).trans
    (hfold (fun q i => touches_tickLayer q i nowMs) _ p)

theorem Plays.syncLayers {p q : ScenePlayer} (h : Plays p q) : q.syncLayers = p.syncLayers := by
  unfold ScenePlayer.syncLayers
  rw [h.lCount, h.layers]

/-- No barrier is passed as long as a layer that the scene waits for is not done. -/
theorem tick_before_barrier {i : ℕ} {nowMs : Millis} (hplay : p.playing = true)
    (hi : i ∈ p.syncLayers) (hdone : (p.atBarrier nowMs).layerState i ≠ .done) :
    (∀ j, (p.tick nowMs).place j = (p.atBarrier nowMs).place j) ∧
      (p.tick nowMs).playing = true := by
  have hall : (p.atBarrier nowMs).allSyncDone = false := by
    rw [allSyncDone, (p.plays_atBarrier nowMs).syncLayers, List.all_eq_false]
    exact ⟨i, hi, by simpa using hdone⟩
  have htick : p.tick nowMs = (p.atBarrier nowMs).flushPendingStops false := by
    have hend : p.tick nowMs = (p.atBarrier nowMs).endTick nowMs := if_pos hplay
    rw [hend]
    unfold endTick
    simp [hall]
  rw [htick]
  refine ⟨fun j => place_flushPendingStops _ false j, ?_⟩
  have hflush : (p.atBarrier nowMs).flushPendingStops false =
      (List.range (p.atBarrier nowMs).lCount).foldl (flushStop false) (p.atBarrier nowMs) := rfl
  rw [hflush, ← hplay, ← p.playing_atBarrier nowMs]
  exact List.foldlRecOn (motive := fun q : ScenePlayer => q.playing = (p.atBarrier nowMs).playing)
    _ _ rfl fun q hq j _ => ((touches_flushStop q j false).playing).trans hq

/-- A layer that the scene waits for, and that waits itself. -/
structure Waits (p : ScenePlayer) (i : ℕ) : Prop where
  playing : p.playing = true
  sync : i ∈ p.syncLayers
  state : p.layerState i = .waiting

namespace Waits

variable {p} {i : ℕ} (h : p.Waits i) (nowMs : Millis)

include h

theorem lt : i < p.lCount := List.mem_range.mp (List.mem_of_mem_filter h.sync)

theorem nextPlace : p.nextPlace i nowMs = p.place i := by
  unfold ScenePlayer.nextPlace
  rw [if_pos (by rw [h.state]; decide)]

theorem tick :
    (∀ j, (p.tick nowMs).place j = (p.atBarrier nowMs).place j) ∧
      (p.tick nowMs).playing = true := by
  refine p.tick_before_barrier h.playing h.sync ?_
  obtain ⟨q, -, -, hplace⟩ := p.place_atBarrier nowMs h.lt
  rw [h.nextPlace] at hplace
  intro hdone
  have hstate : (p.atBarrier nowMs).layerState i = _ := congrArg (fun x => x.1) hplace
  rw [hdone] at hstate
  split_ifs at hstate
  have hwait : LayerState.done = p.layerState i := hstate
  rw [h.state] at hwait
  cases hwait

theorem stays (hstate : (p.tick nowMs).layerState i = .waiting) : (p.tick nowMs).Waits i where
  playing := (h.tick nowMs).2
  sync := by
    rw [(plays_tick p nowMs).syncLayers]
    exact h.sync
  state := hstate

/-- Another layer that does not wait has had its turn. -/
theorem tick_other {j : ℕ} (hj : j < p.lCount) (hne : (p.nextPlace j nowMs).1 ≠ .waiting) :
    (p.tick nowMs).place j = p.nextPlace j nowMs := by
  obtain ⟨q, -, -, hplace⟩ := p.place_atBarrier nowMs hj
  rw [(h.tick nowMs).1 j, hplace, if_neg fun hready => hne hready.1]

/-- Another layer that waits goes on waiting or starts with its first step. -/
theorem tick_waiting {j : ℕ} (hj : j < p.lCount) (hwait : p.layerState j = .waiting) :
    (p.tick nowMs).layerState j = .waiting ∨ (p.tick nowMs).place j = (.running, 0, nowMs) := by
  obtain ⟨q, -, -, hplace⟩ := p.place_atBarrier nowMs hj
  have hnext : p.nextPlace j nowMs = p.place j := if_pos (by rw [hwait]; decide)
  rw [← (h.tick nowMs).1 j] at hplace
  split_ifs at hplace
  · exact Or.inr hplace
  · rw [hnext] at hplace
    exact Or.inl ((congrArg (fun x => x.1) hplace).trans hwait)

/-- A layer that still waits after a tick was not ready. -/
theorem exists_not_ready (hstate : (p.tick nowMs).layerState i = .waiting) :
    ∃ q, Plays p q ∧ WakesOnly (p.turned nowMs) q ∧ q.isReady i = false := by
  obtain ⟨q, hplays, hwakes, hplace⟩ := p.place_atBarrier nowMs h.lt
  refine ⟨q, hplays, hwakes, eq_false_of_ne_true fun hready => ?_⟩
  have hwait : (p.nextPlace i nowMs).1 = .waiting := by
    rw [h.nextPlace]
    exact h.state
  rw [if_pos ⟨hwait, hready⟩, ← (h.tick nowMs).1 i] at hplace
  have hrun : (p.tick nowMs).layerState i = .running := congrArg (fun x => x.1) hplace
  rw [hstate] at hrun
  cases hrun

theorem layerIndex_ne_none (hstate : (p.tick nowMs).layerState i = .waiting) :
    p.layerIndexForGroup (p.layers i).startAfterGroupId ≠ none := by
  obtain ⟨q, hplays, -, hready⟩ := h.exists_not_ready nowMs hstate
  intro hnone
  have hindex : q.layerIndexForGroup (q.layers i).startAfterGroupId = none := by
    rw [← hnone]
    unfold layerIndexForGroup
    rw [hplays.layers, hplays.lCount]
  rw [isReady, hindex] at hready
  cases hready

/-- After a tick no layer waits for what has happened. -/
theorem not_satisfied {j : ℕ} (hj : j < p.lCount)
    (hdep : p.layerIndexForGroup (p.layers i).startAfterGroupId = some j)
    (hstate : (p.tick nowMs).layerState i = .waiting)
    (hne : (p.tick nowMs).layerState j ≠ .waiting) :
    (p.tick nowMs).dependencySatisfied j (p.layers i).startAfterStepIndex = false := by
  obtain ⟨q, hplays, hwakes, hready⟩ := h.exists_not_ready nowMs hstate
  have hindex : q.layerIndexForGroup (q.layers i).startAfterGroupId = some j := by
    rw [← hdep]
    unfold layerIndexForGroup
    rw [hplays.layers, hplays.lCount]
  have hunready : q.dependencySatisfied j (p.layers i).startAfterStepIndex = false := by
    rw [isReady, hindex] at hready
    rw [← hplays.layers]
    exact hready
  by_cases hturn : (p.nextPlace j nowMs).1 = .waiting
  · -- it has just been woken itself
    have hwait : p.layerState j = .waiting := by
      unfold ScenePlayer.nextPlace at hturn
      split_ifs at hturn <;> exact hturn
    rcases h.tick_waiting nowMs hj hwait with hwait | hplace
    · exact absurd hwait hne
    · have hrun : (p.tick nowMs).layerState j = .running := congrArg (fun x => x.1) hplace
      have hfirst : (p.tick nowMs).currentStep j = 0 := congrArg (fun x => x.2.1) hplace
      simp [dependencySatisfied, hrun, hfirst]
  · have hafter := h.tick_other nowMs hj hturn
    have hturned := p.place_turned nowMs hj
    have hsame : q.place j = (p.tick nowMs).place j := by
      rw [hafter, ← hturned]
      refine hwakes j fun hwait => hturn ?_
      rw [← hturned]
      exact hwait
    have hq : q.layerState j = (p.tick nowMs).layerState j := congrArg (fun x => x.1) hsame
    have hq' : q.currentStep j = (p.tick nowMs).currentStep j := congrArg (fun x => x.2.1) hsame
    rw [dependencySatisfied, hq, hq'] at hunready
    exact hunready

end Waits

/-! ### A tick every millisecond -/

/-- The first `n` ticks after the start. -/
def everyMs (startMs : Millis) (n : ℕ) : List Millis :=
  (List.range n).map fun k => startMs + BitVec.ofNat 32 (k + 1)

def after (startMs : Millis) (n : ℕ) : ScenePlayer := p.run (everyMs startMs n)

theorem after_succ (startMs : Millis) (n : ℕ) :
    p.after startMs (n + 1) = (p.after startMs n).tick (startMs + BitVec.ofNat 32 (n + 1)) := by
  unfold after run everyMs
  rw [List.range_succ, List.map_append, List.foldl_append]
  rfl

theorem plays_after (startMs : Millis) (n : ℕ) : Plays p (p.after startMs n) := plays_run p _

theorem elapsed_after (startMs : Millis) (n k : ℕ) :
    startMs + BitVec.ofNat 32 (n + k) - (startMs + BitVec.ofNat 32 n) = BitVec.ofNat 32 k := by
  rw [BitVec.ofNat_add]
  bv_omega

/-- How long a layer is at a step. -/
def stepMs (j c : ℕ) : ℕ :=
  max (p.scaledDurationMs ((p.layers j).steps.getD c .zero).durationMs).toNat 1

/-- Where the turn leaves a layer that is at a step with an end. -/
theorem nextPlace_of_running {p q : ScenePlayer} (h : Plays p q) {j c : ℕ} {start : Millis}
    (hplace : q.place j = (.running, c, start))
    (hends : ((p.layers j).steps.getD c .zero).durationMs ≠ 0) (nowMs : Millis) :
    q.nextPlace j nowMs =
      if nowMs - start < p.scaledDurationMs ((p.layers j).steps.getD c .zero).durationMs then
        (.running, c, start)
      else if c + 1 < (p.layers j).steps.length then (.running, c + 1, nowMs)
      else if (p.layers j).isAsyncLayer then (.running, 0, nowMs)
      else (.done, c, start) := by
  have hstate : q.layerState j = .running := congrArg (fun x => x.1) hplace
  have hcurrent : q.currentStep j = c := congrArg (fun x => x.2.1) hplace
  have hstart : q.stepStartMs j = start := congrArg (fun x => x.2.2) hplace
  have hstep : q.step j = (p.layers j).steps.getD c .zero := by
    unfold step
    rw [h.layers, hcurrent]
  have hthreshold : q.threshold j =
      p.scaledDurationMs ((p.layers j).steps.getD c .zero).durationMs := by
    unfold threshold scaledDurationMs
    rw [hstep, h.speed]
  unfold nextPlace
  rw [hstate, hplace, hstep, hthreshold, hstart, hcurrent, h.layers]
  simp only [ne_eq, not_true, if_false, hends]

section

variable {p} {startMs : Millis} {i j N : ℕ}
  (hwaits : ∀ n ≤ N, (p.after startMs n).Waits i) (hj : j < p.lCount)

include hwaits hj

theorem stays_at_step {n c : ℕ}
    (hplace : (p.after startMs n).place j = (.running, c, startMs + BitVec.ofNat 32 n))
    (hends : ((p.layers j).steps.getD c .zero).durationMs ≠ 0) {k : ℕ} (hk : k < p.stepMs j c)
    (hN : n + k ≤ N) :
    (p.after startMs (n + k)).place j = (.running, c, startMs + BitVec.ofNat 32 n) := by
  induction k with
  | zero => exact hplace
  | succ k ih =>
      have hbefore := ih (by omega) (by omega)
      have hnext := nextPlace_of_running (p.plays_after startMs (n + k)) hbefore hends
        (startMs + BitVec.ofNat 32 (n + k + 1))
      rw [Nat.add_assoc, elapsed_after, if_pos] at hnext
      · rw [← Nat.add_assoc, after_succ]
        have hne : ((p.after startMs (n + k)).nextPlace j
            (startMs + BitVec.ofNat 32 (n + (k + 1)))).1 ≠ .waiting := by
          rw [hnext]
          simp
        exact ((hwaits (n + k) (by omega)).tick_other _
          ((p.plays_after startMs (n + k)).lCount ▸ hj) hne).trans hnext
      · rw [BitVec.lt_def, BitVec.toNat_ofNat]
        have hmod := Nat.mod_le (k + 1) (2 ^ 32)
        unfold stepMs at hk
        omega

/-- A step with an end is left in time. -/
theorem leaves_step {n c : ℕ}
    (hplace : (p.after startMs n).place j = (.running, c, startMs + BitVec.ofNat 32 n))
    (hends : ((p.layers j).steps.getD c .zero).durationMs ≠ 0) (hN : n + p.stepMs j c ≤ N) :
    (p.after startMs (n + p.stepMs j c)).place j =
      if c + 1 < (p.layers j).steps.length then
        (.running, c + 1, startMs + BitVec.ofNat 32 (n + p.stepMs j c))
      else if (p.layers j).isAsyncLayer then
        (.running, 0, startMs + BitVec.ofNat 32 (n + p.stepMs j c))
      else (.done, c, startMs + BitVec.ofNat 32 n) := by
  have hpos : 1 ≤ p.stepMs j c := le_max_right _ _
  have hlt := (p.scaledDurationMs ((p.layers j).steps.getD c .zero).durationMs).isLt
  obtain ⟨k, hk⟩ := Nat.exists_eq_add_of_le' hpos
  have hbefore := stays_at_step hwaits hj hplace hends (k := k) (by omega) (by omega)
  have hnext := nextPlace_of_running (p.plays_after startMs (n + k)) hbefore hends
    (startMs + BitVec.ofNat 32 (n + (k + 1)))
  rw [elapsed_after, if_neg] at hnext
  · rw [hk, ← Nat.add_assoc, after_succ, Nat.add_assoc]
    have hne : ((p.after startMs (n + k)).nextPlace j
        (startMs + BitVec.ofNat 32 (n + (k + 1)))).1 ≠ .waiting := by
      rw [hnext]
      split_ifs <;> simp
    exact ((hwaits (n + k) (by omega)).tick_other _
      ((p.plays_after startMs (n + k)).lCount ▸ hj) hne).trans hnext
  · rw [BitVec.lt_def, BitVec.toNat_ofNat]
    unfold stepMs at hk
    rw [Nat.mod_eq_of_lt (by omega)]
    omega

/-- The time until a layer comes to a step. -/
theorem reaches_step {n c : ℕ}
    (hplace : (p.after startMs n).place j = (.running, 0, startMs + BitVec.ofNat 32 n))
    (hends : ∀ k < c, ((p.layers j).steps.getD k .zero).durationMs ≠ 0)
    (hc : c < (p.layers j).steps.length) (hN : n + ∑ k ∈ Finset.range c, p.stepMs j k ≤ N) :
    (p.after startMs (n + ∑ k ∈ Finset.range c, p.stepMs j k)).place j =
      (.running, c, startMs + BitVec.ofNat 32 (n + ∑ k ∈ Finset.range c, p.stepMs j k)) := by
  induction c with
  | zero => exact hplace
  | succ c ih =>
      rw [Finset.sum_range_succ, ← Nat.add_assoc] at hN ⊢
      have hbefore := ih (fun k hk => hends k (by omega)) (by omega) (by omega)
      rw [leaves_step hwaits hj hbefore (hends c (by omega)) hN, if_pos hc]

end

/-! ### References -/

theorem findGroup_of_mem {layers : List SceneLayer} (hnodup : (layers.map (·.groupId)).Nodup)
    {layer : SceneLayer} (h : layer ∈ layers) : findGroup layers layer.groupId = some layer := by
  unfold findGroup
  cases hfind : layers.find? (·.groupId = layer.groupId) with
  | none =>
      have hnone := List.find?_eq_none.mp hfind layer h
      simp at hnone
  | some t =>
      have hgroup : t.groupId = layer.groupId := by simpa using List.find?_some hfind
      rw [List.inj_on_of_nodup_map hnodup (List.mem_of_find?_eq_some hfind) h hgroup]

/-- The least number of hops within which the chain of references from a layer ends. -/
noncomputable def hops (layers : List SceneLayer) (layer : SceneLayer) : ℕ :=
  sInf {n | chainEnds layers n layer = true}

theorem hops_lt {layers : List SceneLayer} {layer next : SceneLayer} {n : ℕ}
    (hends : chainEnds layers n layer = true) (hstart : layer.startAfterGroupId ≠ 0)
    (hfind : findGroup layers layer.startAfterGroupId = some next) :
    hops layers next < hops layers layer := by
  have hmem : chainEnds layers (hops layers layer) layer = true :=
    Nat.sInf_mem (s := {n | chainEnds layers n layer = true}) ⟨n, hends⟩
  cases hm : hops layers layer with
  | zero =>
      rw [hm] at hmem
      cases hmem
  | succ m =>
      rw [hm, chainEnds, if_neg hstart, hfind] at hmem
      exact Nat.lt_succ_of_le (Nat.sInf_le hmem)

/-- A player at the start of its scene. -/
structure Starts (layers : List SceneLayer) (startMs : Millis) (p : ScenePlayer) : Prop where
  count : p.lCount = layers.length
  layer : ∀ (i : ℕ) (hi : i < layers.length), p.layers i = layers[i]
  playing : p.playing = true
  place : ∀ i < p.lCount, p.place i = (armedState (p.layers i), 0, startMs)

theorem starts_loadAndPlay (env : SceneProviders) {layers : List SceneLayer}
    (hlen : layers.length ≤ sceneMaxLayers) (header : Header) (startMs : Millis) :
    Starts layers startMs (p.loadAndPlay env layers header startMs) := by
  have hplays := plays_armLayers ((p.withLayers layers).enterScene env header) startMs true
  have hcount : (p.withLayers layers).lCount = layers.length := min_eq_left hlen
  rw [loadAndPlay_eq]
  refine ⟨hplays.lCount.trans hcount, fun i hi => ?_, ?_, fun i hi => ?_⟩
  · obtain ⟨_, hlayer⟩ := p.withLayers_layer hlen (hcount ▸ hi)
    rw [hplays.layers]
    exact hlayer
  · exact List.foldlRecOn (motive := fun q : ScenePlayer => q.playing = true) _ _ rfl
      fun q hq j _ => ((touches_fireArmed q j startMs true).playing).trans hq
  · rw [hplays.lCount] at hi
    have harmed : ((p.withLayers layers).enterScene env header).isArmed true i = true := by
      simp [isArmed, hi]
    have hfire : (((p.withLayers layers).enterScene env header).armLayers startMs true).place i =
        (((p.withLayers layers).enterScene env header).armed startMs true).place i := by
      refine List.foldlRecOn (motive := fun q : ScenePlayer => q.place i = _) _ _ rfl ?_
      intro q hq j _
      rw [← hq]
      unfold fireArmed
      split_ifs
      · exact (fires_fireStep q j startMs).place i
      · rfl
    rw [hfire, hplays.layers]
    simp only [place, armed, harmed, if_true]

namespace Starts

variable {p} {layers : List SceneLayer} {startMs : Millis} (h : Starts layers startMs p)

include h

theorem mem {i : ℕ} (hi : i < p.lCount) : p.layers i ∈ layers := by
  rw [h.count] at hi
  rw [h.layer i hi]
  exact List.getElem_mem hi

theorem exists_index {layer : SceneLayer} (hl : layer ∈ layers) :
    ∃ i < p.lCount, p.layers i = layer := by
  obtain ⟨i, hi, rfl⟩ := List.getElem_of_mem hl
  exact ⟨i, h.count ▸ hi, h.layer i hi⟩

theorem findGroup_of_index (hnodup : (layers.map (·.groupId)).Nodup) {g : Byte} {j : ℕ}
    (hj : p.layerIndexForGroup g = some j) :
    j < p.lCount ∧ findGroup layers g = some (p.layers j) := by
  have hlt : j < p.lCount := List.mem_range.mp (List.mem_of_find?_eq_some hj)
  have hgroup : (p.layers j).groupId = g := by simpa using List.find?_some hj
  refine ⟨hlt, ?_⟩
  rw [← hgroup]
  exact findGroup_of_mem hnodup (h.mem hlt)

theorem index_of_findGroup (hnodup : (layers.map (·.groupId)).Nodup) {g : Byte} {t : SceneLayer}
    (ht : findGroup layers g = some t) :
    ∃ j < p.lCount, p.layerIndexForGroup g = some j ∧ p.layers j = t := by
  obtain ⟨i, hi, rfl⟩ := h.exists_index (List.mem_of_find?_eq_some ht)
  have hgroup : (p.layers i).groupId = g := by simpa using List.find?_some ht
  cases hindex : p.layerIndexForGroup g with
  | none =>
      have hnone := List.find?_eq_none.mp hindex i (List.mem_range.mpr hi)
      simp [hgroup] at hnone
  | some j =>
      obtain ⟨hj, hfind⟩ := h.findGroup_of_index hnodup hindex
      rw [ht, Option.some_inj] at hfind
      exact ⟨j, hj, rfl, hfind.symm⟩

end Starts

/-! ### Layers that are woken -/

/-- A step is over within its duration and a millisecond. -/
def layerMs (j : ℕ) : ℕ :=
  ((p.layers j).steps.map fun s => (p.scaledDurationMs s.durationMs).toNat + 1).sum

/-- The time that all steps of all layers take. -/
def sceneMs : ℕ := ∑ j ∈ Finset.range p.lCount, p.layerMs j

theorem sum_stepMs_le {j c : ℕ} (hc : c ≤ (p.layers j).steps.length) :
    ∑ k ∈ Finset.range c, p.stepMs j k ≤ p.layerMs j := by
  have hall : p.layerMs j = ∑ k ∈ Finset.range (p.layers j).steps.length,
      ((p.scaledDurationMs ((p.layers j).steps.getD k .zero).durationMs).toNat + 1) := by
    unfold layerMs
    rw [Finset.sum_range, ← Fin.sum_univ_fun_getElem]
    refine Finset.sum_congr rfl fun k _ => ?_
    rw [List.getD_eq_getElem?_getD, List.getElem?_eq_getElem k.isLt]
    rfl
  rw [hall]
  refine (Finset.sum_le_sum fun k _ => ?_).trans
    (Finset.sum_le_sum_of_subset (Finset.range_subset_range.mpr hc))
  exact max_le (Nat.le_succ _) (Nat.le_add_left 1 _)

/-- The layers that a layer waits for, directly or not, are among those with fewer hops. -/
noncomputable def before (layers : List SceneLayer) (i : ℕ) : Finset ℕ :=
  (Finset.range p.lCount).filter fun l => hops layers (p.layers l) < hops layers (p.layers i)

theorem sum_before_add_le (layers : List SceneLayer) {i j : ℕ} (hj : j < p.lCount)
    (hlt : hops layers (p.layers j) < hops layers (p.layers i)) :
    ∑ l ∈ p.before layers j, p.layerMs l + p.layerMs j ≤ ∑ l ∈ p.before layers i, p.layerMs l := by
  have hnot : j ∉ p.before layers j := by
    intro hmem
    exact lt_irrefl _ (Finset.mem_filter.mp hmem).2
  rw [add_comm, ← Finset.sum_insert hnot]
  refine Finset.sum_le_sum_of_subset fun l hl => ?_
  rcases Finset.mem_insert.mp hl with rfl | hl
  · exact Finset.mem_filter.mpr ⟨Finset.mem_range.mpr hj, hlt⟩
  · obtain ⟨hl, hops⟩ := Finset.mem_filter.mp hl
    exact Finset.mem_filter.mpr ⟨hl, hops.trans hlt⟩

theorem sum_before_le (layers : List SceneLayer) {i : ℕ} (hi : i < p.lCount) :
    ∑ l ∈ p.before layers i, p.layerMs l + p.layerMs i ≤ p.sceneMs := by
  have hnot : i ∉ p.before layers i := by
    intro hmem
    exact lt_irrefl _ (Finset.mem_filter.mp hmem).2
  rw [add_comm, ← Finset.sum_insert hnot]
  refine Finset.sum_le_sum_of_subset fun l hl => ?_
  rcases Finset.mem_insert.mp hl with rfl | hl
  · exact Finset.mem_range.mpr hi
  · exact (Finset.mem_filter.mp hl).1

theorem not_satisfied_after {startMs : Millis} {i j N : ℕ}
    (hwaits : ∀ n ≤ N, (p.after startMs n).Waits i) (hj : j < p.lCount)
    (hdep : p.layerIndexForGroup (p.layers i).startAfterGroupId = some j) {n : ℕ} (hpos : 0 < n)
    (hn : n ≤ N) (hne : (p.after startMs n).layerState j ≠ .waiting) :
    (p.after startMs n).dependencySatisfied j (p.layers i).startAfterStepIndex = false := by
  obtain ⟨m, rfl⟩ := Nat.exists_eq_succ_of_ne_zero hpos.ne'
  have hplays := p.plays_after startMs m
  have hstate := (hwaits (m + 1) hn).state
  have hindex : (p.after startMs m).layerIndexForGroup
      ((p.after startMs m).layers i).startAfterGroupId = some j := by
    rw [← hdep]
    unfold layerIndexForGroup
    rw [hplays.layers, hplays.lCount]
  rw [after_succ] at hstate hne ⊢
  rw [← hplays.layers]
  exact (hwaits m (by omega)).not_satisfied _ (hplays.lCount ▸ hj) hindex hstate hne

namespace Starts

variable {p} {r : SceneRecord} {startMs : Millis} (h : Starts r.layers startMs p)
  (hr : r.WellFormed)

include h

theorem after_zero {i : ℕ} (hi : i < p.lCount) :
    (p.after startMs 0).place i = (armedState (p.layers i), 0, startMs) := h.place i hi

/-- A layer that waits at the start and at all later times up to some time. -/
theorem waits {i N : ℕ} (hi : i < p.lCount) (hen : (p.layers i).disabled = false)
    (hwait : ∀ n ≤ N, (p.after startMs n).layerState i = .waiting) :
    (p.layers i).startAfterGroupId ≠ 0 ∧ ∀ n ≤ N, (p.after startMs n).Waits i := by
  have harmed : armedState (p.layers i) = .waiting :=
    (congrArg (fun x => x.1) (h.after_zero hi)).symm.trans (hwait 0 (Nat.zero_le N))
  have hstart : (p.layers i).startAfterGroupId ≠ 0 := by
    unfold armedState at harmed
    split_ifs at harmed with hdone hnone
    exact hnone
  have hsync : i ∈ p.syncLayers := by
    refine List.mem_filter.mpr ⟨List.mem_range.mpr hi, ?_⟩
    have hasync : (p.layers i).isAsyncLayer = false := by
      rw [SceneLayer.isAsyncLayer, decide_eq_false hstart, Bool.and_false]
    simp [hen, hasync]
  refine ⟨hstart, fun n hn => ?_⟩
  induction n with
  | zero => exact ⟨h.playing, hsync, hwait 0 hn⟩
  | succ n ih =>
      have hstate := hwait (n + 1) hn
      rw [after_succ] at hstate ⊢
      exact (ih (by omega)).stays _ hstate

/-- A layer that has left its waiting state while another one waits has begun with its first
step. -/
theorem exists_begin {i j N : ℕ} (hwaits : ∀ n ≤ N, (p.after startMs n).Waits i) (hj : j < p.lCount)
    (hsteps : (p.layers j).steps ≠ []) (hen : (p.layers j).disabled = false)
    (hleft : ∃ n ≤ N, (p.after startMs n).layerState j ≠ .waiting) :
    ∃ n ≤ N, (∀ m < n, (p.after startMs m).layerState j = .waiting) ∧
      (p.after startMs n).place j = (.running, 0, startMs + BitVec.ofNat 32 n) := by
  classical
  have hex : ∃ n, n ≤ N ∧ (p.after startMs n).layerState j ≠ .waiting := hleft
  obtain ⟨hn, hstate⟩ := Nat.find_spec hex
  have hmin : ∀ m < Nat.find hex, (p.after startMs m).layerState j = .waiting := by
    intro m hm
    have hnot := Nat.find_min hex hm
    rw [not_and, not_not] at hnot
    exact hnot (hm.le.trans hn)
  generalize Nat.find hex = n at hn hstate hmin
  refine ⟨n, hn, hmin, ?_⟩
  cases n with
  | zero =>
      have hplace := h.after_zero hj
      have hfirst : (p.after startMs 0).layerState j = armedState (p.layers j) :=
        congrArg (fun x => x.1) hplace
      have harmed : armedState (p.layers j) ≠ .waiting := hfirst ▸ hstate
      rw [hplace, BitVec.add_zero]
      unfold armedState at harmed ⊢
      split_ifs at harmed ⊢ with hdone
      · rcases hdone with hdone | hdone
        · exact absurd hdone hsteps
        · rw [hen] at hdone
          cases hdone
      · rfl
      · exact absurd rfl harmed
  | succ n =>
      have hlast := hmin n (Nat.lt_succ_self n)
      rw [after_succ] at hstate ⊢
      rcases (hwaits n (by omega)).tick_waiting (startMs + BitVec.ofNat 32 (n + 1))
        ((p.plays_after startMs n).lCount ▸ hj) hlast with hwait | hplace
      · exact absurd hwait hstate
      · exact hplace

end Starts

/-- The step of a layer after which another layer goes on. -/
def awaitedStep (layer t : SceneLayer) : ℕ :=
  if layer.startAfterStepIndex = sceneNoStepIndex then t.steps.length - 1
  else layer.startAfterStepIndex.toNat

section

variable {layers : List SceneLayer} {layer t : SceneLayer} (hlayer : layer.WellFormed layers)
  (ht : t.WellFormed layers) (hfind : findGroup layers layer.startAfterGroupId = some t)

include hlayer ht hfind

theorem awaitedStep_lt : awaitedStep layer t < t.steps.length := by
  have hpos := List.length_pos_iff.mpr ht.steps_ne
  unfold awaitedStep
  split_ifs with hnone
  · omega
  · obtain ⟨t', ht', hlt⟩ := hlayer.waitsForStep hnone
    rw [hfind, Option.some_inj] at ht'
    rw [ht']
    exact hlt

theorem ends_of_awaited (hstart : layer.startAfterGroupId ≠ 0) {k : ℕ}
    (hk : k ≤ awaitedStep layer t) : (t.steps.getD k .zero).durationMs ≠ 0 := by
  have hlt := awaitedStep_lt hlayer ht hfind
  have hk' : k < t.steps.length := by omega
  rw [List.getD_eq_getElem?_getD, List.getElem?_eq_getElem hk', Option.getD_some]
  by_cases hlast : k = t.steps.length - 1
  · intro hzero
    have hend := hlayer.waitsForEnd
    have hidx : awaitedStep layer t = k := by omega
    unfold waitsForEver at hend
    rw [if_neg hstart, hfind] at hend
    change (decide ((t.steps[awaitedStep layer t]?.map (·.durationMs)) = some 0) &&
      decide (awaitedStep layer t = t.steps.length - 1)) = false at hend
    rw [hidx, List.getElem?_eq_getElem hk', Option.map_some, hzero, decide_eq_true rfl,
      decide_eq_true hlast] at hend
    cases hend
  · have hmid := ht.lasts
    rw [endsMidway, List.any_eq_false] at hmid
    have hmem : t.steps[k] ∈ t.steps.dropLast := by
      have hk'' : k < t.steps.dropLast.length := by
        rw [List.length_dropLast]
        omega
      rw [← List.getElem_dropLast hk'']
      exact List.getElem_mem hk''
    simpa using hmid _ hmem

/-- What a layer is told to wait for does not come if and only if that layer loops on its own. -/
theorem waitsForLoop_iff : layer.waitsForLoop layers = true ↔
    t.isAsyncLayer = true ∧ t.disabled = false ∧ awaitedStep layer t + 1 = t.steps.length := by
  have hlt := awaitedStep_lt hlayer ht hfind
  have hend : layer.startAfterStepIndex = sceneNoStepIndex ∨
      t.steps.length ≤ layer.startAfterStepIndex.toNat + 1 ↔
      awaitedStep layer t + 1 = t.steps.length := by
    unfold awaitedStep at hlt ⊢
    split_ifs at hlt ⊢ with hnone
    · exact iff_of_true (Or.inl hnone) (by omega)
    · exact ⟨fun hor => by have hle := hor.resolve_left hnone; omega, fun heq => Or.inr (by omega)⟩
  unfold SceneLayer.waitsForLoop
  rw [hfind]
  simp only [Bool.and_eq_true, Bool.or_eq_true, decide_eq_true_eq, Bool.not_eq_true', hend,
    and_assoc]

end

namespace Starts

variable {p} {r : SceneRecord} {startMs : Millis} (h : Starts r.layers startMs p)
  (hr : r.WellFormed)

include h hr

/-- A layer is woken once the layers that it waits for have had the time of their steps. -/
theorem leaves_waiting
    (hfree : ∀ layer ∈ r.layers, layer.disabled = false → layer.waitsForLoop r.layers = false)
    {i : ℕ} (hi : i < p.lCount) (hen : (p.layers i).disabled = false) :
    ∃ n ≤ 1 + ∑ l ∈ p.before r.layers i, p.layerMs l,
      (p.after startMs n).layerState i ≠ .waiting := by
  induction hops : hops r.layers (p.layers i) using Nat.strong_induction_on generalizing i with
  | _ m ih =>
  by_contra hnever
  push Not at hnever
  obtain ⟨hstart, hwaits⟩ := h.waits hi hen hnever
  have hlayer := hr.layer _ (h.mem hi)
  cases hdep : p.layerIndexForGroup (p.layers i).startAfterGroupId with
  | none =>
      have hone := (hwaits 1 (Nat.le_add_right 1 _)).state
      rw [after_succ] at hone
      exact (hwaits 0 (Nat.zero_le _)).layerIndex_ne_none _ hone hdep
  | some j =>
      obtain ⟨hj, hfind⟩ := h.findGroup_of_index hr.groups hdep
      have ht := hr.layer _ (h.mem hj)
      have hhops := hops_lt hlayer.chain hstart hfind
      have hsum := p.sum_before_add_le r.layers hj hhops
      cases hdis : (p.layers j).disabled with
      | true =>
          have hplace := h.after_zero hj
          have harmed : armedState (p.layers j) = .done := by simp [armedState, hdis]
          rw [harmed] at hplace
          have hnext : (p.after startMs 0).nextPlace j (startMs + BitVec.ofNat 32 1) =
              (p.after startMs 0).place j := by
            have hstate : (p.after startMs 0).layerState j = .done := congrArg (fun x => x.1) hplace
            exact if_pos (by rw [hstate]; decide)
          have hother := (hwaits 0 (Nat.zero_le _)).tick_other (startMs + BitVec.ofNat 32 1) hj
            (by rw [hnext, hplace]; simp)
          have hone : (p.after startMs 1).layerState j = .done := by
            rw [after_succ]
            exact congrArg (fun x => x.1) (hother.trans (hnext.trans hplace))
          have hnot := not_satisfied_after p hwaits hj hdep Nat.one_pos (Nat.le_add_right 1 _)
            (by rw [hone]; simp)
          simp [dependencySatisfied, hone] at hnot
      | false =>
          have hleft := ih _ (hops ▸ hhops) hj hdis rfl
          have hwaits' : ∀ n ≤ 1 + ∑ l ∈ p.before r.layers j, p.layerMs l,
              (p.after startMs n).Waits i := fun n hn => hwaits n (by omega)
          obtain ⟨n, hn, -, hbegin⟩ := h.exists_begin hwaits' hj ht.steps_ne hdis hleft
          have hlt := awaitedStep_lt hlayer ht hfind
          have hends : ∀ k ≤ awaitedStep (p.layers i) (p.layers j),
              ((p.layers j).steps.getD k .zero).durationMs ≠ 0 :=
            fun k hk => ends_of_awaited hlayer ht hfind hstart hk
          have hloop := waitsForLoop_iff hlayer ht hfind
          rw [hfree _ (h.mem hi) hen] at hloop
          have hlast : (p.layers i).startAfterStepIndex = sceneNoStepIndex →
              awaitedStep (p.layers i) (p.layers j) + 1 = (p.layers j).steps.length := by
            intro hnone
            rw [awaitedStep, if_pos hnone] at hlt ⊢
            omega
          have hidx : (p.layers i).startAfterStepIndex ≠ sceneNoStepIndex →
              (p.layers i).startAfterStepIndex.toNat = awaitedStep (p.layers i) (p.layers j) :=
            fun hsome => (if_neg hsome).symm
          generalize awaitedStep (p.layers i) (p.layers j) = c at hlt hends hloop hlast hidx
          have hspan := p.sum_stepMs_le (j := j) (c := c + 1) hlt
          rw [Finset.sum_range_succ] at hspan
          have hreach := reaches_step hwaits hj hbegin (fun k hk => hends k hk.le) hlt (by omega)
          have hleave := leaves_step hwaits hj hreach (hends c le_rfl) (by omega)
          have hpos : 0 < p.stepMs j c := Nat.lt_of_lt_of_le Nat.one_pos (le_max_right _ _)
          generalize hm : n + ∑ k ∈ Finset.range c, p.stepMs j k + p.stepMs j c = m' at hleave
          have hunsatisfied := not_satisfied_after p hwaits hj hdep (n := m') (by omega) (by omega)
          split_ifs at hleave with hnext hasync
          · have hstate : (p.after startMs m').layerState j = .running :=
              congrArg (fun x => x.1) hleave
            have hcurrent : (p.after startMs m').currentStep j = c + 1 :=
              congrArg (fun x => x.2.1) hleave
            have hsome : (p.layers i).startAfterStepIndex ≠ sceneNoStepIndex := fun hnone => by
              have hend := hlast hnone
              omega
            have hnot := hunsatisfied (by rw [hstate]; simp)
            simp [dependencySatisfied, hcurrent, hidx hsome, hsome] at hnot
          · exact absurd (hloop.mpr ⟨hasync, hdis, by omega⟩) (by simp)
          · have hstate : (p.after startMs m').layerState j = .done :=
              congrArg (fun x => x.1) hleave
            have hnot := hunsatisfied (by rw [hstate]; simp)
            simp [dependencySatisfied, hstate] at hnot

end Starts

/-- A layer that loops on its own is at one of its steps after each turn. -/
theorem nextPlace_of_loop {i c : ℕ} {start : Millis} (hplace : p.place i = (.running, c, start))
    (hasync : (p.layers i).isAsyncLayer = true) (hc : c < (p.layers i).steps.length)
    (nowMs : Millis) :
    ∃ c' start', p.nextPlace i nowMs = (.running, c', start') ∧ c' < (p.layers i).steps.length := by
  have hcurrent : p.currentStep i = c := congrArg (fun x => x.2.1) hplace
  unfold nextPlace
  split_ifs with hstate hzero hwithin hnext
  · exact ⟨c, start, hplace, hc⟩
  · exact ⟨c, start, hplace, hc⟩
  · exact ⟨c, start, hplace, hc⟩
  · exact ⟨_, _, rfl, hnext⟩
  · exact ⟨0, _, rfl, Nat.zero_lt_of_lt hc⟩

/-- As long as the layer that it waits for loops, a layer waits for its end. -/
theorem Waits.tick_loop {i j c : ℕ} {start : Millis} (h : p.Waits i) (hj : j < p.lCount)
    (hdep : p.layerIndexForGroup (p.layers i).startAfterGroupId = some j)
    (hasync : (p.layers j).isAsyncLayer = true) (hplace : p.place j = (.running, c, start))
    (hc : c < (p.layers j).steps.length)
    (hlast : (p.layers i).startAfterStepIndex = sceneNoStepIndex ∨
      (p.layers j).steps.length ≤ (p.layers i).startAfterStepIndex.toNat + 1) (nowMs : Millis) :
    (p.tick nowMs).Waits i ∧ ∃ c' start', (p.tick nowMs).place j = (.running, c', start') ∧
      c' < (p.layers j).steps.length := by
  obtain ⟨c', start', hnext, hc'⟩ := p.nextPlace_of_loop hplace hasync hc nowMs
  have hne : (p.nextPlace j nowMs).1 ≠ .waiting := by
    rw [hnext]
    simp
  refine ⟨h.stays nowMs ?_, c', start', (h.tick_other nowMs hj hne).trans hnext, hc'⟩
  obtain ⟨q, hplays, hwakes, hown⟩ := p.place_atBarrier nowMs h.lt
  have hturned := p.place_turned nowMs hj
  have hq : q.place j = (.running, c', start') := by
    rw [← hnext, ← hturned]
    refine hwakes j fun hwait => hne ?_
    rw [← hturned]
    exact hwait
  have hstate : q.layerState j = .running := congrArg (fun x => x.1) hq
  have hcurrent : q.currentStep j = c' := congrArg (fun x => x.2.1) hq
  have hindex : q.layerIndexForGroup (q.layers i).startAfterGroupId = some j := by
    rw [← hdep]
    unfold layerIndexForGroup
    rw [hplays.layers, hplays.lCount]
  have hready : q.isReady i = false := by
    rw [isReady, hindex, hplays.layers]
    rcases hlast with hnone | hlast
    · simp [dependencySatisfied, hstate, hnone]
    · have hle : c' ≤ (p.layers i).startAfterStepIndex.toNat := by omega
      simp [dependencySatisfied, hstate, hcurrent, hle]
  have hstay : (p.atBarrier nowMs).place i = p.place i := by
    rw [hown, if_neg (by rw [hready]; simp), h.nextPlace]
  exact (congrArg (fun x => x.1) (((h.tick nowMs).1 i).trans hstay)).trans h.state

namespace Starts

variable {p} {r : SceneRecord} {startMs : Millis} (h : Starts r.layers startMs p)
  (hr : r.WellFormed)

include h hr

theorem waits_forever {i : ℕ} (hi : i < p.lCount) (hen : (p.layers i).disabled = false)
    (hloop : (p.layers i).waitsForLoop r.layers = true) (n : ℕ) :
    (p.after startMs n).layerState i = .waiting := by
  have hlayer := hr.layer _ (h.mem hi)
  cases hfind : findGroup r.layers (p.layers i).startAfterGroupId with
  | none =>
      rw [SceneLayer.waitsForLoop, hfind] at hloop
      cases hloop
  | some t =>
      obtain ⟨j, hj, hdep, hjt⟩ := h.index_of_findGroup hr.groups hfind
      have ht := hr.layer _ (h.mem hj)
      rw [SceneLayer.waitsForLoop, hfind, ← hjt] at hloop
      simp only [Bool.and_eq_true, Bool.or_eq_true, decide_eq_true_eq, Bool.not_eq_true'] at hloop
      obtain ⟨⟨hasync, hdis⟩, hlast⟩ := hloop
      have hgroup : t.groupId = (p.layers i).startAfterGroupId := by
        simpa using List.find?_some hfind
      have hstart : (p.layers i).startAfterGroupId ≠ 0 := by
        rw [← hgroup, ← hjt]
        exact ht.group_pos
      have hfree : (p.layers j).startAfterGroupId = 0 := by
        rw [SceneLayer.isAsyncLayer, Bool.and_eq_true, decide_eq_true_eq, decide_eq_true_eq]
          at hasync
        exact hasync.2
      have hwait : armedState (p.layers i) = .waiting := by
        rw [armedState, if_neg (by simp [hlayer.steps_ne, hen]), if_neg hstart]
      have hrun : armedState (p.layers j) = .running := by
        simp [armedState, ht.steps_ne, hdis, hfree]
      have hall : (p.after startMs n).Waits i ∧ ∃ c start,
          (p.after startMs n).place j = (.running, c, start) ∧ c < (p.layers j).steps.length := by
        induction n with
        | zero =>
            have hsync : i ∈ p.syncLayers := by
              refine List.mem_filter.mpr ⟨List.mem_range.mpr hi, ?_⟩
              have hsync : (p.layers i).isAsyncLayer = false := by
                rw [SceneLayer.isAsyncLayer, decide_eq_false hstart, Bool.and_false]
              simp [hen, hsync]
            refine ⟨⟨h.playing, hsync, ?_⟩, 0, startMs, ?_, List.length_pos_iff.mpr ht.steps_ne⟩
            · exact (congrArg (fun x => x.1) (h.after_zero hi)).trans hwait
            · rw [h.after_zero hj, hrun]
        | succ n ih =>
            obtain ⟨hwaits, c, start, hplace, hc⟩ := ih
            have hplays := p.plays_after startMs n
            rw [after_succ, ← hplays.layers]
            refine hwaits.tick_loop _ (hplays.lCount ▸ hj) ?_ ?_ hplace ?_ ?_ _
            · rw [← hdep]
              unfold layerIndexForGroup
              rw [hplays.layers, hplays.lCount]
            · rw [hplays.layers]
              exact hasync
            · rw [hplays.layers]
              exact hc
            · rw [hplays.layers]
              exact hlast
      exact hall.1.state

end Starts

/-- Every enabled layer of an accepted scene leaves its waiting state within the time that all
steps take if and only if none waits for the end of an enabled layer that loops on its own. -/
theorem leavesWaiting_iff {fuel : ℕ} {json : Text} {r : SceneRecord}
    (hparse : parseScene fuel json = .ok r) (p : ScenePlayer) (env : SceneProviders)
    (header : Header) (startMs : Millis) :
    (∀ (i : ℕ) (hi : i < r.layers.length), r.layers[i].disabled = false →
      ∃ n ≤ (p.loadAndPlay env r.layers header startMs).sceneMs,
        ((p.loadAndPlay env r.layers header startMs).run (everyMs startMs n)).layerState i ≠
          .waiting) ↔
      ∀ layer ∈ r.layers, layer.disabled = false → layer.waitsForLoop r.layers = false := by
  have hr := parseScene_wellFormed hparse
  have h := starts_loadAndPlay p env hr.layers_le header startMs
  generalize p.loadAndPlay env r.layers header startMs = q at h
  constructor
  · intro hleaves layer hmem hen
    obtain ⟨i, hi, rfl⟩ := List.getElem_of_mem hmem
    refine eq_false_of_ne_true fun hloop => ?_
    obtain ⟨n, -, hstate⟩ := hleaves i hi hen
    rw [← h.layer i hi] at hen hloop
    exact hstate (h.waits_forever hr (h.count.symm ▸ hi) hen hloop n)
  · intro hfree i hi hen
    have hlt : i < q.lCount := h.count.symm ▸ hi
    rw [← h.layer i hi] at hen
    obtain ⟨n, hn, hstate⟩ := h.leaves_waiting hr hfree hlt hen
    have hsum := q.sum_before_le r.layers hlt
    have hsteps := List.length_pos_iff.mpr (hr.layer _ (h.mem hlt)).steps_ne
    have hone : 1 ≤ q.layerMs i := by
      have hfirst := q.sum_stepMs_le (j := i) (c := 1) hsteps
      rw [Finset.sum_range_one] at hfirst
      exact (le_max_right _ _).trans hfirst
    exact ⟨n, by omega, hstate⟩

/-- The second layer waits for the first one, which loops on its own. -/
def loopJson : Text :=
  bytes "\x7b\"name\":\"s\",\"layers\":[\x7b\"group\":\"a\",\"async\":true," ++
    bytes "\"sequence\":[\x7b\"duration\":16\x7d]\x7d,\x7b\"group\":\"b\"," ++
    bytes "\"startAfter\":\"a\",\"sequence\":[\x7b\"duration\":16\x7d]\x7d]\x7d"

theorem loopJson_leavesWaiting_iff : ∃ r, parseScene 300 loopJson = .ok r ∧
    ((∀ (i : ℕ) (hi : i < r.layers.length), r.layers[i].disabled = false →
      ∃ n ≤ ((init pairScene).loadAndPlay pairProviders r.layers (plainHeader true 1) 0).sceneMs,
        (((init pairScene).loadAndPlay pairProviders r.layers (plainHeader true 1) 0).run
          (everyMs 0 n)).layerState i ≠ .waiting) ↔
      ∀ layer ∈ r.layers, layer.disabled = false → layer.waitsForLoop r.layers = false) := by
  have hsome : (parseScene 300 loopJson).toOption.isSome = true := by decide +kernel
  cases hparse : parseScene 300 loopJson with
  | error stop =>
      rw [hparse] at hsome
      cases hsome
  | ok r =>
      exact ⟨r, rfl, leavesWaiting_iff hparse (init pairScene) pairProviders (plainHeader true 1) 0⟩

/-- The second layer never starts. -/
theorem loopJson_waits : ∃ r, parseScene 300 loopJson = .ok r ∧
    ∃ hi : 1 < r.layers.length, r.layers[1].disabled = false ∧ ∀ n,
      (((init pairScene).loadAndPlay pairProviders r.layers (plainHeader true 1) 0).run
        (everyMs 0 n)).layerState 1 = .waiting := by
  have hseen : (parseScene 300 loopJson).toOption.map (fun r =>
      r.layers.map fun l => (l.disabled, l.waitsForLoop r.layers)) =
      some [(false, false), (false, true)] := by
    decide +kernel
  cases hparse : parseScene 300 loopJson with
  | error stop =>
      rw [hparse] at hseen
      cases hseen
  | ok r =>
      rw [hparse] at hseen
      have hlayers : (r.layers.map fun l => (l.disabled, l.waitsForLoop r.layers)) =
          [(false, false), (false, true)] := Option.some.inj hseen
      have hi : 1 < r.layers.length := by
        have hlen := congrArg List.length hlayers
        rw [List.length_map] at hlen
        rw [hlen]
        decide
      have hsecond : (r.layers[1].disabled, r.layers[1].waitsForLoop r.layers) = (false, true) := by
        have hget := congrArg (·[1]?) hlayers
        rw [List.getElem?_map, List.getElem?_eq_getElem hi] at hget
        exact Option.some.inj hget
      have hr := parseScene_wellFormed hparse
      have h :=
        starts_loadAndPlay (init pairScene) pairProviders hr.layers_le (plainHeader true 1) 0
      refine ⟨r, rfl, hi, congrArg Prod.fst hsecond, fun n => ?_⟩
      refine h.waits_forever hr (h.count.symm ▸ hi) ?_ ?_ n
      · rw [h.layer 1 hi]
        exact congrArg Prod.fst hsecond
      · rw [h.layer 1 hi]
        exact congrArg Prod.snd hsecond

end ScenePlayer

end Lightnet
