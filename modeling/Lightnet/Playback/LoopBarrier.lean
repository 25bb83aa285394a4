import Lightnet.Playback.GroupPools

/-!
# The barrier at the end of a cycle

When a scene starts over, the stop of a layer is left out if its first step is expected to take the
slot of the layer over. The group of a layer is active on its panels only, so the step does so
exactly if it starts anything at all.
-/

namespace Lightnet

open AnimationScheduler (Command)

/-! ### Where a group is active -/

/-- The panels on which a group is prepared, and those on which it has been started. -/
structure GroupSlots where
  prepared : List ℕ
  active : List ℕ

namespace GroupSlots

def none : GroupSlots := ⟨[], []⟩

def after (g : Byte) (s : GroupSlots) : Command → GroupSlots
  | .sendPrepareToPanel a pkt =>
    if pkt.groupId = g then { s with prepared := a :: s.prepared } else s
  | .sendGroupStart g' => if g' = g then ⟨[], s.prepared ++ s.active⟩ else s
  | .sendControlToPanels g' cmd as =>
    if g' = g ∧ cmd = .stop then ⟨s.prepared.filter (· ∉ as), s.active.filter (· ∉ as)⟩ else s
  | .broadcastStop => none
  | _ => s

/-- The slots of a group after everything that has been sent. -/
def of (g : Byte) (sent : List Command) : GroupSlots := sent.foldl (after g) none

def Within (s : GroupSlots) (panels : List ℕ) : Prop :=
  (∀ a ∈ s.prepared, a ∈ panels) ∧ ∀ a ∈ s.active, a ∈ panels

theorem of_append (g : Byte) (sent new : List Command) :
    of g (sent ++ new) = new.foldl (after g) (of g sent) := List.foldl_append

theorem none_within (panels : List ℕ) : none.Within panels := by simp [none, Within]

/-- A command about another group. -/
theorem after_other {g : Byte} (s : GroupSlots) {c : Command} {g' : Byte}
    (h : ScenePlayer.groupOf c = some g') (hne : g' ≠ g) : s.after g c = s := by
  cases c <;> cases h
  · exact if_neg hne
  · exact if_neg hne
  · rfl
  · exact if_neg fun hand => hne hand.1

theorem Within.start {s : GroupSlots} {panels : List ℕ} (h : s.Within panels) (g g' : Byte) :
    (s.after g (.sendGroupStart g')).Within panels := by
  simp only [after]
  split_ifs
  · refine ⟨by simp, fun a ha => ?_⟩
    rcases List.mem_append.mp ha with ha | ha
    · exact h.1 a ha
    · exact h.2 a ha
  · exact h

theorem Within.stop {s : GroupSlots} {panels : List ℕ} (h : s.Within panels) (g g' : Byte)
    (cmd : AnimationControl) (as : List ℕ) :
    (s.after g (.sendControlToPanels g' cmd as)).Within panels := by
  simp only [after]
  split_ifs
  · exact ⟨fun a ha => h.1 a (List.mem_of_mem_filter ha), fun a ha => h.2 a (List.mem_of_mem_filter ha)⟩
  · exact h

theorem Within.prepare {s : GroupSlots} {panels : List ℕ} (h : s.Within panels) (g : Byte) {a : ℕ}
    {pkt : PacketAnimationPrepare} (ha : pkt.groupId = g → a ∈ panels) :
    (s.after g (.sendPrepareToPanel a pkt)).Within panels := by
  simp only [after]
  split_ifs with hg
  · refine ⟨fun b hb => ?_, h.2⟩
    rcases List.mem_cons.mp hb with rfl | hb
    · exact ha hg
    · exact h.1 b hb
  · exact h

end GroupSlots

namespace ScenePlayer

/-! ### Groups of layers and of spawners -/

theorem maxUsed_le {p : ScenePlayer} {b : ℕ} (h : ∀ i < p.lCount, (p.layers i).groupId.toNat ≤ b) :
    p.maxUsed ≤ b := by
  refine foldl_max_le _ (Nat.zero_le b) fun n hn => ?_
  obtain ⟨i, hi, rfl⟩ := List.mem_map.mp hn
  exact h i (List.mem_range.mp hi)

/-- Even the base of an empty pool lies above the groups of the layers. -/
theorem poolOf_base_above {p : ScenePlayer} (hmax : p.maxUsed ≤ 254) {i : ℕ} (hi : i < p.lCount)
    (hspawner : (p.layers i).layerIsSpawner = true) :
    p.maxUsed < (p.poolOf i).poolBase.toNat := by
  have hroom := p.poolOf_room ⟨hi, hspawner⟩
  rw [p.poolOf_poolBase ⟨hi, hspawner⟩, toNat_u8]
  rcases Nat.eq_zero_or_pos p.poolLength with hzero | hpos
  · rw [hzero, Nat.mul_zero]
    omega
  · rw [Nat.mod_eq_of_lt (by omega)]
    omega

/-- A player whose layers have groups of their own and whose animations, while it plays, are on the
panels of layers that play them. -/
structure Tidy (p : ScenePlayer) : Prop where
  layers : p.lCount ≤ sceneMaxLayers
  small : ∀ i < p.lCount, (p.layers i).groupId.toNat ≤ 254
  distinct : ∀ i < p.lCount, ∀ j < p.lCount,
    (p.layers i).groupId = (p.layers j).groupId → i = j
  steps : ∀ i < p.lCount, (p.layers i).steps ≠ []
  current : ∀ i < p.lCount, p.currentStep i < (p.layers i).steps.length
  pool : ∀ i, SamePool (p.poolOf i) (p.spawnState i)
  slots : p.playing = true → ∀ i < p.lCount,
    (GroupSlots.of (p.layers i).groupId p.sent).Within (p.panels i) ∧
      ((p.layers i).steps.any stepUsesLayerGroup = false →
        GroupSlots.of (p.layers i).groupId p.sent = .none)

section

variable {p : ScenePlayer} (h : Tidy p) {i : ℕ} (hi : i < p.lCount)

include h hi

theorem Tidy.step_mem : p.step i ∈ (p.layers i).steps := by
  have hcurrent := h.current i hi
  unfold step
  rw [List.getD_eq_getElem?_getD, List.getElem?_eq_getElem hcurrent]
  exact List.getElem_mem hcurrent

theorem Tidy.nextGroup_above (hspawner : isSpawner (p.step i).animType = true) :
    p.maxUsed < (p.nextGroup i).toNat := by
  have hlayer : (p.layers i).layerIsSpawner = true :=
    List.any_eq_true.mpr ⟨p.step i, h.step_mem hi, hspawner⟩
  have hbase := poolOf_base_above (maxUsed_le h.small) hi hlayer
  have hpool := h.pool i
  by_cases hsize : (p.spawnState i).poolSize = 0
  · unfold nextGroup spawnPoolNext
    rw [if_pos hsize, hpool.1]
    exact hbase
  · have hin := spawnPoolNext_inPool hsize (by rw [hpool.1, hpool.2]; exact p.poolOf_fits i)
    rw [← hpool.1] at hbase
    exact hbase.trans_le hin.1

theorem Tidy.nextGroup_ne {j : ℕ} (hj : j < p.lCount)
    (hspawner : isSpawner (p.step i).animType = true) : p.nextGroup i ≠ (p.layers j).groupId := by
  have habove := h.nextGroup_above hi hspawner
  have hbelow := p.groupId_le_maxUsed hj
  intro heq
  rw [heq] at habove
  omega

/-- What is sent for a layer is not about the group of another one. -/
theorem Tidy.about {j : ℕ} (hj : j < p.lCount) (hij : i ≠ j) {c : Command} (hc : p.Sends i c) :
    ∃ g, groupOf c = some g ∧ g ≠ (p.layers j).groupId := by
  have hown : (p.layers i).groupId ≠ (p.layers j).groupId := fun heq =>
    hij (h.distinct i hi j hj heq)
  cases hc with
  | stop hi => exact ⟨_, rfl, hown⟩
  | own hrun ha hgroup horder hflags huses => exact ⟨_, rfl, hgroup ▸ hown⟩
  | start hrun huses => exact ⟨_, rfl, hown⟩
  | spawned hrun hgroup horder hflags hspawner hpool =>
      exact ⟨_, rfl, hgroup ▸ h.nextGroup_ne hi hj hspawner⟩
  | spawnStart hrun hspawner hpool => exact ⟨_, rfl, h.nextGroup_ne hi hj hspawner⟩

theorem Tidy.after_within {j : ℕ} (hj : j < p.lCount) {c : Command} (hc : p.Sends i c)
    {s : GroupSlots} (hs : s.Within (p.panels j)) :
    (s.after (p.layers j).groupId c).Within (p.panels j) := by
  by_cases hij : i = j
  · rw [← hij] at hs ⊢
    cases hc with
    | stop hi => exact hs.stop _ _ _ _
    | own hrun ha hgroup horder hflags huses => exact hs.prepare _ fun _ => ha
    | start hrun huses => exact hs.start _ _
    | spawned hrun hgroup horder hflags hspawner hpool =>
        exact hs.prepare _ fun heq => absurd (hgroup.symm.trans heq) (h.nextGroup_ne hi hi hspawner)
    | spawnStart hrun hspawner hpool => exact hs.start _ _
  · obtain ⟨g, hg, hne⟩ := h.about hi hj hij hc
    rw [GroupSlots.after_other s hg hne]
    exact hs

theorem Tidy.after_none {j : ℕ} (hj : j < p.lCount) {c : Command} (hc : p.Sends i c)
    (huses : (p.layers j).steps.any stepUsesLayerGroup = false) :
    GroupSlots.none.after (p.layers j).groupId c = .none := by
  by_cases hij : i = j
  · have hunused : stepUsesLayerGroup (p.step i) = false := by
      have hmem := h.step_mem hi
      rw [hij] at hmem ⊢
      rw [List.any_eq_false] at huses
      exact eq_false_of_ne_true (huses _ hmem)
    cases hc with
    | stop hi => simp [GroupSlots.after, GroupSlots.none]
    | own hrun ha hgroup horder hflags huses =>
        rw [hunused] at huses
        cases huses
    | start hrun huses =>
        rw [hunused] at huses
        cases huses
    | spawned hrun hgroup horder hflags hspawner hpool =>
        exact GroupSlots.after_other _ rfl (hgroup ▸ h.nextGroup_ne hi hj hspawner)
    | spawnStart hrun hspawner hpool =>
        exact GroupSlots.after_other _ rfl (h.nextGroup_ne hi hj hspawner)
  · obtain ⟨g, hg, hne⟩ := h.about hi hj hij hc
    exact GroupSlots.after_other _ hg hne

end

theorem Tidy.current_layer {nowMs : Millis} {i : ℕ} {p q : ScenePlayer} (h : Tidy p)
    (hmove : Moves nowMs i p q) : ∀ j < p.lCount, q.currentStep j < (p.layers j).steps.length := by
  cases hmove with
  | enter k hrun hk =>
      intro j hj
      by_cases hji : j = i
      · rw [hji] at hj ⊢
        simp only [entered, Function.update_self]
        rcases hk with rfl | hk
        · exact List.length_pos_iff.mpr (h.steps i hj)
        · exact hk
      · simp only [entered, Function.update_of_ne hji]
        exact h.current j hj
  | finish hrun => exact h.current
  | wake hi hwait hplay => exact h.current
  | flush => exact h.current
  | stop hi =>
      rw [(fires_stopLayerGroup p i).currentStep]
      exact h.current
  | light hrun htype => exact h.current
  | flip => exact h.current
  | bounce passDurMs hrun htype =>
      rw [(fires_fireBouncePass p i passDurMs).currentStep]
      exact h.current
  | spin turns hrun htype hturns => exact h.current
  | aim hrun hsweep => exact h.current
  | launch hrun hsweep hpool => exact h.current
  | drop drops hrun htype hdrops hpool => exact h.current
  | note st hrun hplan => exact h.current

theorem Moves.playing {nowMs : Millis} {i : ℕ} {p q : ScenePlayer} (h : Moves nowMs i p q) :
    q.playing = p.playing := by
  cases h with
  | stop hi => exact (fires_stopLayerGroup p i).touches.playing
  | bounce passDurMs h htype => exact (fires_fireBouncePass p i passDurMs).touches.playing
  | _ => rfl

theorem Tidy.layer {nowMs : Millis} {i : ℕ} {p q : ScenePlayer} (h : Tidy p)
    (hmove : Moves nowMs i p q) : Tidy q := by
  have hplays := hmove.plays
  obtain ⟨new, hnew, hsends⟩ := hmove.sends
  have hlayers := hplays.layers
  have hcount := hplays.lCount
  refine ⟨?_, ?_, ?_, ?_, ?_, fun j => ?_, fun hplay j hj => ?_⟩
  · rw [hcount]
    exact h.layers
  · rw [hcount, hlayers]
    exact h.small
  · rw [hcount, hlayers]
    exact h.distinct
  · rw [hcount, hlayers]
    exact h.steps
  · rw [hcount, hlayers]
    exact h.current_layer hmove
  · rw [poolOf_eq_of_layers p hlayers hcount]
    exact ⟨(hmove.samePool j).1.trans (h.pool j).1, (hmove.samePool j).2.trans (h.pool j).2⟩
  · rw [hcount] at hj
    rw [hmove.playing] at hplay
    obtain ⟨hwithin, hunused⟩ := h.slots hplay j hj
    rw [hlayers, hplays.panels, hnew, GroupSlots.of_append]
    refine ⟨?_, fun huses => ?_⟩
    · refine List.foldlRecOn (motive := fun s : GroupSlots => s.Within (p.panels j)) new _ hwithin
        fun s hs c hc => ?_
      exact h.after_within (hsends c hc).lt hj (hsends c hc) hs
    · rw [hunused huses]
      refine List.foldlRecOn (motive := fun s : GroupSlots => s = .none) new _ rfl fun s hs c hc => ?_
      rw [hs]
      exact h.after_none (hsends c hc).lt hj (hsends c hc) huses

theorem Tidy.moves {nowMs : Millis} {p q : ScenePlayer} (h : Tidy p)
    (hmove : SceneMoves nowMs p q) : Tidy q := by
  cases hmove with
  | layer hmove => exact h.layer hmove
  | arm includeAsync hplay =>
      refine ⟨h.layers, h.small, h.distinct, h.steps, fun i hi => ?_, h.pool, h.slots⟩
      simp only [armed]
      split_ifs
      · exact List.length_pos_iff.mpr (h.steps i hi)
      · exact h.current i hi
  | halt =>
      exact ⟨h.layers, h.small, h.distinct, h.steps, h.current, h.pool, fun hplay => by cases hplay⟩

theorem Tidy.does {nowMs : Millis} {p q : ScenePlayer} (h : Tidy p) (hdoes : Does nowMs p q) :
    Tidy q := by
  induction hdoes with
  | refl => exact h
  | tail _ hmove ih => exact ih.moves hmove

/-! ### What a restart sends for a layer -/

/-- A group is stopped on a panel, or prepared on it and started after that. -/
def Replaces (g : Byte) (new : List Command) (a : ℕ) : Prop :=
  (∃ as, a ∈ as ∧ .sendControlToPanels g .stop as ∈ new) ∨
    ∃ pkt, pkt.groupId = g ∧ [.sendPrepareToPanel a pkt, .sendGroupStart g].Sublist new

/-- Nothing is sent about a group. -/
def Avoids (g : Byte) (p q : ScenePlayer) : Prop :=
  ∃ new, q.sent = p.sent ++ new ∧ ∀ c ∈ new, groupOf c ≠ some g

theorem Avoids.of_eq {g : Byte} {p q : ScenePlayer} (h : q.sent = p.sent) : Avoids g p q :=
  ⟨[], by rw [h, List.append_nil], by simp⟩

theorem Avoids.trans {g : Byte} {p q r : ScenePlayer} (h : Avoids g p q) (h' : Avoids g q r) :
    Avoids g p r := by
  obtain ⟨new, hnew, havoid⟩ := h
  obtain ⟨new', hnew', havoid'⟩ := h'
  refine ⟨new ++ new', by rw [hnew', hnew, List.append_assoc], fun c hc => ?_⟩
  rcases List.mem_append.mp hc with hc | hc
  · exact havoid c hc
  · exact havoid' c hc

theorem not_replaces_of_avoids {g : Byte} {new : List Command} (h : ∀ c ∈ new, groupOf c ≠ some g)
    (a : ℕ) : ¬ Replaces g new a := by
  rintro (⟨as, -, hstop⟩ | ⟨pkt, -, hstart⟩)
  · exact h _ hstop rfl
  · exact h _ (hstart.subset (List.mem_cons_of_mem _ (List.mem_singleton.mpr rfl))) rfl

/-- Only what is sent about the group counts. -/
theorem replaces_between {g : Byte} {before new after : List Command}
    (hbefore : ∀ c ∈ before, groupOf c ≠ some g) (hafter : ∀ c ∈ after, groupOf c ≠ some g) (a : ℕ) :
    Replaces g (before ++ new ++ after) a ↔ Replaces g new a := by
  have hall : (before ++ new ++ after).filter (groupOf · = some g) =
      new.filter (groupOf · = some g) := by
    have hnone {l : List Command} (hl : ∀ c ∈ l, groupOf c ≠ some g) :
        l.filter (groupOf · = some g) = [] :=
      List.filter_eq_nil_iff.mpr fun c hc heq => hl c hc (of_decide_eq_true heq)
    rw [List.filter_append, List.filter_append, hnone hbefore, hnone hafter, List.nil_append,
      List.append_nil]
  have hsub {cs : List Command} (hcs : ∀ c ∈ cs, groupOf c = some g) :
      cs.Sublist (before ++ new ++ after) ↔ cs.Sublist new := by
    have hself : cs.filter (groupOf · = some g) = cs :=
      List.filter_eq_self.mpr fun c hc => decide_eq_true (hcs c hc)
    constructor
    · intro h
      have hown := h.filter (groupOf · = some g)
      rw [hself, hall] at hown
      exact hown.trans List.filter_sublist
    · intro h
      exact (h.trans (List.sublist_append_right before new)).trans (List.sublist_append_left _ after)
  unfold Replaces
  refine or_congr (exists_congr fun as => and_congr_right fun _ => ?_)
    (exists_congr fun pkt => and_congr_right fun hg => hsub ?_)
  · rw [← List.singleton_sublist, ← List.singleton_sublist]
    exact hsub fun c hc => by rw [List.mem_singleton.mp hc]; rfl
  · intro c hc
    simp only [List.mem_cons, List.not_mem_nil, or_false] at hc
    rcases hc with rfl | rfl
    · exact congrArg some hg
    · rfl

/-- A bounce or a wheel is started at all. -/
def StepStarts (p : ScenePlayer) (i : ℕ) : Prop :=
  isRunnerType (p.step i).animType = true →
    p.effectiveDurationMs (p.step i).durationMs ≠ 0 ∧
      ((p.step i).animType = .wheel → p.wheelTurns i (p.panels i) ≠ none)

instance (p : ScenePlayer) (i : ℕ) : Decidable (p.StepStarts i) :=
  inferInstanceAs (Decidable (_ → _ ∧ (_ → _)))

theorem stepStarts_congr {p q : ScenePlayer} {i : ℕ} (htopo : q.sceneTopo = p.sceneTopo)
    (hlayers : q.layers = p.layers) (hspeed : q.speed = p.speed)
    (hcurrent : q.currentStep i = p.currentStep i) : q.StepStarts i ↔ p.StepStarts i := by
  have hstep : q.step i = p.step i := by
    unfold step
    rw [hlayers, hcurrent]
  have hpanels : q.panels i = p.panels i := by
    unfold panels
    rw [htopo, hlayers]
  have hdur (d : Ticks) : q.effectiveDurationMs d = p.effectiveDurationMs d := by
    unfold effectiveDurationMs
    rw [hspeed]
  have hturns (panels : List ℕ) : q.wheelTurns i panels = p.wheelTurns i panels := by
    unfold wheelTurns
    rw [hstep, htopo]
  unfold StepStarts
  rw [hstep, hpanels, hdur, hturns]

/-- A pulse for every panel of a layer. -/
theorem replaces_pulses {i : ℕ} {g flags : Byte} {style : RunnerStyle} {panels : List ℕ} {α : Type}
    {coord : List α} (hlen : coord.length = panels.length) (pulse : α → CompiledPulse)
    (hlit : ∀ c ∈ coord, (pulse c).lit = true) {a : ℕ} (ha : a ∈ panels) :
    Replaces g ((panels.zip coord).flatMap (fun x => sendPulse i g flags style x.1 (pulse x.2)) ++
      [.sendGroupStart g]) a := by
  obtain ⟨n, hn, rfl⟩ := List.mem_iff_getElem.mp ha
  have hn' : n < coord.length := hlen ▸ hn
  have hzip : (panels[n], coord[n]) ∈ panels.zip coord := by
    rw [← List.getElem_zip (h := by rw [List.length_zip]; omega)]
    exact List.getElem_mem _
  have hpulse : .sendPrepareToPanel panels[n] (pulsePacket i g flags style
      (pulse coord[n]).durationMs (pulse coord[n]).startDelayMs (pulse coord[n]).risePct
      (pulse coord[n]).fallPct) ∈ sendPulse i g flags style panels[n] (pulse coord[n]) := by
    unfold sendPulse
    rw [if_pos (hlit _ (List.getElem_mem hn'))]
    exact List.mem_singleton.mpr rfl
  have hmem : _ ∈ (panels.zip coord).flatMap fun x => sendPulse i g flags style x.1 (pulse x.2) :=
    List.mem_flatMap.mpr ⟨_, hzip, hpulse⟩
  exact Or.inr ⟨_, rfl, (List.singleton_sublist.mpr hmem).append (.refl _)⟩

theorem playOnPanels_replaces (pkt : PacketAnimationPrepare) {panels : List ℕ} {a : ℕ}
    (ha : a ∈ panels) :
    Replaces pkt.groupId (AnimationScheduler.playOnPanels pkt panels) a := by
  have hprepared : .sendPrepareToPanel a { pkt with startDelayMs := 0 } ∈
      panels.map fun a => Command.sendPrepareToPanel a { pkt with startDelayMs := 0 } :=
    List.mem_map.mpr ⟨a, ha, rfl⟩
  refine Or.inr ⟨{ pkt with startDelayMs := 0 }, rfl, ?_⟩
  exact (List.singleton_sublist.mpr hprepared).append (.refl _)

theorem two_le_sweepWidthOf (step : SceneStep) : 2 ≤ (sweepWidthOf step).toNat := by
  unfold sweepWidthOf
  split_ifs with hlt
  · decide
  · omega

section

variable {p : ScenePlayer} {i : ℕ}

theorem stopLayerGroup_replaces : ∃ new, (p.stopLayerGroup i).sent = p.sent ++ new ∧
    ∀ a ∈ p.panels i, Replaces (p.layers i).groupId new a := by
  unfold stopLayerGroup
  split_ifs with hpanels
  · exact ⟨[], (List.append_nil _).symm, by simp [hpanels]⟩
  · exact ⟨_, rfl, fun a ha => Or.inl ⟨_, ha, List.mem_singleton.mpr rfl⟩⟩

theorem fireBounceStep_replaces (hcount : p.sceneTopo.index.count ≤ 255) (hpanels : p.panels i ≠ [])
    (nowMs : Millis) (dur : Ticks) : ∃ new, (p.fireBounceStep i nowMs dur).sent = p.sent ++ new ∧
      ∀ a ∈ p.panels i, Replaces (p.layers i).groupId new a := by
  have hpass (q : ScenePlayer) (hq : q.sceneTopo.index.count ≤ 255) (hne : q.panels i ≠ [])
      {d : Ticks} (hd : d ≠ 0) : ∃ new, (q.fireBouncePass i d).sent = q.sent ++ new ∧
        ∀ a ∈ q.panels i, Replaces (q.layers i).groupId new a := by
    obtain ⟨hlen, hcoord⟩ := q.linearField_fieldOf hq (q.step i) (q.panels i)
      (xor (isReverse (q.step i)) (q.bouncePhase i))
    unfold fireBouncePass
    dsimp only
    rw [if_neg (not_or.mpr ⟨hne, hd⟩)]
    refine ⟨_, rfl, fun a ha => ?_⟩
    refine replaces_pulses hlen
      (fun c => compileBounce c.toNat _ (sweepWidthOf (q.step i)) d) (fun c hc => ?_) ha
    exact compileBounce_lit (hcoord c hc) (two_le_sweepWidthOf _) hd
  exact hpass (p.setSpawn i _) hcount hpanels (atLeastOne_ne_zero _)

theorem fireWheelStep_replaces (hturns : p.wheelTurns i (p.panels i) ≠ none) (nowMs : Millis)
    {dur : Ticks} (hdur : dur ≠ 0) :
    ∃ new, (p.fireWheelStep i nowMs (p.panels i) dur).sent = p.sent ++ new ∧
      ∀ a ∈ p.panels i, Replaces (p.layers i).groupId new a := by
  have hlines (step : SceneStep) : wheelLines step ≠ 0 := by
    unfold wheelLines
    split_ifs with hzero hmax
    · decide
    · decide
    · exact hzero
  cases hsome : p.wheelTurns i (p.panels i) with
  | none => exact absurd hsome hturns
  | some turns =>
      have hlen : turns.length = (p.panels i).length := by
        unfold wheelTurns at hsome
        split_ifs at hsome
        exact computeWheelField_length hsome
      unfold fireWheelStep
      rw [hsome]
      refine ⟨_, rfl, fun a ha => ?_⟩
      exact replaces_pulses hlen
        (fun turn => compileWheel turn (wheelLines (p.step i)) ((p.step i).params .width) dur)
        (fun turn _ => compileWheel_lit turn (hlines _) hdur) ha

theorem runner_of_usesLayerGroup {step : SceneStep} (huses : stepUsesLayerGroup step = true)
    (hrunner : isRunnerType step.animType = true) :
    step.animType = .bounce ∨ step.animType = .wheel := by
  unfold stepUsesLayerGroup at huses
  rw [hrunner] at huses
  simpa using huses

/-- What firing a step of the layer's own group sends. -/
theorem fireStep_replaces (hcount : p.sceneTopo.index.count ≤ 255)
    (huses : stepUsesLayerGroup (p.step i) = true) (hstarts : p.StepStarts i) (nowMs : Millis) :
    ∃ new, (p.fireStep i nowMs).sent = p.sent ++ new ∧
      ∀ a ∈ p.panels i, Replaces (p.layers i).groupId new a := by
  unfold fireStep
  dsimp only
  split_ifs with hgap hpanels hrunner hparticle hdur hbounce hwheel
  · exact stopLayerGroup_replaces
  · exact ⟨[], (List.append_nil _).symm, by simp [hpanels]⟩
  · rcases runner_of_usesLayerGroup huses hrunner with htype | htype <;> rw [htype] at hparticle <;>
      cases hparticle
  · exact absurd hdur (hstarts hrunner).1
  · exact fireBounceStep_replaces hcount hpanels nowMs _
  · exact fireWheelStep_replaces ((hstarts hrunner).2 hwheel) nowMs hdur
  · rcases runner_of_usesLayerGroup huses hrunner with htype | htype
    · exact absurd htype hbounce
    · exact absurd htype hwheel
  · exact ⟨_, rfl, fun a ha => playOnPanels_replaces _ ha⟩

/-- A bounce or a wheel that does not start is silent. -/
theorem fireStep_silent (huses : stepUsesLayerGroup (p.step i) = true) (hstarts : ¬ p.StepStarts i)
    (nowMs : Millis) : (p.fireStep i nowMs).sent = p.sent := by
  unfold StepStarts at hstarts
  rw [Classical.not_imp, not_and_or, not_not, Classical.not_imp, not_not] at hstarts
  obtain ⟨hrunner, hdead⟩ := hstarts
  unfold fireStep
  dsimp only
  split_ifs with hgap hpanels hparticle hdur hbounce hwheel
  · rw [hgap] at hrunner
    cases hrunner
  · rfl
  · rfl
  · rfl
  · rcases hdead with hzero | ⟨hwheel, -⟩
    · exact absurd hzero hdur
    · rw [hbounce] at hwheel
      cases hwheel
  · rcases hdead with hzero | ⟨-, hnone⟩
    · exact absurd hzero hdur
    · unfold fireWheelStep
      rw [hnone]
  · rcases runner_of_usesLayerGroup huses hrunner with htype | htype
    · exact absurd htype hbounce
    · exact absurd htype hwheel

end

/-! ### The barrier -/

/-- The scene starts over at the end of this tick. -/
def Restarts (q : ScenePlayer) : Prop :=
  q.syncLayers ≠ [] ∧ q.allSyncDone = true ∧ q.loop = true

/-- The stop of the layer is left out. -/
def SkipsStop (q : ScenePlayer) (i : ℕ) : Prop :=
  i < q.lCount ∧ q.pendingStop i = true ∧ q.restartReclaimsLayerSlot i = true

/-- The panels on which the group of the layer is active. -/
def activeOn (q : ScenePlayer) (i : ℕ) : List ℕ :=
  (GroupSlots.of (q.layers i).groupId q.sent).active

/-- Wherever the group of a layer is active whose stop is left out, the rest of the tick replaces
it. -/
def SkipsSafely (q : ScenePlayer) (nowMs : Millis) : Prop :=
  q.Restarts → ∀ i, q.SkipsStop i → ∀ a ∈ q.activeOn i,
    Replaces (q.layers i).groupId ((q.endTick nowMs).sent.drop q.sent.length) a

/-- The first step of the layer starts something. -/
def FirstStepStarts (q : ScenePlayer) (i : ℕ) : Prop := (q.entered i 0 0).StepStarts i

theorem endTick_of_restarts {q : ScenePlayer} (h : q.Restarts) (nowMs : Millis) :
    q.endTick nowMs = (q.flushPendingStops true).armLayers nowMs false := by
  have hover : q.syncLayers ≠ [] ∧ q.allSyncDone = true := ⟨h.1, h.2.1⟩
  unfold endTick
  simp only [hover, h.2.2, and_self, not_true, if_false, if_true, decide_true, ne_eq, not_false_eq_true]

/-- Turns that keep something and avoid a group. -/
theorem avoids_foldl {g : Byte} {Keeps : ScenePlayer → Prop} {f : ScenePlayer → ℕ → ScenePlayer}
    {l : List ℕ} (hf : ∀ p, Keeps p → ∀ i ∈ l, Avoids g p (f p i) ∧ Keeps (f p i))
    {p : ScenePlayer} (h : Keeps p) : Avoids g p (l.foldl f p) ∧ Keeps (l.foldl f p) := by
  refine List.foldlRecOn (motive := fun q => Avoids g p q ∧ Keeps q) l f ⟨.of_eq rfl, h⟩ ?_
  intro q hq i hi
  obtain ⟨havoid, hkeeps⟩ := hf q hq.2 i hi
  exact ⟨hq.1.trans havoid, hkeeps⟩

theorem Does.plays {nowMs : Millis} {p q : ScenePlayer} (h : Does nowMs p q) : Plays p q := by
  induction h with
  | refl => exact .refl p
  | tail _ hmove ih => exact ih.trans hmove.plays

theorem Tidy.avoids {nowMs : Millis} {i j : ℕ} {p q : ScenePlayer} (h : Tidy p)
    (hdoes : DoesFor nowMs i p q) (hj : j < p.lCount) (hij : i ≠ j) :
    Avoids (p.layers j).groupId p q := by
  induction hdoes with
  | refl => exact .of_eq rfl
  | @tail r q hdoes hmove ih =>
      have hplays := Does.plays (DoesFor.does hdoes)
      have htidy := h.does (DoesFor.does hdoes)
      obtain ⟨new, hnew, hsends⟩ := hmove.sends
      refine ih.trans ⟨new, hnew, fun c hc => ?_⟩
      obtain ⟨g, hg, hne⟩ := htidy.about (hsends c hc).lt (hplays.lCount ▸ hj) hij (hsends c hc)
      rw [hplays.layers] at hne
      rw [hg]
      exact fun heq => hne (Option.some.inj heq)

theorem reclaimsSlot_iff {layer : SceneLayer} (h : layer.reclaimsSlot = true) :
    layer.isAsyncLayer = false ∧ armedState layer = .running ∧ ∃ first rest,
      layer.steps = first :: rest ∧
        (stepUsesLayerGroup first = true ∨ layer.steps.any stepUsesLayerGroup = false) := by
  unfold SceneLayer.reclaimsSlot at h
  split_ifs at h with hout
  obtain ⟨hasync, hdisabled, hstart⟩ : layer.isAsyncLayer = false ∧ layer.disabled = false ∧
      layer.startAfterGroupId = 0 := by
    rw [not_or, not_or] at hout
    exact ⟨eq_false_of_ne_true hout.1, eq_false_of_ne_true hout.2.1, not_not.mp hout.2.2⟩
  cases hsteps : layer.steps with
  | nil =>
      rw [hsteps] at h
      cases h
  | cons first rest =>
      rw [hsteps] at h
      refine ⟨hasync, ?_, first, rest, rfl, ?_⟩
      · unfold armedState
        rw [if_neg (by simp [hsteps, hdisabled]), if_pos hstart]
      · rw [List.any_cons]
        cases huses : stepUsesLayerGroup first with
        | true => exact Or.inl rfl
        | false =>
            change (stepUsesLayerGroup first || !rest.any stepUsesLayerGroup) = true at h
            rw [huses] at h
            exact Or.inr (by simpa using h)

theorem flushStop_quiet {p : ScenePlayer} {i : ℕ} (h : p.restartReclaimsLayerSlot i = true) :
    (flushStop true p i).sent = p.sent := by
  have hsame : (p.flushed i).restartReclaimsLayerSlot i = true := h
  unfold flushStop
  dsimp only
  split_ifs with hpending hreclaims
  · rfl
  · exact absurd ⟨rfl, hsame⟩ hreclaims
  · rfl

/-- Within the end of the tick a layer whose stop is left out fires its first step, and nothing
else is about its group. -/
theorem restart_fires {q : ScenePlayer} (h : Tidy q) (hplay : q.playing = true)
    (hrestarts : q.Restarts) {i : ℕ} (hskip : q.SkipsStop i) (nowMs : Millis) :
    ∃ r : ScenePlayer, (r.sceneTopo = q.sceneTopo ∧ r.layers = q.layers ∧ r.speed = q.speed ∧
        r.currentStep i = 0) ∧ Avoids (q.layers i).groupId q r ∧
      Avoids (q.layers i).groupId (r.fireStep i nowMs) (q.endTick nowMs) := by
  obtain ⟨hi, -, hreclaims⟩ := hskip
  obtain ⟨hasync, hrunning, -⟩ := reclaimsSlot_iff hreclaims
  let Keeps (p : ScenePlayer) : Prop :=
    Tidy p ∧ p.layers = q.layers ∧ p.lCount = q.lCount ∧ p.sceneTopo = q.sceneTopo ∧
      p.speed = q.speed ∧ p.playing = true
  have hturn {p r : ScenePlayer} (hp : Keeps p) {j : ℕ} (hdoes : DoesFor nowMs j p r)
      (ht : Touches j p r) : Keeps r := by
    obtain ⟨htidy, hlayers, hcount, htopo, hspeed, hplaying⟩ := hp
    exact ⟨htidy.does hdoes.does, ht.plays.layers.trans hlayers, ht.plays.lCount.trans hcount,
      ht.plays.sceneTopo.trans htopo, ht.plays.speed.trans hspeed, ht.playing.trans hplaying⟩
  have hother {p r : ScenePlayer} (hp : Keeps p) {j : ℕ} (hdoes : DoesFor nowMs j p r)
      (hji : j ≠ i) : Avoids (q.layers i).groupId p r := by
    rw [← hp.2.1]
    exact hp.1.avoids hdoes (hp.2.2.1 ▸ hi) hji
  -- the stops of the other layers
  have hflush : Avoids (q.layers i).groupId q (q.flushPendingStops true) ∧
      Keeps (q.flushPendingStops true) := by
    refine avoids_foldl (fun p hp j hj => ?_) ⟨h, rfl, rfl, rfl, rfl, hplay⟩
    have hjlt : j < p.lCount := hp.2.2.1 ▸ List.mem_range.mp hj
    have hdoes := does_flushStop nowMs p hjlt true
    refine ⟨?_, hturn hp hdoes (touches_flushStop p j true)⟩
    by_cases hji : j = i
    · refine .of_eq ?_
      have hsame : p.restartReclaimsLayerSlot i = true := by
        unfold restartReclaimsLayerSlot
        rw [hp.2.1]
        exact hreclaims
      rw [hji]
      exact flushStop_quiet hsame
    · exact hother hp hdoes hji
  obtain ⟨hquiet, hkeeps⟩ := hflush
  let F := q.flushPendingStops true
  let A := F.armed nowMs false
  have hcountF : F.lCount = q.lCount := hkeeps.2.2.1
  have hA : Keeps A := ⟨hkeeps.1.moves (.arm F false hkeeps.2.2.2.2.2), hkeeps.2⟩
  -- the layers before this one, this one, and the layers after it
  obtain ⟨before, after, hrange⟩ := List.append_of_mem (List.mem_range.mpr (hcountF ▸ hi : i < F.lCount))
  have hnodup : (before ++ i :: after).Nodup := hrange ▸ List.nodup_range
  have hlt (j : ℕ) (hj : j ∈ before ++ i :: after) : j < q.lCount := by
    rw [← hrange] at hj
    exact hcountF ▸ List.mem_range.mp hj
  have hfire {l : List ℕ} (hl : ∀ j ∈ l, j < q.lCount ∧ j ≠ i) {p : ScenePlayer} (hp : Keeps p) :
      Avoids (q.layers i).groupId p (l.foldl (fireArmed nowMs false) p) ∧
        Keeps (l.foldl (fireArmed nowMs false) p) := by
    refine avoids_foldl (fun p hp j hj => ?_) hp
    have hdoes := does_fireArmed nowMs p (hp.2.2.1 ▸ (hl j hj).1) false
    exact ⟨hother hp hdoes (hl j hj).2, hturn hp hdoes (touches_fireArmed p j nowMs false)⟩
  have hown : i ∉ before := fun hmem =>
    List.disjoint_of_nodup_append hnodup hmem List.mem_cons_self
  have hown' : i ∉ after := (List.nodup_cons.mp (List.nodup_append.mp hnodup).2.1).1
  have hlBefore (j : ℕ) (hj : j ∈ before) : j < q.lCount ∧ j ≠ i :=
    ⟨hlt j (List.mem_append_left _ hj), ne_of_mem_of_not_mem hj hown⟩
  have hlAfter (j : ℕ) (hj : j ∈ after) : j < q.lCount ∧ j ≠ i :=
    ⟨hlt j (List.mem_append_right _ (List.mem_cons_of_mem i hj)), ne_of_mem_of_not_mem hj hown'⟩
  obtain ⟨hbefore, hr⟩ := hfire hlBefore hA
  let r := before.foldl (fireArmed nowMs false) A
  have hrun : r.layerRun i = A.layerRun i :=
    foldl_other (fun p j => touches_fireArmed p j nowMs false) hown A
  have harmed : F.isArmed false i = true := by
    unfold isArmed
    rw [hkeeps.2.1, hcountF, hasync]
    simp [hi]
  have hcurrent : r.currentStep i = 0 := by
    refine (congrArg Prod.fst hrun).trans ?_
    simp only [layerRun, A, armed, harmed, if_true]
  have hstate : r.layerState i = .running := by
    refine (congrArg (fun x => x.2.2.1) hrun).trans ?_
    simp only [layerRun, A, armed, harmed, if_true]
    rw [show F.layers = q.layers from hkeeps.2.1]
    exact hrunning
  have hfires : fireArmed nowMs false r i = r.fireStep i nowMs := by
    unfold fireArmed isArmed
    rw [hr.2.1, hr.2.2.1, hasync]
    simp [hi, hstate]
  obtain ⟨hafter, -⟩ := hfire hlAfter (hturn hr
    (does_fireArmed nowMs r (hr.2.2.1 ▸ hi) false) (touches_fireArmed r i nowMs false))
  refine ⟨r, ⟨hr.2.2.2.1, hr.2.1, hr.2.2.2.2.1, hcurrent⟩, hquiet.trans hbefore, ?_⟩
  have hend : F.armLayers nowMs false = after.foldl (fireArmed nowMs false)
      (fireArmed nowMs false r i) := by
    change (List.range F.lCount).foldl (fireArmed nowMs false) A = _
    rw [hrange, List.foldl_append, List.foldl_cons]
  rw [endTick_of_restarts hrestarts, hend, ← hfires]
  exact hafter

/-- The stop of a layer is left out safely if and only if its group is not active or its first step
starts something. -/
theorem skipsSafely_iff {q : ScenePlayer} (h : Tidy q) (hplay : q.playing = true)
    (hcount : q.sceneTopo.index.count ≤ 255) (nowMs : Millis) :
    q.SkipsSafely nowMs ↔
      (q.Restarts → ∀ i, q.SkipsStop i → q.activeOn i = [] ∨ q.FirstStepStarts i) := by
  refine forall_congr' fun hrestarts => forall_congr' fun i => forall_congr' fun hskip => ?_
  obtain ⟨hi, -, hreclaims⟩ := id hskip
  obtain ⟨-, -, first, rest, hsteps, huses⟩ := reclaimsSlot_iff hreclaims
  obtain ⟨r, ⟨htopo, hlayers, hspeed, hcurrent⟩, ⟨before, hbefore, havoid⟩, after, hafter, havoid'⟩ :=
    restart_fires h hplay hrestarts hskip nowMs
  obtain ⟨hwithin, hunused⟩ := h.slots hplay i hi
  have hstep : r.step i = first := by
    unfold step
    rw [hlayers, hcurrent, hsteps]
    rfl
  have hpanels : r.panels i = q.panels i := by
    unfold panels
    rw [htopo, hlayers]
  have hentered : (q.entered i 0 0).currentStep i = 0 := Function.update_self _ _ _
  have hstarts : r.StepStarts i ↔ q.FirstStepStarts i :=
    stepStarts_congr htopo hlayers hspeed (hcurrent.trans hentered.symm)
  have hsent {new : List Command} (hnew : (r.fireStep i nowMs).sent = r.sent ++ new) (a : ℕ) :
      Replaces (q.layers i).groupId ((q.endTick nowMs).sent.drop q.sent.length) a ↔
        Replaces (q.layers i).groupId new a := by
    rw [hafter, hnew, hbefore, List.append_assoc, List.append_assoc, List.drop_left,
      ← List.append_assoc]
    exact replaces_between havoid havoid' a
  rcases huses with huses | huses
  · rw [← hstep] at huses
    by_cases hfirst : r.StepStarts i
    · obtain ⟨new, hnew, hreplaces⟩ := fireStep_replaces (hcount.trans_eq' (by rw [htopo])) huses hfirst nowMs
      refine iff_of_true (fun a ha => ?_) (Or.inr (hstarts.mp hfirst))
      rw [hsent hnew, ← hlayers]
      exact hreplaces a (hpanels ▸ hwithin.2 a ha)
    · have hnew := fireStep_silent huses hfirst nowMs
      rw [← List.append_nil r.sent] at hnew
      refine ⟨fun hall => Or.inl ?_, fun hnone a ha => ?_⟩
      · refine List.eq_nil_iff_forall_not_mem.mpr fun a ha => ?_
        exact not_replaces_of_avoids (by simp) a ((hsent hnew a).mp (hall a ha))
      · rcases hnone with hnil | hfirst'
        · rw [hnil] at ha
          cases ha
        · exact absurd (hstarts.mpr hfirst') hfirst
  · have hnil : q.activeOn i = [] := by
      unfold activeOn
      rw [hunused huses]
      rfl
    refine iff_of_true (fun a ha => ?_) (Or.inl hnil)
    rw [hnil] at ha
    cases ha

/-! ### Runs -/

theorem of_enterScene (p : ScenePlayer) (env : SceneProviders) (header : Header) (g : Byte) :
    GroupSlots.of g (p.enterScene env header).sent = .none := by
  have hquiet (c : Command) (hc : c ∈ p.sendPalettesToPanels env header) (s : GroupSlots) :
      s.after g c = s := by
    unfold sendPalettesToPanels at hc
    rcases List.mem_cons.mp hc with rfl | hc
    · rfl
    · obtain ⟨i, -, hi⟩ := List.mem_flatMap.mp hc
      simp only [List.mem_cons, List.not_mem_nil, or_false] at hi
      rcases hi with rfl | rfl <;> rfl
  change GroupSlots.of g (p.sent ++ [.broadcastStop, .broadcastBlack,
    .broadcastBackground header.background] ++ p.sendPalettesToPanels env header) = .none
  rw [GroupSlots.of_append, GroupSlots.of_append]
  refine List.foldlRecOn (motive := fun s : GroupSlots => s = .none) _ _ rfl fun s hs c hc => ?_
  rw [hquiet c hc, hs]

theorem tidy_armScene {p : ScenePlayer} (hlayers : p.lCount ≤ sceneMaxLayers)
    (hsmall : ∀ i < p.lCount, (p.layers i).groupId.toNat ≤ 254)
    (hdistinct : ∀ i < p.lCount, ∀ j < p.lCount,
      (p.layers i).groupId = (p.layers j).groupId → i = j)
    (hsteps : ∀ i < p.lCount, (p.layers i).steps ≠ []) (env : SceneProviders) (header : Header)
    (nowMs : Millis) : Tidy (p.armScene env header nowMs) := by
  have harmed : Tidy ((p.enterScene env header).armed nowMs true) := by
    refine ⟨hlayers, hsmall, hdistinct, hsteps, fun i hi => ?_, fun i => ⟨rfl, rfl⟩,
      fun _ i hi => ?_⟩
    · have harm : (p.enterScene env header).isArmed true i = true := by
        simp only [isArmed, Bool.true_or, Bool.and_true]
        exact decide_eq_true hi
      simp only [armed, harm, if_true]
      exact List.length_pos_iff.mpr (hsteps i hi)
    · have hnone := p.of_enterScene env header (p.layers i).groupId
      change (GroupSlots.of (p.layers i).groupId (p.enterScene env header).sent).Within _ ∧
        (_ → GroupSlots.of (p.layers i).groupId (p.enterScene env header).sent = _)
      rw [hnone]
      exact ⟨GroupSlots.none_within _, fun _ => rfl⟩
  exact harmed.does (does_fireArmedLayers nowMs true rfl)

theorem tidy_resume {p : ScenePlayer} (h : Tidy p) (env : SceneProviders) (nowMs : Millis) :
    Tidy (p.resume env nowMs) := by
  have hcount : min p.lCount sceneMaxLayers = p.lCount := min_eq_left h.layers
  have hself : ({ p with lCount := min p.lCount sceneMaxLayers } : ScenePlayer) = p := by rw [hcount]
  unfold resume
  rw [hself]
  split_ifs
  · exact h
  · exact tidy_armScene h.layers h.small h.distinct h.steps env p.header nowMs

theorem Tidy.handle {p : ScenePlayer} (h : Tidy p) (e : PlayerEvent) : Tidy (p.handle e) := by
  cases e with
  | tick nowMs => exact h.does (does_tick p nowMs)
  | stop =>
      exact ⟨h.layers, h.small, h.distinct, h.steps, h.current, h.pool, fun hplay => (nomatch hplay)⟩
  | resume env nowMs => exact tidy_resume h env nowMs
  | setSpeed s => exact ⟨h.layers, h.small, h.distinct, h.steps, h.current, h.pool, h.slots⟩
  | setLogicalRoot env panelIndex nowMs =>
      have hroot : Tidy (p.withRoot panelIndex) :=
        ⟨h.layers, h.small, h.distinct, h.steps, h.current, h.pool, h.slots⟩
      change Tidy (if p.playing = true then (p.withRoot panelIndex).resume env nowMs
        else { p.withRoot panelIndex with sceneTopo := env.rebuild (p.withRoot panelIndex).logicalRoot })
      split_ifs with hplay
      · exact tidy_resume hroot env nowMs
      · exact ⟨h.layers, h.small, h.distinct, h.steps, h.current, h.pool,
          fun hplay' => absurd hplay' hplay⟩
  | reresolvePalettes env newPal newColors =>
      change Tidy (p.reresolvePalettes env newPal newColors)
      unfold reresolvePalettes
      by_cases hidle : (!p.playing || decide (p.lCount = 0)) = true
      · rw [if_pos hidle]
        exact h
      · rw [if_neg hidle]
        exact ⟨h.layers, h.small, h.distinct, h.steps, h.current, h.pool, h.slots⟩

theorem Tidy.run {p : ScenePlayer} (h : Tidy p) (es : List PlayerEvent) :
    Tidy (es.foldl ScenePlayer.handle p) :=
  List.foldlRecOn (motive := Tidy) es _ h fun _ hq e _ => hq.handle e

theorem tidy_loadAndPlay {r : SceneRecord} (h : r.WellFormed) (p : ScenePlayer)
    (env : SceneProviders) (header : Header) (nowMs : Millis) :
    Tidy (p.loadAndPlay env r.layers header nowMs) := by
  refine tidy_armScene (min_le_right _ _) (fun i hi => (p.withLayers_plain h i hi).group_le)
    (fun i hi j hj heq => ?_) (fun i hi => ?_) env header nowMs
  · obtain ⟨hlt, hlayer⟩ := p.withLayers_layer h.layers_le hi
    obtain ⟨hlt', hlayer'⟩ := p.withLayers_layer h.layers_le hj
    change ((p.withLayers r.layers).layers i).groupId =
      ((p.withLayers r.layers).layers j).groupId at heq
    rw [hlayer, hlayer'] at heq
    have hi' : i < (r.layers.map (·.groupId)).length := by rwa [List.length_map]
    have hj' : j < (r.layers.map (·.groupId)).length := by rwa [List.length_map]
    refine (h.groups.getElem_inj_iff (i := i) (j := j)).mp (?_ :
      (r.layers.map (·.groupId))[i] = (r.layers.map (·.groupId))[j])
    · rw [List.getElem_map, List.getElem_map]
      exact heq
  · obtain ⟨hlt, hlayer⟩ := p.withLayers_layer h.layers_le hi
    rw [hlayer]
    exact (h.layer _ (List.getElem_mem hlt)).steps_ne

/-- At the end of a tick in any run of an accepted scene, stops are left out safely if and only if
the first step of each layer concerned starts something, or nothing of the layer is active. -/
theorem run_skipsSafely_iff {fuel : ℕ} {json : Text} {r : SceneRecord}
    (hparse : parseScene fuel json = .ok r) (env : SceneProviders) (header : Header)
    (p : ScenePlayer) (startMs : Millis) (es : List PlayerEvent) (nowMs : Millis)
    (hsize : (es.foldl handle (p.loadAndPlay env r.layers header startMs)).sceneTopo.index.count ≤
      lightnetMaxPanels)
    (hplay : (es.foldl handle (p.loadAndPlay env r.layers header startMs)).playing = true) :
    ((es.foldl handle (p.loadAndPlay env r.layers header startMs)).atBarrier nowMs).SkipsSafely
        nowMs ↔
      (((es.foldl handle (p.loadAndPlay env r.layers header startMs)).atBarrier nowMs).Restarts →
        ∀ i, ((es.foldl handle (p.loadAndPlay env r.layers header startMs)).atBarrier
            nowMs).SkipsStop i →
          ((es.foldl handle (p.loadAndPlay env r.layers header startMs)).atBarrier nowMs).activeOn i =
              [] ∨
            ((es.foldl handle (p.loadAndPlay env r.layers header startMs)).atBarrier
              nowMs).FirstStepStarts i) := by
  set q := es.foldl handle (p.loadAndPlay env r.layers header startMs)
  have htidy : Tidy q := (tidy_loadAndPlay (parseScene_wellFormed hparse) p env header startMs).run es
  obtain ⟨hdoes, hplaying⟩ := does_atBarrier hplay nowMs
  refine skipsSafely_iff (htidy.does hdoes) hplaying ?_ nowMs
  rw [hdoes.plays.sceneTopo]
  exact hsize.trans (by decide)

/-- One layer on the first panel, which turns a wheel or shows a colour and then shows a colour. -/
def twoSteps (first : AnimationType) : SceneLayer :=
  { SceneLayer.blank with
    groupId := 1
    target := ⟨[SelOp.toByte .indices, 1, 1], by decide⟩
    steps := [{ SceneStep.zero with animType := first, durationMs := 100 },
      { SceneStep.zero with durationMs := 100 }] }

/-- The text of a scene that repeats two steps. -/
def twoStepsJson (first : String) : Text :=
  bytes "\x7b\"name\":\"w\",\"loop\":true,\"layers\":[\x7b\"group\":1,\"panels\":[1],\"sequence\":[" ++
    bytes first ++ bytes ",\x7b\"type\":\"SOLID\",\"duration\":100\x7d]\x7d]\x7d"

def twoStepsScene (first : AnimationType) : SceneRecord :=
  { SceneRecord.default with name := bytes "w", loop := true, layers := [twoSteps first] }

def twoStepsRun (first : AnimationType) : ScenePlayer :=
  [PlayerEvent.tick 100].foldl handle ((init pairScene).loadAndPlay pairProviders
    (twoStepsScene first).layers (plainHeader true 1) 0)

theorem twoStepsRun_skipsSafely : ((twoStepsRun .solid).atBarrier 200).SkipsSafely 200 ↔
    (((twoStepsRun .solid).atBarrier 200).Restarts →
      ∀ i, ((twoStepsRun .solid).atBarrier 200).SkipsStop i →
        ((twoStepsRun .solid).atBarrier 200).activeOn i = [] ∨
          ((twoStepsRun .solid).atBarrier 200).FirstStepStarts i) :=
  @run_skipsSafely_iff 400 (twoStepsJson "\x7b\"type\":\"SOLID\",\"duration\":100\x7d")
    (twoStepsScene .solid) (by decide +kernel) pairProviders (plainHeader true 1) (init pairScene) 0
    [.tick 100] 200 (by decide +kernel) (by decide +kernel)

/-- The only panel of a wheel has no bearing, so nothing replaces the colour shown on it. -/
theorem twoStepsRun_keeps_playing :
    parseScene 400 (twoStepsJson "\x7b\"runner\":\"WHEEL\",\"duration\":100\x7d") =
        .ok (twoStepsScene .wheel) ∧
      ¬ ((twoStepsRun .wheel).atBarrier 200).SkipsSafely 200 := by
  refine ⟨by decide +kernel, fun hsafe => ?_⟩
  have hrestarts : ((twoStepsRun .wheel).atBarrier 200).Restarts := by
    unfold Restarts
    decide +kernel
  have hskips : ((twoStepsRun .wheel).atBarrier 200).SkipsStop 0 := by
    unfold SkipsStop
    decide +kernel
  have hactive : 1 ∈ ((twoStepsRun .wheel).atBarrier 200).activeOn 0 := by decide +kernel
  have hsent : (((twoStepsRun .wheel).atBarrier 200).endTick 200).sent.drop
      ((twoStepsRun .wheel).atBarrier 200).sent.length = [] := by decide +kernel
  have hreplaces := hsafe hrestarts 0 hskips 1 hactive
  rw [hsent] at hreplaces
  exact not_replaces_of_avoids (by simp) 1 hreplaces

end ScenePlayer

end Lightnet
