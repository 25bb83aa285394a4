import Lightnet.Playback.PlayerMoves
import Lightnet.Scene.Accepted

/-!
# The legs of a bounce

A bounce goes over its panels in legs. One leg is fired when its step is entered, and the others
when a timer runs out that turns the layer around.
-/

namespace Lightnet

open AnimationScheduler (Command)

/-- A leg that was fired for a layer: whether by entering a step or by the timer, the `reverse` of
the step, the direction in which the leg goes over the panels, and what is sent for a leg in either
direction. -/
structure Leg where
  layer : ℕ
  onEntry : Bool
  stepReverse : Bool
  reverse : Bool
  commands : Bool → List Command

/-- A prepare for the layer; its place in the order of composition tells for which. -/
def isPrepareOf (i : ℕ) : Command → Bool
  | .sendPrepareToPanel _ pkt => pkt.composeOrder = u8 i
  | _ => false

namespace Leg

/-- The prepares of the leg, in its direction. -/
def prepares (leg : Leg) : List Command := (leg.commands leg.reverse).filter (isPrepareOf leg.layer)

/-- The leg goes against the direction of its step. -/
def phase (leg : Leg) : Bool := xor leg.stepReverse leg.reverse

/-- The leg goes the other way. -/
def Turns (a b : Leg) : Prop := b.reverse ≠ a.reverse

instance : DecidableRel Turns := fun a b => inferInstanceAs (Decidable (b.reverse ≠ a.reverse))

/-- A step that is entered has the other `reverse`, and the timer finds the same one. -/
def Seamless (a b : Leg) : Prop := b.onEntry = true ↔ b.stepReverse ≠ a.stepReverse

instance : DecidableRel Seamless := fun _ _ => inferInstanceAs (Decidable (_ ↔ _))

theorem seamless_iff_of_same {r : Bool} {legs : List Leg} (h : ∀ leg ∈ legs, leg.stepReverse = r) :
    legs.IsChain Seamless ↔ ∀ leg ∈ legs.tail, leg.onEntry = false := by
  induction legs with
  | nil => simp
  | cons a legs ih =>
      cases legs with
      | nil => simp
      | cons b legs =>
          rw [List.forall_mem_cons] at h
          rw [List.isChain_cons_cons, ih h.2, List.tail_cons, List.tail_cons, List.forall_mem_cons]
          have hsame : b.stepReverse = a.stepReverse :=
            (h.2 b List.mem_cons_self).trans h.1.symm
          unfold Seamless
          simp only [hsame, ne_eq, not_true_eq_false, iff_false, Bool.not_eq_true]

end Leg

/-- Legs that go to and fro, the first one in the direction of its step. -/
def Pendulum (legs : List Leg) : Prop :=
  (∀ leg ∈ legs.head?, leg.reverse = leg.stepReverse) ∧ legs.IsChain Leg.Turns

instance (legs : List Leg) : Decidable (Pendulum legs) := inferInstanceAs (Decidable (_ ∧ _))

namespace ScenePlayer

variable (p : ScenePlayer) (i : ℕ)

/-- The prepares for a layer among what has been sent. -/
def preparesOf : List Command := p.sent.filter (isPrepareOf i)

/-! ### The legs that are fired -/

/-- A leg over the panels of a layer in a direction. -/
def legCommands (passDurMs : Ticks) (reverse : Bool) : List Command :=
  let (maxCoord, coord) := p.linearField (p.step i) (p.panels i) reverse
  ((p.panels i).zip coord).flatMap (fun (panel, c) =>
    sendPulse i (p.layers i).groupId 0 (p.runnerStyle i (p.step i)) panel
      (compileBounce c.toNat maxCoord (sweepWidthOf (p.step i)) passDurMs)) ++
    [.sendGroupStart (p.layers i).groupId]

/-- The leg of `fireBouncePass`. -/
def passLegs (onEntry : Bool) (passDurMs : Ticks) : List Leg :=
  if p.panels i = [] ∨ passDurMs = 0 then []
  else [⟨i, onEntry, isReverse (p.step i), xor (isReverse (p.step i)) (p.bouncePhase i),
    p.legCommands i passDurMs⟩]

/-- The leg of `fireStep`. -/
def fireLegs : List Leg :=
  if (p.step i).animType = .bounce ∧ p.effectiveDurationMs (p.step i).durationMs ≠ 0 then
    p.passLegs i true (atLeastOne (p.effectiveDurationMs (p.step i).durationMs / 2))
  else []

/-- The legs of `flipBounce`. -/
def flipLegs (nowMs : Millis) : ℕ → ScenePlayer → List Leg
  | 0, _ => []
  | n + 1, p =>
    if (p.spawnState i).bounceNextFlipAtMs ≠ 0 ∧ (p.spawnState i).bounceNextFlipAtMs ≤ nowMs then
      (p.flipped i).passLegs i false (p.spawnState i).bouncePassDur ++
        flipLegs nowMs n (p.nextLeg i)
    else []

/-- The legs of `enterStep`. -/
def enterLegs (k : ℕ) (nowMs : Millis) : List Leg := (p.entered i k nowMs).fireLegs i

/-- The legs of `advanceLayer`. -/
def advanceLegs (nowMs : Millis) : List Leg :=
  if p.currentStep i + 1 < (p.layers i).steps.length then p.enterLegs i (p.currentStep i + 1) nowMs
  else if (p.layers i).isAsyncLayer then p.enterLegs i 0 nowMs
  else []

/-- The legs of `tickLayer`. -/
def turnLegs (nowMs : Millis) (p : ScenePlayer) (i : ℕ) : List Leg :=
  if p.layerState i ≠ .running then []
  else if (p.step i).durationMs = 0 then []
  else if nowMs - p.stepStartMs i < p.threshold i then
    if (p.step i).animType = .bounce then flipLegs i nowMs (2 ^ 32) p else []
  else p.advanceLegs i nowMs

/-- The legs of `promoteLayer`. -/
def promoteLegs (nowMs : Millis) (p : ScenePlayer) (i : ℕ) : List Leg :=
  if p.layerState i = .waiting ∧ p.isReady i then (p.woken i).enterLegs i 0 nowMs else []

/-- The legs of `fireArmed`. -/
def armedLegs (includeAsync : Bool) (p : ScenePlayer) (i : ℕ) : List Leg :=
  if p.isArmed includeAsync i ∧ p.layerState i = .running then p.fireLegs i else []

/-- The legs of turns of layers, one after the other. -/
def foldLegs (f : ScenePlayer → ℕ → ScenePlayer) (legs : ScenePlayer → ℕ → List Leg) :
    List ℕ → ScenePlayer → List Leg
  | [], _ => []
  | i :: l, p => legs p i ++ foldLegs f legs l (f p i)

/-- The legs of `armLayers`. -/
def armLegs (nowMs : Millis) (includeAsync : Bool) : List Leg :=
  foldLegs (fireArmed nowMs includeAsync) (armedLegs includeAsync) (List.range p.lCount)
    (p.armed nowMs includeAsync)

/-- The legs of `endTick`. -/
def endLegs (nowMs : Millis) : List Leg :=
  if (p.syncLayers ≠ [] ∧ p.allSyncDone) ∧ p.loop then
    (p.flushPendingStops true).armLegs nowMs false
  else []

/-- The legs of `tick`. -/
def tickLegs (nowMs : Millis) : List Leg :=
  if p.playing then
    let q := (List.range p.lCount).foldl (tickLayer nowMs) p
    foldLegs (tickLayer nowMs) (turnLegs nowMs) (List.range p.lCount) p ++
      foldLegs (promoteLayer nowMs) (promoteLegs nowMs) (List.range q.lCount) q ++
      (p.atBarrier nowMs).endLegs nowMs
  else []

/-- The legs of a scene that is loaded. -/
def loadLegs (env : SceneProviders) (layers : List SceneLayer) (header : Header)
    (nowMs : Millis) : List Leg :=
  ((p.withLayers layers).enterScene env header).armLegs nowMs true

end ScenePlayer

/-- What stops the scene, if only to start it over. -/
def PlayerEvent.stops : PlayerEvent → Bool
  | .tick _ | .setSpeed _ | .reresolvePalettes _ _ _ => false
  | .stop | .resume _ _ | .setLogicalRoot _ _ _ => true

namespace ScenePlayer

/-- The legs of an event by which the scene is not stopped. -/
def eventLegs (p : ScenePlayer) : PlayerEvent → List Leg
  | .tick nowMs => p.tickLegs nowMs
  | _ => []

/-- The legs that are fired while events come in. -/
def runLegs : List PlayerEvent → ScenePlayer → List Leg
  | [], _ => []
  | e :: es, p => p.eventLegs e ++ runLegs es (p.handle e)

/-- The legs of a layer from when the scene is loaded. -/
def layerLegs (p : ScenePlayer) (env : SceneProviders) (layers : List SceneLayer)
    (header : Header) (startMs : Millis) (es : List PlayerEvent) (i : ℕ) : List Leg :=
  (p.loadLegs env layers header startMs ++
    runLegs es (p.loadAndPlay env layers header startMs)).filter fun leg => leg.layer = i

/-! ### What a bounce keeps in mind -/

/-- The direction bit and the timer of a layer are left alone. -/
structure KeepsTimer (i : ℕ) (p q : ScenePlayer) : Prop where
  phase : q.bouncePhase i = p.bouncePhase i
  flipAt : (q.spawnState i).bounceNextFlipAtMs = (p.spawnState i).bounceNextFlipAtMs
  passDur : (q.spawnState i).bouncePassDur = (p.spawnState i).bouncePassDur

namespace KeepsTimer

variable {i : ℕ} {p q r : ScenePlayer}

theorem refl (i : ℕ) (p : ScenePlayer) : KeepsTimer i p p := ⟨rfl, rfl, rfl⟩

theorem trans (h : KeepsTimer i p q) (h' : KeepsTimer i q r) : KeepsTimer i p r where
  phase := h'.phase.trans h.phase
  flipAt := h'.flipAt.trans h.flipAt
  passDur := h'.passDur.trans h.passDur

theorem setSpawn (i : ℕ) (p : ScenePlayer) {st : LayerSpawnState}
    (hflip : st.bounceNextFlipAtMs = (p.spawnState i).bounceNextFlipAtMs)
    (hdur : st.bouncePassDur = (p.spawnState i).bouncePassDur) :
    KeepsTimer i p (p.setSpawn i st) where
  phase := rfl
  flipAt := by
    simp only [ScenePlayer.setSpawn, Function.update_self]
    exact hflip
  passDur := by
    simp only [ScenePlayer.setSpawn, Function.update_self]
    exact hdur

theorem of_layerRun (h : q.layerRun i = p.layerRun i) : KeepsTimer i p q := by
  simp only [layerRun, Prod.mk.injEq] at h
  obtain ⟨-, -, -, -, hphase, hspawn⟩ := h
  refine ⟨hphase, ?_, ?_⟩
  · rw [hspawn]
  · rw [hspawn]

end KeepsTimer

section

variable (p : ScenePlayer) (i : ℕ) (nowMs : Millis)

theorem keepsTimer_emit (commands : List Command) : KeepsTimer i p (p.emit commands) :=
  ⟨rfl, rfl, rfl⟩

theorem keepsTimer_stopLayerGroup : KeepsTimer i p (p.stopLayerGroup i) := by
  unfold stopLayerGroup
  split_ifs
  · exact .refl i p
  · exact keepsTimer_emit p i _

theorem keepsTimer_fireBouncePass (passDurMs : Ticks) :
    KeepsTimer i p (p.fireBouncePass i passDurMs) := by
  unfold fireBouncePass
  dsimp only
  split_ifs
  · exact .refl i p
  · exact keepsTimer_emit p i _

theorem keepsTimer_launchSweeps (count n : ℕ) :
    KeepsTimer i p (launchSweeps i nowMs count n p) := by
  induction n generalizing p with
  | zero => exact .refl i p
  | succ n ih =>
      have hlaunch : KeepsTimer i p (p.launchSweep i count) :=
        (keepsTimer_emit p i _).trans (.setSpawn i _ rfl rfl)
      rw [launchSweeps]
      split_ifs
      · exact hlaunch.trans (ih _)
      · exact .refl i p

theorem keepsTimer_serviceSweepSpawner : KeepsTimer i p (p.serviceSweepSpawner i nowMs) := by
  unfold serviceSweepSpawner
  dsimp only
  split_ifs
  · exact .refl i p
  · exact keepsTimer_launchSweeps p i nowMs _ _

theorem keepsTimer_spawnDrops (drops : DropSource) (l : List ℕ) :
    KeepsTimer i p (l.foldl (fun p _ => p.spawnDrop i drops) p) := by
  induction l generalizing p with
  | nil => exact .refl i p
  | cons d l ih =>
      have hdrop : KeepsTimer i p (p.spawnDrop i drops) :=
        (keepsTimer_emit p i _).trans (.setSpawn i _ rfl rfl)
      exact hdrop.trans (ih _)

theorem keepsTimer_serviceSpawner : KeepsTimer i p (p.serviceSpawner i nowMs) := by
  unfold serviceSpawner
  split_ifs
  · exact .refl i p
  · exact keepsTimer_serviceSweepSpawner p i nowMs
  · unfold serviceParticleSpawner
    dsimp only
    split
    · exact .setSpawn i p rfl rfl
    · exact KeepsTimer.trans (.setSpawn i p (by rfl) (by rfl)) (keepsTimer_spawnDrops _ i _ _)

theorem keepsTimer_fireWheelStep (panels : List ℕ) (dur : Ticks) :
    KeepsTimer i p (p.fireWheelStep i nowMs panels dur) := by
  unfold fireWheelStep
  split
  · exact .refl i p
  · exact (keepsTimer_emit p i _).trans (.setSpawn i _ rfl rfl)

end

/-! ### How legs follow each other -/

end ScenePlayer

/-- Legs after one with the given phase, if there was one, up to the last: entering a step keeps
the phase, and the timer changes it. -/
inductive Swings : Option Bool → List Leg → Option Bool → Prop
  | rest (last : Option Bool) : Swings last [] last
  | entry {last : Option Bool} {legs : List Leg} {last' : Option Bool} (leg : Leg)
      (hentry : leg.onEntry = true) (hphase : leg.phase = last.getD false)
      (h : Swings (some leg.phase) legs last') : Swings last (leg :: legs) last'
  | timer {φ : Bool} {legs : List Leg} {last' : Option Bool} (leg : Leg)
      (hentry : leg.onEntry = false) (hphase : leg.phase = !φ)
      (h : Swings (some leg.phase) legs last') : Swings (some φ) (leg :: legs) last'

namespace Swings

theorem trans {last last' last'' : Option Bool} {legs legs' : List Leg}
    (h : Swings last legs last') (h' : Swings last' legs' last'') :
    Swings last (legs ++ legs') last'' := by
  induction h with
  | rest last => exact h'
  | entry leg hentry hphase h ih => exact .entry leg hentry hphase (ih h')
  | timer leg hentry hphase h ih => exact .timer leg hentry hphase (ih h')

/-- A leg goes the other way if and only if it follows without a seam. -/
theorem turns_iff {a : Leg} {legs : List Leg} {last' : Option Bool}
    (h : Swings (some a.phase) legs last') :
    (a :: legs).IsChain Leg.Turns ↔ (a :: legs).IsChain Leg.Seamless := by
  induction legs generalizing a with
  | nil => simp only [List.isChain_singleton]
  | cons b legs ih =>
      rw [List.isChain_cons_cons, List.isChain_cons_cons]
      cases h with
      | entry _ hentry hphase h =>
          refine and_congr ?_ (ih h)
          unfold Leg.Turns Leg.Seamless
          unfold Leg.phase at hphase
          revert hentry hphase
          cases a.reverse <;> cases b.reverse <;> cases a.stepReverse <;> cases b.stepReverse <;>
            simp
      | timer _ hentry hphase h =>
          refine and_congr ?_ (ih h)
          unfold Leg.Turns Leg.Seamless
          unfold Leg.phase at hphase
          revert hentry hphase
          cases a.reverse <;> cases b.reverse <;> cases a.stepReverse <;> cases b.stepReverse <;>
            simp

theorem pendulum_iff {legs : List Leg} {last' : Option Bool} (h : Swings none legs last') :
    Pendulum legs ↔ legs.IsChain Leg.Seamless := by
  cases h with
  | rest => simp [Pendulum]
  | entry leg hentry hphase h =>
      have hfirst : leg.reverse = leg.stepReverse := by
        have hsame : leg.stepReverse = leg.reverse := by simpa [Leg.phase] using hphase
        exact hsame.symm
      unfold Pendulum
      rw [h.turns_iff]
      refine and_iff_right fun first hhead => ?_
      rw [List.head?_cons, Option.mem_some_iff] at hhead
      rw [← hhead]
      exact hfirst

end Swings

namespace ScenePlayer

/-- The direction bit is that of the last leg, and the timer runs only after a leg. -/
structure LegsAt (i : ℕ) (last : Option Bool) (p : ScenePlayer) : Prop where
  phase : p.bouncePhase i = last.getD false
  timer : (p.spawnState i).bounceNextFlipAtMs ≠ 0 →
    (p.spawnState i).bouncePassDur ≠ 0 ∧ p.panels i ≠ [] ∧ last ≠ none

theorem LegsAt.keeps {i : ℕ} {last : Option Bool} {p q : ScenePlayer} (h : LegsAt i last p)
    (hkeeps : KeepsTimer i p q) (hpanels : q.panels i = p.panels i) : LegsAt i last q where
  phase := hkeeps.phase.trans h.phase
  timer hflip := by
    rw [hkeeps.flipAt] at hflip
    rw [hkeeps.passDur, hpanels]
    exact h.timer hflip

/-- A layer of the scene with bounces only, at one of them. -/
structure Bounces (i : ℕ) (p : ScenePlayer) : Prop where
  lt : i < p.lCount
  count : p.lCount ≤ sceneMaxLayers
  steps : ∀ step ∈ (p.layers i).steps, step.animType = .bounce
  current : p.currentStep i < (p.layers i).steps.length

/-- From one state of the player to the next, a layer goes on with the legs in a list: they swing
on from the last one, and the prepares for a layer with bounces only are those of the legs. -/
structure GoesOn (i : ℕ) (p : ScenePlayer) (legs : List Leg) (q : ScenePlayer) : Prop where
  swings : ∀ last, LegsAt i last p →
    ∃ last', Swings last (legs.filter fun leg => leg.layer = i) last' ∧ LegsAt i last' q
  sends : Bounces i p → Bounces i q ∧
    q.preparesOf i = p.preparesOf i ++ (legs.filter fun leg => leg.layer = i).flatMap Leg.prepares

section

variable {i : ℕ} {p q : ScenePlayer}

theorem Bounces.congr (h : Bounces i p) (hlayers : q.layers = p.layers) (hcount : q.lCount = p.lCount)
    (hstep : q.currentStep i = p.currentStep i) : Bounces i q where
  lt := hcount ▸ h.lt
  count := hcount ▸ h.count
  steps := hlayers ▸ h.steps
  current := by
    rw [hlayers, hstep]
    exact h.current

theorem Bounces.step (h : Bounces i p) : (p.step i).animType = .bounce := by
  apply h.steps
  unfold ScenePlayer.step
  rw [List.getD_eq_getElem?_getD, List.getElem?_eq_getElem h.current]
  exact List.getElem_mem h.current

theorem preparesOf_emit (commands : List Command) :
    (p.emit commands).preparesOf i = p.preparesOf i ++ commands.filter (isPrepareOf i) :=
  List.filter_append _ _

theorem preparesOf_stopLayerGroup (j : ℕ) : (p.stopLayerGroup j).preparesOf i = p.preparesOf i := by
  unfold stopLayerGroup
  split_ifs
  · rfl
  · exact (preparesOf_emit _).trans (List.append_nil _)

/-- What is sent for another layer is no prepare for this one. -/
theorem Sends.not_prepareOf {j : ℕ} {c : Command} (h : p.Sends j c) (hij : j ≠ i)
    (hb : Bounces i p) : isPrepareOf i c = false := by
  have hj : j < p.lCount := h.lt
  have hi := hb.lt
  have hcount := hb.count
  have hne : u8 j ≠ u8 i := by
    unfold sceneMaxLayers at hcount
    intro heq
    have hnat := congrArg BitVec.toNat heq
    simp only [u8, BitVec.toNat_ofNat] at hnat
    omega
  cases h with
  | stop hi => rfl
  | own h ha hgroup horder hflags huses =>
      exact decide_eq_false (horder ▸ hne)
  | start h huses => rfl
  | spawned h hgroup horder hflags hspawner hpool =>
      exact decide_eq_false (horder ▸ hne)
  | spawnStart h hspawner hpool => rfl

theorem Moves.currentStep_other {nowMs : Millis} {j : ℕ} (h : Moves nowMs j p q) (hij : j ≠ i) :
    q.currentStep i = p.currentStep i := by
  cases h with
  | enter k h hk => exact Function.update_of_ne hij.symm _ _
  | stop hi => exact congrFun (fires_stopLayerGroup p j).currentStep i
  | bounce passDurMs h htype => exact congrFun (fires_fireBouncePass p j passDurMs).currentStep i
  | _ => rfl

/-- The moves for other layers. -/
theorem DoesFor.bounces_other {nowMs : Millis} {j : ℕ} (h : DoesFor nowMs j p q) (hij : j ≠ i)
    (hb : Bounces i p) : Bounces i q ∧ q.preparesOf i = p.preparesOf i := by
  induction h with
  | refl => exact ⟨hb, rfl⟩
  | tail _ hmove ih =>
      obtain ⟨hmid, hprepares⟩ := ih
      obtain ⟨new, hsent, hnew⟩ := hmove.sends
      refine ⟨hmid.congr hmove.plays.layers hmove.plays.lCount (hmove.currentStep_other hij), ?_⟩
      have hnone : new.filter (isPrepareOf i) = [] := by
        refine List.filter_eq_nil_iff.mpr fun c hc => ?_
        rw [(hnew c hc).not_prepareOf hij hmid]
        exact Bool.false_ne_true
      rw [← hprepares]
      unfold preparesOf
      rw [hsent, List.filter_append, hnone, List.append_nil]

end

namespace GoesOn

variable {i : ℕ} {p q r : ScenePlayer} {legs legs' : List Leg}

theorem trans (h : GoesOn i p legs q) (h' : GoesOn i q legs' r) :
    GoesOn i p (legs ++ legs') r := by
  refine ⟨fun last hlast => ?_, fun hb => ?_⟩
  · obtain ⟨mid, hswings, hmid⟩ := h.swings last hlast
    obtain ⟨last', hswings', hlast'⟩ := h'.swings mid hmid
    refine ⟨last', ?_, hlast'⟩
    rw [List.filter_append]
    exact hswings.trans hswings'
  · obtain ⟨hmid, hsent⟩ := h.sends hb
    obtain ⟨hend, hsent'⟩ := h'.sends hmid
    refine ⟨hend, ?_⟩
    rw [hsent', hsent, List.filter_append, List.flatMap_append, List.append_assoc]

theorem of_keeps (hlegs : ∀ leg ∈ legs, leg.layer ≠ i) (hkeeps : KeepsTimer i p q)
    (hpanels : q.panels i = p.panels i)
    (hsends : Bounces i p → Bounces i q ∧ q.preparesOf i = p.preparesOf i) :
    GoesOn i p legs q := by
  have hnone : (legs.filter fun leg => leg.layer = i) = [] :=
    List.filter_eq_nil_iff.mpr fun leg hleg => by simpa using hlegs leg hleg
  refine ⟨fun last hlast => ?_, fun hb => ?_⟩
  · rw [hnone]
    exact ⟨last, .rest last, hlast.keeps hkeeps hpanels⟩
  · rw [hnone, List.flatMap_nil, List.append_nil]
    exact hsends hb

theorem refl (i : ℕ) (p : ScenePlayer) : GoesOn i p [] p :=
  of_keeps (fun _ hleg => absurd hleg List.not_mem_nil) (.refl i p) rfl fun hb => ⟨hb, rfl⟩

/-- Nothing is sent for the layer but a stop. -/
theorem of_fires (hkeeps : KeepsTimer i p q) (hfires : Fires i p q)
    (hsent : Bounces i p → q.preparesOf i = p.preparesOf i) : GoesOn i p [] q :=
  of_keeps (fun _ hleg => absurd hleg List.not_mem_nil) hkeeps (hfires.panels i) fun hb =>
    ⟨hb.congr hfires.layers hfires.lCount (congrFun hfires.currentStep i), hsent hb⟩

/-- A step of another kind, which a layer with bounces only does not have. -/
theorem of_other (hnot : (p.step i).animType ≠ .bounce) (hkeeps : KeepsTimer i p q)
    (hfires : Fires i p q) : GoesOn i p [] q :=
  of_fires hkeeps hfires fun hb => absurd hb.step hnot

/-- Another layer has its turn. -/
theorem of_touches {nowMs : Millis} {j : ℕ} (hij : j ≠ i) (hlegs : ∀ leg ∈ legs, leg.layer = j)
    (h : Touches j p q) (hdoes : DoesFor nowMs j p q) : GoesOn i p legs q := by
  exact of_keeps (fun leg hleg => (hlegs leg hleg).trans_ne hij)
    (.of_layerRun (h.other i hij.symm)) (h.plays.panels i) (hdoes.bounces_other hij)

end GoesOn

/-! ### Firing a leg -/

section

variable {i : ℕ} {p : ScenePlayer}

theorem passLegs_eq (onEntry : Bool) {passDurMs : Ticks} (hpanels : p.panels i ≠ [])
    (hdur : passDurMs ≠ 0) : ∃ leg : Leg, p.passLegs i onEntry passDurMs = [leg] ∧
      leg.layer = i ∧ leg.onEntry = onEntry ∧ leg.phase = p.bouncePhase i := by
  unfold passLegs
  rw [if_neg (not_or.mpr ⟨hpanels, hdur⟩)]
  refine ⟨_, rfl, rfl, rfl, ?_⟩
  unfold Leg.phase
  rw [← Bool.xor_assoc, Bool.xor_self, Bool.false_xor]

theorem fireBouncePass_sent (onEntry : Bool) (passDurMs : Ticks) :
    (p.fireBouncePass i passDurMs).sent =
      p.sent ++ (p.passLegs i onEntry passDurMs).flatMap fun leg => leg.commands leg.reverse := by
  unfold fireBouncePass passLegs
  dsimp only
  split_ifs
  · exact (List.append_nil _).symm
  · simp only [List.flatMap_cons, List.flatMap_nil, List.append_nil]
    rfl

theorem filter_passLegs (onEntry : Bool) (passDurMs : Ticks) :
    ((p.passLegs i onEntry passDurMs).filter fun leg => leg.layer = i) =
      p.passLegs i onEntry passDurMs := by
  unfold passLegs
  split_ifs
  · rfl
  · exact List.filter_cons_of_pos (decide_eq_true rfl)

/-- The prepares of a leg go in the direction that the leg is in. -/
theorem fireBouncePass_preparesOf (onEntry : Bool) (passDurMs : Ticks) :
    (p.fireBouncePass i passDurMs).preparesOf i = p.preparesOf i ++
      ((p.passLegs i onEntry passDurMs).filter fun leg => leg.layer = i).flatMap Leg.prepares := by
  rw [filter_passLegs]
  unfold preparesOf
  rw [fireBouncePass_sent onEntry, List.filter_append]
  unfold passLegs
  split_ifs
  · rfl
  · simp only [List.flatMap_cons, List.flatMap_nil, List.append_nil]
    rfl

/-- On entering a step the layer goes on in the direction it had. -/
theorem goesOn_fireBounceStep (nowMs : Millis) (dur : Ticks) (hpanels : p.panels i ≠ []) :
    GoesOn i p (p.passLegs i true (atLeastOne (dur / 2))) (p.fireBounceStep i nowMs dur) := by
  have hfires := fires_fireBounceStep p i nowMs dur
  refine ⟨fun last hlast => ?_, fun hb => ⟨?_, ?_⟩⟩
  · obtain ⟨leg, hleg, hlayer, hentry, hphase⟩ :=
      passLegs_eq (p := p) (i := i) true hpanels (atLeastOne_ne_zero (dur / 2))
    rw [hleg, List.filter_cons_of_pos (by simpa using hlayer), List.filter_nil]
    refine ⟨some leg.phase, .entry leg hentry (hphase.trans hlast.phase) (.rest _), ?_⟩
    have htimed : LegsAt i (some leg.phase) (p.setSpawn i { p.spawnState i with
        bouncePassDur := atLeastOne (dur / 2)
        bounceNextFlipAtMs := nowMs + (atLeastOne (dur / 2)).setWidth 32 }) := by
      refine ⟨?_, fun _ => ⟨?_, hpanels, Option.some_ne_none _⟩⟩
      · rw [Option.getD_some, hphase]
        rfl
      · simp only [setSpawn, Function.update_self]
        exact atLeastOne_ne_zero (dur / 2)
    exact htimed.keeps (keepsTimer_fireBouncePass _ i _) ((fires_fireBouncePass _ i _).panels i)
  · exact hb.congr hfires.layers hfires.lCount (congrFun hfires.currentStep i)
  · exact fireBouncePass_preparesOf (p := p.setSpawn i _) true (atLeastOne (dur / 2))

/-- The timer turns the layer around. -/
theorem goesOn_nextLeg (hflip : (p.spawnState i).bounceNextFlipAtMs ≠ 0) :
    GoesOn i p ((p.flipped i).passLegs i false (p.spawnState i).bouncePassDur) (p.nextLeg i) := by
  have hfires := fires_nextLeg p i
  refine ⟨fun last hlast => ?_, fun hb => ⟨?_, ?_⟩⟩
  · obtain ⟨hdur, hpanels, hsome⟩ := hlast.timer hflip
    obtain ⟨φ, rfl⟩ := Option.ne_none_iff_exists'.mp hsome
    obtain ⟨leg, hleg, hlayer, hentry, hphase⟩ :=
      passLegs_eq (p := p.flipped i) (i := i) false hpanels hdur
    have hturned : (p.flipped i).bouncePhase i = !φ := by
      simp only [flipped, Function.update_self, hlast.phase, Option.getD_some]
    rw [hleg, List.filter_cons_of_pos (by simpa using hlayer), List.filter_nil]
    refine ⟨some leg.phase, .timer leg hentry (hphase.trans hturned) (.rest _), ?_, ?_⟩
    · rw [Option.getD_some, hphase]
      exact (keepsTimer_fireBouncePass (p.flipped i) i _).phase
    · intro _
      rw [hfires.panels i]
      refine ⟨?_, hpanels, Option.some_ne_none _⟩
      unfold nextLeg
      simp only [setSpawn, Function.update_self]
      exact hdur
  · exact hb.congr hfires.layers hfires.lCount (congrFun hfires.currentStep i)
  · exact fireBouncePass_preparesOf (p := p.flipped i) false (p.spawnState i).bouncePassDur

theorem goesOn_flipBounce (nowMs : Millis) (n : ℕ) :
    GoesOn i p (flipLegs i nowMs n p) (flipBounce i nowMs n p) := by
  induction n generalizing p with
  | zero => exact .refl i p
  | succ n ih =>
      rw [flipLegs, flipBounce]
      split_ifs with hdue
      · exact (goesOn_nextLeg hdue.1).trans ih
      · exact .refl i p

theorem goesOn_stopLayerGroup : GoesOn i p [] (p.stopLayerGroup i) :=
  .of_fires (keepsTimer_stopLayerGroup p i) (fires_stopLayerGroup p i) fun _ =>
    preparesOf_stopLayerGroup i

theorem goesOn_fireStep (nowMs : Millis) : GoesOn i p (p.fireLegs i) (p.fireStep i nowMs) := by
  have hother (hnot : (p.step i).animType ≠ .bounce) : p.fireLegs i = [] :=
    if_neg fun h => hnot h.1
  unfold fireStep
  dsimp only
  split_ifs with hgap hpanels hrunner hparticle hdur hbounce hwheel
  · rw [hother (by rw [hgap]; decide)]
    exact goesOn_stopLayerGroup
  · have hnone : p.fireLegs i = [] := by
      unfold fireLegs passLegs
      rw [if_pos (Or.inl hpanels), ite_self]
    rw [hnone]
    exact .refl i p
  · have hnot : (p.step i).animType ≠ .bounce := by
      intro hbounce
      rw [hbounce] at hparticle
      cases hparticle
    rw [hother hnot]
    exact .of_other hnot (.setSpawn i p rfl rfl) (fires_setSpawn p i _)
  · have hnone : p.fireLegs i = [] := if_neg fun h => h.2 hdur
    rw [hnone]
    exact .refl i p
  · have hfire : p.fireLegs i =
        p.passLegs i true (atLeastOne (p.effectiveDurationMs (p.step i).durationMs / 2)) :=
      if_pos ⟨hbounce, hdur⟩
    rw [hfire]
    exact goesOn_fireBounceStep nowMs _ hpanels
  · rw [hother hbounce]
    exact .of_other hbounce (keepsTimer_fireWheelStep p i nowMs _ _)
      (fires_fireWheelStep p i nowMs _ _)
  · rw [hother hbounce]
    exact .of_other hbounce (KeepsTimer.trans (.setSpawn i p (by rfl) (by rfl))
      (keepsTimer_serviceSweepSpawner _ i nowMs)) (fires_fireSweepStep p i nowMs _ _)
  · have hnot : (p.step i).animType ≠ .bounce := by
      intro hbounce
      rw [hbounce] at hrunner
      exact hrunner rfl
    rw [hother hnot]
    exact .of_other hnot (keepsTimer_emit p i _) (fires_emit p i _)

theorem goesOn_enterStep {k : ℕ} (nowMs : Millis) (hk : k = 0 ∨ k < (p.layers i).steps.length) :
    GoesOn i p (p.enterLegs i k nowMs) (p.enterStep i k nowMs) := by
  have hentered : GoesOn i p [] (p.entered i k nowMs) := by
    refine .of_keeps (fun _ hleg => absurd hleg List.not_mem_nil) ⟨rfl, rfl, rfl⟩ rfl fun hb =>
      ⟨⟨hb.lt, hb.count, hb.steps, ?_⟩, rfl⟩
    have hcurrent := hb.current
    change Function.update p.currentStep i k i < (p.layers i).steps.length
    rw [Function.update_self]
    omega
  exact hentered.trans (goesOn_fireStep nowMs)

theorem goesOn_serviceStep (nowMs : Millis) :
    GoesOn i p (if (p.step i).animType = .bounce then flipLegs i nowMs (2 ^ 32) p else [])
      (p.serviceStep i nowMs) := by
  unfold serviceStep
  dsimp only
  by_cases hbounce : (p.step i).animType = .bounce
  · rw [if_pos hbounce, if_neg (by rw [hbounce]; decide), if_pos hbounce]
    exact goesOn_flipBounce nowMs _
  · rw [if_neg hbounce, if_neg hbounce]
    split_ifs
    · exact .of_other hbounce
        (KeepsTimer.trans (.setSpawn i p (by rfl) (by rfl)) (keepsTimer_stopLayerGroup _ i))
        ((fires_setSpawn p i _).trans (fires_stopLayerGroup _ i))
    · exact .refl i p
    · exact .of_other hbounce (keepsTimer_serviceSpawner p i nowMs)
        (fires_serviceSpawner p i nowMs)
    · exact .refl i p

/-- What a layer only remembers about how far it has come. -/
theorem GoesOn.of_note {q : ScenePlayer} (hkeeps : KeepsTimer i p q)
    (hlayers : q.layers = p.layers) (hcount : q.lCount = p.lCount)
    (hstep : q.currentStep i = p.currentStep i) (hpanels : q.panels i = p.panels i)
    (hsent : q.sent = p.sent) : GoesOn i p [] q :=
  .of_keeps (fun _ hleg => absurd hleg List.not_mem_nil) hkeeps hpanels fun hb =>
    ⟨hb.congr hlayers hcount hstep, congrArg (List.filter (isPrepareOf i)) hsent⟩

theorem goesOn_advanceLayer (nowMs : Millis) :
    GoesOn i p (p.advanceLegs i nowMs) (p.advanceLayer i nowMs) := by
  unfold advanceLegs advanceLayer
  split_ifs with hnext
  · exact goesOn_enterStep nowMs (.inr hnext)
  · exact goesOn_enterStep nowMs (.inl rfl)
  · exact .of_note ⟨rfl, rfl, rfl⟩ rfl rfl rfl rfl rfl

theorem goesOn_tickLayer_self (nowMs : Millis) :
    GoesOn i p (turnLegs nowMs p i) (tickLayer nowMs p i) := by
  unfold turnLegs tickLayer
  by_cases hrun : p.layerState i ≠ .running
  · rw [if_pos hrun, if_pos hrun]
    exact .refl i p
  rw [if_neg hrun, if_neg hrun]
  by_cases hzero : (p.step i).durationMs = 0
  · rw [if_pos hzero, if_pos hzero]
    split_ifs with hspawner
    · have hnot : (p.step i).animType ≠ .bounce := by
        intro hbounce
        rw [hbounce] at hspawner
        cases hspawner
      exact .of_other hnot (keepsTimer_serviceSpawner p i nowMs) (fires_serviceSpawner p i nowMs)
    · exact .refl i p
  rw [if_neg hzero, if_neg hzero]
  by_cases hlasts : nowMs - p.stepStartMs i < p.threshold i
  · rw [if_pos hlasts, if_pos hlasts]
    exact goesOn_serviceStep nowMs
  · rw [if_neg hlasts, if_neg hlasts]
    exact goesOn_advanceLayer nowMs

theorem goesOn_promoteLayer_self (nowMs : Millis) :
    GoesOn i p (promoteLegs nowMs p i) (promoteLayer nowMs p i) := by
  unfold promoteLegs promoteLayer
  split_ifs
  · have hwoken : GoesOn i p [] (p.woken i) := .of_note ⟨rfl, rfl, rfl⟩ rfl rfl rfl rfl rfl
    exact hwoken.trans (goesOn_enterStep nowMs (.inl rfl))
  · exact .refl i p

theorem goesOn_fireArmed_self (nowMs : Millis) (includeAsync : Bool) :
    GoesOn i p (armedLegs includeAsync p i) (fireArmed nowMs includeAsync p i) := by
  unfold armedLegs fireArmed
  split_ifs
  · exact goesOn_fireStep nowMs
  · exact .refl i p

end

/-! ### The legs of a run -/

/-- A leg of a bounce among the steps of a layer. -/
structure LegOf (layers : ℕ → SceneLayer) (i : ℕ) (leg : Leg) : Prop where
  layer : leg.layer = i
  step : ∃ step ∈ (layers i).steps, step.animType = .bounce ∧ leg.stepReverse = isReverse step

theorem step_mem_of_bounce {p : ScenePlayer} {i : ℕ} (h : (p.step i).animType = .bounce) :
    p.step i ∈ (p.layers i).steps := by
  refine (step_mem_or p i).resolve_right fun hzero => ?_
  rw [hzero] at h
  cases h

theorem legOf_passLegs {p : ScenePlayer} {i : ℕ} (hbounce : (p.step i).animType = .bounce)
    {onEntry : Bool} {passDurMs : Ticks} {leg : Leg} (h : leg ∈ p.passLegs i onEntry passDurMs) :
    LegOf p.layers i leg := by
  unfold passLegs at h
  split_ifs at h
  · exact absurd h List.not_mem_nil
  · rw [List.mem_singleton.mp h]
    exact ⟨rfl, p.step i, step_mem_of_bounce hbounce, hbounce, rfl⟩

theorem legOf_fireLegs {p : ScenePlayer} {i : ℕ} {leg : Leg} (h : leg ∈ p.fireLegs i) :
    LegOf p.layers i leg := by
  unfold fireLegs at h
  split_ifs at h with hbounce
  · exact legOf_passLegs hbounce.1 h
  · exact absurd h List.not_mem_nil

theorem legOf_flipLegs {i : ℕ} {nowMs : Millis} {n : ℕ} {p : ScenePlayer}
    (hbounce : (p.step i).animType = .bounce) {leg : Leg} (h : leg ∈ flipLegs i nowMs n p) :
    LegOf p.layers i leg := by
  induction n generalizing p with
  | zero => exact absurd h List.not_mem_nil
  | succ n ih =>
      rw [flipLegs] at h
      split_ifs at h
      · rcases List.mem_append.mp h with h | h
        · exact legOf_passLegs (p := p.flipped i) hbounce h
        · have hleg := fires_nextLeg p i
          rw [← hleg.layers]
          exact ih ((hleg.step i).symm ▸ hbounce) h
      · exact absurd h List.not_mem_nil

theorem legOf_turnLegs {nowMs : Millis} {p : ScenePlayer} {i : ℕ} {leg : Leg}
    (h : leg ∈ turnLegs nowMs p i) : LegOf p.layers i leg := by
  unfold turnLegs advanceLegs enterLegs at h
  split_ifs at h with hrun hzero hlasts hbounce
  · exact absurd h List.not_mem_nil
  · exact absurd h List.not_mem_nil
  · exact legOf_flipLegs hbounce h
  · exact absurd h List.not_mem_nil
  · exact legOf_fireLegs (p := p.entered i (p.currentStep i + 1) nowMs) h
  · exact legOf_fireLegs (p := p.entered i 0 nowMs) h
  · exact absurd h List.not_mem_nil

theorem legOf_promoteLegs {nowMs : Millis} {p : ScenePlayer} {i : ℕ} {leg : Leg}
    (h : leg ∈ promoteLegs nowMs p i) : LegOf p.layers i leg := by
  unfold promoteLegs enterLegs at h
  split_ifs at h
  · exact legOf_fireLegs (p := (p.woken i).entered i 0 nowMs) h
  · exact absurd h List.not_mem_nil

theorem legOf_armedLegs {includeAsync : Bool} {p : ScenePlayer} {i : ℕ} {leg : Leg}
    (h : leg ∈ armedLegs includeAsync p i) : LegOf p.layers i leg := by
  unfold armedLegs at h
  split_ifs at h
  · exact legOf_fireLegs h
  · exact absurd h List.not_mem_nil

theorem legOf_foldLegs {f : ScenePlayer → ℕ → ScenePlayer} {legs : ScenePlayer → ℕ → List Leg}
    (htouch : ∀ p j, Touches j p (f p j))
    (hlegs : ∀ p j, ∀ leg ∈ legs p j, LegOf p.layers j leg) {l : List ℕ} {p : ScenePlayer}
    {leg : Leg} (h : leg ∈ foldLegs f legs l p) : LegOf p.layers leg.layer leg := by
  induction l generalizing p with
  | nil => exact absurd h List.not_mem_nil
  | cons j l ih =>
      rcases List.mem_append.mp h with h | h
      · have hleg := hlegs p j leg h
        rw [hleg.layer]
        exact hleg
      · rw [← (htouch p j).plays.layers]
        exact ih h

theorem legOf_armLegs {nowMs : Millis} {includeAsync : Bool} {p : ScenePlayer} {leg : Leg}
    (h : leg ∈ p.armLegs nowMs includeAsync) : LegOf p.layers leg.layer leg :=
  legOf_foldLegs (p := p.armed nowMs includeAsync)
    (fun q j => touches_fireArmed q j nowMs includeAsync) (fun _ _ _ => legOf_armedLegs) h

theorem legOf_tickLegs {nowMs : Millis} {p : ScenePlayer} {leg : Leg} (h : leg ∈ p.tickLegs nowMs) :
    LegOf p.layers leg.layer leg := by
  have hturns := foldl_plays (fun q j => touches_tickLayer q j nowMs) (List.range p.lCount) p
  unfold tickLegs at h
  split_ifs at h
  · rcases List.mem_append.mp h with h | h
    · rcases List.mem_append.mp h with h | h
      · exact legOf_foldLegs (fun q j => touches_tickLayer q j nowMs)
          (fun _ _ _ => legOf_turnLegs) h
      · rw [← hturns.layers]
        exact legOf_foldLegs (fun q j => touches_promoteLayer q j nowMs)
          (fun _ _ _ => legOf_promoteLegs) h
    · unfold endLegs at h
      split_ifs at h
      · have hwakes : Plays p (p.atBarrier nowMs) :=
          hturns.trans (foldl_plays (fun q j => touches_promoteLayer q j nowMs) _ _)
        rw [← (hwakes.trans (plays_flushPendingStops _ true)).layers]
        exact legOf_armLegs h
      · exact absurd h List.not_mem_nil
  · exact absurd h List.not_mem_nil

theorem handle_keeps_layers {p : ScenePlayer} {e : PlayerEvent} (he : e.stops = false) :
    (p.handle e).layers = p.layers := by
  cases e with
  | tick nowMs => exact (plays_tick p nowMs).layers
  | stop => cases he
  | resume env nowMs => cases he
  | setSpeed s => rfl
  | setLogicalRoot env panelIndex nowMs => cases he
  | reresolvePalettes env newPal newColors =>
      unfold handle reresolvePalettes
      dsimp only
      split <;> rfl

theorem legOf_runLegs {es : List PlayerEvent} (hes : ∀ e ∈ es, e.stops = false) {p : ScenePlayer}
    {leg : Leg} (h : leg ∈ runLegs es p) : LegOf p.layers leg.layer leg := by
  induction es generalizing p with
  | nil => exact absurd h List.not_mem_nil
  | cons e es ih =>
      rw [List.forall_mem_cons] at hes
      rcases List.mem_append.mp h with h | h
      · cases e with
        | tick nowMs => exact legOf_tickLegs h
        | stop => exact absurd h List.not_mem_nil
        | resume env nowMs => exact absurd h List.not_mem_nil
        | setSpeed s => exact absurd h List.not_mem_nil
        | setLogicalRoot env panelIndex nowMs => exact absurd h List.not_mem_nil
        | reresolvePalettes env newPal newColors => exact absurd h List.not_mem_nil
      · rw [← handle_keeps_layers hes.1]
        exact ih hes.2 h

section

variable (i : ℕ) (p : ScenePlayer) (nowMs : Millis)

theorem goesOn_foldl {f : ScenePlayer → ℕ → ScenePlayer} {legs : ScenePlayer → ℕ → List Leg}
    (htouch : ∀ p j, Touches j p (f p j))
    (hlegs : ∀ p j, ∀ leg ∈ legs p j, LegOf p.layers j leg)
    (hdoes : ∀ p j, j < p.lCount → p.playing = true → DoesFor nowMs j p (f p j))
    (hself : ∀ p, GoesOn i p (legs p i) (f p i)) {l : List ℕ} (hl : ∀ j ∈ l, j < p.lCount)
    (hplay : p.playing = true) : GoesOn i p (foldLegs f legs l p) (l.foldl f p) := by
  induction l generalizing p with
  | nil => exact .refl i p
  | cons j l ih =>
      have ht := htouch p j
      have hrest := ih (p := f p j)
        (fun k hk => ht.plays.lCount ▸ hl k (List.mem_cons_of_mem j hk)) (ht.playing.trans hplay)
      by_cases hj : j = i
      · subst hj
        exact (hself p).trans hrest
      · have hleave := GoesOn.of_touches hj (fun leg hleg => (hlegs p j leg hleg).layer) ht
          (hdoes p j (hl j List.mem_cons_self) hplay)
        exact hleave.trans hrest

theorem goesOn_fireArmedLayers (includeAsync : Bool) (hplay : p.playing = true) :
    GoesOn i (p.armed nowMs includeAsync) (p.armLegs nowMs includeAsync)
      (p.armLayers nowMs includeAsync) :=
  goesOn_foldl i (p.armed nowMs includeAsync) nowMs
    (fun q j => touches_fireArmed q j nowMs includeAsync) (fun _ _ _ => legOf_armedLegs)
    (fun q _ hj _ => does_fireArmed nowMs q hj includeAsync)
    (fun _ => goesOn_fireArmed_self nowMs includeAsync) (fun _ hj => List.mem_range.mp hj) hplay

theorem goesOn_armLayers (includeAsync : Bool) (hplay : p.playing = true) :
    GoesOn i p (p.armLegs nowMs includeAsync) (p.armLayers nowMs includeAsync) := by
  have harmed : GoesOn i p [] (p.armed nowMs includeAsync) := by
    refine .of_keeps (fun _ hleg => absurd hleg List.not_mem_nil) ⟨rfl, rfl, rfl⟩ rfl fun hb =>
      ⟨⟨hb.lt, hb.count, hb.steps, ?_⟩, rfl⟩
    have hcurrent := hb.current
    change (if p.isArmed includeAsync i then 0 else p.currentStep i) < (p.layers i).steps.length
    split_ifs <;> omega
  exact harmed.trans (goesOn_fireArmedLayers i p nowMs includeAsync hplay)

theorem foldLegs_none (f : ScenePlayer → ℕ → ScenePlayer) (l : List ℕ) :
    foldLegs f (fun _ _ => []) l p = [] := by
  induction l generalizing p with
  | nil => rfl
  | cons j l ih => exact ih _

theorem goesOn_flushStop_self (restarting : Bool) : GoesOn i p [] (flushStop restarting p i) := by
  have hflag : GoesOn i p [] (p.flushed i) := .of_note ⟨rfl, rfl, rfl⟩ rfl rfl rfl rfl rfl
  unfold flushStop
  dsimp only
  split_ifs
  · exact hflag
  · exact hflag.trans goesOn_stopLayerGroup
  · exact .refl i p

theorem goesOn_flushPendingStops (restarting : Bool) (hplay : p.playing = true) :
    GoesOn i p [] (p.flushPendingStops restarting) := by
  have h := goesOn_foldl i p 0 (fun q j => touches_flushStop q j restarting)
    (fun _ _ _ hleg => absurd hleg List.not_mem_nil)
    (fun q _ hj _ => does_flushStop 0 q hj restarting)
    (fun q => goesOn_flushStop_self i q restarting) (l := List.range p.lCount)
    (fun _ hj => List.mem_range.mp hj) hplay
  rw [foldLegs_none] at h
  exact h

theorem goesOn_endTick (hplay : p.playing = true) :
    GoesOn i p (p.endLegs nowMs) (p.endTick nowMs) := by
  unfold endLegs endTick
  dsimp only
  by_cases hover : p.syncLayers ≠ [] ∧ p.allSyncDone
  · rw [if_neg (not_not.mpr hover)]
    by_cases hloop : p.loop
    · have hplay' : (p.flushPendingStops true).playing = true :=
        (does_foldl (p := p) nowMs (fun q i => touches_flushStop q i true)
          (fun q i hi _ => does_flushStop nowMs q hi true) (l := List.range p.lCount)
          (fun i hi => List.mem_range.mp hi) hplay).2
      rw [if_pos ⟨hover, hloop⟩, if_pos hloop, decide_eq_true ⟨hover, hloop⟩]
      exact (goesOn_flushPendingStops i p true hplay).trans
        (goesOn_armLayers i _ nowMs false hplay')
    · rw [if_neg fun h => hloop h.2, if_neg hloop]
      split_ifs
      · exact goesOn_flushPendingStops i p _ hplay
      · exact (goesOn_flushPendingStops i p _ hplay).trans
          (.of_note ⟨rfl, rfl, rfl⟩ rfl rfl rfl rfl rfl)
  · rw [if_neg fun h => hover h.1, if_pos hover]
    exact goesOn_flushPendingStops i p _ hplay

theorem goesOn_tick : GoesOn i p (p.tickLegs nowMs) (p.tick nowMs) := by
  unfold tickLegs tick
  split_ifs with hplay
  · have hturns := goesOn_foldl i p nowMs (fun q j => touches_tickLayer q j nowMs)
      (fun _ _ _ => legOf_turnLegs) (fun q j hj _ => does_tickLayer nowMs q hj)
      (fun _ => goesOn_tickLayer_self nowMs) (l := List.range p.lCount)
      (fun _ hj => List.mem_range.mp hj) hplay
    have hplay' := (does_foldl (p := p) nowMs (fun q i => touches_tickLayer q i nowMs)
      (fun q i hi _ => does_tickLayer nowMs q hi) (l := List.range p.lCount)
      (fun i hi => List.mem_range.mp hi) hplay).2
    have hwakes := goesOn_foldl i ((List.range p.lCount).foldl (tickLayer nowMs) p) nowMs
      (fun q j => touches_promoteLayer q j nowMs) (fun _ _ _ => legOf_promoteLegs)
      (fun q j hj hplay => does_promoteLayer nowMs q hj hplay)
      (fun _ => goesOn_promoteLayer_self nowMs)
      (l := List.range ((List.range p.lCount).foldl (tickLayer nowMs) p).lCount)
      (fun _ hj => List.mem_range.mp hj) hplay'
    exact (hturns.trans hwakes).trans
      (goesOn_endTick i _ nowMs (does_atBarrier hplay nowMs).2)
  · exact .refl i p

theorem goesOn_handle {e : PlayerEvent} (he : e.stops = false) :
    GoesOn i p (p.eventLegs e) (p.handle e) := by
  cases e with
  | tick nowMs => exact goesOn_tick i p nowMs
  | stop => cases he
  | resume env nowMs => cases he
  | setSpeed s => exact .of_note ⟨rfl, rfl, rfl⟩ rfl rfl rfl rfl rfl
  | setLogicalRoot env panelIndex nowMs => cases he
  | reresolvePalettes env newPal newColors =>
      unfold handle reresolvePalettes
      dsimp only
      split
      · exact .refl i p
      · exact .of_note ⟨rfl, rfl, rfl⟩ rfl rfl rfl rfl rfl

theorem goesOn_run {es : List PlayerEvent} (hes : ∀ e ∈ es, e.stops = false) :
    GoesOn i p (runLegs es p) (es.foldl handle p) := by
  induction es generalizing p with
  | nil => exact .refl i p
  | cons e es ih =>
      rw [List.forall_mem_cons] at hes
      exact (goesOn_handle i p hes.1).trans (ih (p.handle e) hes.2)

/-- A scene that is loaded starts without a leg. -/
theorem legsAt_enterScene (env : SceneProviders) (header : Header) :
    LegsAt i none ((p.enterScene env header).armed nowMs true) where
  phase := rfl
  timer hflip := by
    have hpool : (p.poolOf i).bounceNextFlipAtMs = 0 := by
      unfold poolOf
      split_ifs <;> rfl
    exact absurd hpool hflip

/-- Entering a scene prepares nothing. -/
theorem preparesOf_enterScene (env : SceneProviders) (header : Header) :
    ((p.enterScene env header).armed nowMs true).preparesOf i = p.preparesOf i := by
  have hpalettes : (p.sendPalettesToPanels env header).filter (isPrepareOf i) = [] := by
    refine List.filter_eq_nil_iff.mpr fun c hc => ?_
    rcases List.mem_cons.mp hc with rfl | hc
    · exact Bool.false_ne_true
    · obtain ⟨j, -, hc⟩ := List.mem_flatMap.mp hc
      rcases List.mem_cons.mp hc with rfl | hc
      · exact Bool.false_ne_true
      · rw [List.mem_singleton.mp hc]
        exact Bool.false_ne_true
  change (p.sent ++ [Command.broadcastStop, .broadcastBlack,
    .broadcastBackground header.background] ++ p.sendPalettesToPanels env header).filter
      (isPrepareOf i) = p.preparesOf i
  rw [List.filter_append, List.filter_append, hpalettes, List.append_nil]
  exact List.append_nil _

end

section

variable (p : ScenePlayer) (env : SceneProviders) (layers : List SceneLayer) (header : Header)
  (startMs : Millis) {es : List PlayerEvent} (hes : ∀ e ∈ es, e.stops = false) (i : ℕ)

include hes

/-- From when the layers are armed to the end of the run. -/
theorem goesOn_loaded :
    GoesOn i (((p.withLayers layers).enterScene env header).armed startMs true)
      ((p.loadLegs env layers header startMs) ++
        runLegs es (p.loadAndPlay env layers header startMs))
      (es.foldl handle (p.loadAndPlay env layers header startMs)) :=
  (goesOn_fireArmedLayers i ((p.withLayers layers).enterScene env header) startMs true rfl).trans
    (goesOn_run i _ hes)

theorem layerLegs_swings :
    ∃ last, Swings none (p.layerLegs env layers header startMs es i) last := by
  obtain ⟨last, hswings, -⟩ := (goesOn_loaded p env layers header startMs hes i).swings none
    (legsAt_enterScene i (p.withLayers layers) startMs env header)
  exact ⟨last, hswings⟩

/-- The prepares that are sent for a layer with bounces only are those of its legs, each in the
direction of the leg. -/
theorem layerLegs_prepares (hi : i < (p.withLayers layers).lCount)
    (hsteps : ((p.withLayers layers).layers i).steps ≠ [])
    (hbounce : ∀ step ∈ ((p.withLayers layers).layers i).steps, step.animType = .bounce) :
    (es.foldl handle (p.loadAndPlay env layers header startMs)).preparesOf i =
      p.preparesOf i ++ (p.layerLegs env layers header startMs es i).flatMap Leg.prepares := by
  have hloaded : Bounces i (((p.withLayers layers).enterScene env header).armed startMs true) := by
    refine ⟨hi, Nat.min_le_right _ _, hbounce, ?_⟩
    change (if isArmed _ true i then 0 else _) < ((p.withLayers layers).layers i).steps.length
    rw [if_pos]
    · exact List.length_pos_of_ne_nil hsteps
    · simp only [isArmed, Bool.true_or, Bool.and_true]
      exact decide_eq_true hi
  have hsent := ((goesOn_loaded p env layers header startMs hes i).sends hloaded).2
  rw [preparesOf_enterScene] at hsent
  exact hsent

theorem legOf_layerLegs {leg : Leg} (h : leg ∈ p.layerLegs env layers header startMs es i) :
    LegOf (p.withLayers layers).layers i leg := by
  obtain ⟨h, hlayer⟩ := List.mem_filter.mp h
  rw [← of_decide_eq_true hlayer]
  rcases List.mem_append.mp h with h | h
  · exact legOf_armLegs (p := (p.withLayers layers).enterScene env header) h
  · have hload :=
      (plays_armLayers ((p.withLayers layers).enterScene env header) startMs true).layers
    have hleg := legOf_runLegs hes h
    rw [loadAndPlay_eq, hload] at hleg
    exact hleg

/-- Where all steps have the same `reverse`, a layer goes to and fro as long as it enters no other
step that fires a leg. -/
theorem layerLegs_pendulum_iff_once {r : Bool}
    (hr : ∀ step ∈ ((p.withLayers layers).layers i).steps, isReverse step = r) :
    Pendulum (p.layerLegs env layers header startMs es i) ↔
      ∀ leg ∈ (p.layerLegs env layers header startMs es i).tail, leg.onEntry = false := by
  obtain ⟨last, hswings⟩ := layerLegs_swings p env layers header startMs hes i
  rw [hswings.pendulum_iff]
  refine Leg.seamless_iff_of_same (r := r) fun leg hleg => ?_
  obtain ⟨step, hstep, -, hreverse⟩ := (legOf_layerLegs p env layers header startMs hes i hleg).step
  rw [hreverse]
  exact hr step hstep

end

/-- In a run of a loaded scene without a stop, the prepares that are sent for a layer with bounces
only are those of its legs, one leg after the other. Their directions go to and fro if and only if
no two legs meet at a seam; where all steps have the same `reverse`, if and only if no leg but the
first one is fired by entering a step. -/
theorem layerLegs_pendulum_iff (p : ScenePlayer) (env : SceneProviders) (layers : List SceneLayer)
    (header : Header) (startMs : Millis) {es : List PlayerEvent}
    (hes : ∀ e ∈ es, e.stops = false) {i : ℕ} (hi : i < (p.withLayers layers).lCount)
    (hsteps : ((p.withLayers layers).layers i).steps ≠ [])
    (hbounce : ∀ step ∈ ((p.withLayers layers).layers i).steps, step.animType = .bounce) :
    let legs := p.layerLegs env layers header startMs es i
    (es.foldl handle (p.loadAndPlay env layers header startMs)).preparesOf i =
        p.preparesOf i ++ legs.flatMap Leg.prepares ∧
      (Pendulum legs ↔ legs.IsChain Leg.Seamless) ∧
      ∀ r, (∀ step ∈ ((p.withLayers layers).layers i).steps, isReverse step = r) →
        (Pendulum legs ↔ ∀ leg ∈ legs.tail, leg.onEntry = false) := by
  obtain ⟨last, hswings⟩ := layerLegs_swings p env layers header startMs hes i
  exact ⟨layerLegs_prepares p env layers header startMs hes i hi hsteps hbounce,
    hswings.pendulum_iff,
    fun r hr => layerLegs_pendulum_iff_once p env layers header startMs hes i hr⟩

/-- One layer with a single step, a bounce of sixteen milliseconds there and back. -/
def bounceLayer : SceneLayer :=
  { SceneLayer.blank with
    groupId := 1
    groupName := bytes "b1"
    target := .everyPanel
    steps := [{ SceneStep.zero with animType := .bounce, durationMs := 16 }] }

def bounceScene : SceneRecord :=
  { SceneRecord.default with
    name := bytes "b", schemaVersion := 7, loop := true, layers := [bounceLayer] }

/-- The text of a scene that bounces for ever. -/
def bounceJson : Text :=
  bytes "\x7b\"schemaVersion\":7,\"name\":\"b\",\"loop\":true,\"layers\":[\x7b\"group\":\"b1\"," ++
    bytes "\"panels\":\"all\",\"sequence\":[\x7b\"runner\":\"BOUNCE\",\"duration\":16\x7d]\x7d]\x7d"

/-- Ticks every three milliseconds. -/
def bounceTicks (ticks : ℕ) : List PlayerEvent :=
  (List.range ticks).map fun n => .tick (BitVec.ofNat 32 (3 * (n + 1)))

/-- The bounce on two panels. -/
def bouncePlayer (ticks : ℕ) : ScenePlayer :=
  (bounceTicks ticks).foldl handle
    ((init pairScene).loadAndPlay pairProviders bounceScene.layers (plainHeader true 1) 0)

def bounceLegs (ticks : ℕ) : List Leg :=
  (init pairScene).layerLegs pairProviders bounceScene.layers (plainHeader true 1) 0
    (bounceTicks ticks) 0

/-- There and back is a pendulum. -/
theorem bounceLegs_pendulum_iff :
    (bouncePlayer 5).preparesOf 0 = (bounceLegs 5).flatMap Leg.prepares ∧
      (Pendulum (bounceLegs 5) ↔ ∀ leg ∈ (bounceLegs 5).tail, leg.onEntry = false) := by
  have hes : ∀ e ∈ bounceTicks 5, e.stops = false := by decide
  have hsteps : (((init pairScene).withLayers bounceScene.layers).layers 0).steps ≠ [] := by decide
  obtain ⟨hsent, -, hsame⟩ := layerLegs_pendulum_iff (init pairScene) pairProviders
    bounceScene.layers (plainHeader true 1) 0 hes (i := 0) (by decide) hsteps (by decide)
  exact ⟨hsent, hsame false (by decide)⟩

/-- The panel that is prepared, and how much of its pulse comes before the peak. -/
def riseOf : Command → ℕ × Byte
  | .sendPrepareToPanel panel pkt => (panel, pkt.param1)
  | _ => (0, 0)

/-- When the scene starts over, the bounce goes back once more. -/
theorem bounceLegs_back_twice : parseScene 600 bounceJson = .ok bounceScene ∧
    ((bouncePlayer 6).preparesOf 0).map riseOf =
      [(1, 0), (2, 255), (1, 255), (2, 0), (1, 255), (2, 0)] ∧
    (bounceLegs 6).map Leg.reverse = [false, true, true] ∧ ¬ Pendulum (bounceLegs 6) := by
  exact ⟨by decide +kernel, by decide +kernel, by decide +kernel, by decide +kernel⟩

end ScenePlayer

end Lightnet
