import Lightnet.Playback.PlayerMoves

/-!
# Deadlines on two clocks

The runners keep deadlines and compare them with the clock. On another clock, which differs by a
constant, both sides of a comparison are shifted, and the comparison may come out differently where
only one of them wraps.
-/

namespace Lightnet

namespace ScenePlayer

/-! ### Comparisons that agree -/

/-- A deadline is as due on the one clock as on the other. -/
def SameDue (c deadline nowMs : Millis) : Prop :=
  deadline ≤ nowMs ↔ deadline + c ≤ nowMs + c

instance (c deadline nowMs : Millis) : Decidable (SameDue c deadline nowMs) :=
  inferInstanceAs (Decidable (_ ↔ _))

/-- The same for a deadline that may be none. -/
def SameDeadline (c deadline nowMs : Millis) : Prop :=
  deadline ≠ 0 → deadline + c ≠ 0 ∧ SameDue c deadline nowMs

instance (c deadline nowMs : Millis) : Decidable (SameDeadline c deadline nowMs) :=
  inferInstanceAs (Decidable (_ → _ ∧ _))

/-- A deadline that comes out as zero would be taken for none. -/
def Lasting (c deadline : Millis) : Prop := deadline = 0 → c = 0

instance (c deadline : Millis) : Decidable (Lasting c deadline) :=
  inferInstanceAs (Decidable (_ → _))

/-- The comparisons of `launchSweeps`. -/
def LaunchesAgree (c : Millis) (i : ℕ) (nowMs : Millis) (count : ℕ) : ℕ → ScenePlayer → Prop
  | 0, _ => True
  | n + 1, p => (p.spawnState i).sweepSpawnIndex < count →
    SameDue c (p.spawnState i).nextSpawnMs nowMs ∧
      ((p.spawnState i).nextSpawnMs ≤ nowMs → LaunchesAgree c i nowMs count n (p.launchSweep i count))

instance decidableLaunchesAgree (c : Millis) (i : ℕ) (nowMs : Millis) (count : ℕ) :
    ∀ n p, Decidable (LaunchesAgree c i nowMs count n p)
  | 0, _ => inferInstanceAs (Decidable True)
  | n + 1, p =>
    haveI := decidableLaunchesAgree c i nowMs count n (p.launchSweep i count)
    inferInstanceAs (Decidable (_ → _ ∧ (_ → LaunchesAgree c i nowMs count n (p.launchSweep i count))))

/-- The comparisons of `flipBounce`. -/
def FlipsAgree (c : Millis) (i : ℕ) (nowMs : Millis) : ℕ → ScenePlayer → Prop
  | 0, _ => True
  | n + 1, p => (p.spawnState i).bounceNextFlipAtMs ≠ 0 →
    SameDeadline c (p.spawnState i).bounceNextFlipAtMs nowMs ∧
      ((p.spawnState i).bounceNextFlipAtMs ≤ nowMs →
        Lasting c ((p.spawnState i).bounceNextFlipAtMs +
          (p.spawnState i).bouncePassDur.setWidth 32) ∧ FlipsAgree c i nowMs n (p.nextLeg i))

instance decidableFlipsAgree (c : Millis) (i : ℕ) (nowMs : Millis) :
    ∀ n p, Decidable (FlipsAgree c i nowMs n p)
  | 0, _ => inferInstanceAs (Decidable True)
  | n + 1, p =>
    haveI := decidableFlipsAgree c i nowMs n (p.nextLeg i)
    inferInstanceAs (Decidable (_ → _ ∧ (_ → _ ∧ FlipsAgree c i nowMs n (p.nextLeg i))))

/-- The comparisons of `serviceSweepSpawner`. -/
def SweepsAgree (c : Millis) (nowMs : Millis) (p : ScenePlayer) (i : ℕ) : Prop :=
  (p.spawnState i).sweepPanels ≠ [] → (p.spawnState i).sweepDurationMs ≠ 0 →
    LaunchesAgree c i nowMs (sweepSpawnCount ((p.step i).params .count))
      (sweepSpawnCount ((p.step i).params .count)) p

instance (c nowMs : Millis) (p : ScenePlayer) (i : ℕ) : Decidable (SweepsAgree c nowMs p i) :=
  inferInstanceAs (Decidable (_ → _ → _))

/-- What is compared and noted when the current step of a layer is fired. Drops are random from the
clock, so that no other clock does for them. -/
def FireAgrees (c : Millis) (nowMs : Millis) (p : ScenePlayer) (i : ℕ) : Prop :=
  p.panels i ≠ [] →
    (isParticleRunner (p.step i).animType = true → c = 0) ∧
    (p.effectiveDurationMs (p.step i).durationMs ≠ 0 →
      ((p.step i).animType = .bounce → Lasting c (nowMs +
        (atLeastOne (p.effectiveDurationMs (p.step i).durationMs / 2)).setWidth 32)) ∧
      ((p.step i).animType = .wheel → p.wheelTurns i (p.panels i) ≠ none →
        p.wheelLoop i (p.step i) = false → Lasting c (nowMs +
          p.scaledDurationMs (p.effectiveDurationMs (p.step i).durationMs))) ∧
      (isSweepRunner (p.step i).animType = true →
        SweepsAgree c nowMs (p.setSpawn i (p.sweepState i)) i))

instance (c nowMs : Millis) (p : ScenePlayer) (i : ℕ) : Decidable (FireAgrees c nowMs p i) :=
  inferInstanceAs (Decidable (_ → (_ → _) ∧ (_ → (_ → _) ∧ (_ → _ → _ → _) ∧ (_ → _))))

/-- What is compared while the current step of a spawner lasts. -/
def SpawnsAgree (c : Millis) (nowMs : Millis) (p : ScenePlayer) (i : ℕ) : Prop :=
  (p.spawnState i).poolSize ≠ 0 →
    if isSweepRunner (p.step i).animType then SweepsAgree c nowMs p i else c = 0

instance (c nowMs : Millis) (p : ScenePlayer) (i : ℕ) : Decidable (SpawnsAgree c nowMs p i) :=
  inferInstanceAs (Decidable ((p.spawnState i).poolSize ≠ 0 →
    if isSweepRunner (p.step i).animType then SweepsAgree c nowMs p i else c = 0))

/-- What is compared while the current step of a layer lasts. -/
def ServiceAgrees (c : Millis) (nowMs : Millis) (p : ScenePlayer) (i : ℕ) : Prop :=
  if (p.step i).animType = .wheel then SameDeadline c (p.spawnState i).wheelStopAtMs nowMs
  else if (p.step i).animType = .bounce then FlipsAgree c i nowMs (2 ^ 32) p
  else isSpawner (p.step i).animType = true → SpawnsAgree c nowMs p i

instance (c nowMs : Millis) (p : ScenePlayer) (i : ℕ) : Decidable (ServiceAgrees c nowMs p i) :=
  inferInstanceAs (Decidable (if (p.step i).animType = .wheel
    then SameDeadline c (p.spawnState i).wheelStopAtMs nowMs
    else if (p.step i).animType = .bounce then FlipsAgree c i nowMs (2 ^ 32) p
    else isSpawner (p.step i).animType = true → SpawnsAgree c nowMs p i))

/-- What is compared and noted at the turn of a layer. -/
def TurnAgrees (c : Millis) (nowMs : Millis) (p : ScenePlayer) (i : ℕ) : Prop :=
  p.layerState i = .running →
    if (p.step i).durationMs = 0 then isSpawner (p.step i).animType = true → SpawnsAgree c nowMs p i
    else if nowMs - p.stepStartMs i < p.threshold i then ServiceAgrees c nowMs p i
    else if p.currentStep i + 1 < (p.layers i).steps.length then
      FireAgrees c nowMs (p.entered i (p.currentStep i + 1) nowMs) i
    else (p.layers i).isAsyncLayer = true → FireAgrees c nowMs (p.entered i 0 nowMs) i

instance (c nowMs : Millis) (p : ScenePlayer) (i : ℕ) : Decidable (TurnAgrees c nowMs p i) :=
  inferInstanceAs (Decidable (p.layerState i = .running →
    if (p.step i).durationMs = 0 then isSpawner (p.step i).animType = true → SpawnsAgree c nowMs p i
    else if nowMs - p.stepStartMs i < p.threshold i then ServiceAgrees c nowMs p i
    else if p.currentStep i + 1 < (p.layers i).steps.length then
      FireAgrees c nowMs (p.entered i (p.currentStep i + 1) nowMs) i
    else (p.layers i).isAsyncLayer = true → FireAgrees c nowMs (p.entered i 0 nowMs) i))

def PromotionAgrees (c : Millis) (nowMs : Millis) (p : ScenePlayer) (i : ℕ) : Prop :=
  p.layerState i = .waiting → p.isReady i = true →
    FireAgrees c nowMs ((p.woken i).entered i 0 nowMs) i

instance (c nowMs : Millis) (p : ScenePlayer) (i : ℕ) : Decidable (PromotionAgrees c nowMs p i) :=
  inferInstanceAs (Decidable (_ → _ → _))

def StartAgrees (c : Millis) (nowMs : Millis) (includeAsync : Bool) (p : ScenePlayer) (i : ℕ) :
    Prop :=
  p.isArmed includeAsync i = true → p.layerState i = .running → FireAgrees c nowMs p i

instance (c nowMs : Millis) (includeAsync : Bool) (p : ScenePlayer) (i : ℕ) :
    Decidable (StartAgrees c nowMs includeAsync p i) :=
  inferInstanceAs (Decidable (_ → _ → _))

/-- Something holds of every turn. -/
def Throughout (f : ScenePlayer → ℕ → ScenePlayer) (ok : ScenePlayer → ℕ → Prop) :
    List ℕ → ScenePlayer → Prop
  | [], _ => True
  | i :: l, p => ok p i ∧ Throughout f ok l (f p i)

instance decidableThroughout (f : ScenePlayer → ℕ → ScenePlayer) (ok : ScenePlayer → ℕ → Prop)
    [∀ p i, Decidable (ok p i)] : ∀ l p, Decidable (Throughout f ok l p)
  | [], _ => inferInstanceAs (Decidable True)
  | i :: l, p =>
    haveI := decidableThroughout f ok l (f p i)
    inferInstanceAs (Decidable (ok p i ∧ Throughout f ok l (f p i)))

def ArmingAgrees (c : Millis) (nowMs : Millis) (includeAsync : Bool) (p : ScenePlayer) : Prop :=
  Throughout (fireArmed nowMs includeAsync) (StartAgrees c nowMs includeAsync)
    (List.range p.lCount) (p.armed nowMs includeAsync)

instance (c nowMs : Millis) (includeAsync : Bool) (p : ScenePlayer) :
    Decidable (ArmingAgrees c nowMs includeAsync p) :=
  inferInstanceAs (Decidable (Throughout _ _ _ _))

def TickAgrees (c : Millis) (nowMs : Millis) (p : ScenePlayer) : Prop :=
  p.playing = true →
    Throughout (tickLayer nowMs) (TurnAgrees c nowMs) (List.range p.lCount) p ∧
    Throughout (promoteLayer nowMs) (PromotionAgrees c nowMs) (List.range p.lCount)
      ((List.range p.lCount).foldl (tickLayer nowMs) p) ∧
    ((p.atBarrier nowMs).syncLayers ≠ [] → (p.atBarrier nowMs).allSyncDone = true →
      (p.atBarrier nowMs).loop = true →
        ArmingAgrees c nowMs false ((p.atBarrier nowMs).flushPendingStops true))

instance (c nowMs : Millis) (p : ScenePlayer) : Decidable (TickAgrees c nowMs p) :=
  inferInstanceAs (Decidable (_ → Throughout _ _ _ _ ∧ Throughout _ _ _ _ ∧ (_ → _ → _ → _)))

end ScenePlayer

namespace PlayerEvent

/-- The same on the other clock. -/
def shifted (c : Millis) : PlayerEvent → PlayerEvent
  | .tick nowMs => .tick (nowMs + c)
  | .stop => .stop
  | .resume env nowMs => .resume env (nowMs + c)
  | .setSpeed s => .setSpeed s
  | .setLogicalRoot env panelIndex nowMs => .setLogicalRoot env panelIndex (nowMs + c)
  | .reresolvePalettes env newPal newColors => .reresolvePalettes env newPal newColors

end PlayerEvent

namespace ScenePlayer

/-- Whatever is compared and noted at an event comes out the same on the other clock. -/
def ClockAgrees (c : Millis) (p : ScenePlayer) : PlayerEvent → Prop
  | .tick nowMs => TickAgrees c nowMs p
  | .resume env nowMs => p.lCount ≠ 0 → ArmingAgrees c nowMs true (p.reentered env)
  | .setLogicalRoot env panelIndex nowMs => p.playing = true → p.lCount ≠ 0 →
    ArmingAgrees c nowMs true ((p.withRoot panelIndex).reentered env)
  | _ => True

instance (c : Millis) (p : ScenePlayer) (e : PlayerEvent) : Decidable (ClockAgrees c p e) :=
  match e with
  | .tick _ => inferInstanceAs (Decidable (TickAgrees _ _ _))
  | .resume _ _ => inferInstanceAs (Decidable (_ → ArmingAgrees _ _ _ _))
  | .setLogicalRoot _ _ _ => inferInstanceAs (Decidable (_ → _ → ArmingAgrees _ _ _ _))
  | .stop | .setSpeed _ | .reresolvePalettes _ _ _ => inferInstanceAs (Decidable True)

/-! ### The same clock -/

section

variable (nowMs : Millis) (p : ScenePlayer) (i : ℕ)

theorem sameDue_zero (deadline : Millis) : SameDue 0 deadline nowMs := by
  unfold SameDue
  rw [add_zero, add_zero]

theorem sameDeadline_zero (deadline : Millis) : SameDeadline 0 deadline nowMs := by
  refine fun hne => ⟨?_, sameDue_zero nowMs deadline⟩
  rw [add_zero]
  exact hne

theorem launchesAgree_zero (count n : ℕ) : LaunchesAgree 0 i nowMs count n p := by
  induction n generalizing p with
  | zero => trivial
  | succ n ih => exact fun _ => ⟨sameDue_zero nowMs _, fun _ => ih _⟩

theorem flipsAgree_zero (n : ℕ) : FlipsAgree 0 i nowMs n p := by
  induction n generalizing p with
  | zero => trivial
  | succ n ih => exact fun _ => ⟨sameDeadline_zero nowMs _, fun _ => ⟨fun _ => rfl, ih _⟩⟩

theorem sweepsAgree_zero : SweepsAgree 0 nowMs p i :=
  fun _ _ => launchesAgree_zero nowMs p i _ _

theorem fireAgrees_zero : FireAgrees 0 nowMs p i :=
  fun _ => ⟨fun _ => rfl, fun _ =>
    ⟨fun _ _ => rfl, fun _ _ _ _ => rfl, fun _ => sweepsAgree_zero nowMs _ i⟩⟩

theorem spawnsAgree_zero : SpawnsAgree 0 nowMs p i := by
  intro _
  split_ifs
  · exact sweepsAgree_zero nowMs p i
  · rfl

theorem serviceAgrees_zero : ServiceAgrees 0 nowMs p i := by
  unfold ServiceAgrees
  split_ifs
  · exact sameDeadline_zero nowMs _
  · exact flipsAgree_zero nowMs p i _
  · exact fun _ => spawnsAgree_zero nowMs p i

theorem turnAgrees_zero : TurnAgrees 0 nowMs p i := by
  intro _
  split_ifs
  · exact fun _ => spawnsAgree_zero nowMs p i
  · exact serviceAgrees_zero nowMs p i
  · exact fireAgrees_zero nowMs _ i
  · exact fun _ => fireAgrees_zero nowMs _ i

theorem throughout_of_forall {f : ScenePlayer → ℕ → ScenePlayer} {ok : ScenePlayer → ℕ → Prop}
    (hok : ∀ p i, ok p i) (l : List ℕ) : Throughout f ok l p := by
  induction l generalizing p with
  | nil => trivial
  | cons i l ih => exact ⟨hok p i, ih _⟩

theorem armingAgrees_zero (includeAsync : Bool) : ArmingAgrees 0 nowMs includeAsync p :=
  throughout_of_forall _ (fun q i _ _ => fireAgrees_zero nowMs q i) _

theorem tickAgrees_zero : TickAgrees 0 nowMs p :=
  fun _ => ⟨throughout_of_forall _ (fun q i => turnAgrees_zero nowMs q i) _,
    throughout_of_forall _ (fun _ i _ _ => fireAgrees_zero nowMs _ i) _,
    fun _ _ _ => armingAgrees_zero nowMs _ false⟩

end

/-- On the same clock everything comes out the same. -/
theorem clockAgrees_zero (p : ScenePlayer) (e : PlayerEvent) : ClockAgrees 0 p e := by
  cases e with
  | tick nowMs => exact tickAgrees_zero nowMs p
  | stop => trivial
  | resume env nowMs => exact fun _ => armingAgrees_zero nowMs _ true
  | setSpeed s => trivial
  | setLogicalRoot env panelIndex nowMs => exact fun _ _ => armingAgrees_zero nowMs _ true
  | reresolvePalettes env newPal newColors => trivial

theorem guarded_clockAgrees_zero (p : ScenePlayer) (es : List PlayerEvent) :
    Transition.Guarded handle (ClockAgrees 0) p es := by
  induction es generalizing p with
  | nil => trivial
  | cons e es ih => exact ⟨clockAgrees_zero p e, ih _⟩

end ScenePlayer

end Lightnet
