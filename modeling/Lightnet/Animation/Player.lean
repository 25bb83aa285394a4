import Lightnet.Animation.Color
import Mathlib.Data.Fin.VecNotation
import Mathlib.Logic.Function.Basic

/-!
# The panel's animation player

A panel runs up to `maxAnimSlots` layers, one slot a group. A prepare fills the pending step of a
slot and a start activates it. Every frame the occupied slots are folded into one colour; a
finished step holds its end state, or frees its slot when it is flagged to.

Time is a 16-bit count of milliseconds that wraps.
-/

namespace Lightnet

abbrev Ticks := BitVec 16

inductive AnimationType where
  | solid | fade | transition | breathe | pulse | blink | hueCycle | strobe | reactive | gap
  | wave | ripple | chase | wheel | bounce | rain | sparkle | matrix
  deriving DecidableEq

/-- Compiled by the controller to animations of the panels; not a panel's own type. -/
def isRunnerType : AnimationType → Bool
  | .wave | .ripple | .chase | .wheel | .bounce | .rain | .sparkle | .matrix => true
  | _ => false

inductive AnimateTarget where
  | color | dim | desaturate | hue | invert | brighten | saturate
  deriving DecidableEq

inductive AnimationControl where
  | stop | pause | resume | clearQueue
  deriving DecidableEq

inductive AnimationParamType where
  | trigger | brightnessMult | speedScale
  deriving DecidableEq

def flagLoop : Byte := 0x01

def flagCurrentColorFrom : Byte := 0x08

def flagCurrentColorTo : Byte := 0x10

def flagReapOnDone : Byte := 0x80

structure AnimationState where
  animType : AnimationType
  groupId : Byte
  flags : Byte
  transitionMs : Byte
  durationMs : Ticks
  startMs : Ticks
  colorFrom : ColorRef
  colorTo : ColorRef
  param1 : Byte
  param2 : Byte
  composeMode : ComposeMode
  composeOrder : Byte
  startDelayMs : Ticks
  animates : AnimateTarget
  deriving DecidableEq

def AnimationState.hasFlag (a : AnimationState) (flag : Byte) : Bool := a.flags &&& flag ≠ 0

/-- The fields of a prepare that the player reads. -/
structure PacketAnimationPrepare where
  animType : AnimationType
  groupId : Byte
  flags : Byte
  transitionMs : Byte
  durationMs : Ticks
  colorFrom : ColorRef
  colorTo : ColorRef
  param1 : Byte
  param2 : Byte
  composeMode : ComposeMode
  composeOrder : Byte
  startDelayMs : Ticks
  animates : AnimateTarget
  deriving DecidableEq

def PacketAnimationPrepare.toState (pkt : PacketAnimationPrepare) : AnimationState where
  animType := pkt.animType
  groupId := pkt.groupId
  flags := pkt.flags
  transitionMs := pkt.transitionMs
  durationMs := pkt.durationMs
  startMs := 0
  colorFrom := pkt.colorFrom
  colorTo := pkt.colorTo
  param1 := pkt.param1
  param2 := pkt.param2
  composeMode := pkt.composeMode
  composeOrder := pkt.composeOrder
  startDelayMs := pkt.startDelayMs
  animates := pkt.animates

abbrev maxAnimSlots : ℕ := 12

structure Slot where
  occupied : Bool
  started : Bool
  holding : Bool
  paused : Bool
  hasPending : Bool
  pausedElapsedMs : Ticks
  groupId : Byte
  cur : AnimationState
  pending : AnimationState
  reactiveLevel : Byte
  reactiveTriggerMs : Ticks
  deriving DecidableEq

/-- The palette is kept as the stops in use. -/
structure AnimationPlayer where
  slots : Fin maxAnimSlots → Slot
  lastStartSeqId : Byte
  lastParamsSeqId : Byte
  nowMs : Ticks
  lastTickMs : Ticks
  outputDirty : Bool
  lastOutput : ColorRGB
  backgroundColor : ColorRGB
  palette : List GradientStop
  baseColors : Fin baseColorsCount → ColorRGB

namespace AnimationPlayer

def clearSlot (s : Slot) : Slot :=
  { s with
      occupied := false
      started := false
      holding := false
      paused := false
      hasPending := false
      pausedElapsedMs := 0
      groupId := 0
      reactiveLevel := 0
      reactiveTriggerMs := 0 }

def idleState : AnimationState :=
  ⟨.solid, 0, 0, 0, 0, 0, .rgb .black, .rgb .black, 0, 0, .default, 0, 0, .color⟩

def idleSlot : Slot := ⟨false, false, false, false, false, 0, 0, idleState, idleState, 0, 0⟩

def init : AnimationPlayer where
  slots _ := idleSlot
  lastStartSeqId := 0xFF
  lastParamsSeqId := 0xFF
  nowMs := 0
  lastTickMs := 0
  outputDirty := false
  lastOutput := .black
  backgroundColor := .black
  palette := [⟨0, .white⟩, ⟨255, .white⟩]
  baseColors := ![.white, .black, .black]

def takeDirty (p : AnimationPlayer) : AnimationPlayer × Bool :=
  ({ p with outputDirty := false }, p.outputDirty)

def setOutput (p : AnimationPlayer) (c : ColorRGB) : AnimationPlayer :=
  if c = p.lastOutput then p else { p with lastOutput := c, outputDirty := true }

def setPalette (p : AnimationPlayer) (stops : List GradientStop) : AnimationPlayer :=
  if stops = [] then p else { p with palette := stops.take paletteStops }

def setBaseColors (p : AnimationPlayer) (colors : Fin baseColorsCount → ColorRGB) :
    AnimationPlayer := { p with baseColors := colors }

/-- An idle panel shows its new background at once. -/
def setBackground (p : AnimationPlayer) (c : ColorRGB) : AnimationPlayer :=
  let p := { p with backgroundColor := c }
  if ∃ i, (p.slots i).occupied then p else p.setOutput c

def setColorDirect (p : AnimationPlayer) (c : ColorRGB) : AnimationPlayer :=
  { p with lastOutput := c, backgroundColor := c, outputDirty := true }

def resolveColorRef (p : AnimationPlayer) (ref : ColorRef) : ColorRGB :=
  match ref.kind.toNat with
  | 0 => ref.raw
  | 1 => samplePalette p.palette ref.raw.r
  | 2 => if h : ref.raw.r.toNat < baseColorsCount then p.baseColors ⟨_, h⟩ else p.baseColors 0
  | _ => .white

/-! ### Slots -/

def findSlot (p : AnimationPlayer) (groupId : Byte) : Option (Fin maxAnimSlots) :=
  (List.finRange maxAnimSlots).find? fun i =>
    (p.slots i).occupied ∧ (p.slots i).groupId = groupId

def freeSlot (p : AnimationPlayer) : Option (Fin maxAnimSlots) :=
  (List.finRange maxAnimSlots).find? fun i => !(p.slots i).occupied

def setSlot (p : AnimationPlayer) (i : Fin maxAnimSlots) (s : Slot) : AnimationPlayer :=
  { p with slots := Function.update p.slots i s }

def allocSlot (p : AnimationPlayer) (groupId : Byte) :
    AnimationPlayer × Option (Fin maxAnimSlots) :=
  match p.findSlot groupId with
  | some i => (p, some i)
  | none =>
    match p.freeSlot with
    | some i =>
      (p.setSlot i { clearSlot (p.slots i) with occupied := true, groupId := groupId }, some i)
    | none => (p, none)

/-- The pending step becomes the running one; flagged colours are taken from the current output. -/
def activatePending (p : AnimationPlayer) (s : Slot) : Slot :=
  let cur := { s.pending with startMs := p.nowMs }
  let cur := if cur.hasFlag flagCurrentColorFrom then
    { cur with colorFrom := .rgb p.lastOutput } else cur
  let cur := if cur.hasFlag flagCurrentColorTo then
    { cur with colorTo := .rgb p.lastOutput } else cur
  let s := { s with
    cur
    hasPending := false
    started := true
    holding := false
    paused := false
    pausedElapsedMs := 0 }
  if cur.animType = .reactive then { s with reactiveTriggerMs := cur.startMs, reactiveLevel := 0 }
  else s

/-! ### Packets -/

def prepare (p : AnimationPlayer) (pkt : PacketAnimationPrepare) : AnimationPlayer :=
  match p.allocSlot pkt.groupId with
  | (p, some i) => p.setSlot i { p.slots i with pending := pkt.toState, hasPending := true }
  | (p, none) => p

def start (p : AnimationPlayer) (seqId groupId : Byte) (now : Ticks) : AnimationPlayer :=
  let p := { p with nowMs := now }
  if seqId = p.lastStartSeqId then p
  else
    let p := { p with lastStartSeqId := seqId }
    match p.findSlot groupId with
    | none => p
    | some i =>
      if (p.slots i).hasPending then p.setSlot i (p.activatePending (p.slots i)) else p

def controlSlot (cmd : AnimationControl) (now : Ticks) (s : Slot) : Slot :=
  match cmd with
  | .stop => clearSlot s
  | .pause =>
    if s.started && !s.paused then
      { s with paused := true, pausedElapsedMs := now - s.cur.startMs }
    else s
  | .resume =>
    if s.paused then
      { s with paused := false, cur := { s.cur with startMs := now - s.pausedElapsedMs } }
    else s
  | .clearQueue => { s with hasPending := false }

/-- Group zero addresses every slot. -/
def control (p : AnimationPlayer) (cmd : AnimationControl) (groupId : Byte) (now : Ticks) :
    AnimationPlayer :=
  { p with
      nowMs := now
      slots := fun i =>
        let s := p.slots i
        if !s.occupied then s
        else if groupId ≠ 0 ∧ s.groupId ≠ groupId then s
        else controlSlot cmd now s }

def updateParams (p : AnimationPlayer) (seqId groupId : Byte) (paramType : AnimationParamType)
    (value : Byte) (now : Ticks) : AnimationPlayer :=
  let p := { p with nowMs := now }
  if seqId = p.lastParamsSeqId then p
  else
    let p := { p with lastParamsSeqId := seqId }
    if paramType ≠ .trigger then p
    else
      { p with
          slots := fun i =>
            let s := p.slots i
            if !s.occupied || !s.started then s
            else if groupId ≠ 0 ∧ s.groupId ≠ groupId then s
            else if s.cur.animType = .reactive then
              { s with reactiveLevel := value, reactiveTriggerMs := now }
            else s }

/-! ### The colour of one slot -/

def lerp8 (a b frac : Byte) : Byte :=
  if a = b ∨ frac = 0 then a
  else if frac = 255 then b
  else if a < b then u8 (a.toNat + (b.toNat - a.toNat) * frac.toNat / 256)
  else u8 (a.toNat - (a.toNat - b.toNat) * frac.toNat / 256)

def rgbLerp (a b : ColorRGB) (frac : Byte) : ColorRGB := a.map₂ (fun x y => lerp8 x y frac) b

/-- The colour and the scalar an animation computes; a source layer uses the first, a modifier the
second. -/
structure SlotOutput where
  color : ColorRGB
  value : Byte

def noOutput : SlotOutput := ⟨.black, 0⟩

def getValueFrom (a : AnimationState) : Byte :=
  if a.animates = .invert then 0 else a.colorFrom.scalarValue

def getValueTo (a : AnimationState) : Byte :=
  if a.animates = .invert then 255 else a.colorTo.scalarValue

def applyProgress (p : AnimationPlayer) (a : AnimationState) (progress : Byte) : SlotOutput :=
  if a.animates = .color then
    { noOutput with
        color := rgbLerp (p.resolveColorRef a.colorFrom) (p.resolveColorRef a.colorTo) progress }
  else { noOutput with value := lerp8 (getValueFrom a) (getValueTo a) progress }

def tickFade (p : AnimationPlayer) (a : AnimationState) (elapsed : Ticks) : SlotOutput :=
  let progress :=
    if a.durationMs ≠ 0 then
      let prog := elapsed.toNat * 256 / a.durationMs.toNat
      if 255 < prog then 255 else u8 prog
    else 255
  p.applyProgress a progress

def tickBreathe (p : AnimationPlayer) (a : AnimationState) (elapsed : Ticks) : SlotOutput :=
  let duration := a.durationMs.toNat
  if duration = 0 then noOutput
  else
    let t := elapsed.toNat % duration
    let half := duration / 2
    if half = 0 then noOutput
    else
      let phase := if t ≤ half then u8 (t * 255 / half) else u8 ((duration - t) * 255 / half)
      let inv := u8 (255 - phase.toNat)
      let invSq := u8 (inv.toNat * inv.toNat / 256)
      p.applyProgress a (u8 (255 - invSq.toNat))

/-- The shares of rise and fall, scaled down when they exceed the whole. -/
def pulseShares (a : AnimationState) : ℕ × ℕ :=
  let sum := a.param1.toNat + a.param2.toNat
  if 255 < sum then
    let rise := 255 * a.param1.toNat / sum
    (rise, 255 - rise)
  else (a.param1.toNat, a.param2.toNat)

def tickPulse (p : AnimationPlayer) (a : AnimationState) (elapsed : Ticks) : SlotOutput :=
  let (risePct, fallPct) := pulseShares a
  let holdPct := 255 - risePct - fallPct
  let riseMs := a.durationMs.toNat * risePct / 256
  let holdMs := a.durationMs.toNat * holdPct / 256
  let progress :=
    if elapsed.toNat < riseMs then u8 (elapsed.toNat * 256 / (riseMs + 1))
    else if elapsed.toNat < riseMs + holdMs then 255
    else
      let fallElapsed := elapsed.toNat - riseMs - holdMs
      let fallDuration := a.durationMs.toNat - riseMs - holdMs
      -- the one fall of 65535 ms, where a 16-bit int makes the divisor 0, is computed without wrap
      255 - u8 (fallElapsed * 256 / (fallDuration + 1))
  p.applyProgress a progress

def tickBlink (p : AnimationPlayer) (a : AnimationState) (elapsed : Ticks) : SlotOutput :=
  let period := if a.param1 = 0 then 1 else a.param1.toNat
  let on := elapsed.toNat % (period * 2) < period
  p.applyProgress a (if on then 255 else 0)

def tickHueCycle (a : AnimationState) (elapsed : Ticks) : SlotOutput :=
  let speed := if a.param1 = 0 then 1 else a.param1.toNat
  let hueStep := elapsed.toNat * speed / 10 % 1530
  let remainder := u8 (hueStep % 255)
  let color : ColorRGB :=
    match hueStep / 255 with
    | 0 => ⟨255, remainder, 0⟩
    | 1 => ⟨255 - remainder, 255, 0⟩
    | 2 => ⟨0, 255, remainder⟩
    | 3 => ⟨0, 255 - remainder, 255⟩
    | 4 => ⟨remainder, 0, 255⟩
    | 5 => ⟨255, 0, 255 - remainder⟩
    | _ => .black
  { noOutput with color }

def tickStrobe (p : AnimationPlayer) (a : AnimationState) (elapsed : Ticks) : SlotOutput :=
  let hz := if a.param1 = 0 then 1 else a.param1.toNat
  let period := 1000 / hz
  let on := elapsed.toNat % period < period / 2
  if a.animates = .color then
    { noOutput with color := if on then p.resolveColorRef a.colorTo else .black }
  else { noOutput with value := if on then getValueTo a else getValueFrom a }

def decayReactive (p : AnimationPlayer) (s : Slot) : Slot :=
  if s.reactiveLevel = 0 then s
  else
    let decay := s.cur.param1.toNat * (p.nowMs - s.reactiveTriggerMs).toNat / 1000
    { s with
        reactiveLevel :=
          if s.reactiveLevel.toNat ≤ decay then 0 else u8 (s.reactiveLevel.toNat - decay) }

/-- A reactive slot decays as it is evaluated; the others stay as they are. -/
def computeSlotOutput (p : AnimationPlayer) (s : Slot) (elapsed : Ticks) : Slot × SlotOutput :=
  let a := s.cur
  match a.animType with
  | .solid =>
    if a.animates = .color then (s, { noOutput with color := p.resolveColorRef a.colorTo })
    else (s, { noOutput with value := getValueFrom a })
  | .fade | .transition => (s, p.tickFade a elapsed)
  | .breathe => (s, p.tickBreathe a elapsed)
  | .pulse => (s, p.tickPulse a elapsed)
  | .blink => (s, p.tickBlink a elapsed)
  | .hueCycle => (s, tickHueCycle a elapsed)
  | .strobe => (s, p.tickStrobe a elapsed)
  | .reactive =>
    let s := p.decayReactive s
    (s, p.applyProgress s.cur s.reactiveLevel)
  | _ => (s, noOutput)

/-! ### The compositor -/

def slotElapsed (p : AnimationPlayer) (s : Slot) : Ticks :=
  if s.paused then s.pausedElapsedMs else p.nowMs - s.cur.startMs

/-- The phase of a looping step, which its start delay shifts. -/
def loopPhase (a : AnimationState) (elapsed : Ticks) : Ticks :=
  let duration := a.durationMs.toNat
  let offset := duration - a.startDelayMs.toNat % duration
  BitVec.ofNat 16 ((elapsed.toNat + offset) % duration)

/-- Whether a one-shot step has just run its full duration. -/
def finishes (s : Slot) (animElapsed : Ticks) : Bool :=
  !s.paused && !s.holding && s.cur.durationMs ≠ 0 && s.cur.durationMs ≤ animElapsed &&
    s.cur.animType ≠ .reactive

def modOp : AnimateTarget → ModOp
  | .desaturate => .desaturate
  | .hue => .hue
  | .invert => .invert
  | .brighten => .brighten
  | .saturate => .saturate
  | _ => .dim

def layerOf (a : AnimationState) (out : SlotOutput) : CompositeLayer where
  composeOrder := a.composeOrder
  op :=
    if a.animates ≠ .color then .modifier (modOp a.animates) out.value
    else .source a.composeMode out.color

def contribute (p : AnimationPlayer) (s : Slot) (animElapsed : Ticks) :
    Slot × Option CompositeLayer :=
  let (s, out) := p.computeSlotOutput s animElapsed
  (s, some (layerOf s.cur out))

/-- One slot's share of a frame. Before its onset a one-shot step is transparent, and when it ends
it holds its end state or is reaped. -/
def compositeSlot (p : AnimationPlayer) (s : Slot) : Slot × Option CompositeLayer :=
  if !s.occupied || !s.started then (s, none)
  else
    let elapsed := p.slotElapsed s
    if s.cur.hasFlag flagLoop && s.cur.durationMs ≠ 0 then
      p.contribute s (loopPhase s.cur elapsed)
    else if !s.holding && elapsed < s.cur.startDelayMs then (s, none)
    else
      let animElapsed := elapsed - s.cur.startDelayMs
      if finishes s animElapsed && s.cur.hasFlag flagReapOnDone then
        ({ s with
            occupied := false
            started := false
            holding := false
            paused := false
            hasPending := false }, none)
      else
        let s := if finishes s animElapsed then { s with holding := true } else s
        p.contribute s
          (if s.holding && s.cur.durationMs ≠ 0 then s.cur.durationMs else animElapsed)

def composite (p : AnimationPlayer) : AnimationPlayer :=
  let layers := (List.finRange maxAnimSlots).filterMap fun i => (p.compositeSlot (p.slots i)).2
  let q := { p with slots := fun i => (p.compositeSlot (p.slots i)).1 }
  if layers = [] then q.setOutput p.backgroundColor
  else q.setOutput (foldLayers layers p.backgroundColor)

def tick (p : AnimationPlayer) (now : Ticks) : AnimationPlayer :=
  let p := { p with nowMs := now }
  if now - p.lastTickMs < 16 then p else composite { p with lastTickMs := now }

/-! ### What stays as it is -/

section
variable (p : AnimationPlayer)

@[simp] theorem setOutput_slots (c : ColorRGB) : (p.setOutput c).slots = p.slots := by
  unfold setOutput
  split_ifs <;> rfl

@[simp] theorem setOutput_lastStartSeqId (c : ColorRGB) :
    (p.setOutput c).lastStartSeqId = p.lastStartSeqId := by
  unfold setOutput
  split_ifs <;> rfl

@[simp] theorem composite_slots :
    p.composite.slots = fun i => (p.compositeSlot (p.slots i)).1 := by
  unfold composite
  dsimp only
  split_ifs <;> rw [setOutput_slots]

@[simp] theorem composite_lastStartSeqId : p.composite.lastStartSeqId = p.lastStartSeqId := by
  unfold composite
  dsimp only
  split_ifs <;> rw [setOutput_lastStartSeqId]

@[simp] theorem tick_lastStartSeqId (now : Ticks) :
    (p.tick now).lastStartSeqId = p.lastStartSeqId := by
  unfold tick
  dsimp only
  split_ifs
  · rfl
  · rw [composite_lastStartSeqId]

@[simp] theorem allocSlot_lastStartSeqId (g : Byte) :
    (p.allocSlot g).1.lastStartSeqId = p.lastStartSeqId := by
  unfold allocSlot
  split
  · rfl
  · split <;> rfl

@[simp] theorem prepare_lastStartSeqId (pkt : PacketAnimationPrepare) :
    (p.prepare pkt).lastStartSeqId = p.lastStartSeqId := by
  have halloc := p.allocSlot_lastStartSeqId pkt.groupId
  unfold prepare
  split <;> rename_i heq <;> rw [heq] at halloc <;> exact halloc

@[simp] theorem setPalette_lastStartSeqId (stops : List GradientStop) :
    (p.setPalette stops).lastStartSeqId = p.lastStartSeqId := by
  unfold setPalette
  split_ifs <;> rfl

@[simp] theorem setBackground_lastStartSeqId (c : ColorRGB) :
    (p.setBackground c).lastStartSeqId = p.lastStartSeqId := by
  unfold setBackground
  dsimp only
  split_ifs
  · rfl
  · rw [setOutput_lastStartSeqId]

@[simp] theorem updateParams_lastStartSeqId (seqId g : Byte) (t : AnimationParamType)
    (value : Byte) (now : Ticks) :
    (p.updateParams seqId g t value now).lastStartSeqId = p.lastStartSeqId := by
  unfold updateParams
  dsimp only
  split_ifs <;> rfl

/-- Every start leaves its number behind, also one that finds nothing to activate. -/
@[simp] theorem start_lastStartSeqId (seqId g : Byte) (now : Ticks) :
    (p.start seqId g now).lastStartSeqId = seqId := by
  unfold start
  dsimp only
  split_ifs with h
  · exact h.symm
  · split
    · rfl
    · split_ifs <;> rfl

/-- A start under the number of the last one only sets the clock. -/
theorem start_of_seqId_eq {seqId : Byte} (h : seqId = p.lastStartSeqId) (g : Byte) (now : Ticks) :
    p.start seqId g now = { p with nowMs := now } := by
  simp [start, h]

theorem start_of_pending {seqId g : Byte} (h : seqId ≠ p.lastStartSeqId) {i : Fin maxAnimSlots}
    (hfind : p.findSlot g = some i) (hpending : (p.slots i).hasPending = true) (now : Ticks) :
    (p.start seqId g now).slots =
      Function.update p.slots i (activatePending { p with nowMs := now } (p.slots i)) := by
  have hfind' : findSlot { p with nowMs := now, lastStartSeqId := seqId } g = some i := hfind
  simp only [start, if_neg h, hfind', hpending, if_true]
  rfl

end

end AnimationPlayer

end Lightnet
