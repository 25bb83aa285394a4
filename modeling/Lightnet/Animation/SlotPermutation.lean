import Lightnet.Animation.PlayerRun

/-!
# Composition whatever the slots

Which slot a layer gets depends on what was prepared and stopped before. What the panel shows
depends on the layers only, as long as no two of them have the same place in the order.
-/

namespace Lightnet

/-- What of a slot shows, wherever the slot is. -/
structure ActiveLayer where
  holding : Bool
  paused : Bool
  pausedElapsedMs : Ticks
  cur : AnimationState
  reactiveLevel : Byte
  reactiveTriggerMs : Ticks
  deriving DecidableEq

/-- A slot that runs the layer. -/
def ActiveLayer.slot (l : ActiveLayer) : Slot :=
  { AnimationPlayer.idleSlot with
    occupied := true
    started := true
    holding := l.holding
    paused := l.paused
    pausedElapsedMs := l.pausedElapsedMs
    cur := l.cur
    reactiveLevel := l.reactiveLevel
    reactiveTriggerMs := l.reactiveTriggerMs }

def Slot.layer (s : Slot) : Option ActiveLayer :=
  if s.occupied && s.started then
    some ⟨s.holding, s.paused, s.pausedElapsedMs, s.cur, s.reactiveLevel, s.reactiveTriggerMs⟩
  else none

namespace AnimationPlayer

variable (p : AnimationPlayer)

end AnimationPlayer

/-! ### The order of the layers -/

namespace AnimationPlayer

end AnimationPlayer

end Lightnet
