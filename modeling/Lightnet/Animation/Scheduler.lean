import Lightnet.Animation.Player

/-!
# The controller's animation scheduler

The scheduler turns commands into packets, unicast to a panel or broadcast to target zero. Starts
and parameter updates are numbered from one counter, which skips zero. A start is not
acknowledged, so it is sent three times under one number.
-/

namespace Lightnet

inductive AnimationPacket where
  | prepare (pkt : PacketAnimationPrepare)
  | start (seqId groupId : Byte)
  | control (cmd : AnimationControl) (groupId : Byte)
  | updateParams (seqId groupId : Byte) (paramType : AnimationParamType)
      (value transitionMs : Byte)
  | setColor (color : ColorRGB)
  | setPalette (stops : List GradientStop)
  | setBaseColors (colors : Fin baseColorsCount → ColorRGB)
  | setGlobalBrightness (value : Byte)
  | setBackground (color : ColorRGB)
  | turnOnOff (on : Bool)

/-- A packet with the panel it is sent to; zero addresses all of them. -/
abbrev Addressed := ℕ × AnimationPacket

namespace AnimationScheduler

def startFloodSendCount : ℕ := 3

inductive Command where
  | sendPrepareToPanel (panelAddress : ℕ) (pkt : PacketAnimationPrepare)
  | sendGroupStart (groupId : Byte)
  | broadcastBlack
  | broadcastStop
  | clearAllPanelQueues
  | sendGeneralCallUpdateParams (groupId : Byte) (paramType : AnimationParamType) (value : Byte)
  | sendControlToPanels (groupId : Byte) (cmd : AnimationControl) (panelAddresses : List ℕ)
  | broadcastPalette (stops : List GradientStop)
  | unicastPaletteToPanels (stops : List GradientStop) (panelAddresses : List ℕ)
  | turnOnPanels (panelAddresses : List ℕ)
  | broadcastBaseColors (colors : Fin baseColorsCount → ColorRGB)
  | broadcastGlobalBrightness (value : Byte)
  | broadcastBackground (color : ColorRGB)

def triggerGroup (groupId value : Byte) : Command :=
  .sendGeneralCallUpdateParams groupId .trigger value

/-- The same prepare for every panel, then one start. -/
def playOnPanels (pkt : PacketAnimationPrepare) (panelAddresses : List ℕ) : List Command :=
  panelAddresses.map (fun a => .sendPrepareToPanel a { pkt with startDelayMs := 0 }) ++
    [.sendGroupStart pkt.groupId]

/-- The counter after a number has been used. -/
def nextSeq (seqId : Byte) : Byte := if seqId + 1 = 0 then 1 else seqId + 1

def makeSetPalettePacket (stops : List GradientStop) : AnimationPacket :=
  .setPalette (stops.take paletteStops)

/-- The counter after the command and what is put on the wire, in order. -/
def run (nextSeqId : Byte) : Command → Byte × List Addressed
  | .sendPrepareToPanel a pkt => (nextSeqId, [(a, .prepare { pkt with transitionMs := 0 })])
  | .sendGroupStart g =>
    (nextSeq nextSeqId, List.replicate startFloodSendCount (0, .start nextSeqId g))
  | .broadcastBlack => (nextSeqId, [(0, .setColor .black)])
  | .broadcastStop => (nextSeqId, [(0, .control .stop 0)])
  | .clearAllPanelQueues => (nextSeqId, [(0, .control .clearQueue 0)])
  | .sendGeneralCallUpdateParams g paramType value =>
    (nextSeq nextSeqId, [(0, .updateParams nextSeqId g paramType value 10)])
  | .sendControlToPanels g cmd addresses =>
    (nextSeqId, addresses.map fun a => (a, .control cmd g))
  | .broadcastPalette stops =>
    (nextSeqId, if stops = [] then [] else [(0, makeSetPalettePacket stops)])
  | .unicastPaletteToPanels stops addresses =>
    (nextSeqId, if stops = [] then [] else addresses.map fun a => (a, makeSetPalettePacket stops))
  | .turnOnPanels addresses => (nextSeqId, addresses.map fun a => (a, .turnOnOff true))
  | .broadcastBaseColors colors => (nextSeqId, [(0, .setBaseColors colors)])
  | .broadcastGlobalBrightness value => (nextSeqId, [(0, .setGlobalBrightness value)])
  | .broadcastBackground color => (nextSeqId, [(0, .setBackground color)])

end AnimationScheduler

/-- How a panel hands a packet to its player; brightness and power belong to the LED driver. -/
def AnimationPlayer.handlePacket (p : AnimationPlayer) (now : Ticks) :
    AnimationPacket → AnimationPlayer
  | .prepare pkt => p.prepare pkt
  | .start seqId groupId => p.start seqId groupId now
  | .control cmd groupId => p.control cmd groupId now
  | .updateParams seqId groupId paramType value _ => p.updateParams seqId groupId paramType value now
  | .setColor color => p.setColorDirect color
  | .setPalette stops => p.setPalette stops
  | .setBaseColors colors => p.setBaseColors colors
  | .setBackground color => p.setBackground color
  | .setGlobalBrightness _ => p
  | .turnOnOff _ => p

end Lightnet
