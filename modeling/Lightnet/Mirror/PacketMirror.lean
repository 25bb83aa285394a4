import Lightnet.Animation.PlayerRun
import Lightnet.Library.Transition

/-!
# The packet mirror

The controller mirrors the packets it sends to the panels to its websocket clients. Packets are
batched, and a colour that is still in the batch is overwritten by a later one for the same
address. Besides the batch the mirror keeps a snapshot for clients that join late, one record for
each address, type and group.
-/

namespace Lightnet

/-! ### Panels that follow a record stream -/

/-- A panel's player and what the packets set in its LED driver. -/
structure LitPanel where
  player : AnimationPlayer
  globalBrightness : Byte
  on : Bool

namespace LitPanel

def init : LitPanel := ⟨.init, 0xFF, false⟩

def handlePacket (p : LitPanel) (now : Ticks) (packet : AnimationPacket) : LitPanel :=
  match packet with
  | .setGlobalBrightness value => { p with globalBrightness := value }
  | .turnOnOff on => { p with on }
  | packet => { p with player := p.player.handlePacket now packet }

end LitPanel

namespace PacketMirror

/-- A packet with its address, zero for all panels. The time is when it was captured; it is not on
the wire. -/
structure Record where
  address : Byte
  packet : AnimationPacket
  time : Ticks

/-- Whether the record is for the panel of this index. -/
def Record.reaches (r : Record) (i : Byte) : Bool := r.address = 0 || r.address = i

def received (i : Byte) (rs : List Record) : List Record := rs.filter fun r => r.reaches i

/-- The panel of this index after the records. -/
def deliver (i : Byte) (rs : List Record) (p : LitPanel) : LitPanel :=
  (received i rs).foldl (fun p r => p.handlePacket r.time r.packet) p

theorem deliver_append (i : Byte) (rs ss : List Record) (p : LitPanel) :
    deliver i (rs ++ ss) p = deliver i ss (deliver i rs p) := by
  rw [deliver, received, List.filter_append, List.foldl_append]
  rfl

/-! ### Records -/

def packetType : AnimationPacket → PacketType
  | .prepare _ => .animationPrepare
  | .start _ _ => .animationStart
  | .control _ _ => .animationControl
  | .updateParams _ _ _ _ _ => .animationUpdateParams
  | .setColor _ => .setColor
  | .setPalette _ => .setPalette
  | .setBaseColors _ => .setBaseColors
  | .setGlobalBrightness _ => .setGlobalBrightness
  | .setBackground _ => .setBackground
  | .turnOnOff _ => .turnOnOff

/-- The size of the packet's struct, with its header. -/
def packetSize : AnimationPacket → ℕ
  | .prepare _ => 28
  | .start _ _ => 9
  | .control _ _ => 9
  | .updateParams _ _ _ _ _ => 12
  | .setColor _ => 10
  | .setPalette _ => 72
  | .setBaseColors _ => 16
  | .setGlobalBrightness _ => 8
  | .setBackground _ => 10
  | .turnOnOff _ => 8

def recordHeaderSize : ℕ := 3

def recordSize (r : Record) : ℕ := recordHeaderSize + packetSize r.packet

def recordsLen (rs : List Record) : ℕ := (rs.map recordSize).sum

def recordsCap : ℕ := 5120

def snapshotRecordsCap : ℕ := 10240

def snapshotMaxEntries : ℕ := 256

def isSnapshotted (packet : AnimationPacket) : Bool :=
  match packetType packet with
  | .setGlobalBrightness | .setBaseColors | .setPalette | .setBackground | .turnOnOff
  | .animationPrepare | .animationStart => true
  | _ => false

/-- The group of a prepare or a start, zero otherwise. -/
def key : AnimationPacket → Byte
  | .prepare pkt => pkt.groupId
  | .start _ groupId => groupId
  | _ => 0

/-- The same address, type and key. -/
def sameEntry (r e : Record) : Bool :=
  e.address = r.address && packetType e.packet = packetType r.packet && key e.packet = key r.packet

end PacketMirror

/-- The records are kept as lists; the frames that hold them only differ by their headers. -/
structure PacketMirror where
  records : List PacketMirror.Record
  droppedCount : ℕ
  snapshot : List PacketMirror.Record
  snapshotDroppedCount : ℕ
  hasServer : Bool

namespace PacketMirror

/-- Write the record over the first one that `p` holds of, if there is one. -/
def overwrite (p : Record → Bool) (r : Record) : List Record → Option (List Record)
  | [] => none
  | e :: rest => if p e then some (r :: rest) else (overwrite p r rest).map (e :: ·)

def updateSnapshot (m : PacketMirror) (r : Record) : PacketMirror :=
  match overwrite (sameEntry r) r m.snapshot with
  | some snapshot => { m with snapshot }
  | none =>
    if snapshotMaxEntries ≤ m.snapshot.length ∨
        snapshotRecordsCap < recordsLen m.snapshot + recordSize r then
      { m with snapshotDroppedCount := m.snapshotDroppedCount + 1 }
    else { m with snapshot := m.snapshot ++ [r] }

/-- Whether a stop for the address and the group ends what the record has begun. -/
def invalidated (address groupId : Byte) (e : Record) : Bool :=
  (address = 0 || e.address = address) && (groupId = 0 || key e.packet = groupId) &&
    (packetType e.packet = .animationPrepare || packetType e.packet = .animationStart)

def invalidateSnapshot (m : PacketMirror) (address groupId : Byte) : PacketMirror :=
  { m with snapshot := m.snapshot.filter fun e => !invalidated address groupId e }

/-- The snapshot's part of a capture. -/
def captureSnapshot (m : PacketMirror) (r : Record) : PacketMirror :=
  let m :=
    match r.packet with
    | .control .stop groupId => m.invalidateSnapshot r.address groupId
    | _ => m
  if isSnapshotted r.packet then m.updateSnapshot r else m

def sameColor (r e : Record) : Bool :=
  e.address = r.address && packetType e.packet = .setColor

/-- The records that are sent, if there are any. -/
def flush (m : PacketMirror) : PacketMirror × List Record :=
  if m.records = [] then (m, [])
  else ({ m with records := [], droppedCount := 0 }, m.records)

/-- The batch's part of a capture, and the records it flushes. -/
def captureRecord (m : PacketMirror) (r : Record) : PacketMirror × List Record :=
  match if packetType r.packet = .setColor then overwrite (sameColor r) r m.records else none with
  | some records => ({ m with records }, [])
  | none =>
    if recordsLen m.records + recordSize r ≤ recordsCap then
      ({ m with records := m.records ++ [r] }, [])
    else if m.hasServer then
      let (m, sent) := m.flush
      ({ m with records := m.records ++ [r] }, sent)
    else ({ m with droppedCount := m.droppedCount + 1 }, [])

def capture (m : PacketMirror) (r : Record) : PacketMirror × List Record :=
  (m.captureSnapshot r).captureRecord r

def init (hasServer : Bool) : PacketMirror := ⟨[], 0, [], 0, hasServer⟩

end PacketMirror

end Lightnet
