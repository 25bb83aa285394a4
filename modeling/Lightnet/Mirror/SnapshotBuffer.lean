import Lightnet.Library.PackedRecords
import Lightnet.Protocol

/-!
# The snapshot's buffer

The records of the snapshot lie end to end in one frame, each a header and a wire packet, and an
index says for each address, type and key where its record starts. A packet is written over the
one it replaces; what a stop invalidates is taken out, and the records behind it move down.
-/

namespace Lightnet

open BoundedBuffer

/-- The platforms that the buffer has a size for. -/
inductive Arch where
  | esp32
  | other

/-- A packet that was sent, with its address, zero for all panels. -/
structure CapturedPacket where
  address : Byte
  bytes : List Byte
  short : bytes.length < 256

namespace CapturedPacket

variable (c : CapturedPacket)

def size : Byte := BitVec.ofNat 8 c.bytes.length

def type : Byte := c.bytes.getD 0 0

/-- The `group_id` of a prepare, a start and a control. -/
def groupId : Byte := c.bytes.getD 8 0

def cmd : Byte := c.bytes.getD 7 0

/-- The packet has the size of its type. -/
def WireSized : Prop := c.bytes.length = packetSizeForType c.type

instance : Decidable c.WireSized := inferInstanceAs (Decidable (_ = _))

/-- The group of a prepare or a start, zero otherwise. -/
def key : Byte :=
  match PacketType.ofByte c.type with
  | some .animationPrepare =>
    if PacketType.animationPrepare.size ≤ c.bytes.length then c.groupId else 0
  | some .animationStart =>
    if PacketType.animationStart.size ≤ c.bytes.length then c.groupId else 0
  | _ => 0

end CapturedPacket

structure SnapshotEntry where
  address : Byte
  type : Byte
  key : Byte
  offset : BitVec 16
  size : Byte

structure MirrorSnapshot where
  records : List Byte
  index : List SnapshotEntry
  recordsLen : BitVec 16
  droppedCount : BitVec 16

namespace MirrorSnapshot

def recordsCap : Arch → ℕ
  | .esp32 => 1024 * 10
  | .other => 1024 * 2

def maxEntries : ℕ := 256

def recordHeaderSize : ℕ := 3

def packetMetaSize : ℕ := 7

def isMirrored (type : Byte) : Bool :=
  match PacketType.ofByte type with
  | some .turnOnOff | some .setColor | some .animationPrepare | some .animationStart
  | some .animationControl | some .animationUpdateParams | some .setPalette | some .setBaseColors
  | some .setGlobalBrightness | some .setBackground => true
  | _ => false

def isSnapshotted (type : Byte) : Bool :=
  match PacketType.ofByte type with
  | some .setGlobalBrightness | some .setBaseColors | some .setPalette | some .setBackground
  | some .turnOnOff | some .animationPrepare | some .animationStart => true
  | _ => false

/-- A record's header and its packet. -/
def recordBytes (c : CapturedPacket) : List Byte := c.address :: c.type :: c.size :: c.bytes

def mirrorRecordWrite (records : List Byte) (offset : ℕ) (c : CapturedPacket) :
    Except Overrun (List Byte) := writeAt records offset (recordBytes c)

/-- A snapshot over cells that hold anything. -/
def init (cells : List Byte) : MirrorSnapshot := ⟨cells, [], 0, 0⟩

def clearSnapshot (s : MirrorSnapshot) : MirrorSnapshot :=
  { s with index := [], recordsLen := 0, droppedCount := 0 }

/-- The entry is for the packet's address, type and key. -/
def sameEntry (c : CapturedPacket) (e : SnapshotEntry) : Bool :=
  e.address = c.address && e.type = c.type && e.key = c.key

def updateSnapshot (arch : Arch) (s : MirrorSnapshot) (c : CapturedPacket) :
    Except Overrun MirrorSnapshot :=
  if c.bytes.length < packetMetaSize then .ok s
  else
    match s.index.find? (sameEntry c) with
    | some e => do
      let records ← mirrorRecordWrite s.records e.offset.toNat c
      .ok { s with records }
    | none =>
      if maxEntries ≤ s.index.length ∨
          recordsCap arch < (s.recordsLen.toNat + recordHeaderSize + c.size.toNat) % 2 ^ 16 then
        .ok { s with droppedCount := s.droppedCount + 1 }
      else do
        let records ← mirrorRecordWrite s.records s.recordsLen.toNat c
        .ok { s with
          records
          index := s.index ++ [⟨c.address, c.type, c.key, s.recordsLen, c.size⟩]
          recordsLen := s.recordsLen + BitVec.ofNat 16 (recordHeaderSize + c.size.toNat) }

/-- Whether a stop for the address and the group ends what the entry's record has begun. -/
def matchesStop (address groupId : Byte) (e : SnapshotEntry) : Bool :=
  (address = 0 || e.address = address) && (groupId = 0 || e.key = groupId) &&
    (e.type = PacketType.animationPrepare.toByte || e.type = PacketType.animationStart.toByte)

/-- One turn of the loop over the offsets. The offset that it compares with is in the index that
it changes. -/
def shiftOffset (i recSize : ℕ) (index : List SnapshotEntry) (j : ℕ) : List SnapshotEntry :=
  match index[j]?, index[i]? with
  | some x, some e =>
    if e.offset < x.offset then
      index.set j { x with offset := x.offset - BitVec.ofNat 16 recSize }
    else index
  | _, _ => index

def shiftOffsets (i recSize : ℕ) (index : List SnapshotEntry) : List SnapshotEntry :=
  (List.range index.length).foldl (shiftOffset i recSize) index

/-- Take out the entry `e` at `i` and its record. -/
def removeEntry (s : MirrorSnapshot) (i : ℕ) (e : SnapshotEntry) : Except Overrun MirrorSnapshot :=
  let recSize := recordHeaderSize + e.size.toNat
  let offset := e.offset.toNat
  if s.recordsLen.toNat < offset + recSize then .error .overrun
  else do
    let records ← moveWithin s.records offset (offset + recSize)
      (s.recordsLen.toNat - offset - recSize)
    .ok { s with
      records
      recordsLen := s.recordsLen - BitVec.ofNat 16 recSize
      index := (shiftOffsets i recSize s.index).eraseIdx i }

/-- The loop of `invalidateSnapshot` from `i` on, with `n` entries left. -/
def invalidateFrom (address groupId : Byte) (s : MirrorSnapshot) (i : ℕ) :
    ℕ → Except Overrun MirrorSnapshot
  | 0 => .ok s
  | n + 1 =>
    match s.index[i]? with
    | none => .ok s
    | some e =>
      if matchesStop address groupId e then do
        let s ← s.removeEntry i e
        invalidateFrom address groupId s i n
      else invalidateFrom address groupId s (i + 1) n

def invalidateSnapshot (s : MirrorSnapshot) (address groupId : Byte) :
    Except Overrun MirrorSnapshot := s.invalidateFrom address groupId 0 s.index.length

def animCtrlStop : Byte := 1

/-- A stop invalidates what it ends. -/
def captureControl (s : MirrorSnapshot) (c : CapturedPacket) : Except Overrun MirrorSnapshot :=
  if c.type = PacketType.animationControl.toByte ∧
      PacketType.animationControl.size ≤ c.bytes.length ∧ c.cmd = animCtrlStop then
    s.invalidateSnapshot c.address c.groupId
  else .ok s

/-- What a capture does to the snapshot. -/
def capture (arch : Arch) (s : MirrorSnapshot) (c : CapturedPacket) :
    Except Overrun MirrorSnapshot :=
  if c.bytes.length < packetMetaSize then .ok s
  else if isMirrored c.type = false then .ok s
  else do
    let s ← s.captureControl c
    if isSnapshotted c.type then s.updateSnapshot arch c else .ok s

inductive Call where
  | capture (c : CapturedPacket)
  | clearSnapshot

def call (arch : Arch) (s : MirrorSnapshot) : Call → Except Overrun MirrorSnapshot
  | .capture c => s.capture arch c
  | .clearSnapshot => .ok s.clearSnapshot

def run (arch : Arch) (s : MirrorSnapshot) (calls : List Call) : Except Overrun MirrorSnapshot :=
  calls.foldlM (call arch) s

end MirrorSnapshot

end Lightnet
