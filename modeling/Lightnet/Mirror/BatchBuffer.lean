import Lightnet.Mirror.SnapshotTiling
import Lightnet.Mirror.WirePackets
import Lightnet.Websocket.Commands

/-!
# The frames of the mirror

The packets that are captured for the clients lie end to end in a frame that is sent when it is full
or when its time has come. A colour is written over the one that is in the frame for the same
address. The buffer is that of a list of packets, and a client reads that list from the frame.
-/

namespace Lightnet

open BoundedBuffer PackedRecords WebsocketApi

structure MirrorBatch where
  records : List Byte
  recordsLen : BitVec 16
  recordCount : BitVec 16
  droppedCount : BitVec 16
  firstRecordMs : BitVec 32

/-- The clock as it is read during a call. -/
structure MirrorClock where
  millis : BitVec 32
  micros : BitVec 32

/-- The payload of a frame: when it was recorded, the number of records, and the records. -/
def mirrorBatchPayload (now : BitVec 32) (count : BitVec 16) (records : List Byte) : List Byte :=
  ReflectedCrc.leBytes 4 now ++ (ReflectedCrc.leBytes 2 count ++ records)

namespace MirrorBatch

open MirrorSnapshot (recordHeaderSize packetMetaSize isMirrored recordBytes mirrorRecordWrite)

def recordsCap : Arch → ℕ
  | .esp32 => 1024 * 5
  | .other => 1024

def init (cells : List Byte) : MirrorBatch := ⟨cells, 0, 0, 0, 0⟩

def headerAt (records : List Byte) (off : ℕ) : Except Overrun (Byte × Byte × Byte) :=
  if off + recordHeaderSize ≤ records.length then
    .ok (records.getD off 0, records.getD (off + 1) 0, records.getD (off + 2) 0)
  else .error .overrun

/-- The loop over the records from `off` on. The first one with the packet's address, type and size
gets the packet. -/
def overwriteColor (records : List Byte) (recordsLen : ℕ) (c : CapturedPacket) :
    ℕ → ℕ → Except Overrun (Option (List Byte))
  | 0, _ => .error .overrun
  | fuel + 1, off =>
    if off < recordsLen then do
      let header ← headerAt records off
      if header = (c.address, c.type, c.size) then do
        let records ← writeAt records (off + recordHeaderSize) c.bytes
        .ok (some records)
      else
        overwriteColor records recordsLen c fuel
          ((off + (recordHeaderSize + header.2.2.toNat)) % 2 ^ 16)
    else .ok none

def frame (clock : MirrorClock) (b : MirrorBatch) : List Byte :=
  let now := if b.firstRecordMs ≠ 0 then b.firstRecordMs else clock.millis
  packetBytes .mirrorBatch clock.micros
    (mirrorBatchPayload now b.recordCount (b.records.take b.recordsLen.toNat))

/-- What is left in the buffer, and the frame that is sent if it held any record. -/
def flushTo (clock : MirrorClock) (b : MirrorBatch) : MirrorBatch × Option (List Byte) :=
  if b.recordCount = 0 then (b, none)
  else
    ({ b with recordsLen := 0, recordCount := 0, droppedCount := 0, firstRecordMs := 0 },
      some (b.frame clock))

def append (clock : MirrorClock) (b : MirrorBatch) (c : CapturedPacket) :
    Except Overrun MirrorBatch := do
  let records ← mirrorRecordWrite b.records b.recordsLen.toNat c
  .ok { b with
    records
    recordsLen := b.recordsLen + BitVec.ofNat 16 (recordHeaderSize + c.size.toNat)
    recordCount := b.recordCount + 1
    firstRecordMs := if b.firstRecordMs = 0 ∨ clock.millis < b.firstRecordMs then clock.millis
      else b.firstRecordMs }

/-- The packet has no record yet that it could overwrite. -/
def captureNew (arch : Arch) (hasServer : Bool) (clock : MirrorClock) (b : MirrorBatch)
    (c : CapturedPacket) : Except Overrun (MirrorBatch × Option (List Byte)) :=
  if recordsCap arch < (b.recordsLen.toNat + recordHeaderSize + c.size.toNat) % 2 ^ 16 then
    if hasServer then do
      let next ← (b.flushTo clock).1.append clock c
      .ok (next, (b.flushTo clock).2)
    else .ok ({ b with droppedCount := b.droppedCount + 1 }, none)
  else do
    let next ← b.append clock c
    .ok (next, none)

/-- What a capture does to the batch, and the frame that it sends. -/
def capture (arch : Arch) (hasServer : Bool) (clock : MirrorClock) (b : MirrorBatch)
    (c : CapturedPacket) : Except Overrun (MirrorBatch × Option (List Byte)) :=
  if c.bytes.length < packetMetaSize then .ok (b, none)
  else if isMirrored c.type = false then .ok (b, none)
  else do
    let found ← if c.type = PacketType.setColor.toByte then
      overwriteColor b.records b.recordsLen.toNat c (b.recordsLen.toNat + 1) 0
      else .ok none
    found.elim (b.captureNew arch hasServer clock c) fun records => .ok ({ b with records }, none)

end MirrorBatch

/-- The frame with the snapshot for a client that has just asked for it. -/
def MirrorSnapshot.flushSnapshotTo (clock : MirrorClock) (s : MirrorSnapshot) :
    Option (List Byte) :=
  if s.index.length = 0 then none
  else
    some (packetBytes .mirrorBatch clock.micros (mirrorBatchPayload clock.millis
      (BitVec.ofNat 16 s.index.length) (s.records.take s.recordsLen.toNat)))

/-! ### The client's side -/

/-- As many records as were announced, with their addresses. -/
def readRecords : ℕ → List Byte → Option (List (Byte × AnimationPacket))
  | 0, _ => some []
  | n + 1, address :: _ :: size :: rest =>
    if size.toNat ≤ rest.length then do
      let packet ← WirePacket.read (rest.take size.toNat)
      let packets ← readRecords n (rest.drop size.toNat)
      some ((address, packet.2) :: packets)
    else none
  | _, _ => none

/-- A frame is a valid packet of the web socket whose payload holds the records. -/
def readFrame (frame : List Byte) : Option (List (Byte × AnimationPacket)) :=
  if WebsocketHandler.validateCommand frame 0 frame.length = some 0 ∧
      WebsocketHandler.byteAt frame 0 = some Packet.mirrorBatch.toByte then do
    let count ← WebsocketHandler.le16At frame (sizeofPacketMeta + 4)
    readRecords count.toNat (frame.drop (sizeofPacketMeta + 6))
  else none

/-! ### Reading back what was written -/

namespace WirePacket

theorem length_bytes (address : Byte) (packet : AnimationPacket) :
    (bytes address packet).length = (PacketMirror.packetType packet).size := by
  have hheader : (bytes address packet).length = 7 + (payload packet).length := by
    simp [bytes, frameBytes, PacketMeta.bytes, PacketHeader.bytes, ReflectedCrc.leBytes]
    omega
  rw [hheader, length_payload]

end WirePacket

namespace PacketMirror

/-- The record as its packet is sent. -/
def Record.wire (r : Record) : CapturedPacket where
  address := r.address
  bytes := WirePacket.bytes r.address r.packet
  short := by
    rw [WirePacket.length_bytes]
    exact Nat.lt_of_le_of_lt (packetType r.packet).size_bounds.2 (by decide)

/-- What a client gets of a record. -/
def Record.content (r : Record) : Byte × AnimationPacket := (r.address, r.packet)

variable (r : Record)

theorem wire_type : r.wire.type = (packetType r.packet).toByte := rfl

theorem wire_wireSized : r.wire.WireSized := by
  have hlength : r.wire.bytes.length = (packetType r.packet).size := WirePacket.length_bytes _ _
  rw [CapturedPacket.WireSized, wire_type, packetSizeForType, PacketType.ofByte_toByte, hlength]
  rfl

end PacketMirror

section
open MirrorSnapshot (recordBytes)

theorem readRecords_area {rs : List PacketMirror.Record}
    (hfits : ∀ r ∈ rs, WirePacket.Fits r.packet) :
    readRecords rs.length (area recordBytes (rs.map PacketMirror.Record.wire)) =
      some (rs.map PacketMirror.Record.content) := by
  induction rs with
  | nil => rfl
  | cons r rs ih =>
      have hsize := r.wire.size_toNat
      have hread : WirePacket.read r.wire.bytes = some (r.address, r.packet) :=
        WirePacket.read_bytes _ (hfits r List.mem_cons_self)
      have hle : r.wire.size.toNat ≤
          (r.wire.bytes ++ area recordBytes (rs.map PacketMirror.Record.wire)).length := by
        rw [hsize, List.length_append]
        exact Nat.le_add_right _ _
      rw [List.map_cons, area_cons, List.length_cons]
      change readRecords (rs.length + 1) (r.wire.address :: r.wire.type :: r.wire.size ::
        (r.wire.bytes ++ area recordBytes (rs.map PacketMirror.Record.wire))) = _
      rw [readRecords, if_pos hle, List.take_left' hsize.symm, List.drop_left' hsize.symm, hread,
        ih fun s hs => hfits s (List.mem_cons_of_mem _ hs)]
      rfl

theorem readFrame_packetBytes {now micros : BitVec 32} {count : BitVec 16} {records : List Byte}
    (h : records.length < 65000) :
    readFrame (packetBytes .mirrorBatch micros (mirrorBatchPayload now count records)) =
      readRecords count.toNat records := by
  have hlength : (mirrorBatchPayload now count records).length = records.length + 6 := by
    simp only [mirrorBatchPayload, List.length_append, ReflectedCrc.leBytes, List.length_cons,
      List.length_nil]
    omega
  have hwhole : (packetBytes .mirrorBatch micros (mirrorBatchPayload now count records)).drop 0 =
      packetBytes .mirrorBatch micros (mirrorBatchPayload now count records) ++ [] :=
    (List.append_nil _).symm
  obtain ⟨hvalid, htype, -, hpayload⟩ := WebsocketHandler.validateCommand_packetBytes
    (Nat.zero_le _) hwhole (le_refl _) (by omega)
  rw [Nat.zero_add, List.append_nil] at hpayload
  have hframe := WebsocketHandler.length_packetBytes .mirrorBatch micros
    (mirrorBatchPayload now count records)
  generalize packetBytes .mirrorBatch micros (mirrorBatchPayload now count records) = frame at *
  have hdrop : ∀ k, frame.drop (sizeofPacketMeta + k) =
      (mirrorBatchPayload now count records).drop k := fun k => by
    rw [← hpayload, List.drop_drop]
  have hcount : WebsocketHandler.le16At frame (sizeofPacketMeta + 4) = some count :=
    WebsocketHandler.le16At_drop (by omega) ((hdrop 4).trans rfl)
  have hrecords : frame.drop (sizeofPacketMeta + 6) = records := hdrop 6
  rw [readFrame, if_pos ⟨hvalid, htype⟩, hcount, hrecords]
  rfl

end

end Lightnet
