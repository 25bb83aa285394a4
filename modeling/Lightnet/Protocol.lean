import Lightnet.Library.ReflectedCrc

/-!
# The wire protocol: packet types, the packet header and its check bytes

Every frame starts with a seven byte `PacketMeta`: the type, the protocol version and the
target panel, followed by the CRC-16 of those five bytes. Multi-byte fields are little-endian.
-/

namespace Lightnet

abbrev Byte := BitVec 8

instance byteLawfulBEq : LawfulBEq Byte := inferInstance

/-! The table sizes that index literals are written for. -/

instance neZeroThree : NeZero (3 : ℕ) := ⟨Nat.succ_ne_zero 2⟩

instance neZeroSix : NeZero (6 : ℕ) := ⟨Nat.succ_ne_zero 5⟩

inductive PacketType where
  | noop | ack | initializationPull | registerEdge | turnOnOff | setColor | registerEdgeAck
  | panelEdgeInfo | fetchState | panelConfiguration | animationPrepare | animationStart
  | animationControl | fetchAnimState | animationUpdateParams | setPalette | setBaseColors
  | setGlobalBrightness | setBackground | fetchStateReply | fetchAnimStateReply
  | discoveryAdvance | discoveryDone | linkAck | resetDevice | enterBootloader
  | bootloaderPing | bootloaderPong | bootloaderWriteChunk | bootloaderWriteAck
  | bootloaderStartApp
  deriving DecidableEq, Repr

namespace PacketType

def toByte : PacketType → Byte
  | noop => 0
  | ack => 1
  | initializationPull => 2
  | registerEdge => 3
  | turnOnOff => 4
  | setColor => 5
  | registerEdgeAck => 8
  | panelEdgeInfo => 9
  | fetchState => 10
  | panelConfiguration => 11
  | animationPrepare => 12
  | animationStart => 13
  | animationControl => 14
  | fetchAnimState => 15
  | animationUpdateParams => 16
  | setPalette => 17
  | setBaseColors => 18
  | setGlobalBrightness => 19
  | setBackground => 20
  | fetchStateReply => 21
  | fetchAnimStateReply => 22
  | discoveryAdvance => 23
  | discoveryDone => 24
  | linkAck => 25
  | resetDevice => 200
  | enterBootloader => 201
  | bootloaderPing => 202
  | bootloaderPong => 203
  | bootloaderWriteChunk => 204
  | bootloaderWriteAck => 205
  | bootloaderStartApp => 206

def all : List PacketType :=
  [noop, ack, initializationPull, registerEdge, turnOnOff, setColor, registerEdgeAck,
    panelEdgeInfo, fetchState, panelConfiguration, animationPrepare, animationStart,
    animationControl, fetchAnimState, animationUpdateParams, setPalette, setBaseColors,
    setGlobalBrightness, setBackground, fetchStateReply, fetchAnimStateReply, discoveryAdvance,
    discoveryDone, linkAck, resetDevice, enterBootloader, bootloaderPing, bootloaderPong,
    bootloaderWriteChunk, bootloaderWriteAck, bootloaderStartApp]

/-- The type a wire byte names, if any. -/
def ofByte (b : Byte) : Option PacketType := all.find? (fun t => t.toByte = b)

theorem ofByte_toByte (t : PacketType) : ofByte t.toByte = some t := by
  cases t <;> rfl

/-- Types that survive a protocol version mismatch. -/
def isVersionExemptType : PacketType → Bool
  | resetDevice | enterBootloader | initializationPull | registerEdge | discoveryAdvance
  | discoveryDone | linkAck => true
  | _ => false

/-- Types whose every hop is confirmed by a `linkAck`. -/
def isLinkAckedType : PacketType → Bool
  | ack | turnOnOff | panelEdgeInfo | fetchState | fetchStateReply | fetchAnimState
  | fetchAnimStateReply | panelConfiguration | animationPrepare | animationControl
  | animationUpdateParams | setPalette | setBaseColors | setGlobalBrightness | setBackground
  | resetDevice | enterBootloader | bootloaderPong | bootloaderWriteAck => true
  | _ => false

/-- Wire sizes, as the header and then the fields of the payload. -/
def size : PacketType → ℕ
  | noop | ack | registerEdgeAck | fetchState | fetchAnimState | resetDevice | bootloaderPing
  | bootloaderStartApp => 7
  | initializationPull => 7 + 2 + 2
  | registerEdge => 7 + 2 + 2 + 2
  | turnOnOff => 7 + 1
  | setColor => 7 + 3
  | panelEdgeInfo => 7 + 2 + 1 + 2
  | panelConfiguration => 7 + 1 + 3 + 3
  | animationPrepare => 7 + 1 + 1 + 1 + 1 + 2 + 4 + 4 + 1 + 1 + 1 + 1 + 2 + 1
  | animationStart => 7 + 1 + 1
  | animationControl => 7 + 1 + 1
  | animationUpdateParams => 7 + 1 + 1 + 1 + 1 + 1
  | setPalette => 7 + 1 + 16 * 4
  | setBaseColors => 7 + 3 * 3
  | setGlobalBrightness => 7 + 1
  | setBackground => 7 + 3
  | fetchStateReply => 7 + 2 + 1 + 3
  | fetchAnimStateReply => 7 + 1 + 1 + 2 + 2 + 1
  | discoveryAdvance => 7 + 2
  | discoveryDone => 7 + 2
  | linkAck => 7 + 2
  | enterBootloader => 7 + 1
  | bootloaderPong => 7 + 1 + 2 + 2
  | bootloaderWriteChunk => 7 + 2 + 1 + 64 + 2
  | bootloaderWriteAck => 7 + 2 + 1 + 2

end PacketType

/-- `0` for a byte that names no type. -/
def packetSizeForType (type : Byte) : ℕ := ((PacketType.ofByte type).map PacketType.size).getD 0

def maxPacketSize : ℕ := 80

theorem PacketType.size_bounds (t : PacketType) : 7 ≤ t.size ∧ t.size ≤ maxPacketSize := by
  cases t <;> decide

theorem packetSizeForType_eq_zero (type : Byte) :
    packetSizeForType type = 0 ↔ PacketType.ofByte type = none := by
  unfold packetSizeForType
  cases h : PacketType.ofByte type with
  | none => simp
  | some t =>
      have := t.size_bounds
      simp only [Option.map_some, Option.getD_some, reduceCtorEq, iff_false]
      omega

theorem packetSizeForType_le (type : Byte) : packetSizeForType type ≤ maxPacketSize := by
  unfold packetSizeForType
  cases h : PacketType.ofByte type with
  | none => exact Nat.zero_le _
  | some t => exact t.size_bounds.2

/-! ### The check bytes -/

def crcPoly : BitVec 16 := 0xA001

def crc16Update (crc : BitVec 16) (a : Byte) : BitVec 16 := ReflectedCrc.update crcPoly crc a

def crc16 (data : List Byte) : BitVec 16 := data.foldl crc16Update 0xFFFF

theorem crc16_eq_run (data : List Byte) : crc16 data = ReflectedCrc.run crcPoly 0xFFFF data := rfl

def le16 (lo hi : Byte) : BitVec 16 := hi ++ lo

theorem le16_leBytes (c : BitVec 16) :
    le16 (c.setWidth 8) ((c >>> 8).setWidth 8) = c := by
  apply BitVec.eq_of_getLsbD_eq
  intro i hi
  simp only [le16, BitVec.getLsbD_append, BitVec.getLsbD_setWidth, BitVec.getLsbD_ushiftRight]
  by_cases h : i < 8
  · simp [h]
  · have hsub : 8 + (i - 8) = i := by omega
    have hlt : i - 8 < 8 := by omega
    simp [h, hsub, hlt]

/-! ### Headers -/

def protocolVersion : BitVec 16 := 14

structure PacketHeader where
  type : Byte
  protocolVersion : BitVec 16
  targetPanelIndex : BitVec 16
  deriving DecidableEq

structure PacketMeta where
  header : PacketHeader
  headerCrc : BitVec 16
  deriving DecidableEq

def PacketHeader.bytes (h : PacketHeader) : List Byte :=
  h.type :: (ReflectedCrc.leBytes 2 h.protocolVersion ++ ReflectedCrc.leBytes 2 h.targetPanelIndex)

def PacketMeta.bytes (m : PacketMeta) : List Byte :=
  m.header.bytes ++ ReflectedCrc.leBytes 2 m.headerCrc

def setPacketMeta (type : PacketType) (targetPanelIndex : BitVec 16) : PacketMeta :=
  let header := ⟨type.toByte, protocolVersion, targetPanelIndex⟩
  ⟨header, crc16 header.bytes⟩

/-- The wire bytes of a packet: its stamped header and then its payload. -/
def frameBytes (type : PacketType) (targetPanelIndex : BitVec 16) (payload : List Byte) :
    List Byte :=
  (setPacketMeta type targetPanelIndex).bytes ++ payload

/-- A stamped header leaves the CRC register at zero, since it ends in its own check bytes. -/
theorem run_setPacketMeta (type : PacketType) (target : BitVec 16) :
    ReflectedCrc.run crcPoly 0xFFFF (setPacketMeta type target).bytes = 0 :=
  ReflectedCrc.run_append_residue crcPoly 2 (by decide) 0xFFFF _

/-- The CRC over a whole frame is the CRC of its payload alone, from a zero register. -/
theorem crc16_frameBytes (type : PacketType) (target : BitVec 16) (payload : List Byte) :
    crc16 (frameBytes type target payload) = ReflectedCrc.run crcPoly 0 payload := by
  rw [crc16_eq_run, frameBytes, ReflectedCrc.run_append, run_setPacketMeta]

/-- `0` accepts; `1` is too short, `2` a bad header CRC, `3` a version mismatch. -/
def validatePacket (packet : PacketMeta) (size : ℕ) (validateProtocolVersion : Bool) : ℕ :=
  if size < 7 then 1
  else if crc16 packet.header.bytes ≠ packet.headerCrc then 2
  else if validateProtocolVersion && packet.header.protocolVersion ≠ protocolVersion &&
      !(PacketType.ofByte packet.header.type).any PacketType.isVersionExemptType then 3
  else 0

theorem validatePacket_setPacketMeta (type : PacketType) (target : BitVec 16) (size : ℕ)
    (v : Bool) (hsize : 7 ≤ size) :
    validatePacket (setPacketMeta type target) size v = 0 := by
  simp [validatePacket, setPacketMeta, Nat.not_lt.mpr hsize]

end Lightnet
