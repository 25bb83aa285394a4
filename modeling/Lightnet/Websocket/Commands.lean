import Lightnet.Animation.Color
import Lightnet.Mirror.SnapshotRequests
import Lightnet.Storage.Records

/-!
# Commands over the web socket

A client sends a command as a packet of its own: a header with its check bytes, the check bytes and
the size of the payload, and the payload. The handler looks at a message only as far as it goes;
here a read beyond its end is undefined.
-/

namespace Lightnet

open Storage (readAt)

namespace WebsocketApi

def version : BitVec 16 := 0x01

inductive Packet where
  | toggle | setColor | getEdgesList | getPanelsStates | panelsStates | edgesList
  | animationTrigger | mirrorBatch | setMirror | ping | pong | appState
  deriving DecidableEq

namespace Packet

def toByte : Packet → Byte
  | toggle => 1
  | setColor => 3
  | getEdgesList => 4
  | getPanelsStates => 5
  | panelsStates => 6
  | edgesList => 7
  | animationTrigger => 8
  | mirrorBatch => 9
  | setMirror => 10
  | ping => 11
  | pong => 12
  | appState => 13

def all : List Packet :=
  [toggle, setColor, getEdgesList, getPanelsStates, panelsStates, edgesList, animationTrigger,
    mirrorBatch, setMirror, ping, pong, appState]

def ofByte (b : Byte) : Option Packet := all.find? fun t => t.toByte = b

theorem ofByte_toByte (t : Packet) : ofByte t.toByte = some t := by
  cases t <;> rfl

end Packet

def sizeofPacketHeader : ℕ := 1 + 2 + 4

def sizeofPacketMeta : ℕ := sizeofPacketHeader + 2 + 2 + 2

def sizeofMessage : ℕ := 4 + 2

def headerBytes (type : Packet) (nonce : BitVec 32) : List Byte :=
  type.toByte :: (ReflectedCrc.leBytes 2 version ++ ReflectedCrc.leBytes 4 nonce)

/-- A packet as `updatePacketMeta` stamps it. -/
def packetBytes (type : Packet) (nonce : BitVec 32) (payload : List Byte) : List Byte :=
  headerBytes type nonce ++
    (ReflectedCrc.leBytes 2 (crc16 (headerBytes type nonce)) ++
      (ReflectedCrc.leBytes 2 (crc16 payload) ++
        (ReflectedCrc.leBytes 2 (BitVec.ofNat 16 payload.length) ++ payload)))

/-- A message as it waits in the queue. -/
def messageBytes (clientId : ClientId) (payload : List Byte) : List Byte :=
  ReflectedCrc.leBytes 4 clientId ++
    (ReflectedCrc.leBytes 2 (BitVec.ofNat 16 payload.length) ++ payload)

end WebsocketApi

open WebsocketApi

/-- What a command makes the controller do. -/
inductive Command where
  | toggle (address state : Byte)
  | setColor (address : Byte) (color : ColorRGB)
  | getPanelsStates
  | getEdgesList
  | animationTrigger (groupId value : Byte)
  | setMirror (enabled : Bool)
  | ping
  deriving DecidableEq

namespace Command

def type : Command → Packet
  | toggle _ _ => .toggle
  | setColor _ _ => .setColor
  | getPanelsStates => .getPanelsStates
  | getEdgesList => .getEdgesList
  | animationTrigger _ _ => .animationTrigger
  | setMirror _ => .setMirror
  | ping => .ping

def payload : Command → List Byte
  | toggle address state => [address, state]
  | setColor address color => [address, color.r, color.g, color.b]
  | animationTrigger groupId value => [groupId, value]
  | setMirror enabled => [if enabled then 1 else 0]
  | _ => []

def bytes (command : Command) (nonce : BitVec 32) : List Byte :=
  packetBytes command.type nonce command.payload

end Command

inductive Outcome where
  | sizeTooSmall
  | sizeMismatch
  | invalidCommand
  | unknown
  | command (clientId : ClientId) (command : Command)
  deriving DecidableEq

namespace WebsocketHandler

/-- The bytes at an offset of a message, which must all belong to it. -/
def bytesAt (message : List Byte) (offset n : ℕ) : Option (List Byte) :=
  if offset + n ≤ message.length then some (readAt message offset n) else none

def byteAt (message : List Byte) (offset : ℕ) : Option Byte := message[offset]?

def le16At (message : List Byte) (offset : ℕ) : Option (BitVec 16) :=
  (bytesAt message offset 2).map fun b => le16 (b.getD 0 0) (b.getD 1 0)

def le32At (message : List Byte) (offset : ℕ) : Option (BitVec 32) :=
  (bytesAt message offset 4).map fun b =>
    le16 (b.getD 2 0) (b.getD 3 0) ++ le16 (b.getD 0 0) (b.getD 1 0)

def requiredCommandPayloadSize (type : Byte) : ℕ :=
  match Packet.ofByte type with
  | some .toggle => 1 + 1
  | some .setColor => 1 + 3
  | some .animationTrigger => 1 + 1
  | some .setMirror => 1
  | _ => 0

/-- The offset is that of the command in its message; `0` means that it is valid. -/
def validateCommand (message : List Byte) (command size : ℕ) : Option ℕ :=
  if size < sizeofPacketMeta then some 1
  else do
    let payloadSize ← le16At message (command + 11)
    if size - sizeofPacketMeta < payloadSize.toNat then some 1
    else do
      let header ← bytesAt message command sizeofPacketHeader
      let headerCrc ← le16At message (command + 7)
      if crc16 header ≠ headerCrc then some 2
      else do
        let payload ← bytesAt message (command + sizeofPacketMeta) payloadSize.toNat
        let payloadCrc ← le16At message (command + 9)
        if crc16 payload ≠ payloadCrc then some 3
        else do
          let protocolVersion ← le16At message (command + 1)
          if protocolVersion ≠ version then some 4 else some 0

/-- The command whose payload lies at the offset. -/
def readCommand (message : List Byte) (payload : ℕ) : Packet → Option (Option Command)
  | .toggle => do
    let address ← byteAt message payload
    let state ← byteAt message (payload + 1)
    some (some (.toggle address state))
  | .setColor => do
    let address ← byteAt message payload
    let r ← byteAt message (payload + 1)
    let g ← byteAt message (payload + 2)
    let b ← byteAt message (payload + 3)
    some (some (.setColor address ⟨r, g, b⟩))
  | .getPanelsStates => some (some .getPanelsStates)
  | .getEdgesList => some (some .getEdgesList)
  | .animationTrigger => do
    let groupId ← byteAt message payload
    let value ← byteAt message (payload + 1)
    some (some (.animationTrigger groupId value))
  | .setMirror => do
    let enabled ← byteAt message payload
    some (some (.setMirror (enabled ≠ 0)))
  | .ping => some (some .ping)
  | _ => some none

def handleCommand (message : List Byte) (command : ℕ) (clientId : ClientId) : Option Outcome := do
  let type ← byteAt message command
  let payloadSize ← le16At message (command + 11)
  if payloadSize.toNat < requiredCommandPayloadSize type then some .sizeTooSmall
  else
    match Packet.ofByte type with
    | none => some .unknown
    | some packet => do
      let read ← readCommand message (command + sizeofPacketMeta) packet
      some (read.elim .unknown (.command clientId))

def handleMessage (message : List Byte) (size : ℕ) : Option Outcome :=
  if size < sizeofMessage + sizeofPacketMeta then some .sizeTooSmall
  else do
    let payloadSize ← le16At message 4
    if payloadSize.toNat ≠ size - sizeofMessage then some .sizeMismatch
    else do
      let error ← validateCommand message sizeofMessage payloadSize.toNat
      if error ≠ 0 then some .invalidCommand
      else do
        let clientId ← le32At message 0
        handleCommand message sizeofMessage clientId

/-! ### Nothing is read beyond the message -/

section
variable {message : List Byte} {offset n : ℕ}

theorem bytesAt_within (h : offset + n ≤ message.length) :
    bytesAt message offset n = some (readAt message offset n) := if_pos h

theorem le16At_within (h : offset + 2 ≤ message.length) :
    ∃ value, le16At message offset = some value :=
  ⟨_, by rw [le16At, bytesAt_within h]; rfl⟩

theorem le32At_within (h : offset + 4 ≤ message.length) :
    ∃ value, le32At message offset = some value :=
  ⟨_, by rw [le32At, bytesAt_within h]; rfl⟩

theorem byteAt_within (h : offset < message.length) : ∃ value, byteAt message offset = some value :=
  ⟨message[offset], List.getElem?_eq_getElem h⟩

end

/-- A valid command announces no more payload than its message holds. -/
theorem validateCommand_within {message : List Byte} {command size : ℕ}
    (h : command + size ≤ message.length) : ∃ error, validateCommand message command size = some error ∧
      (error = 0 → ∃ payloadSize, le16At message (command + 11) = some payloadSize ∧
        sizeofPacketMeta + payloadSize.toNat ≤ size) := by
  have hmeta : sizeofPacketMeta = 13 := rfl
  have hheader : sizeofPacketHeader = 7 := rfl
  unfold validateCommand
  by_cases hsmall : size < sizeofPacketMeta
  · exact ⟨1, if_pos hsmall, fun hzero => absurd hzero (by decide)⟩
  rw [if_neg hsmall]
  obtain ⟨payloadSize, hpayloadSize⟩ := le16At_within
    (show command + 11 + 2 ≤ message.length by omega)
  rw [hpayloadSize, Option.bind_eq_bind, Option.bind_some]
  by_cases hlong : size - sizeofPacketMeta < payloadSize.toNat
  · exact ⟨1, if_pos hlong, fun hzero => absurd hzero (by decide)⟩
  have hfits : sizeofPacketMeta + payloadSize.toNat ≤ size := by omega
  obtain ⟨headerCrc, hheaderCrc⟩ := le16At_within (show command + 7 + 2 ≤ message.length by omega)
  obtain ⟨payloadCrc, hpayloadCrc⟩ := le16At_within (show command + 9 + 2 ≤ message.length by omega)
  obtain ⟨protocolVersion, hversion⟩ :=
    le16At_within (show command + 1 + 2 ≤ message.length by omega)
  rw [if_neg hlong, bytesAt_within (by omega), hheaderCrc, bytesAt_within (by omega), hpayloadCrc,
    hversion]
  simp only [Option.bind_eq_bind, Option.bind_some]
  split_ifs
  · exact ⟨2, rfl, fun hzero => absurd hzero (by decide)⟩
  · exact ⟨3, rfl, fun hzero => absurd hzero (by decide)⟩
  · exact ⟨4, rfl, fun hzero => absurd hzero (by decide)⟩
  · exact ⟨0, rfl, fun _ => ⟨payloadSize, rfl, hfits⟩⟩

theorem readCommand_within {message : List Byte} {payload : ℕ} {packet : Packet}
    (h : payload + requiredCommandPayloadSize packet.toByte ≤ message.length) :
    ∃ command, readCommand message payload packet = some command := by
  rw [requiredCommandPayloadSize, Packet.ofByte_toByte] at h
  cases packet with
  | toggle =>
      have hsize : payload + 2 ≤ message.length := h
      obtain ⟨address, haddress⟩ := byteAt_within (show payload < message.length by omega)
      obtain ⟨state, hstate⟩ := byteAt_within (show payload + 1 < message.length by omega)
      exact ⟨some (.toggle address state), by simp [readCommand, haddress, hstate]⟩
  | setColor =>
      have hsize : payload + 4 ≤ message.length := h
      obtain ⟨address, haddress⟩ := byteAt_within (show payload < message.length by omega)
      obtain ⟨r, hr⟩ := byteAt_within (show payload + 1 < message.length by omega)
      obtain ⟨g, hg⟩ := byteAt_within (show payload + 2 < message.length by omega)
      obtain ⟨b, hb⟩ := byteAt_within (show payload + 3 < message.length by omega)
      exact ⟨some (.setColor address ⟨r, g, b⟩), by simp [readCommand, haddress, hr, hg, hb]⟩
  | animationTrigger =>
      have hsize : payload + 2 ≤ message.length := h
      obtain ⟨groupId, hgroup⟩ := byteAt_within (show payload < message.length by omega)
      obtain ⟨value, hvalue⟩ := byteAt_within (show payload + 1 < message.length by omega)
      exact ⟨some (.animationTrigger groupId value), by simp [readCommand, hgroup, hvalue]⟩
  | setMirror =>
      have hsize : payload + 1 ≤ message.length := h
      obtain ⟨enabled, henabled⟩ := byteAt_within (show payload < message.length by omega)
      exact ⟨some (.setMirror (enabled ≠ 0)), by simp [readCommand, henabled]⟩
  | getPanelsStates => exact ⟨_, rfl⟩
  | getEdgesList => exact ⟨_, rfl⟩
  | ping => exact ⟨_, rfl⟩
  | panelsStates => exact ⟨_, rfl⟩
  | edgesList => exact ⟨_, rfl⟩
  | mirrorBatch => exact ⟨_, rfl⟩
  | pong => exact ⟨_, rfl⟩
  | appState => exact ⟨_, rfl⟩

theorem ofByte_eq_some {b : Byte} {packet : Packet} (h : Packet.ofByte b = some packet) :
    packet.toByte = b := by
  have hfound := List.find?_some h
  exact of_decide_eq_true hfound

theorem handleCommand_within {message : List Byte} {command : ℕ} (clientId : ClientId)
    {payloadSize : BitVec 16} (hsize : le16At message (command + 11) = some payloadSize)
    (h : command + sizeofPacketMeta + payloadSize.toNat ≤ message.length) :
    ∃ outcome, handleCommand message command clientId = some outcome := by
  have hmeta : sizeofPacketMeta = 13 := rfl
  obtain ⟨type, htype⟩ := byteAt_within (show command < message.length by omega)
  unfold handleCommand
  simp only [htype, hsize, Option.bind_eq_bind, Option.bind_some]
  by_cases hsmall : payloadSize.toNat < requiredCommandPayloadSize type
  · exact ⟨_, if_pos hsmall⟩
  rw [if_neg hsmall]
  cases hpacket : Packet.ofByte type with
  | none => exact ⟨_, rfl⟩
  | some packet =>
      have hread : command + sizeofPacketMeta + requiredCommandPayloadSize packet.toByte ≤
          message.length := by
        rw [ofByte_eq_some hpacket]
        omega
      obtain ⟨read, hcommand⟩ := readCommand_within hread
      exact ⟨read.elim .unknown (.command clientId), by simp [hcommand]⟩

/-- No message makes the handler read beyond it. -/
theorem handleMessage_within (message : List Byte) :
    ∃ outcome, handleMessage message message.length = some outcome := by
  have hmeta : sizeofPacketMeta = 13 := rfl
  have hmessage : sizeofMessage = 6 := rfl
  unfold handleMessage
  by_cases hsmall : message.length < sizeofMessage + sizeofPacketMeta
  · exact ⟨_, if_pos hsmall⟩
  rw [if_neg hsmall]
  obtain ⟨payloadSize, hpayloadSize⟩ := le16At_within (show 4 + 2 ≤ message.length by omega)
  rw [hpayloadSize, Option.bind_eq_bind, Option.bind_some]
  by_cases hmismatch : payloadSize.toNat ≠ message.length - sizeofMessage
  · exact ⟨_, if_pos hmismatch⟩
  rw [if_neg hmismatch]
  have hwhole : sizeofMessage + payloadSize.toNat ≤ message.length := by omega
  obtain ⟨error, herror, hvalid⟩ := validateCommand_within hwhole
  simp only [herror, Option.bind_eq_bind, Option.bind_some]
  by_cases hinvalid : error ≠ 0
  · exact ⟨_, if_pos hinvalid⟩
  rw [if_neg hinvalid]
  obtain ⟨clientId, hclient⟩ := le32At_within (show 0 + 4 ≤ message.length by omega)
  obtain ⟨announced, hannounced, hfits⟩ := hvalid (not_not.mp hinvalid)
  simp only [hclient, Option.bind_some]
  exact handleCommand_within clientId hannounced (by omega)

/-! ### A packet is understood as it was meant -/

theorem le32_leBytes (value : BitVec 32) :
    le16 (((value >>> 8) >>> 8).setWidth 8) ((((value >>> 8) >>> 8) >>> 8).setWidth 8) ++
      le16 (value.setWidth 8) ((value >>> 8).setWidth 8) = value := by
  apply BitVec.eq_of_getLsbD_eq
  intro i hi
  simp only [le16, BitVec.getLsbD_append, BitVec.getLsbD_setWidth, BitVec.getLsbD_ushiftRight]
  have hcases : i < 8 ∨ (8 ≤ i ∧ i < 16) ∨ (16 ≤ i ∧ i < 24) ∨ (24 ≤ i ∧ i < 32) := by omega
  rcases hcases with h | h | h | h
  · have h16 : i < 16 := by omega
    simp [h, h16]
  · have hlow : ¬ i < 8 := by omega
    have hsub : 8 + (i - 8) = i := by omega
    have hlt : i - 8 < 8 := by omega
    simp [h, hlow, hsub, hlt]
  · have hlow : ¬ i < 16 := by omega
    have hmid : i - 16 < 8 := by omega
    have hsub : 8 + (8 + (i - 16)) = i := by omega
    simp [hlow, hmid, hsub]
  · have hlow : ¬ i < 16 := by omega
    have hmid : ¬ i - 16 < 8 := by omega
    have htop : i - 16 - 8 < 8 := by omega
    have hsub : 8 + (8 + (8 + (i - 16 - 8))) = i := by omega
    simp [hlow, hmid, htop, hsub]

section
variable {message b rest : List Byte} {offset n : ℕ}

theorem bytesAt_drop (hle : offset ≤ message.length) (h : message.drop offset = b ++ rest)
    (hn : b.length = n) : bytesAt message offset n = some b := by
  have hlength := congrArg List.length h
  rw [List.length_drop, List.length_append] at hlength
  rw [bytesAt_within (by omega), readAt, h, ← hn, List.take_left]

theorem le16At_drop {value : BitVec 16} (hle : offset ≤ message.length)
    (h : message.drop offset = ReflectedCrc.leBytes 2 value ++ rest) :
    le16At message offset = some value := by
  have hbytes : bytesAt message offset 2 = some (ReflectedCrc.leBytes 2 value) :=
    bytesAt_drop hle h rfl
  rw [le16At, hbytes]
  exact congrArg some (le16_leBytes value)

theorem le32At_drop {value : BitVec 32} (hle : offset ≤ message.length)
    (h : message.drop offset = ReflectedCrc.leBytes 4 value ++ rest) :
    le32At message offset = some value := by
  have hbytes : bytesAt message offset 4 = some (ReflectedCrc.leBytes 4 value) :=
    bytesAt_drop hle h rfl
  rw [le32At, hbytes]
  exact congrArg some (le32_leBytes value)

theorem byteAt_drop (h : message.drop offset = b) (i : ℕ) : byteAt message (offset + i) = b[i]? := by
  rw [byteAt, ← h, List.getElem?_drop]

end

theorem length_payload (command : Command) :
    command.payload.length = requiredCommandPayloadSize command.type.toByte := by
  rw [requiredCommandPayloadSize, Packet.ofByte_toByte]
  cases command <;> rfl

theorem readCommand_payload (command : Command) {message rest : List Byte} {offset : ℕ}
    (h : message.drop offset = command.payload ++ rest) :
    readCommand message offset command.type = some (some command) := by
  have hread := byteAt_drop h
  have hfirst := hread 0
  rw [Nat.add_zero] at hfirst
  cases command with
  | toggle address state =>
      simp [readCommand, Command.type, hfirst, hread 1, Command.payload]
  | setColor address color =>
      simp [readCommand, Command.type, hfirst, hread 1, hread 2, hread 3, Command.payload]
  | animationTrigger groupId value =>
      simp [readCommand, Command.type, hfirst, hread 1, Command.payload]
  | setMirror enabled =>
      cases enabled <;> simp [readCommand, Command.type, hfirst, Command.payload]
  | getPanelsStates => rfl
  | getEdgesList => rfl
  | ping => rfl

theorem length_packetBytes (type : Packet) (nonce : BitVec 32) (payload : List Byte) :
    (packetBytes type nonce payload).length = sizeofPacketMeta + payload.length := by
  simp only [packetBytes, headerBytes, List.length_append, ReflectedCrc.leBytes, List.length_cons,
    List.length_nil, sizeofPacketMeta, sizeofPacketHeader]
  omega

/-- A packet that lies in a message is valid, whatever comes behind it. -/
theorem validateCommand_packetBytes {message rest payload : List Byte} {command size : ℕ}
    {type : Packet} {nonce : BitVec 32} (hle : command ≤ message.length)
    (h : message.drop command = packetBytes type nonce payload ++ rest)
    (hsize : (packetBytes type nonce payload).length ≤ size) (hshort : payload.length < 65536) :
    validateCommand message command size = some 0 ∧
      byteAt message command = some type.toByte ∧
      le16At message (command + 11) = some (BitVec.ofNat 16 payload.length) ∧
      message.drop (command + sizeofPacketMeta) = payload ++ rest := by
  have hmeta : sizeofPacketMeta = 13 := rfl
  have hparts : message.drop command = headerBytes type nonce ++
      (ReflectedCrc.leBytes 2 (crc16 (headerBytes type nonce)) ++
        (ReflectedCrc.leBytes 2 (crc16 payload) ++
          (ReflectedCrc.leBytes 2 (BitVec.ofNat 16 payload.length) ++ (payload ++ rest)))) := by
    rw [h]
    simp only [packetBytes, List.append_assoc]
  have hlength := congrArg List.length h
  rw [List.length_drop, List.length_append, length_packetBytes] at hlength
  rw [length_packetBytes] at hsize
  have hdrop : ∀ k, message.drop (command + k) = (message.drop command).drop k := fun k =>
    List.drop_drop.symm
  have hpayload : (BitVec.ofNat 16 payload.length).toNat = payload.length :=
    Nat.mod_eq_of_lt hshort
  have htype : byteAt message command = some type.toByte := by
    have hfirst := byteAt_drop hparts 0
    rw [Nat.add_zero] at hfirst
    rw [hfirst]
    rfl
  have hversion : le16At message (command + 1) = some version :=
    le16At_drop (by omega) (by rw [hdrop, hparts]; rfl)
  have hheader : bytesAt message command sizeofPacketHeader = some (headerBytes type nonce) :=
    bytesAt_drop hle hparts rfl
  have hheaderCrc : le16At message (command + 7) = some (crc16 (headerBytes type nonce)) :=
    le16At_drop (by omega) (by rw [hdrop, hparts]; rfl)
  have hpayloadCrc : le16At message (command + 9) = some (crc16 payload) :=
    le16At_drop (by omega) (by rw [hdrop, hparts]; rfl)
  have hpayloadSize : le16At message (command + 11) = some (BitVec.ofNat 16 payload.length) :=
    le16At_drop (by omega) (by rw [hdrop, hparts]; rfl)
  have hrest : message.drop (command + sizeofPacketMeta) = payload ++ rest := by
    rw [hdrop, hparts]
    rfl
  have hbytes : bytesAt message (command + sizeofPacketMeta) payload.length = some payload :=
    bytesAt_drop (by omega) hrest rfl
  refine ⟨?_, htype, hpayloadSize, hrest⟩
  unfold validateCommand
  rw [if_neg (by omega)]
  simp only [hpayloadSize, Option.bind_eq_bind, Option.bind_some, hpayload]
  rw [if_neg (by omega)]
  simp only [hheader, hheaderCrc, hbytes, hpayloadCrc, hversion, Option.bind_some, ne_eq,
    not_true_eq_false, if_false]

/-- Bytes behind the packet do no harm. -/
theorem handleMessage_bytes (clientId : ClientId) (command : Command) (nonce : BitVec 32)
    {rest : List Byte} (h : (command.bytes nonce ++ rest).length < 65536) :
    handleMessage (messageBytes clientId (command.bytes nonce ++ rest))
      (messageBytes clientId (command.bytes nonce ++ rest)).length =
      some (.command clientId command) := by
  have hmeta : sizeofPacketMeta = 13 := rfl
  have hfront : sizeofMessage = 6 := rfl
  have hlength : (BitVec.ofNat 16 (command.bytes nonce ++ rest).length).toNat =
      (command.bytes nonce ++ rest).length := Nat.mod_eq_of_lt h
  have hsize : (messageBytes clientId (command.bytes nonce ++ rest)).length =
      sizeofMessage + (command.bytes nonce ++ rest).length := by
    simp only [messageBytes, List.length_append, ReflectedCrc.leBytes, List.length_cons,
      List.length_nil, sizeofMessage]
    omega
  have hpacket : (command.bytes nonce).length = sizeofPacketMeta + command.payload.length :=
    length_packetBytes _ _ _
  have hparts : messageBytes clientId (command.bytes nonce ++ rest) =
      ReflectedCrc.leBytes 4 clientId ++
        (ReflectedCrc.leBytes 2 (BitVec.ofNat 16 (command.bytes nonce ++ rest).length) ++
          (command.bytes nonce ++ rest)) := rfl
  rw [List.length_append] at h
  generalize messageBytes clientId (command.bytes nonce ++ rest) = message at hsize hparts ⊢
  have hclient : le32At message 0 = some clientId := le32At_drop (Nat.zero_le _) hparts
  have hannounced : le16At message 4 = some (BitVec.ofNat 16 (command.bytes nonce ++ rest).length) :=
    le16At_drop (by omega) (by rw [hparts]; rfl)
  have hcommand : message.drop 6 = command.bytes nonce ++ rest := by
    rw [hparts]
    rfl
  have hwhole : (command.bytes nonce).length ≤ (command.bytes nonce ++ rest).length := by
    rw [List.length_append]
    exact Nat.le_add_right _ _
  obtain ⟨hvalid, htype, hpayloadSize, hrest⟩ :=
    validateCommand_packetBytes (by omega) hcommand hwhole (by omega)
  have hpayload : (BitVec.ofNat 16 command.payload.length).toNat = command.payload.length :=
    Nat.mod_eq_of_lt (by omega)
  have hhandled : handleCommand message 6 clientId = some (.command clientId command) := by
    unfold handleCommand
    simp only [htype, hpayloadSize, Option.bind_eq_bind, Option.bind_some, hpayload]
    rw [length_payload, if_neg (lt_irrefl _), Packet.ofByte_toByte]
    dsimp only
    rw [readCommand_payload command hrest]
    rfl
  unfold handleMessage
  rw [if_neg (by omega)]
  simp only [hannounced, Option.bind_eq_bind, Option.bind_some, hlength]
  rw [if_neg (by omega), hfront, hvalid, Option.bind_some, if_neg (by decide), hclient,
    Option.bind_some, hhandled]

end WebsocketHandler

end Lightnet
