import Lightnet.Ota.Bootloader
import Lightnet.Relay.PacketFramer

/-!
# The panel's resident bootloader

The bootloader polls one edge. Every byte goes to its packet framer, a complete frame that is for
this panel is handled at once, and after a long silence the bootloader gives up and starts the
application.

The model writes down every access to the page buffer, to the flash and to the bytes that a CRC is
computed over. No input makes the bootloader leave the packet, the buffer or the application
section, and what it programs is what the accepted chunks of that page last said.
-/

namespace Lightnet.Ota

open LinkArq

def idleTimeoutTicks : BitVec 16 := 900

def partialFrameResetTicks : BitVec 16 := 2

def bootloaderProtocolVersion : Byte := 2

structure PacketBootloaderPong where
  bootloaderVersion : Byte
  pageSize : BitVec 16
  flashSize : BitVec 16
  deriving DecidableEq

inductive Reply where
  | pong (pong : PacketBootloaderPong)
  | writeAck (ack : PacketBootloaderWriteAck)
  deriving DecidableEq

/-- A `PacketBootloaderWriteChunk` as it lies in the receive buffer. -/
def chunkOfFrame (frame : List Byte) : PacketBootloaderWriteChunk where
  address := le16 (frame.getD 7 0) (frame.getD 8 0)
  length := frame.getD 9 0
  data := (frame.drop 10).take bootloaderChunkSize
  dataCrc := le16 (frame.getD 74 0) (frame.getD 75 0)

/-- `crc` reads `length` bytes at the offset of a packet of this size, `bufferWrite` copies the data
of a chunk to the offset of the page buffer. -/
inductive Access where
  | crc (packetSize offset length : ℕ)
  | bufferFill (pageStart : ℕ)
  | bufferWrite (offset : ℕ) (pkt : PacketBootloaderWriteChunk)
  | pageErase (pageStart : ℕ)
  | pageFill (address : ℕ) (word : BitVec 16)
  | pageWrite (pageStart : ℕ)
  deriving DecidableEq

structure RelayBootloader where
  boot : Bootloader
  framer : PacketFramer
  assignedIndex : BitVec 16
  idleTicks : BitVec 16
  replies : List Reply
  accesses : List Access

/-- The page handed over word by word between its erase and its write. -/
def programAccesses (pageStart : ℕ) (pageBuf : List Byte) : List Access :=
  [.pageErase pageStart] ++
    (List.range (spmPagesize / 2)).map (fun i =>
      .pageFill (pageStart + 2 * i)
        (le16 (pageBuf.getD (2 * i) 0) (pageBuf.getD (2 * i + 1) 0))) ++
    [.pageWrite pageStart]

namespace RelayBootloader

def init (assignedIndex : BitVec 16) (flash : ℕ → Byte) : RelayBootloader :=
  ⟨.init flash, .init false, assignedIndex, 0, [], []⟩

def access (r : RelayBootloader) (as : List Access) : RelayBootloader :=
  { r with accesses := r.accesses ++ as }

def commitPage (r : RelayBootloader) : RelayBootloader :=
  if !r.boot.pageDirty || bootloaderStart ≤ r.boot.pageStart then
    { r with boot := { r.boot with pageDirty := false } }
  else
    { r with boot := r.boot.commitPage }.access (programAccesses r.boot.pageStart r.boot.pageBuf)

def loadPage (r : RelayBootloader) (newPageStart : ℕ) : RelayBootloader :=
  if newPageStart = r.boot.pageStart then r
  else
    let r := r.commitPage
    { r with
        boot := { r.boot with
          pageStart := newPageStart
          pageBuf := List.replicate spmPagesize 0xFF } }.access [.bufferFill newPageStart]

def sendPong (r : RelayBootloader) : RelayBootloader :=
  let pong := ⟨bootloaderProtocolVersion, BitVec.ofNat 16 spmPagesize,
    BitVec.ofNat 16 bootloaderStart⟩
  { r with replies := r.replies ++ [.pong pong] }

/-- The check bytes of the acknowledgement cover its address and status. -/
def sendWriteAck (r : RelayBootloader) (address : BitVec 16) (status : BootloaderWriteStatus) :
    RelayBootloader :=
  { r with replies := r.replies ++ [Reply.writeAck (Ota.writeAck address status)] }.access
    [.crc PacketType.bootloaderWriteAck.size 7 (2 + 1)]

def handleWriteChunk (r : RelayBootloader) (frame : List Byte) : RelayBootloader :=
  let pkt := chunkOfFrame frame
  let length := pkt.length.toNat
  let address := pkt.address.toNat
  let lengthOk := 1 ≤ length ∧ length ≤ bootloaderChunkSize
  let crcSpan := 2 + 1 + length
  let r := if lengthOk then r.access [.crc frame.length 7 crcSpan] else r
  if ¬ (lengthOk ∧ crc16 ((frame.drop 7).take crcSpan) = pkt.dataCrc) then
    r.sendWriteAck pkt.address .badCrc
  else
    let thisPageStart := address - address % spmPagesize
    let offset := address - thisPageStart
    if ¬ (address + length ≤ bootloaderStart ∧ offset + length ≤ spmPagesize) then
      r.sendWriteAck pkt.address .badAddress
    else
      let r := r.loadPage thisPageStart
      let r := { r with
        boot := { r.boot with
          pageBuf := Bootloader.copyTo r.boot.pageBuf offset (pkt.data.take length)
          pageDirty := true } }.access [.bufferWrite offset pkt]
      let r := if offset + length = spmPagesize then r.commitPage else r
      r.sendWriteAck pkt.address .ok

/-- Commit what is pending and jump to the application. -/
def leave (r : RelayBootloader) : RelayBootloader :=
  let r := r.commitPage
  { r with boot := { r.boot with resident := false } }

def handleFrame (r : RelayBootloader) (frame : List Byte) : RelayBootloader :=
  let target := (metaOfBytes frame).header.targetPanelIndex
  if target ≠ 0 ∧ target ≠ r.assignedIndex then r
  else
    match PacketType.ofByte (metaOfBytes frame).header.type with
    | some .bootloaderPing => r.sendPong
    | some .bootloaderWriteChunk => r.handleWriteChunk frame
    | some .bootloaderStartApp => r.leave
    | _ => r

def receiveByte (r : RelayBootloader) (value : Byte) : RelayBootloader :=
  let (framer, ready) := r.framer.pushByte value
  let r := { r with framer, idleTicks := 0 }
  if ready then r.handleFrame framer.frame else r

/-- One turn of the main loop: whether the timer has overflowed, and the byte that has arrived. -/
structure Turn where
  elapsed : Bool
  value : Option Byte
  deriving DecidableEq

def loopTurn (r : RelayBootloader) (turn : Turn) : RelayBootloader :=
  if !r.boot.resident then r
  else
    let r := if turn.elapsed then { r with idleTicks := r.idleTicks + 1 } else r
    if turn.elapsed && idleTimeoutTicks ≤ r.idleTicks then r.leave
    else
      let r :=
        if turn.elapsed && partialFrameResetTicks ≤ r.idleTicks && r.framer.hasPartialFrame then
          { r with framer := r.framer.reset }
        else r
      match turn.value with
      | some value => r.receiveByte value
      | none => r

def run (assignedIndex : BitVec 16) (flash : ℕ → Byte) (turns : List Turn) : RelayBootloader :=
  turns.foldl loopTurn (init assignedIndex flash)

/-! ### It is the bootloader that the flasher talks to -/

@[simp] theorem access_boot (r : RelayBootloader) (as : List Access) :
    (r.access as).boot = r.boot := rfl

@[simp] theorem access_replies (r : RelayBootloader) (as : List Access) :
    (r.access as).replies = r.replies := rfl

@[simp] theorem commitPage_boot (r : RelayBootloader) :
    r.commitPage.boot = r.boot.commitPage := by
  unfold commitPage
  split_ifs with h
  · rw [Bootloader.commitPage, if_pos h]
  · rfl

@[simp] theorem commitPage_replies (r : RelayBootloader) : r.commitPage.replies = r.replies := by
  unfold commitPage
  split_ifs <;> rfl

@[simp] theorem loadPage_boot (r : RelayBootloader) (newPageStart : ℕ) :
    (r.loadPage newPageStart).boot = r.boot.loadPage newPageStart := by
  unfold loadPage Bootloader.loadPage
  split_ifs
  · rfl
  · rw [access_boot, commitPage_boot]

@[simp] theorem loadPage_replies (r : RelayBootloader) (newPageStart : ℕ) :
    (r.loadPage newPageStart).replies = r.replies := by
  unfold loadPage
  split_ifs
  · rfl
  · exact r.commitPage_replies

theorem leave_boot (r : RelayBootloader) : r.leave.boot = r.boot.leave := by
  rw [leave, Bootloader.leave, commitPage_boot]

theorem leBytes_le16 (lo hi : Byte) : ReflectedCrc.leBytes 2 (le16 lo hi) = [lo, hi] := by
  simp only [ReflectedCrc.leBytes, List.cons.injEq, and_true]
  constructor
  · apply BitVec.eq_of_getLsbD_eq
    intro i hlt
    simp only [le16, BitVec.getLsbD_setWidth, BitVec.getLsbD_append]
    simp [hlt]
  · apply BitVec.eq_of_getLsbD_eq
    intro i hlt
    have hge : ¬ 8 + i < 8 := by omega
    simp only [le16, BitVec.getLsbD_setWidth, BitVec.getLsbD_ushiftRight, BitVec.getLsbD_append]
    simp [hlt]

/-- What the check bytes cover lies in the packet as one piece. -/
theorem chunkSpan_chunkOfFrame {frame : List Byte}
    (hframe : frame.length = PacketType.bootloaderWriteChunk.size)
    (hlength : (chunkOfFrame frame).length.toNat ≤ bootloaderChunkSize) :
    chunkSpan (chunkOfFrame frame).address (chunkOfFrame frame).length (chunkOfFrame frame).data =
      (frame.drop 7).take (2 + 1 + (chunkOfFrame frame).length.toNat) := by
  have hsize : frame.length = 76 := hframe
  have hdrop : frame.drop 7 =
      frame.getD 7 0 :: frame.getD 8 0 :: frame.getD 9 0 :: frame.drop 10 := by
    have hget : ∀ i (hi : i < frame.length), frame[i] = frame.getD i 0 := by
      intro i hi
      simp [List.getD, List.getElem?_eq_getElem hi]
    rw [List.drop_eq_getElem_cons (by omega), List.drop_eq_getElem_cons (by omega),
      List.drop_eq_getElem_cons (by omega), hget, hget, hget]
  have hspan : 2 + 1 + (chunkOfFrame frame).length.toNat =
      (chunkOfFrame frame).length.toNat + 1 + 1 + 1 := by omega
  rw [hdrop, hspan, List.take_succ_cons, List.take_succ_cons, List.take_succ_cons, chunkSpan]
  have hdata : (chunkOfFrame frame).data.take (chunkOfFrame frame).length.toNat =
      (frame.drop 10).take (chunkOfFrame frame).length.toNat := by
    change ((frame.drop 10).take bootloaderChunkSize).take _ = _
    rw [List.take_take, min_eq_left hlength]
  rw [hdata]
  have haddress : ReflectedCrc.leBytes 2 (chunkOfFrame frame).address =
      [frame.getD 7 0, frame.getD 8 0] := leBytes_le16 _ _
  rw [haddress]
  rfl

/-- A chunk is handled as the flasher's bootloader handles it, and answered the same way. -/
theorem handleWriteChunk_refines (r : RelayBootloader) {frame : List Byte}
    (hframe : frame.length = PacketType.bootloaderWriteChunk.size) :
    (r.handleWriteChunk frame).boot = (r.boot.handleWriteChunk (chunkOfFrame frame)).1 ∧
    (r.handleWriteChunk frame).replies =
      r.replies ++ [.writeAck (r.boot.handleWriteChunk (chunkOfFrame frame)).2] := by
  unfold handleWriteChunk Bootloader.handleWriteChunk
  dsimp only
  by_cases hlength : 1 ≤ (chunkOfFrame frame).length.toNat ∧
      (chunkOfFrame frame).length.toNat ≤ bootloaderChunkSize
  · rw [if_pos hlength, chunkSpan_chunkOfFrame hframe hlength.2]
    generalize hspan : crc16 ((frame.drop 7).take (2 + 1 + (chunkOfFrame frame).length.toNat)) = crc
    by_cases hcrc : crc = (chunkOfFrame frame).dataCrc
    · simp only [hlength.1, hlength.2, hcrc, and_self, not_true, if_false]
      split_ifs <;> simp [sendWriteAck]
    · simp only [hcrc, and_false, not_false_iff, if_true]
      exact ⟨rfl, rfl⟩
  · have hlength' : ∀ crc : Prop, ¬ (1 ≤ (chunkOfFrame frame).length.toNat ∧
        (chunkOfFrame frame).length.toNat ≤ bootloaderChunkSize ∧ crc) :=
      fun _ h => hlength ⟨h.1, h.2.1⟩
    simp only [hlength, hlength', false_and, not_false_iff, if_true, if_false]
    exact ⟨rfl, rfl⟩

end RelayBootloader

end Lightnet.Ota
