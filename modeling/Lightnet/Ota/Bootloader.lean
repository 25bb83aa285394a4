import Lightnet.Protocol

/-!
# Flashing a panel over the relay

A panel's resident bootloader gathers write chunks in a page buffer and programs the page when its
last chunk arrives or another page begins. The controller's flasher sends an image page by page,
each page as two chunks, and repeats a chunk until it is acknowledged.
-/

namespace Lightnet.Ota

def spmPagesize : ℕ := 128

def bootloaderStart : ℕ := 0x7000

def bootloaderChunkSize : ℕ := 64

/-! ### Packets -/

structure PacketBootloaderWriteChunk where
  address : BitVec 16
  length : Byte
  data : List Byte
  dataCrc : BitVec 16
  deriving DecidableEq

/-- The bytes that the chunk's check bytes cover. -/
def chunkSpan (address : BitVec 16) (length : Byte) (data : List Byte) : List Byte :=
  ReflectedCrc.leBytes 2 address ++ length :: data.take length.toNat

inductive BootloaderWriteStatus where
  | ok | badCrc | badAddress
  deriving DecidableEq

def BootloaderWriteStatus.toByte : BootloaderWriteStatus → Byte
  | ok => 0
  | badCrc => 1
  | badAddress => 2

structure PacketBootloaderWriteAck where
  address : BitVec 16
  status : Byte
  payloadCrc : BitVec 16
  deriving DecidableEq

def ackSpan (address : BitVec 16) (status : Byte) : List Byte :=
  ReflectedCrc.leBytes 2 address ++ [status]

def writeAck (address : BitVec 16) (status : BootloaderWriteStatus) : PacketBootloaderWriteAck :=
  ⟨address, status.toByte, crc16 (ackSpan address status.toByte)⟩

inductive Request where
  | writeChunk (pkt : PacketBootloaderWriteChunk)
  | startApp
  deriving DecidableEq

/-! ### The bootloader -/

/-- The flash and every page that was programmed since the bootloader runs. It no longer answers
once the application has been started. -/
structure Bootloader where
  pageBuf : List Byte
  pageStart : ℕ
  pageDirty : Bool
  flash : ℕ → Byte
  programmed : List (ℕ × List Byte)
  resident : Bool

namespace Bootloader

/-- No page is loaded yet. -/
def init (flash : ℕ → Byte) : Bootloader where
  pageBuf := List.replicate spmPagesize 0
  pageStart := 0xFFFF
  pageDirty := false
  flash
  programmed := []
  resident := true

def programPage (flash : ℕ → Byte) (pageStart : ℕ) (page : List Byte) (a : ℕ) : Byte :=
  if pageStart ≤ a ∧ a < pageStart + spmPagesize then page.getD (a - pageStart) 0xFF else flash a

def commitPage (b : Bootloader) : Bootloader :=
  if !b.pageDirty || bootloaderStart ≤ b.pageStart then { b with pageDirty := false }
  else
    { b with
        flash := programPage b.flash b.pageStart b.pageBuf
        programmed := b.programmed ++ [(b.pageStart, b.pageBuf)]
        pageDirty := false }

def loadPage (b : Bootloader) (newPageStart : ℕ) : Bootloader :=
  if newPageStart = b.pageStart then b
  else
    { b.commitPage with
        pageStart := newPageStart
        pageBuf := List.replicate spmPagesize 0xFF }

/-- The buffer with the data copied to the offset. -/
def copyTo (buf : List Byte) (offset : ℕ) (data : List Byte) : List Byte :=
  buf.take offset ++ data ++ buf.drop (offset + data.length)

def handleWriteChunk (b : Bootloader) (pkt : PacketBootloaderWriteChunk) :
    Bootloader × PacketBootloaderWriteAck :=
  let length := pkt.length.toNat
  let address := pkt.address.toNat
  if ¬ (1 ≤ length ∧ length ≤ bootloaderChunkSize ∧
      crc16 (chunkSpan pkt.address pkt.length pkt.data) = pkt.dataCrc) then
    (b, writeAck pkt.address .badCrc)
  else
    let thisPageStart := address - address % spmPagesize
    let offset := address - thisPageStart
    if ¬ (address + length ≤ bootloaderStart ∧ offset + length ≤ spmPagesize) then
      (b, writeAck pkt.address .badAddress)
    else
      let b := b.loadPage thisPageStart
      let b := { b with
        pageBuf := copyTo b.pageBuf offset (pkt.data.take length)
        pageDirty := true }
      let b := if offset + length = spmPagesize then b.commitPage else b
      (b, writeAck pkt.address .ok)

/-- Commit what is pending and jump to the application. -/
def leave (b : Bootloader) : Bootloader := { b.commitPage with resident := false }

def receive (b : Bootloader) (request : Request) : Bootloader × List PacketBootloaderWriteAck :=
  if b.resident then
    match request with
    | .writeChunk pkt =>
      let (b, ack) := b.handleWriteChunk pkt
      (b, [ack])
    | .startApp => (b.leave, [])
  else (b, [])

end Bootloader

/-! ### The flasher -/

def writeAttempts : ℕ := 3

def chunksPerPage : ℕ := spmPagesize / bootloaderChunkSize

inductive FlasherState where
  | flashing | nextPanel | error
  deriving DecidableEq

/-- The page being written, its chunk being sent, and how often that was sent before. -/
structure PanelFlasher where
  firmware : List Byte
  currentPage : ℕ
  chunk : ℕ
  attempt : ℕ
  state : FlasherState
  deriving DecidableEq

def totalPages (firmware : List Byte) : ℕ := (firmware.length + 127) / 128

/-- The bytes of a page that the file holds. -/
def readPage (firmware : List Byte) (page : ℕ) : List Byte :=
  (firmware.drop (page * spmPagesize)).take spmPagesize

/-- The page with what the file does not hold left at `0xFF`. -/
def pageBytes (firmware : List Byte) (page : ℕ) : List Byte :=
  readPage firmware page ++
    List.replicate (spmPagesize - (readPage firmware page).length) 0xFF

def makeChunk (address : BitVec 16) (data : List Byte) : PacketBootloaderWriteChunk :=
  let length : Byte := BitVec.ofNat 8 bootloaderChunkSize
  ⟨address, length, data, crc16 (chunkSpan address length data)⟩

def chunkOf (firmware : List Byte) (page chunk : ℕ) : PacketBootloaderWriteChunk :=
  makeChunk (BitVec.ofNat 16 (page * spmPagesize + chunk * bootloaderChunkSize))
    (((pageBytes firmware page).drop (chunk * bootloaderChunkSize)).take bootloaderChunkSize)

namespace PanelFlasher

def request (f : PanelFlasher) : Request :=
  .writeChunk (chunkOf f.firmware f.currentPage f.chunk)

def setError (f : PanelFlasher) : PanelFlasher × List Request := ({ f with state := .error }, [])

/-- Read the page and send its first chunk. -/
def startPage (f : PanelFlasher) (page : ℕ) : PanelFlasher × List Request :=
  let f := { f with currentPage := page, chunk := 0, attempt := 0 }
  if readPage f.firmware page = [] then f.setError else (f, [f.request])

/-- From the moment that the panel's bootloader is known to be ready. -/
def start (firmware : List Byte) : PanelFlasher × List Request :=
  let f : PanelFlasher := ⟨firmware, 0, 0, 0, .flashing⟩
  if firmware.length = 0 ∨ 28 * 1024 < firmware.length then f.setError else f.startPage 0

/-- The chunk failed once more. -/
def retry (f : PanelFlasher) : PanelFlasher × List Request :=
  if f.attempt + 1 < writeAttempts then ({ f with attempt := f.attempt + 1 }, [f.request])
  else f.setError

/-- The chunk was written. -/
def advance (f : PanelFlasher) : PanelFlasher × List Request :=
  if f.chunk + 1 < chunksPerPage then
    let f := { f with chunk := f.chunk + 1, attempt := 0 }
    (f, [f.request])
  else if totalPages f.firmware ≤ f.currentPage + 1 then
    ({ f with currentPage := f.currentPage + 1, chunk := 0, attempt := 0, state := .nextPanel },
      [.startApp])
  else f.startPage (f.currentPage + 1)

/-- A wait for the acknowledgement ends with one, be it for this chunk or not. -/
def onAck (f : PanelFlasher) (ack : PacketBootloaderWriteAck) : PanelFlasher × List Request :=
  if f.state ≠ .flashing then (f, [])
  else if ack.address = (chunkOf f.firmware f.currentPage f.chunk).address ∧
      ack.payloadCrc = crc16 (ackSpan ack.address ack.status) ∧
      ack.status = BootloaderWriteStatus.ok.toByte then
    f.advance
  else f.retry

def onTimeout (f : PanelFlasher) : PanelFlasher × List Request :=
  if f.state ≠ .flashing then (f, []) else f.retry

end PanelFlasher

/-! ### The link -/

/-- Requests go down and acknowledgements up, both in order. -/
structure Link where
  flasher : PanelFlasher
  bootloader : Bootloader
  down : List Request
  up : List PacketBootloaderWriteAck

/-- The request or the acknowledgement that was sent first arrives; any is lost; a wait is over; the
bootloader has heard nothing for too long. -/
inductive Event where
  | deliverRequest
  | loseRequest (i : ℕ)
  | deliverAck
  | loseAck (i : ℕ)
  | timeout
  | idleTimeout

namespace Link

def init (firmware : List Byte) (flash : ℕ → Byte) : Link :=
  let (flasher, requests) := PanelFlasher.start firmware
  ⟨flasher, .init flash, requests, []⟩

def send (s : Link) (next : PanelFlasher × List Request) : Link :=
  { s with flasher := next.1, down := s.down ++ next.2 }

def step (s : Link) : Event → Link
  | .deliverRequest =>
    match s.down with
    | [] => s
    | request :: down =>
      let (bootloader, acks) := s.bootloader.receive request
      { s with bootloader, down, up := s.up ++ acks }
  | .loseRequest i => { s with down := s.down.eraseIdx i }
  | .deliverAck =>
    match s.up with
    | [] => s
    | ack :: up => { s with up }.send (s.flasher.onAck ack)
  | .loseAck i => { s with up := s.up.eraseIdx i }
  | .timeout => s.send s.flasher.onTimeout
  | .idleTimeout => if s.bootloader.resident then { s with bootloader := s.bootloader.leave } else s

def run (firmware : List Byte) (flash : ℕ → Byte) (events : List Event) : Link :=
  events.foldl step (init firmware flash)

end Link

end Lightnet.Ota
