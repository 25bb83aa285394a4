import Lightnet.Protocol
import Lightnet.Library.PatternScan

/-!
# Firmware over the serial port

The receiver waits for four magic bytes, then takes a header with the size of the image, the image
itself, which it stores in a file, and two check bytes. If the check bytes match those of the
bytes it has received, it has the panels flashed from the file. What a write to the file returns
is not looked at, so a file system that takes fewer bytes than it is given leaves a file that is
not the image, and the panels are flashed all the same.
-/

namespace Lightnet.Ota

inductive SerialState where
  | idle | header | data | crcBytes
  deriving DecidableEq

/-- What the receiver is told while it processes a byte: whether the flasher is active, whether
the file can be opened, how many bytes a write takes at most, and how many panels there are. -/
structure SerialWorld where
  isActive : Bool
  opensForWriting : Bool
  accepts : ℕ
  opensForReading : Bool
  panels : ℕ
  deriving DecidableEq

/-- One look at the serial port. A chunk of input ends where nothing is found; the time for a
transfer may run out between any two bytes. -/
inductive Poll where
  | byte (b : Byte) (world : SerialWorld)
  | nothing
  | timeout
  deriving DecidableEq

inductive SerialReply where
  | ready | chunkAck | ok
  | error (msg : String)
  deriving DecidableEq

/-- The bytes of `headerBuf`, `crcBuf` and `writeBuf` are those before their fill counts; `file` is
what is stored under the firmware path. -/
structure SerialFirmwareReceiver where
  state : SerialState
  magicPos : ℕ
  headerBuf : List Byte
  firmwareSize : ℕ
  bytesWritten : ℕ
  runningCrc : BitVec 16
  crcBuf : List Byte
  writeBuf : List Byte
  file : List Byte
  deriving DecidableEq

namespace SerialFirmwareReceiver

def magic : List Byte := [0x4C, 0x4E, 0x46, 0x57]

def maxFirmwareSize : ℕ := 28 * 1024

def writeChunk : ℕ := 256

/-- The value of little-endian bytes. -/
def leValue : List Byte → ℕ
  | [] => 0
  | b :: bs => b.toNat + 256 * leValue bs

def init (file : List Byte) : SerialFirmwareReceiver :=
  ⟨.idle, 0, [], 0, 0, 0xFFFF, [], [], file⟩

def reset (r : SerialFirmwareReceiver) : SerialFirmwareReceiver := init r.file

/-- What a poll leaves behind, what is replied to it, and the image that the panels are flashed
with from now on, if any. -/
structure Outcome where
  receiver : SerialFirmwareReceiver
  replies : List SerialReply
  flashed : Option (List Byte)
  deriving DecidableEq

/-- Why the flasher refuses to start, if it does. -/
def startFlashing (world : SerialWorld) (file : List Byte) : Option String :=
  if world.opensForReading = false then some "cannot open firmware file"
  else if file.length = 0 ∨ maxFirmwareSize < file.length then some "firmware size invalid"
  else if world.panels % 256 = 0 then some "no panels discovered"
  else none

def refuse (r : SerialFirmwareReceiver) (msg : String) : Outcome := ⟨r.reset, [.error msg], none⟩

def processHeader (r : SerialFirmwareReceiver) (b : Byte) (world : SerialWorld) : Outcome :=
  let r := { r with headerBuf := r.headerBuf ++ [b] }
  if r.headerBuf.length = 4 then
    let r := { r with firmwareSize := leValue r.headerBuf }
    if r.firmwareSize = 0 ∨ maxFirmwareSize < r.firmwareSize then r.refuse "invalid size"
    else if world.isActive then r.refuse "flash in progress"
    else if world.opensForWriting = false then r.refuse "filesystem open failed"
    else
      ⟨{ r with bytesWritten := 0, runningCrc := 0xFFFF, state := .data, file := [] }, [.ready], none⟩
  else ⟨r, [], none⟩

/-- The write buffer is handed to the file, which takes what it takes. -/
def flush (r : SerialFirmwareReceiver) (world : SerialWorld) : SerialFirmwareReceiver :=
  { r with file := r.file ++ r.writeBuf.take world.accepts, writeBuf := [] }

def takeByte (r : SerialFirmwareReceiver) (b : Byte) : SerialFirmwareReceiver :=
  { r with
    writeBuf := r.writeBuf ++ [b]
    runningCrc := crc16Update r.runningCrc b
    bytesWritten := r.bytesWritten + 1 }

def Flushes (r : SerialFirmwareReceiver) : Prop :=
  r.writeBuf.length = writeChunk ∨ r.bytesWritten = r.firmwareSize

instance (r : SerialFirmwareReceiver) : Decidable r.Flushes :=
  inferInstanceAs (Decidable (_ ∨ _))

def processData (r : SerialFirmwareReceiver) (b : Byte) (world : SerialWorld) : Outcome :=
  let r := r.takeByte b
  let flushed := if r.Flushes then r.flush world else r
  let replies := if r.Flushes then [.chunkAck] else []
  if r.bytesWritten = r.firmwareSize then
    ⟨{ flushed with crcBuf := [], state := .crcBytes }, replies, none⟩
  else ⟨flushed, replies, none⟩

def processCrc (r : SerialFirmwareReceiver) (b : Byte) (world : SerialWorld) : Outcome :=
  let r := { r with crcBuf := r.crcBuf ++ [b] }
  if r.crcBuf.length = 2 then
    if BitVec.ofNat 16 (leValue r.crcBuf) ≠ r.runningCrc then r.refuse "CRC mismatch"
    else
      match startFlashing world r.file with
      | some msg => r.refuse msg
      | none => ⟨r.reset, [.ok], some r.file⟩
  else ⟨r, [], none⟩

def scanMagic (r : SerialFirmwareReceiver) (b : Byte) : SerialFirmwareReceiver :=
  let magicPos := PatternScan.scan magic r.magicPos b
  if magicPos = 4 then { r with magicPos, headerBuf := [], state := .header }
  else { r with magicPos }

def poll (r : SerialFirmwareReceiver) : Poll → Outcome
  | .nothing => ⟨r, [], none⟩
  | .timeout => if r.state = .idle then ⟨r, [], none⟩ else r.refuse "timeout"
  | .byte b world =>
      match r.state with
      | .idle => ⟨r.scanMagic b, [], none⟩
      | .header => r.processHeader b world
      | .data => r.processData b world
      | .crcBytes => r.processCrc b world

def bytesOf (polls : List Poll) : List Byte :=
  polls.filterMap (fun p => match p with | .byte b _ => some b | _ => none)

end SerialFirmwareReceiver

/-- The receiver, the bytes of the transfer that have arrived behind the magic, and how many bytes
the file has been given in it and not taken. -/
structure TransferLog where
  receiver : SerialFirmwareReceiver
  received : List Byte
  missed : ℕ
  deriving DecidableEq

namespace TransferLog

open SerialFirmwareReceiver

/-- The bytes that are offered to the file by this poll and not taken. -/
def missedBy (r : SerialFirmwareReceiver) : Poll → ℕ
  | .byte b world =>
      if r.state = .data ∧ (r.takeByte b).Flushes then r.writeBuf.length + 1 - world.accepts else 0
  | _ => 0

def step (s : TransferLog) (p : Poll) : TransferLog :=
  if s.receiver.state = .idle then ⟨(s.receiver.poll p).receiver, [], 0⟩
  else
    ⟨(s.receiver.poll p).receiver, s.received ++ bytesOf [p], s.missed + missedBy s.receiver p⟩

def run (file : List Byte) (polls : List Poll) : TransferLog :=
  polls.foldl step ⟨.init file, [], 0⟩

theorem run_snoc (file : List Byte) (polls : List Poll) (p : Poll) :
    run file (polls ++ [p]) = (run file polls).step p := by
  simp only [run, List.foldl_append, List.foldl_cons, List.foldl_nil]

/-! ## The bytes and the file -/

/-- The image is what a transfer announced, by the number of its bytes and by their check bytes. -/
def Announced (received image : List Byte) : Prop :=
  ∃ header crc, received = header ++ (image ++ crc) ∧ header.length = 4 ∧ crc.length = 2 ∧
    image.length = leValue header ∧ crc16 image = BitVec.ofNat 16 (leValue crc)

/-- Every flash that the polls start is of the image that was announced. -/
def FlashesAnnounced (file : List Byte) (polls : List Poll) : Prop :=
  ∀ before p image, before ++ [p] <+: polls →
    ((run file before).receiver.poll p).flashed = some image →
    Announced ((run file before).step p).received image

/-- Whenever a flash starts, the file has taken all bytes that it was given in the transfer. -/
def FlashesTaken (file : List Byte) (polls : List Poll) : Prop :=
  ∀ before p image, before ++ [p] <+: polls →
    ((run file before).receiver.poll p).flashed = some image → (run file before).missed = 0

/-- The file against the bytes that it was given. -/
structure Took (s : TransferLog) (given : List Byte) : Prop where
  length : s.receiver.file.length + s.missed = given.length
  eq : s.missed = 0 → s.receiver.file = given

/-- Where the receiver stands in its transfer. -/
inductive Tracks (s : TransferLog) : Prop
  | idle (hstate : s.receiver.state = .idle) (hbuf : s.receiver.writeBuf = [])
  | header (hstate : s.receiver.state = .header) (hbuf : s.receiver.writeBuf = [])
      (hlen : s.receiver.headerBuf.length < 4) (hreceived : s.received = s.receiver.headerBuf)
      (hmissed : s.missed = 0)
  | data (header given : List Byte) (hstate : s.receiver.state = .data)
      (hheader : header.length = 4) (hsize : s.receiver.firmwareSize = leValue header)
      (hreceived : s.received = header ++ (given ++ s.receiver.writeBuf))
      (hlen : (given ++ s.receiver.writeBuf).length = s.receiver.bytesWritten)
      (hlt : s.receiver.bytesWritten < s.receiver.firmwareSize)
      (hcrc : crc16 (given ++ s.receiver.writeBuf) = s.receiver.runningCrc) (htook : s.Took given)
  | crc (header given : List Byte) (hstate : s.receiver.state = .crcBytes)
      (hheader : header.length = 4) (hsize : given.length = leValue header)
      (hbuf : s.receiver.writeBuf = [])
      (hreceived : s.received = header ++ (given ++ s.receiver.crcBuf))
      (hlen : s.receiver.crcBuf.length < 2) (hcrc : crc16 given = s.receiver.runningCrc)
      (htook : s.Took given)

theorem tracks_reset {s : TransferLog} {r : SerialFirmwareReceiver}
    (h : s.receiver = r.reset) : Tracks s := by
  refine .idle ?_ ?_
  all_goals
    rw [h]
    rfl

/-- A poll that leaves the receiver alone in the middle of a transfer. -/
theorem Tracks.stays {s : TransferLog} (h : Tracks s) {p : Poll}
    (hpoll : (s.receiver.poll p).receiver = s.receiver) (hbytes : bytesOf [p] = [])
    (hmissed : missedBy s.receiver p = 0) : Tracks (s.step p) := by
  by_cases hidle : s.receiver.state = .idle
  · cases h with
    | idle hstate hbuf =>
        rw [step, if_pos hidle, hpoll]
        exact .idle hstate hbuf
    | header hstate => cases hidle.symm.trans hstate
    | data _ _ hstate => cases hidle.symm.trans hstate
    | crc _ _ hstate => cases hidle.symm.trans hstate
  · have hsame : s.step p = s := by
      rw [step, if_neg hidle, hmissed, hpoll, hbytes, List.append_nil]
      rfl
    rw [hsame]
    exact h

theorem tracks_scanMagic {r : SerialFirmwareReceiver} (hstate : r.state = .idle)
    (hbuf : r.writeBuf = []) (b : Byte) : Tracks ⟨r.scanMagic b, [], 0⟩ := by
  unfold scanMagic
  dsimp only
  split_ifs
  · exact .header rfl hbuf (Nat.succ_pos 3) rfl rfl
  · exact .idle hstate hbuf

theorem tracks_processHeader {r : SerialFirmwareReceiver} (hstate : r.state = .header)
    (hbuf : r.writeBuf = []) (hlen : r.headerBuf.length < 4) (b : Byte) (world : SerialWorld) :
    Tracks ⟨(r.processHeader b world).receiver, r.headerBuf ++ [b], 0⟩ := by
  unfold processHeader
  dsimp only
  split_ifs with hfull hsize hactive hopens
  · exact tracks_reset rfl
  · exact tracks_reset rfl
  · exact tracks_reset rfl
  · refine .data (r.headerBuf ++ [b]) [] rfl hfull rfl ?_ ?_ ?_ ?_ ⟨rfl, fun _ => rfl⟩
    · dsimp only
      rw [hbuf, List.append_nil, List.append_nil]
    · dsimp only
      rw [hbuf]
      rfl
    · exact Nat.pos_of_ne_zero (not_or.mp hsize).1
    · dsimp only
      rw [hbuf]
      rfl
  · refine .header hstate hbuf ?_ rfl rfl
    dsimp only
    rw [List.length_append, List.length_singleton] at hfull ⊢
    omega

theorem crc16_snoc (bytes : List Byte) (b : Byte) :
    crc16 (bytes ++ [b]) = crc16Update (crc16 bytes) b := by
  rw [crc16, List.foldl_append]
  rfl

/-- What the file takes of the buffer. -/
theorem Took.flush {s : TransferLog} {given : List Byte} (h : s.Took given)
    {s' : TransferLog} {buf : List Byte} (accepts : ℕ)
    (hfile : s'.receiver.file = s.receiver.file ++ buf.take accepts)
    (hmissed : s'.missed = s.missed + (buf.length - accepts)) : s'.Took (given ++ buf) := by
  have hlength := h.length
  refine ⟨?_, fun hzero => ?_⟩
  · rw [hfile, hmissed, List.length_append, List.length_append, List.length_take]
    omega
  · rw [hfile, h.eq (by omega), List.take_of_length_le (by omega)]

theorem tracks_processData {header given : List Byte} {s s' : TransferLog} (b : Byte)
    (world : SerialWorld) (hstate : s.receiver.state = .data) (hheader : header.length = 4)
    (hsize : s.receiver.firmwareSize = leValue header)
    (hlen : (given ++ s.receiver.writeBuf).length = s.receiver.bytesWritten)
    (hlt : s.receiver.bytesWritten < s.receiver.firmwareSize)
    (hcrc : crc16 (given ++ s.receiver.writeBuf) = s.receiver.runningCrc) (htook : s.Took given)
    (hreceiver : s'.receiver = (s.receiver.processData b world).receiver)
    (hreceived : s'.received = header ++ (given ++ (s.receiver.writeBuf ++ [b])))
    (hmissed : s'.missed = s.missed + missedBy s.receiver (.byte b world)) : Tracks s' := by
  have hlen' : (given ++ (s.receiver.writeBuf ++ [b])).length = s.receiver.bytesWritten + 1 := by
    rw [← List.append_assoc, List.length_append, hlen, List.length_singleton]
  have hcrc' : crc16 (given ++ (s.receiver.writeBuf ++ [b])) =
      crc16Update s.receiver.runningCrc b := by
    rw [← List.append_assoc, crc16_snoc, hcrc]
  unfold missedBy at hmissed
  unfold processData at hreceiver
  dsimp only at hmissed hreceiver
  by_cases hflushes : (s.receiver.takeByte b).Flushes
  · rw [if_pos ⟨hstate, hflushes⟩] at hmissed
    rw [if_pos hflushes, if_pos hflushes] at hreceiver
    have htook' : s'.Took (given ++ (s.receiver.writeBuf ++ [b])) := by
      refine htook.flush world.accepts ?_ ?_
      · rw [hreceiver]
        split_ifs <;> rfl
      · rw [hmissed, List.length_append, List.length_singleton]
    by_cases hend : (s.receiver.takeByte b).bytesWritten = (s.receiver.takeByte b).firmwareSize
    · rw [if_pos hend] at hreceiver
      refine .crc header _ ?_ hheader ?_ ?_ ?_ ?_ ?_ htook'
      · rw [hreceiver]
      · rw [hlen', ← hsize]
        exact hend
      · rw [hreceiver]
        rfl
      · rw [hreceived, hreceiver]
        simp only [List.append_nil]
      · rw [hreceiver]
        exact Nat.succ_pos 1
      · rw [hreceiver]
        exact hcrc'
    · rw [if_neg hend] at hreceiver
      refine .data header _ ?_ hheader ?_ ?_ ?_ ?_ ?_ htook'
      · rw [hreceiver]
        exact hstate
      · rw [hreceiver]
        exact hsize
      · rw [hreceived, hreceiver]
        simp only [SerialFirmwareReceiver.flush, List.append_nil]
      · rw [hreceiver]
        simp only [SerialFirmwareReceiver.flush, List.append_nil]
        exact hlen'
      · rw [hreceiver]
        exact Nat.lt_of_le_of_ne hlt hend
      · rw [hreceiver]
        simp only [SerialFirmwareReceiver.flush, List.append_nil]
        exact hcrc'
  · have hend : ¬ (s.receiver.takeByte b).bytesWritten = (s.receiver.takeByte b).firmwareSize :=
      (not_or.mp hflushes).2
    rw [if_neg (fun hboth => hflushes hboth.2)] at hmissed
    rw [if_neg hflushes, if_neg hflushes, if_neg hend] at hreceiver
    refine .data header given ?_ hheader ?_ ?_ ?_ ?_ ?_ ⟨?_, ?_⟩
    all_goals rw [hreceiver]
    · exact hstate
    · exact hsize
    · exact hreceived
    · exact hlen'
    · exact Nat.lt_of_le_of_ne hlt hend
    · exact hcrc'
    · rw [hmissed]
      exact htook.length
    · rw [hmissed]
      exact htook.eq

theorem tracks_processCrc {header given : List Byte} {s s' : TransferLog} (b : Byte)
    (world : SerialWorld) (hstate : s.receiver.state = .crcBytes) (hheader : header.length = 4)
    (hsize : given.length = leValue header) (hbuf : s.receiver.writeBuf = [])
    (hlen : s.receiver.crcBuf.length < 2) (hcrc : crc16 given = s.receiver.runningCrc)
    (htook : s.Took given)
    (hreceiver : s'.receiver = (s.receiver.processCrc b world).receiver)
    (hreceived : s'.received = header ++ (given ++ (s.receiver.crcBuf ++ [b])))
    (hmissed : s'.missed = s.missed) : Tracks s' := by
  unfold processCrc at hreceiver
  dsimp only at hreceiver
  split_ifs at hreceiver with hfull hno
  · exact tracks_reset hreceiver
  · cases hflash : startFlashing world s.receiver.file with
    | none =>
        rw [hflash] at hreceiver
        exact tracks_reset hreceiver
    | some msg =>
        rw [hflash] at hreceiver
        exact tracks_reset hreceiver
  · refine .crc header given ?_ hheader hsize ?_ ?_ ?_ ?_ ⟨?_, ?_⟩
    all_goals rw [hreceiver]
    · exact hstate
    · exact hbuf
    · exact hreceived
    · dsimp only
      rw [List.length_append, List.length_singleton] at hfull ⊢
      omega
    · exact hcrc
    · rw [hmissed]
      exact htook.length
    · rw [hmissed]
      exact htook.eq

theorem tracks_step {s : TransferLog} (h : Tracks s) (p : Poll) : Tracks (s.step p) := by
  cases p with
  | nothing => exact h.stays rfl rfl rfl
  | timeout =>
      by_cases hidle : s.receiver.state = .idle
      · have hpoll : s.receiver.poll .timeout = ⟨s.receiver, [], none⟩ := if_pos hidle
        exact h.stays (by rw [hpoll]) rfl rfl
      · have hpoll : s.receiver.poll .timeout = s.receiver.refuse "timeout" := if_neg hidle
        exact tracks_reset (r := s.receiver) (by rw [step, if_neg hidle, hpoll]; rfl)
  | byte b world =>
      have hbyte : bytesOf [Poll.byte b world] = [b] := rfl
      cases h with
      | idle hstate hbuf =>
          rw [step, if_pos hstate, poll, hstate]
          exact tracks_scanMagic hstate hbuf b
      | header hstate hbuf hlen hreceived hmissed =>
          have hnothing : missedBy s.receiver (.byte b world) = 0 :=
            if_neg fun hdata => SerialState.noConfusion (hstate.symm.trans hdata.1)
          rw [step, if_neg (by rw [hstate]; decide), poll, hstate, hbyte, hnothing, hreceived,
            hmissed]
          exact tracks_processHeader hstate hbuf hlen b world
      | data header given hstate hheader hsize hreceived hlen hlt hcrc htook =>
          rw [step, if_neg (by rw [hstate]; decide), poll, hstate, hbyte, hreceived]
          refine tracks_processData b world hstate hheader hsize hlen hlt hcrc htook rfl ?_ rfl
          simp only [List.append_assoc]
      | crc header given hstate hheader hsize hbuf hreceived hlen hcrc htook =>
          have hnothing : missedBy s.receiver (.byte b world) = 0 :=
            if_neg fun hdata => SerialState.noConfusion (hstate.symm.trans hdata.1)
          rw [step, if_neg (by rw [hstate]; decide), poll, hstate, hbyte, hreceived, hnothing]
          refine tracks_processCrc b world hstate hheader hsize hbuf hlen hcrc htook rfl ?_ rfl
          simp only [List.append_assoc]

theorem run_tracks (file : List Byte) (polls : List Poll) : Tracks (run file polls) := by
  induction polls using List.reverseRecOn with
  | nil => exact .idle rfl rfl
  | append_singleton polls p ih =>
      rw [run_snoc]
      exact tracks_step ih p

/-- What a flash starts from. -/
theorem flashed_cases {r : SerialFirmwareReceiver} {p : Poll} {image : List Byte}
    (h : (r.poll p).flashed = some image) : ∃ b world, p = .byte b world ∧ r.state = .crcBytes ∧
      (r.crcBuf ++ [b]).length = 2 ∧ BitVec.ofNat 16 (leValue (r.crcBuf ++ [b])) = r.runningCrc ∧
      image = r.file := by
  cases p with
  | nothing => cases h
  | timeout =>
      unfold poll at h
      dsimp only at h
      split_ifs at h
      cases h
  | byte b world =>
      cases hstate : r.state with
      | idle =>
          rw [poll, hstate] at h
          cases h
      | header =>
          rw [poll, hstate] at h
          dsimp only at h
          unfold processHeader at h
          dsimp only at h
          split_ifs at h <;> cases h
      | data =>
          rw [poll, hstate] at h
          dsimp only at h
          unfold processData at h
          dsimp only at h
          split_ifs at h
      | crcBytes =>
          rw [poll, hstate] at h
          dsimp only at h
          unfold processCrc at h
          dsimp only at h
          split_ifs at h with hfull hno
          · cases h
          · cases hflash : startFlashing world r.file with
            | some msg =>
                rw [hflash] at h
                cases h
            | none =>
                rw [hflash] at h
                exact ⟨b, world, rfl, rfl, hfull, not_not.mp hno, (Option.some.inj h).symm⟩

/-- A flash is of the announced image if and only if the file has taken all it was given. -/
theorem announced_iff {s : TransferLog} (h : Tracks s) {p : Poll} {image : List Byte}
    (hflash : (s.receiver.poll p).flashed = some image) :
    Announced (s.step p).received image ↔ s.missed = 0 := by
  obtain ⟨b, world, rfl, hstate, hfull, hcheck, rfl⟩ := flashed_cases hflash
  cases h with
  | idle hno => cases hstate.symm.trans hno
  | header hno => cases hstate.symm.trans hno
  | data _ _ hno => cases hstate.symm.trans hno
  | crc header given _ hheader hsize _ hreceived hlen hcrc htook =>
      have hreceived' : (s.step (.byte b world)).received =
          header ++ (given ++ (s.receiver.crcBuf ++ [b])) := by
        have hbyte : bytesOf [Poll.byte b world] = [b] := rfl
        rw [step, if_neg (by rw [hstate]; decide), hreceived, hbyte]
        simp only [List.append_assoc]
      rw [hreceived']
      constructor
      · rintro ⟨header', crc', hsplit, hheader', -, hlength, -⟩
        have hsame := (List.append_inj hsplit (hheader.trans hheader'.symm)).1
        have htaken := htook.length
        rw [hlength, ← hsame, ← hsize] at htaken
        omega
      · intro hzero
        rw [htook.eq hzero]
        exact ⟨header, _, rfl, hheader, hfull, hsize, by rw [hcrc, hcheck]⟩

theorem flashesAnnounced_iff (file : List Byte) (polls : List Poll) :
    FlashesAnnounced file polls ↔ FlashesTaken file polls := by
  constructor
  · intro h before p image hinitial hflash
    exact (announced_iff (run_tracks file before) hflash).mp (h before p image hinitial hflash)
  · intro h before p image hinitial hflash
    exact (announced_iff (run_tracks file before) hflash).mpr (h before p image hinitial hflash)

end TransferLog

/-! ## The magic -/

namespace SerialFirmwareReceiver

def after (r : SerialFirmwareReceiver) (polls : List Poll) : SerialFirmwareReceiver :=
  polls.foldl (fun r p => (r.poll p).receiver) r

theorem magic_once : ∀ j, 0 < j → magic[j]? ≠ magic[0]? := by
  intro j hj
  match j, hj with
  | 1, _ => decide
  | 2, _ => decide
  | 3, _ => decide
  | j + 4, _ =>
      rw [List.getElem?_eq_none (Nat.le_add_left 4 j)]
      decide

theorem bytesOf_snoc (polls : List Poll) (p : Poll) :
    bytesOf (polls ++ [p]) = bytesOf polls ++ bytesOf [p] := List.filterMap_append

/-- Without the magic, the receiver only scans. -/
theorem after_noise {r : SerialFirmwareReceiver} (hidle : r.state = .idle)
    (hstart : r.magicPos = 0) {polls : List Poll} (hnoise : ¬ magic <:+: bytesOf polls) :
    (r.after polls).state = .idle ∧
      (r.after polls).magicPos = (bytesOf polls).foldl (PatternScan.scan magic) 0 := by
  induction polls using List.reverseRecOn with
  | nil => exact ⟨hidle, hstart⟩
  | append_singleton polls p ih =>
      rw [bytesOf_snoc] at hnoise ⊢
      obtain ⟨hstate, hpos⟩ := ih fun hsegment =>
        hnoise (hsegment.trans (List.prefix_append _ _).isInfix)
      have hsnoc : r.after (polls ++ [p]) = ((r.after polls).poll p).receiver := by
        rw [after, List.foldl_append]
        rfl
      rw [hsnoc]
      cases p with
      | nothing =>
          refine ⟨hstate, ?_⟩
          change (r.after polls).magicPos = (bytesOf polls ++ []).foldl _ 0
          rw [List.append_nil]
          exact hpos
      | timeout =>
          have hpoll : ((r.after polls).poll .timeout).receiver = r.after polls := by
            rw [poll, if_pos hstate]
          rw [hpoll]
          refine ⟨hstate, ?_⟩
          change (r.after polls).magicPos = (bytesOf polls ++ []).foldl _ 0
          rw [List.append_nil]
          exact hpos
      | byte b world =>
          have hlt := (PatternScan.At.foldl magic_once hnoise).2
          change (List.foldl _ 0 (bytesOf polls ++ [b])) < 4 at hlt
          rw [List.foldl_append, List.foldl_cons, List.foldl_nil, ← hpos] at hlt
          rw [poll, hstate]
          change ((r.after polls).scanMagic b).state = _ ∧
            ((r.after polls).scanMagic b).magicPos = (bytesOf polls ++ [b]).foldl _ 0
          rw [scanMagic, if_neg (Nat.ne_of_lt hlt), List.foldl_append, List.foldl_cons,
            List.foldl_nil, ← hpos]
          exact ⟨hstate, rfl⟩

/-- After noise without the magic, a transfer starts with the byte that completes it. -/
theorem transfer_starts_iff {r : SerialFirmwareReceiver} (hidle : r.state = .idle)
    (hstart : r.magicPos = 0) {polls : List Poll} (hnoise : ¬ magic <:+: bytesOf polls) (b : Byte)
    (world : SerialWorld) :
    ((r.after (polls ++ [.byte b world])).state = .header ↔ magic <:+ bytesOf polls ++ [b]) ∧
      (¬ magic <:+ bytesOf polls ++ [b] →
        (r.after (polls ++ [.byte b world])).state = .idle) := by
  obtain ⟨hstate, hpos⟩ := after_noise hidle hstart hnoise
  have hsnoc : r.after (polls ++ [.byte b world]) = (r.after polls).scanMagic b := by
    rw [after, List.foldl_append]
    change ((r.after polls).poll (.byte b world)).receiver = _
    rw [poll, hstate]
  have hfound := PatternScan.found_iff magic_once hnoise b
  have hlength : magic.length = 4 := rfl
  rw [← hpos, hlength] at hfound
  rw [hsnoc, scanMagic]
  by_cases hmagic : magic <:+ bytesOf polls ++ [b]
  · rw [if_pos (hfound.mpr hmagic)]
    exact ⟨iff_of_true rfl hmagic, fun hno => absurd hmagic hno⟩
  · rw [if_neg (fun hpos => hmagic (hfound.mp hpos))]
    refine ⟨iff_of_false (fun hno => ?_) hmagic, fun _ => hstate⟩
    cases hstate.symm.trans hno

/-- From wherever the scan begins, noise is skipped, whatever the chunks it comes in, and the first
magic starts a transfer. -/
def FindsMagic : Prop :=
  ∀ r : SerialFirmwareReceiver, r.state = .idle → r.magicPos = 0 →
    ∀ polls, ¬ magic <:+: bytesOf polls → (r.after polls).state = .idle ∧
      ∀ b world, magic <:+ bytesOf polls ++ [b] →
        (r.after (polls ++ [.byte b world])).state = .header

theorem findsMagic : FindsMagic := fun _ hidle hstart _ hnoise =>
  ⟨(after_noise hidle hstart hnoise).1,
    fun b world hmagic => (transfer_starts_iff hidle hstart hnoise b world).1.mpr hmagic⟩

end SerialFirmwareReceiver

open TransferLog SerialFirmwareReceiver in
/-- The panels are only flashed with images that were announced, and every transfer is noticed, if
and only if the file takes all bytes of the images that the panels are flashed with. -/
theorem serialFirmware_iff (file : List Byte) (polls : List Poll) :
    (FlashesAnnounced file polls ∧ FindsMagic) ↔ FlashesTaken file polls := by
  rw [and_iff_left findsMagic]
  exact flashesAnnounced_iff file polls

def fullDisk : SerialWorld := ⟨false, true, 1, true, 1⟩

/-- Two bytes of firmware, of which the file takes one. -/
def shortTransfer : List Poll :=
  (SerialFirmwareReceiver.magic ++ [2, 0, 0, 0] ++ [0xAA, 0xBB] ++
    ReflectedCrc.leBytes 2 (crc16 [0xAA, 0xBB])).map (fun b => .byte b fullDisk)

/-- The panels are flashed with the one byte. -/
theorem shortTransfer_flashes : ¬ TransferLog.FlashesAnnounced [] shortTransfer := by
  rw [TransferLog.flashesAnnounced_iff]
  intro h
  have hmissed := h (shortTransfer.take 11) (shortTransfer.getLast (by decide)) [0xAA]
    (by decide +kernel) (by decide +kernel)
  revert hmissed
  decide +kernel

end Lightnet.Ota
