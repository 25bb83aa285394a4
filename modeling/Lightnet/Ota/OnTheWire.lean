import Lightnet.Ota.Campaign
import Lightnet.Relay.EdgeFrameReceiver

/-!
# The bootloader on the wire

A campaign exchanges whole packets with a panel's bootloader; what the bootloader has is a turn of
its main loop after the other, each with a byte or none and with an overflow of its timer or none.

Whatever happens in these turns, the bootloader does what some packets and silences do to it, and
each of the packets lay on the line as a valid frame. Packets that keep to the timing reach it as
they were sent.
-/

namespace Lightnet.Ota

open LinkArq Framing

/-! ### Packets and their bytes -/

/-- What a packet asks of a bootloader. -/
inductive Order where
  | ping
  | request (request : Request)
  deriving DecidableEq

inductive Heard where
  | packet (target : BitVec 16) (order : Order)
  | silence
  deriving DecidableEq

def PacketBootloaderWriteChunk.bytes (pkt : PacketBootloaderWriteChunk) : List Byte :=
  ReflectedCrc.leBytes 2 pkt.address ++ pkt.length :: (pkt.data ++ ReflectedCrc.leBytes 2 pkt.dataCrc)

namespace Order

def download : Order → Download
  | ping => .bootloaderPing
  | request r => .request r

def frame (target : BitVec 16) : Order → List Byte
  | ping => frameBytes .bootloaderPing target []
  | request (.writeChunk pkt) => frameBytes .bootloaderWriteChunk target pkt.bytes
  | request .startApp => frameBytes .bootloaderStartApp target []

/-- A chunk carries its whole array, however many bytes of it count. -/
def WellSized : Order → Prop
  | request (.writeChunk pkt) => pkt.data.length = bootloaderChunkSize
  | _ => True

def ofFrame (frame : List Byte) : Option Order :=
  match PacketType.ofByte (metaOfBytes frame).header.type with
  | some .bootloaderPing => some .ping
  | some .bootloaderWriteChunk => some (.request (.writeChunk (chunkOfFrame frame)))
  | some .bootloaderStartApp => some (.request .startApp)
  | _ => none

end Order

def Heard.ofFrame (frame : List Byte) : List Heard :=
  ((Order.ofFrame frame).map (Heard.packet (metaOfBytes frame).header.targetPanelIndex)).toList

theorem metaOfBytes_type (type : PacketType) (target : BitVec 16) (payload : List Byte) :
    PacketType.ofByte (metaOfBytes (frameBytes type target payload)).header.type = some type := by
  rw [metaOfBytes_frameBytes]
  exact PacketType.ofByte_toByte type

theorem metaOfBytes_target (type : PacketType) (target : BitVec 16) (payload : List Byte) :
    (metaOfBytes (frameBytes type target payload)).header.targetPanelIndex = target := by
  rw [metaOfBytes_frameBytes]
  rfl

/-- A chunk is read from the receive buffer as it was put into the packet. -/
theorem chunkOfFrame_frameBytes (target : BitVec 16) {pkt : PacketBootloaderWriteChunk}
    (hdata : pkt.data.length = bootloaderChunkSize) :
    chunkOfFrame (frameBytes .bootloaderWriteChunk target pkt.bytes) = pkt := by
  obtain ⟨address, length, data, dataCrc⟩ := pkt
  dsimp only at hdata
  have hsize : data.length = 64 := hdata
  generalize hframe : frameBytes .bootloaderWriteChunk target
    (PacketBootloaderWriteChunk.bytes ⟨address, length, data, dataCrc⟩) = frame
  obtain ⟨b₀, b₁, b₂, b₃, b₄, b₅, b₆, hbytes⟩ : ∃ b₀ b₁ b₂ b₃ b₄ b₅ b₆ : Byte,
      frame = [b₀, b₁, b₂, b₃, b₄, b₅, b₆, address.setWidth 8, (address >>> 8).setWidth 8,
        length] ++ (data ++ [dataCrc.setWidth 8, (dataCrc >>> 8).setWidth 8]) := by
    rw [← hframe]
    exact ⟨_, _, _, _, _, _, _, rfl⟩
  have hdrop : frame.drop 10 = data ++ [dataCrc.setWidth 8, (dataCrc >>> 8).setWidth 8] := by
    rw [hbytes]
    rfl
  have hcrc : ∀ i, frame.getD (10 + i) 0 =
      (data ++ [dataCrc.setWidth 8, (dataCrc >>> 8).setWidth 8]).getD i 0 := by
    intro i
    rw [← hdrop]
    simp [List.getD]
  have hlow : frame.getD 74 0 = dataCrc.setWidth 8 := by
    rw [hcrc 64, List.getD_eq_getElem?_getD, List.getElem?_append_right (by omega), hsize]
    rfl
  have hhigh : frame.getD 75 0 = (dataCrc >>> 8).setWidth 8 := by
    rw [hcrc 65, List.getD_eq_getElem?_getD, List.getElem?_append_right (by omega), hsize]
    rfl
  have htake : (data ++ [dataCrc.setWidth 8, (dataCrc >>> 8).setWidth 8]).take
      bootloaderChunkSize = data := by
    rw [List.take_append_of_le_length hdata.ge, List.take_of_length_le hdata.le]
  rw [chunkOfFrame, hdrop, hlow, hhigh, htake, le16_leBytes, hbytes]
  change PacketBootloaderWriteChunk.mk (le16 (address.setWidth 8) ((address >>> 8).setWidth 8))
    length data dataCrc = _
  rw [le16_leBytes]

/-- A packet that is sent is a valid frame, and it is understood as it was meant. -/
theorem Order.frame_heard (target : BitVec 16) {order : Order} (hsized : order.WellSized) :
    PacketFramer.ValidPacket false (order.frame target) ∧
      Heard.ofFrame (order.frame target) = [.packet target order] := by
  cases order with
  | ping =>
      refine ⟨PacketFramer.validPacket_frameBytes _ _ _ _ rfl, ?_⟩
      rw [Heard.ofFrame, Order.frame, Order.ofFrame, metaOfBytes_type, metaOfBytes_target]
      rfl
  | request request =>
      cases request with
      | writeChunk pkt =>
          have hdata : pkt.data.length = bootloaderChunkSize := hsized
          have hlength : pkt.bytes.length = 69 := by
            have hsize : pkt.data.length = 64 := hdata
            simp [PacketBootloaderWriteChunk.bytes, ReflectedCrc.leBytes, hsize]
          refine ⟨PacketFramer.validPacket_frameBytes _ _ _ _ (by rw [hlength]; rfl), ?_⟩
          rw [Heard.ofFrame, Order.frame, Order.ofFrame, metaOfBytes_type, metaOfBytes_target,
            chunkOfFrame_frameBytes target hdata]
          rfl
      | startApp =>
          refine ⟨PacketFramer.validPacket_frameBytes _ _ _ _ rfl, ?_⟩
          rw [Heard.ofFrame, Order.frame, Order.ofFrame, metaOfBytes_type, metaOfBytes_target]
          rfl

/-! ### What a panel hears -/

namespace Device

def hear (assignedIndex : BitVec 16) (d : Device) : Heard → Device × List Reply
  | .packet target order =>
    if target ≠ 0 ∧ target ≠ assignedIndex then (d, []) else d.receive order.download
  | .silence => (if d.boot.resident then { d with boot := d.boot.leave } else d, [])

def hears (assignedIndex : BitVec 16) : Device → List Heard → Device × List Reply
  | d, [] => (d, [])
  | d, h :: hs =>
    (((d.hear assignedIndex h).1.hears assignedIndex hs).1,
      (d.hear assignedIndex h).2 ++ ((d.hear assignedIndex h).1.hears assignedIndex hs).2)

theorem hears_append (assignedIndex : BitVec 16) (d : Device) (hs ks : List Heard) :
    d.hears assignedIndex (hs ++ ks) =
      (((d.hears assignedIndex hs).1.hears assignedIndex ks).1,
        (d.hears assignedIndex hs).2 ++ ((d.hears assignedIndex hs).1.hears assignedIndex ks).2) := by
  induction hs generalizing d with
  | nil => rfl
  | cons h hs ih => simp only [List.cons_append, hears, ih, List.append_assoc]

/-- The application does not listen to what is meant for a bootloader. -/
theorem hear_left {assignedIndex : BitVec 16} {d : Device} (hleft : d.boot.resident = false)
    (h : Heard) : d.hear assignedIndex h = (d, []) := by
  cases h with
  | packet target order =>
      cases order with
      | ping => simp [hear, Order.download, receive, hleft]
      | request request => simp [hear, Order.download, receive, Bootloader.receive, hleft]
  | silence => simp [hear, hleft]

theorem hears_left {assignedIndex : BitVec 16} {d : Device} (hleft : d.boot.resident = false)
    (hs : List Heard) : d.hears assignedIndex hs = (d, []) := by
  induction hs with
  | nil => rfl
  | cons h hs ih => rw [hears, hear_left hleft, ih, List.append_nil]

end Device

namespace RelayBootloader

def device (r : RelayBootloader) : Device := ⟨r.boot, bootloaderProtocolVersion⟩

/-- What the bootloader has come to and what it has answered after it has heard this. -/
def After (r s : RelayBootloader) (heard : List Heard) : Prop :=
  (s.device, s.replies) = ((r.device.hears r.assignedIndex heard).1,
      r.replies ++ (r.device.hears r.assignedIndex heard).2) ∧
    s.assignedIndex = r.assignedIndex

theorem After.refl (r : RelayBootloader) : r.After r [] := by
  simp [After, Device.hears]

theorem After.trans {r s t : RelayBootloader} {hs ks : List Heard} (hrs : r.After s hs)
    (hst : s.After t ks) : r.After t (hs ++ ks) := by
  obtain ⟨hsame, hindex⟩ := hrs
  obtain ⟨hnext, hindex'⟩ := hst
  obtain ⟨hdevice, hreplies⟩ := Prod.mk.inj hsame
  refine ⟨?_, hindex'.trans hindex⟩
  rw [hnext, Device.hears_append, hdevice, hreplies, hindex, List.append_assoc]

/-- What listens on the line. -/
def line (r : RelayBootloader) : PacketFramer × BitVec 16 × BitVec 16 :=
  (r.framer, r.idleTicks, r.assignedIndex)

theorem line_eq {r s : RelayBootloader} (h : s.line = r.line) :
    s.framer = r.framer ∧ s.idleTicks = r.idleTicks ∧ s.assignedIndex = r.assignedIndex := by
  obtain ⟨hframer, hrest⟩ := Prod.mk.inj h
  exact ⟨hframer, Prod.mk.inj hrest⟩

@[simp] theorem line_boot (r : RelayBootloader) (boot : Bootloader) :
    { r with boot }.line = r.line := rfl

@[simp] theorem access_line (r : RelayBootloader) (as : List Access) :
    (r.access as).line = r.line := rfl

@[simp] theorem commitPage_line (r : RelayBootloader) : r.commitPage.line = r.line := by
  unfold commitPage
  split_ifs <;> simp

@[simp] theorem loadPage_line (r : RelayBootloader) (newPageStart : ℕ) :
    (r.loadPage newPageStart).line = r.line := by
  unfold loadPage
  split_ifs
  · rfl
  · exact r.commitPage_line

@[simp] theorem sendPong_line (r : RelayBootloader) : r.sendPong.line = r.line := rfl

@[simp] theorem sendWriteAck_line (r : RelayBootloader) (address : BitVec 16)
    (status : BootloaderWriteStatus) : (r.sendWriteAck address status).line = r.line := rfl

@[simp] theorem handleWriteChunk_line (r : RelayBootloader) (frame : List Byte) :
    (r.handleWriteChunk frame).line = r.line := by
  unfold handleWriteChunk
  dsimp only
  split_ifs <;> simp only [sendWriteAck_line, commitPage_line, access_line, line_boot, loadPage_line]

@[simp] theorem leave_line (r : RelayBootloader) : r.leave.line = r.line := r.commitPage_line

/-- Handling a packet leaves alone what listens for the next one. -/
theorem handleFrame_line (r : RelayBootloader) (frame : List Byte) :
    (r.handleFrame frame).line = r.line := by
  unfold handleFrame
  dsimp only
  split_ifs
  · rfl
  · split <;> simp

theorem leave_after {r : RelayBootloader} (hresident : r.boot.resident = true) :
    r.After r.leave [.silence] := by
  refine ⟨?_, (line_eq r.leave_line).2.2⟩
  have hreplies : r.leave.replies = r.replies := r.commitPage_replies
  simp only [Device.hears, Device.hear, device, hresident, if_true, leave_boot, hreplies,
    List.append_nil]

/-- A frame is handled as the packet that it holds. -/
theorem handleFrame_after {r : RelayBootloader} (hresident : r.boot.resident = true)
    {frame : List Byte} (hvalid : PacketFramer.ValidPacket false frame) :
    r.After (r.handleFrame frame) (Heard.ofFrame frame) := by
  obtain ⟨type, htype, hsize⟩ := hvalid.type_size
  by_cases hother : (metaOfBytes frame).header.targetPanelIndex ≠ 0 ∧
      (metaOfBytes frame).header.targetPanelIndex ≠ r.assignedIndex
  · have hskip : r.handleFrame frame = r := if_pos hother
    rw [hskip]
    refine ⟨?_, rfl⟩
    cases hord : Order.ofFrame frame with
    | none => simp [Heard.ofFrame, hord, Device.hears]
    | some order =>
        rw [Heard.ofFrame, hord, Option.map_some, Option.toList_some]
        simp only [Device.hears, Device.hear, if_pos hother, List.append_nil]
  · have hheard : ∀ order, r.device.hears r.assignedIndex
        [.packet (metaOfBytes frame).header.targetPanelIndex order] =
        r.device.receive order.download := by
      intro order
      simp only [Device.hears, Device.hear, if_neg hother, List.append_nil]
    rw [handleFrame, if_neg hother, Heard.ofFrame, Order.ofFrame, htype]
    cases type with
    | bootloaderPing =>
        refine ⟨?_, rfl⟩
        simp only [Option.map_some, Option.toList_some, hheard]
        simp [Order.download, Device.receive, device, hresident, sendPong, Device.pong]
    | bootloaderWriteChunk =>
        obtain ⟨hboot, hreplies⟩ := r.handleWriteChunk_refines hsize
        refine ⟨?_, (line_eq (r.handleWriteChunk_line frame)).2.2⟩
        simp only [Option.map_some, Option.toList_some, hheard]
        simp [Order.download, Device.receive, device, hresident, Bootloader.receive, hboot,
          hreplies]
    | bootloaderStartApp =>
        have hreplies : r.leave.replies = r.replies := r.commitPage_replies
        refine ⟨?_, (line_eq r.leave_line).2.2⟩
        simp only [Option.map_some, Option.toList_some, hheard]
        simp [Order.download, Device.receive, device, hresident, Bootloader.receive, leave_boot,
          hreplies]
    | _ => exact After.refl r

/-! ### A turn of the main loop -/

/-- The framer gathers the packets of any protocol version. -/
structure Listening (r : RelayBootloader) : Prop where
  wellFormed : r.framer.WellFormed
  version : r.framer.validateProtocolVersion = false

theorem Listening.of_line {r s : RelayBootloader} (hr : r.Listening) (h : s.line = r.line) :
    s.Listening := by
  obtain ⟨hframer, -⟩ := line_eq h
  exact ⟨hframer ▸ hr.wellFormed, hframer ▸ hr.version⟩

theorem Listening.reset {r : RelayBootloader} (hr : r.Listening) (idleTicks : BitVec 16) :
    { r with framer := r.framer.reset, idleTicks }.Listening :=
  ⟨PacketFramer.wellFormed_of_empty rfl, hr.version⟩

/-- With a byte in its framer, and a frame that may be complete not handled yet. -/
def gather (r : RelayBootloader) (value : Byte) : RelayBootloader :=
  { r with framer := (r.framer.handle (.letter value)).1, idleTicks := 0 }

theorem Listening.gather {r : RelayBootloader} (hr : r.Listening) (value : Byte) :
    (r.gather value).Listening := by
  obtain ⟨hwell, hversion, -⟩ := PacketFramer.handle_letter_refines hr.wellFormed value
  exact ⟨hwell, hversion.trans hr.version⟩

/-- A byte is gathered, or it completes a frame. -/
theorem receiveByte_cases {r : RelayBootloader} (hr : r.Listening) (value : Byte) :
    ((r.framer.handle (.letter value)).2 = none ∧ r.receiveByte value = r.gather value) ∨
    ∃ frame, (r.framer.handle (.letter value)).2 = some frame ∧
      PacketFramer.ValidPacket false frame ∧ frame = r.framer.pending ++ [value] ∧
      (r.gather value).framer.pending = [] ∧
      r.receiveByte value = (r.gather value).handleFrame frame := by
  obtain ⟨hwell, -, hpush⟩ := PacketFramer.handle_letter_refines hr.wellFormed value
  have hwhole : (r.framer.pushByte value).1.frame.take (r.framer.pushByte value).1.frameSize =
      (r.framer.pushByte value).1.frame := List.take_length
  rw [hr.version] at hpush
  have hpending := hr.wellFormed.pending_lt false
  cases hready : (r.framer.pushByte value).2 with
  | false =>
      left
      have hnone : (r.framer.handle (.letter value)).2 = none := by
        simp only [PacketFramer.handle, hready, Bool.false_eq_true, if_false]
      refine ⟨hnone, ?_⟩
      simp only [receiveByte, hready, Bool.false_eq_true, if_false]
      rfl
  | true =>
      right
      have hsome : (r.framer.handle (.letter value)).2 =
          some (r.framer.pushByte value).1.frame := by
        simp only [PacketFramer.handle, hready, if_true, hwhole]
      have hhandled : r.receiveByte value =
          (r.gather value).handleFrame (r.framer.pushByte value).1.frame := by
        simp only [receiveByte, hready, if_true]
        rfl
      refine ⟨_, hsome, ?_⟩
      rw [hsome] at hpush
      rcases Code.push_letter_cases _ r.framer.pending value hpending with hcase | ⟨hcase, -⟩ |
        ⟨hcase, hword⟩
      all_goals
        rw [hcase, Prod.mk.injEq] at hpush
      · exact absurd hpush.2 (Option.some_ne_none _)
      · exact absurd hpush.2 (Option.some_ne_none _)
      · have hframe := Option.some.inj hpush.2
        refine ⟨?_, hframe, hpush.1, hhandled⟩
        rw [hframe]
        exact (PacketFramer.isWord_iff_validPacket _ _).mp hword

def ticked (r : RelayBootloader) (elapsed : Bool) : BitVec 16 :=
  if elapsed then r.idleTicks + 1 else r.idleTicks

/-- The byte of a turn, if it has one. -/
def receive (r : RelayBootloader) (value : Option Byte) : RelayBootloader :=
  value.elim r r.receiveByte

theorem loopTurn_left {r : RelayBootloader} (hleft : r.boot.resident = false) (turn : Turn) :
    r.loopTurn turn = r :=
  if_pos (by rw [hleft]; rfl)

theorem loopTurn_resident {r : RelayBootloader} (hresident : r.boot.resident = true)
    (turn : Turn) :
    r.loopTurn turn =
      if turn.elapsed && idleTimeoutTicks ≤ r.ticked turn.elapsed then
        { r with idleTicks := r.ticked turn.elapsed }.leave
      else
        (if turn.elapsed && partialFrameResetTicks ≤ r.ticked turn.elapsed &&
            r.framer.hasPartialFrame then
          { r with framer := r.framer.reset, idleTicks := r.ticked turn.elapsed }
        else { r with idleTicks := r.ticked turn.elapsed }).receive turn.value := by
  obtain ⟨elapsed, value⟩ := turn
  have hstay : ¬ (!r.boot.resident) = true := by rw [hresident]; exact Bool.false_ne_true
  rw [loopTurn, if_neg hstay]
  cases elapsed <;> cases value <;> rfl

/-- The bootloader gives up, or it goes on with what it has gathered or without it. -/
theorem loopTurn_cases {r : RelayBootloader} (hresident : r.boot.resident = true) (turn : Turn) :
    r.loopTurn turn = { r with idleTicks := r.ticked turn.elapsed }.leave ∨
    ∃ framer, (framer = r.framer ∨ framer = r.framer.reset) ∧ r.loopTurn turn =
      { r with framer, idleTicks := r.ticked turn.elapsed }.receive turn.value := by
  rw [loopTurn_resident hresident]
  split_ifs
  · exact .inl rfl
  · exact .inr ⟨_, .inr rfl, rfl⟩
  · exact .inr ⟨_, .inl rfl, rfl⟩

/-! ### Whatever happens in the turns -/

theorem mem_ofFrame {frame : List Byte} {target : BitVec 16} {order : Order}
    (h : .packet target order ∈ Heard.ofFrame frame) :
    Heard.ofFrame frame = [.packet target order] := by
  cases hord : Order.ofFrame frame with
  | none =>
      rw [Heard.ofFrame, hord] at h
      exact absurd h List.not_mem_nil
  | some order' =>
      rw [Heard.ofFrame, hord] at h ⊢
      rw [List.mem_singleton.mp h]
      rfl

/-- The packets are valid frames somewhere in the bytes. -/
def LayIn (bytes : List Byte) (heard : List Heard) : Prop :=
  ∀ target order, .packet target order ∈ heard → ∃ frame, frame <:+: bytes ∧
    PacketFramer.ValidPacket false frame ∧ Heard.ofFrame frame = [.packet target order]

theorem layIn_nil (bytes : List Byte) : LayIn bytes [] :=
  fun _ _ hmem => absurd hmem List.not_mem_nil

theorem LayIn.append {bytes bytes' : List Byte} {heard more : List Heard}
    (h : LayIn bytes heard) (hlonger : bytes <+: bytes') (hmore : LayIn bytes' more) :
    LayIn bytes' (heard ++ more) := by
  intro target order hmem
  rcases List.mem_append.mp hmem with hmem | hmem
  · obtain ⟨frame, hframe, hvalid⟩ := h target order hmem
    exact ⟨frame, hframe.trans hlonger.isInfix, hvalid⟩
  · exact hmore target order hmem

/-- From `r` on, these bytes have brought the bootloader to `s`. -/
structure Reaches (r s : RelayBootloader) (bytes : List Byte) (heard : List Heard) : Prop where
  listening : s.Listening
  after : r.After s heard
  fed : s.boot.resident = true → s.framer.pending <:+ bytes
  packets : LayIn bytes heard

theorem Reaches.leave {r s : RelayBootloader} {bytes bytes' : List Byte} {heard : List Heard}
    (h : r.Reaches s bytes heard) (hresident : s.boot.resident = true)
    (hlonger : bytes <+: bytes') (idleTicks : BitVec 16) :
    r.Reaches { s with idleTicks }.leave bytes' (heard ++ [.silence]) := by
  have hleft : { s with idleTicks }.leave.boot.resident = false := rfl
  have hticked : r.After { s with idleTicks } heard := h.after
  have hlistening : { s with idleTicks }.Listening := ⟨h.listening.1, h.listening.2⟩
  refine ⟨hlistening.of_line (leave_line _), ?_, ?_, ?_⟩
  · exact hticked.trans (leave_after hresident)
  · intro hstays
    rw [hleft] at hstays
    exact absurd hstays Bool.false_ne_true
  · apply h.packets.append hlonger
    intro target order hmem
    cases List.mem_singleton.mp hmem

theorem Reaches.tick {r s : RelayBootloader} {bytes : List Byte} {heard : List Heard}
    (h : r.Reaches s bytes heard) {framer : PacketFramer}
    (hframer : framer = s.framer ∨ framer = s.framer.reset) (idleTicks : BitVec 16) :
    r.Reaches { s with framer, idleTicks } bytes heard := by
  rcases hframer with rfl | rfl
  · exact ⟨⟨h.listening.1, h.listening.2⟩, h.after, h.fed, h.packets⟩
  · refine ⟨h.listening.reset idleTicks, h.after, ?_, h.packets⟩
    intro _
    have hempty : s.framer.reset.pending = [] := PacketFramer.pending_of_empty rfl
    change s.framer.reset.pending <:+ bytes
    rw [hempty]
    exact List.nil_suffix

theorem Reaches.receiveByte {r s : RelayBootloader} {bytes : List Byte} {heard : List Heard}
    (h : r.Reaches s bytes heard) (hresident : s.boot.resident = true) (value : Byte) :
    ∃ more, r.Reaches (s.receiveByte value) (bytes ++ [value]) (heard ++ more) := by
  have hfed : s.framer.pending ++ [value] <:+ bytes ++ [value] :=
    List.suffix_append_self_iff.mpr (h.fed hresident)
  obtain ⟨-, hsuffix, -⟩ := EdgeFrameReceiver.pushByte_pending h.listening.wellFormed value
  have hgathered : (s.gather value).framer.pending <:+ bytes ++ [value] := hsuffix.trans hfed
  have hafter : r.After (s.gather value) heard := h.after
  rcases receiveByte_cases h.listening value with ⟨-, hgather⟩ | ⟨frame, -, hvalid, rfl, -, hhandle⟩
  · refine ⟨[], ?_⟩
    rw [hgather, List.append_nil]
    refine ⟨h.listening.gather value, hafter, fun _ => hgathered, ?_⟩
    rw [← List.append_nil heard]
    exact h.packets.append (List.prefix_append _ _) (layIn_nil _)
  · have hstays : (s.gather value).boot.resident = true := hresident
    have hline := (s.gather value).handleFrame_line (s.framer.pending ++ [value])
    refine ⟨Heard.ofFrame (s.framer.pending ++ [value]), ?_⟩
    rw [hhandle]
    refine ⟨(h.listening.gather value).of_line hline,
      hafter.trans (handleFrame_after hstays hvalid), ?_, ?_⟩
    · intro _
      rw [(line_eq hline).1]
      exact hgathered
    · apply h.packets.append (List.prefix_append _ _)
      intro target order hmem
      exact ⟨_, hfed.isInfix, hvalid, mem_ofFrame hmem⟩

theorem Reaches.loopTurn {r s : RelayBootloader} {bytes : List Byte} {heard : List Heard}
    (h : r.Reaches s bytes heard) (turn : Turn) :
    ∃ more, r.Reaches (s.loopTurn turn) (bytes ++ turn.value.toList) (heard ++ more) := by
  have hlonger : bytes <+: bytes ++ turn.value.toList := List.prefix_append _ _
  by_cases hresident : s.boot.resident = true
  · rcases loopTurn_cases hresident turn with hleave | ⟨framer, hframer, hturn⟩
    · rw [hleave]
      exact ⟨_, h.leave hresident hlonger _⟩
    · have hticked := h.tick hframer (s.ticked turn.elapsed)
      rw [hturn]
      cases turn.value with
      | none =>
          refine ⟨[], ?_⟩
          rw [Option.toList_none, List.append_nil, List.append_nil]
          exact hticked
      | some value => exact hticked.receiveByte hresident value
  · have hleft : s.loopTurn turn = s := loopTurn_left (Bool.not_eq_true _ ▸ hresident) turn
    refine ⟨[], ?_⟩
    rw [hleft]
    refine ⟨h.listening, ?_, fun hstays => absurd hstays hresident,
      h.packets.append hlonger (layIn_nil _)⟩
    rw [List.append_nil]
    exact h.after

theorem init_reaches (assignedIndex : BitVec 16) (flash : ℕ → Byte) (turns : List Turn) :
    ∃ heard, (init assignedIndex flash).Reaches (run assignedIndex flash turns)
      (turns.filterMap Turn.value) heard := by
  induction turns using List.reverseRecOn with
  | nil =>
      refine ⟨[], ⟨PacketFramer.init_wellFormed false, rfl⟩, After.refl _, ?_, layIn_nil _⟩
      intro _
      exact List.nil_suffix
  | append_singleton turns turn ih =>
      obtain ⟨heard, hreaches⟩ := ih
      obtain ⟨more, hnext⟩ := hreaches.loopTurn turn
      have hbytes : (turns ++ [turn]).filterMap Turn.value =
          turns.filterMap Turn.value ++ turn.value.toList := by
        rw [List.filterMap_append]
        cases hvalue : turn.value <;> simp [hvalue]
      refine ⟨heard ++ more, ?_⟩
      rw [run, List.foldl_append, hbytes]
      exact hnext

/-! ### Packets that keep to the timing -/

/-- A byte after some turns without one; each of these turns may have seen the timer overflow. -/
structure Arriving where
  before : List Bool
  elapsed : Bool
  value : Byte

def quietTurns (flags : List Bool) : List Turn := flags.map fun elapsed => ⟨elapsed, none⟩

namespace Arriving

def ticks (b : Arriving) : ℕ := b.before.count true + [b.elapsed].count true

def turns (b : Arriving) : List Turn := quietTurns b.before ++ [⟨b.elapsed, some b.value⟩]

end Arriving

theorem toNat_ticked {r : RelayBootloader} {elapsed : Bool}
    (h : r.idleTicks.toNat + [elapsed].count true < 65536) :
    (r.ticked elapsed).toNat = r.idleTicks.toNat + [elapsed].count true := by
  cases elapsed with
  | false => rfl
  | true =>
      have hone : [true].count true = 1 := rfl
      rw [hone] at h ⊢
      change (r.idleTicks + 1).toNat = _
      rw [BitVec.toNat_add]
      exact Nat.mod_eq_of_lt h

/-- Not long enough to give up, and not within a frame or not long enough to drop it. -/
def InTime (r : RelayBootloader) (ticks : ℕ) : Prop :=
  r.idleTicks.toNat + ticks < 900 ∧
    (r.framer.hasPartialFrame = true → r.idleTicks.toNat + ticks < 2)

theorem loopTurn_inTime {r : RelayBootloader} (hresident : r.boot.resident = true) {turn : Turn}
    (htime : r.InTime ([turn.elapsed].count true)) :
    r.loopTurn turn = { r with idleTicks := r.ticked turn.elapsed }.receive turn.value := by
  obtain ⟨hlate, hstale⟩ := htime
  have hticks := toNat_ticked (hlate.trans (by decide))
  have hstays : ¬ (turn.elapsed && idleTimeoutTicks ≤ r.ticked turn.elapsed) = true := by
    rw [Bool.and_eq_true, decide_eq_true_eq, BitVec.le_def, hticks]
    intro hleave
    exact absurd hleave.2 (by change ¬ 900 ≤ _; omega)
  have hkeeps : ¬ (turn.elapsed && partialFrameResetTicks ≤ r.ticked turn.elapsed &&
      r.framer.hasPartialFrame) = true := by
    rw [Bool.and_eq_true, Bool.and_eq_true, decide_eq_true_eq, BitVec.le_def, hticks]
    intro hdrop
    have hshort := hstale hdrop.2
    exact absurd hdrop.1.2 (by change ¬ 2 ≤ _; omega)
  rw [loopTurn_resident hresident, if_neg hstays, if_neg hkeeps]

theorem foldl_left {r : RelayBootloader} (hleft : r.boot.resident = false) (turns : List Turn) :
    turns.foldl loopTurn r = r := by
  induction turns with
  | nil => rfl
  | cons turn turns ih => rw [List.foldl_cons, loopTurn_left hleft, ih]

/-- Turns without a byte only count the overflows. -/
theorem foldl_quietTurns {r : RelayBootloader} (hresident : r.boot.resident = true)
    {flags : List Bool} (htime : r.InTime (flags.count true)) :
    ∃ idleTicks, idleTicks.toNat = r.idleTicks.toNat + flags.count true ∧
      (quietTurns flags).foldl loopTurn r = { r with idleTicks } := by
  induction flags generalizing r with
  | nil => exact ⟨r.idleTicks, rfl, rfl⟩
  | cons elapsed flags ih =>
      obtain ⟨hlate, hstale⟩ := htime
      have hcount : (elapsed :: flags).count true = [elapsed].count true + flags.count true := by
        rw [← List.singleton_append, List.count_append]
      rw [hcount] at hlate hstale ⊢
      have hticks : (r.ticked elapsed).toNat = r.idleTicks.toNat + [elapsed].count true :=
        toNat_ticked (by omega)
      have hturn : r.loopTurn ⟨elapsed, none⟩ = { r with idleTicks := r.ticked elapsed } := by
        apply loopTurn_inTime hresident
        refine ⟨by dsimp only; omega, fun hpartial => ?_⟩
        have hshort := hstale hpartial
        dsimp only
        omega
      have hrest : { r with idleTicks := r.ticked elapsed }.InTime (flags.count true) := by
        refine ⟨by dsimp only; omega, fun hpartial => ?_⟩
        have hshort := hstale hpartial
        dsimp only
        omega
      have hstays : { r with idleTicks := r.ticked elapsed }.boot.resident = true := hresident
      obtain ⟨idleTicks, hidle, hfold⟩ := ih hstays hrest
      refine ⟨idleTicks, ?_, ?_⟩
      · dsimp only at hidle
        omega
      · rw [quietTurns, List.map_cons, List.foldl_cons, hturn]
        exact hfold

/-- Long enough without a byte, the bootloader gives up. -/
theorem foldl_silence {r : RelayBootloader} (hresident : r.boot.resident = true)
    (hwhole : r.framer.hasPartialFrame = false) {flags : List Bool}
    (hnot : r.idleTicks.toNat < 900) (hlong : 900 ≤ r.idleTicks.toNat + flags.count true) :
    ∃ idleTicks, (quietTurns flags).foldl loopTurn r = { r with idleTicks }.leave := by
  induction flags generalizing r with
  | nil => exact absurd hlong (by rw [List.count_nil]; omega)
  | cons elapsed flags ih =>
      have hcount : (elapsed :: flags).count true = [elapsed].count true + flags.count true := by
        rw [← List.singleton_append, List.count_append]
      rw [hcount] at hlong
      rw [quietTurns, List.map_cons, List.foldl_cons]
      by_cases hnow : r.idleTicks.toNat + [elapsed].count true < 900
      · have hticks := toNat_ticked (hnow.trans (by decide))
        have hturn : r.loopTurn ⟨elapsed, none⟩ = { r with idleTicks := r.ticked elapsed } := by
          apply loopTurn_inTime hresident
          refine ⟨hnow, fun hpartial => ?_⟩
          rw [hwhole] at hpartial
          exact absurd hpartial Bool.false_ne_true
        have hstays : { r with idleTicks := r.ticked elapsed }.boot.resident = true := hresident
        rw [hturn]
        exact ih hstays hwhole (by dsimp only; omega) (by dsimp only; omega)
      · refine ⟨r.ticked elapsed, ?_⟩
        have hticks : (r.ticked elapsed).toNat = r.idleTicks.toNat + [elapsed].count true := by
          apply toNat_ticked
          have hone := List.count_le_length (a := true) (l := [elapsed])
          rw [List.length_singleton] at hone
          omega
        have hturn : r.loopTurn ⟨elapsed, none⟩ =
            { r with idleTicks := r.ticked elapsed }.leave := by
          rw [loopTurn_resident hresident, if_pos]
          rw [Bool.and_eq_true, decide_eq_true_eq, BitVec.le_def, hticks]
          refine ⟨?_, Nat.not_lt.mp hnow⟩
          cases elapsed with
          | false => exact absurd hnot hnow
          | true => rfl
        rw [hturn]
        exact foldl_left rfl _

/-- The byte of an arrival in time is read with nothing dropped. -/
theorem foldl_arriving {r : RelayBootloader} (hresident : r.boot.resident = true) {b : Arriving}
    (htime : r.InTime b.ticks) : b.turns.foldl loopTurn r = r.receiveByte b.value := by
  obtain ⟨hlate, hstale⟩ := htime
  unfold Arriving.ticks at hlate hstale
  have hbefore : r.InTime (b.before.count true) := by
    refine ⟨by omega, fun hpartial => ?_⟩
    have hshort := hstale hpartial
    omega
  obtain ⟨idleTicks, hidle, hfold⟩ := foldl_quietTurns hresident hbefore
  have hstays : { r with idleTicks }.boot.resident = true := hresident
  have hturn : { r with idleTicks }.loopTurn ⟨b.elapsed, some b.value⟩ =
      { r with idleTicks := { r with idleTicks }.ticked b.elapsed }.receive (some b.value) := by
    apply loopTurn_inTime hstays
    refine ⟨by dsimp only; omega, fun hpartial => ?_⟩
    have hshort := hstale hpartial
    dsimp only
    omega
  rw [Arriving.turns, List.foldl_append, hfold, List.foldl_cons, List.foldl_nil, hturn]
  rfl

/-- A first byte in time, and the others without a pause. -/
structure Steady (r : RelayBootloader) (bytes : List Arriving) : Prop where
  first : ∀ b ∈ bytes.head?, r.InTime b.ticks
  others : ∀ b ∈ bytes.tail, b.ticks < 2

theorem Steady.gather {r : RelayBootloader} {b : Arriving} {bs : List Arriving}
    (h : r.Steady (b :: bs)) (value : Byte) : (r.gather value).Steady bs := by
  refine ⟨fun c hc => ?_, fun c hc => h.others c (List.mem_of_mem_tail hc)⟩
  have hshort := h.others c (List.mem_of_mem_head? hc)
  have hzero : (r.gather value).idleTicks.toNat = 0 := rfl
  refine ⟨by omega, fun _ => by omega⟩

/-- The framer after bytes of which none completes a frame. -/
theorem foldl_gathered {r : RelayBootloader} (hr : r.Listening) (hresident : r.boot.resident = true)
    {bytes : List Arriving} {q : List Byte} (hsteady : r.Steady bytes)
    (hgathers : (PacketFramer.packetCode false).run r.framer.pending
      ((bytes.map Arriving.value).map .letter) = List.replicate bytes.length none)
    (hafter : (PacketFramer.packetCode false).after r.framer.pending
      ((bytes.map Arriving.value).map .letter) = q) :
    ∃ s, (bytes.flatMap Arriving.turns).foldl loopTurn r = s ∧ s.Listening ∧
      s.framer.pending = q ∧ r.After s [] ∧ s.boot.resident = true ∧
      ∀ b, r.Steady (bytes ++ [b]) → s.InTime b.ticks := by
  induction bytes generalizing r with
  | nil => exact ⟨r, rfl, hr, hafter, After.refl r, hresident, fun b h => h.first b rfl⟩
  | cons b bs ih =>
      obtain ⟨-, hversion, hpush⟩ := PacketFramer.handle_letter_refines hr.wellFormed b.value
      rw [hr.version] at hpush
      simp only [List.map_cons, Code.run, Code.after, List.length_cons, List.replicate_succ,
        ← hpush, List.cons.injEq] at hgathers hafter
      obtain ⟨hnone, hrest⟩ := hgathers
      have hbyte : b.turns.foldl loopTurn r = r.gather b.value := by
        rw [foldl_arriving hresident (hsteady.first b rfl)]
        rcases receiveByte_cases hr b.value with ⟨-, hgather⟩ | ⟨frame, hsome, -⟩
        · exact hgather
        · rw [hnone] at hsome
          exact absurd hsome.symm (Option.some_ne_none frame)
      have hstays : (r.gather b.value).boot.resident = true := hresident
      obtain ⟨s, hfold, hlistening, hpending, hnothing, hresident', hlast⟩ :=
        ih (hr.gather b.value) hstays (hsteady.gather b.value) hrest hafter
      have hgathered : r.After (r.gather b.value) [] := After.refl r
      refine ⟨s, ?_, hlistening, hpending, hgathered.trans hnothing, hresident', fun c hc => ?_⟩
      · rw [List.flatMap_cons, List.foldl_append, hbyte, hfold]
      · exact hlast c (hc.gather b.value)

/-- Nothing is pending, so a packet can begin. -/
structure Rested (r : RelayBootloader) : Prop where
  listening : r.Listening
  quiet : r.boot.resident = true → r.framer.pending = [] ∧ r.idleTicks = 0

theorem Rested.whole {r : RelayBootloader} (hr : r.Rested) (hresident : r.boot.resident = true) :
    r.framer.hasPartialFrame = false :=
  EdgeFrameReceiver.hasPartialFrame_of_pending_nil (hr.quiet hresident).1

theorem Rested.inTime {r : RelayBootloader} (hr : r.Rested) (hresident : r.boot.resident = true)
    {ticks : ℕ} (hticks : ticks < 900) : r.InTime ticks := by
  have hzero : r.idleTicks.toNat = 0 := by rw [(hr.quiet hresident).2]; rfl
  refine ⟨by omega, fun hpartial => ?_⟩
  rw [hr.whole hresident] at hpartial
  exact absurd hpartial Bool.false_ne_true

/-- The last byte of a word completes it. -/
theorem push_last {q : List Byte} {value : Byte}
    (hword : (PacketFramer.packetCode false).IsWord (q ++ [value])) :
    (PacketFramer.packetCode false).run [] (q.map .letter) = List.replicate q.length none ∧
      (PacketFramer.packetCode false).after [] (q.map .letter) = q ∧
      ((PacketFramer.packetCode false).push q (.letter value)).2 = some (q ++ [value]) := by
  have hlength := hword.length_eq
  rw [List.length_append, List.length_singleton] at hlength
  obtain ⟨hrun, hafter⟩ := (PacketFramer.packetCode false).run_gather [] q value (by
    rw [List.nil_append]
    omega)
  rw [List.nil_append] at hafter
  refine ⟨hrun, hafter, ?_⟩
  have hreports := ((PacketFramer.packetCode false).run_word _ hword).1
  rw [List.map_append, Code.run_append, hrun, hafter, List.length_append, List.length_singleton,
    Nat.add_sub_cancel] at hreports
  exact (List.cons.inj (List.append_cancel_left hreports)).1

/-- A whole packet is handled. -/
theorem foldl_packet {r : RelayBootloader} (hr : r.Rested) (hresident : r.boot.resident = true)
    {bytes : List Arriving}
    (hvalid : PacketFramer.ValidPacket false (bytes.map Arriving.value))
    (hfirst : ∀ b ∈ bytes.head?, b.ticks < 900) (hothers : ∀ b ∈ bytes.tail, b.ticks < 2) :
    r.After ((bytes.flatMap Arriving.turns).foldl loopTurn r)
        (Heard.ofFrame (bytes.map Arriving.value)) ∧
      ((bytes.flatMap Arriving.turns).foldl loopTurn r).Rested := by
  have hword := (PacketFramer.isWord_iff_validPacket _ _).mpr hvalid
  have hsteady : r.Steady bytes :=
    ⟨fun b hb => hr.inTime hresident (hfirst b hb), hothers⟩
  have hpending := (hr.quiet hresident).1
  obtain ⟨bs, b, rfl⟩ : ∃ bs b, bytes = bs ++ [b] := by
    have hne : bytes ≠ [] := by
      rintro rfl
      exact hword.ne_nil rfl
    exact ⟨bytes.dropLast, bytes.getLast hne, (List.dropLast_append_getLast hne).symm⟩
  have hfront : r.Steady bs := by
    refine ⟨fun c hc => ?_, fun c hc => ?_⟩
    · apply hsteady.first c
      rw [List.head?_append, Option.mem_def.mp hc]
      rfl
    · apply hsteady.others c
      cases bs with
      | nil => cases hc
      | cons d ds => exact List.mem_append_left _ hc
  rw [List.map_append, List.map_singleton] at hword ⊢
  obtain ⟨hrun, hafter, hpush⟩ := push_last hword
  rw [List.length_map] at hrun
  rw [← hpending] at hrun hafter
  obtain ⟨s, hfold, hlistening, hgathered, hnothing, hstays, hlast⟩ :=
    foldl_gathered hr.listening hresident hfront hrun hafter
  have hbyte := foldl_arriving hstays (hlast b hsteady)
  rw [List.flatMap_append, List.flatMap_singleton, List.foldl_append, hfold, hbyte]
  obtain ⟨-, hversion, hrefines⟩ :=
    PacketFramer.handle_letter_refines hlistening.wellFormed b.value
  rw [hlistening.version, hgathered] at hrefines
  rcases receiveByte_cases hlistening b.value with ⟨hnone, -⟩ |
    ⟨frame, -, hframe, hwhole, hempty, hhandle⟩
  · rw [← hrefines, hnone] at hpush
    exact absurd hpush.symm (Option.some_ne_none _)
  · rw [hgathered] at hwhole
    have hstays' : (s.gather b.value).boot.resident = true := hstays
    have hline := (s.gather b.value).handleFrame_line frame
    have hgather : r.After (s.gather b.value) [] := hnothing
    have hafter' := hgather.trans (handleFrame_after hstays' hframe)
    rw [hhandle, ← hwhole]
    refine ⟨hafter', (hlistening.gather b.value).of_line hline, fun _ => ?_⟩
    obtain ⟨hframer, hticks, -⟩ := line_eq hline
    rw [hframer, hticks]
    exact ⟨hempty, rfl⟩

/-- A byte that no packet begins with is passed over. -/
theorem foldl_noise {r : RelayBootloader} (hr : r.Rested) (hresident : r.boot.resident = true)
    {b : Arriving} (hnoise : PacketType.ofByte b.value = none) (hticks : b.ticks < 900) :
    r.After (b.turns.foldl loopTurn r) [] ∧ (b.turns.foldl loopTurn r).Rested := by
  have hskip := (PacketFramer.noise_iff false (.letter b.value)).mp hnoise
  obtain ⟨-, -, hpush⟩ := PacketFramer.handle_letter_refines hr.listening.wellFormed b.value
  rw [hr.listening.version, (hr.quiet hresident).1, Code.push_noise _ _ hskip] at hpush
  obtain ⟨hpending, hreport⟩ := Prod.mk.inj hpush
  rw [foldl_arriving hresident (hr.inTime hresident hticks)]
  rcases receiveByte_cases hr.listening b.value with ⟨-, hgather⟩ | ⟨frame, hsome, -⟩
  · have hgathered : r.After (r.gather b.value) [] := After.refl r
    rw [hgather]
    exact ⟨hgathered, hr.listening.gather b.value, fun _ => ⟨hpending, rfl⟩⟩
  · rw [hreport] at hsome
    exact absurd hsome.symm (Option.some_ne_none frame)

/-- The turns hold these packets and silences, and between them bytes that no packet begins with. -/
inductive Carries : List Turn → List Heard → Prop
  | quiet {flags : List Bool} (hshort : flags.count true < 900) : Carries (quietTurns flags) []
  | noise {b : Arriving} {turns : List Turn} {heard : List Heard}
      (hnoise : PacketType.ofByte b.value = none) (hticks : b.ticks < 900)
      (hrest : Carries turns heard) : Carries (b.turns ++ turns) heard
  | packet {bytes : List Arriving} {turns : List Turn} {heard : List Heard}
      (hvalid : PacketFramer.ValidPacket false (bytes.map Arriving.value))
      (hfirst : ∀ b ∈ bytes.head?, b.ticks < 900) (hothers : ∀ b ∈ bytes.tail, b.ticks < 2)
      (hrest : Carries turns heard) :
      Carries (bytes.flatMap Arriving.turns ++ turns)
        (Heard.ofFrame (bytes.map Arriving.value) ++ heard)
  | silence {flags : List Bool} {turns : List Turn} {heard : List Heard}
      (hlong : 900 ≤ flags.count true) (hrest : Carries turns heard) :
      Carries (quietTurns flags ++ turns) (.silence :: heard)

theorem after_left {r : RelayBootloader} (hleft : r.boot.resident = false) (heard : List Heard) :
    r.After r heard := by
  have hdevice : r.device.boot.resident = false := hleft
  refine ⟨?_, rfl⟩
  rw [Device.hears_left hdevice, List.append_nil]

theorem after_of_resident {r : RelayBootloader} {turns : List Turn} {heard : List Heard}
    (h : r.boot.resident = true → r.After (turns.foldl loopTurn r) heard) :
    r.After (turns.foldl loopTurn r) heard := by
  cases hresident : r.boot.resident with
  | false =>
      rw [foldl_left hresident]
      exact after_left hresident heard
  | true => exact h hresident

theorem Rested.leave {r : RelayBootloader} (hr : r.Rested) (idleTicks : BitVec 16) :
    { r with idleTicks }.leave.Rested := by
  have hlistening : { r with idleTicks }.Listening := ⟨hr.listening.1, hr.listening.2⟩
  exact ⟨hlistening.of_line (leave_line _), fun hstays => absurd hstays Bool.false_ne_true⟩

theorem Carries.after {turns : List Turn} {heard : List Heard} (h : Carries turns heard)
    {r : RelayBootloader} (hr : r.Rested) : r.After (turns.foldl loopTurn r) heard := by
  induction h generalizing r with
  | quiet hshort =>
      apply after_of_resident
      intro hresident
      obtain ⟨idleTicks, -, hfold⟩ := foldl_quietTurns hresident (hr.inTime hresident hshort)
      rw [hfold]
      exact After.refl r
  | noise hnoise hticks hrest ih =>
      apply after_of_resident
      intro hresident
      obtain ⟨hnothing, hrested⟩ := foldl_noise hr hresident hnoise hticks
      rw [List.foldl_append]
      exact hnothing.trans (ih hrested)
  | packet hvalid hfirst hothers hrest ih =>
      apply after_of_resident
      intro hresident
      obtain ⟨hheard, hrested⟩ := foldl_packet hr hresident hvalid hfirst hothers
      rw [List.foldl_append]
      exact hheard.trans (ih hrested)
  | @silence flags turns heard hlong hrest ih =>
      apply after_of_resident
      intro hresident
      have hzero : r.idleTicks.toNat = 0 := by rw [(hr.quiet hresident).2]; rfl
      have hlate : 900 ≤ r.idleTicks.toNat + flags.count true := by omega
      obtain ⟨idleTicks, hfold⟩ :=
        foldl_silence hresident (hr.whole hresident) (by omega) hlate
      have hticked : r.After { r with idleTicks } [] := After.refl r
      have hstays : { r with idleTicks }.boot.resident = true := hresident
      rw [List.foldl_append, hfold]
      exact (hticked.trans (leave_after hstays)).trans (ih (hr.leave idleTicks))

theorem init_rested (assignedIndex : BitVec 16) (flash : ℕ → Byte) :
    (init assignedIndex flash).Rested :=
  ⟨⟨PacketFramer.init_wellFormed false, rfl⟩, fun _ => ⟨rfl, rfl⟩⟩

end RelayBootloader

open RelayBootloader in
/-- In every run the bootloader does what some packets and silences do to it, and the packets lay on
the line as valid frames. If the turns carry packets in time, it does what these do. A packet
lies on the line as a valid frame that is understood as it was meant. -/
theorem relayBootloader_onTheWire (assignedIndex : BitVec 16) (flash : ℕ → Byte) :
    let booted : Device := ⟨.init flash, bootloaderProtocolVersion⟩
    (∀ turns, ∃ heard, LayIn (turns.filterMap Turn.value) heard ∧
      ((run assignedIndex flash turns).device, (run assignedIndex flash turns).replies) =
        booted.hears assignedIndex heard) ∧
    (∀ turns heard, Carries turns heard →
      ((run assignedIndex flash turns).device, (run assignedIndex flash turns).replies) =
        booted.hears assignedIndex heard) ∧
    (∀ target order, order.WellSized → PacketFramer.ValidPacket false (order.frame target) ∧
      Heard.ofFrame (order.frame target) = [.packet target order]) := by
  intro booted
  refine ⟨fun turns => ?_, fun turns heard hcarries => ?_, fun _ _ => Order.frame_heard _⟩
  · obtain ⟨heard, hreaches⟩ := init_reaches assignedIndex flash turns
    exact ⟨heard, hreaches.packets, hreaches.after.1⟩
  · exact (hcarries.after (init_rested assignedIndex flash)).1

open RelayBootloader in
/-- A byte of noise and a ping right after it. -/
def pingedTurns : List Turn :=
  Arriving.turns ⟨[], true, 0xFF⟩ ++
    (((Order.ping.frame 7).map (Arriving.mk [] true)).flatMap Arriving.turns ++
      quietTurns [false, true])

open RelayBootloader in
theorem relayBootloader_onTheWire_pinged :
    (run 7 (fun _ => 0xFF) pingedTurns).replies = [.pong ⟨2, 128, 0x7000⟩] := by
  have hquiet : Carries (quietTurns [false, true]) [] := .quiet (by decide)
  have hbytes : ((Order.ping.frame 7).map (Arriving.mk [] true)).map Arriving.value =
      Order.ping.frame 7 := by
    rw [List.map_map]
    exact List.map_id _
  obtain ⟨hvalid, hheard⟩ := (relayBootloader_onTheWire 7 fun _ => 0xFF).2.2 7 .ping trivial
  rw [← hbytes] at hvalid hheard
  have hping := Carries.packet hvalid (by decide) (by decide) hquiet
  rw [hheard] at hping
  have hnoise : PacketType.ofByte (Arriving.mk [] true 0xFF).value = none := by decide
  have hrun := (relayBootloader_onTheWire 7 fun _ => 0xFF).2.1 pingedTurns _
    (.noise hnoise (by decide) hping)
  exact (Prod.mk.inj hrun).2

end Lightnet.Ota
