import Lightnet.Mirror.PacketMirror
import Lightnet.Playback.SceneTick
import Lightnet.Relay.PacketFramer

/-!
# Animation packets on the wire

A packet is a packed struct behind the header. The controller fills it in and a panel reads it by
the type in the header. With noise between the packets, a panel's framer hands out just the packets
that the scheduler has sent, in their order, so that the panel gets where the packets take it.
-/

namespace Lightnet

open Framing

/-! ### Enumerations -/

/-- The member that a byte stands for. -/
def memberOf {α : Type*} (all : List α) (toByte : α → Byte) (b : Byte) : Option α :=
  all.find? fun a => toByte a = b

def AnimationType.toByte : AnimationType → Byte
  | solid => 0
  | fade => 1
  | transition => 2
  | breathe => 3
  | pulse => 4
  | blink => 5
  | hueCycle => 6
  | strobe => 7
  | reactive => 8
  | gap => 9
  | wave => 64
  | ripple => 65
  | chase => 66
  | wheel => 67
  | bounce => 68
  | rain => 69
  | sparkle => 70
  | matrix => 71

def AnimationType.ofByte : Byte → Option AnimationType :=
  memberOf [solid, fade, transition, breathe, pulse, blink, hueCycle, strobe, reactive, gap, wave,
    ripple, chase, wheel, bounce, rain, sparkle, matrix] toByte

def AnimateTarget.toByte : AnimateTarget → Byte
  | color => 0
  | dim => 1
  | desaturate => 2
  | hue => 3
  | invert => 4
  | brighten => 5
  | saturate => 6

def AnimateTarget.ofByte : Byte → Option AnimateTarget :=
  memberOf [color, dim, desaturate, hue, invert, brighten, saturate] toByte

def AnimationControl.toByte : AnimationControl → Byte
  | stop => 1
  | pause => 2
  | resume => 3
  | clearQueue => 4

def AnimationControl.ofByte : Byte → Option AnimationControl :=
  memberOf [stop, pause, resume, clearQueue] toByte

def AnimationParamType.toByte : AnimationParamType → Byte
  | trigger => 1
  | brightnessMult => 2
  | speedScale => 3

def AnimationParamType.ofByte : Byte → Option AnimationParamType :=
  memberOf [trigger, brightnessMult, speedScale] toByte

def ComposeMode.toByte : ComposeMode → Byte
  | default => 0
  | opaqueTop => 1
  | add => 2
  | max => 3
  | multiply => 4
  | screen => 5
  | darken => 6
  | overlay => 7
  | difference => 8
  | subtract => 9

def ComposeMode.ofByte : Byte → Option ComposeMode :=
  memberOf [default, opaqueTop, add, max, multiply, screen, darken, overlay, difference, subtract]
    toByte

@[simp] theorem AnimationType.ofByte_toByte (t : AnimationType) : ofByte t.toByte = some t := by
  cases t <;> rfl

@[simp] theorem AnimateTarget.ofByte_toByte (t : AnimateTarget) : ofByte t.toByte = some t := by
  cases t <;> rfl

@[simp] theorem AnimationControl.ofByte_toByte (t : AnimationControl) :
    ofByte t.toByte = some t := by
  cases t <;> rfl

@[simp] theorem AnimationParamType.ofByte_toByte (t : AnimationParamType) :
    ofByte t.toByte = some t := by
  cases t <;> rfl

@[simp] theorem ComposeMode.ofByte_toByte (m : ComposeMode) : ofByte m.toByte = some m := by
  cases m <;> rfl

/-! ### The structs behind the header -/

def ColorRGB.bytes (c : ColorRGB) : List Byte := [c.r, c.g, c.b]

def ColorRef.bytes (c : ColorRef) : List Byte := c.kind :: c.raw.bytes

def GradientStop.bytes (s : GradientStop) : List Byte := s.pos :: s.color.bytes

namespace WirePacket

/-- The stops behind the last one stay zero. -/
def paddedStops (stops : List GradientStop) : List GradientStop :=
  (stops ++ List.replicate paletteStops (GradientStop.mk 0 .black)).take paletteStops

def preparePayload (pkt : PacketAnimationPrepare) : List Byte :=
  [pkt.animType.toByte, pkt.groupId, pkt.flags, pkt.transitionMs] ++
    (ReflectedCrc.leBytes 2 pkt.durationMs ++ (pkt.colorFrom.bytes ++ (pkt.colorTo.bytes ++
      ([pkt.param1, pkt.param2, pkt.composeMode.toByte, pkt.composeOrder] ++
        (ReflectedCrc.leBytes 2 pkt.startDelayMs ++ [pkt.animates.toByte])))))

def payload : AnimationPacket → List Byte
  | .prepare pkt => preparePayload pkt
  | .start seqId groupId => [seqId, groupId]
  | .control cmd groupId => [cmd.toByte, groupId]
  | .updateParams seqId groupId paramType value transitionMs =>
    [seqId, groupId, paramType.toByte, value, transitionMs]
  | .setColor color => color.bytes
  | .setPalette stops =>
    u8 (min stops.length paletteStops) :: (paddedStops stops).flatMap GradientStop.bytes
  | .setBaseColors colors => (colors 0).bytes ++ ((colors 1).bytes ++ (colors 2).bytes)
  | .setGlobalBrightness value => [value]
  | .setBackground color => color.bytes
  | .turnOnOff on => [if on then 1 else 0]

/-- The packet as it is stamped for an address. -/
def bytes (address : Byte) (packet : AnimationPacket) : List Byte :=
  frameBytes (PacketMirror.packetType packet) (address.setWidth 16) (payload packet)

/-! ### Reading a struct -/

def byteAt (b : List Byte) (i : ℕ) : Byte := b.getD i 0

def wordAt (b : List Byte) (i : ℕ) : BitVec 16 := le16 (byteAt b i) (byteAt b (i + 1))

def colorAt (b : List Byte) (i : ℕ) : ColorRGB := ⟨byteAt b i, byteAt b (i + 1), byteAt b (i + 2)⟩

def colorRefAt (b : List Byte) (i : ℕ) : ColorRef := ⟨byteAt b i, colorAt b (i + 1)⟩

def stopAt (b : List Byte) (i : ℕ) : GradientStop := ⟨byteAt b i, colorAt b (i + 1)⟩

def readPrepare (b : List Byte) : Option PacketAnimationPrepare := do
  let animType ← AnimationType.ofByte (byteAt b 0)
  let composeMode ← ComposeMode.ofByte (byteAt b 16)
  let animates ← AnimateTarget.ofByte (byteAt b 20)
  some {
    animType
    groupId := byteAt b 1
    flags := byteAt b 2
    transitionMs := byteAt b 3
    durationMs := wordAt b 4
    colorFrom := colorRefAt b 6
    colorTo := colorRefAt b 10
    param1 := byteAt b 14
    param2 := byteAt b 15
    composeMode
    composeOrder := byteAt b 17
    startDelayMs := wordAt b 18
    animates }

/-- The struct is read as the type in the header says. -/
def readPayload (b : List Byte) : PacketType → Option AnimationPacket
  | .animationPrepare => (readPrepare b).map .prepare
  | .animationStart => some (.start (byteAt b 0) (byteAt b 1))
  | .animationControl =>
    (AnimationControl.ofByte (byteAt b 0)).map fun cmd => .control cmd (byteAt b 1)
  | .animationUpdateParams =>
    (AnimationParamType.ofByte (byteAt b 2)).map fun paramType =>
      .updateParams (byteAt b 0) (byteAt b 1) paramType (byteAt b 3) (byteAt b 4)
  | .setColor => some (.setColor (colorAt b 0))
  | .setPalette =>
    some (.setPalette ((List.range (min (byteAt b 0).toNat paletteStops)).map fun i =>
      stopAt b (1 + 4 * i)))
  | .setBaseColors => some (.setBaseColors fun i => colorAt b (3 * i))
  | .setGlobalBrightness => some (.setGlobalBrightness (byteAt b 0))
  | .setBackground => some (.setBackground (colorAt b 0))
  | .turnOnOff => some (.turnOnOff (byteAt b 0 ≠ 0))
  | _ => none

def sizeofPacketMeta : ℕ := 7

/-- The address of a frame and its packet. -/
def read (frame : List Byte) : Option (Byte × AnimationPacket) := do
  let type ← PacketType.ofByte (byteAt frame 0)
  let packet ← readPayload (frame.drop sizeofPacketMeta) type
  some ((wordAt frame 3).setWidth 8, packet)

/-! ### A packet is read as it was sent -/

theorem readPayload_prepare (pkt : PacketAnimationPrepare) :
    readPayload (preparePayload pkt) .animationPrepare = some (.prepare pkt) := by
  have hdelay := le16_leBytes pkt.startDelayMs
  have hduration := le16_leBytes pkt.durationMs
  simp only [readPayload, readPrepare, preparePayload, ColorRef.bytes, ColorRGB.bytes,
    ReflectedCrc.leBytes, List.cons_append, List.nil_append, byteAt, wordAt, colorRefAt, colorAt,
    List.getD_cons_zero, List.getD_cons_succ, AnimationType.ofByte_toByte,
    ComposeMode.ofByte_toByte, AnimateTarget.ofByte_toByte, Option.bind_eq_bind, Option.bind_some,
    Option.map_some, hdelay, hduration]

section
variable (s : GradientStop) (rest : List Byte) (stops : List GradientStop)

theorem stopAt_zero : stopAt (s.bytes ++ rest) (4 * 0) = s := rfl

theorem stopAt_succ (i : ℕ) : stopAt (s.bytes ++ rest) (4 * (i + 1)) = stopAt rest (4 * i) := by
  have hskip : ∀ k, byteAt (s.bytes ++ rest) (k + 4) = byteAt rest k := fun k => rfl
  have hstart : 4 * (i + 1) = 4 * i + 4 := by omega
  simp only [stopAt, colorAt, Nat.add_assoc, hskip, hstart]

/-- The first stops, read one after the other. -/
theorem map_stopAt {n : ℕ} (hn : n ≤ stops.length) :
    ((List.range n).map fun i => stopAt (stops.flatMap GradientStop.bytes) (4 * i)) =
      stops.take n := by
  induction stops generalizing n with
  | nil =>
      rw [List.length_nil, Nat.le_zero] at hn
      subst hn
      rfl
  | cons s stops ih =>
      cases n with
      | zero => rfl
      | succ n =>
          have hrest := ih (Nat.le_of_succ_le_succ hn)
          rw [List.range_succ_eq_map, List.map_cons, List.map_map, List.take_succ_cons,
            List.flatMap_cons, stopAt_zero, ← hrest]
          exact congrArg (s :: ·) (List.map_congr_left fun i _ => stopAt_succ s _ i)

end

/-- A palette has no more stops than the struct has room for. -/
def Fits : AnimationPacket → Prop
  | .setPalette stops => stops.length ≤ paletteStops
  | _ => True

theorem length_paddedStops (stops : List GradientStop) :
    (paddedStops stops).length = paletteStops := by
  rw [paddedStops, List.length_take, List.length_append, List.length_replicate]
  omega

theorem readPayload_setPalette {stops : List GradientStop} (h : stops.length ≤ paletteStops) :
    readPayload (payload (.setPalette stops)) .setPalette = some (.setPalette stops) := by
  have hcount : min (u8 (min stops.length paletteStops)).toNat paletteStops = stops.length := by
    unfold paletteStops at h ⊢
    rw [BitVec.toNat_ofNat]
    omega
  have hskip : ∀ i, stopAt (payload (.setPalette stops)) (1 + 4 * i) =
      stopAt ((paddedStops stops).flatMap GradientStop.bytes) (4 * i) := by
    intro i
    rw [Nat.add_comm]
    simp only [stopAt, colorAt, payload, Nat.add_right_comm (4 * i) 1]
    rfl
  have hfirst : byteAt (payload (.setPalette stops)) 0 =
      u8 (min stops.length paletteStops) := rfl
  have hle : stops.length ≤ (paddedStops stops).length := h.trans_eq (length_paddedStops _).symm
  rw [readPayload, hfirst, hcount]
  simp only [hskip]
  rw [map_stopAt _ hle, paddedStops, List.take_take, Nat.min_eq_left h, List.take_left]

theorem readPayload_payload {packet : AnimationPacket} (h : Fits packet) :
    readPayload (payload packet) (PacketMirror.packetType packet) = some packet := by
  cases packet with
  | prepare pkt => exact readPayload_prepare pkt
  | start seqId groupId => rfl
  | control cmd groupId => cases cmd <;> rfl
  | updateParams seqId groupId paramType value transitionMs => cases paramType <;> rfl
  | setColor color => rfl
  | setPalette stops => exact readPayload_setPalette h
  | setBaseColors colors =>
      have hcolors : (fun i : Fin baseColorsCount =>
          colorAt (payload (.setBaseColors colors)) (3 * i)) = colors := by
        funext i
        fin_cases i <;> rfl
      exact congrArg (fun c => some (AnimationPacket.setBaseColors c)) hcolors
  | setGlobalBrightness value => rfl
  | setBackground color => rfl
  | turnOnOff on => cases on <;> rfl

theorem length_flatMap_bytes (stops : List GradientStop) :
    (stops.flatMap GradientStop.bytes).length = 4 * stops.length := by
  induction stops with
  | nil => rfl
  | cons s stops ih =>
      rw [List.flatMap_cons, List.length_append, ih, List.length_cons]
      change 4 + 4 * stops.length = _
      omega

theorem length_payload (packet : AnimationPacket) :
    7 + (payload packet).length = (PacketMirror.packetType packet).size := by
  cases packet with
  | setPalette stops =>
      change 7 + (((paddedStops stops).flatMap GradientStop.bytes).length + 1) = 72
      rw [length_flatMap_bytes, length_paddedStops]
      rfl
  | _ => rfl

/-- A panel reads the address and the packet that were sent. -/
theorem read_bytes (address : Byte) {packet : AnimationPacket} (h : Fits packet) :
    read (bytes address packet) = some (address, packet) := by
  have htype : byteAt (bytes address packet) 0 = (PacketMirror.packetType packet).toByte := rfl
  have hpayload : (bytes address packet).drop sizeofPacketMeta = payload packet := rfl
  have htarget : wordAt (bytes address packet) 3 = address.setWidth 16 := le16_leBytes _
  have haddress : (address.setWidth 16).setWidth 8 = address := by
    rw [BitVec.setWidth_setWidth_of_le _ (by decide), BitVec.setWidth_eq]
  rw [read, htype, PacketType.ofByte_toByte, hpayload, htarget]
  simp only [Option.bind_eq_bind, Option.bind_some, readPayload_payload h, haddress]

theorem fits_makeSetPalettePacket (stops : List GradientStop) :
    Fits (AnimationScheduler.makeSetPalettePacket stops) := List.length_take_le _ _

/-- Whatever the scheduler is told to send fits its struct. -/
theorem fits_onWire (nextSeqId : Byte) (commands : List AnimationScheduler.Command) :
    ∀ s ∈ onWire nextSeqId commands, Fits s.2 := by
  induction commands generalizing nextSeqId with
  | nil => exact fun s hs => absurd hs List.not_mem_nil
  | cons command commands ih =>
      intro s hs
      rcases List.mem_append.mp hs with hs | hs
      · cases command with
        | sendPrepareToPanel a pkt =>
            rw [List.mem_singleton.mp hs]
            trivial
        | sendGroupStart g =>
            rw [List.eq_of_mem_replicate hs]
            trivial
        | sendControlToPanels g cmd addresses =>
            obtain ⟨a, -, rfl⟩ := List.mem_map.mp hs
            trivial
        | broadcastPalette stops =>
            by_cases hstops : stops = []
            · rw [AnimationScheduler.run, if_pos hstops] at hs
              exact absurd hs List.not_mem_nil
            · rw [AnimationScheduler.run, if_neg hstops] at hs
              rw [List.mem_singleton.mp hs]
              exact fits_makeSetPalettePacket stops
        | unicastPaletteToPanels stops addresses =>
            by_cases hstops : stops = []
            · rw [AnimationScheduler.run, if_pos hstops] at hs
              exact absurd hs List.not_mem_nil
            · rw [AnimationScheduler.run, if_neg hstops] at hs
              obtain ⟨a, -, rfl⟩ := List.mem_map.mp hs
              exact fits_makeSetPalettePacket stops
        | turnOnPanels addresses =>
            obtain ⟨a, -, rfl⟩ := List.mem_map.mp hs
            trivial
        | _ =>
            rw [List.mem_singleton.mp hs]
            trivial
      · exact ih _ s hs

/-! ### Over the wire -/

/-- A packet of the scheduler as it is stamped for the panel it is sent to. -/
def sendBytes (s : Addressed) : List Byte := bytes (u8 s.1) s.2

theorem validPacket_bytes (v : Bool) (address : Byte) (packet : AnimationPacket) :
    PacketFramer.ValidPacket v (bytes address packet) :=
  PacketFramer.validPacket_frameBytes v _ _ _ (length_payload packet)

/-- What a panel reads from the reports of its framer. -/
def readReports (reports : List (Option (List Byte))) : List (Byte × AnimationPacket) :=
  reports.filterMap fun report => report.bind read

theorem readReports_append (reports later : List (Option (List Byte))) :
    readReports (reports ++ later) = readReports reports ++ readReports later :=
  List.filterMap_append

theorem readReports_replicate (n : ℕ) : readReports (List.replicate n none) = [] := by
  induction n with
  | zero => rfl
  | succ n ih => exact ih

theorem readReports_reports {gs : List (Segment Byte)} {sends : List Addressed}
    (hwords : gs.map Segment.word = sends.map sendBytes) (hfits : ∀ s ∈ sends, Fits s.2) :
    readReports (reports gs []) = sends.map fun s => (u8 s.1, s.2) := by
  induction sends generalizing gs with
  | nil =>
      rw [List.map_nil, List.map_eq_nil_iff] at hwords
      subst hwords
      rfl
  | cons s sends ih =>
      cases gs with
      | nil => exact absurd hwords.symm (by simp)
      | cons g gs =>
          rw [List.map_cons, List.map_cons] at hwords
          obtain ⟨hword, hrest⟩ := List.cons.inj hwords
          have hsplit : reports (g :: gs) [] = g.reports ++ reports gs [] := by
            simp [reports]
          have hread : readReports [some g.word] = [(u8 s.1, s.2)] := by
            have hone : read g.word = some (u8 s.1, s.2) := by
              rw [hword]
              exact read_bytes _ (hfits s List.mem_cons_self)
            rw [readReports, List.filterMap_cons, Option.bind_some, hone]
            rfl
          rw [hsplit, readReports_append, Segment.reports, readReports_append,
            readReports_replicate, hread, ih hrest fun t ht => hfits t (List.mem_cons_of_mem _ ht)]
          rfl

/-! ### The panel -/

theorem length_reported (f : PacketFramer) (inputs : List (Input Byte)) :
    (f.run inputs).length = inputs.length := by
  induction inputs generalizing f with
  | nil => rfl
  | cons input inputs ih => exact congrArg (· + 1) (ih _)

/-- A panel hears one input: a byte, or a reset of its framer, at a time. -/
def listen (i : Byte) (p : PacketFramer × LitPanel) (input : Input Byte × Ticks) :
    PacketFramer × LitPanel :=
  let report := (p.1.handle input.1).2
  ((p.1.handle input.1).1, (report.bind read).elim p.2 fun s =>
    PacketMirror.deliver i [⟨s.1, s.2, input.2⟩] p.2)

/-- The packets that were reported, with the times of the reports. -/
def heard : List (Option (List Byte)) → List Ticks → List PacketMirror.Record
  | report :: reports, time :: times =>
    ((report.bind read).map fun s => ⟨s.1, s.2, time⟩).toList ++ heard reports times
  | _, _ => []

theorem map_heard {reports : List (Option (List Byte))} {times : List Ticks}
    (h : reports.length = times.length) :
    (heard reports times).map (fun r => (r.address, r.packet)) = readReports reports := by
  induction reports generalizing times with
  | nil => rfl
  | cons report reports ih =>
      cases times with
      | nil => cases h
      | cons time times =>
          have hrest := ih (Nat.succ.inj h)
          rw [heard, List.map_append, hrest, readReports, readReports, List.filterMap_cons]
          cases report.bind read with
          | none => rfl
          | some s => rfl

theorem listen_foldl (i : Byte) (inputs : List (Input Byte × Ticks)) (f : PacketFramer)
    (p : LitPanel) :
    (inputs.foldl (listen i) (f, p)).2 =
      PacketMirror.deliver i (heard (f.run (inputs.map Prod.fst)) (inputs.map Prod.snd)) p := by
  induction inputs generalizing f p with
  | nil => rfl
  | cons input inputs ih =>
      rw [List.foldl_cons, List.map_cons, List.map_cons, PacketFramer.run, heard,
        PacketMirror.deliver_append]
      change (inputs.foldl (listen i) ((f.handle input.1).1, _)).2 = _
      rw [ih]
      congr 1
      cases ((f.handle input.1).2).bind read with
      | none => rfl
      | some s => rfl

/-- With any noise between the packets, what the scheduler sends takes a panel where the packets
take it, each handled once and in order. -/
theorem listen_onWire (i : Byte) (v : Bool) (p : LitPanel) (nextSeqId : Byte)
    (commands : List AnimationScheduler.Command) {gs : List (Segment Byte)}
    (hgaps : ∀ g ∈ gs, ∀ input ∈ g.gap, PacketFramer.Noise input)
    (hwords : gs.map Segment.word = (onWire nextSeqId commands).map sendBytes)
    {inputs : List (Input Byte × Ticks)} (hinputs : inputs.map Prod.fst = stream gs []) :
    ∃ records, (records.map fun r => (r.address, r.packet)) =
        (onWire nextSeqId commands).map (fun s => (u8 s.1, s.2)) ∧
      (inputs.foldl (listen i) (PacketFramer.init v, p)).2 = PacketMirror.deliver i records p := by
  have hfits := fits_onWire nextSeqId commands
  have hvalid : ∀ g ∈ gs, (PacketFramer.packetCode v).IsWord g.word := by
    intro g hg
    have hword : g.word ∈ (onWire nextSeqId commands).map sendBytes :=
      hwords ▸ List.mem_map_of_mem hg
    obtain ⟨s, hs, hsent⟩ := List.mem_map.mp hword
    rw [PacketFramer.isWord_iff_validPacket, ← hsent]
    exact validPacket_bytes v _ _
  have hreports : (PacketFramer.init v).run (inputs.map Prod.fst) = reports gs [] := by
    have hempty : (PacketFramer.init v).pending = [] := rfl
    rw [(PacketFramer.run_refines (PacketFramer.init_wellFormed v) _).1, hempty, hinputs]
    exact Code.run_complete _ gs
      (fun g hg input hinput => (PacketFramer.noise_iff v input).mp (hgaps g hg input hinput)) hvalid
  have hlength : ((PacketFramer.init v).run (inputs.map Prod.fst)).length =
      (inputs.map Prod.snd).length := by
    rw [length_reported, List.length_map, List.length_map]
  refine ⟨heard ((PacketFramer.init v).run (inputs.map Prod.fst)) (inputs.map Prod.snd), ?_,
    listen_foldl i inputs _ p⟩
  rw [map_heard hlength, hreports, readReports_reports hwords hfits]

/-- A stop behind a stray byte and a reset of the framer. -/
def stopSegment : Segment Byte := ⟨[.letter 0xFF, .reset], sendBytes (0, .control .stop 0)⟩

theorem listen_onWire_stop : ∃ records : List PacketMirror.Record,
    (records.map fun r => (r.address, r.packet)) = [(0, .control .stop 0)] ∧
      (((stream [stopSegment] []).map fun input => (input, (7 : Ticks))).foldl (listen 3)
        (PacketFramer.init true, .init)).2 = PacketMirror.deliver 3 records .init := by
  have hgaps : ∀ g ∈ [stopSegment], ∀ input ∈ g.gap, PacketFramer.Noise input := by
    intro g hg input hinput
    rw [List.mem_singleton.mp hg] at hinput
    rcases List.mem_cons.mp hinput with rfl | hinput
    · change PacketType.ofByte 0xFF = none
      decide
    · rw [List.mem_singleton.mp hinput]
      trivial
  have hinputs : ((stream [stopSegment] []).map fun input => (input, (7 : Ticks))).map Prod.fst =
      stream [stopSegment] [] := by
    rw [List.map_map]
    exact List.map_id _
  exact listen_onWire 3 true .init 1 [.broadcastStop] hgaps rfl hinputs

end WirePacket

end Lightnet
