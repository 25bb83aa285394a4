import Lightnet.Relay.PacketFramer

/-!
# Frames on the controller's trunk

The controller has one port and no claims: its framer is reset when a byte arrives after a pause
in the middle of a frame. Whatever the line has carried before such a pause, bytes that start no
packet are skipped after it and the packet behind them is received. The times are those of the
wall clock in milliseconds; the receiver sees their last 32 bits.
-/

namespace Lightnet

open Framing

structure TrunkFrameReceiver where
  framer : PacketFramer
  lastByteMs : BitVec 32
  deriving DecidableEq

namespace TrunkFrameReceiver

def idleGapResetMs : BitVec 32 := 10

def init (validateProtocolVersion : Bool) : TrunkFrameReceiver := ⟨.init validateProtocolVersion, 0⟩

/-- A stale or truncated frame is discarded before the byte that arrives now. -/
def discardStale (r : TrunkFrameReceiver) (nowMs : BitVec 32) : PacketFramer :=
  if r.framer.hasPartialFrame = true ∧ idleGapResetMs ≤ nowMs - r.lastByteMs then r.framer.reset
  else r.framer

def onByte (r : TrunkFrameReceiver) (value : Byte) (nowMs : BitVec 32) : TrunkFrameReceiver × Bool :=
  let (framer, ready) := (r.discardStale nowMs).pushByte value
  (⟨framer, nowMs⟩, ready)

def frame (r : TrunkFrameReceiver) : List Byte := r.framer.frame

def frameSize (r : TrunkFrameReceiver) : ℕ := r.framer.frameSize

/-- A caller feeds a byte at a time of the wall clock, and reads the frame if one is ready. -/
def handle (r : TrunkFrameReceiver) (b : Byte × ℕ) : TrunkFrameReceiver × Option (List Byte) :=
  let (r, ready) := r.onByte b.1 (BitVec.ofNat 32 b.2)
  (r, if ready then some (r.frame.take r.frameSize) else none)

def run : TrunkFrameReceiver → List (Byte × ℕ) → List (Option (List Byte))
  | _, [] => []
  | r, b :: bs => (r.handle b).2 :: run (r.handle b).1 bs

def after : TrunkFrameReceiver → List (Byte × ℕ) → TrunkFrameReceiver
  | r, [] => r
  | r, b :: bs => after (r.handle b).1 bs

theorem after_append (r : TrunkFrameReceiver) (bs cs : List (Byte × ℕ)) :
    r.after (bs ++ cs) = (r.after bs).after cs := by
  induction bs generalizing r with
  | nil => rfl
  | cons b bs ih => exact ih _

theorem run_append (r : TrunkFrameReceiver) (bs cs : List (Byte × ℕ)) :
    r.run (bs ++ cs) = r.run bs ++ (r.after bs).run cs := by
  induction bs generalizing r with
  | nil => rfl
  | cons b bs ih => exact congrArg (_ :: ·) (ih _)

/-- The pause before the byte, as the wrapping clock shows it. -/
theorem idleGap {last now : ℕ} (hle : last ≤ now) (hlt : now < last + 2 ^ 32) :
    (BitVec.ofNat 32 now - BitVec.ofNat 32 last).toNat = now - last := by
  rw [BitVec.toNat_sub, BitVec.toNat_ofNat, BitVec.toNat_ofNat]
  omega

theorem discardStale_wellFormed {r : TrunkFrameReceiver} (hr : r.framer.WellFormed)
    (nowMs : BitVec 32) : (r.discardStale nowMs).WellFormed := by
  unfold discardStale
  split_ifs
  · exact PacketFramer.wellFormed_of_empty rfl
  · exact hr

theorem discardStale_validateProtocolVersion (r : TrunkFrameReceiver) (nowMs : BitVec 32) :
    (r.discardStale nowMs).validateProtocolVersion = r.framer.validateProtocolVersion := by
  unfold discardStale
  split_ifs <;> rfl

/-- One byte does to the candidate what it does to the receiver of the packet code. -/
theorem handle_refines {r : TrunkFrameReceiver} (hr : r.framer.WellFormed) (b : Byte × ℕ) :
    (r.handle b).1.framer.WellFormed ∧
    (r.handle b).1.framer.validateProtocolVersion = r.framer.validateProtocolVersion ∧
    (r.handle b).1.lastByteMs = BitVec.ofNat 32 b.2 ∧
    ((r.handle b).1.framer.pending, (r.handle b).2) =
      (PacketFramer.packetCode r.framer.validateProtocolVersion).push
        (r.discardStale (BitVec.ofNat 32 b.2)).pending (.letter b.1) := by
  obtain ⟨hwell, hversion, hpush⟩ := PacketFramer.handle_letter_refines
    (discardStale_wellFormed hr (BitVec.ofNat 32 b.2)) b.1
  rw [discardStale_validateProtocolVersion] at hversion hpush
  exact ⟨hwell, hversion, rfl, hpush⟩

theorem after_wellFormed {r : TrunkFrameReceiver} (hr : r.framer.WellFormed)
    (bs : List (Byte × ℕ)) :
    (r.after bs).framer.WellFormed ∧
      (r.after bs).framer.validateProtocolVersion = r.framer.validateProtocolVersion := by
  induction bs generalizing r with
  | nil => exact ⟨hr, rfl⟩
  | cons b bs ih =>
      obtain ⟨hwell, hversion, -⟩ := handle_refines hr b
      obtain ⟨hafter, hsame⟩ := ih hwell
      exact ⟨hafter, hsame.trans hversion⟩

theorem after_lastByteMs (r : TrunkFrameReceiver) {bs : List (Byte × ℕ)} {last : Byte × ℕ}
    (h : bs.getLast? = some last) : (r.after bs).lastByteMs = BitVec.ofNat 32 last.2 := by
  obtain ⟨front, rfl⟩ := List.getLast?_eq_some_iff.mp h
  rw [after_append]
  rfl

/-- A framer that holds no candidate, or one that the next byte comes too late for. -/
theorem discardStale_pending {r : TrunkFrameReceiver} {nowMs : BitVec 32}
    (hr : r.framer.WellFormed)
    (h : r.framer.pending = [] ∨ idleGapResetMs ≤ nowMs - r.lastByteMs) :
    (r.discardStale nowMs).pending = [] := by
  unfold discardStale
  split_ifs with hstale
  · exact PacketFramer.pending_of_empty rfl
  · rcases h with hempty | hlate
    · exact hempty
    · have hwhole : r.framer.hasPartialFrame = false :=
        Bool.eq_false_iff.mpr fun hgathering => hstale ⟨hgathering, hlate⟩
      unfold PacketFramer.pending
      split_ifs with hfull
      · rfl
      · by_contra hne
        have hle := hr.filled_le hne
        have hpos : 0 < r.framer.filled := List.length_pos_iff.mpr hne
        simp only [PacketFramer.hasPartialFrame, Bool.and_eq_false_iff, decide_eq_false_iff_not]
          at hwhole
        omega

/-- Within a frame nothing is discarded. -/
theorem discardStale_steady {r : TrunkFrameReceiver} {nowMs : BitVec 32}
    (h : ¬ idleGapResetMs ≤ nowMs - r.lastByteMs) : r.discardStale nowMs = r.framer :=
  if_neg (fun hstale => h hstale.2)

/-- Two bytes follow each other as in a frame. -/
def Steady (a b : Byte × ℕ) : Prop := a.2 ≤ b.2 ∧ b.2 < a.2 + 10

/-- Bytes that are fed in one go. -/
theorem steady_burst (bytes : List Byte) (now : ℕ) :
    (bytes.map (fun b => (b, now))).IsChain Steady :=
  (List.pairwise_map.mpr (List.pairwise_of_forall fun _ _ =>
    ⟨Nat.le_refl now, Nat.lt_add_of_pos_right (by decide)⟩)).isChain

theorem not_stale_of_steady {a b : Byte × ℕ} (h : Steady a b) :
    ¬ idleGapResetMs ≤ BitVec.ofNat 32 b.2 - BitVec.ofNat 32 a.2 := by
  obtain ⟨hle, hlt⟩ := h
  rw [BitVec.le_def, idleGap hle (by omega)]
  change ¬ 10 ≤ _
  omega

theorem stale_of_gap {a b : Byte × ℕ} (hle : a.2 + 10 ≤ b.2) (hlt : b.2 < a.2 + 2 ^ 32) :
    idleGapResetMs ≤ BitVec.ofNat 32 b.2 - BitVec.ofNat 32 a.2 := by
  rw [BitVec.le_def, idleGap (by omega) hlt]
  change 10 ≤ _
  omega

/-- From one byte of a frame on, the others are gathered as the packet code gathers them. -/
theorem run_steady {r : TrunkFrameReceiver} (hr : r.framer.WellFormed) {a : Byte × ℕ}
    {bs : List (Byte × ℕ)} (hlast : r.lastByteMs = BitVec.ofNat 32 a.2)
    (hsteady : List.IsChain Steady (a :: bs)) :
    r.run bs = (PacketFramer.packetCode r.framer.validateProtocolVersion).run r.framer.pending
      ((bs.map Prod.fst).map .letter) := by
  induction bs generalizing r a with
  | nil => rfl
  | cons b bs ih =>
      obtain ⟨hstep, hrest⟩ := List.isChain_cons_cons.mp hsteady
      obtain ⟨hwell, hversion, hmoved, hpush⟩ := handle_refines hr b
      have hkept : r.discardStale (BitVec.ofNat 32 b.2) = r.framer := by
        apply discardStale_steady
        rw [hlast]
        exact not_stale_of_steady hstep
      rw [hkept] at hpush
      rw [run, ih hwell hmoved hrest, hversion, List.map_cons, List.map_cons, Code.run, ← hpush]

/-- Bytes that start no packet leave a framer without a candidate as it is. -/
theorem run_noise {r : TrunkFrameReceiver} (hr : r.framer.WellFormed) {bs : List (Byte × ℕ)}
    (hnoise : ∀ b ∈ bs, PacketType.ofByte b.1 = none)
    (hempty : ∀ b ∈ bs.head?, (r.discardStale (BitVec.ofNat 32 b.2)).pending = []) :
    r.run bs = List.replicate bs.length none ∧
      (bs ≠ [] → (r.after bs).framer.pending = []) := by
  induction bs generalizing r with
  | nil => exact ⟨rfl, fun h => absurd rfl h⟩
  | cons b bs ih =>
      obtain ⟨hwell, -, -, hpush⟩ := handle_refines hr b
      have hskip := (PacketFramer.noise_iff r.framer.validateProtocolVersion (.letter b.1)).mp
        (hnoise b List.mem_cons_self)
      rw [hempty b rfl, Code.push_noise _ _ hskip] at hpush
      obtain ⟨hpending, hreport⟩ := Prod.mk.inj hpush
      obtain ⟨hrun, hafter⟩ := ih hwell (fun d hd => hnoise d (List.mem_cons_of_mem b hd))
        (fun d _ => discardStale_pending hwell (Or.inl hpending))
      refine ⟨?_, fun _ => ?_⟩
      · rw [run, hreport, hrun, List.length_cons, List.replicate_succ]
      · rw [after]
        cases bs with
        | nil => exact hpending
        | cons d ds => exact hafter (List.cons_ne_nil d ds)

/-- A frame that finds the framer without a candidate is reported at its last byte. -/
theorem run_word {r : TrunkFrameReceiver} (hr : r.framer.WellFormed) {word : List (Byte × ℕ)}
    (hvalid : PacketFramer.ValidPacket r.framer.validateProtocolVersion (word.map Prod.fst))
    (hsteady : word.IsChain Steady)
    (hempty : ∀ b ∈ word.head?, (r.discardStale (BitVec.ofNat 32 b.2)).pending = []) :
    r.run word = List.replicate (word.length - 1) none ++ [some (word.map Prod.fst)] := by
  have hword := (PacketFramer.isWord_iff_validPacket _ _).mpr hvalid
  have hrun := (Code.run_word _ _ hword).1
  rw [List.length_map] at hrun
  cases word with
  | nil => exact absurd rfl hword.ne_nil
  | cons b bs =>
      obtain ⟨hwell, hversion, hmoved, hpush⟩ := handle_refines hr b
      rw [hempty b rfl] at hpush
      rw [← hrun, run, run_steady hwell hmoved hsteady, hversion, List.map_cons, List.map_cons,
        Code.run, ← hpush]

end TrunkFrameReceiver

open TrunkFrameReceiver in
/-- Whatever the receiver has been fed, bytes that start no packet and a valid packet that begin
after a pause are answered by the packet and nothing else. -/
theorem trunkFrameReceiver_resynchronises (v : Bool) (history noise word : List (Byte × ℕ))
    (hnoise : ∀ b ∈ noise, PacketType.ofByte b.1 = none)
    (hvalid : PacketFramer.ValidPacket v (word.map Prod.fst))
    (hpause : ∀ last ∈ history.getLast?, ∀ first ∈ (noise ++ word).head?,
      last.2 + 10 ≤ first.2 ∧ first.2 < last.2 + 2 ^ 32)
    (hsteady : word.IsChain Steady) :
    ((init v).after history).run (noise ++ word) =
      List.replicate noise.length none ++
        (List.replicate (word.length - 1) none ++ [some (word.map Prod.fst)]) := by
  obtain ⟨hwell, hversion⟩ :=
    after_wellFormed (r := init v) (PacketFramer.init_wellFormed v) history
  have hempty : ∀ b ∈ (noise ++ word).head?,
      (((init v).after history).discardStale (BitVec.ofNat 32 b.2)).pending = [] := by
    intro b hb
    apply discardStale_pending hwell
    cases hlast : history.getLast? with
    | none =>
        rw [List.getLast?_eq_none_iff.mp hlast]
        exact Or.inl rfl
    | some last =>
        obtain ⟨hle, hlt⟩ := hpause last hlast b hb
        rw [after_lastByteMs _ hlast]
        exact Or.inr (stale_of_gap hle hlt)
  cases noise with
  | nil => exact run_word hwell (hversion.symm ▸ hvalid) hsteady hempty
  | cons n noise =>
      obtain ⟨hrun, hafter⟩ := run_noise hwell hnoise hempty
      obtain ⟨hwell', hversion'⟩ := after_wellFormed hwell (n :: noise)
      rw [run_append, hrun, run_word hwell' (by rw [hversion', hversion]; exact hvalid) hsteady
        (fun b _ => discardStale_pending hwell' (Or.inl (hafter (List.cons_ne_nil _ _))))]

/-- A cut off frame, a pause over the wrap of the clock, a byte of noise and an acknowledgement. -/
theorem trunkFrameReceiver_resynchronises_ack :
    ((TrunkFrameReceiver.init true).after [(12, 2 ^ 32 - 4)]).run
        ([(0xFF, 2 ^ 32 + 6)] ++ (frameBytes .ack 0 []).map (fun b => (b, 2 ^ 32 + 6))) =
      [none] ++ (List.replicate 6 none ++ [some (frameBytes .ack 0 [])]) := by
  have hmap : ((frameBytes .ack 0 []).map (fun b => (b, 2 ^ 32 + 6))).map Prod.fst =
      frameBytes .ack 0 [] := by rw [List.map_map]; exact List.map_id _
  have h := trunkFrameReceiver_resynchronises true [(12, 2 ^ 32 - 4)] [(0xFF, 2 ^ 32 + 6)]
    ((frameBytes .ack 0 []).map (fun b => (b, 2 ^ 32 + 6))) (by decide)
    (by rw [hmap]; exact PacketFramer.validPacket_frameBytes true .ack 0 [] rfl)
    (by decide) (TrunkFrameReceiver.steady_burst _ _)
  rw [hmap] at h
  exact h

end Lightnet
