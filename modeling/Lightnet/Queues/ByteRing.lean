import Lightnet.Library.SharedRing
import Lightnet.Protocol

/-!
# The byte ring of the receive interrupt

The receive interrupt pushes single bytes, and the main loop pops them. Each access to a byte of
the buffer or to an offset is one step, and the steps of the two sides fall in any order. One cell
stays free, so that equal offsets mean that the ring is empty.
-/

namespace Lightnet

open RingBuffer

structure ByteRing (capacityBytes : ℕ) where
  buf : Fin capacityBytes → Byte
  w : Fin capacityBytes
  r : Fin capacityBytes

namespace ByteRing

variable {capacityBytes : ℕ}

def push (q : ByteRing capacityBytes) (value : Byte) : ByteRing capacityBytes × Bool :=
  if next q.w = q.r then (q, false)
  else ({ q with buf := Function.update q.buf q.w value, w := next q.w }, true)

def pop (q : ByteRing capacityBytes) : ByteRing capacityBytes × Option Byte :=
  if q.w = q.r then (q, none) else ({ q with r := next q.r }, some (q.buf q.r))

end ByteRing

inductive RingCall where
  | push (value : Byte)
  | pop
  deriving DecidableEq

inductive RingAnswer where
  | pushed (ok : Bool)
  | popped (value : Option Byte)
  deriving DecidableEq

/-- A bounded queue of bytes. -/
def boundedBytes (capacityBytes : ℕ) (bytes : List Byte) : RingCall → List Byte × RingAnswer
  | .push value =>
    if capacityBytes ≤ bytes.length + 1 then (bytes, .pushed false)
    else (bytes ++ [value], .pushed true)
  | .pop => (bytes.tail, .popped bytes.head?)

/-- How far the interrupt has come with a `push`. -/
inductive RingPushing where
  | idle
  | storing (value : Byte)
  | publishing (value : Byte)

/-- How far the main loop has come with a `pop`. -/
inductive RingPopping where
  | idle
  | loading
  | releasing (value : Byte)

structure SharedBytes (capacityBytes : ℕ) where
  ring : ByteRing capacityBytes
  pushing : RingPushing
  popping : RingPopping

inductive RingMove where
  | push (value : Byte)
  | produce
  | pop
  | consume

namespace SharedBytes

variable {capacityBytes : ℕ}

def fresh (h : 0 < capacityBytes) (buf : Fin capacityBytes → Byte) : SharedBytes capacityBytes :=
  ⟨⟨buf, ⟨0, h⟩, ⟨0, h⟩⟩, .idle, .idle⟩

/-- A side begins a call, unless it is in one, or takes the next step of its call. -/
def step (s : SharedBytes capacityBytes) :
    RingMove → SharedBytes capacityBytes × Option (RingCall × RingAnswer)
  | .push value =>
    match s.pushing with
    | .idle =>
      if next s.ring.w = s.ring.r then (s, some (.push value, .pushed false))
      else ({ s with pushing := .storing value }, none)
    | _ => (s, none)
  | .produce =>
    match s.pushing with
    | .idle => (s, none)
    | .storing value =>
      ({ s with
        ring := { s.ring with buf := Function.update s.ring.buf s.ring.w value }
        pushing := .publishing value }, none)
    | .publishing value =>
      ({ s with ring := { s.ring with w := next s.ring.w }, pushing := .idle },
        some (.push value, .pushed true))
  | .pop =>
    match s.popping with
    | .idle =>
      if s.ring.w = s.ring.r then (s, some (.pop, .popped none))
      else ({ s with popping := .loading }, none)
    | _ => (s, none)
  | .consume =>
    match s.popping with
    | .idle => (s, none)
    | .loading => ({ s with popping := .releasing (s.ring.buf s.ring.r) }, none)
    | .releasing value =>
      ({ s with ring := { s.ring with r := next s.ring.r }, popping := .idle },
        some (.pop, .popped (some value)))

def log : SharedBytes capacityBytes → List RingMove → List (RingCall × RingAnswer)
  | _, [] => []
  | s, move :: moves => (s.step move).2.toList ++ log (s.step move).1 moves

/-- The bytes that are handed out, in their order, and those that are taken in. -/
def popped (log : List (RingCall × RingAnswer)) : List Byte :=
  log.filterMap fun entry => match entry.2 with
    | .popped value => value
    | .pushed _ => none

def pushed (log : List (RingCall × RingAnswer)) : List Byte :=
  log.filterMap fun entry => match entry with
    | (.push value, .pushed true) => some value
    | _ => none

/-- These are the answers of the bounded queue. -/
def Answers (capacityBytes : ℕ) : List Byte → List (RingCall × RingAnswer) → Prop
  | _, [] => True
  | bytes, (call, result) :: log => result = (boundedBytes capacityBytes bytes call).2 ∧
      Answers capacityBytes (boundedBytes capacityBytes bytes call).1 log

/-! ### The invariant -/

/-- What the interrupt has stored and not published. -/
def Stored (capacityBytes : ℕ) (bytes unpublished : List Byte) : RingPushing → Prop
  | .idle => unpublished = []
  | .storing _ => unpublished = [] ∧ bytes.length + 1 < capacityBytes
  | .publishing value => unpublished = [value] ∧ bytes.length + 1 < capacityBytes

/-- What the main loop has found. -/
def Loaded (bytes : List Byte) : RingPopping → Prop
  | .idle => True
  | .loading => bytes ≠ []
  | .releasing value => ∃ rest, bytes = value :: rest

structure Sound (s : SharedBytes capacityBytes) (bytes : List Byte) : Prop where
  lies : ∃ unpublished, Lies s.ring.buf s.ring.r s.ring.w bytes unpublished ∧
    Stored capacityBytes bytes unpublished s.pushing
  loaded : Loaded bytes s.popping

theorem sound_fresh (h : 0 < capacityBytes) (buf : Fin capacityBytes → Byte) :
    (fresh h buf).Sound [] :=
  ⟨⟨[], ⟨h, rfl, rfl⟩, rfl⟩, trivial⟩

def Agrees (bytes : List Byte)
    (result : SharedBytes capacityBytes × Option (RingCall × RingAnswer)) : Prop :=
  match result.2 with
  | none => result.1.Sound bytes
  | some (call, answer) => answer = (boundedBytes capacityBytes bytes call).2 ∧
      result.1.Sound (boundedBytes capacityBytes bytes call).1

/-- The ring is full when the write offset would come to the read offset. -/
theorem next_eq_iff {q : ByteRing capacityBytes} {bytes unpublished : List Byte}
    (h : Lies q.buf q.r q.w bytes unpublished) :
    next q.w = q.r ↔ capacityBytes ≤ bytes.length + 1 := by
  have hfits := h.fits
  have hnext : next q.w = ahead q.r (bytes.length + 1) := by
    rw [h.write]
    exact ahead_add q.r bytes.length 1
  rw [hnext]
  constructor
  · intro heq
    by_contra hlt
    have hzero := ahead_inj (p := q.r) (j := bytes.length + 1) (k := 0) (by omega) (by omega) heq
    omega
  · intro hle
    have hwhole : bytes.length + 1 = capacityBytes := by omega
    apply Fin.ext
    rw [val_ahead, hwhole, Nat.add_mod_right, Nat.mod_eq_of_lt q.r.isLt]

theorem agrees_push {s : SharedBytes capacityBytes} {bytes : List Byte} (h : s.Sound bytes)
    (value : Byte) : Agrees bytes (s.step (.push value)) := by
  obtain ⟨unpublished, hlies, hstored⟩ := h.lies
  obtain ⟨ring, pushing, popping⟩ := s
  cases pushing with
  | storing value' => exact h
  | publishing value' => exact h
  | idle =>
      have hfull := next_eq_iff hlies
      unfold step
      dsimp only at hfull ⊢
      split_ifs with heq
      · have hspec : boundedBytes capacityBytes bytes (.push value) = (bytes, .pushed false) :=
          if_pos (hfull.mp heq)
        change _ = (boundedBytes capacityBytes bytes (.push value)).2 ∧ Sound _ _
        rw [hspec]
        exact ⟨rfl, h⟩
      · have hroom : bytes.length + 1 < capacityBytes := by
          by_contra hle
          exact heq (hfull.mpr (not_lt.mp hle))
        exact ⟨⟨unpublished, hlies, hstored, hroom⟩, h.loaded⟩

theorem agrees_produce {s : SharedBytes capacityBytes} {bytes : List Byte} (h : s.Sound bytes) :
    Agrees bytes (s.step .produce) := by
  obtain ⟨unpublished, hlies, hstored⟩ := h.lies
  obtain ⟨ring, pushing, popping⟩ := s
  cases pushing with
  | idle => exact h
  | storing value =>
      obtain ⟨rfl, hroom⟩ := hstored
      exact ⟨⟨[value], hlies.put value hroom, rfl, hroom⟩, h.loaded⟩
  | publishing value =>
      obtain ⟨rfl, hroom⟩ := hstored
      have hspec : boundedBytes capacityBytes bytes (.push value) =
          (bytes ++ [value], .pushed true) := if_neg (not_le.mpr hroom)
      change _ = (boundedBytes capacityBytes bytes (.push value)).2 ∧ Sound _ _
      rw [hspec]
      refine ⟨rfl, ⟨[], hlies.publish, rfl⟩, ?_⟩
      have hloaded := h.loaded
      cases popping with
      | idle => trivial
      | loading => exact List.append_ne_nil_of_left_ne_nil hloaded _
      | releasing value' =>
          obtain ⟨rest, rfl⟩ := hloaded
          exact ⟨rest ++ [value], rfl⟩

theorem agrees_pop {s : SharedBytes capacityBytes} {bytes : List Byte} (h : s.Sound bytes) :
    Agrees bytes (s.step .pop) := by
  obtain ⟨unpublished, hlies, hstored⟩ := h.lies
  obtain ⟨ring, pushing, popping⟩ := s
  cases popping with
  | loading => exact h
  | releasing value => exact h
  | idle =>
      have hempty := hlies.eq_iff
      unfold step
      dsimp only at hempty ⊢
      split_ifs with heq
      · have hnil := hempty.mp heq
        subst hnil
        exact ⟨rfl, h⟩
      · exact ⟨⟨unpublished, hlies, hstored⟩, fun hnil => heq (hempty.mpr hnil)⟩

theorem agrees_consume {s : SharedBytes capacityBytes} {bytes : List Byte} (h : s.Sound bytes) :
    Agrees bytes (s.step .consume) := by
  obtain ⟨unpublished, hlies, hstored⟩ := h.lies
  have hloaded := h.loaded
  obtain ⟨ring, pushing, popping⟩ := s
  cases popping with
  | idle => exact h
  | loading =>
      obtain ⟨value, rest, rfl⟩ := List.exists_cons_of_ne_nil hloaded
      have hvalue : ring.buf ring.r = value := hlies.get (Nat.succ_pos _)
      refine ⟨⟨unpublished, hlies, hstored⟩, rest, ?_⟩
      rw [← hvalue]
  | releasing value =>
      obtain ⟨rest, rfl⟩ := hloaded
      have hoffered : Lies ring.buf ring.r ring.w ([value] ++ rest) unpublished := hlies
      refine ⟨rfl, ⟨unpublished, hoffered.release, ?_⟩, trivial⟩
      change Stored capacityBytes rest unpublished pushing
      cases pushing with
      | idle => exact hstored
      | storing value' => exact ⟨hstored.1, (Nat.lt_succ_self _).trans hstored.2⟩
      | publishing value' => exact ⟨hstored.1, (Nat.lt_succ_self _).trans hstored.2⟩

/-! ### Runs -/

theorem agrees_step {s : SharedBytes capacityBytes} {bytes : List Byte} (h : s.Sound bytes)
    (move : RingMove) : Agrees bytes (s.step move) := by
  cases move with
  | push value => exact agrees_push h value
  | produce => exact agrees_produce h
  | pop => exact agrees_pop h
  | consume => exact agrees_consume h

theorem Sound.answers {s : SharedBytes capacityBytes} {bytes : List Byte} (h : s.Sound bytes)
    (moves : List RingMove) : Answers capacityBytes bytes (s.log moves) := by
  induction moves generalizing s bytes with
  | nil => trivial
  | cons move moves ih =>
      have hagrees := agrees_step h move
      unfold Agrees at hagrees
      unfold log
      cases hanswer : (s.step move).2 with
      | none =>
          rw [hanswer] at hagrees
          exact ih hagrees
      | some result =>
          rw [hanswer] at hagrees
          exact ⟨hagrees.1, ih hagrees.2⟩

/-- What a bounded queue hands out is the beginning of what it took in. -/
theorem popped_prefix {bytes : List Byte} {log : List (RingCall × RingAnswer)}
    (h : Answers capacityBytes bytes log) : popped log <+: bytes ++ pushed log := by
  induction log generalizing bytes with
  | nil => exact List.nil_prefix
  | cons entry log ih =>
      obtain ⟨call, result⟩ := entry
      obtain ⟨hresult, hlog⟩ := h
      have hrest := ih hlog
      cases call with
      | push value =>
          by_cases hfull : capacityBytes ≤ bytes.length + 1
          · have hspec : boundedBytes capacityBytes bytes (.push value) =
                (bytes, .pushed false) := if_pos hfull
            rw [hspec] at hresult hrest
            subst hresult
            exact hrest
          · have hspec : boundedBytes capacityBytes bytes (.push value) =
                (bytes ++ [value], .pushed true) := if_neg hfull
            rw [hspec] at hresult hrest
            subst hresult
            rw [List.append_assoc] at hrest
            exact hrest
      | pop =>
          subst hresult
          cases bytes with
          | nil => exact hrest
          | cons value bytes => exact (List.prefix_cons_inj value).mpr hrest

/-! ### Calls that are not interrupted -/

/-- The state after the moves. -/
def after (s : SharedBytes capacityBytes) (moves : List RingMove) : SharedBytes capacityBytes :=
  moves.foldl (fun s move => (s.step move).1) s

/-- A push that nothing interrupts is the push of the ring. -/
theorem push_uninterrupted (ring : ByteRing capacityBytes) (popping : RingPopping) (value : Byte) :
    log ⟨ring, .idle, popping⟩ [.push value, .produce, .produce] =
        [(.push value, .pushed (ring.push value).2)] ∧
      after ⟨ring, .idle, popping⟩ [.push value, .produce, .produce] =
        ⟨(ring.push value).1, .idle, popping⟩ := by
  by_cases hfull : next ring.w = ring.r
  · have hpush : ring.push value = (ring, false) := if_pos hfull
    have hstep : step ⟨ring, .idle, popping⟩ (.push value) =
        (⟨ring, .idle, popping⟩, some (.push value, .pushed false)) := if_pos hfull
    rw [log, after, List.foldl_cons, hstep, hpush]
    exact ⟨rfl, rfl⟩
  · have hpush : ring.push value =
        ({ ring with buf := Function.update ring.buf ring.w value, w := next ring.w }, true) :=
      if_neg hfull
    have hstep : step ⟨ring, .idle, popping⟩ (.push value) =
        (⟨ring, .storing value, popping⟩, none) := if_neg hfull
    rw [log, after, List.foldl_cons, hstep, hpush]
    exact ⟨rfl, rfl⟩

/-- A pop that nothing interrupts is the pop of the ring. -/
theorem pop_uninterrupted (ring : ByteRing capacityBytes) (pushing : RingPushing) :
    log ⟨ring, pushing, .idle⟩ [.pop, .consume, .consume] = [(.pop, .popped ring.pop.2)] ∧
      after ⟨ring, pushing, .idle⟩ [.pop, .consume, .consume] =
        ⟨ring.pop.1, pushing, .idle⟩ := by
  by_cases hempty : ring.w = ring.r
  · have hpop : ring.pop = (ring, none) := if_pos hempty
    have hstep : step ⟨ring, pushing, .idle⟩ .pop =
        (⟨ring, pushing, .idle⟩, some (.pop, .popped none)) := if_pos hempty
    rw [log, after, List.foldl_cons, hstep, hpop]
    exact ⟨rfl, rfl⟩
  · have hpop : ring.pop = ({ ring with r := next ring.r }, some (ring.buf ring.r)) :=
      if_neg hempty
    have hstep : step ⟨ring, pushing, .idle⟩ .pop = (⟨ring, pushing, .loading⟩, none) :=
      if_neg hempty
    rw [log, after, List.foldl_cons, hstep, hpop]
    exact ⟨rfl, rfl⟩

/-- However the interrupt and the main loop interleave, a byte is dropped only when the ring is
full, and the main loop reads the bytes that were not dropped, in their order. -/
theorem ring_in_order (h : 0 < capacityBytes) (buf : Fin capacityBytes → Byte)
    (moves : List RingMove) :
    Answers capacityBytes [] ((fresh h buf).log moves) ∧
      popped ((fresh h buf).log moves) <+: pushed ((fresh h buf).log moves) := by
  have hanswers := (sound_fresh h buf).answers moves
  exact ⟨hanswers, popped_prefix hanswers⟩

/-- An interrupt between the two steps of a pop. -/
def overtakenMoves : List RingMove :=
  [.push 1, .produce, .produce, .pop, .consume, .push 2, .produce, .produce, .push 3, .consume,
    .pop, .push 3, .produce, .consume, .consume]

theorem overtaken_in_order :
    Answers 3 [] ((fresh (by decide : 0 < 3) fun _ => 0).log overtakenMoves) ∧
      popped ((fresh (by decide : 0 < 3) fun _ => 0).log overtakenMoves) <+:
        pushed ((fresh (by decide : 0 < 3) fun _ => 0).log overtakenMoves) :=
  ring_in_order (by decide) (fun _ => 0) overtakenMoves

example : (fresh (by decide : 0 < 3) fun _ => 0).log overtakenMoves =
    [(.push 1, .pushed true), (.push 2, .pushed true), (.push 3, .pushed false),
      (.pop, .popped (some 1)), (.pop, .popped (some 2))] := by rfl

end SharedBytes

end Lightnet
