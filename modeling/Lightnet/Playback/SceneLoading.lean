import Lightnet.Playback.ClockShift
import Lightnet.Storage.SceneStore

/-!
# Playing a stored scene

The layers of a stored scene are read right into the array of the player. A read that fails has
replaced some of its bytes, and the player goes on with what the array then holds.
-/

namespace Lightnet

open Storage

/-! ### The record as it lies in memory -/

namespace Storage.SceneBytes

def loop (record : List Byte) : Bool := readByte record 49 ≠ 0

def palette (record : List Byte) : Text := cString (readAt record 50 16)

def hasPalette (record : List Byte) : Bool := readByte record 66 ≠ 0

def hasColors (record : List Byte) : Bool := readByte record 67 ≠ 0

def colorAt (record : List Byte) (offset : ℕ) : ColorRGB :=
  ⟨readByte record offset, readByte record (offset + 1), readByte record (offset + 2)⟩

def baseColors (record : List Byte) (i : Fin baseColorsCount) : ColorRGB :=
  colorAt record (68 + 3 * i)

def background (record : List Byte) : ColorRGB := colorAt record 77

end Storage.SceneBytes

open Storage.SceneBytes

/-- How a player takes the bytes of its layers, and those of a floating point number. -/
structure RecordLayout where
  bytesOf : SceneLayer → List Byte
  layer : List Byte → SceneLayer
  float : List Byte → ℚ

/-- The layers once some bytes have been written at the start of the array. -/
def RecordLayout.overlay (layout : RecordLayout) (layers : ℕ → SceneLayer) (written : List Byte)
    (i : ℕ) : SceneLayer :=
  if written.length ≤ i * sceneLayerSize then layers i
  else layout.layer (readAt written (i * sceneLayerSize) sceneLayerSize ++
    (layout.bytesOf (layers i)).drop (written.length - i * sceneLayerSize))

/-! ### Reading a scene to play it -/

inductive PlayAccess where
  | headerSeek | headerRead | layersSeek | layersRead
  deriving DecidableEq

/-- A fault of a read is the number of bytes it has read before it failed. -/
abbrev PlayFaults := PlayAccess → Option ℕ

def noPlayFaults : PlayFaults := fun _ => none

/-- What has been read, and whether that is all. -/
def readSlice (φ : PlayFaults) (seek read : PlayAccess) (bs : List Byte) : List Byte × Bool :=
  if φ seek ≠ none then ([], false)
  else
    match φ read with
    | none => (bs, true)
    | some k => (bs.take (min k (bs.length - 1)), false)

/-- The header of the scene or an error, and the bytes of the layers that have been read. -/
structure PlayRead where
  header : Except StoreError (List Byte)
  layers : List Byte

def readForPlay (φ : PlayFaults) (record : List Byte) : PlayRead :=
  if (readSlice φ .headerSeek .headerRead (record.take sceneHeaderSize)).2 = false then
    ⟨.error .db, []⟩
  else
    let header := terminated (record.take sceneHeaderSize)
    let count := min (layerCount header).toNat sceneMaxLayers
    let header := header.set 47 (u8 count)
    if count = 0 then ⟨.ok header, []⟩
    else
      match readSlice φ .layersSeek .layersRead
          (readAt record sceneHeaderSize (count * sceneLayerSize)) with
      | (bs, true) => ⟨.ok header, bs⟩
      | (bs, false) => ⟨.error .db, bs⟩

def getForPlay (ω : Faults) (φ : PlayFaults) (id : Text) : StateM File PlayRead := fun file =>
  match Store.session ω sceneModelVersion file with
  | (.error e, file) => (⟨.error e, []⟩, file)
  | (.ok (), file) =>
    match sceneStore.find ω id file with
    | .error e => (⟨.error e, []⟩, file)
    | .ok slot => (readForPlay φ (slotPayload sceneRecordSize file slot), file)

/-! ### The service -/

structure ScenesService where
  player : ScenePlayer
  sceneHasOwnPalette : Bool
  sceneHasOwnColors : Bool

namespace ScenesService

def defaultColors : Fin baseColorsCount → ColorRGB := ![.white, .black, .black]

/-- The header that a scene is played with; what it does not have is taken from the appearance. -/
def playHeader (layout : RecordLayout) (header : List Byte) (defaultPalette : Text)
    (colors : Option (Fin baseColorsCount → ColorRGB)) : ScenePlayer.Header where
  loop := loop header
  paletteDefault :=
    if hasPalette header then palette header
    else if defaultPalette = [] then userColorsPaletteName else defaultPalette
  baseColors := if hasColors header then baseColors header else colors.getD defaultColors
  speed := layout.float (readAt header 80 4)
  background := background header

/-- Whether the scene is played, and the service then. -/
def playRead (layout : RecordLayout) (env : SceneProviders) (read : PlayRead)
    (defaultPalette : Text) (colors : Option (Fin baseColorsCount → ColorRGB)) (nowMs : Millis)
    (s : ScenesService) : Bool × ScenesService :=
  let player := { s.player with layers := layout.overlay s.player.layers read.layers }
  match read.header with
  | .error _ => (false, { s with player := player.stop })
  | .ok header => (true,
    { player := player.playPreloaded env (layerCount header).toNat
        (playHeader layout header defaultPalette colors) nowMs
      sceneHasOwnPalette := hasPalette header
      sceneHasOwnColors := hasColors header })

def playSceneById (layout : RecordLayout) (env : SceneProviders) (ω : Faults) (φ : PlayFaults)
    (id defaultPalette : Text) (colors : Option (Fin baseColorsCount → ColorRGB)) (nowMs : Millis)
    (s : ScenesService) : StateM File (Bool × ScenesService) := do
  let read ← getForPlay ω φ id
  pure (playRead layout env read defaultPalette colors nowMs s)

end ScenesService

/-! ### What later commands play -/

namespace ScenePlayer

theorem shifted_zero_event (e : PlayerEvent) : e.shifted 0 = e := by
  cases e <;> simp [PlayerEvent.shifted]

theorem shifted_zero_state (st : LayerSpawnState) : st.shifted 0 = st := by
  have hdeadline (x : Millis) : shiftDeadline 0 x = x := by
    unfold shiftDeadline
    split_ifs with hzero
    · exact hzero.symm
    · exact add_zero x
  have hnext : (if st.sweepDurationMs = 0 then st.nextSpawnMs else st.nextSpawnMs + 0) =
      st.nextSpawnMs := by
    split_ifs
    · rfl
    · exact add_zero _
  unfold LayerSpawnState.shifted
  rw [hdeadline, hdeadline, hnext]

/-- The layers that are not counted make no difference. -/
theorem run_relayered {p : ScenePlayer} (hcount : p.lCount ≤ sceneMaxLayers) {L : ℕ → SceneLayer}
    (hL : ∀ i < p.lCount, L i = p.layers i) (es : List PlayerEvent) :
    (es.foldl handle { p with layers := L }).sent = (es.foldl handle p).sent := by
  have hrecast : recast 0 { p with layers := L } p = { p with layers := L } := by
    have hlayers : (fun i => if i < p.lCount then p.layers i else L i) = L := by
      funext i
      split_ifs with hi
      · exact (hL i hi).symm
      · rfl
    have hstart : (fun i => if i < p.lCount then p.stepStartMs i + 0 else p.stepStartMs i) =
        p.stepStartMs := by
      funext i
      rw [add_zero, ite_self]
    unfold recast
    simp only [hlayers, hstart, shifted_zero_state]
  have hsame : es.map (PlayerEvent.shifted 0) = es := by
    have hid : PlayerEvent.shifted 0 = id := funext shifted_zero_event
    rw [hid, List.map_id]
  have hrun := run_recast (c := 0) (b := { p with layers := L }) hcount es
    (guarded_clockAgrees_zero p es)
  rw [hsame, hrecast] at hrun
  rw [hrun]
  rfl

/-- Whatever is played are the layers given. -/
def PlaysOnly (layers : ℕ → SceneLayer) (p : ScenePlayer) : Prop :=
  p.playing = true → ∀ i < p.lCount, p.layers i = layers i

theorem resume_playing {p : ScenePlayer} (hscene : p.lCount ≠ 0) (env : SceneProviders)
    (nowMs : Millis) : (p.resume env nowMs).playing = true := by
  rw [resume_eq, if_neg hscene]
  have hfold (l : List ℕ) (q : ScenePlayer) (hq : q.playing = true) :
      (l.foldl (fireArmed nowMs true) q).playing = true := by
    induction l generalizing q with
    | nil => exact hq
    | cons i l ih => exact ih _ ((touches_fireArmed q i nowMs true).playing.trans hq)
  exact hfold _ _ rfl

/-- With other layers in memory, exactly those that are not counted are never played. -/
theorem run_playsOnly_iff {p : ScenePlayer} (hcount : p.lCount ≤ sceneMaxLayers)
    (L : ℕ → SceneLayer) (env : SceneProviders) :
    (∀ es : List PlayerEvent, PlaysOnly p.layers (es.foldl handle { p with layers := L })) ↔
      ∀ i < p.lCount, L i = p.layers i := by
  constructor
  · intro h i hi
    have hscene : p.lCount ≠ 0 := by omega
    obtain ⟨hlayers, hsame⟩ := handle_layers (p := { p with layers := L }) hcount (.resume env 0)
    have hplayed := h [.resume env 0] (resume_playing (p := { p with layers := L }) hscene env 0) i
      (lt_of_lt_of_eq hi hsame.symm)
    rw [← hplayed]
    exact (congrFun hlayers i).symm
  · intro h es _ i hi
    obtain ⟨hlayers, hsame⟩ := run_layers (p := { p with layers := L }) hcount es
    rw [hlayers]
    exact h i (lt_of_lt_of_eq hi hsame)

end ScenePlayer

/-! ### Failed loads -/

namespace ScenesService

variable (layout : RecordLayout) (env : SceneProviders) (ω : Faults) (φ : PlayFaults)
  (id defaultPalette : Text) (colors : Option (Fin baseColorsCount → ColorRGB)) (nowMs : Millis)
  (s : ScenesService) (file : File)

/-- After a load that fails later commands play and send what they would have without it, and a
scene that cannot be read is not played. -/
structure LoadsSafely : Prop where
  failed : (playSceneById layout env ω φ id defaultPalette colors nowMs s file).1.1 = false →
    ∀ es : List PlayerEvent,
      ScenePlayer.PlaysOnly s.player.layers (es.foldl ScenePlayer.handle
        (playSceneById layout env ω φ id defaultPalette colors nowMs s file).1.2.player) ∧
      (es.foldl ScenePlayer.handle
        (playSceneById layout env ω φ id defaultPalette colors nowMs s file).1.2.player).sent =
        (es.foldl ScenePlayer.handle s.player.stop).sent
  rejected : ω .readSeek = none → ω .readRecord = none → φ = noPlayFaults →
    (∀ r, (sceneStore.get ω id file).1 ≠ .ok r) →
    (playSceneById layout env ω φ id defaultPalette colors nowMs s file).1.1 = false

/-- A read that fails has left the layers of the player as they were, and the record is valid. -/
structure Loadable : Prop where
  kept : (∀ header, (getForPlay ω φ id file).1.header ≠ .ok header) →
    ∀ i < s.player.lCount,
      layout.overlay s.player.layers (getForPlay ω φ id file).1.layers i = s.player.layers i
  valid : ω .readSeek = none → ω .readRecord = none → φ = noPlayFaults → ∀ file' slot,
    Store.session ω sceneModelVersion file = (.ok (), file') →
    sceneStore.find ω id file' = .ok slot →
    isValidId id = true ∧ SceneCodec.isValid (terminated (slotPayload sceneRecordSize file' slot)) =
      true

theorem playSceneById_eq :
    (playSceneById layout env ω φ id defaultPalette colors nowMs s file).1 =
      playRead layout env (getForPlay ω φ id file).1 defaultPalette colors nowMs s := rfl

omit ω φ id file in
theorem playRead_error (read : PlayRead) {e : StoreError} (h : read.header = .error e) :
    playRead layout env read defaultPalette colors nowMs s =
      (false, { s with player :=
        { s.player with layers := layout.overlay s.player.layers read.layers }.stop }) := by
  unfold playRead
  rw [h]

omit ω φ id file in
theorem playRead_failed_iff (read : PlayRead) :
    (playRead layout env read defaultPalette colors nowMs s).1 = false ↔
      ∀ header, read.header ≠ .ok header := by
  unfold playRead
  cases read.header with
  | error e => simp
  | ok header => simp

/-- Nothing is validated. -/
theorem readForPlay_ok (record : List Byte) :
    ∃ header, (readForPlay noPlayFaults record).header = .ok header := by
  have hslice (seek read : PlayAccess) (bs : List Byte) :
      readSlice noPlayFaults seek read bs = (bs, true) := if_neg (not_not.mpr rfl)
  unfold readForPlay
  rw [hslice, if_neg (by simp)]
  dsimp only
  rw [hslice]
  split_ifs
  · exact ⟨_, rfl⟩
  · exact ⟨_, rfl⟩

/-- Without faults, what a lookup finds is played. -/
theorem getForPlay_ok_iff :
    (∃ header, (getForPlay ω noPlayFaults id file).1.header = .ok header) ↔
      ∃ file' slot, Store.session ω sceneModelVersion file = (.ok (), file') ∧
        sceneStore.find ω id file' = .ok slot := by
  unfold getForPlay
  rcases Store.session ω sceneModelVersion file with ⟨_ | _, file'⟩
  · refine iff_of_false (by simp) ?_
    rintro ⟨file'', slot, heq, -⟩
    cases heq
  · cases hfind : sceneStore.find ω id file' with
    | error e =>
        simp only [hfind]
        refine iff_of_false (by simp) ?_
        rintro ⟨file'', slot, heq, hslot⟩
        obtain rfl := (Prod.ext_iff.mp heq).2
        rw [hfind] at hslot
        cases hslot
    | ok slot =>
        simp only [hfind]
        exact iff_of_true (readForPlay_ok _) ⟨file', slot, rfl, hfind⟩

omit ω id file in
theorem bind_ok_iff {α β : Type} (m : Store α) (f : α → Store β) (file : File) :
    (∃ r, ((m >>= f) file).1 = .ok r) ↔
      ∃ a file', m file = (.ok a, file') ∧ ∃ r, (f a file').1 = .ok r := by
  change (∃ r, (ExceptT.bind m f file).1 = .ok r) ↔ _
  simp only [ExceptT.bind, ExceptT.mk, bind, StateT.bind]
  rcases m file with ⟨e | a, file'⟩
  · refine iff_of_false ?_ ?_
    · rintro ⟨r, hr⟩
      cases hr
    · rintro ⟨a, file'', heq, -⟩
      cases heq
  · constructor
    · exact fun h => ⟨a, file', rfl, h⟩
    · rintro ⟨a, file'', heq, h⟩
      cases heq
      exact h

/-- Without faults, what a lookup finds is read if it is valid. -/
theorem get_ok_iff (hseek : ω .readSeek = none) (hread : ω .readRecord = none) :
    (∃ r, (sceneStore.get ω id file).1 = .ok r) ↔
      ∃ file' slot, Store.session ω sceneModelVersion file = (.ok (), file') ∧
        sceneStore.find ω id file' = .ok slot ∧ isValidId id = true ∧
        SceneCodec.isValid (terminated (slotPayload sceneRecordSize file' slot)) = true := by
  have hcheck : Store.check (sceneStore.checkGet id) file =
      if isValidId id then (.ok (), file) else (.error .invalidKey, file) := by
    change Store.check (if !isValidId id then some .invalidKey else none) file = _
    cases isValidId id <;> rfl
  have hload (file' : File) (slot : ℕ) : (∃ r, SceneStore.load ω file' slot = .ok r) ↔
      SceneCodec.isValid (terminated (slotPayload sceneRecordSize file' slot)) = true := by
    unfold SceneStore.load SceneStore.readBack
    rw [if_neg (by simp [hseek, hread])]
    split_ifs with hvalid
    · simp [hvalid]
    · simp [hvalid]
  unfold KeyedStore.get
  simp only [bind_ok_iff, hcheck]
  constructor
  · rintro ⟨_, file₁, hfirst, _, file', hsession, slot, file₂, hfind, hrest⟩
    split_ifs at hfirst with hvalid
    · cases hfirst
      obtain ⟨hslot, rfl⟩ := Prod.ext_iff.mp hfind
      exact ⟨file', slot, hsession, hslot, hvalid, (hload file' slot).mp hrest⟩
    · cases hfirst
  · rintro ⟨file', slot, hsession, hslot, hvalid, hrecord⟩
    exact ⟨(), file, if_pos hvalid, (), file', hsession, slot, file', Prod.ext hslot rfl,
      (hload file' slot).mpr hrecord⟩

/-- A load is safe if and only if a read that fails has left the layers of the player as they were,
and the record is valid. -/
theorem loadsSafely_iff (hcount : s.player.lCount ≤ sceneMaxLayers) :
    LoadsSafely layout env ω φ id defaultPalette colors nowMs s file ↔
      Loadable layout ω φ id s file := by
  have hfailed := playRead_failed_iff layout env defaultPalette colors nowMs s
    (getForPlay ω φ id file).1
  have hplayer (h : (playRead layout env (getForPlay ω φ id file).1 defaultPalette colors nowMs
      s).1 = false) : (playRead layout env (getForPlay ω φ id file).1 defaultPalette colors nowMs
        s).2.player = { s.player.stop with
          layers := layout.overlay s.player.layers (getForPlay ω φ id file).1.layers } := by
    cases hread : (getForPlay ω φ id file).1.header with
    | error e =>
        rw [playRead_error layout env defaultPalette colors nowMs s _ hread]
        rfl
    | ok header => exact absurd hread (hfailed.mp h header)
  constructor
  · intro h
    refine ⟨fun hread => ?_, fun hseek hrecord hnone file' slot hsession hfind => ?_⟩
    · have hsafe := h.failed (hfailed.mpr hread)
      refine (ScenePlayer.run_playsOnly_iff (p := s.player.stop) hcount _ env).mp fun es => ?_
      rw [← hplayer (hfailed.mpr hread)]
      exact (hsafe es).1
    · by_contra hinvalid
      have hunread (r : List Byte) : (sceneStore.get ω id file).1 ≠ .ok r := by
        intro hr
        obtain ⟨file'', slot', hsession', hfind', hvalid⟩ :=
          (get_ok_iff ω id file hseek hrecord).mp ⟨r, hr⟩
        rw [hsession] at hsession'
        cases hsession'
        rw [hfind] at hfind'
        cases hfind'
        exact hinvalid hvalid
      obtain ⟨header, hplayed⟩ := (getForPlay_ok_iff ω id file).mpr ⟨file', slot, hsession, hfind⟩
      refine hfailed.mp (h.rejected hseek hrecord hnone hunread) header ?_
      rw [hnone]
      exact hplayed
  · intro h
    refine ⟨fun hfail es => ?_, fun hseek hrecord hnone hunread => ?_⟩
    · have hkept := h.kept (hfailed.mp hfail)
      rw [playSceneById_eq, hplayer hfail]
      exact ⟨(ScenePlayer.run_playsOnly_iff (p := s.player.stop) hcount _ env).mpr hkept es,
        ScenePlayer.run_relayered (p := s.player.stop) hcount hkept es⟩
    · refine hfailed.mpr fun header hheader => ?_
      rw [hnone] at hheader
      obtain ⟨file', slot, hsession, hfind⟩ := (getForPlay_ok_iff ω id file).mp ⟨header, hheader⟩
      obtain ⟨hid, hvalid⟩ := h.valid hseek hrecord hnone file' slot hsession hfind
      obtain ⟨r, hr⟩ := (get_ok_iff ω id file hseek hrecord).mpr
        ⟨file', slot, hsession, hfind, hid, hvalid⟩
      exact hunread r hr

end ScenesService

/-! ### The packed layers -/

/-- The byte string, cut or filled up with zeros. -/
def padded (n : ℕ) (bs : List Byte) : List Byte := bs.take n ++ List.replicate (n - bs.length) 0

def animationCodes : List (AnimationType × Byte) :=
  [(.solid, 0), (.fade, 1), (.transition, 2), (.breathe, 3), (.pulse, 4), (.blink, 5),
    (.hueCycle, 6), (.strobe, 7), (.reactive, 8), (.gap, 9), (.wave, 64), (.ripple, 65),
    (.chase, 66), (.wheel, 67), (.bounce, 68), (.rain, 69), (.sparkle, 70), (.matrix, 71)]

def composeCodes : List (ComposeMode × Byte) :=
  [(.default, 0), (.opaqueTop, 1), (.add, 2), (.max, 3), (.multiply, 4), (.screen, 5), (.darken, 6),
    (.overlay, 7), (.difference, 8), (.subtract, 9)]

def targetCodes : List (AnimateTarget × Byte) :=
  [(.color, 0), (.dim, 1), (.desaturate, 2), (.hue, 3), (.invert, 4), (.brighten, 5),
    (.saturate, 6)]

/-- The byte of a value in a table. -/
def codeOf {α : Type} [DecidableEq α] (codes : List (α × Byte)) (a : α) : Byte :=
  ((codes.find? fun code => code.1 = a).map Prod.snd).getD 0

def ofCode {α : Type} (codes : List (α × Byte)) (default : α) (b : Byte) : α :=
  ((codes.find? fun code => code.2 = b).map Prod.fst).getD default

def leBytes (x : Ticks) : List Byte := [x.setWidth 8, (x >>> 8).setWidth 8]

def packColor (c : ColorRef) : List Byte := [c.kind, c.raw.r, c.raw.g, c.raw.b]

def packStep (step : SceneStep) : List Byte :=
  [codeOf animationCodes step.animType, step.flags] ++ leBytes step.durationMs ++
    packColor step.colorFrom ++ packColor step.colorTo ++ List.ofFn step.params ++
    leBytes step.speedMs ++ [codeOf targetCodes step.animates, step.valueFrom, step.valueTo]

def packLayer (layer : SceneLayer) : List Byte :=
  [layer.groupId, layer.startAfterGroupId, layer.startAfterStepIndex, layer.async,
    u8 layer.steps.length, codeOf composeCodes layer.blend, if layer.disabled then 1 else 0] ++
    padded 16 layer.groupName ++ padded 16 layer.palette ++
    padded selCap layer.target.ops ++ [u8 layer.target.ops.length] ++
    padded (sceneMaxSteps * 23) (layer.steps.flatMap packStep)

def unpackColor (bs : List Byte) (offset : ℕ) : ColorRef :=
  ⟨readByte bs offset, colorAt bs (offset + 1)⟩

def unpackStep (bs : List Byte) (offset : ℕ) : SceneStep where
  animType := ofCode animationCodes .solid (readByte bs offset)
  flags := readByte bs (offset + 1)
  durationMs := le16 (readByte bs (offset + 2)) (readByte bs (offset + 3))
  colorFrom := unpackColor bs (offset + 4)
  colorTo := unpackColor bs (offset + 8)
  params i := readByte bs (offset + 12 + i)
  speedMs := le16 (readByte bs (offset + 18)) (readByte bs (offset + 19))
  animates := ofCode targetCodes .color (readByte bs (offset + 20))
  valueFrom := readByte bs (offset + 21)
  valueTo := readByte bs (offset + 22)

def unpackLayer (bs : List Byte) : SceneLayer where
  groupId := readByte bs 0
  startAfterGroupId := readByte bs 1
  startAfterStepIndex := readByte bs 2
  async := readByte bs 3
  blend := ofCode composeCodes .default (readByte bs 5)
  disabled := readByte bs 6 ≠ 0
  groupName := cString (readAt bs 7 16)
  palette := cString (readAt bs 23 16)
  target := ⟨(readAt bs 39 selCap).take (readByte bs 103).toNat,
    (List.length_take_le' _ _).trans (List.length_take_le _ _)⟩
  steps := (List.range (readByte bs 4).toNat).map fun k => unpackStep bs (104 + 23 * k)

/-- The packed layers, of which every code is one of the table. -/
def packedLayout : RecordLayout := ⟨packLayer, unpackLayer, fun _ => 1⟩

/-- A layer that shows a colour. -/
def solidLayer (groupId : Byte) : SceneLayer :=
  { SceneLayer.blank with groupId, steps := [{ SceneStep.zero with durationMs := 1000 }] }

/-- A stored scene of two layers. -/
def storedScene (version : Byte) : List Byte :=
  padded 11 (bytes "abcdefgh") ++ padded 31 (bytes "w") ++ [0, 0, 0, 0, version, 2] ++
    padded 32 [] ++ [0, 0, 128, 63] ++
    padded (sceneMaxLayers * sceneLayerSize) ([solidLayer 1, solidLayer 2].flatMap packLayer)

def storedFile (version : Byte) : File := [dbVersion, sceneModelVersion, 0, 0, 0] ++ storedScene version

/-- A service that plays another scene, of one layer. -/
def playingService : ScenesService :=
  ⟨(ScenePlayer.init pairScene).loadAndPlay pairProviders [solidLayer 3]
    (plainHeader true 1) 0, false, false⟩

/-- The layers are read up to the end of the first. -/
def cutShort : PlayFaults := fun a => if a = .layersRead then some sceneLayerSize else none

namespace ScenesService

theorem cutShort_loadsSafely_iff :
    LoadsSafely packedLayout pairProviders noFaults cutShort (bytes "abcdefgh") [] none 100
        playingService (storedFile 8) ↔
      Loadable packedLayout noFaults cutShort (bytes "abcdefgh") playingService (storedFile 8) :=
  loadsSafely_iff packedLayout pairProviders noFaults cutShort (bytes "abcdefgh") [] none 100
    playingService (storedFile 8) (by decide +kernel)

/-- After a read that is cut short, the first layer of the scene is played in place of that of the
scene before it; and a scene is played whose schema is too new to be read. -/
theorem cutShort_plays :
    ¬ LoadsSafely packedLayout pairProviders noFaults cutShort (bytes "abcdefgh") [] none 100
        playingService (storedFile 8) ∧
      ¬ LoadsSafely packedLayout pairProviders noFaults noPlayFaults (bytes "abcdefgh") [] none 100
        playingService (storedFile 9) := by
  refine ⟨fun h => ?_, fun h => ?_⟩
  · obtain ⟨hplays, -⟩ := h.failed (by decide +kernel) [.resume pairProviders 200]
    have hlayer := hplays (by decide +kernel) 0 (by decide +kernel)
    exact absurd (congrArg SceneLayer.groupId hlayer) (by decide +kernel)
  · have hunread (r : List Byte) :
        (sceneStore.get noFaults (bytes "abcdefgh") (storedFile 9)).1 ≠ .ok r := by
      have hcodec : (sceneStore.get noFaults (bytes "abcdefgh") (storedFile 9)).1 =
          .error .codec := by decide +kernel
      rw [hcodec]
      nofun
    exact absurd (h.rejected rfl rfl rfl hunread) (by decide +kernel)

end ScenesService

end Lightnet
