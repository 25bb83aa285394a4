import Lightnet.Json.Writing
import Lightnet.Library.SinglePrecision
import Lightnet.Scene.Record

/-!
# Writing scenes

The writer reads the record as it lies in memory: an enumeration is a byte that may have no name,
and an array goes as far as its count says. The helpers pass on a position; a position at or behind
the end of the buffer says that something did not fit.
-/

namespace Lightnet

open BoundedBuffer

structure StoredSelector where
  ops : ℕ → Byte
  len : Byte

structure StoredStep where
  animType : Byte
  flags : Byte
  durationMs : Ticks
  colorFrom : ColorRef
  colorTo : ColorRef
  params : Fin 6 → Byte
  speedMs : Ticks
  animates : Byte
  valueFrom : Byte
  valueTo : Byte

structure StoredLayer where
  groupId : Byte
  startAfterGroupId : Byte
  async : Byte
  stepCount : Byte
  blend : Byte
  disabled : Bool
  groupName : Text
  palette : Text
  target : StoredSelector
  steps : ℕ → StoredStep

inductive FloatValue where
  | finite (negative : Bool) (magnitude : ℚ)
  | infinite (negative : Bool)
  | nan
  deriving DecidableEq

structure StoredScene where
  id : Text
  name : Text
  schemaVersion : Byte
  layerCount : Byte
  loop : Bool
  palette : Text
  hasPalette : Bool
  hasColors : Bool
  baseColors : Fin 3 → ColorRGB
  background : ColorRGB
  speed : FloatValue
  layers : ℕ → StoredLayer

namespace SceneWriter

/-! ### Formats -/

/-- `%.2f` -/
def fixed2 : FloatValue → Text
  | .finite negative magnitude =>
    let cents := (Single.roundHalfEven (magnitude * 100)).toNat
    (if negative then [ch '-'] else []) ++ decimal (cents / 100) ++
      [ch '.', ch (Nat.digitChar (cents / 10 % 10)), ch (Nat.digitChar (cents % 10))]
  | .infinite negative => (if negative then [ch '-'] else []) ++ bytes "inf"
  | .nan => bytes "nan"

def hexDigit (n : ℕ) : Byte := (bytes "0123456789ABCDEF").getD n 0

def jsonFormatHex (c : ColorRGB) : Text :=
  ch '#' :: [c.r, c.g, c.b].flatMap fun x => [hexDigit (x.toNat >>> 4), hexDigit (x.toNat % 16)]

/-! ### Appending -/

structure Out where
  buf : Text
  pos : ℕ

abbrev Writer := StateT Out (Except Overrun) Unit

/-- The position goes on by the length of the text, also when it was cut. -/
def append (t : Text) : Writer := fun out =>
  if out.buf.length ≤ out.pos then .ok ((), out) else do
    return ((), ⟨← snprintf out.buf out.pos t, out.pos + t.length⟩)

def appendStr (s : String) : Writer := append (bytes s)

/-- A failure becomes the capacity. -/
def orCap (f : Text → ℕ → Write (Option ℕ × Text)) : Writer := fun out => do
  match ← f out.buf out.pos with
  | (some next, buf) => return ((), ⟨buf, next⟩)
  | (none, buf) => return ((), ⟨buf, buf.length⟩)

def appendJsonQuoted (str : Text) : Writer := orCap (jsonAppendQuotedString · · str)

def appendJsonStringField (key : String) (value : Text) (leadingComma : Bool) : Writer :=
  orCap (jsonAppendStringField · · (bytes key) value leadingComma)

/-- A text with one number. -/
def appendNum (s : String) (n : ℕ) : Writer := append (bytes s ++ decimal n)

def when (b : Bool) (w : Writer) : Writer := if b then w else pure ()

def forEach : ℕ → (ℕ → Writer) → Writer
  | 0, _ => pure ()
  | n + 1, f => do
    forEach n f
    f n

/-! ### Names -/

def animTypeWireName (t : Byte) : Option String :=
  match t.toNat with
  | 0 => some "SOLID"
  | 1 => some "FADE"
  | 2 => some "TRANSITION"
  | 3 => some "BREATHE"
  | 4 => some "PULSE"
  | 5 => some "BLINK"
  | 6 => some "HUE_CYCLE"
  | 7 => some "STROBE"
  | 8 => some "REACTIVE"
  | 64 => some "WAVE"
  | 65 => some "RIPPLE"
  | 66 => some "CHASE"
  | 67 => some "WHEEL"
  | 68 => some "BOUNCE"
  | 69 => some "RAIN"
  | 70 => some "SPARKLE"
  | 71 => some "MATRIX"
  | _ => none

def animateTargetName (t : Byte) : Option String :=
  match t.toNat with
  | 1 => some "dim"
  | 2 => some "desaturate"
  | 3 => some "hue"
  | 4 => some "invert"
  | 5 => some "brighten"
  | 6 => some "saturate"
  | _ => none

def blendWireName (blend : Byte) : Option String :=
  match blend.toNat with
  | 1 => some "opaque"
  | 2 => some "add"
  | 3 => some "max"
  | 4 => some "multiply"
  | 5 => some "screen"
  | 6 => some "darken"
  | 7 => some "overlay"
  | 8 => some "difference"
  | 9 => some "subtract"
  | _ => none

def animGap : Byte := 9

def runWave : Byte := 64

def runRipple : Byte := 65

def runChase : Byte := 66

def runWheel : Byte := 67

def runRain : Byte := 69

def runSparkle : Byte := 70

def runMatrix : Byte := 71

def isRunner (t : Byte) : Bool := 64 ≤ t.toNat

/-! ### The writer -/

def writeColorRef (c : ColorRef) : Writer :=
  if c.kind = 0 then
    append (bytes "\"" ++ jsonFormatHex c.raw ++ bytes "\"")
  else if c.kind = 1 then append (bytes "\x7b\"palette\":" ++ decimal c.raw.r.toNat ++ bytes "\x7d")
  else append (bytes "\x7b\"useColor\":" ++ decimal c.raw.r.toNat ++ bytes "\x7d")

def writeIndices (sel : StoredSelector) (n : ℕ) : Writer :=
  forEach n fun i => append ((if i = 0 then [] else [ch ',']) ++ decimal (sel.ops (2 + i)).toNat)

def writePanelSelector (sel : StoredSelector) : Writer :=
  if sel.len = 0 ∨ (sel.len = 1 ∧ sel.ops 0 = SelOp.toByte .all) then appendStr "\"all\""
  else if 2 ≤ sel.len.toNat ∧ sel.ops 0 = SelOp.toByte .indices then
    let n := (sel.ops 1).toNat
    let complement := 2 + n < sel.len.toNat ∧ sel.ops (2 + n) = SelOp.toByte .not
    if complement then do
      appendStr "\x7b\"exclude\":["
      writeIndices sel n
      appendStr "]\x7d"
    else do
      appendStr "["
      writeIndices sel n
      appendStr "]"
  else appendStr "\"all\""

def writeRunnerSource (step : StoredStep) : Writer :=
  let kind := step.params RunnerParam.srcKind
  if kind = RunnerSource.toByte .root then appendStr "\"source\":\"root\""
  else if kind = RunnerSource.toByte .leaves then appendStr "\"source\":\"leaves\""
  else if kind = RunnerSource.toByte .all then appendStr "\"source\":\"all\""
  else if kind = RunnerSource.toByte .panel then
    append (bytes "\"source\":\"panel:" ++ decimal (step.params RunnerParam.srcArg).toNat ++
      bytes "\"")
  else pure ()

def writeDirectionality (step : StoredStep) : Writer :=
  if step.params RunnerParam.flags &&& runnerFlagGeometric ≠ 0 then do
    appendStr ",\"directionality\":\"geometric\""
    when (step.params RunnerParam.srcArg ≠ 0)
      (appendNum ",\"angle\":" ((step.params RunnerParam.srcArg).toNat * 2))
  else do
    appendStr ","
    writeRunnerSource step

def writeRunnerParams (step : StoredStep) : Writer := do
  let param (i : RunnerParam) : ℕ := (step.params i).toNat
  when (param .width ≠ 0)
    (if step.animType = runWheel then appendNum ",\"thickness\":" (param .width)
      else appendNum ",\"width\":" (param .width))
  when (param .lines ≠ 0 ∧ step.animType = runWheel) (appendNum ",\"lines\":" (param .lines))
  when (param .count ≠ 0 ∧
      (step.animType = runWave ∨ step.animType = runRipple ∨ step.animType = runChase))
    (appendNum ",\"count\":" (param .count))
  when (param .waves ≠ 0 ∧
      (step.animType = runRain ∨ step.animType = runSparkle ∨ step.animType = runMatrix))
    (appendNum ",\"waves\":" (param .waves))
  when (step.speedMs ≠ 0) (appendNum ",\"speed\":" step.speedMs.toNat)
  when (param .amount ≠ 0) (appendNum ",\"amount\":" (param .amount))
  writeDirectionality step
  when (step.params RunnerParam.flags &&& runnerFlagReverse ≠ 0) (appendStr ",\"reverse\":true")

/-- The first two parameters, and those of the others that are not zero. -/
def writePrepareParams (step : StoredStep) : Writer := do
  append (bytes ",\"params\":[" ++ decimal (step.params 0).toNat ++ bytes "," ++
    decimal (step.params 1).toNat)
  when (step.params 2 ≠ 0) (appendNum "," (step.params 2).toNat)
  when (step.params 3 ≠ 0) (appendNum "," (step.params 3).toNat)
  when (step.params 4 ≠ 0) (appendNum "," (step.params 4).toNat)
  when (step.params 5 ≠ 0) (appendNum "," (step.params 5).toNat)
  appendStr "]"

def writeNamedStep (step : StoredStep) (name : String) : Writer := do
  appendStr "\x7b"
  append (bytes (if isRunner step.animType then "\"runner\":\"" else "\"type\":\"") ++ bytes name ++
    bytes "\"")
  when (step.colorFrom.kind ≠ 0 ∨ step.colorFrom.raw ≠ .black) do
    appendStr ",\"colorFrom\":"
    writeColorRef step.colorFrom
  appendStr ",\"color\":"
  writeColorRef step.colorTo
  when (0 < step.durationMs ∨ isRunner step.animType = false)
    (appendNum ",\"duration\":" step.durationMs.toNat)
  when (step.flags &&& flagLoop ≠ 0) (appendStr ",\"loop\":true")
  when (step.flags &&& flagPingpong ≠ 0) (appendStr ",\"pingpong\":true")
  when (step.animates ≠ 0)
    (match animateTargetName step.animates with
      | none => pure ()
      | some target => do
        append (bytes ",\"animates\":\"" ++ bytes target ++ bytes "\"")
        append (bytes ",\"from\":" ++ decimal step.valueFrom.toNat ++ bytes ",\"to\":" ++
          decimal step.valueTo.toNat))
  (if isRunner step.animType then writeRunnerParams step
    else when (step.params 0 ≠ 0 ∨ step.params 1 ≠ 0) (writePrepareParams step))
  appendStr "\x7d"

def writeStep (step : StoredStep) : Writer :=
  if step.animType = animGap then do
    appendStr "\x7b"
    when (0 < step.durationMs) (appendNum "\"duration\":" step.durationMs.toNat)
    appendStr "\x7d"
  else
    match animTypeWireName step.animType with
    | none => pure ()
    | some name => writeNamedStep step name

def groupWireName (layer : StoredLayer) : Option Text :=
  if layer.groupName = [] then none else some layer.groupName

/-- The group waited for, as the first layer with its id is called. -/
def writeStartAfter (layer : StoredLayer) (record : StoredScene) : Writer :=
  if layer.startAfterGroupId = 0 then pure ()
  else
    match (List.range record.layerCount.toNat).find? fun k =>
      (record.layers k).groupId = layer.startAfterGroupId with
    | none => pure ()
    | some k =>
      match groupWireName (record.layers k) with
      | some gn => do
        appendStr ",\"startAfter\":"
        appendJsonQuoted gn
      | none =>
        append (bytes ",\"startAfter\":\"" ++ decimal layer.startAfterGroupId.toNat ++ bytes "\"")

def writeGroup (layer : StoredLayer) : Writer :=
  match groupWireName layer with
  | some gn => do
    appendStr "\"group\":"
    appendJsonQuoted gn
  | none => appendNum "\"group\":" layer.groupId.toNat

def writeLayer (layer : StoredLayer) (record : StoredScene) : Writer := do
  appendStr "\x7b"
  writeGroup layer
  appendStr ",\"panels\":"
  writePanelSelector layer.target
  when (layer.palette ≠ []) (appendJsonStringField "palette" layer.palette true)
  when (layer.blend ≠ 0)
    (match blendWireName layer.blend with
      | none => pure ()
      | some blend => append (bytes ",\"blend\":\"" ++ bytes blend ++ bytes "\""))
  when layer.disabled (appendStr ",\"disabled\":true")
  (if layer.async &&& layerAsyncNonBlocking ≠ 0 then appendStr ",\"async\":\"free\""
    else when (layer.async &&& layerAsyncLoop ≠ 0) (appendStr ",\"async\":true"))
  writeStartAfter layer record
  appendStr ",\"sequence\":["
  forEach layer.stepCount.toNat fun s => do
    when (s ≠ 0) (appendStr ",")
    writeStep (layer.steps s)
  appendStr "]\x7d"

def writeScene (record : StoredScene) : Writer := do
  appendNum "\x7b\"schemaVersion\":" record.schemaVersion.toNat
  when (record.id ≠ []) (appendJsonStringField "id" record.id true)
  appendStr ",\"name\":"
  appendJsonQuoted record.name
  when record.loop (appendStr ",\"loop\":true")
  when (record.speed ≠ .finite false 1) (append (bytes ",\"speed\":" ++ fixed2 record.speed))
  when record.hasPalette (appendJsonStringField "palette" record.palette true)
  when record.hasColors
    (append (bytes ",\"colors\":\x7b\"primary\":\"" ++ jsonFormatHex (record.baseColors 0) ++
      bytes "\",\"secondary\":\"" ++ jsonFormatHex (record.baseColors 1) ++
      bytes "\",\"tertiary\":\"" ++ jsonFormatHex (record.baseColors 2) ++ bytes "\"\x7d"))
  when (record.background ≠ .black)
    (append (bytes ",\"background\":\"" ++ jsonFormatHex record.background ++ bytes "\""))
  appendStr ",\"layers\":["
  forEach record.layerCount.toNat fun i => do
    when (i ≠ 0) (appendStr ",")
    writeLayer (record.layers i) record
  appendStr "]\x7d"

def serializeScene (record : StoredScene) (buf : Text) : Write (Option ℕ × Text) :=
  if buf.length < 32 then .ok (none, buf) else do
    let out ← writeScene record ⟨buf, 0⟩
    if out.2.buf.length ≤ out.2.pos then return (none, out.2.buf)
    else return (some out.2.pos, ← writeAt out.2.buf out.2.pos [0])

/-! ### A writer puts a whole text or runs to the end of the buffer -/

/-- What a writer does to the buffer, where the text is the same for every buffer. -/
def Emits (w : Writer) (t : Text) : Prop :=
  ∀ out, ∃ out', w out = .ok ((), out') ∧ out'.buf.length = out.buf.length ∧
    ((out.pos + t.length < out.buf.length ∧ out'.pos = out.pos + t.length ∧
        out'.buf.take out'.pos = out.buf.take out.pos ++ t) ∨
      (out.buf.length ≤ out.pos + t.length ∧ out.buf.length ≤ out'.pos))

def Whole (w : Writer) : Prop := ∃ t, Emits w t

theorem Emits.append (t : Text) : Emits (append t) t := by
  intro out
  unfold SceneWriter.append
  by_cases hfull : out.buf.length ≤ out.pos
  · exact ⟨out, if_pos hfull, rfl, .inr ⟨by omega, hfull⟩⟩
  · obtain ⟨buf, hok, hlen, _, hall⟩ := snprintf_ok t (Nat.le_of_not_le hfull)
    rw [if_neg hfull, hok]
    refine ⟨⟨buf, out.pos + t.length⟩, rfl, hlen, ?_⟩
    by_cases hroom : out.pos + t.length < out.buf.length
    · refine .inl ⟨hroom, rfl, ?_⟩
      rw [hall hroom]
      exact take_terminated hroom
    · exact .inr ⟨by omega, Nat.le_of_not_lt hroom⟩

theorem Emits.orCap {f : Text → ℕ → Write (Option ℕ × Text)} {t : Text}
    (h : ∀ buf pos, Appends 0 buf pos t (f buf pos)) : Emits (orCap f) t := by
  intro out
  unfold SceneWriter.orCap
  simp only [bind, Except.bind, pure, Except.pure]
  rcases (h out.buf out.pos).cases with ⟨hroom, hok⟩ | ⟨hfull, buf, hbuf, _, hok⟩
  · rw [hok]
    exact ⟨_, rfl, length_terminated hroom, .inl ⟨hroom, rfl, take_terminated hroom⟩⟩
  · rw [hok]
    exact ⟨_, rfl, hbuf, .inr ⟨hfull, hbuf.ge⟩⟩

theorem Emits.bind {w : Writer} {f : Unit → Writer} {t u : Text} (hw : Emits w t)
    (hf : Emits (f ()) u) : Emits (w >>= f) (t ++ u) := by
  intro out
  obtain ⟨out₁, hok₁, hlen₁, h₁⟩ := hw out
  obtain ⟨out₂, hok₂, hlen₂, h₂⟩ := hf out₁
  have hok : (w >>= f) out = .ok ((), out₂) := by
    change (w out).bind (fun x => f x.1 x.2) = _
    rw [hok₁]
    exact hok₂
  refine ⟨out₂, hok, hlen₂.trans hlen₁, ?_⟩
  rw [List.length_append]
  rcases h₁ with ⟨hroom₁, hpos₁, htake₁⟩ | ⟨hfull₁, hpos₁⟩
  · rcases h₂ with ⟨hroom₂, hpos₂, htake₂⟩ | ⟨hfull₂, hpos₂⟩
    · refine .inl ⟨by omega, by omega, ?_⟩
      rw [htake₂, htake₁, List.append_assoc]
    · exact .inr ⟨by omega, by omega⟩
  · refine .inr ⟨by omega, ?_⟩
    rcases h₂ with ⟨hroom₂, hpos₂, _⟩ | ⟨hfull₂, hpos₂⟩
    · omega
    · omega

namespace Whole

theorem append (t : Text) : Whole (append t) := ⟨t, .append t⟩

theorem appendStr (s : String) : Whole (appendStr s) := append _

theorem appendNum (s : String) (n : ℕ) : Whole (appendNum s n) := append _

theorem appendJsonQuoted (str : Text) : Whole (appendJsonQuoted str) :=
  ⟨_, .orCap fun buf pos => jsonAppendQuotedString_appends buf pos str⟩

theorem appendJsonStringField (key : String) (value : Text) (leadingComma : Bool) :
    Whole (appendJsonStringField key value leadingComma) :=
  ⟨_, .orCap fun buf pos => jsonAppendStringField_appends buf pos (bytes key) value leadingComma⟩

theorem pure : Whole (Pure.pure ()) := by
  refine ⟨[], fun out => ⟨out, rfl, rfl, ?_⟩⟩
  by_cases hroom : out.pos < out.buf.length
  · exact .inl ⟨hroom, rfl, (List.append_nil _).symm⟩
  · exact .inr ⟨by rw [List.length_nil]; omega, by omega⟩

theorem bind {w : Writer} {f : Unit → Writer} (hw : Whole w) (hf : Whole (f ())) :
    Whole (w >>= f) :=
  have ⟨_, ht⟩ := hw
  have ⟨_, hu⟩ := hf
  ⟨_, ht.bind hu⟩

theorem ite {q : Prop} [Decidable q] {w w' : Writer} (hw : Whole w) (hw' : Whole w') :
    Whole (if q then w else w') := by
  split
  · exact hw
  · exact hw'

theorem when (b : Bool) {w : Writer} (hw : Whole w) : Whole (when b w) := ite hw pure

theorem forEach (n : ℕ) {f : ℕ → Writer} (hf : ∀ i, Whole (f i)) : Whole (forEach n f) := by
  induction n with
  | zero => exact pure
  | succ n ih => exact bind ih (hf n)

end Whole

theorem writeColorRef_whole (c : ColorRef) : Whole (writeColorRef c) :=
  .ite (.append _) (.ite (.append _) (.append _))

theorem writePanelSelector_whole (sel : StoredSelector) : Whole (writePanelSelector sel) := by
  have hindices (n : ℕ) : Whole (writeIndices sel n) := .forEach n fun i => .append _
  refine .ite (.appendStr _) (.ite (.ite ?_ ?_) (.appendStr _))
  · exact .bind (.appendStr _) (.bind (hindices _) (.appendStr _))
  · exact .bind (.appendStr _) (.bind (hindices _) (.appendStr _))

theorem writeRunnerSource_whole (step : StoredStep) : Whole (writeRunnerSource step) :=
  .ite (.appendStr _) (.ite (.appendStr _) (.ite (.appendStr _) (.ite (.append _) .pure)))

theorem writeDirectionality_whole (step : StoredStep) : Whole (writeDirectionality step) := by
  refine .ite ?_ ?_
  · exact .bind (.appendStr _) (.when _ (.appendNum _ _))
  · exact .bind (.appendStr _) (writeRunnerSource_whole step)

theorem writeRunnerParams_whole (step : StoredStep) : Whole (writeRunnerParams step) := by
  refine .bind (.when _ (.ite (.appendNum _ _) (.appendNum _ _))) ?_
  refine .bind (.when _ (.appendNum _ _)) ?_
  refine .bind (.when _ (.appendNum _ _)) ?_
  refine .bind (.when _ (.appendNum _ _)) ?_
  refine .bind (.when _ (.appendNum _ _)) ?_
  refine .bind (.when _ (.appendNum _ _)) ?_
  exact .bind (writeDirectionality_whole step) (.when _ (.appendStr _))

theorem writePrepareParams_whole (step : StoredStep) : Whole (writePrepareParams step) := by
  refine .bind (.append _) ?_
  refine .bind (.when _ (.appendNum _ _)) ?_
  refine .bind (.when _ (.appendNum _ _)) ?_
  refine .bind (.when _ (.appendNum _ _)) ?_
  exact .bind (.when _ (.appendNum _ _)) (.appendStr _)

theorem writeNamedStep_whole (step : StoredStep) (name : String) :
    Whole (writeNamedStep step name) := by
  have htarget : Whole (match animateTargetName step.animates with
      | none => pure ()
      | some target => do
        append (bytes ",\"animates\":\"" ++ bytes target ++ bytes "\"")
        append (bytes ",\"from\":" ++ decimal step.valueFrom.toNat ++ bytes ",\"to\":" ++
          decimal step.valueTo.toNat)) := by
    cases animateTargetName step.animates with
    | none => exact .pure
    | some target => exact .bind (.append _) (.append _)
  refine .bind (.appendStr _) (.bind (.append _) ?_)
  refine .bind (.when _ (.bind (.appendStr _) (writeColorRef_whole _))) ?_
  refine .bind (.appendStr _) (.bind (writeColorRef_whole _) ?_)
  refine .bind (.when _ (.appendNum _ _)) ?_
  refine .bind (.when _ (.appendStr _)) (.bind (.when _ (.appendStr _)) ?_)
  refine .bind (.when _ htarget) (.bind (.ite ?_ ?_) (.appendStr _))
  · exact writeRunnerParams_whole step
  · exact .when _ (writePrepareParams_whole step)

theorem writeStep_whole (step : StoredStep) : Whole (writeStep step) := by
  refine .ite ?_ ?_
  · exact .bind (.appendStr _) (.bind (.when _ (.appendNum _ _)) (.appendStr _))
  · cases animTypeWireName step.animType with
    | none => exact .pure
    | some name => exact writeNamedStep_whole step name

theorem writeStartAfter_whole (layer : StoredLayer) (record : StoredScene) :
    Whole (writeStartAfter layer record) := by
  refine .ite .pure ?_
  cases (List.range record.layerCount.toNat).find? fun k =>
      (record.layers k).groupId = layer.startAfterGroupId with
  | none => exact .pure
  | some k =>
      dsimp only
      cases groupWireName (record.layers k) with
      | none => exact .append _
      | some gn => exact .bind (.appendStr _) (.appendJsonQuoted gn)

theorem writeGroup_whole (layer : StoredLayer) : Whole (writeGroup layer) := by
  unfold writeGroup
  cases groupWireName layer with
  | none => exact .appendNum _ _
  | some gn => exact .bind (.appendStr _) (.appendJsonQuoted gn)

theorem writeLayer_whole (layer : StoredLayer) (record : StoredScene) :
    Whole (writeLayer layer record) := by
  have hblend : Whole (match blendWireName layer.blend with
      | none => pure ()
      | some blend => append (bytes ",\"blend\":\"" ++ bytes blend ++ bytes "\"")) := by
    cases blendWireName layer.blend with
    | none => exact .pure
    | some blend => exact .append _
  refine .bind (.appendStr _) (.bind (writeGroup_whole layer) (.bind (.appendStr _) ?_))
  refine .bind (writePanelSelector_whole _) (.bind (.when _ (.appendJsonStringField _ _ _)) ?_)
  refine .bind (.when _ hblend) (.bind (.when _ (.appendStr _)) ?_)
  refine .bind (.ite (.appendStr _) (.when _ (.appendStr _))) ?_
  refine .bind (writeStartAfter_whole layer record) (.bind (.appendStr _) ?_)
  refine .bind (.forEach _ fun s => ?_) (.appendStr _)
  exact .bind (.when _ (.appendStr _)) (writeStep_whole _)

theorem writeScene_whole (record : StoredScene) : Whole (writeScene record) := by
  refine .bind (.appendNum _ _) (.bind (.when _ (.appendJsonStringField _ _ _)) ?_)
  refine .bind (.appendStr _) (.bind (.appendJsonQuoted _) ?_)
  refine .bind (.when _ (.appendStr _)) (.bind (.when _ (.append _)) ?_)
  refine .bind (.when _ (.appendJsonStringField _ _ _)) (.bind (.when _ (.append _)) ?_)
  refine .bind (.when _ (.append _)) (.bind (.appendStr _) ?_)
  refine .bind (.forEach _ fun i => ?_) (.appendStr _)
  exact .bind (.when _ (.appendStr _)) (writeLayer_whole _ record)

theorem serializeScene_of_emits {record : StoredScene} {doc : Text}
    (hdoc : Emits (writeScene record) doc) (buf : Text) :
    ∃ r buf', serializeScene record buf = .ok (r, buf') ∧
      buf'.length = buf.length ∧
      ((32 ≤ buf.length ∧ doc.length < buf.length ∧ r = some doc.length ∧
          buf'.take (doc.length + 1) = doc ++ [0]) ∨
        ((buf.length < 32 ∨ buf.length ≤ doc.length) ∧ r = none)) := by
  unfold serializeScene
  by_cases hshort : buf.length < 32
  · exact ⟨none, buf, if_pos hshort, rfl, .inr ⟨.inl hshort, rfl⟩⟩
  rw [if_neg hshort]
  obtain ⟨out, hok, hlen, hout⟩ := hdoc ⟨buf, 0⟩
  simp only [bind, Except.bind, pure, Except.pure, hok]
  dsimp only at hlen hout
  rw [Nat.zero_add, List.take_zero, List.nil_append] at hout
  rcases hout with ⟨hroom, hpos, htake⟩ | ⟨hfull, hpos⟩
  · rw [if_neg (by omega)]
    have hlast : out.pos + [(0 : Byte)].length ≤ out.buf.length := by
      rw [List.length_singleton]
      omega
    obtain ⟨buf', hput⟩ := exists_writeAt [(0 : Byte)] hlast
    rw [hput]
    refine ⟨_, buf', rfl, (length_writeAt hput).trans hlen, .inl ⟨by omega, hroom, ?_, ?_⟩⟩
    · rw [hpos]
    · have hterm := take_writeAt hput
      rw [htake, hpos] at hterm
      exact hterm
  · rw [if_pos (by omega)]
    exact ⟨none, out.buf, rfl, hlen, .inr ⟨.inr hfull, rfl⟩⟩

/-- The buffer takes the whole document and its terminator, or the writer says that it does not. -/
theorem serializeScene_whole (record : StoredScene) :
    ∃ doc : Text, ∀ buf : Text, ∃ r buf', serializeScene record buf = .ok (r, buf') ∧
      buf'.length = buf.length ∧
      ((32 ≤ buf.length ∧ doc.length < buf.length ∧ r = some doc.length ∧
          buf'.take (doc.length + 1) = doc ++ [0]) ∨
        ((buf.length < 32 ∨ buf.length ≤ doc.length) ∧ r = none)) := by
  obtain ⟨doc, hdoc⟩ := writeScene_whole record
  exact ⟨doc, fun buf => serializeScene_of_emits hdoc buf⟩

end SceneWriter

end Lightnet
