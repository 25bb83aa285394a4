import Lightnet.Scene.Record

/-!
# The scene parser

Which keys map to which fields, and what a scene must satisfy beyond its fields. Groups are named
by text or by number; a name is given the next number when it is first met, and `startAfter`
refers to names, which are resolved after all layers have been read.
-/

namespace Lightnet

open Parse

abbrev groupNameLen : ℕ := 16

abbrev stepNameLen : ℕ := 16

abbrev startAfterLen : ℕ := groupNameLen + stepNameLen

/-! ### Group names -/

structure NameTable where
  entries : List (Text × Byte)
  nextAuto : Byte

namespace NameTable

def reset : NameTable := ⟨[], 1⟩

/-- The number of a name, and zero where it has none. -/
def find (names : NameTable) (name : Text) : Byte :=
  match names.entries.find? (·.1 = name) with
  | some (_, id) => id
  | none => 0

/-- The number of a name, which is given one if there is room. -/
def intern (names : NameTable) (name : Text) : Byte × NameTable :=
  match names.entries.find? (·.1 = name) with
  | some (_, id) => (id, names)
  | none =>
    if sceneMaxLayers ≤ names.entries.length then (0, names)
    else (names.nextAuto, ⟨names.entries ++ [(name, names.nextAuto)], names.nextAuto + 1⟩)

end NameTable

/-! ### Colours, animations and runners -/

def jsonParseHexColor : Text → Option ColorRGB
  | [hash, r1, r0, g1, g0, b1, b0] =>
    if hash ≠ ch '#' then none
    else
      match jsonHexVal r1, jsonHexVal r0, jsonHexVal g1, jsonHexVal g0, jsonHexVal b1,
        jsonHexVal b0 with
      | some r1, some r0, some g1, some g0, some b1, some b0 =>
        some ⟨u8 (r1 * 16 + r0), u8 (g1 * 16 + g0), u8 (b1 * 16 + b0)⟩
      | _, _, _, _, _, _ => none
  | _ => none

def parseAnimTypeName (s : Text) : Option AnimationType :=
  if s = bytes "SOLID" then some .solid
  else if s = bytes "FADE" then some .fade
  else if s = bytes "TRANSITION" then some .transition
  else if s = bytes "BREATHE" then some .breathe
  else if s = bytes "PULSE" then some .pulse
  else if s = bytes "BLINK" then some .blink
  else if s = bytes "HUE_CYCLE" then some .hueCycle
  else if s = bytes "STROBE" then some .strobe
  else if s = bytes "REACTIVE" then some .reactive
  else none

def parseRunnerName (s : Text) : Option AnimationType :=
  if s = bytes "WAVE" then some .wave
  else if s = bytes "RIPPLE" then some .ripple
  else if s = bytes "CHASE" then some .chase
  else if s = bytes "WHEEL" then some .wheel
  else if s = bytes "BOUNCE" then some .bounce
  else if s = bytes "RAIN" then some .rain
  else if s = bytes "SPARKLE" then some .sparkle
  else if s = bytes "MATRIX" then some .matrix
  else none

def parseAnimateTarget (s : Text) : Option AnimateTarget :=
  if s = bytes "color" then some .color
  else if s = bytes "dim" then some .dim
  else if s = bytes "desaturate" then some .desaturate
  else if s = bytes "hue" then some .hue
  else if s = bytes "invert" then some .invert
  else if s = bytes "brighten" then some .brighten
  else if s = bytes "saturate" then some .saturate
  else none

def parseBlend (s : Text) : Option ComposeMode :=
  if s = bytes "opaque" then some .opaqueTop
  else if s = bytes "add" then some .add
  else if s = bytes "max" then some .max
  else if s = bytes "multiply" then some .multiply
  else if s = bytes "screen" then some .screen
  else if s = bytes "darken" then some .darken
  else if s = bytes "overlay" then some .overlay
  else if s = bytes "difference" then some .difference
  else if s = bytes "subtract" then some .subtract
  else none

/-- A message that shows the value it is about. -/
def msgFor (before : String) (s : Text) (after : String) : Option Text :=
  some (bytes before ++ s ++ bytes after)

/-- The digits of `atol`, behind white space and a sign; the strings it reads are short. -/
def atol (s : Text) : ℤ :=
  match s.dropWhile fun c => isSpace c || c = 0x0B || c = 0x0C with
  | [] => 0
  | c :: p =>
    if c = ch '-' then -(readIntPart 0 p).1
    else if c = ch '+' then (readIntPart 0 p).1
    else (readIntPart 0 (c :: p)).1

/-- One channel of an inline colour; the first one turns the reference white. -/
def setChannel (out : Option ColorRef) (key : Text) (v : Byte) : ColorRef :=
  let c := (out.getD (.rgb .white)).raw
  if key = bytes "r" then .rgb { c with r := v }
  else if key = bytes "g" then .rgb { c with g := v }
  else .rgb { c with b := v }

section

variable (skip : Skipper) (fuel : ℕ)

/-- A `#RRGGBB` string or an object with a palette position, a base colour or channels. -/
def parseColorRef (errMsg : Option Text) : Parse ColorRef := do
  match ← peek with
  | none => reject errMsg
  | some c =>
    if c = ch '"' then
      let s ← readOr errMsg (jsonReadString 16)
      match jsonParseHexColor s with
      | none => reject errMsg
      | some rgb => pure (.rgb rgb)
    else
      enter errMsg jsonEnterObject
      let out ← whileKey 12 (fun key (out : Option ColorRef) => do
        if key = bytes "palette" then
          let v ← uintWhere errMsg (· ≤ 255)
          pure (some (.palette (u8 v)))
        else if key = bytes "useColor" then
          let v ← uintWhere errMsg (· ≤ 2)
          pure (some (.useColor (u8 v)))
        else if key = bytes "r" ∨ key = bytes "g" ∨ key = bytes "b" then
          let v ← uintWhere errMsg (· ≤ 255)
          pure (some (setChannel out key (u8 v)))
        else
          skipUnknown skip
          pure out) fuel none
      match out with
      | none => reject errMsg
      | some ref => pure ref

/-! ### Steps -/

/-- A step with whether its type or runner has been read. -/
abbrev StepDraft := SceneStep × Bool

/-- The type or the runner of a step; only one of them may be given. -/
def parseStepType (len : ℕ) (notString : Option Text) (unknown : String)
    (parse : Text → Option AnimationType) (draft : StepDraft) : Parse StepDraft := do
  let s ← readOr notString (jsonReadString len)
  match parse s with
  | none => reject (msgFor unknown s "")
  | some t =>
    ensure (msg "step: type and runner both set") (!draft.2)
    pure ({ draft.1 with animType := t }, true)

/-- A field of the step that is read as a number within bounds. -/
def stepUInt (errMsg : Option Text) (accept : ℕ → Bool) (set : SceneStep → ℕ → SceneStep)
    (draft : StepDraft) : Parse StepDraft := do
  let v ← uintWhere errMsg accept
  pure (set draft.1 v, draft.2)

/-- A field of the step that is changed when the value is `true`. -/
def stepBool (errMsg : Option Text) (set : SceneStep → SceneStep) (draft : StepDraft) :
    Parse StepDraft := do
  let b ← readOr errMsg jsonReadBool
  pure (if b then set draft.1 else draft.1, draft.2)

def stepColor (errMsg : Option Text) (set : SceneStep → ColorRef → SceneStep)
    (draft : StepDraft) : Parse StepDraft := do
  let ref ← parseColorRef skip fuel errMsg
  pure (set draft.1 ref, draft.2)

/-- A field of the step that is read as one of some words. -/
def stepWord (errMsg : Option Text) (unknown : String) (set : SceneStep → Text →
    Except (Option Text) SceneStep) (draft : StepDraft) : Parse StepDraft := do
  let s ← readOr errMsg (jsonReadString 16)
  let step ← lift (match set draft.1 s with
    | .error none => .error (msgFor unknown s ")")
    | other => other)
  pure (step, draft.2)

def SceneStep.setFlag (step : SceneStep) (flag : Byte) : SceneStep :=
  { step with flags := step.flags ||| flag }

def SceneStep.setRunnerFlag (step : SceneStep) (flag : Byte) : SceneStep :=
  step.setParam .flags (step.params .flags ||| flag)

def parseSource (step : SceneStep) (s : Text) : Except (Option Text) SceneStep :=
  if s = bytes "root" then .ok (step.setParam .srcKind (RunnerSource.toByte .root))
  else if s = bytes "leaves" then .ok (step.setParam .srcKind (RunnerSource.toByte .leaves))
  else if s = bytes "all" then .ok (step.setParam .srcKind (RunnerSource.toByte .all))
  else if s = bytes "geometric" then .ok (step.setRunnerFlag runnerFlagGeometric)
  else if bytes "panel:" <+: s then
    let n := atol (s.drop 6)
    if n < 1 ∨ 255 < n then .error (msg "step.source: bad panel index")
    else .ok ((step.setParam .srcKind (RunnerSource.toByte .panel)).setParam .srcArg (u8 n.toNat))
  else .error none

def parseDirectionality (step : SceneStep) (s : Text) : Except (Option Text) SceneStep :=
  if s = bytes "geometric" then .ok (step.setRunnerFlag runnerFlagGeometric)
  else if s = bytes "topology" then
    .ok (step.setParam .flags (step.params .flags &&& ~~~ runnerFlagGeometric))
  else .error none

def parseAnimates (step : SceneStep) (s : Text) : Except (Option Text) SceneStep :=
  match parseAnimateTarget s with
  | some target => .ok { step with animates := target }
  | none => .error none

theorem paramSlot_lt {pi : ℕ} (h : pi < 5) : pi < 6 := Nat.lt_succ_of_lt h

/-- The elements of `params`, from the first slot on. -/
def parseParams (draft : StepDraft) : Parse StepDraft := do
  enter (msg "step.params: expected array") jsonEnterArray
  let (step, _) ← whileElement (fun (step, pi) => do
    let v ← uintWhere (msg "step.params[i] out of range") (· ≤ 255)
    if h : pi < 5 then
      pure (SceneStep.setParam step ⟨pi, paramSlot_lt h⟩ (u8 v), pi + 1)
    else reject (msg "step.params too long (max 5)")) fuel (draft.1, 0)
  pure (step, draft.2)

def handleStepField (key : Text) (draft : StepDraft) : Parse StepDraft :=
  if key = bytes "type" then
    parseStepType 20 (msg "step.type: not a string") "unknown animType: " parseAnimTypeName draft
  else if key = bytes "runner" then
    parseStepType 16 (msg "step.runner: not a string") "unknown runner: " parseRunnerName draft
  else if key = bytes "colorFrom" then
    stepColor skip fuel (msg "step.colorFrom: invalid color ref")
      (fun step ref => { step with colorFrom := ref }) draft
  else if key = bytes "colorTo" ∨ key = bytes "color" then
    stepColor skip fuel (msg "step.colorTo: invalid color ref")
      (fun step ref => { step with colorTo := ref }) draft
  else if key = bytes "duration" then
    stepUInt (msg "step.duration: not a uint") (fun _ => true)
      (fun step v => { step with durationMs := BitVec.ofNat 16 v }) draft
  else if key = bytes "loop" then
    stepBool (msg "step.loop: not bool") (·.setFlag flagLoop) draft
  else if key = bytes "pingpong" then
    stepBool (msg "step.pingpong: not bool") (·.setFlag flagPingpong) draft
  else if key = bytes "params" then parseParams fuel draft
  else if key = bytes "from" then
    stepUInt (msg "step.from: expected 0-255") (· ≤ 255)
      (fun step v => { step with valueFrom := u8 v }) draft
  else if key = bytes "to" then
    stepUInt (msg "step.to: expected 0-255") (· ≤ 255)
      (fun step v => { step with valueTo := u8 v }) draft
  else if key = bytes "waveWidth" ∨ key = bytes "rippleWidth" ∨ key = bytes "width" then
    stepUInt none (· ≤ 255) (fun step v => step.setParam .width (u8 v)) draft
  else if key = bytes "thickness" then
    stepUInt (msg "step.thickness: expected 0-255") (· ≤ 255)
      (fun step v => step.setParam .width (u8 v)) draft
  else if key = bytes "lines" then
    stepUInt (msg "step.lines: expected 1-6") (fun v => 1 ≤ v && v ≤ 6)
      (fun step v => step.setParam .lines (u8 v)) draft
  else if key = bytes "source" then
    stepWord (msg "step.source: not a string") "step.source: unknown (" parseSource draft
  else if key = bytes "directionality" then
    stepWord (msg "step.directionality: not a string") "step.directionality: unknown ("
      parseDirectionality draft
  else if key = bytes "reverse" then
    stepBool (msg "step.reverse: not bool") (·.setRunnerFlag runnerFlagReverse) draft
  else if key = bytes "count" then
    stepUInt (msg "step.count: out of range") (fun v => 1 ≤ v && v ≤ 30)
      (fun step v => step.setParam .count (u8 v)) draft
  else if key = bytes "repeatCount" ∨ key = bytes "waves" then
    stepUInt (msg "step.repeatCount: out of range") (· ≤ 255)
      (fun step v => step.setParam .waves (u8 v)) draft
  else if key = bytes "speed" then
    stepUInt (msg "step.speed: out of range") (· ≤ 65535)
      (fun step v => { step with speedMs := BitVec.ofNat 16 v }) draft
  else if key = bytes "angle" then
    stepUInt (msg "step.angle: not a uint") (fun _ => true)
      (fun step v => step.setParam .srcArg (u8 (v % 360 / 2))) draft
  else if key = bytes "originPanel" then
    stepUInt none (fun v => v ≠ 0 && v ≤ 255)
      (fun step v => (step.setParam .srcKind (RunnerSource.toByte .panel)).setParam .srcArg (u8 v))
      draft
  else if key = bytes "animates" then
    stepWord (msg "step.animates: not a string") "step.animates: unknown (" parseAnimates draft
  else if key = bytes "amount" then
    stepUInt (msg "step.amount: expected 0-255") (· ≤ 255)
      (fun step v => step.setParam .amount (u8 v)) draft
  else do
    skipUnknown skip
    pure draft

/-- What is set for a step whatever its keys say. -/
def finishStep (draft : StepDraft) : Except (Option Text) SceneStep :=
  let step : SceneStep := if draft.2 then draft.1 else { draft.1 with animType := .gap }
  if step.animType = .hueCycle ∧ step.animates ≠ .color then
    .error (msg "HUE_CYCLE: animates must be \"color\"")
  else
    let step : SceneStep :=
      if step.animates = .invert then { step with valueFrom := 0, valueTo := 0 } else step
    .ok (if step.animType = .solid ∧ step.animates ≠ .color then { step with valueTo := 0 }
      else step)

/-- The step of an object that has been entered, and its id, empty where it has none. -/
def parseStep : Parse (SceneStep × Text) := do
  let (draft, stepId) ← whileKey 20 (fun key (draft, stepId) => do
    if key = bytes "id" then
      let s ← readOr (msg "step.id: not a non-empty string") (jsonReadString stepNameLen)
      ensure (msg "step.id: not a non-empty string") (s ≠ [])
      ensure (msg "step.id: ':' is reserved, not allowed") (ch ':' ∉ s)
      pure (draft, s)
    else
      let draft ← handleStepField skip fuel key draft
      pure (draft, stepId)) fuel ((SceneStep.zero, false), [])
  let step ← lift (finishStep draft)
  pure (step, stepId)

/-! ### Layers -/

/-- A layer with what its names are resolved from. -/
structure LayerDraft where
  layer : SceneLayer
  names : NameTable
  startAfterName : Text
  stepIds : List Text

def parseGroup (d : LayerDraft) : Parse LayerDraft := do
  if (← peek) = some (ch '"') then
    let gname ← readOr (msg "layer.group: empty name") (jsonReadString groupNameLen)
    ensure (msg "layer.group: empty name") (gname ≠ [])
    let (id, names) := d.names.intern gname
    ensure (msg "layer.group: too many group names") (id ≠ 0)
    pure { d with names := names, layer := { d.layer with groupId := id, groupName := gname } }
  else
    let v ← uintWhere (msg "layer.group: must be 1-254 or a name") (fun v => v ≠ 0 && v ≤ 254)
    pure { d with layer := { d.layer with groupId := u8 v } }

def parseAsync : Parse Byte := do
  if (← peek) = some (ch '"') then
    let s ← readOr (msg "layer.async: invalid string") (jsonReadString 8)
    if s = bytes "free" then pure (layerAsyncLoop ||| layerAsyncNonBlocking)
    else if s = bytes "loop" then pure layerAsyncLoop
    else reject (msg "layer.async: expected true/false, \"loop\", or \"free\"")
  else
    let b ← readOr (msg "layer.async: expected bool or \"loop\"/\"free\"") jsonReadBool
    pure (if b then layerAsyncLoop else 0)

/-- The steps of a sequence are added to the ones the layer has. -/
def parseSequence (d : LayerDraft) : Parse LayerDraft := do
  enter (msg "layer.sequence: expected array") jsonEnterArray
  whileElement (fun d => do
    enter (msg "layer.sequence[]: expected object") jsonEnterObject
    ensure (msg "layer.sequence: too many steps") (d.layer.steps.length < sceneMaxSteps)
    let (step, stepId) ← parseStep skip fuel
    ensure (msgFor "layer.sequence: duplicate step id \"" stepId "\"")
      (stepId = [] ∨ stepId ∉ d.stepIds)
    pure { d with
      layer := { d.layer with steps := d.layer.steps ++ [step] },
      stepIds := d.stepIds ++ [stepId] }) fuel d

def handleLayerField (key : Text) (d : LayerDraft) : Parse LayerDraft := do
  if key = bytes "group" then parseGroup d
  else if key = bytes "async" then
    let async ← parseAsync
    pure { d with layer := { d.layer with async := async } }
  else if key = bytes "blend" then
    let s ← readOr (msg "layer.blend: not a string") (jsonReadString 12)
    match parseBlend s with
    | none => reject (msgFor "layer.blend: unknown (" s ")")
    | some blend => pure { d with layer := { d.layer with blend := blend } }
  else if key = bytes "disabled" then
    let b ← readOr (msg "layer.disabled: expected bool") jsonReadBool
    pure { d with layer := { d.layer with disabled := b } }
  else if key = bytes "startAfter" then
    let s ← readOr (msg "layer.startAfter: not a non-empty \"group\" or \"group:stepId\"")
      (jsonReadString startAfterLen)
    ensure (msg "layer.startAfter: not a non-empty \"group\" or \"group:stepId\"") (s ≠ [])
    pure { d with startAfterName := s }
  else if key = bytes "panels" then
    let target ← parsePanelSelector skip fuel
    pure { d with layer := { d.layer with target := target } }
  else if key = bytes "palette" then
    let s ← readOr (msg "layer.palette: not a string") (jsonReadString 16)
    pure { d with layer := { d.layer with palette := s } }
  else if key = bytes "sequence" then parseSequence skip fuel d
  else
    skipUnknown skip
    pure d

/-- The layer of an object that has been entered. -/
def parseLayer (names : NameTable) : Parse LayerDraft := do
  let d ← whileKey 16 (handleLayerField skip fuel) fuel ⟨.blank, names, [], []⟩
  ensure (msg "layer: missing group") (d.layer.groupId ≠ 0)
  ensure (msg "layer: empty sequence") (d.layer.steps ≠ [])
  pure d

/-! ### Scenes -/

def baseColorSlot (key : Text) : Option (Fin baseColorsCount) :=
  if key = bytes "primary" then some 0
  else if key = bytes "secondary" then some 1
  else if key = bytes "tertiary" then some 2
  else none

def parseColors (baseColors : Fin baseColorsCount → ColorRGB) :
    Parse (Fin baseColorsCount → ColorRGB) := do
  enter (msg "colors: expected object") jsonEnterObject
  whileKey 12 (fun key baseColors => do
    let hex ← readOr (msg "colors: value not a string") (jsonReadString 16)
    match jsonParseHexColor hex with
    | none => reject (msgFor "colors." key ": bad hex")
    | some c =>
      match baseColorSlot key with
      | some slot => pure (Function.update baseColors slot c)
      | none => pure baseColors) fuel baseColors

/-- A scene with what its names are resolved from. -/
structure SceneDraft where
  record : SceneRecord
  names : NameTable
  layers : List LayerDraft

def SceneDraft.start : SceneDraft := ⟨.default, .reset, []⟩

def parseLayers (d : SceneDraft) : Parse SceneDraft := do
  enter (msg "layers: expected array") jsonEnterArray
  whileElement (fun d => do
    enter (msg "layers[]: expected object") jsonEnterObject
    ensure (msg "too many layers") (d.layers.length < sceneMaxLayers)
    let layer ← parseLayer skip fuel d.names
    pure { d with names := layer.names, layers := d.layers ++ [layer] }) fuel d

/-- The single precision numbers nearest to the bounds of the speed. -/
def clampSpeed (speed : ℚ) : ℚ := min (max speed (Single.round (1 / 10))) 10

def handleSceneField (key : Text) (d : SceneDraft) : Parse SceneDraft := do
  if key = bytes "schemaVersion" then
    let v ← readOr (msg "schemaVersion: not uint") jsonReadUInt
    pure { d with record := { d.record with schemaVersion := u8 v } }
  else if key = bytes "name" then
    let s ← readOr (msg "name: not a string") (jsonReadString (sceneNameMax + 1))
    pure { d with record := { d.record with name := s } }
  else if key = bytes "loop" then
    let b ← readOr (msg "loop: not bool") jsonReadBool
    pure { d with record := { d.record with loop := b } }
  else if key = bytes "speed" then
    let speed ← readOr (msg "speed: not a number") jsonReadFloat
    pure { d with record := { d.record with speed := clampSpeed speed } }
  else if key = bytes "palette" then
    let s ← readOr (msg "palette: not a string") (jsonReadString 16)
    pure { d with record := { d.record with palette := s, hasPalette := true } }
  else if key = bytes "colors" then
    let baseColors ← parseColors fuel d.record.baseColors
    pure { d with record := { d.record with baseColors := baseColors, hasColors := true } }
  else if key = bytes "background" then
    let bg ← parseColorRef skip fuel (msg "background: must be an inline RGB colour")
    ensure (msg "background: must be an inline RGB colour") (bg.kind = 0)
    pure { d with record := { d.record with background := bg.raw } }
  else if key = bytes "layers" then parseLayers skip fuel d
  else
    skipUnknown skip
    pure d

def parseFields : Parse SceneDraft := do
  enter (msg "scene: expected \x7b") jsonEnterObject
  whileKey 20 (handleSceneField skip fuel) fuel .start

end

/-! ### What holds of a whole scene -/

def findGroup (layers : List SceneLayer) (id : Byte) : Option SceneLayer :=
  layers.find? (·.groupId = id)

/-- The group and the step of a reference; the step is empty where it names the whole sequence. -/
def splitStartAfter (name : Text) : Except (Option Text) (Text × Text) :=
  match name.dropWhile (· ≠ ch ':') with
  | [] => .ok (name.take (groupNameLen - 1), [])
  | _ :: step =>
    if step = [] then .error (msg "startAfter: empty step id after \":\"")
    else .ok ((name.takeWhile (· ≠ ch ':')).take (groupNameLen - 1), step.take (stepNameLen - 1))

def SceneDraft.stepIndex (d : SceneDraft) (id : Byte) (stepName : Text) : Option ℕ :=
  (d.layers.find? (·.layer.groupId = id)).bind fun t => t.stepIds.findIdx? (· = stepName)

def SceneDraft.resolve (d : SceneDraft) (l : LayerDraft) : Except (Option Text) SceneLayer :=
  if l.startAfterName = [] then .ok l.layer
  else do
    let (groupName, stepName) ← splitStartAfter l.startAfterName
    let id := d.names.find groupName
    if id = 0 then .error (msgFor "startAfter: unknown group \"" groupName "\"")
    else if id = l.layer.groupId then .error (msg "startAfter: layer cannot wait for itself")
    else
      let layer := { l.layer with startAfterGroupId := id, async := 0 }
      if stepName = [] then .ok layer
      else
        match d.stepIndex id stepName with
        | none => .error (some (bytes "startAfter: unknown step \"" ++ stepName ++
            bytes "\" in group \"" ++ groupName ++ bytes "\""))
        | some s => .ok { layer with startAfterStepIndex := u8 s }

/-- A step without an end may only be the last one. -/
def endsMidway (layer : SceneLayer) : Bool := layer.steps.dropLast.any (·.durationMs = 0)

/-- The layer waits for a last step without an end. -/
def waitsForEver (layers : List SceneLayer) (layer : SceneLayer) : Bool :=
  if layer.startAfterGroupId = 0 then false
  else
    match findGroup layers layer.startAfterGroupId with
    | none => false
    | some t =>
      let lastIdx := if layer.startAfterStepIndex = sceneNoStepIndex then t.steps.length - 1
        else layer.startAfterStepIndex.toNat
      (t.steps[lastIdx]?.map (·.durationMs)) = some 0 && lastIdx = t.steps.length - 1

/-- The chain of layers that wait for each other ends within `hops`. -/
def chainEnds (layers : List SceneLayer) : ℕ → SceneLayer → Bool
  | 0, _ => false
  | hops + 1, layer =>
    if layer.startAfterGroupId = 0 then true
    else
      match findGroup layers layer.startAfterGroupId with
      | none => true
      | some next => chainEnds layers hops next

def require (errMsg : Option Text) (b : Bool) : Except (Option Text) Unit :=
  if b then .ok () else .error errMsg

def SceneDraft.validate (d : SceneDraft) : Except (Option Text) SceneRecord := do
  let r := d.record
  require (some (bytes "schema_too_new: scene=" ++ bytes (Nat.repr r.schemaVersion.toNat) ++
    bytes " firmware=" ++ bytes (Nat.repr sceneSchemaVersion)))
    (r.schemaVersion.toNat ≤ sceneSchemaVersion)
  require (msg "name is required") (r.name ≠ [])
  require (msg "at least one layer required") (d.layers ≠ [])
  require (some (bytes "name: max " ++ bytes (Nat.repr sceneNameMax) ++ bytes " characters"))
    (isValidSceneName r.name)
  require (msg "duplicate group id across layers") (d.layers.map (·.layer.groupId)).Nodup
  require (msg "infinite step (duration=0) only allowed as last step")
    (!d.layers.any (endsMidway ·.layer))
  let layers ← d.layers.mapM d.resolve
  require (msg "startAfter: target step never ends (infinite last step)")
    (!layers.any (waitsForEver layers))
  require (msg "startAfter: dependency cycle") (layers.all (chainEnds layers (layers.length + 1)))
  pure { r with layers := layers }

def parseSceneWith (skip : Skipper) (fuel : ℕ) (json : Text) : Except Stop SceneRecord :=
  match parseFields skip fuel json with
  | .error stop => .error stop
  | .ok (d, _) =>
    match d.validate with
    | .error errMsg => .error (.rejected errMsg)
    | .ok r => .ok r

/-- The parser of the firmware, with fuel for its loops. -/
def parseScene (fuel : ℕ) : Text → Except Stop SceneRecord :=
  parseSceneWith (jsonSkipValue fuel) fuel

end Lightnet
