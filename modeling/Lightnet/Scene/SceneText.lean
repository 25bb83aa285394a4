import Mathlib.Algebra.Order.Floor.Ring
import Lightnet.Json.Walk
import Lightnet.Scene.Parser

/-!
# What a scene says

The values that a document gives to a scene, its layers and its steps: strings decoded and numbers
as they are written, of every key its last member. The parser is not asked for them, except for the
programs of selector tokens.
-/

namespace Lightnet

/-! ### The parts of a document that are read -/

/-- What a value of a scene document is taken for. -/
inductive DocKind where
  | other | uint | decimal | uints | scene | layers | layer | sequence | step | color | colors
  | panels | panelList
  deriving DecidableEq

namespace DocKind

/-- The names that an object is searched for. -/
def fields : DocKind → List (String × DocKind)
  | scene => [("schemaVersion", uint), ("name", other), ("loop", other), ("speed", decimal),
      ("palette", other), ("colors", colors), ("background", color), ("layers", layers)]
  | layer => [("group", uint), ("async", other), ("blend", other), ("disabled", other),
      ("startAfter", other), ("panels", panels), ("palette", other), ("sequence", sequence)]
  | step => [("id", other), ("type", other), ("runner", other), ("colorFrom", color),
      ("colorTo", color), ("color", color), ("duration", uint), ("loop", other),
      ("pingpong", other), ("params", uints), ("from", uint), ("to", uint), ("waveWidth", uint),
      ("rippleWidth", uint), ("width", uint), ("thickness", uint), ("lines", uint),
      ("source", other), ("directionality", other), ("reverse", other), ("count", uint),
      ("repeatCount", uint), ("waves", uint), ("speed", uint), ("angle", uint),
      ("originPanel", uint), ("animates", other), ("amount", uint)]
  | color => [("palette", uint), ("useColor", uint), ("r", uint), ("g", uint), ("b", uint)]
  | colors => [("primary", other), ("secondary", other), ("tertiary", other)]
  | panels => [("any", panelList), ("all", panelList), ("not", panels), ("exclude", uints)]
  | _ => []

/-- What the elements of a list are taken for. -/
def item : DocKind → DocKind
  | uints => uint
  | layers => layer
  | sequence => step
  | panels => uint
  | panelList => panels
  | _ => other

def names (k : DocKind) : List Text := k.fields.map fun f => bytes f.1

def member (k : DocKind) (key : Text) : DocKind :=
  ((k.fields.find? fun f => bytes f.1 = key).map Prod.snd).getD other

/-- The whole literal is a number that the reader knows. -/
def number (k : DocKind) (t : Text) : Bool :=
  match k with
  | uint => decide (Digits t)
  | decimal => decide (ch 'e' ∉ t ∧ ch 'E' ∉ t)
  | _ => true

/-- Cut off at a NUL the name is none of the known ones. -/
def sees (k : DocKind) (key : Text) : Bool := decide (0 ∉ key ∨ cString key ∉ k.names)

end DocKind

mutual

/-- The readers come to the end of every name and of every number, as far as the document is
read. -/
def Json.legible : DocKind → Json → Bool
  | k, .literal t => k.number t
  | _, .string _ => true
  | k, .array as => itemsLegible k.item as
  | k, .object ms => k.fields.isEmpty || membersLegible k ms

def itemsLegible : DocKind → List Json → Bool
  | _, [] => true
  | k, a :: as => a.legible k && itemsLegible k as

def membersLegible : DocKind → List (Text × Json) → Bool
  | _, [] => true
  | k, m :: ms => memberLegible k m && membersLegible k ms

def memberLegible : DocKind → Text × Json → Bool
  | k, (name, j) => (decoded name).elim false fun key => k.sees key && j.legible (k.member key)

end

/-! ### Steps -/

/-- The three bytes of a colour; the first one is the position where it refers to a palette. -/
def ColorRGB.channel (c : ColorRGB) : Fin 3 → Byte := ![c.r, c.g, c.b]

/-- The numbers that are written for the bytes of a colour. -/
abbrev ChannelText := Fin 3 → Option ℚ

def noteChannel (cs : ChannelText) (key : Text) (j : Json) : ChannelText :=
  if key = bytes "palette" ∨ key = bytes "useColor" then ![some j.number, none, none]
  else if key = bytes "r" then Function.update cs 0 (some j.number)
  else if key = bytes "g" then Function.update cs 1 (some j.number)
  else if key = bytes "b" then Function.update cs 2 (some j.number)
  else cs

/-- A colour that is written as one string has no numbers. -/
def channelText (j : Json) : ChannelText := noteMembers noteChannel (fun _ => none) j.members

/-- The numbers that a step holds. -/
inductive StepNum where
  | duration | speed | valueFrom | valueTo
  | param (i : RunnerParam)
  | colorFrom (i : Fin 3)
  | colorTo (i : Fin 3)
  deriving DecidableEq

def StepNum.of (step : SceneStep) : StepNum → ℕ
  | duration => step.durationMs.toNat
  | speed => step.speedMs.toNat
  | valueFrom => step.valueFrom.toNat
  | valueTo => step.valueTo.toNat
  | param i => (step.params i).toNat
  | colorFrom i => (step.colorFrom.raw.channel i).toNat
  | colorTo i => (step.colorTo.raw.channel i).toNat

/-- An inverting step has no values, and a solid modifier ends nowhere: they are zero whatever is
written. -/
def SceneStep.Uses (step : SceneStep) : StepNum → Prop
  | .valueFrom => step.animates ≠ .invert
  | .valueTo => step.animates ≠ .invert ∧ ¬(step.animType = .solid ∧ step.animates ≠ .color)
  | _ => True

/-- The id of a step and the numbers that are written for it. -/
structure StepText where
  id : Text
  nums : StepNum → Option ℚ

namespace StepText

def blank : StepText := ⟨[], fun _ => none⟩

def put (w : StepText) (i : StepNum) (v : ℚ) : StepText :=
  { w with nums := Function.update w.nums i (some v) }

/-- A number that is set by something else than a number. -/
def forget (w : StepText) (i : StepNum) : StepText :=
  { w with nums := Function.update w.nums i none }

/-- The numbers of `params`, from the first slot on. -/
def putParams (w : StepText) (vs : List ℚ) : StepText :=
  { w with
    nums := fun
      | .param i => if h : i.val < vs.length then some vs[i.val] else w.nums (.param i)
      | i => w.nums i }

def putColorFrom (w : StepText) (cs : ChannelText) : StepText :=
  { w with
    nums := fun
      | .colorFrom i => cs i
      | i => w.nums i }

def putColorTo (w : StepText) (cs : ChannelText) : StepText :=
  { w with
    nums := fun
      | .colorTo i => cs i
      | i => w.nums i }

/-- The number at the key of a step. -/
def noteNum (w : StepText) (key : Text) (v : ℚ) : StepText :=
  if key = bytes "duration" then w.put .duration v
  else if key = bytes "from" then w.put .valueFrom v
  else if key = bytes "to" then w.put .valueTo v
  else if key = bytes "waveWidth" ∨ key = bytes "rippleWidth" ∨ key = bytes "width" ∨
      key = bytes "thickness" then w.put (.param .width) v
  else if key = bytes "lines" ∨ key = bytes "count" ∨ key = bytes "repeatCount" ∨
      key = bytes "waves" then w.put (.param 5) v
  else if key = bytes "source" then
    ((w.forget (.param .srcKind)).forget (.param .srcArg)).forget (.param .flags)
  else if key = bytes "directionality" ∨ key = bytes "reverse" then w.forget (.param .flags)
  else if key = bytes "speed" then w.put .speed v
  -- in steps of two degrees
  else if key = bytes "angle" then w.put (.param .srcArg) ((⌊v⌋ % 360 / 2 : ℤ) : ℚ)
  else if key = bytes "originPanel" then (w.forget (.param .srcKind)).put (.param .srcArg) v
  else if key = bytes "amount" then w.put (.param .amount) v
  else w

/-- A member of a step. -/
def note (w : StepText) (key : Text) (j : Json) : StepText :=
  if key = bytes "id" then { w with id := j.text }
  else if key = bytes "params" then w.putParams (j.items.map Json.number)
  else if key = bytes "colorFrom" then w.putColorFrom (channelText j)
  else if key = bytes "colorTo" ∨ key = bytes "color" then w.putColorTo (channelText j)
  else { w with nums := (w.noteNum key j.number).nums }

end StepText

def stepText (ms : List (Text × Json)) : StepText := noteMembers StepText.note .blank ms

/-! ### Panels -/

/-- The program of a token, as far as the buffer of the parser shows it. -/
def tokenCode (tok : Text) : List Byte :=
  match selEmitToken (cString (tok.take 39)) .clear with
  | .ok out => out.ops
  | .error _ => []

def opNumber (op : SelOp) : ℚ := op.toByte.toNat

/-- The program of a list of indices, with the numbers as they are written. -/
def indexPanels (complement : Bool) (as : List Json) : List ℚ :=
  [opNumber .indices, as.length] ++ as.map Json.number ++
    if complement then [opNumber .not] else []

mutual

/-- The program for the panels, with the numbers as they are written. -/
def Json.panels : Json → List ℚ
  | .literal _ => []
  | .string s => (tokenCode ((decoded s).getD [])).map fun b => (b.toNat : ℚ)
  | .array as => indexPanels false as
  | .object ms => membersPanels ms

def membersPanels : List (Text × Json) → List ℚ
  | [] => []
  | m :: ms => memberPanels m ++ membersPanels ms

def memberPanels : Text × Json → List ℚ
  | (name, j) => (decoded name).elim [] fun key =>
    if key = bytes "any" then listPanels .or j
    else if key = bytes "all" then listPanels .and j
    else if key = bytes "not" then j.panels ++ [opNumber .not]
    else if key = bytes "exclude" then indexPanels true j.items
    else []

def listPanels (op : SelOp) : Json → List ℚ
  | .array as => joinedPanels op 0 as
  | _ => []

/-- The parts behind the first `cnt`, each joined with those before it. -/
def joinedPanels (op : SelOp) : ℕ → List Json → List ℚ
  | _, [] => []
  | cnt, a :: as => a.panels ++ (if 1 ≤ cnt then [opNumber op] else []) ++
      joinedPanels op (cnt + 1) as

end

/-! ### Layers -/

/-- A group is a name or a number; `groupName` is the last name that was given. -/
structure LayerText where
  group : Option (Text ⊕ ℚ)
  groupName : Text
  palette : Text
  panels : List ℚ
  startAfter : Text
  steps : List StepText

def groupText : Json → Text ⊕ ℚ
  | .string s => .inl ((decoded s).getD [])
  | j => .inr j.number

namespace LayerText

def blank : LayerText := ⟨none, [], [], [opNumber .all], [], []⟩

/-- A member of a layer; the steps of a sequence are added to the ones the layer has. -/
def note (w : LayerText) (key : Text) (j : Json) : LayerText :=
  if key = bytes "group" then
    { w with
      group := some (groupText j)
      groupName := (groupText j).elim id fun _ => w.groupName }
  else if key = bytes "startAfter" then { w with startAfter := j.text }
  else if key = bytes "palette" then { w with palette := j.text }
  else if key = bytes "panels" then { w with panels := j.panels }
  else if key = bytes "sequence" then
    { w with steps := w.steps ++ j.items.map fun a => stepText a.members }
  else w

end LayerText

def layerText (ms : List (Text × Json)) : LayerText := noteMembers LayerText.note .blank ms

/-! ### Scenes -/

structure SceneText where
  version : ℚ
  name : Text
  palette : Text
  background : ChannelText
  layers : List LayerText

namespace SceneText

def blank : SceneText := ⟨1, [], userColorsPaletteName, fun _ => none, []⟩

/-- A member of a scene; its layers are added to the ones it has. -/
def note (w : SceneText) (key : Text) (j : Json) : SceneText :=
  if key = bytes "schemaVersion" then { w with version := j.number }
  else if key = bytes "name" then { w with name := j.text }
  else if key = bytes "palette" then { w with palette := j.text }
  else if key = bytes "background" then { w with background := channelText j }
  else if key = bytes "layers" then
    { w with layers := w.layers ++ j.items.map fun a => layerText a.members }
  else w

end SceneText

/-- What an object says as a scene. -/
def sceneText (ms : List (Text × Json)) : SceneText := noteMembers SceneText.note .blank ms

end Lightnet
