import Lightnet.Scene.Selector
import Lightnet.Animation.Player
import Mathlib.Data.Fin.VecNotation

/-!
# Scene records

A scene is a list of layers, a layer a program of steps for the panels it selects. A step is an
animation of the panels, a runner of the controller or a gap.
-/

namespace Lightnet

abbrev sceneMaxLayers : ℕ := 8

abbrev sceneMaxSteps : ℕ := 12

def sceneSchemaVersion : ℕ := 8

def sceneNameMax : ℕ := 30

/-- Stands for the whole sequence where a step is meant. -/
def sceneNoStepIndex : Byte := 0xFF

/-- The name of the palette made of the base colours. -/
def userColorsPaletteName : Text := bytes "Base colors"

abbrev RunnerParam := Fin 6

namespace RunnerParam

def width : RunnerParam := 0

def srcKind : RunnerParam := 1

def srcArg : RunnerParam := 2

def flags : RunnerParam := 3

def amount : RunnerParam := 4

/-- WHEEL: the number of blades. -/
def lines : RunnerParam := 5

/-- WAVE, RIPPLE and CHASE: the number of sweeps in a step. -/
def count : RunnerParam := 5

/-- RAIN, SPARKLE and MATRIX: the number of drops in a second. -/
def waves : RunnerParam := 5

end RunnerParam

def runnerFlagReverse : Byte := 0x01

def runnerFlagGeometric : Byte := 0x02

inductive RunnerSource where
  | root | leaves | all | panel
  deriving DecidableEq

def RunnerSource.toByte : RunnerSource → Byte
  | root => 0
  | leaves => 1
  | all => 2
  | panel => 3

def flagPingpong : Byte := 0x02

def layerAsyncLoop : Byte := 0x01

def layerAsyncNonBlocking : Byte := 0x02

structure SceneStep where
  animType : AnimationType
  flags : Byte
  durationMs : Ticks
  colorFrom : ColorRef
  colorTo : ColorRef
  params : RunnerParam → Byte
  speedMs : Ticks
  animates : AnimateTarget
  valueFrom : Byte
  valueTo : Byte
  deriving DecidableEq

def SceneStep.zero : SceneStep where
  animType := .solid
  flags := 0
  durationMs := 0
  colorFrom := .rgb .black
  colorTo := .rgb .black
  params := fun _ => 0
  speedMs := 0
  animates := .color
  valueFrom := 0
  valueTo := 0

def SceneStep.setParam (step : SceneStep) (i : RunnerParam) (v : Byte) : SceneStep :=
  { step with params := Function.update step.params i v }

/-- `startAfterGroupId` is zero where the layer does not wait for another. -/
structure SceneLayer where
  groupId : Byte
  startAfterGroupId : Byte
  startAfterStepIndex : Byte
  async : Byte
  blend : ComposeMode
  disabled : Bool
  groupName : Text
  palette : Text
  target : PanelSelector
  steps : List SceneStep
  deriving DecidableEq

/-- The layer before its object is read: it drives every panel. -/
def SceneLayer.blank : SceneLayer where
  groupId := 0
  startAfterGroupId := 0
  startAfterStepIndex := sceneNoStepIndex
  async := 0
  blend := .default
  disabled := false
  groupName := []
  palette := []
  target := .everyPanel
  steps := []

structure SceneRecord where
  name : Text
  schemaVersion : Byte
  loop : Bool
  speed : ℚ
  palette : Text
  hasPalette : Bool
  hasColors : Bool
  baseColors : Fin baseColorsCount → ColorRGB
  background : ColorRGB
  layers : List SceneLayer
  deriving DecidableEq

def SceneRecord.default : SceneRecord where
  name := []
  schemaVersion := 1
  loop := false
  speed := 1
  palette := userColorsPaletteName
  hasPalette := false
  hasColors := false
  baseColors := ![.white, .black, .black]
  background := .black
  layers := []

def isValidSceneName (name : Text) : Bool := name ≠ [] && name.length ≤ sceneNameMax

end Lightnet
