import Lightnet.Json.Reading
import Lightnet.Scene.ParserSafety

/-!
# Members the scene parser does not know

The loops over the members of a scene, a layer, a step, a colour and a panels object pass over the
value of a name they do not know. They also have to read that name, and where an escape of the name
has no value they end there, as they do behind the last member. Only the loop over the base colours
of a scene reads a colour behind every name.
-/

namespace Lightnet

/-- A loop over the members of an object, with the names its body compares with. -/
structure ObjectLoop where
  State : Type
  keyLen : ℕ
  known : List Text
  body : Skipper → ℕ → Text → State → Parse State

namespace ObjectLoop

/-- As a C string the name is none of those, if it has a value at all. -/
def UnknownName (loop : ObjectLoop) (name : Text) : Prop :=
  ∀ s, Decodes name s → cString s ∉ loop.known

def run (loop : ObjectLoop) (fuel : ℕ) : ℕ → loop.State → Parse loop.State :=
  Parse.whileKey loop.keyLen (loop.body (jsonSkipValue fuel) fuel)

/-- The loop goes on at the rest, with what it has read so far. -/
def PassesOver (loop : ObjectLoop) (fuel : ℕ) (t rest : Text) : Prop :=
  ∀ d n, rest.length < n → loop.run fuel (n + 1) d t = loop.run fuel n d rest

/-- Other names than the known ones are skipped with their values. -/
structure Regular (loop : ObjectLoop) : Prop where
  short : ∀ key ∈ loop.known, key.length < loop.keyLen - 1
  skips : ∀ key ∉ loop.known, ∀ skip fuel d, loop.body skip fuel key d = (do
    Parse.skipUnknown skip
    pure d)
  consumes : ∀ key d, Consumes 0 fun skip n => loop.body skip n key d
  starts : Nonempty loop.State

end ObjectLoop

def sceneLoop : ObjectLoop where
  State := SceneDraft
  keyLen := 20
  known := ["schemaVersion", "name", "loop", "speed", "palette", "colors", "background",
    "layers"].map bytes
  body := handleSceneField

def layerLoop : ObjectLoop where
  State := LayerDraft
  keyLen := 16
  known := ["group", "async", "blend", "disabled", "startAfter", "panels", "palette",
    "sequence"].map bytes
  body := handleLayerField

/-- One member of a step; its id is kept apart from its fields. -/
def stepMember (skip : Skipper) (fuel : ℕ) (key : Text) (d : StepDraft × Text) :
    Parse (StepDraft × Text) :=
  match d with
  | (draft, stepId) => do
    if key = bytes "id" then
      let s ← Parse.readOr (Parse.msg "step.id: not a non-empty string") (jsonReadString stepNameLen)
      Parse.ensure (Parse.msg "step.id: not a non-empty string") (s ≠ [])
      Parse.ensure (Parse.msg "step.id: ':' is reserved, not allowed") (ch ':' ∉ s)
      pure (draft, s)
    else
      let draft ← handleStepField skip fuel key draft
      pure (draft, stepId)

def stepLoop : ObjectLoop where
  State := StepDraft × Text
  keyLen := 20
  known := ["id", "type", "runner", "colorFrom", "colorTo", "color", "duration", "loop",
    "pingpong", "params", "from", "to", "waveWidth", "rippleWidth", "width", "thickness", "lines",
    "source", "directionality", "reverse", "count", "repeatCount", "waves", "speed", "angle",
    "originPanel", "animates", "amount"].map bytes
  body := stepMember

/-- One member of an inline colour. -/
def colorRefMember (errMsg : Option Text) (skip : Skipper) (_fuel : ℕ) (key : Text)
    (out : Option ColorRef) : Parse (Option ColorRef) := do
  if key = bytes "palette" then
    let v ← Parse.uintWhere errMsg (· ≤ 255)
    pure (some (.palette (u8 v)))
  else if key = bytes "useColor" then
    let v ← Parse.uintWhere errMsg (· ≤ 2)
    pure (some (.useColor (u8 v)))
  else if key = bytes "r" ∨ key = bytes "g" ∨ key = bytes "b" then
    let v ← Parse.uintWhere errMsg (· ≤ 255)
    pure (some (setChannel out key (u8 v)))
  else
    Parse.skipUnknown skip
    pure out

def colorRefLoop (errMsg : Option Text) : ObjectLoop where
  State := Option ColorRef
  keyLen := 12
  known := ["palette", "useColor", "r", "g", "b"].map bytes
  body := colorRefMember errMsg

/-- The parts of a union or an intersection. -/
def selList (levels : ℕ) (op : SelOp) (skip : Skipper) (fuel : ℕ) (out : PanelSelector) :
    Parse (Bool × PanelSelector) := do
  Parse.enter (Parse.msg "panels.any/all: expected array") jsonEnterArray
  let (cnt, out) ← Parse.whileElement (fun (cnt, out) => do
    let out ← selAppend skip fuel levels out
    let out ← Parse.lift (Parse.emitAll tooComplex out (if 1 ≤ cnt then [op.toByte] else []))
    pure (cnt + 1, out)) fuel (0, out)
  Parse.ensure (Parse.msg "panels.any/all: empty") (cnt ≠ 0)
  pure (true, out)

/-- One member of a panels object, whose parts are at most `levels` values within each other. -/
def selMember (levels : ℕ) (skip : Skipper) (fuel : ℕ) (key : Text) (d : Bool × PanelSelector) :
    Parse (Bool × PanelSelector) :=
  match d with
  | (got, out) => do
    if key = bytes "any" ∨ key = bytes "all" then
      oneKey got
      selList levels (if key = bytes "any" then .or else .and) skip fuel out
    else if key = bytes "not" then
      oneKey got
      let out ← selAppend skip fuel levels out
      let out ← Parse.lift (Parse.emitAll tooComplex out [SelOp.toByte .not])
      pure (true, out)
    else if key = bytes "exclude" then
      oneKey got
      Parse.enter (Parse.msg "panels.exclude: expected array") jsonEnterArray
      let out ← selEmitIndexArray fuel true out
      pure (true, out)
    else
      Parse.skipUnknown skip
      pure (got, out)

def panelsLoop (levels : ℕ) : ObjectLoop where
  State := Bool × PanelSelector
  keyLen := 12
  known := ["any", "all", "not", "exclude"].map bytes
  body := selMember levels

/-- One member of the base colours of a scene. -/
def colorsMember (_skip : Skipper) (_fuel : ℕ) (key : Text)
    (baseColors : Fin baseColorsCount → ColorRGB) : Parse (Fin baseColorsCount → ColorRGB) := do
  let hex ← Parse.readOr (Parse.msg "colors: value not a string") (jsonReadString 16)
  match jsonParseHexColor hex with
  | none => Parse.reject (msgFor "colors." key ": bad hex")
  | some c =>
    match baseColorSlot key with
    | some slot => pure (Function.update baseColors slot c)
    | none => pure baseColors

def colorsLoop : ObjectLoop where
  State := Fin baseColorsCount → ColorRGB
  keyLen := 12
  known := ["primary", "secondary", "tertiary"].map bytes
  body := colorsMember

theorem parseScene_loop (skip : Skipper) (fuel : ℕ) : parseFields skip fuel = (do
    Parse.enter (Parse.msg "scene: expected \x7b") jsonEnterObject
    Parse.whileKey sceneLoop.keyLen (sceneLoop.body skip fuel) fuel .start) := rfl

theorem parseLayer_loop (skip : Skipper) (fuel : ℕ) (names : NameTable) :
    parseLayer skip fuel names = (do
      let d ← Parse.whileKey layerLoop.keyLen (layerLoop.body skip fuel) fuel
        (⟨.blank, names, [], []⟩ : LayerDraft)
      Parse.ensure (Parse.msg "layer: missing group") (d.layer.groupId ≠ 0)
      Parse.ensure (Parse.msg "layer: empty sequence") (d.layer.steps ≠ [])
      pure d) := rfl

theorem parseStep_loop (skip : Skipper) (fuel : ℕ) : parseStep skip fuel = (do
    let (draft, stepId) ← Parse.whileKey stepLoop.keyLen (stepLoop.body skip fuel) fuel
      (((SceneStep.zero, false), []) : StepDraft × Text)
    let step ← Parse.lift (finishStep draft)
    pure (step, stepId)) := rfl

theorem parseColorRef_loop (skip : Skipper) (fuel : ℕ) (errMsg : Option Text) :
    parseColorRef skip fuel errMsg = (do
      match ← Parse.peek with
      | none => Parse.reject errMsg
      | some c =>
        if c = ch '"' then
          let s ← Parse.readOr errMsg (jsonReadString 16)
          match jsonParseHexColor s with
          | none => Parse.reject errMsg
          | some rgb => pure (.rgb rgb)
        else
          Parse.enter errMsg jsonEnterObject
          let out ← Parse.whileKey (colorRefLoop errMsg).keyLen
            ((colorRefLoop errMsg).body skip fuel) fuel (none : Option ColorRef)
          match (out : Option ColorRef) with
          | none => Parse.reject errMsg
          | some ref => pure ref) := by
  refine congrArg (Parse.peek >>= ·) (funext fun c => ?_)
  cases c with
  | none => rfl
  | some c =>
      refine congrArg₂ (ite (c = ch '"')) ?_ ?_
      · refine congrArg (Parse.readOr errMsg (jsonReadString 16) >>= ·) (funext fun s => ?_)
        cases jsonParseHexColor s with
        | none => rfl
        | some rgb => rfl
      · refine congrArg (Parse.enter errMsg jsonEnterObject >>= ·) (funext fun _ => ?_)
        refine congrArg (Parse.whileKey 12 (colorRefMember errMsg skip fuel) fuel
          (none : Option ColorRef) >>= ·) (funext fun out => ?_)
        cases out with
        | none => rfl
        | some ref => rfl

theorem selAppend_loop (skip : Skipper) (fuel levels : ℕ) (out : PanelSelector) :
    selAppend skip fuel (levels + 1) out = (do
      match ← Parse.peek with
      | none => Parse.reject (Parse.msg "panels: empty")
      | some c =>
        if c = ch '"' then
          let tok ← Parse.readOr (Parse.msg "panels: bad string") (jsonReadString 40)
          Parse.lift (selEmitToken tok out)
        else if c = ch '[' then
          Parse.enter (Parse.msg "panels: bad array") jsonEnterArray
          selEmitIndexArray fuel false out
        else if c = ch '{' then
          Parse.enter (Parse.msg "panels: bad object") jsonEnterObject
          let (got, out) ← Parse.whileKey (panelsLoop levels).keyLen
            ((panelsLoop levels).body skip fuel) fuel ((false, out) : Bool × PanelSelector)
          Parse.ensure (Parse.msg "panels: empty object (use any/all/not/exclude)") got
          pure out
        else Parse.reject (Parse.msg "panels: expected string, array, or object")) := by
  rw [selAppend]
  rfl

theorem parseColors_loop (skip : Skipper) (fuel : ℕ)
    (baseColors : Fin baseColorsCount → ColorRGB) : parseColors fuel baseColors = (do
      Parse.enter (Parse.msg "colors: expected object") jsonEnterObject
      Parse.whileKey colorsLoop.keyLen (colorsLoop.body skip fuel) fuel baseColors) := rfl

namespace ObjectLoop

theorem UnknownName.truncated {loop : ObjectLoop} {name s : Text} (h : loop.UnknownName name)
    (hloop : loop.Regular) (hs : Decodes name s) :
    cString (s.take (loop.keyLen - 1)) ∉ loop.known := by
  intro hmem
  rw [cString_take (hloop.short _ hmem)] at hmem
  exact h s hs hmem

end ObjectLoop

/-! ### What the loop leaves -/

theorem Consumes.length_le {α : Type} {taken n : ℕ} {m : Skipper → ℕ → Parse α}
    (h : Consumes taken m) {p q : Text} {skip : Skipper} {a : α} (hn : p.length + 1 ≤ n)
    (hskip : Shrinks p.length skip) (hok : m skip n p = .ok (a, q)) :
    q.length + taken ≤ p.length := by
  obtain ⟨c, hc, hrun⟩ := h p
  rw [show m skip n p = _ from hrun skip n hn hskip] at hok
  cases hres : c.run skip with
  | error f =>
      rw [hres] at hok
      exact nomatch hok
  | ok x =>
      rw [hres] at hok
      change x = _ at hok
      rw [hok] at hres
      exact hc.length_le hskip hres

/-- A loop over members leaves no more than it was given, if its rounds do not. -/
theorem length_whileKey_le {σ : Type} {keyLen len : ℕ} {body : Text → σ → Parse σ}
    (hbody : ∀ key s p x, p.length ≤ len → body key s p = .ok x → x.2.length ≤ p.length) (n : ℕ)
    {s : σ} {p : Text} {x : σ × Text} (hp : p.length ≤ len)
    (h : Parse.whileKey keyLen body n s p = .ok x) : x.2.length ≤ p.length := by
  induction n generalizing s p with
  | zero => exact nomatch h
  | succ n ih =>
      rw [Parse.whileKey_succ] at h
      obtain ⟨hle, _⟩ := advances_jsonNextKey keyLen p
      generalize jsonNextKey keyLen p = res at h hle
      obtain ⟨o, q⟩ := res
      cases o with
      | none =>
          rw [← Except.ok.inj h]
          exact hle
      | some key =>
          dsimp only at h hle
          cases hb : body key s q with
          | error e =>
              rw [hb] at h
              exact nomatch h
          | ok y =>
              rw [hb] at h
              have hy := hbody key s q y (hle.trans hp) hb
              exact (ih ((hy.trans hle).trans hp) h).trans (hy.trans hle)

namespace ObjectLoop

variable {loop : ObjectLoop}

theorem Regular.length_run_le (hloop : loop.Regular) {fuel n : ℕ} {d : loop.State} {p : Text}
    {x : loop.State × Text} (hfuel : 2 * p.length + 2 ≤ fuel) (h : loop.run fuel n d p = .ok x) :
    x.2.length ≤ p.length := by
  refine length_whileKey_le (fun key s q y hq hy => ?_) n le_rfl h
  exact (hloop.consumes key s).length_le (by omega) (shrinks_jsonSkipValue (by omega)) hy

/-! ### One member -/

theorem Regular.passesOver (hloop : loop.Regular) {m : Text × Json} {t u rest s : Text} {fuel : ℕ}
    (ht : Separated t u) (h : Member Written m u rest) (hname : loop.UnknownName m.1)
    (hs : Decodes m.1 s) (hfuel : 2 * t.length + 2 ≤ fuel) : loop.PassesOver fuel t rest := by
  intro d n _
  cases h with
  | @mk name a v w x rest hraw hcolon hvalue ha =>
      have hskip : jsonSkipValue fuel x = .ok (true, rest) := by
        refine ha.skipValue (.refl x) ?_
        have hlen := ht.length_le
        have hcolonLen := hcolon.length_le
        have hvalueLen := hvalue.length_le
        simp only [List.length_cons, List.length_append] at hlen hcolonLen
        omega
      obtain ⟨c, x', rfl, hc⟩ := ha.start
      rw [run, Parse.whileKey_succ, hs.nextKey ht hcolon hvalue (isScalar_facts hc).1]
      dsimp only
      rw [hloop.skips _ (hname.truncated hloop hs)]
      change (Except.bind (Except.bind (Parse.skipUnknown (jsonSkipValue fuel) (c :: x')) _) _) = _
      rw [Parse.skipUnknown, hskip]
      rfl

theorem Regular.not_passesOver (hloop : loop.Regular) {m : Text × Json} {t u rest : Text}
    {fuel : ℕ} (ht : Separated t u) (h : Member Written m u rest) (hname : Undecodable m.1)
    (hfuel : 2 * t.length + 2 ≤ fuel) : ¬loop.PassesOver fuel t rest := by
  intro hpasses
  cases h with
  | @mk name a v w x rest hraw hcolon hvalue ha =>
      obtain ⟨q, hq, hnext⟩ := hname.nextKey ht loop.keyLen
      obtain ⟨d⟩ := hloop.starts
      have hlen := ht.length_le
      have hcolonLen := hcolon.length_le
      have hvalueLen := hvalue.length_le
      have hrest := ha.length_le
      simp only [List.length_cons, List.length_append] at hlen hcolonLen
      have hround := hpasses d (rest.length + 1) (Nat.lt_succ_self _)
      rw [run, Parse.whileKey_succ, hnext] at hround
      have hle := hloop.length_run_le (by omega) hround.symm
      dsimp only at hle
      omega

theorem Regular.passesOver_iff (hloop : loop.Regular) {m : Text × Json} {t u rest : Text}
    {fuel : ℕ} (ht : Separated t u) (h : Member Written m u rest) (hname : loop.UnknownName m.1)
    (hfuel : 2 * t.length + 2 ≤ fuel) : loop.PassesOver fuel t rest ↔ ∃ s, Decodes m.1 s := by
  constructor
  · intro hpasses
    have hraw : RawString m.1 := by
      cases h with
      | mk hraw _ _ _ => exact hraw
    rcases hraw.decodes_or with hs | hnone
    · exact hs
    · exact absurd hpasses (hloop.not_passesOver ht h hnone hfuel)
  · rintro ⟨s, hs⟩
    exact hloop.passesOver ht h hname hs hfuel

end ObjectLoop

/-! ### The four loops -/

theorem handleSceneField_unknown {key : Text} (h : key ∉ sceneLoop.known) (skip : Skipper)
    (fuel : ℕ) (d : SceneDraft) : handleSceneField skip fuel key d = (do
      Parse.skipUnknown skip
      pure d) := by
  simp only [sceneLoop, List.map_cons, List.map_nil, List.mem_cons, List.not_mem_nil, or_false,
    not_or] at h
  simp only [handleSceneField, h, if_false]

theorem handleLayerField_unknown {key : Text} (h : key ∉ layerLoop.known) (skip : Skipper)
    (fuel : ℕ) (d : LayerDraft) : handleLayerField skip fuel key d = (do
      Parse.skipUnknown skip
      pure d) := by
  simp only [layerLoop, List.map_cons, List.map_nil, List.mem_cons, List.not_mem_nil, or_false,
    not_or] at h
  simp only [handleLayerField, h, if_false]

theorem stepMember_unknown {key : Text} (h : key ∉ stepLoop.known) (skip : Skipper)
    (fuel : ℕ) (d : StepDraft × Text) : stepMember skip fuel key d = (do
      Parse.skipUnknown skip
      pure d) := by
  simp only [stepLoop, List.map_cons, List.map_nil, List.mem_cons, List.not_mem_nil, or_false,
    not_or] at h
  simp only [stepMember, handleStepField, h, if_false, or_self, bind_assoc, pure_bind]

theorem colorRefMember_unknown {errMsg : Option Text} {key : Text}
    (h : key ∉ (colorRefLoop errMsg).known) (skip : Skipper) (fuel : ℕ) (out : Option ColorRef) :
    colorRefMember errMsg skip fuel key out = (do
      Parse.skipUnknown skip
      pure out) := by
  simp only [colorRefLoop, List.map_cons, List.map_nil, List.mem_cons, List.not_mem_nil, or_false,
    not_or] at h
  simp only [colorRefMember, h, if_false, or_self]

theorem selMember_unknown {levels : ℕ} {key : Text} (h : key ∉ (panelsLoop levels).known)
    (skip : Skipper) (fuel : ℕ) (d : Bool × PanelSelector) :
    selMember levels skip fuel key d = (do
      Parse.skipUnknown skip
      pure d) := by
  simp only [panelsLoop, List.map_cons, List.map_nil, List.mem_cons, List.not_mem_nil, or_false,
    not_or] at h
  simp only [selMember, h, if_false, or_self]

theorem Consumes.selList (levels : ℕ) (op : SelOp) (out : PanelSelector) :
    Consumes 0 fun skip n => Lightnet.selList levels op skip n out := by
  refine then_ (Consumes.enter _ _) (e := 0) (fun _ => ?_) (Nat.zero_le _)
  refine (Consumes.whileElement (fun t => ?_) _).bind (e := 0) fun t => ?_
  · exact (Consumes.selAppend levels t.2).bind fun out =>
      (Consumes.lift _).bind fun out => Consumes.pure _
  · exact (Consumes.ensure _ _).bind fun _ => Consumes.pure _

theorem Consumes.selMember (levels : ℕ) (key : Text) (d : Bool × PanelSelector) :
    Consumes 0 fun skip n => Lightnet.selMember levels skip n key d := by
  refine Consumes.ite ?_ (Consumes.ite ?_ (Consumes.ite ?_ ?_))
  · exact (Consumes.ensure _ _).bind fun _ => Consumes.selList levels _ d.2
  · refine (Consumes.ensure _ _).bind (e := 0) fun _ => ?_
    refine then_ (Consumes.selAppend levels d.2) (e := 0) (fun out => ?_) (Nat.zero_le _)
    exact (Consumes.lift _).bind fun out => Consumes.pure _
  · refine (Consumes.ensure _ _).bind (e := 0) fun _ => ?_
    refine then_ (Consumes.enter _ _) (e := 0) (fun _ => ?_) (Nat.zero_le _)
    exact (Consumes.selEmitIndexArray true d.2).bind fun out => Consumes.pure _
  · exact Consumes.skipUnknown.bind fun _ => Consumes.pure _

theorem Consumes.stepMember (key : Text) (d : StepDraft × Text) :
    Consumes 0 fun skip n => Lightnet.stepMember skip n key d := by
  refine Consumes.ite ?_ ?_
  · refine then_ (Consumes.readOr _ (advances_jsonReadString _)) (e := 0) (fun s => ?_)
      (Nat.zero_le _)
    exact (Consumes.ensure _ _).bind fun _ => (Consumes.ensure _ _).bind fun _ => Consumes.pure _
  · exact (Consumes.handleStepField key d.1).bind fun _ => Consumes.pure _

theorem Consumes.colorRefMember (errMsg : Option Text) (key : Text) (out : Option ColorRef) :
    Consumes 0 fun skip n => Lightnet.colorRefMember errMsg skip n key out := by
  refine Consumes.ite ?_ (Consumes.ite ?_ (Consumes.ite ?_ ?_))
  · exact then_ (Consumes.uintWhere _ _) (fun v => Consumes.pure _) (Nat.zero_le _)
  · exact then_ (Consumes.uintWhere _ _) (fun v => Consumes.pure _) (Nat.zero_le _)
  · exact then_ (Consumes.uintWhere _ _) (fun v => Consumes.pure _) (Nat.zero_le _)
  · exact Consumes.skipUnknown.bind fun _ => Consumes.pure _

theorem regular_sceneLoop : sceneLoop.Regular where
  short := by decide
  skips := fun _ h => handleSceneField_unknown h
  consumes := Consumes.handleSceneField
  starts := ⟨SceneDraft.start⟩

theorem regular_layerLoop : layerLoop.Regular where
  short := by decide
  skips := fun _ h => handleLayerField_unknown h
  consumes := Consumes.handleLayerField
  starts := ⟨(⟨.blank, .reset, [], []⟩ : LayerDraft)⟩

theorem regular_stepLoop : stepLoop.Regular where
  short := by decide
  skips := fun _ h => stepMember_unknown h
  consumes := Consumes.stepMember
  starts := ⟨((SceneStep.zero, false), [])⟩

theorem regular_colorRefLoop (errMsg : Option Text) : (colorRefLoop errMsg).Regular where
  short := show ∀ key ∈ ["palette", "useColor", "r", "g", "b"].map bytes, key.length < 11 by decide
  skips := fun _ h => colorRefMember_unknown h
  consumes := Consumes.colorRefMember errMsg
  starts := ⟨(none : Option ColorRef)⟩

theorem regular_panelsLoop (levels : ℕ) : (panelsLoop levels).Regular where
  short := show ∀ key ∈ ["any", "all", "not", "exclude"].map bytes, key.length < 11 by decide
  skips := fun _ h => selMember_unknown h
  consumes := Consumes.selMember levels
  starts := ⟨((false, .clear) : Bool × PanelSelector)⟩

/-- A document is skipped to its end, whatever it holds. A member with a name that is not known
to the scene, its layer, its step, its colour or its panels is passed over there exactly if every
escape in the name has a value. -/
theorem unknownMember_passedOver_iff (errMsg : Option Text) (levels : ℕ) :
    (∀ j t u rest n, Blank t u → Written j u rest → 2 * t.length + 2 ≤ n →
        jsonSkipValue n t = .ok (true, rest)) ∧
      ∀ loop ∈ [sceneLoop, layerLoop, stepLoop, colorRefLoop errMsg, panelsLoop levels],
        ∀ m t u rest fuel, Separated t u → Member Written m u rest → loop.UnknownName m.1 →
          2 * t.length + 2 ≤ fuel → (loop.PassesOver fuel t rest ↔ ∃ s, Decodes m.1 s) := by
  refine ⟨fun j t u rest n ht h hn => h.skipValue ht hn, ?_⟩
  intro loop hloop m t u rest fuel ht h hname hfuel
  have hregular : loop.Regular := by
    simp only [List.mem_cons, List.not_mem_nil, or_false] at hloop
    rcases hloop with rfl | rfl | rfl | rfl | rfl
    · exact regular_sceneLoop
    · exact regular_layerLoop
    · exact regular_stepLoop
    · exact regular_colorRefLoop errMsg
    · exact regular_panelsLoop levels
  exact hregular.passesOver_iff ht h hname hfuel

/-- The colour that a document writes, as far as the buffer of the parser shows it. -/
def IsBaseColor (j : Json) (rgb : ColorRGB) : Prop :=
  ∃ raw s, j = .string raw ∧ Decodes raw s ∧ jsonParseHexColor (cString (s.take 15)) = some rgb

/-- Behind a name that is not known to the base colours a colour is passed over, and anything else
is rejected. -/
theorem colorsLoop_unknown {m : Text × Json} {t u rest key : Text} (ht : Separated t u)
    (h : Member Written m u rest) (hname : colorsLoop.UnknownName m.1) (hkey : Decodes m.1 key)
    (fuel n : ℕ) (d : colorsLoop.State) :
    ((∃ rgb, IsBaseColor m.2 rgb) →
        colorsLoop.run fuel (n + 1) d t = colorsLoop.run fuel n d rest) ∧
      ((¬∃ rgb, IsBaseColor m.2 rgb) →
        ∃ errMsg, colorsLoop.run fuel (n + 1) d t = .error (.rejected errMsg)) := by
  have hslot : baseColorSlot (cString (key.take 11)) = none := by
    have hunknown : cString (key.take 11) ∉ colorsLoop.known := by
      intro hmem
      have hlen : (cString (key.take 11)).length < 11 := by
        have hshort : ∀ name ∈ colorsLoop.known, name.length < 11 := by decide
        exact hshort _ hmem
      rw [cString_take hlen] at hmem
      exact hname key hkey hmem
    simp only [colorsLoop, List.map_cons, List.map_nil, List.mem_cons, List.not_mem_nil, or_false,
      not_or] at hunknown
    simp only [baseColorSlot, hunknown, if_false]
  cases h with
  | @mk name a v w x rest hraw hcolon hvalue ha =>
      have hrun : colorsLoop.run fuel (n + 1) d t =
          (colorsMember (jsonSkipValue fuel) fuel (cString (key.take 11)) d x).bind
            fun y => colorsLoop.run fuel n y.1 y.2 := by
        obtain ⟨c, x', rfl, hc⟩ := ha.start
        rw [ObjectLoop.run, Parse.whileKey_succ, hkey.nextKey ht hcolon hvalue (isScalar_facts hc).1]
        rfl
      rw [hrun]
      constructor
      · rintro ⟨rgb, raw, s, rfl, hs, hrgb⟩
        have hbody : colorsMember (jsonSkipValue fuel) fuel (cString (key.take 11)) d x =
            .ok (d, rest) := by
          cases ha with
          | string _ =>
              have hhex := hs.readString 16 rest
              unfold colorsMember
              refine Parse.bind_eq_ok.mpr ⟨(cString (s.take 15), rest), Parse.readOr_eq_ok.mpr hhex, ?_⟩
              simp only [hrgb, hslot]
              rfl
        rw [hbody]
        rfl
      · intro hnone
        cases hread : jsonReadString 16 x with
        | mk o q =>
            cases o with
            | none =>
                refine ⟨Parse.msg "colors: value not a string", ?_⟩
                simp only [colorsMember, Parse.readOr, bind, StateT.bind, Except.bind, hread]
            | some hex =>
                obtain ⟨raw, s, rfl, hs, rfl, rfl⟩ := ha.readString hread
                refine ⟨msgFor "colors." (cString (key.take 11)) ": bad hex", ?_⟩
                cases hhex : jsonParseHexColor (cString (s.take 15)) with
                | some rgb => exact absurd ⟨rgb, raw, s, rfl, hs, hhex⟩ hnone
                | none =>
                    simp only [colorsMember, Parse.readOr, bind, StateT.bind, Except.bind, hread,
                      Nat.add_one_sub_one, hhex]
                    rfl

/-- A scene of one layer, with another member in front of its layers. -/
def sceneWith (member : String) : Text :=
  bytes "\x7b\"name\":\"a\"," ++ bytes member ++
    bytes "\"layers\":[\x7b\"group\":1,\"sequence\":[\x7b\"duration\":16\x7d]\x7d]\x7d"

/-- With an accent in its name the member hides the layers behind it. -/
theorem parseScene_hidden_layers :
    (parseScene 200 (sceneWith "")).isOk = true ∧
      parseScene 200 (sceneWith "\"caf\\u00e9\":0,") =
        .error (.rejected (Parse.msg "at least one layer required")) := by
  decide +kernel

/-- A nested value whose strings hold brackets and an escaped quote. -/
theorem unknownMember_passedOver_nested :
    ∃ t rest, sceneLoop.PassesOver 100 t rest ∧ t = bytes "\"x\":[\"]\\\"\"],\"loop\":true\x7d" ∧
      rest = bytes ",\"loop\":true\x7d" := by
  have hname : RawString (bytes "x") := .plain (by decide) (by decide) (by decide) .nil
  have hdecodes : Decodes (bytes "x") (bytes "x") :=
    fun rest => .plain (by decide) (by decide) (.done rest)
  have hunknown : sceneLoop.UnknownName (bytes "x") := by
    intro s hs
    rw [hs.unique hdecodes]
    decide
  have hstring : RawString (bytes "]\\\"") :=
    .plain (by decide) (by decide) (by decide) (.escape (by rfl) .nil)
  have hmember : Member Written (bytes "x", .array [.string (bytes "]\\\"")])
      (bytes "\"x\":[\"]\\\"\"],\"loop\":true\x7d") (bytes ",\"loop\":true\x7d") :=
    .mk hname (.refl _) (.refl _) (.items (.last (.refl _) (.string hstring) (.refl _)))
  have hpassed := (unknownMember_passedOver_iff none 0).2 _ List.mem_cons_self _ _ _ _ 100
    (.inl (.refl _)) hmember hunknown (by decide)
  exact ⟨_, _, hpassed.mpr ⟨_, hdecodes⟩, rfl, rfl⟩

end Lightnet
