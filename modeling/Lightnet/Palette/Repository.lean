import Lightnet.Http.Capacity
import Lightnet.Palette.PaletteJson
import Lightnet.Storage.KeyedRuns

/-!
# The palette repository and the requests that change it

A request opens the store once for every question it asks, so it is a list of operations of the
store; what the later ones are depends on the answers to the earlier ones. Seeding inserts the
built-in palettes that are missing, one after the other.
-/

namespace Lightnet.PaletteRepository

open Storage

/-! ### Records -/

/-- What a zeroed field of `n` bytes holds once bytes have been copied into it. -/
def padded (n : ℕ) (bs : List Byte) : List Byte := (bs ++ List.replicate n 0).take n

def stopBytes (s : GradientStop) : List Byte := [s.pos, s.color.r, s.color.g, s.color.b]

def record (name : Text) (builtin : Bool) (stops : List GradientStop) : List Byte :=
  padded (maxPaletteNameLength + 1) ((cString name).take maxPaletteNameLength) ++
    [if builtin then 1 else 0, u8 stops.length] ++
    padded (4 * Storage.paletteStops) (stops.flatMap stopBytes)

theorem length_padded (n : ℕ) (bs : List Byte) : (padded n bs).length = n := by
  rw [padded, List.length_take, List.length_append, List.length_replicate]
  omega

theorem length_record (name : Text) (builtin : Bool) (stops : List GradientStop) :
    (record name builtin stops).length = paletteStore.recordSize := by
  rw [record, List.length_append, List.length_append, length_padded, length_padded]
  rfl

def stopsOf (record : List Byte) : List GradientStop := (Http.Palette.ofRecord record).stops

def isBuiltinRecord (record : List Byte) : Bool := (Http.Palette.ofRecord record).builtin

/-! ### Questions -/

def isUserColors (name : Text) : Bool := foldedName name = foldedName userColorsPaletteName

/-- The record that the store finds, if nothing goes wrong. -/
def get (ω : Faults) (name : Text) (s : KeyedStore.State) : Option (List Byte) :=
  match (paletteStore.get ω name s.file).1 with
  | .ok r => some r
  | .error _ => none

def isBuiltin (ω : Faults) (name : Text) (s : KeyedStore.State) : Bool :=
  if cString name = [] then false
  else if isUserColors name then true
  else (get ω name s).any isBuiltinRecord

def resolve (ω : Faults) (name : Text) (s : KeyedStore.State) : Option (List GradientStop) :=
  if isUserColors name then none else (get ω name s).map stopsOf

/-! ### Built-in palettes -/

def stop (pos r g b : Byte) : GradientStop := ⟨pos, r, g, b⟩

def builtins : List (Text × List GradientStop) :=
  [(bytes "Rainbow", [stop 0 0xFF 0 0, stop 42 0xFF 0xFF 0, stop 85 0 0xFF 0,
      stop 128 0 0xFF 0xFF, stop 170 0 0 0xFF, stop 213 0xFF 0 0xFF, stop 255 0xFF 0 0]),
    (bytes "Lava", [stop 0 0 0 0, stop 46 0x24 0 0, stop 96 0x71 0x11 0,
      stop 148 0x8E 0x03 0x01, stop 204 0xFF 0x47 0x02, stop 255 0xFF 0xFF 0xFF]),
    (bytes "Ocean", [stop 0 0 0 0x10, stop 64 0 0x20 0x60, stop 128 0 0x60 0xA0,
      stop 192 0x10 0xC0 0xE0, stop 255 0xFF 0xFF 0xFF]),
    (bytes "Forest", [stop 0 0 0x10 0, stop 64 0 0x40 0x10, stop 128 0x10 0x80 0x20,
      stop 192 0x60 0xC0 0x40, stop 255 0xC0 0xFF 0x80]),
    (bytes "Party", [stop 0 0x55 0 0xFF, stop 64 0xFF 0 0x80, stop 128 0xFF 0x80 0,
      stop 192 0xFF 0xFF 0, stop 255 0 0xFF 0xFF]),
    (bytes "Sunset", [stop 0 0x10 0 0x40, stop 64 0x80 0x10 0x40, stop 128 0xFF 0x40 0x10,
      stop 192 0xFF 0xA0 0x10, stop 255 0xFF 0xE0 0x40]),
    (bytes "Aurora", [stop 0 0 0x10 0x20, stop 64 0 0x80 0x60, stop 128 0x20 0xFF 0xA0,
      stop 192 0x80 0x40 0xC0, stop 255 0xFF 0x40 0xFF]),
    (bytes "Embers", [stop 0 0 0 0, stop 64 0x20 0 0, stop 128 0x80 0x10 0,
      stop 192 0xFF 0x40 0, stop 255 0xFF 0xC0 0x40])]

/-! ### Requests -/

/-- A percent sign with two hexadecimal digits is a byte; what there is no room for is dropped. -/
def percentDecode : ℕ → Text → Text
  | 0, _ => []
  | _, [] => []
  | room + 1, c :: src =>
    match src with
    | h :: l :: rest =>
      match jsonHexVal h, jsonHexVal l with
      | some h', some l' =>
        if c = ch '%' then u8 (h' * 16 + l') :: percentDecode room rest
        else c :: percentDecode room src
      | _, _ => c :: percentDecode room src
    | _ => c :: percentDecode room src

/-- The name behind the prefix, up to the next slash. -/
def decodedNameFromUrl (url pfx : Text) (outLen : ℕ) : Option Text :=
  if ¬pfx <+: url then none
  else
    let src := ((cString url).drop pfx.length).takeWhile (· ≠ ch '/')
    match percentDecode (outLen - 1) src with
    | [] => none
    | name => some name

inductive Request where
  | seed (palette : Text × List GradientStop) (h : palette ∈ builtins)
  | post (body : Text)
  | put (url body : Text)

abbrev Operation := Faults × paletteStore.Op

/-- The store is asked about names other than that of the base colours. -/
def isBuiltinOps (ω : Faults) (name : Text) : List Operation :=
  if cString name = [] ∨ isUserColors name = true then [] else [(ω, .get name)]

def after (s : KeyedStore.State) (ops : List Operation) : KeyedStore.State :=
  ops.foldl paletteStore.step s

def parseBody (outNameLen : Option ℕ) (body : Text) : Except Stop PaletteDraft :=
  parsePaletteJson (2 * body.length + 2) outNameLen body

def create (ω : Faults) (name : Text) (builtin : Bool) (stops : List GradientStop) : Operation :=
  (ω, .create (record name builtin stops) (length_record name builtin stops))

def updateOps (ω ω' : Faults) (name : Text) (stops : List GradientStop) (s : KeyedStore.State) :
    List Operation :=
  if isBuiltin ω name s then isBuiltinOps ω name
  else isBuiltinOps ω name ++
    [(ω', .update name (record name false stops) (length_record name false stops))]

def handlePostPalette (ω : Faults) (body : Text) : List Operation :=
  match parseBody (some (maxPaletteNameLength + 1)) body with
  | .error _ => []
  | .ok d => [create ω d.name false d.stops]

/-- The handler asks whether the palette is built in, and the repository asks once more. -/
def handlePutPalette (ω : ℕ → Faults) (url body : Text) (s : KeyedStore.State) :
    List Operation :=
  match decodedNameFromUrl url (bytes "/api/palettes/") (maxPaletteNameLength + 1) with
  | none => []
  | some name =>
    let asked := isBuiltinOps (ω 0) name
    if isBuiltin (ω 0) name s then asked
    else
      match parseBody none body with
      | .error _ => asked
      | .ok d => asked ++ updateOps (ω 1) (ω 2) name d.stops (after s asked)

/-- The faults are those of the sessions, one after the other. -/
def operations (s : KeyedStore.State) (e : (ℕ → Faults) × Request) : List Operation :=
  match e.2 with
  | .seed palette _ => [create (e.1 0) palette.1 true palette.2]
  | .post body => handlePostPalette (e.1 0) body
  | .put url body => handlePutPalette e.1 url body s

def handle (s : KeyedStore.State) (e : (ℕ → Faults) × Request) : KeyedStore.State :=
  after s (operations s e)

end Lightnet.PaletteRepository
