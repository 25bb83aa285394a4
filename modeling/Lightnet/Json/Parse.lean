import Lightnet.Json.SimpleJson

/-!
# Parsers

A parser takes the cursor and returns a value and the cursor it leaves, or stops: the parser
rejects the text, with a message unless it leaves the caller's, or skipping a value has faulted.

The parsers do not look into the values of keys they do not know. How these are skipped is a
parameter of the parsers.
-/

namespace Lightnet

inductive Stop where
  | rejected (errMsg : Option Text)
  | fault (f : Fault)
  deriving DecidableEq

abbrev Parse := StateT Text (Except Stop)

abbrev Skipper := Text → Except Fault (Bool × Text)

namespace Parse

variable {α σ : Type}

def msg (s : String) : Option Text := some (bytes s)

/-- A reader whose answer decides how to go on. -/
def read (f : Text → α × Text) : Parse α := fun p => .ok (f p)

def reject (errMsg : Option Text) : Parse α := fun _ => .error (.rejected errMsg)

/-- A reader that has to succeed. -/
def readOr (errMsg : Option Text) (f : Text → Option α × Text) : Parse α := fun p =>
  match f p with
  | (some a, q) => .ok (a, q)
  | (none, _) => .error (.rejected errMsg)

def ensure (errMsg : Option Text) (b : Bool) : Parse Unit :=
  if b then pure () else reject errMsg

/-- A computation that reads nothing. -/
def lift : Except (Option Text) α → Parse α
  | .ok a => pure a
  | .error errMsg => reject errMsg

/-- The next byte after the white space, left in place. -/
def peek : Parse (Option Byte) := read fun p => ((jsonSkipWs p).head?, jsonSkipWs p)

def enter (errMsg : Option Text) (f : Text → Bool × Text) : Parse Unit := do
  ensure errMsg (← read f)

def uintWhere (errMsg : Option Text) (accept : ℕ → Bool) : Parse ℕ := do
  let v ← readOr errMsg jsonReadUInt
  ensure errMsg (accept v)
  pure v

/-- Whether skipping has succeeded is not looked at. -/
def skipUnknown (skip : Skipper) : Parse Unit := fun p =>
  match skip p with
  | .ok (_, q) => .ok ((), q)
  | .error f => .error (.fault f)

def unfinished : Parse α := fun _ => .error (.fault .unfinished)

/-- `while (jsonNextKey(..))`, for at most as many rounds as the first argument says. -/
def whileKey (keyLen : ℕ) (body : Text → σ → Parse σ) : ℕ → σ → Parse σ
  | 0, _ => unfinished
  | n + 1, s => do
    match ← read (jsonNextKey keyLen) with
    | none => pure s
    | some key => whileKey keyLen body n (← body key s)

/-- `while (jsonNextElement(..))`. -/
def whileElement (body : σ → Parse σ) : ℕ → σ → Parse σ
  | 0, _ => unfinished
  | n + 1, s => do
    if ← read jsonNextElement then whileElement body n (← body s) else pure s

theorem whileKey_succ (keyLen : ℕ) (body : Text → σ → Parse σ) (n : ℕ) (s : σ) (p : Text) :
    whileKey keyLen body (n + 1) s p =
      match jsonNextKey keyLen p with
      | (none, q) => .ok (s, q)
      | (some key, q) => (body key s q).bind fun x => whileKey keyLen body n x.1 x.2 := by
  rw [whileKey]
  simp only [read, bind, StateT.bind, Except.bind]
  generalize jsonNextKey keyLen p = res
  obtain ⟨o, q⟩ := res
  cases o with
  | none => rfl
  | some key => rfl

theorem whileElement_succ (body : σ → Parse σ) (n : ℕ) (s : σ) (p : Text) :
    whileElement body (n + 1) s p =
      match jsonNextElement p with
      | (false, q) => .ok (s, q)
      | (true, q) => (body s q).bind fun x => whileElement body n x.1 x.2 := by
  rw [whileElement]
  simp only [read, bind, StateT.bind, Except.bind]
  generalize jsonNextElement p = res
  obtain ⟨b, q⟩ := res
  cases b with
  | false => rfl
  | true => rfl

end Parse

end Lightnet
