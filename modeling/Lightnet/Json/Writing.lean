import Lightnet.Json.Grammar
import Lightnet.Library.BoundedBuffer

/-!
# Writing JSON into a buffer

A writer gets the buffer it may write to, whose length is the capacity, and returns the position
behind what it has written, if it fits, and the buffer. A string argument is the list of the bytes
before its NUL.
-/

namespace Lightnet

open BoundedBuffer

abbrev Write (α : Type) := Except Overrun α

def jsonEscapedContentLen : Text → ℕ
  | [] => 0
  | c :: p =>
    (if c = ch '"' ∨ c = ch '\\' ∨ c = 0x08 ∨ c = 0x0C ∨ c = ch '\n' ∨ c = ch '\r' ∨ c = ch '\t'
      then 2
      else if c < 0x20 then 6 else 1) + jsonEscapedContentLen p

def jsonQuotedLen (src : Text) : ℕ := jsonEscapedContentLen src + 2

def hx (n : ℕ) : Byte := (bytes "0123456789abcdef").getD n 0

/-- What stands for a byte that is not written as it is. -/
def jsonEscape (c : Byte) : Option Text :=
  if c = ch '"' then some (bytes "\\\"")
  else if c = ch '\\' then some (bytes "\\\\")
  else if c = 0x08 then some (bytes "\\b")
  else if c = 0x0C then some (bytes "\\f")
  else if c = ch '\n' then some (bytes "\\n")
  else if c = ch '\r' then some (bytes "\\r")
  else if c = ch '\t' then some (bytes "\\t")
  else if c < 0x20 then some (bytes "\\u00" ++ [hx ((c.toNat >>> 4) % 16), hx (c.toNat % 16)])
  else none

def jsonWriteEscapedFrom : Text → ℕ → Text → Write (Option ℕ × Text)
  | out, pos, [] =>
    if out.length ≤ pos then .ok (none, out) else do
      return (some pos, ← writeAt out pos [0])
  | out, pos, c :: p =>
    match jsonEscape c with
    | some esc =>
      if out.length ≤ pos + esc.length then .ok (none, out) else do
        jsonWriteEscapedFrom (← writeAt out pos esc) (pos + esc.length) p
    | none =>
      if out.length ≤ pos + 1 then .ok (none, out) else do
        jsonWriteEscapedFrom (← writeAt out pos [c]) (pos + 1) p

def jsonWriteEscapedContent (out src : Text) : Write (Option ℕ × Text) :=
  if out.length = 0 then .ok (none, out) else jsonWriteEscapedFrom out 0 src

/-- A writer on the buffer from a position on, which returns a position in the whole buffer. -/
def fromPos (buf : Text) (pos : ℕ) (f : Text → Write (Option ℕ × Text)) :
    Write (Option ℕ × Text) :=
  (f (buf.drop pos)).map fun r => (r.1.map (pos + ·), buf.take pos ++ r.2)

def jsonWriteQuotedString (out src : Text) : Write (Option ℕ × Text) :=
  if out.length < 2 then .ok (none, out) else do
    let out ← writeAt out 0 [ch '"']
    match ← fromPos out 1 (jsonWriteEscapedContent · src) with
    | (none, out) => return (none, out)
    | (some pos, out) =>
      if out.length ≤ pos + 1 then return (none, out)
      let out ← writeAt out pos [ch '"']
      let out ← writeAt out (pos + 1) [0]
      return (some (pos + 1), out)

def jsonAppendQuotedString (buf : Text) (pos : ℕ) (src : Text) : Write (Option ℕ × Text) :=
  if buf.length ≤ pos then .ok (none, buf) else fromPos buf pos (jsonWriteQuotedString · src)

def jsonAppendKeyValue (buf : Text) (pos : ℕ) (key value : Text) : Write (Option ℕ × Text) :=
  if buf.length ≤ pos + key.length + 3 then .ok (none, buf) else do
    let buf ← writeAt buf pos [ch '"']
    let buf ← writeAt buf (pos + 1) key
    let buf ← writeAt buf (pos + 1 + key.length) [ch '"']
    let buf ← writeAt buf (pos + 1 + key.length + 1) [ch ':']
    jsonAppendQuotedString buf (pos + 1 + key.length + 2) value

def jsonAppendStringField (buf : Text) (pos : ℕ) (key value : Text) (leadingComma : Bool) :
    Write (Option ℕ × Text) :=
  if leadingComma then
    if buf.length ≤ pos then .ok (none, buf) else do
      jsonAppendKeyValue (← writeAt buf pos [ch ',']) (pos + 1) key value
  else jsonAppendKeyValue buf pos key value

/-- `%u` -/
def decimal (n : ℕ) : Text := (Nat.toDigits 10 n).map ch

/-- As much of the text as fits from `pos` on, and the terminator. What is left of the buffer is a
difference of unsigned numbers: behind its end there is no bound. -/
def snprintf (buf : Text) (pos : ℕ) (t : Text) : Write Text :=
  if buf.length < pos then .error .overrun
  else if buf.length = pos then .ok buf
  else .ok (terminated 0 buf pos (t.take (buf.length - pos - 1)))

/-- A text by `snprintf`, for which there has to be room. -/
def printed (buf : Text) (pos : ℕ) (t : Text) : Write (Option ℕ × Text) := do
  let buf ← snprintf buf pos t
  return (if buf.length ≤ pos + t.length then none else some (pos + t.length), buf)

/-- A text without a terminator, and a writer behind it. -/
def copied (buf : Text) (pos : ℕ) (t : Text) (g : Text → ℕ → Write (Option ℕ × Text)) :
    Write (Option ℕ × Text) :=
  if buf.length ≤ pos + t.length then .ok (none, buf) else do
    g (← writeAt buf pos t) (pos + t.length)

/-- The last bytes of a text and the terminator. -/
def closed (buf : Text) (pos : ℕ) (t : Text) : Write (Option ℕ × Text) :=
  copied buf pos t fun buf pos => do
    return (some pos, ← writeAt buf pos [0])

def jsonWriteObjectStringField (out key value : Text) : Write (Option ℕ × Text) :=
  if out.length < 4 then .ok (none, out) else do
    let out ← writeAt out 0 [ch '{']
    andThen (jsonAppendStringField out 1 key value false) fun out pos => closed out pos [ch '}']

/-! ### What is written -/

def escapedByte (c : Byte) : Text := (jsonEscape c).getD [c]

def escaped (s : Text) : Text := s.flatMap escapedByte

def quoted (s : Text) : Text := ch '"' :: escaped s ++ [ch '"']

def keyValue (key value : Text) : Text := ch '"' :: (key ++ ch '"' :: ch ':' :: quoted value)

theorem length_escapedByte (c : Byte) :
    (escapedByte c).length =
      if c = ch '"' ∨ c = ch '\\' ∨ c = 0x08 ∨ c = 0x0C ∨ c = ch '\n' ∨ c = ch '\r' ∨ c = ch '\t'
      then 2
      else if c < 0x20 then 6 else 1 := by
  revert c
  decide +kernel

theorem length_escaped (s : Text) : (escaped s).length = jsonEscapedContentLen s := by
  induction s with
  | nil => rfl
  | cons c s ih =>
      rw [escaped, List.flatMap_cons, List.length_append, length_escapedByte]
      change _ + (escaped s).length = _
      rw [ih, jsonEscapedContentLen]

theorem length_quoted (s : Text) : (quoted s).length = jsonQuotedLen s := by
  rw [quoted, List.length_append, List.length_cons, length_escaped]
  rfl

theorem jsonWriteEscapedFrom_appends (src out : Text) (pos : ℕ) :
    Appends 0 out pos (escaped src) (jsonWriteEscapedFrom out pos src) := by
  induction src generalizing out pos with
  | nil =>
      unfold jsonWriteEscapedFrom
      split_ifs with hfull
      · exact .full hfull rfl rfl
      · refine .inl ⟨by simpa [escaped] using hfull, ?_⟩
        rw [writeAt_ok (by rw [List.length_singleton]; omega)]
        simp [terminated, escaped, bind, Except.bind, pure, Except.pure]
  | cons c p ih =>
      have hstep (t : Text) (ht : escapedByte c = t) :
          Appends 0 out pos (escaped (c :: p))
            (if out.length ≤ pos + t.length then .ok (none, out) else do
              jsonWriteEscapedFrom (← writeAt out pos t) (pos + t.length) p) := by
        have hcons : escaped (c :: p) = t ++ escaped p := by
          rw [escaped, List.flatMap_cons, ht, escaped]
        rw [hcons]
        split_ifs with hfull
        · exact .full (by rw [List.length_append]; omega) rfl rfl
        · exact .bind_writeAt (by omega) fun out' _ => ih out' _
      unfold jsonWriteEscapedFrom
      cases hesc : jsonEscape c with
      | some esc => exact hstep esc (by rw [escapedByte, hesc, Option.getD_some])
      | none => exact hstep [c] (by rw [escapedByte, hesc, Option.getD_none])

theorem jsonWriteEscapedContent_appends (out src : Text) :
    Appends 0 out 0 (escaped src) (jsonWriteEscapedContent out src) := by
  unfold jsonWriteEscapedContent
  split_ifs with hnil
  · exact .full (by omega) rfl rfl
  · exact jsonWriteEscapedFrom_appends src out 0

theorem fromPos_appends {buf t : Text} {pos : ℕ} {f : Text → Write (Option ℕ × Text)}
    (hpos : pos ≤ buf.length) (h : ∀ out, Appends 0 out 0 t (f out)) :
    Appends 0 buf pos t (fromPos buf pos f) :=
  .slice hpos (h _)

theorem jsonWriteQuotedString_appends (out src : Text) :
    Appends 0 out 0 (quoted src) (jsonWriteQuotedString out src) := by
  have hlen : (quoted src).length = (escaped src).length + 2 := by
    rw [quoted, List.length_append, List.length_cons]
    rfl
  unfold jsonWriteQuotedString
  split_ifs with hshort
  · exact .full (by omega) rfl rfl
  have hone : 0 + [ch '"'].length ≤ out.length := by
    rw [List.length_singleton]
    omega
  obtain ⟨out₁, hput⟩ := exists_writeAt [ch '"'] hone
  have hout₁ : out₁.length = out.length := length_writeAt hput
  have hcontent : Appends 0 out₁ 1 (escaped src)
      (fromPos out₁ 1 (jsonWriteEscapedContent · src)) :=
    fromPos_appends (by omega) fun out => jsonWriteEscapedContent_appends out src
  rw [hput]
  simp only [bind, Except.bind, pure, Except.pure]
  rcases hcontent.cases with ⟨hroom, hok⟩ | ⟨hfull, out₂, hout₂, -, hok⟩
  · rw [hok]
    dsimp only
    have hout₂ : (terminated 0 out₁ 1 (escaped src)).length = out₁.length :=
      length_terminated hroom
    split_ifs with hfull
    · exact .full (by omega) (by omega) rfl
    · have hroom₂ : 1 + (escaped src).length + [ch '"'].length <
          (terminated 0 out₁ 1 (escaped src)).length := by
        rw [List.length_singleton]
        omega
      obtain ⟨out₃, hquote⟩ := exists_writeAt [ch '"'] hroom₂.le
      have hnul : writeAt out₃ (1 + (escaped src).length + 1) [0] = _ :=
        writeAt_terminator hquote hroom₂
      rw [hquote]
      dsimp only
      rw [hnul]
      refine .inl ⟨by omega, ?_⟩
      have htext : terminated 0 out₁ 1 (escaped src ++ [ch '"']) =
          terminated 0 out 0 (quoted src) := terminated_writeAt hput
      rw [terminated_terminated (by rw [List.length_singleton]; omega), htext, hlen]
      simp only [Nat.zero_add, Nat.add_comm 1]
  · rw [hok]
    exact .full (by omega) (by omega) rfl

theorem jsonAppendQuotedString_appends (buf : Text) (pos : ℕ) (src : Text) :
    Appends 0 buf pos (quoted src) (jsonAppendQuotedString buf pos src) := by
  unfold jsonAppendQuotedString
  split_ifs with hfull
  · exact .full (by omega) rfl rfl
  · exact fromPos_appends (by omega) fun out => jsonWriteQuotedString_appends out src

theorem jsonAppendKeyValue_appends (buf : Text) (pos : ℕ) (key value : Text) :
    Appends 0 buf pos (keyValue key value) (jsonAppendKeyValue buf pos key value) := by
  have hlen : (keyValue key value).length = key.length + 3 + (quoted value).length := by
    simp only [keyValue, List.length_append, List.length_cons]
    omega
  unfold jsonAppendKeyValue
  split_ifs with hshort
  · exact .full (by omega) rfl rfl
  · refine .bind_writeAt (t := [ch '"']) (by rw [List.length_singleton]; omega) fun b₁ h₁ => ?_
    refine .bind_writeAt (t := key) (by rw [List.length_singleton]; omega) fun b₂ h₂ => ?_
    refine .bind_writeAt (t := [ch '"']) ?_ fun b₃ h₃ => ?_
    · change pos + 1 + key.length + 1 ≤ b₂.length
      omega
    refine .bind_writeAt (t := [ch ':']) ?_ fun b₄ h₄ => ?_
    · change pos + 1 + key.length + 1 + 1 ≤ b₃.length
      omega
    exact jsonAppendQuotedString_appends b₄ _ value

theorem jsonAppendStringField_appends (buf : Text) (pos : ℕ) (key value : Text)
    (leadingComma : Bool) :
    Appends 0 buf pos ((if leadingComma then [ch ','] else []) ++ keyValue key value)
      (jsonAppendStringField buf pos key value leadingComma) := by
  unfold jsonAppendStringField
  split_ifs with hcomma hfull
  · exact .full (by rw [List.length_append]; omega) rfl rfl
  · refine .bind_writeAt (by rw [List.length_singleton]; omega) fun b _ => ?_
    exact jsonAppendKeyValue_appends b (pos + 1) key value
  · exact jsonAppendKeyValue_appends buf pos key value

/-- Whatever does not fit is cut off, and the length of the whole text tells. -/
theorem snprintf_ok {buf : Text} {pos : ℕ} (t : Text) (hpos : pos ≤ buf.length) :
    ∃ buf', snprintf buf pos t = .ok buf' ∧ buf'.length = buf.length ∧
      buf'.take pos = buf.take pos ∧
      (pos + t.length < buf.length → buf' = terminated 0 buf pos t) := by
  unfold snprintf
  rw [if_neg (by omega)]
  by_cases hend : buf.length = pos
  · exact ⟨buf, if_pos hend, rfl, rfl, fun h => by omega⟩
  · have hcut : pos + (t.take (buf.length - pos - 1)).length < buf.length := by
      rw [List.length_take]
      omega
    refine ⟨_, if_neg hend, length_terminated hcut, take_terminated_of_le le_rfl hpos,
      fun hroom => ?_⟩
    rw [List.take_of_length_le (by omega)]

theorem printed_appends {buf : Text} {pos : ℕ} (t : Text) (hpos : pos ≤ buf.length) :
    Appends 0 buf pos t (printed buf pos t) := by
  obtain ⟨buf', hok, hlen, htake, hall⟩ := snprintf_ok t hpos
  unfold printed
  rw [hok]
  simp only [bind, Except.bind, pure, Except.pure]
  by_cases hroom : pos + t.length < buf.length
  · refine .inl ⟨hroom, ?_⟩
    rw [if_neg (by omega), hall hroom]
  · refine .inr ⟨Nat.le_of_not_lt hroom, buf', hlen, htake, ?_⟩
    rw [if_pos (by omega)]

theorem copied_appends {buf t u : Text} {pos : ℕ} {g : Text → ℕ → Write (Option ℕ × Text)}
    (hg : ∀ buf', buf'.length = buf.length → pos + t.length < buf.length →
      Appends 0 buf' (pos + t.length) u (g buf' (pos + t.length))) :
    Appends 0 buf pos (t ++ u) (copied buf pos t g) := by
  unfold copied
  split_ifs with hfull
  · exact .full (by rw [List.length_append]; omega) rfl rfl
  · exact .bind_writeAt (by omega) fun buf' hbuf' => hg buf' hbuf' (Nat.lt_of_not_le hfull)

theorem closed_appends (buf : Text) (pos : ℕ) (t : Text) :
    Appends 0 buf pos t (closed buf pos t) := by
  have h : Appends 0 buf pos (t ++ []) (closed buf pos t) := copied_appends fun buf' hbuf' hroom => by
    have hend : pos + t.length + ([] : Text).length < buf'.length := by
      rw [List.length_nil]
      omega
    refine .inl ⟨hend, ?_⟩
    obtain ⟨b, hput⟩ := exists_writeAt ([] : Text) hend.le
    have hnul : writeAt b (pos + t.length) [0] = .ok (terminated 0 buf' (pos + t.length) []) :=
      writeAt_terminator hput hend
    have hsame : b = buf' := by
      rw [eq_of_writeAt hput, List.append_nil, List.length_nil, Nat.add_zero,
        List.take_append_drop]
    rw [← hsame, hnul, hsame]
    rfl
  rwa [List.append_nil] at h

theorem jsonWriteObjectStringField_appends (out key value : Text) :
    Appends 0 out 0 (ch '{' :: (keyValue key value ++ [ch '}']))
      (jsonWriteObjectStringField out key value) := by
  unfold jsonWriteObjectStringField
  split_ifs with hshort
  · refine .full ?_ rfl rfl
    simp only [keyValue, quoted, List.length_cons, List.length_append]
    omega
  · refine .bind_writeAt (t := [ch '{']) (by rw [List.length_singleton]; omega) fun b _ => ?_
    refine .andThen (jsonAppendStringField_appends b 1 key value false) fun b' _ _ => ?_
    exact closed_appends b' _ _

end Lightnet
