import Lightnet.Json.SimpleJson

/-!
# The body of a request

The server delivers a body in chunks and calls the handler of the route behind the last of them.
Every chunk is put into the buffer of the request or turned down on its own. Whether there is
memory for the buffer is up to the moment at which it is asked for.
-/

namespace Lightnet.Http

def maxBodySmall : ℕ := 512

structure BodyBuf where
  cap : ℕ
  data : Text
  deriving DecidableEq

/-- The bytes of a chunk, and whether `malloc` finds memory while it is handled. -/
structure Chunk where
  data : Text
  memory : Bool

structure Request where
  tempObject : Option BodyBuf
  errors : List (ℕ × Text)
  /-- The bodies the member function has been called with. -/
  calls : List Text
  deriving DecidableEq

def Request.fresh : Request := ⟨none, [], []⟩

def sendError (r : Request) (status : ℕ) (message : String) : Request :=
  { r with errors := r.errors ++ [(status, bytes message)] }

def BodyBuf.append (buf : BodyBuf) (data : Text) : Bool × BodyBuf :=
  if buf.cap < buf.data.length + data.length then (false, buf)
  else (true, { buf with data := buf.data ++ data })

def bodyCap (total maxCap : ℕ) : ℕ :=
  let cap := if 0 < total then total else 256
  if maxCap < cap then maxCap else cap

def appendBody (tempObject : Option BodyBuf) (c : Chunk) (total maxCap : ℕ) :
    Bool × Option BodyBuf :=
  match tempObject with
  | some buf => ((buf.append c.data).1, some (buf.append c.data).2)
  | none =>
    if c.memory then
      let buf : BodyBuf := ⟨bodyCap total maxCap, []⟩
      ((buf.append c.data).1, some (buf.append c.data).2)
    else (false, none)

def onChunk (maxBody total : ℕ) (r : Request) (c : Chunk) : Request :=
  let x := appendBody r.tempObject c total maxBody
  let r := { r with tempObject := x.2 }
  if x.1 then r else sendError r 413 "body_too_large"

def onRequest (r : Request) : Request :=
  match r.tempObject with
  | none => sendError r 400 "empty_body"
  | some buf => { r with calls := r.calls ++ [buf.data] }

/-- A request on a route with a body. -/
def handle (maxBody total : ℕ) (chunks : List Chunk) : Request :=
  onRequest (chunks.foldl (onChunk maxBody total) .fresh)

def body (chunks : List Chunk) : Text := chunks.flatMap Chunk.data

/-- The body is not empty and fits the limit of the route and the declared length. -/
def Fits (maxBody total : ℕ) (body : Text) : Prop :=
  body ≠ [] ∧ body.length ≤ maxBody ∧ body.length ≤ total

instance (maxBody total : ℕ) (body : Text) : Decidable (Fits maxBody total body) :=
  inferInstanceAs (Decidable (_ ∧ _ ∧ _))

/-- The member function runs if the body fits and then sees the whole body. -/
def Exact (maxBody total : ℕ) (chunks : List Chunk) : Prop :=
  (handle maxBody total chunks).calls =
    if Fits maxBody total (body chunks) then [body chunks] else []

/-! ### The buffer -/

theorem calls_onChunk (maxBody total : ℕ) (r : Request) (c : Chunk) :
    (onChunk maxBody total r c).calls = r.calls := by
  unfold onChunk
  dsimp only
  split_ifs
  · rfl
  · rfl

theorem tempObject_onChunk (maxBody total : ℕ) (r : Request) (c : Chunk) :
    (onChunk maxBody total r c).tempObject = (appendBody r.tempObject c total maxBody).2 := by
  unfold onChunk
  dsimp only
  split_ifs
  · rfl
  · rfl

/-- The buffer of the request after the chunks. -/
def buffered (maxBody total : ℕ) (tempObject : Option BodyBuf) (chunks : List Chunk) :
    Option BodyBuf :=
  chunks.foldl (fun buf c => (appendBody buf c total maxBody).2) tempObject

theorem foldl_onChunk (maxBody total : ℕ) (chunks : List Chunk) (r : Request) :
    (chunks.foldl (onChunk maxBody total) r).calls = r.calls ∧
      (chunks.foldl (onChunk maxBody total) r).tempObject =
        buffered maxBody total r.tempObject chunks := by
  induction chunks generalizing r with
  | nil => exact ⟨rfl, rfl⟩
  | cons c chunks ih =>
      obtain ⟨hcalls, htemp⟩ := ih (onChunk maxBody total r c)
      rw [calls_onChunk] at hcalls
      rw [tempObject_onChunk] at htemp
      exact ⟨hcalls, htemp⟩

theorem calls_handle (maxBody total : ℕ) (chunks : List Chunk) :
    (handle maxBody total chunks).calls =
      ((buffered maxBody total none chunks).map BodyBuf.data).toList := by
  obtain ⟨hcalls, htemp⟩ := foldl_onChunk maxBody total chunks .fresh
  unfold handle onRequest
  rw [htemp]
  change _ = ((buffered maxBody total Request.fresh.tempObject chunks).map BodyBuf.data).toList
  cases buffered maxBody total Request.fresh.tempObject chunks with
  | none => exact hcalls
  | some buf =>
      dsimp only
      rw [hcalls]
      rfl

/-- A buffer that is there stays, and takes what fits of every chunk. -/
theorem buffered_some (maxBody total : ℕ) (chunks : List Chunk) (buf : BodyBuf) :
    ∃ data, buffered maxBody total (some buf) chunks = some ⟨buf.cap, buf.data ++ data⟩ ∧
      data.length ≤ (body chunks).length ∧
      (buf.data.length + (body chunks).length ≤ buf.cap → data = body chunks) := by
  induction chunks generalizing buf with
  | nil => exact ⟨[], by rw [List.append_nil]; rfl, le_rfl, fun _ => rfl⟩
  | cons c chunks ih =>
      have hbody : (body (c :: chunks)).length = c.data.length + (body chunks).length := by
        rw [body, List.flatMap_cons, List.length_append, body]
      by_cases hfull : buf.cap < buf.data.length + c.data.length
      · have happend : buf.append c.data = (false, buf) := if_pos hfull
        obtain ⟨data, hdata, hle, _⟩ := ih buf
        refine ⟨data, ?_, by omega, fun hroom => by omega⟩
        rw [← hdata]
        change buffered maxBody total (some (buf.append c.data).2) chunks = _
        rw [happend]
      · have happend : buf.append c.data = (true, ⟨buf.cap, buf.data ++ c.data⟩) := if_neg hfull
        obtain ⟨data, hdata, hle, hall⟩ := ih ⟨buf.cap, buf.data ++ c.data⟩
        dsimp only at hdata hall
        rw [List.length_append] at hall
        refine ⟨c.data ++ data, ?_, ?_, fun hroom => ?_⟩
        · rw [← List.append_assoc, ← hdata]
          change buffered maxBody total (some (buf.append c.data).2) chunks = _
          rw [happend]
        · rw [List.length_append]
          omega
        · rw [hall (by omega)]
          rfl

/-- Without memory at any chunk there is no buffer. -/
theorem buffered_none (maxBody total : ℕ) {chunks : List Chunk}
    (h : ∀ c ∈ chunks, c.memory = false) : buffered maxBody total none chunks = none := by
  induction chunks with
  | nil => rfl
  | cons c chunks ih =>
      have hc : (appendBody none c total maxBody).2 = none := by
        unfold appendBody
        dsimp only
        rw [h c List.mem_cons_self]
        rfl
      change buffered maxBody total (appendBody none c total maxBody).2 chunks = none
      rw [hc]
      exact ih fun d hd => h d (List.mem_cons_of_mem _ hd)

/-- The buffer starts with the first chunk for which there is memory. -/
theorem buffered_first (maxBody total : ℕ) {before after : List Chunk} {c : Chunk}
    (hbefore : ∀ d ∈ before, d.memory = false) (hc : c.memory = true) :
    buffered maxBody total none (before ++ c :: after) =
      buffered maxBody total (some ⟨bodyCap total maxBody, []⟩) (c :: after) := by
  have hsplit : buffered maxBody total none (before ++ c :: after) =
      buffered maxBody total (buffered maxBody total none before) (c :: after) :=
    List.foldl_append
  rw [hsplit, buffered_none maxBody total hbefore]
  change buffered maxBody total (appendBody none c total maxBody).2 after = _
  unfold appendBody
  dsimp only
  rw [if_pos hc]
  rfl

theorem exists_first_memory (chunks : List Chunk) :
    (∀ c ∈ chunks, c.memory = false) ∨ ∃ before c after, chunks = before ++ c :: after ∧
      (∀ d ∈ before, d.memory = false) ∧ c.memory = true := by
  induction chunks with
  | nil => exact .inl nofun
  | cons c chunks ih =>
      cases hc : c.memory with
      | true => exact .inr ⟨[], c, chunks, rfl, nofun, hc⟩
      | false =>
          rcases ih with hnone | ⟨before, d, after, rfl, hbefore, hd⟩
          · exact .inl (List.forall_mem_cons.mpr ⟨hc, hnone⟩)
          · exact .inr ⟨c :: before, d, after, rfl, List.forall_mem_cons.mpr ⟨hc, hbefore⟩, hd⟩

/-! ### Exactness -/

theorem le_bodyCap {maxBody total : ℕ} {b : Text} (h : Fits maxBody total b) :
    b.length ≤ bodyCap total maxBody := by
  obtain ⟨hne, hmax, htotal⟩ := h
  have hpos : 0 < b.length := List.length_pos_iff.mpr hne
  have hcap : (if 0 < total then total else 256) = total := if_pos (by omega)
  rw [bodyCap, hcap]
  split_ifs
  · exact hmax
  · exact htotal

theorem body_append (before after : List Chunk) : body (before ++ after) = body before ++ body after :=
  List.flatMap_append

theorem body_eq_nil {chunks : List Chunk} : body chunks = [] ↔ ∀ c ∈ chunks, c.data = [] :=
  List.flatMap_eq_nil_iff

/-- There is a buffer before the first byte comes. -/
def BufferInTime (chunks : List Chunk) : Prop :=
  ∃ before c after, chunks = before ++ c :: after ∧ (∀ d ∈ before, d.data = []) ∧ c.memory = true

theorem exact_iff (maxBody total : ℕ) (chunks : List Chunk) :
    Exact maxBody total chunks ↔
      (Fits maxBody total (body chunks) ∧ BufferInTime chunks) ∨
        (¬ Fits maxBody total (body chunks) ∧ ∀ c ∈ chunks, c.memory = false) := by
  unfold Exact
  rw [calls_handle]
  rcases exists_first_memory chunks with hnone | ⟨before, c, after, rfl, hbefore, hc⟩
  · rw [buffered_none maxBody total hnone]
    constructor
    · intro h
      split_ifs at h with hfits
      · cases h
      · exact .inr ⟨hfits, hnone⟩
    · rintro (⟨_, _, c, _, rfl, _, hc⟩ | ⟨hfits, _⟩)
      · rw [hnone c (List.mem_append_right _ List.mem_cons_self)] at hc
        cases hc
      · rw [if_neg hfits]
        rfl
  · obtain ⟨data, hdata, hle, hall⟩ :=
      buffered_some maxBody total (c :: after) ⟨bodyCap total maxBody, []⟩
    rw [buffered_first maxBody total hbefore hc, hdata, body_append]
    constructor
    · intro h
      split_ifs at h with hfits
      · injection h with h
        have hlen : data.length = (body before ++ body (c :: after)).length := congrArg _ h
        rw [List.length_append] at hlen
        have hempty : body before = [] := List.eq_nil_of_length_eq_zero (by omega)
        exact .inl ⟨hfits, before, c, after, rfl, body_eq_nil.mp hempty, hc⟩
      · cases h
    · rintro (⟨hfits, before', d, after', hsplit, hempty, hd⟩ | ⟨_, hnone⟩)
      · have hbody : body before = [] := by
          rcases List.append_eq_append_iff.mp hsplit with ⟨u, rfl, _⟩ | ⟨u, rfl, hu⟩
          · exact body_eq_nil.mpr fun x hx => hempty x (List.mem_append_left _ hx)
          · cases u with
            | nil =>
                rw [List.append_nil]
                exact body_eq_nil.mpr hempty
            | cons x u =>
                rw [List.cons_append, List.cons.injEq] at hu
                have hx := hbefore x (List.mem_append_right _ List.mem_cons_self)
                rw [← hu.1, hd] at hx
                cases hx
        rw [if_pos hfits, hbody, List.nil_append]
        rw [hbody, List.nil_append] at hfits
        rw [hall (by rw [List.length_nil, Nat.zero_add]; exact le_bodyCap hfits)]
        rfl
      · rw [hnone c (List.mem_append_right _ List.mem_cons_self)] at hc
        cases hc

/-- Three chunks of a body that is too long; the second is turned down, the third is not. -/
theorem spliced_body :
    ¬ Exact maxBodySmall 700
      [⟨List.replicate 300 (ch 'a'), true⟩, ⟨List.replicate 300 (ch 'b'), true⟩,
        ⟨List.replicate 100 (ch 'c'), true⟩] := by
  unfold Exact
  decide +kernel

end Lightnet.Http
