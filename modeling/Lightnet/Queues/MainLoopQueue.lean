import Lightnet.Queues.SpscByteQueue

/-!
# Deferring work to the main loop

A task is posted as the bytes of its function pointer and a copy of its arguments, in one record
of the ring. The main loop takes the records out one at a time and runs each task outside the
lock, so that other tasks may be posted between any two of them, by the task that runs as well.
Whatever the interleaving, the tasks that have run are the accepted ones in the order in which
they were posted, but for those that still wait; and the next drain runs these.
-/

namespace Lightnet

open SpscByteQueue

/-- A function pointer as the bytes that are copied. -/
structure TaskFn (sizeofTaskFn : ℕ) where
  image : List Byte
  length_image : image.length = sizeofTaskFn
  sizeof_le : sizeofTaskFn ≤ 8

def TaskFn.IsNull {sizeofTaskFn : ℕ} (fn : TaskFn sizeofTaskFn) : Prop :=
  fn.image = List.replicate sizeofTaskFn 0

instance {sizeofTaskFn : ℕ} (fn : TaskFn sizeofTaskFn) : Decidable fn.IsNull :=
  inferInstanceAs (Decidable (_ = _))

structure Task where
  fn : List Byte
  args : List Byte
  deriving DecidableEq

def Task.blob (t : Task) : List Byte := t.fn ++ t.args

structure MainLoopQueue (sizeofTaskFn : ℕ) where
  ring : SpscByteQueue 512

inductive DrainTurn where
  | ringEmpty
  | malformed
  | ran (task : Task)
  deriving DecidableEq

namespace MainLoopQueue

variable {sizeofTaskFn : ℕ}

def maxArgs : ℕ := 64

def fresh (buf : Fin 512 → Byte) : MainLoopQueue sizeofTaskFn :=
  ⟨SpscByteQueue.fresh (by decide) buf⟩

theorem length_blob_lt {fn : TaskFn sizeofTaskFn} {args : List Byte}
    (h : ¬ (fn.IsNull ∨ maxArgs < args.length)) : (fn.image ++ args).length < 65536 := by
  have hfn := fn.length_image
  have hsize := fn.sizeof_le
  have hargs := (not_or.mp h).2
  unfold maxArgs at hargs
  rw [List.length_append]
  omega

def post (m : MainLoopQueue sizeofTaskFn) (fn : TaskFn sizeofTaskFn) (args : List Byte) :
    MainLoopQueue sizeofTaskFn × Bool :=
  if h : fn.IsNull ∨ maxArgs < args.length then (m, false)
  else
    let pushed := m.ring.push ⟨fn.image ++ args, length_blob_lt h⟩
    (⟨pushed.1⟩, pushed.2)

/-- One turn of the loop in `drain`: the record is taken out, and its task runs. -/
def drainTurn (m : MainLoopQueue sizeofTaskFn) : MainLoopQueue sizeofTaskFn × DrainTurn :=
  let (ring, n, blob) := m.ring.pop (sizeofTaskFn + maxArgs)
  if n = 0 then (⟨ring⟩, .ringEmpty)
  else if n < sizeofTaskFn then (⟨ring⟩, .malformed)
  else
    (⟨ring⟩, .ran ⟨blob.take sizeofTaskFn, (blob.drop sizeofTaskFn).take (n - sizeofTaskFn)⟩)

/-- A drain in which nothing is posted: the tasks that run, if `fuel` turns are enough. -/
def drain : ℕ → MainLoopQueue sizeofTaskFn → Option (MainLoopQueue sizeofTaskFn × List Task)
  | 0, _ => none
  | fuel + 1, m =>
      match m.drainTurn with
      | (m, .ringEmpty) => some (m, [])
      | (m, .malformed) => drain fuel m
      | (m, .ran task) => (drain fuel m).map (fun r => (r.1, task :: r.2))

end MainLoopQueue

/-- What the tasks and the main loop do: each takes the lock for its access to the ring. -/
inductive MainLoopEvent (sizeofTaskFn : ℕ) where
  | post (fn : TaskFn sizeofTaskFn) (args : List Byte)
  | drainTurn

structure MainLoopLog (sizeofTaskFn : ℕ) where
  queue : MainLoopQueue sizeofTaskFn
  accepted : List Task
  ran : List Task

namespace MainLoopLog

variable {sizeofTaskFn : ℕ}

def step (s : MainLoopLog sizeofTaskFn) : MainLoopEvent sizeofTaskFn → MainLoopLog sizeofTaskFn
  | .post fn args =>
      ⟨(s.queue.post fn args).1,
        if (s.queue.post fn args).2 then s.accepted ++ [⟨fn.image, args⟩] else s.accepted, s.ran⟩
  | .drainTurn =>
      match s.queue.drainTurn with
      | (m, .ran task) => ⟨m, s.accepted, s.ran ++ [task]⟩
      | (m, _) => ⟨m, s.accepted, s.ran⟩

def run (buf : Fin 512 → Byte) (events : List (MainLoopEvent sizeofTaskFn)) :
    MainLoopLog sizeofTaskFn :=
  events.foldl step ⟨.fresh buf, [], []⟩

end MainLoopLog

namespace MainLoopQueue

variable {sizeofTaskFn : ℕ}

/-- The tasks that wait in the ring, oldest first. -/
structure Waits (m : MainLoopQueue sizeofTaskFn) (tasks : List Task) : Prop where
  holds : m.ring.Holds (tasks.map Task.blob)
  fn : ∀ t ∈ tasks, t.fn.length = sizeofTaskFn
  args : ∀ t ∈ tasks, t.args.length ≤ maxArgs
  blob : ∀ t ∈ tasks, t.blob ≠ []

theorem fresh_waits (buf : Fin 512 → Byte) : (@fresh sizeofTaskFn buf).Waits [] :=
  ⟨fresh_holds (by decide) buf, by simp, by simp, by simp⟩

theorem Waits.rest {m : MainLoopQueue sizeofTaskFn} {task : Task} {tasks : List Task}
    {ring : SpscByteQueue 512} (h : m.Waits (task :: tasks))
    (hring : ring.Holds (tasks.map Task.blob)) : @Waits sizeofTaskFn ⟨ring⟩ tasks :=
  ⟨hring, fun t ht => h.fn t (List.mem_cons_of_mem task ht),
    fun t ht => h.args t (List.mem_cons_of_mem task ht),
    fun t ht => h.blob t (List.mem_cons_of_mem task ht)⟩

theorem drainTurn_empty {m : MainLoopQueue sizeofTaskFn} (h : m.Waits []) :
    m.drainTurn = (m, .ringEmpty) := by
  have hempty : m.ring.w = m.ring.r := h.holds.write
  have hpop : m.ring.pop (sizeofTaskFn + maxArgs) = (m.ring, 0, []) := if_pos hempty
  unfold drainTurn
  rw [hpop]
  rfl

theorem drainTurn_ran {m : MainLoopQueue sizeofTaskFn} {task : Task} {tasks : List Task}
    (h : m.Waits (task :: tasks)) :
    ∃ m' : MainLoopQueue sizeofTaskFn, m.drainTurn = (m', .ran task) ∧ m'.Waits tasks := by
  have hfn := h.fn task List.mem_cons_self
  have hargs := h.args task List.mem_cons_self
  have hblob := h.blob task List.mem_cons_self
  have hlen : task.blob.length = sizeofTaskFn + task.args.length := by
    rw [Task.blob, List.length_append, hfn]
  have hpop := holds_pop h.holds (sizeofTaskFn + maxArgs)
  have hrest := h.holds.rest
  refine ⟨⟨_⟩, ?_, h.rest hrest⟩
  have hne : task.blob.length ≠ 0 := fun hzero => hblob (List.length_eq_zero_iff.mp hzero)
  have htake : task.blob.take (sizeofTaskFn + maxArgs) = task.blob :=
    List.take_of_length_le (by omega)
  rw [htake] at hpop
  obtain ⟨hring, hanswer⟩ := Prod.mk.inj hpop
  obtain ⟨hn, hout⟩ := QueueAnswer.popped.inj hanswer
  unfold drainTurn
  dsimp only
  rw [hn, hout, hring, if_neg hne, if_neg (by omega)]
  have hfirst : task.blob.take sizeofTaskFn = task.fn := by
    rw [Task.blob, ← hfn, List.take_left]
  have hlast : (task.blob.drop sizeofTaskFn).take (task.blob.length - sizeofTaskFn) =
      task.args := by
    rw [hlen, Nat.add_sub_cancel_left, Task.blob, ← hfn, List.drop_left, List.take_length]
  rw [hfirst, hlast]

theorem waits_post {m : MainLoopQueue sizeofTaskFn} {tasks : List Task} (h : m.Waits tasks)
    (fn : TaskFn sizeofTaskFn) (args : List Byte) :
    Waits (m.post fn args).1
      (if (m.post fn args).2 then tasks ++ [⟨fn.image, args⟩] else tasks) := by
  by_cases hguard : fn.IsNull ∨ maxArgs < args.length
  · have hpost : m.post fn args = (m, false) := dif_pos hguard
    rw [hpost]
    exact h
  · have hfn := fn.length_image
    have hsize := fn.sizeof_le
    have hargs : args.length ≤ maxArgs := Nat.not_lt.mp (not_or.mp hguard).2
    have hshort : (⟨fn.image ++ args, length_blob_lt hguard⟩ : ByteRecord).bytes.length + header <
        65536 := by
      change (fn.image ++ args).length + header < 65536
      rw [List.length_append]
      unfold maxArgs at hargs
      unfold header
      omega
    have hpost : m.post fn args = (⟨(m.ring.push ⟨fn.image ++ args, length_blob_lt hguard⟩).1⟩,
        (m.ring.push ⟨fn.image ++ args, length_blob_lt hguard⟩).2) := dif_neg hguard
    obtain ⟨hholds, hne⟩ := holds_of_push h.holds (by decide) hshort
    rw [hpost]
    dsimp only
    cases hok : (m.ring.push ⟨fn.image ++ args, length_blob_lt hguard⟩).2 with
    | false =>
        rw [hok] at hholds
        exact ⟨hholds, h.fn, h.args, h.blob⟩
    | true =>
        rw [hok] at hholds
        refine ⟨?_, ?_, ?_, ?_⟩
        · rw [if_pos rfl, List.map_append]
          exact hholds
        · intro t ht
          rcases List.mem_append.mp ht with hold | hnew
          · exact h.fn t hold
          · rw [List.mem_singleton.mp hnew]
            exact hfn
        · intro t ht
          rcases List.mem_append.mp ht with hold | hnew
          · exact h.args t hold
          · rw [List.mem_singleton.mp hnew]
            exact hargs
        · intro t ht
          rcases List.mem_append.mp ht with hold | hnew
          · exact h.blob t hold
          · rw [List.mem_singleton.mp hnew]
            exact hne hok

/-- What waits when a drain begins is run by it, in order. -/
theorem drain_runs {m : MainLoopQueue sizeofTaskFn} {tasks : List Task} (h : m.Waits tasks)
    {fuel : ℕ} (hfuel : tasks.length < fuel) :
    ∃ m' : MainLoopQueue sizeofTaskFn, drain fuel m = some (m', tasks) ∧ m'.Waits [] := by
  induction tasks generalizing m fuel with
  | nil =>
      obtain ⟨fuel, rfl⟩ := Nat.exists_eq_succ_of_ne_zero (Nat.ne_of_gt hfuel)
      refine ⟨m, ?_, h⟩
      rw [drain, drainTurn_empty h]
  | cons task tasks ih =>
      obtain ⟨fuel, rfl⟩ := Nat.exists_eq_succ_of_ne_zero (Nat.ne_of_gt (Nat.zero_lt_of_lt hfuel))
      obtain ⟨mid, hturn, hwaits⟩ := drainTurn_ran h
      obtain ⟨m', hdrain, hempty⟩ := ih hwaits (Nat.lt_of_succ_lt_succ hfuel)
      refine ⟨m', ?_, hempty⟩
      rw [drain, hturn]
      dsimp only
      rw [hdrain]
      rfl

end MainLoopQueue

namespace MainLoopLog

variable {sizeofTaskFn : ℕ}

/-- The tasks that were accepted are the ones that ran and then the ones that wait. -/
def Accounted (s : MainLoopLog sizeofTaskFn) : Prop :=
  ∃ tasks, s.accepted = s.ran ++ tasks ∧ s.queue.Waits tasks

theorem accounted_step {s : MainLoopLog sizeofTaskFn} (h : s.Accounted)
    (event : MainLoopEvent sizeofTaskFn) : (s.step event).Accounted := by
  obtain ⟨tasks, haccepted, hwaits⟩ := h
  cases event with
  | post fn args =>
      have hpost := MainLoopQueue.waits_post hwaits fn args
      refine ⟨_, ?_, hpost⟩
      change (if (s.queue.post fn args).2 then _ else _) = s.ran ++ _
      split_ifs
      · rw [haccepted, List.append_assoc]
      · exact haccepted
  | drainTurn =>
      cases tasks with
      | nil =>
          have hstep : s.step .drainTurn = s := by
            rw [step, MainLoopQueue.drainTurn_empty hwaits]
          rw [hstep]
          exact ⟨[], haccepted, hwaits⟩
      | cons task tasks =>
          obtain ⟨m, hturn, hrest⟩ := MainLoopQueue.drainTurn_ran hwaits
          have hstep : s.step .drainTurn = ⟨m, s.accepted, s.ran ++ [task]⟩ := by
            rw [step, hturn]
          rw [hstep]
          exact ⟨tasks, by rw [haccepted, List.append_assoc]; rfl, hrest⟩

theorem accounted_foldl {s : MainLoopLog sizeofTaskFn} (h : s.Accounted)
    (events : List (MainLoopEvent sizeofTaskFn)) : (events.foldl step s).Accounted := by
  induction events generalizing s with
  | nil => exact h
  | cons event events ih => exact ih (accounted_step h event)

theorem run_accounted (buf : Fin 512 → Byte) (events : List (MainLoopEvent sizeofTaskFn)) :
    (run buf events).Accounted :=
  accounted_foldl ⟨[], rfl, MainLoopQueue.fresh_waits buf⟩ events

/-- After any interleaving, the tasks that ran are the accepted ones, once each and in the order
in which they were posted, but for the last few; and a drain that is let finish runs these. -/
def RunsAccepted (s : MainLoopLog sizeofTaskFn) : Prop :=
  ∃ waiting, s.accepted = s.ran ++ waiting ∧ ∀ fuel, waiting.length < fuel →
    ∃ m, MainLoopQueue.drain fuel s.queue = some (m, waiting) ∧ m.ring.w = m.ring.r

theorem Accounted.runsAccepted {s : MainLoopLog sizeofTaskFn} (h : s.Accounted) :
    s.RunsAccepted := by
  obtain ⟨tasks, haccepted, hwaits⟩ := h
  refine ⟨tasks, haccepted, fun fuel hfuel => ?_⟩
  obtain ⟨m, hdrain, hempty⟩ := MainLoopQueue.drain_runs hwaits hfuel
  exact ⟨m, hdrain, hempty.holds.write⟩

end MainLoopLog

open MainLoopLog in
/-- The ring answers a run of calls as the bounded queue does, and the deferred tasks run as they
were accepted, if and only if the room that each record needs stays within sixteen bits. -/
theorem queue_refines_iff {capacityBytes sizeofTaskFn : ℕ} (hpos : 0 < capacityBytes)
    (hcap : capacityBytes < 65536) (buf : Fin capacityBytes → Byte) (calls : List QueueCall)
    (taskBuf : Fin 512 → Byte) (events : List (MainLoopEvent sizeofTaskFn)) :
    ((SpscByteQueue.fresh hpos buf).Follows [] calls ∧ (run taskBuf events).RunsAccepted) ↔
      ByteFifo.AllRepresentable capacityBytes [] calls := by
  rw [follows_iff (fresh_holds hpos buf) hcap]
  exact and_iff_left (run_accounted taskBuf events).runsAccepted

theorem sixteenByteRing_refines :
    ((@SpscByteQueue.fresh 16 (by decide) (fun _ => 0)).Follows []
        [.push ⟨[1, 2, 3], by decide⟩, .pop 2, .pop 16] ∧
      (@MainLoopLog.run 4 (fun _ => 0)
        [.post ⟨[1, 2, 3, 4], rfl, by decide⟩ [5], .drainTurn]).RunsAccepted) ↔
      ByteFifo.AllRepresentable 16 [] [.push ⟨[1, 2, 3], by decide⟩, .pop 2, .pop 16] :=
  queue_refines_iff (by decide) (by decide) _ _ _ _

/-- A record of 65534 bytes is accepted by a ring of sixteen. -/
theorem sixteenByteRing_accepts_any :
    ¬ (@SpscByteQueue.fresh 16 (by decide) (fun _ => 0)).Follows []
      [.push ⟨List.replicate 65534 0, by rw [List.length_replicate]; decide⟩] := by
  rw [follows_iff (fresh_holds (by decide) _) (by decide)]
  exact fun hall => ByteFifo.not_roomRepresentable List.length_replicate hall.1

end Lightnet
