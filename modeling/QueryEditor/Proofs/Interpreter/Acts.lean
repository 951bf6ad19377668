import Mathlib.Data.List.ReduceOption
import QueryEditor.Interpreter.Client

/-!
# Acts on a client

Between its start and its end a client is called through its handle, and works off what was queued,
in any order of the two. A call queues at most one request, under the next number if it wants an
answer. Which numbers are handed out and which requests are queued is read off the acts alone.

* `Client.Act`, `Client.act`, `Client.run`: calls, and requests worked off;
* `Client.Act.isNumbered`, `Client.Act.request?`: what a call takes and queues;
* `Client.act_eq`: one call, **`Client.ids_run`**: the numbers of a run.
-/

namespace QueryEditor.Client

/-- A call of the handle, or the next request worked off. -/
inductive Act where
  | execute (t : Text)
  | listTables
  | loadDatabase (path : Text)
  | addTable (name : Text) (attributes : List Text) (path : Text)
  | setMode (mode : EvalMode)
  | command (t : Text)
  | shutdown
  | work
  deriving DecidableEq, Repr

def act (host : Host) (c : Client) : Act → Client × Option RequestId
  | .execute t => c.execute t
  | .listTables => let (c, id) := c.listTables; (c, some id)
  | .loadDatabase path => let (c, id) := c.loadDatabase path; (c, some id)
  | .addTable name attributes path =>
    let (c, id) := c.addTable name attributes path
    (c, some id)
  | .setMode mode => (c.setMode mode, none)
  | .command t => ((c.command t).1, none)
  | .shutdown => (c.requestShutdown, none)
  | .work => (c.work host, none)

def run (host : Host) (c : Client) : List Act → Client × List (Option RequestId)
  | [] => (c, [])
  | a :: acts =>
    let (c, id) := c.act host a
    let (c, ids) := run host c acts
    (c, id :: ids)

namespace Act

/-- The act takes a number: a call that wants an answer, blank texts aside. -/
def isNumbered : Act → Bool
  | .execute t => !(normalize t).isBlank
  | .listTables | .loadDatabase _ | .addTable _ _ _ => true
  | .setMode _ | .command _ | .shutdown | .work => false

/-- The request that an act queues when the next number is `id`. -/
def request? (id : RequestId) : Act → Option Request
  | .execute t => if (normalize t).isBlank then none else some (.execute id (normalize t))
  | .listTables => some (.listTables id)
  | .loadDatabase path => some (.loadDatabase id path)
  | .addTable name attributes path => some (.addTable id name attributes path)
  | .setMode mode => some (.setMode mode)
  | .command t => some (.command t)
  | .shutdown => some .shutdown
  | .work => none

def nextId (id : RequestId) (a : Act) : RequestId := if a.isNumbered then id + 1 else id

theorem request?_eq_shutdown {id : RequestId} {a : Act} (h : a.request? id = some .shutdown) :
    a = .shutdown := by
  cases a with
  | execute t => simp only [request?] at h; split at h <;> cases h
  | shutdown => rfl
  | _ => cases h

end Act

/-- The requests that acts queue when the next number is `id`. -/
def requests : RequestId → List Act → List Request
  | _, [] => []
  | id, a :: acts => (a.request? id).toList ++ requests (a.nextId id) acts

theorem requests_append (id : RequestId) (acts acts' : List Act) :
    requests id (acts ++ acts') =
      requests id acts ++ requests (acts.foldl Act.nextId id) acts' := by
  induction acts generalizing id with
  | nil => rfl
  | cons a acts ih => simp [requests, ih]

theorem shutdown_not_mem_requests {acts : List Act} (h : Act.shutdown ∉ acts) (id : RequestId) :
    Request.shutdown ∉ requests id acts := by
  induction acts generalizing id with
  | nil => exact List.not_mem_nil
  | cons a acts ih =>
    obtain ⟨ha, hacts⟩ := not_or.1 (mt List.mem_cons.2 h)
    intro hmem
    rcases List.mem_append.1 hmem with hfirst | hlater
    · exact ha (Act.request?_eq_shutdown (Option.mem_toList.1 hfirst)).symm
    · exact ih hacts _ hlater

/-! ## One act -/

/-- A request that may be queued: it is lost when the session is over. -/
def enqueue (c : Client) (r : Option Request) : Client :=
  if c.session.isSome then { c with queue := c.queue ++ r.toList } else c

theorem send_fst (c : Client) (r : Request) : (c.send r).1 = c.enqueue (some r) := by
  unfold send enqueue
  split <;> rfl

theorem enqueue_none (c : Client) : c.enqueue none = c := by
  unfold enqueue
  split
  · simp
  · rfl

/-- **A call** takes a number if it wants an answer, and queues its request. -/
theorem act_eq (host : Host) (c : Client) {a : Act} (h : a ≠ .work) :
    c.act host a = (({ c with nextId := a.nextId c.nextId } : Client).enqueue (a.request? c.nextId),
      if a.isNumbered then some c.nextId else none) := by
  cases a with
  | execute t =>
    by_cases hblank : (normalize t).isBlank = true
    · simp [act, execute, Act.isNumbered, Act.request?, Act.nextId, hblank, enqueue_none]
    · simp [act, execute, Act.isNumbered, Act.request?, Act.nextId, hblank, sendNumbered, takeId,
        send_fst]
  | work => exact absurd rfl h
  | _ =>
    simp [act, listTables, loadDatabase, addTable, setMode, command, requestShutdown, sendNumbered,
      takeId, send_fst, Act.isNumbered, Act.request?, Act.nextId]

theorem nextId_handle (host : Host) (c : Client) (s : Session) (r : Request) :
    (handle host c s r).nextId = c.nextId := by
  cases r with
  | setMode mode => simp only [handle]; split <;> rfl
  | _ => rfl

theorem nextId_work (host : Host) (c : Client) : (c.work host).nextId = c.nextId := by
  unfold work
  split
  · rfl
  · split
    · split
      · rfl
      · rw [nextId_handle]
    · rfl

theorem nextId_act (host : Host) (c : Client) (a : Act) :
    (c.act host a).1.nextId = a.nextId c.nextId := by
  by_cases h : a = .work
  · subst h
    exact nextId_work host c
  · rw [act_eq host c h]
    simp only [enqueue]
    split <;> rfl

theorem act_snd (host : Host) (c : Client) (a : Act) :
    (c.act host a).2 = if a.isNumbered then some c.nextId else none := by
  by_cases h : a = .work
  · subst h
    rfl
  · rw [act_eq host c h]

/-! ## Numbers -/

/-- **The numbers of a run**: each act that takes one gets the next, without gaps. -/
theorem ids_run (host : Host) (c : Client) (acts : List Act) :
    (c.run host acts).2.map Option.isSome = acts.map Act.isNumbered ∧
      (c.run host acts).2.reduceOption = List.range' c.nextId (acts.countP Act.isNumbered) := by
  induction acts generalizing c with
  | nil => exact ⟨rfl, rfl⟩
  | cons a acts ih =>
    obtain ⟨hsome, hids⟩ := ih (c.act host a).1
    rw [nextId_act] at hids
    have hrun : (c.run host (a :: acts)).2 =
        (c.act host a).2 :: ((c.act host a).1.run host acts).2 := rfl
    rw [hrun, act_snd, List.map_cons, hsome]
    by_cases ha : a.isNumbered = true
    · simp [ha, hids, Act.nextId, List.range'_succ]
    · simp [ha, hids, Act.nextId]

end QueryEditor.Client
