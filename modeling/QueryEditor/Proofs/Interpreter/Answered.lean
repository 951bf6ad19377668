import Mathlib.Data.List.Forall2
import QueryEditor.Proofs.Interpreter.Acts
import QueryEditor.Proofs.Interpreter.Hearing

/-!
# One response to each request, in order

A client works its requests off one after the other, whatever happens to its interpreter. Each
request that took a number is answered once, and no other is. What is queued behind the end is lost.

At any time the requests queued so far are those worked off and those that still wait, and what the
client has told is what the session gives for the first of these.

* `Session.after`, `Session.given`, `Session.modesSet`: one request in a session, and many;
* `Client.Going`, `Client.Over`: a client before its end and behind it;
* `Client.stage_act`, `Client.stage_run`: what an act keeps, and a run;
* **`Client.responses_run`**: the numbers, the responses and the notifications of a run.
-/

namespace QueryEditor

namespace Session

open Client

def after (host : Host) (s : Session) : Client.Request → Session
  | .execute _ expression => (s.ask expression).1
  | .command t => (s.ask t).1
  | .setMode mode => (s.ask mode.command).1
  | .listTables _ => (s.ask Request.tablesCommand).1
  | .loadDatabase _ path => (s.loadDatabase host path).1
  | .addTable _ name attributes path => (s.addTable host name attributes path).1
  | .shutdown => s

def given (host : Host) (s : Session) : Client.Request → Option Client.Response
  | .execute id expression => some ⟨id, .ofExcept .output (s.ask expression).2⟩
  | .listTables id =>
    some ⟨id, .ofExcept (fun t => .tables (Table.listed t)) (s.ask Request.tablesCommand).2⟩
  | .loadDatabase id path => some ⟨id, .ofExcept .loaded (s.loadDatabase host path).2⟩
  | .addTable id name attributes path =>
    some ⟨id, .ofExcept .output (s.addTable host name attributes path).2⟩
  | .command _ | .setMode _ | .shutdown => none

/-- The mode that a request sets: its command can be written as long as the interpreter hears. -/
def modeSet? (s : Session) : Client.Request → Option EvalMode
  | .setMode mode => if s.hears then some mode else none
  | _ => none

def afterAll (host : Host) (s : Session) (rs : List Client.Request) : Session :=
  rs.foldl (after host) s

def givenAll (host : Host) : Session → List Client.Request → List Client.Response
  | _, [] => []
  | s, r :: rs => (s.given host r).toList ++ givenAll host (s.after host r) rs

def modesSet (host : Host) : Session → List Client.Request → List EvalMode
  | _, [] => []
  | s, r :: rs => (s.modeSet? r).toList ++ modesSet host (s.after host r) rs

theorem givenAll_append (host : Host) (s : Session) (rs rs' : List Client.Request) :
    s.givenAll host (rs ++ rs') = s.givenAll host rs ++ (s.afterAll host rs).givenAll host rs' := by
  induction rs generalizing s with
  | nil => rfl
  | cons r rs ih => simp [givenAll, afterAll, ih]

theorem modesSet_append (host : Host) (s : Session) (rs rs' : List Client.Request) :
    s.modesSet host (rs ++ rs') = s.modesSet host rs ++ (s.afterAll host rs).modesSet host rs' := by
  induction rs generalizing s with
  | nil => rfl
  | cons r rs ih => simp [modesSet, afterAll, ih]

theorem ask_mode (s : Session) (mode : EvalMode) :
    (s.ask mode.command).2 = .error (.transfer .brokenPipe) ∧ s.hears = false ∨
      (∃ t, (s.ask mode.command).2 = .ok t) ∧ s.hears = true := by
  have hfilled : mode.command.isBlank = false := by cases mode <;> rfl
  rcases s.ask_cases mode.command with ⟨hblank, -⟩ | ⟨-, hdeaf, h⟩ | ⟨-, hhears, queue, t, h⟩
  · exact absurd (hfilled.symm.trans hblank) (by decide)
  · exact .inl ⟨by rw [h], hdeaf⟩
  · exact .inr ⟨⟨t, by rw [h]⟩, hhears⟩

end Session

namespace Client

variable {host : Host} {s₀ : Session} {sent done : List Request} {c : Client}

/-- The result is of the kind that the call asks for, or says why there is none. -/
def Act.Fits : Act → Result → Prop
  | .execute _, .output _ | .addTable _ _ _, .output _ => True
  | .listTables, .tables _ => True
  | .loadDatabase _, .loaded _ => True
  | _, .failed _ => True
  | _, _ => False

/-! ## One request -/

/-- **One request worked off** changes the session, and adds its response and the notification of a
mode that was set. -/
theorem handle_eq (c : Client) (s : Session) {r : Request} (h : r ≠ .shutdown) :
    handle host c s r =
      { c with
        session := some (s.after host r)
        responses := c.responses ++ (s.given host r).toList
        notifications := c.notifications ++ (s.modeSet? r).toList.map .modeSet } := by
  cases r with
  | shutdown => exact absurd rfl h
  | setMode mode =>
    rcases s.ask_mode mode with ⟨hask, hdeaf⟩ | ⟨⟨t, hask⟩, hhears⟩
    · simp [handle, hask, hdeaf, Session.after, Session.given, Session.modeSet?]
    · simp [handle, hask, hhears, Session.after, Session.given, Session.modeSet?]
  | _ => simp [handle, respond, Session.after, Session.given, Session.modeSet?]

/-! ## The invariant -/

/-- Of the requests queued so far some have been worked off, and the client goes on with the
others. -/
structure Going (host : Host) (s₀ : Session) (sent done : List Request) (c : Client) : Prop where
  sent_eq : sent = done ++ c.queue
  quiet : .shutdown ∉ done
  running : c.running = true
  session : c.session = some (s₀.afterAll host done)
  responses : c.responses = s₀.givenAll host done
  notifications : c.notifications = .ready :: (s₀.modesSet host done).map .modeSet

/-- The requests in front of the first end have been worked off, and the session has ended. -/
structure Over (host : Host) (s₀ : Session) (sent done : List Request) (c : Client) : Prop where
  sent_eq : ∃ lost, sent = done ++ .shutdown :: lost
  quiet : .shutdown ∉ done
  session : c.session = none
  responses : c.responses = s₀.givenAll host done
  notifications : c.notifications = .ready :: (s₀.modesSet host done).map .modeSet ++
    [.exited (s₀.afterAll host done).shutdown]

/-- A client at some time of its life. -/
def Stage (host : Host) (s₀ : Session) (sent : List Request) (c : Client) : Prop :=
  ∃ done, Going host s₀ sent done c ∨ Over host s₀ sent done c

theorem going_enqueue (h : Going host s₀ sent done c) (id : RequestId) (r : Option Request) :
    Going host s₀ (sent ++ r.toList) done (({ c with nextId := id } : Client).enqueue r) := by
  have hopen : c.session.isSome = true := by rw [h.session]; rfl
  rw [enqueue, if_pos hopen]
  exact { h with sent_eq := by simp [h.sent_eq] }

theorem over_enqueue (h : Over host s₀ sent done c) (id : RequestId) (r : Option Request) :
    Over host s₀ (sent ++ r.toList) done (({ c with nextId := id } : Client).enqueue r) := by
  have hclosed : ¬ c.session.isSome = true := by rw [h.session]; decide
  obtain ⟨lost, hlost⟩ := h.sent_eq
  rw [enqueue, if_neg hclosed]
  exact { h with sent_eq := ⟨lost ++ r.toList, by simp [hlost]⟩ }

theorem work_closed (h : c.session = none) : c.work host = c := by rw [work, h]

theorem work_nil (hrunning : c.running = true) (hqueue : c.queue = []) : c.work host = c := by
  unfold work
  rw [hrunning, hqueue]
  split <;> rfl

theorem work_cons {s : Session} {r : Request} {queue : List Request}
    (hsession : c.session = some s) (hrunning : c.running = true) (hqueue : c.queue = r :: queue) :
    c.work host = handle host { c with queue } s r := by
  rw [work, hsession, hrunning, hqueue]
  rfl

theorem going_work (h : Going host s₀ sent done c) {r : Request} {queue : List Request}
    (hqueue : c.queue = r :: queue) :
    Over host s₀ sent done (c.work host) ∨
      Going host s₀ sent (done ++ [r]) (c.work host) ∧ (c.work host).queue = queue := by
  have hsent : sent = done ++ r :: queue := by rw [h.sent_eq, hqueue]
  rw [work_cons h.session h.running hqueue]
  by_cases hr : r = .shutdown
  · subst hr
    left
    exact
      { sent_eq := ⟨queue, hsent⟩
        quiet := h.quiet
        session := rfl
        responses := h.responses
        notifications := by simp [handle, finish, h.notifications] }
  · right
    rw [handle_eq _ _ hr]
    refine ⟨?_, rfl⟩
    exact
      { sent_eq := by simp [hsent]
        quiet := by simpa [h.quiet] using Ne.symm hr
        running := h.running
        session := by simp [Session.afterAll]
        responses := by simp [h.responses, Session.givenAll_append, Session.givenAll]
        notifications := by simp [h.notifications, Session.modesSet_append, Session.modesSet] }

theorem stage_work (h : Stage host s₀ sent c) : Stage host s₀ sent (c.work host) := by
  obtain ⟨done, hgoing | hover⟩ := h
  · cases hqueue : c.queue with
    | nil =>
      rw [work_nil hgoing.running hqueue]
      exact ⟨done, .inl hgoing⟩
    | cons r queue =>
      rcases going_work hgoing hqueue with hover | ⟨hnext, -⟩
      · exact ⟨done, .inr hover⟩
      · exact ⟨done ++ [r], .inl hnext⟩
  · rw [work_closed hover.session]
    exact ⟨done, .inr hover⟩

theorem stage_act (h : Stage host s₀ sent c) (a : Act) :
    Stage host s₀ (sent ++ (a.request? c.nextId).toList) (c.act host a).1 := by
  by_cases ha : a = .work
  · subst ha
    rw [Act.request?, Option.toList_none, List.append_nil]
    exact stage_work h
  · rw [act_eq host c ha]
    obtain ⟨done, hgoing | hover⟩ := h
    · exact ⟨done, .inl (going_enqueue hgoing _ _)⟩
    · exact ⟨done, .inr (over_enqueue hover _ _)⟩

theorem stage_run (h : Stage host s₀ sent c) (acts : List Act) :
    Stage host s₀ (sent ++ requests c.nextId acts) (c.run host acts).1 := by
  induction acts generalizing c sent with
  | nil => simpa [requests, run] using h
  | cons a acts ih =>
    have hrest := ih (stage_act h a)
    rw [nextId_act, List.append_assoc] at hrest
    exact hrest

/-! ## The end -/

theorem workMany_closed (h : c.session = none) (n : Nat) : c.workMany host n = c := by
  induction n with
  | zero => rfl
  | succ n ih => rw [workMany, work_closed h, ih]

/-- Requests with an end among them come to it, one after the other. -/
theorem over_workMany (h : Stage host s₀ sent c) (hend : .shutdown ∈ sent) {n : Nat}
    (hn : c.queue.length ≤ n) : ∃ done, Over host s₀ sent done (c.workMany host n) := by
  induction n generalizing c with
  | zero =>
    obtain ⟨done, hgoing | hover⟩ := h
    · have hqueue : c.queue = [] := List.length_eq_zero_iff.1 (Nat.le_zero.1 hn)
      rw [hgoing.sent_eq, hqueue, List.append_nil] at hend
      exact absurd hend hgoing.quiet
    · exact ⟨done, hover⟩
  | succ n ih =>
    obtain ⟨done, hgoing | hover⟩ := h
    · cases hqueue : c.queue with
      | nil =>
        rw [hgoing.sent_eq, hqueue, List.append_nil] at hend
        exact absurd hend hgoing.quiet
      | cons r queue =>
        rw [workMany]
        rcases going_work hgoing hqueue with hover | ⟨hnext, hrest⟩
        · rw [workMany_closed hover.session]
          exact ⟨done, hover⟩
        · refine ih ⟨_, .inl hnext⟩ ?_
          rw [hqueue, List.length_cons] at hn
          rw [hrest]
          exact Nat.le_of_succ_le_succ hn
    · rw [workMany_closed hover.session]
      exact ⟨done, hover⟩

theorem takeWhile_append_shutdown {rs : List Request} (h : .shutdown ∉ rs) (lost : List Request) :
    (rs ++ .shutdown :: lost).takeWhile (· ≠ .shutdown) = rs := by
  rw [List.takeWhile_append_of_pos, List.takeWhile_cons_of_neg (by decide), List.append_nil]
  intro r hr
  exact decide_eq_true fun e => h (e ▸ hr)

theorem over_run {l : Launch} {s : Session} (hlaunch : Session.launch host l = .ok s)
    {before : List Act} (hbefore : .shutdown ∉ before) (later : List Act) :
    ∃ sent, Over host (s.awaitPrompt l.startupTimeout).1 sent (requests 1 before)
      (((start host l).run host (before ++ .shutdown :: later)).1.settle host) := by
  have hstart : Stage host (s.awaitPrompt l.startupTimeout).1 [] (start host l) := by
    rw [start, hlaunch]
    exact ⟨[], .inl ⟨rfl, List.not_mem_nil, rfl, rfl, rfl, rfl⟩⟩
  have hid : (start host l).nextId = 1 := by rw [start, hlaunch]
  have hrun := stage_run hstart (before ++ .shutdown :: later)
  rw [hid, List.nil_append, requests_append] at hrun
  have hend : Request.shutdown ∈ requests 1 before ++
      requests (before.foldl Act.nextId 1) (.shutdown :: later) :=
    List.mem_append_right _ List.mem_cons_self
  obtain ⟨done, hover⟩ := over_workMany hrun hend (Nat.le_succ _)
  obtain ⟨lost, hlost⟩ := hover.sent_eq
  have hdone : done = requests 1 before := by
    rw [← takeWhile_append_shutdown hover.quiet lost, ← hlost]
    exact takeWhile_append_shutdown (shutdown_not_mem_requests hbefore 1) _
  exact ⟨_, hdone ▸ hover⟩

/-! ## What the acts get -/

theorem Act.fits_failed (a : Act) (message : Text) : a.Fits (.failed message) := by
  cases a <;> trivial

theorem Act.fits_ofExcept {α : Type} {a : Act} {f : α → Result} (h : ∀ x, a.Fits (f x))
    (r : Except Failure α) : a.Fits (.ofExcept f r) := by
  cases r with
  | ok x => exact h x
  | error e => exact a.fits_failed e.message

theorem given_of_isNumbered (host : Host) (s : Session) {a : Act} (h : a.isNumbered = true)
    (id : RequestId) :
    ∃ r result, a.request? id = some r ∧ s.given host r = some ⟨id, result⟩ ∧ a.Fits result := by
  cases a with
  | execute t =>
    have hblank : ¬ (normalize t).isBlank = true := by simpa [Act.isNumbered] using h
    exact ⟨_, _, if_neg hblank, rfl, Act.fits_ofExcept (fun _ => by trivial) _⟩
  | listTables => exact ⟨_, _, rfl, rfl, Act.fits_ofExcept (fun _ => by trivial) _⟩
  | loadDatabase path => exact ⟨_, _, rfl, rfl, Act.fits_ofExcept (fun _ => by trivial) _⟩
  | addTable name attributes path =>
    exact ⟨_, _, rfl, rfl, Act.fits_ofExcept (fun _ => by trivial) _⟩
  | _ => cases h

theorem given_of_not_isNumbered (host : Host) (s : Session) {a : Act} (h : ¬ a.isNumbered = true)
    (id : RequestId) : ∀ r ∈ a.request? id, s.given host r = none := by
  intro r hr
  cases a with
  | execute t =>
    have hblank : (normalize t).isBlank = true := by simpa [Act.isNumbered] using h
    simp [Act.request?, hblank] at hr
  | setMode mode => obtain rfl := Option.some.inj hr; rfl
  | command t => obtain rfl := Option.some.inj hr; rfl
  | shutdown => obtain rfl := Option.some.inj hr; rfl
  | work => cases hr
  | _ => exact absurd rfl h

theorem givenAll_requests (host : Host) (s : Session) (id : RequestId) (acts : List Act) :
    (s.givenAll host (requests id acts)).map Response.id =
        List.range' id (acts.countP Act.isNumbered) ∧
      List.Forall₂ Act.Fits (acts.filter Act.isNumbered)
        ((s.givenAll host (requests id acts)).map Response.result) := by
  induction acts generalizing s id with
  | nil => exact ⟨rfl, .nil⟩
  | cons a acts ih =>
    rw [requests, Session.givenAll_append]
    obtain ⟨hids, hfits⟩ := ih (s.afterAll host (a.request? id).toList) (a.nextId id)
    by_cases ha : a.isNumbered = true
    · obtain ⟨r, result, hr, hgiven, hresult⟩ := given_of_isNumbered host s ha id
      have hfirst : s.givenAll host (a.request? id).toList = [⟨id, result⟩] := by
        simp [hr, Session.givenAll, hgiven]
      rw [hfirst]
      refine ⟨?_, ?_⟩
      · rw [List.map_append, hids]
        simp [ha, Act.nextId, List.range'_succ]
      · rw [List.filter_cons_of_pos ha]
        exact .cons hresult hfits
    · have hfirst : s.givenAll host (a.request? id).toList = [] := by
        cases hr : a.request? id with
        | none => rfl
        | some r => simp [Session.givenAll, given_of_not_isNumbered host s ha id r hr]
      rw [hfirst]
      refine ⟨?_, ?_⟩
      · rw [List.nil_append, hids]
        simp [ha, Act.nextId]
      · rw [List.filter_cons_of_neg ha]
        exact hfits

/-! ## A client that could not start -/

theorem act_closed (h : c.session = none) (a : Act) :
    (c.act host a).1 = { c with nextId := a.nextId c.nextId } := by
  by_cases ha : a = .work
  · subst ha
    exact work_closed h
  · rw [act_eq host c ha]
    simp [enqueue, h]

theorem run_closed (host : Host) (h : c.session = none) (acts : List Act) :
    ∃ id, (c.run host acts).1 = { c with nextId := id } := by
  induction acts generalizing c with
  | nil => exact ⟨c.nextId, rfl⟩
  | cons a acts ih =>
    obtain ⟨id, hid⟩ := ih (c := (c.act host a).1) (by rw [act_closed h]; exact h)
    refine ⟨id, hid.trans ?_⟩
    rw [act_closed h]

/-! ## Whole runs -/

/-- **One response to each request, in order.** Acts that come to an end of the client, whatever
comes behind it, hand out all numbers without gaps. Of a client that has started, the responses have
the numbers handed out in front of the end, in order, each of the kind that its call asks for or
with a failure; and it tells that it is ready, the modes whose commands could be written, and that
it has exited. A client that could not start tells so and gives no response. -/
theorem responses_run (host : Host) (l : Launch) {before : List Act}
    (hbefore : .shutdown ∉ before) (later : List Act) :
    let acts := before ++ .shutdown :: later
    let ran := (start host l).run host acts
    let c := ran.1.settle host
    (ran.2.map Option.isSome = acts.map Act.isNumbered ∧
      ran.2.reduceOption = List.range' 1 (acts.countP Act.isNumbered)) ∧
    (∀ s, Session.launch host l = .ok s →
      c.responses.map Response.id = List.range' 1 (before.countP Act.isNumbered) ∧
      List.Forall₂ Act.Fits (before.filter Act.isNumbered) (c.responses.map Response.result) ∧
      ∃ code, c.notifications =
        .ready :: ((s.awaitPrompt l.startupTimeout).1.modesSet host (requests 1 before)).map
          .modeSet ++ [.exited code]) ∧
    (∀ e, Session.launch host l = .error e →
      c.responses = [] ∧ c.notifications = [.startFailed e.message, .exited none]) := by
  have hid : (start host l).nextId = 1 := by unfold start; split <;> rfl
  refine ⟨?_, fun s hlaunch => ?_, fun e hlaunch => ?_⟩
  · have hids := ids_run host (start host l) (before ++ .shutdown :: later)
    rwa [hid] at hids
  · obtain ⟨sent, hover⟩ := over_run hlaunch hbefore later
    obtain ⟨hids, hfits⟩ := givenAll_requests host (s.awaitPrompt l.startupTimeout).1 1 before
    rw [hover.responses]
    exact ⟨hids, hfits, _, hover.notifications⟩
  · have hclosed : (start host l).session = none := by rw [start, hlaunch]
    obtain ⟨id, hrun⟩ := run_closed host hclosed (before ++ .shutdown :: later)
    rw [hrun, settle, workMany_closed (by exact hclosed), start, hlaunch]
    exact ⟨rfl, rfl⟩

/-- A host whose interpreter ends at the first line that it is sent: it exits, or it goes on running
and closes its input and the output on which it answers. -/
def endingHost (exit : Option Nat) (closes : List Pipe) : Host where
  find _ := .error .notFound
  launch _ := .ok ⟨[], .output, none, [⟨fun _ => [], .output, exit⟩]⟩
  preset := []
  course _ := { closes := fun n => if n = 1 then closes else [] }

def lateActs : List Act := [.execute ['R'], .work, .setMode .set, .execute [' '], .listTables]

/-- The client after these, its end, and a query behind it. -/
def lateClient (host : Host) : Client :=
  ((start host (.ofCommand ['x'] [])).run host
    (lateActs ++ [.shutdown, .execute ['R']])).1.settle host

theorem responses_run_ending : Act.shutdown ∉ lateActs ∧
    ∀ host ∈ [endingHost (some 3) [], endingHost none [.input, .output .output]],
      (lateClient host).responses.map Response.id = [1, 2] ∧
        ∃ code, (lateClient host).notifications = [.ready, .exited code] := by
  have hlate : Act.shutdown ∉ lateActs := by decide
  refine ⟨hlate, fun host hhost => ?_⟩
  obtain ⟨-, hstarted, -⟩ := responses_run host (.ofCommand ['x'] []) hlate [.execute ['R']]
  rcases List.mem_pair.1 hhost with rfl | rfl
  · obtain ⟨hids, -, code, hnotifications⟩ := hstarted _ rfl
    exact ⟨hids, code, hnotifications.trans rfl⟩
  · obtain ⟨hids, -, code, hnotifications⟩ := hstarted _ rfl
    exact ⟨hids, code, hnotifications.trans rfl⟩

end Client

end QueryEditor
