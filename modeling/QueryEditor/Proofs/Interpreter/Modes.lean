import QueryEditor.Proofs.Interpreter.Answered
import QueryEditor.Proofs.Text.Normalized

/-!
# The menu for modes and the interpreter agree

A mode that is chosen in the menu is told to the interpreter by a command, which waits in the queue
of the client among the other requests. As the queue keeps their order, the interpreter hears each
query behind the commands of the modes that were chosen before it. The menu itself shows the mode
chosen last, whatever becomes of the command.

* `ModeSelector.selectThrough`: a choice whose command goes to any taker of commands, a client among
  them;
* `EvalMode.spelled`, `EvalMode.line`: the command of a mode and its line, word for word;
* `MenuClient`, `MenuClient.run`: a client with a menu;
* `MenuClient.Event.line?`, `isModeLine`: what the interpreter hears of an event;
* `Session.Heard.events`: the lines that the interpreter has heard;
* `Client.going_settle`: a queue without an end is worked off;
* **`MenuClient.modes_run`**: what the interpreter hears, what is answered, what the menu shows.
-/

namespace QueryEditor

theorem filterMap_cons_toList {α β : Type} (f : α → Option β) (a : α) (l : List α) :
    (a :: l).filterMap f = (f a).toList ++ l.filterMap f := by
  cases h : f a <;> simp [h]

/-! ## Choosing modes -/

/-- Choose a mode and hand its command to a taker of commands, which may refuse it. -/
def ModeSelector.selectThrough {σ ε : Type} (submit : σ → Text → σ × Except ε Unit)
    (menu : ModeSelector) (sink : σ) (m : EvalMode) : ModeSelector × σ :=
  let (menu, text) := menu.select m
  (menu, (submit sink text).1)

/-- Choose modes one after the other. -/
def ModeSelector.selectAll {σ ε : Type} (submit : σ → Text → σ × Except ε Unit)
    (menu : ModeSelector) (sink : σ) : List EvalMode → ModeSelector × σ
  | [] => (menu, sink)
  | m :: ms =>
    let (menu, sink) := menu.selectThrough submit sink m
    selectAll submit menu sink ms

/-- The command of a mode, word for word. -/
def EvalMode.spelled : EvalMode → Text
  | set => ".eval set".toList
  | bag => ".eval bag".toList
  | off => ".eval off".toList

/-- The command of a mode as the interpreter hears it. -/
def EvalMode.line (m : EvalMode) : List UInt8 := Utf8.encode (m.spelled ++ ['\r', '\n'])

theorem EvalMode.command_eq (m : EvalMode) : m.command = m.spelled := by cases m <;> rfl

theorem EvalMode.line_injective : Function.Injective EvalMode.line := by
  intro m m' h
  cases m <;> cases m' <;> first | rfl | exact absurd h (by decide)

/-- **A refused command does not undo the choice**: the menu shows the mode chosen last, and the
taker is handed every command. -/
theorem ModeSelector.selectAll_eq {σ ε : Type} (submit : σ → Text → σ × Except ε Unit)
    (menu : ModeSelector) (sink : σ) (ms : List EvalMode) :
    menu.selectAll submit sink ms =
      (⟨ms.getLast?.getD menu.mode⟩, (ms.map EvalMode.spelled).foldl (fun s t => (submit s t).1)
        sink) := by
  induction ms generalizing menu sink with
  | nil => rfl
  | cons m ms ih =>
    refine (ih ⟨m⟩ (submit sink m.command).1).trans ?_
    rw [List.getLast?_cons, m.command_eq]
    rfl

theorem Client.select_eq (c : Client) (menu : ModeSelector) (m : EvalMode) :
    c.select menu m = (menu.selectThrough Client.command c m).swap := rfl

/-- A line that begins with the name of the command for modes. -/
def isModeLine (line : List UInt8) : Bool := (Utf8.encode ".eval".toList).isPrefixOf line

/-! ## A client with a menu -/

/-- A client, and the menu in which modes for it are chosen. -/
structure MenuClient where
  client : Client
  menu : ModeSelector

namespace MenuClient

/-- What happens to a client with a menu: a mode is chosen, a query is sent, the tables are asked
for, or the next request is worked off. -/
inductive Event where
  | select (m : EvalMode)
  | execute (t : Text)
  | listTables
  | work
  deriving DecidableEq, Repr

namespace Event

def mode? : Event → Option EvalMode
  | .select m => some m
  | .execute _ | .listTables | .work => none

/-- The event is answered by a response; blank queries are not sent. -/
def isAnswered : Event → Bool
  | .execute t => !t.isBlank
  | .listTables => true
  | .select _ | .work => false

def asked? : Event → Option Text
  | .select m => some m.spelled
  | .execute t => some (normalize t)
  | .listTables => some ".tables".toList
  | .work => none

def line? (e : Event) : Option (List UInt8) := e.asked?.bind Session.lineFor

/-- A query is one line, and no command itself. -/
def IsProper : Event → Prop
  | .execute t => '\n' ∉ t.trim ∧ t.trim.head? ≠ some '.'
  | .select _ | .listTables | .work => True

instance : DecidablePred IsProper
  | .execute _ => inferInstanceAs (Decidable (_ ∧ _))
  | .select _ | .listTables | .work => inferInstanceAs (Decidable True)

/-- The event as an act on the client alone. -/
def act : Event → Client.Act
  | .select m => .command m.command
  | .execute t => .execute t
  | .listTables => .listTables
  | .work => .work

end Event

def step (host : Host) (x : MenuClient) : Event → MenuClient × Option Client.RequestId
  | .select m => let (client, menu) := x.client.select x.menu m; (⟨client, menu⟩, none)
  | .execute t => let (client, id) := x.client.execute t; ({ x with client }, id)
  | .listTables => let (client, id) := x.client.listTables; ({ x with client }, some id)
  | .work => ({ x with client := x.client.work host }, none)

def run (host : Host) (x : MenuClient) : List Event → MenuClient × List (Option Client.RequestId)
  | [] => (x, [])
  | e :: es =>
    let (x, id) := x.step host e
    let (x, ids) := run host x es
    (x, id :: ids)

variable {host : Host} {x : MenuClient} {e : Event}

theorem client_step (host : Host) (x : MenuClient) (e : Event) :
    ((x.step host e).1.client, (x.step host e).2) = x.client.act host e.act := by
  cases e <;> rfl

theorem menu_step (host : Host) (x : MenuClient) (e : Event) :
    (x.step host e).1.menu.mode = e.mode?.getD x.menu.mode := by cases e <;> rfl

theorem client_run (host : Host) (x : MenuClient) (events : List Event) :
    ((x.run host events).1.client, (x.run host events).2) =
      x.client.run host (events.map Event.act) := by
  induction events generalizing x with
  | nil => rfl
  | cons e events ih =>
    have hrest := ih (x.step host e).1
    have hclient : (x.step host e).1.client = (x.client.act host e.act).1 :=
      congrArg Prod.fst (client_step host x e)
    have hid : (x.step host e).2 = (x.client.act host e.act).2 :=
      congrArg Prod.snd (client_step host x e)
    have hrun : x.client.run host ((e :: events).map Event.act) =
        (((x.client.act host e.act).1.run host (events.map Event.act)).1,
          (x.client.act host e.act).2 ::
            ((x.client.act host e.act).1.run host (events.map Event.act)).2) := rfl
    rw [hrun, ← hclient, ← hid, ← hrest]
    rfl

/-- **The menu shows the mode chosen last**, whatever the client does. -/
theorem menu_run (host : Host) (x : MenuClient) (events : List Event) :
    (x.run host events).1.menu.mode =
      (events.filterMap Event.mode?).getLast?.getD x.menu.mode := by
  induction events generalizing x with
  | nil => rfl
  | cons e events ih =>
    have hrest := ih (x.step host e).1
    rw [menu_step] at hrest
    refine hrest.trans ?_
    cases hmode : e.mode? with
    | none => rw [List.filterMap_cons_none hmode, Option.getD_none]
    | some m => rw [List.filterMap_cons_some hmode, List.getLast?_cons, Option.getD_some,
        Option.getD_some]

/-! ## What is heard of an event -/

theorem Event.lineFor_spelled (m : EvalMode) : Session.lineFor m.spelled = some m.line := by
  cases m <;> rfl

theorem Event.lineFor_normalize_eq_none_iff (t : Text) :
    Session.lineFor (normalize t) = none ↔ t.isBlank = true := by
  rw [Session.lineFor, Option.map_eq_none_iff, Request.prepare_eq_none_iff, isBlank_normalize]

theorem Event.IsProper.lineFeed_not_mem (he : e.IsProper) :
    ∀ t ∈ e.asked?, '\n' ∉ t.trim := by
  intro t ht
  cases e with
  | select m =>
    obtain rfl := Option.some.inj ht
    cases m <;> decide
  | execute u =>
    obtain rfl := Option.some.inj ht
    rw [trim_normalize, mem_normalize_iff (by decide)]
    exact he.1
  | listTables =>
    obtain rfl := Option.some.inj ht
    decide
  | work => cases ht

theorem head?_of_prepare {t request : Text} (ht : t.trim.head? ≠ some '.')
    (h : Request.prepare t = some request) : ∃ c r, request = c :: r ∧ c ≠ '.' := by
  obtain ⟨hne, hform⟩ := Request.prepare_eq_some_iff.1 h
  obtain ⟨c, r, hbare⟩ := List.exists_cons_of_ne_nil hne
  rw [hbare] at ht hform
  have hc : c ≠ '.' := fun e => ht (by rw [e]; rfl)
  rcases hform with ⟨-, rfl⟩ | ⟨-, rfl⟩
  · exact ⟨c, r, rfl, hc⟩
  · exact ⟨c, r ++ [';'], rfl, hc⟩

theorem isModeLine_encode_cons {c : Char} (hc : c ≠ '.') (r : Text) :
    isModeLine (Utf8.encode (c :: r)) = false := by
  obtain ⟨b, tail, henc⟩ := Utf8.exists_encoding c
  have hb : b ≠ 46 := by
    rintro rfl
    have hmem : UInt8.ofNat '.'.toNat ∈ Utf8.encode [c] := by
      rw [Utf8.encode_singleton henc]
      exact List.mem_cons_self
    exact hc (List.mem_singleton.1 ((Utf8.mem_encode_iff (by decide) [c]).1 hmem)).symm
  have hdot : Utf8.encode ".eval".toList = 46 :: Utf8.encode "eval".toList := by decide
  rw [isModeLine, hdot, Utf8.encode_cons henc, List.isPrefixOf_cons_cons,
    beq_eq_false_iff_ne.2 (Ne.symm hb), Bool.false_and]

/-- **Of what is heard, only the commands of chosen modes** begin like one. -/
theorem Event.IsProper.filter_line? (he : e.IsProper) :
    e.line?.toList.filter isModeLine = e.mode?.toList.map EvalMode.line := by
  cases e with
  | select m =>
    have hm : isModeLine m.line = true := by cases m <;> decide
    simp [line?, asked?, mode?, lineFor_spelled, hm]
  | execute t =>
    cases hprepare : Request.prepare (normalize t) with
    | none => simp [line?, asked?, mode?, Session.lineFor, hprepare]
    | some request =>
      have htrim : (normalize t).trim.head? ≠ some '.' := by
        rw [trim_normalize, Ne, head?_normalize_eq_some_iff (by decide)]
        exact he.2
      obtain ⟨c, r, rfl, hc⟩ := head?_of_prepare htrim hprepare
      have hline := isModeLine_encode_cons hc (r ++ ['\r', '\n'])
      simp [line?, asked?, mode?, Session.lineFor, hprepare, hline]
  | listTables => decide
  | work => rfl

theorem filter_lines {events : List Event} (h : ∀ e ∈ events, e.IsProper) :
    (events.filterMap Event.line?).filter isModeLine =
      (events.filterMap Event.mode?).map EvalMode.line := by
  induction events with
  | nil => rfl
  | cons e events ih =>
    have hrest := ih fun e he => h e (List.mem_cons_of_mem _ he)
    have hfirst := (h e List.mem_cons_self).filter_line?
    rw [filterMap_cons_toList, filterMap_cons_toList, List.filter_append, List.map_append, hfirst,
      hrest]

end MenuClient

/-! ## A session that hears lines -/

namespace Session

variable {script : Script} {s : Session} {lines : List (List UInt8)}

theorem afterAll_append (host : Host) (s : Session) (rs rs' : List Client.Request) :
    s.afterAll host (rs ++ rs') = (s.afterAll host rs).afterAll host rs' := List.foldl_append

theorem afterAll_request? (host : Host) (s : Session) (id : Client.RequestId)
    (e : MenuClient.Event) : s.afterAll host (e.act.request? id).toList =
      (e.asked?.map fun t => (s.ask t).1).getD s := by
  cases e with
  | execute t =>
    by_cases hblank : (normalize t).isBlank = true
    · simp [MenuClient.Event.act, Client.Act.request?, MenuClient.Event.asked?, hblank, afterAll,
        ask_blank s _ hblank]
    · simp [MenuClient.Event.act, Client.Act.request?, MenuClient.Event.asked?, hblank, afterAll,
        after]
  | select m =>
    rw [MenuClient.Event.asked?, ← m.command_eq]
    rfl
  | _ => rfl

theorem Heard.events (h : Heard script lines s) (host : Host) (id : Client.RequestId)
    {events : List MenuClient.Event} (hproper : ∀ e ∈ events, e.IsProper)
    (hruns : script.isOver (lines ++ events.filterMap MenuClient.Event.line?).length = false) :
    Heard script (lines ++ events.filterMap MenuClient.Event.line?)
      (s.afterAll host (Client.requests id (events.map MenuClient.Event.act))) := by
  induction events generalizing lines s id with
  | nil => simpa [Client.requests, afterAll] using h
  | cons e events ih =>
    rw [filterMap_cons_toList, ← List.append_assoc] at hruns ⊢
    have hnow : script.isOver lines.length = false :=
      script.isOver_mono (by simp only [List.length_append]; omega) hruns
    have hfirst : Heard script (lines ++ e.line?.toList)
        (s.afterAll host (e.act.request? id).toList) := by
      rw [afterAll_request?]
      cases hasked : e.asked? with
      | none => simpa [MenuClient.Event.line?, hasked] using h
      | some t =>
        have ht := (hproper e List.mem_cons_self).lineFeed_not_mem t hasked
        simpa [MenuClient.Event.line?, hasked] using h.ask ht hnow
    rw [List.map_cons, Client.requests, afterAll_append]
    exact ih hfirst _ (fun e he => hproper e (List.mem_cons_of_mem _ he)) hruns

end Session

/-! ## A queue without an end -/

namespace Client

variable {host : Host} {s₀ : Session} {sent done : List Request} {c : Client}

theorem going_workMany (h : Going host s₀ sent done c) (hend : .shutdown ∉ sent) {n : Nat}
    (hn : c.queue.length ≤ n) : Going host s₀ sent sent (c.workMany host n) := by
  induction n generalizing c done with
  | zero =>
    have hqueue : c.queue = [] := List.length_eq_zero_iff.1 (Nat.le_zero.1 hn)
    have hdone : sent = done := by rw [h.sent_eq, hqueue, List.append_nil]
    subst hdone
    exact h
  | succ n ih =>
    rw [workMany]
    cases hqueue : c.queue with
    | nil =>
      rw [work_nil h.running hqueue]
      exact ih h (by rw [hqueue]; exact Nat.zero_le _)
    | cons r queue =>
      rcases going_work h hqueue with hover | ⟨hnext, hrest⟩
      · -- only an end, of which there is none, leaves requests behind
        obtain ⟨lost, hlost⟩ := hover.sent_eq
        exact absurd (hlost ▸ List.mem_append_right _ List.mem_cons_self) hend
      · refine ih hnext ?_
        rw [hqueue, List.length_cons] at hn
        rw [hrest]
        exact Nat.le_of_succ_le_succ hn

/-- **A client that has started and is never ended** works off all that its acts queue. -/
theorem going_settle {l : Launch} {s : Session} (hlaunch : Session.launch host l = .ok s)
    {acts : List Act} (hacts : .shutdown ∉ acts) :
    Going host (s.awaitPrompt l.startupTimeout).1 (requests 1 acts) (requests 1 acts)
      (((start host l).run host acts).1.settle host) := by
  have hstart : Stage host (s.awaitPrompt l.startupTimeout).1 [] (start host l) := by
    rw [start, hlaunch]
    exact ⟨[], .inl ⟨rfl, List.not_mem_nil, rfl, rfl, rfl, rfl⟩⟩
  have hid : (start host l).nextId = 1 := by rw [start, hlaunch]
  have hend : Request.shutdown ∉ requests 1 acts := shutdown_not_mem_requests hacts 1
  have hrun := stage_run hstart acts
  rw [hid, List.nil_append] at hrun
  obtain ⟨done, hgoing | hover⟩ := hrun
  · exact going_workMany hgoing hend (Nat.le_succ _)
  · obtain ⟨lost, hlost⟩ := hover.sent_eq
    exact absurd (hlost ▸ List.mem_append_right _ List.mem_cons_self) hend

end Client

namespace MenuClient

variable {events : List Event}

theorem Event.shutdown_not_mem (events : List Event) :
    Client.Act.shutdown ∉ events.map Event.act := by
  intro h
  obtain ⟨e, -, he⟩ := List.mem_map.1 h
  cases e <;> cases he

theorem Event.isNumbered_act (e : Event) : e.act.isNumbered = e.isAnswered := by
  cases e with
  | execute t => rw [act, Client.Act.isNumbered, isAnswered, isBlank_normalize]
  | _ => rfl

theorem heard_execute {before later : List Event} {t : Text}
    (hproper : ∀ e ∈ before, e.IsProper) (ht : t.isBlank = false) :
    ∃ line, Session.lineFor (normalize t) = some line ∧
      ∃ earlier rest, (before ++ .execute t :: later).filterMap Event.line? =
        earlier ++ line :: rest ∧
      earlier.filter isModeLine = (before.filterMap Event.mode?).map EvalMode.line := by
  cases hline : Session.lineFor (normalize t) with
  | none =>
    rw [Event.lineFor_normalize_eq_none_iff, ht] at hline
    cases hline
  | some line =>
    refine ⟨line, rfl, _, later.filterMap Event.line?, ?_, filter_lines hproper⟩
    rw [List.filterMap_append, filterMap_cons_toList]
    simp [Event.line?, Event.asked?, hline]

/-- **The menu and the interpreter agree on the mode.** A client whose interpreter runs through all
its replies and keeps its input open, at whatever pace, is sent modes, queries of one line that are
no commands, and requests for the tables, and works them off. The interpreter has heard one line for
each, in order: the lines that begin like a command for modes are those of the modes chosen, the
last of which names the mode that the menu shows and no other, and each query is behind those chosen
before it. Only queries and requests for the tables are answered. The client takes the commands as
anything else would. Whatever takes them, and whichever of them it refuses, it is handed all of them
and the menu shows the mode chosen last. -/
theorem modes_run :
    (∀ (host : Host) (l : Launch) (script : Script) (menu : ModeSelector) (events : List Event),
      host.start l = .ok script → (∀ n, .input ∉ (host.course l).closes n) →
      (∀ e ∈ events, e.IsProper) →
      script.isOver (events.filterMap Event.line?).length = false →
      let ran := run host ⟨.start host l, menu⟩ events
      let c := ran.1.client.settle host
      let chosen := events.filterMap Event.mode?
      ∃ s, c.session = some s ∧ c.queue = [] ∧
        s.child.heard = events.filterMap Event.line? ∧
        s.child.heard.filter isModeLine = chosen.map EvalMode.line ∧
        ran.1.menu.mode = chosen.getLast?.getD menu.mode ∧
        (chosen ≠ [] → ∀ m, (s.child.heard.filter isModeLine).getLast? = some m.line ↔
          ran.1.menu.mode = m) ∧
        (∀ before t later, events = before ++ .execute t :: later → t.isBlank = false →
          ∃ line, Session.lineFor (normalize t) = some line ∧
            ∃ earlier rest, s.child.heard = earlier ++ line :: rest ∧
            earlier.filter isModeLine = (before.filterMap Event.mode?).map EvalMode.line) ∧
        ran.2.map Option.isSome = events.map Event.isAnswered ∧
        c.responses.map Client.Response.id = ran.2.reduceOption) ∧
    (∀ (c : Client) (menu : ModeSelector) (m : EvalMode),
      c.select menu m = (menu.selectThrough Client.command c m).swap) ∧
    (∀ (σ ε : Type) (submit : σ → Text → σ × Except ε Unit) (menu : ModeSelector) (sink : σ)
      (ms : List EvalMode), menu.selectAll submit sink ms =
        (⟨ms.getLast?.getD menu.mode⟩,
          (ms.map EvalMode.spelled).foldl (fun s t => (submit s t).1) sink)) := by
  refine ⟨fun host l script menu events hstart hopen hproper hruns => ?_, Client.select_eq,
    fun _ _ submit menu sink ms => menu.selectAll_eq submit sink ms⟩
  intro ran c chosen
  let link : Link := ⟨host.course l, l.queryTimeout⟩
  have hlaunch : Session.launch host l = .ok (Session.start l.prompt script link) := by
    rw [Session.launch, hstart]
  have hclient := congrArg Prod.fst (client_run host ⟨.start host l, menu⟩ events)
  have hids := congrArg Prod.snd (client_run host ⟨.start host l, menu⟩ events)
  have hgoing := Client.going_settle hlaunch (Event.shutdown_not_mem events)
  rw [← hclient] at hgoing
  have hheard := ((Session.heard_start l.prompt script link hopen l.startupTimeout).events host 1
    hproper hruns).heard
  rw [List.nil_append] at hheard
  have hmenu : ran.1.menu.mode = chosen.getLast?.getD menu.mode := menu_run host _ events
  have hfilter := filter_lines hproper
  refine ⟨_, hgoing.session, ?_, hheard, by rw [hheard, hfilter], hmenu, ?_, ?_, ?_, ?_⟩
  · exact List.append_right_eq_self.1 hgoing.sent_eq.symm
  · intro hchosen m
    obtain ⟨last, hlast⟩ : ∃ last, chosen.getLast? = some last :=
      ⟨_, List.getLast?_eq_some_getLast hchosen⟩
    rw [hheard, hfilter, List.getLast?_map, show (events.filterMap Event.mode?).getLast? = _
      from hlast, hmenu, hlast, Option.map_some, Option.some_inj, Option.getD_some]
    exact EvalMode.line_injective.eq_iff
  · rintro before t later rfl ht
    rw [hheard]
    exact heard_execute (fun e he => hproper e (List.mem_append_left _ he)) ht
  · have hsome := (Client.ids_run host (.start host l) (events.map Event.act)).1
    rw [show ran.2 = _ from hids, hsome, List.map_map]
    exact List.map_congr_left fun e _ => e.isNumbered_act
  · have hnumbers := (Client.ids_run host (.start host l) (events.map Event.act)).2
    have hfirst : (Client.start host l).nextId = 1 := by rw [Client.start, hlaunch]
    rw [show ran.2 = _ from hids, hnumbers, hfirst, hgoing.responses]
    exact (Client.givenAll_requests host _ 1 _).1

/-- A host whose interpreter shows its prompt twice for every line; its output is closed in the end,
and its second reply takes long. -/
def patientHost : Host where
  find _ := .error .notFound
  launch _ := .ok ⟨Utf8.encode ">>>".toList, .output, none,
    [⟨fun _ => Utf8.encode ">>>\n>>>".toList, .output, none⟩]⟩
  preset := []
  course _ :=
    { closes := fun n => if n = 4 then [.output .output] else []
      delays := fun n => if n = 2 then [5, 5000] else [] }

/-- Two modes chosen around a query, of which the client has worked one off when the query is
sent. -/
def patientEvents : List Event :=
  [.select .bag, .work, .execute [' ', 'R'], .listTables, .select .set]

theorem modes_run_patient :
    let ran := run patientHost ⟨.start patientHost (.ofCommand ['x'] []), .start⟩ patientEvents
    let c := ran.1.client.settle patientHost
    ∃ s, c.session = some s ∧
      s.child.heard.filter isModeLine = [EvalMode.bag.line, EvalMode.set.line] ∧
      ran.1.menu.mode = .set ∧ c.responses.map Client.Response.id = ran.2.reduceOption := by
  have hproper : ∀ e ∈ patientEvents, e.IsProper := by decide
  have hopen : ∀ n, .input ∉ (patientHost.course (.ofCommand ['x'] [])).closes n := by
    intro n
    simp only [patientHost]
    split <;> decide
  obtain ⟨s, hsession, -, -, hmodes, hmenu, -, -, -, hids⟩ := modes_run.1 patientHost
    (.ofCommand ['x'] []) _ .start patientEvents rfl hopen hproper (by decide)
  exact ⟨s, hsession, hmodes, hmenu, hids⟩

end MenuClient

end QueryEditor
