import QueryEditor.CommandLine.Run
import QueryEditor.Proofs.Interpreter.Loads
import QueryEditor.Proofs.Interpreter.Settled

/-!
# What the command line asks

A run asks for the mode, the text and the tables in this order, and prints the answers to the last
two in the order in which they come. The command for the mode waits in the same queue and has no
answer of its own, so the next answer is always the one that is waited for.

* `Arguments.runs`, `Arguments.asked`, `Arguments.lines`: what is asked, and the lines of that;
* `await_eq`: one request behind commands, and its answer;
* `runText_eq`, `listTables_eq`: each step, **`consult_eq`**: the interpreter asked;
* **`invoke_asked`**: a whole run.
-/

namespace QueryEditor.CommandLine

open Session

/-- The text is run: this is wanted, and the text is not blank. -/
def Arguments.runs (a : Arguments) (text : Text) : Bool := a.run && !text.isBlank

def Arguments.commands (a : Arguments) : List Text := (a.mode.map EvalMode.spelled).toList

/-- The texts that the interpreter is asked in front of the tables. -/
def Arguments.before (a : Arguments) (text : Text) : List Text :=
  a.commands ++ if a.runs text then [normalize text] else []

def Arguments.asked (a : Arguments) (text : Text) : List Text :=
  a.before text ++ if a.tables then [".tables".toList] else []

/-- The lines that the interpreter hears: the command for the mode, the request of the text, and the
one for the tables. -/
def Arguments.lines (a : Arguments) (text : Text) : List (List UInt8) :=
  (a.mode.map EvalMode.line).toList ++
    (if a.runs text then (lineFor (normalize text)).toList else []) ++
    if a.tables then [Utf8.encode ".tables\r\n".toList] else []

theorem Arguments.linesFor_asked (a : Arguments) (text : Text) :
    linesFor (a.asked text) = a.lines text := by
  have hcommands : linesFor a.commands = (a.mode.map EvalMode.line).toList := by
    rw [commands]
    cases a.mode with
    | none => rfl
    | some m => cases m <;> rfl
  have htext : linesFor (if a.runs text then [normalize text] else []) =
      if a.runs text then (lineFor (normalize text)).toList else [] := by
    split
    · rw [linesFor_cons]
      exact List.append_nil _
    · rfl
  have htables : linesFor (if a.tables then [".tables".toList] else []) =
      if a.tables then [Utf8.encode ".tables\r\n".toList] else [] := by
    split <;> rfl
  rw [asked, before, linesFor_append, linesFor_append, hcommands, htext, htables, lines]

def tableLine (t : Table) : Text :=
  t.name ++ " (".toList ++ Text.joinWith ", ".toList t.attributes ++ ")\n".toList

theorem tableLine_eq (t : Table) : tableLine t = t.summary ++ ['\n'] := by
  simp [tableLine, Table.summary]

variable {host : Host} {a : Arguments} {view : View} {s : Session}

/-! ## One request behind commands -/

/-- A client with a queue that has no answer to hand out. -/
def waiting (s : Session) (next : Client.RequestId) (queue : List Client.Request)
    (notifications : List Client.Notification) : Client :=
  ⟨some s, next, queue, [], notifications, true⟩

/-- **The next answer is the one that is waited for**, as the commands in front have none. -/
theorem await_eq (host : Host) (s : Session) (next : Client.RequestId) (commands : List Text)
    (notifications : List Client.Notification) {r : Client.Request} (hr : r ≠ .shutdown)
    {id : Client.RequestId} {result : Client.Result}
    (hgiven : (s.asks commands).1.given host r = some ⟨id, result⟩) (number : Client.RequestId) :
    ∃ notifications',
      await host (waiting s next (commands.map .command ++ [r]) notifications) number =
        (waiting ((s.asks commands).1.after host r) next [] notifications', printed result) := by
  have hend : Client.Request.shutdown ∉ commands.map Client.Request.command ++ [r] := by
    rw [List.mem_append, List.mem_singleton, not_or]
    exact ⟨by simp, Ne.symm hr⟩
  have hsettle : (waiting s next (commands.map .command ++ [r]) notifications).settle host = _ :=
    Client.settle_eq rfl rfl hend
  have hafter : s.afterAll host (commands.map .command ++ [r]) =
      (s.asks commands).1.after host r := by
    rw [afterAll_append, afterAll_commands]
    rfl
  have hresponses : s.givenAll host (commands.map .command ++ [r]) = [⟨id, result⟩] := by
    rw [givenAll_append, givenAll_commands, afterAll_commands, List.nil_append, givenAll, hgiven]
    rfl
  rw [await, hsettle]
  simp only [waiting, Client.receive, hafter, hresponses, List.nil_append, List.head?_cons,
    List.drop_succ_cons, List.drop_zero]
  exact ⟨_, rfl⟩

/-! ## The interpreter asked -/

section Consult

variable {text doc listing : Text}

theorem runText_eq (host : Host) (told : List Client.Notification) (hview : view.text = text)
    (hdoc : a.runs text = true → ((s.asks a.commands).1.ask (normalize text)).2 = .ok doc) :
    ∃ s' next commands notifications,
      runText host a view (waiting s 1 (a.commands.map .command) told) =
        (waiting s' next (commands.map .command) notifications,
          .ok (if a.runs text then doc ++ ['\n'] else [])) ∧
      (s'.asks commands).1 = (s.asks (a.before text)).1 ∧ (a.runs text = true → commands = []) := by
  have hexpression : normalize view.outgoing = normalize text := by
    rw [View.outgoing, normalize_normalize, hview]
  cases hruns : a.runs text with
  | false =>
    refine ⟨s, 1, a.commands, told, ?_, ?_, fun h => absurd h (by decide)⟩
    · rw [runText, if_neg Bool.false_ne_true]
      split
      · rename_i hrun
        have hblank : (normalize view.outgoing).isBlank = true := by
          rw [hexpression, isBlank_normalize]
          simpa [Arguments.runs, hrun] using hruns
        rw [Client.execute_blank _ view.outgoing hblank]
      · rfl
    · rw [Arguments.before, hruns, if_neg Bool.false_ne_true, List.append_nil]
  | true =>
    obtain ⟨hrun, hblank⟩ := Bool.and_eq_true_iff.1 hruns
    have hexecute : (waiting s 1 (a.commands.map .command) told).execute view.outgoing =
        (waiting s 2 (a.commands.map .command ++ [.execute 1 (normalize text)]) told, some 1) := by
      rw [Client.execute, hexpression, isBlank_normalize, if_neg (by simpa using hblank)]
      rfl
    have hgiven : (s.asks a.commands).1.given host (.execute 1 (normalize text)) =
        some ⟨1, .output doc⟩ := by
      rw [given, hdoc hruns]
      rfl
    have hgoing : Client.Request.execute 1 (normalize text) ≠ .shutdown :=
      Client.Request.noConfusion
    obtain ⟨notifications, hawait⟩ := await_eq host s 2 a.commands told hgoing hgiven 1
    refine ⟨((s.asks a.commands).1.ask (normalize text)).1, 2, [], notifications, ?_, ?_,
      fun _ => rfl⟩
    · rw [runText, if_pos hrun, hexecute]
      exact hawait
    · rw [Arguments.before, hruns, if_pos rfl, asks_append]
      rfl

theorem listTables_eq (host : Host) (s : Session) (next : Client.RequestId) (commands : List Text)
    (notifications : List Client.Notification)
    (hlisting : a.tables = true →
      ((s.asks commands).1.ask ".tables".toList).2 = .ok listing) :
    ∃ c, listTables host a (waiting s next (commands.map .command) notifications) =
        (c, .ok (if a.tables then (Table.listed listing).flatMap tableLine else [])) ∧
      (a.tables = true ∨ commands = [] → c.session =
        some ((s.asks commands).1.asks (if a.tables then [".tables".toList] else [])).1) := by
  cases htables : a.tables with
  | false =>
    refine ⟨waiting s next (commands.map .command) notifications, ?_, ?_⟩
    · rw [listTables, htables, if_neg Bool.false_ne_true, if_neg Bool.false_ne_true]
    · rintro (h | rfl)
      · exact absurd h (by decide)
      · rfl
  | true =>
    have hgiven : (s.asks commands).1.given host (.listTables next) =
        some ⟨next, .tables (Table.listed listing)⟩ := by
      rw [given, Request.tablesCommand, hlisting htables]
      rfl
    have hprinted : printed (.tables (Table.listed listing)) =
        .ok ((Table.listed listing).flatMap tableLine) := by
      rw [printed, funext tableLine_eq]
    have hgoing : Client.Request.listTables next ≠ .shutdown := Client.Request.noConfusion
    obtain ⟨notifications', hawait⟩ :=
      await_eq host s (next + 1) commands notifications hgoing hgiven next
    refine ⟨waiting ((s.asks commands).1.ask ".tables".toList).1 (next + 1) []
      notifications', ?_, fun _ => rfl⟩
    rw [listTables, htables, if_pos rfl, if_pos rfl, ← hprinted]
    exact hawait

/-- A client whose interpreter could be launched is asked whether or not it told so in time. -/
theorem exists_startClient_eq {l : Launch} {script : Script} (hstart : host.start l = .ok script) :
    ∃ told note, startClient host l = (waiting (opened host l script) 1 [] told, note) ∧
      ∀ message, note ≠ some (.startFailed message) := by
  have hclient : Client.start host l = waiting (opened host l script) 1 [] [.ready] := by
    rw [Client.start, Session.launch, hstart]
    rfl
  rw [startClient, hclient]
  split
  · exact ⟨[], some .ready, rfl, fun message h => by cases h⟩
  · exact ⟨[.ready], none, rfl, fun message h => by cases h⟩

theorem selectMode_eq (a : Arguments) (s : Session) (told : List Client.Notification) :
    selectMode a (waiting s 1 [] told) = waiting s 1 (a.commands.map .command) told := by
  rw [selectMode, Arguments.commands]
  cases a.mode with
  | none => rfl
  | some m =>
    rw [Option.map_some, ← m.command_eq]
    rfl

/-- **The interpreter asked** for whatever is wanted, when it answers: the answers are printed in
their order, and if any is waited for, all that should be asked was asked. -/
theorem consult_eq {l : Launch} {script : Script} (hstart : host.start l = .ok script)
    (hview : view.text = text) (hs : s = opened host l script)
    (hdoc : a.runs text = true → ((s.asks a.commands).1.ask (normalize text)).2 = .ok doc)
    (hlisting : a.tables = true →
      ((s.asks (a.before text)).1.ask ".tables".toList).2 = .ok listing) :
    (consult host l a view).2 =
        ⟨0, (if a.runs text then doc ++ ['\n'] else []) ++
          (if a.tables then (Table.listed listing).flatMap tableLine else []), none, [l]⟩ ∧
      ((a.runs text || a.tables) = true →
        (consult host l a view).1.session = some (s.asks (a.asked text)).1) := by
  obtain ⟨told, note, hclient, hnote⟩ := exists_startClient_eq hstart
  rw [← hs] at hclient
  obtain ⟨s', next, commands, notifications, hrun, hbefore, hnone⟩ :=
    runText_eq host told hview hdoc
  rw [← hbefore] at hlisting
  obtain ⟨c, hlist, hsession⟩ := listTables_eq host s' next commands notifications hlisting
  have hconsult : consult host l a view = (c, ⟨0, (if a.runs text then doc ++ ['\n'] else []) ++
      (if a.tables then (Table.listed listing).flatMap tableLine else []), none, [l]⟩) := by
    unfold consult
    rw [hclient]
    split
    · rename_i hfailed
      obtain ⟨-, rfl⟩ := Prod.mk.inj hfailed
      exact absurd rfl (hnote _)
    · rename_i hgoing
      obtain ⟨rfl, -⟩ := Prod.mk.inj hgoing
      simp only [selectMode_eq, hrun, hlist]
  rw [hconsult]
  refine ⟨rfl, fun h => ?_⟩
  rw [Arguments.asked, asks_append, ← hbefore]
  exact hsession ((Bool.or_eq_true_iff.1 h).symm.imp id hnone)

end Consult

/-! ## Whole runs -/

theorem lineFeed_not_mem_asked {text : Text}
    (hline : ∀ request ∈ Request.prepare (normalize text), '\n' ∉ request) :
    ∀ t ∈ a.asked text, '\n' ∉ t.trim := by
  have hcommands : ∀ t ∈ a.commands, '\n' ∉ t.trim := by
    intro t ht
    rw [Arguments.commands, Option.mem_toList] at ht
    obtain ⟨m, -, rfl⟩ := Option.map_eq_some_iff.1 ht
    cases m <;> decide
  refine List.forall_mem_append.2 ⟨List.forall_mem_append.2 ⟨hcommands, fun t ht => ?_⟩,
    fun t ht => ?_⟩
  · split at ht
    · obtain rfl := List.mem_singleton.1 ht
      exact lineFeed_not_mem_trim hline
    · exact absurd ht List.not_mem_nil
  · split at ht
    · obtain rfl := List.mem_singleton.1 ht
      decide
    · exact absurd ht List.not_mem_nil

theorem invoke_eq {input : List UInt8} {color : Bool} {arguments : List Text} {config : Config}
    {text : Text} (hread : Arguments.read arguments = .run a)
    (hconfig : configOf host a = .ok config) (htext : textOf host input a = .ok text) :
    invoke host input color arguments =
      { present host config a text color with
        message := (present host config a text color).message.map logged } := by
  rw [invoke, hread]
  simp only [run, hconfig, htext]

/-- What a run shows: the text opened in a view, folded whole just when this is wanted. -/
def Arguments.shown (a : Arguments) (settings : Settings) (text : Text) (color : Bool) : Text :=
  let view := View.ofText settings text none
  (if a.fold then view.foldAll else view).page (color && !a.plain)

theorem invoke_shown {input : List UInt8} {color : Bool} {arguments : List Text} {config : Config}
    {text : Text} (hread : Arguments.read arguments = .run a)
    (hconfig : configOf host a = .ok config) (htext : textOf host input a = .ok text)
    (hneeds : a.needsInterpreter = false) :
    invoke host input color arguments = ⟨0, a.shown config.editor text color, none, []⟩ := by
  rw [invoke_eq hread hconfig htext, present, hneeds, if_neg Bool.false_ne_true]
  rfl

theorem exists_output_present (config : Config) (text : Text) (color : Bool) :
    ∃ rest, (present host config a text color).output =
      a.shown config.editor text color ++ rest := by
  rw [present]
  split
  · exact ⟨_, rfl⟩
  · exact ⟨[], (List.append_nil _).symm⟩

theorem text_viewOf (settings : Settings) (text : Text) (fold : Bool) :
    (viewOf settings text fold).text = text := by
  cases fold <;> rfl

/-- **All that is asked is answered** as long as the interpreter has not exited before any of it and
keeps its input open. -/
theorem exists_answers {l : Launch} {text : Text} (script : Script)
    (hopen : ∀ n, .input ∉ (host.course l).closes n)
    (hline : ∀ request ∈ Request.prepare (normalize text), '\n' ∉ request)
    (hruns : ∀ i < (linesFor (a.asked text)).length, script.isOver i = false) :
    (∃ doc, a.runs text = true → IsAnswer host l script a.commands (normalize text) doc) ∧
    (∃ listing, a.tables = true →
      IsAnswer host l script (a.before text) ".tables".toList listing) ∧
    ((opened host l script).asks (a.asked text)).1.child.heard = linesFor (a.asked text) := by
  have hlines := lineFeed_not_mem_asked (a := a) hline
  refine ⟨?_, ?_, ?_⟩
  · cases hrun : a.runs text with
    | false => exact ⟨[], fun h => absurd h (by decide)⟩
    | true =>
      have hasked : a.asked text = a.commands ++
          normalize text :: if a.tables then [".tables".toList] else [] := by
        rw [Arguments.asked, Arguments.before, hrun, if_pos rfl, List.append_assoc]
        rfl
      obtain ⟨-, hblank⟩ := Bool.and_eq_true_iff.1 hrun
      rw [hasked] at hlines hruns
      obtain ⟨doc, hdoc⟩ := exists_isAnswer script hopen hlines
        (by simpa [isBlank_normalize] using hblank) hruns
      exact ⟨doc, fun _ => hdoc⟩
  · cases htables : a.tables with
    | false => exact ⟨[], fun h => absurd h (by decide)⟩
    | true =>
      rw [Arguments.asked, htables, if_pos rfl] at hlines hruns
      obtain ⟨listing, hlisting⟩ := exists_isAnswer script hopen hlines (by decide) hruns
      exact ⟨listing, fun _ => hlisting⟩
  · have hheard := (heard_opened script hopen).asks hlines (by simpa using hruns)
    rw [List.nil_append] at hheard
    exact hheard.heard

/-- **A whole run.** What is shown is the text in a view, folded whole just when this is wanted; it
depends on nothing that the interpreter is asked for, and comes first, also when the run fails
behind it. The configuration may name any times, and the interpreter may go at any pace. As long as
it has not exited before anything that it is asked, and keeps its input open, the answer to the text
follows with a line feed, if the text is run, and then a line for each table, if they are listed;
and if it is asked for any of these, the interpreter has heard the command for the mode, the request
of the text and the one for the tables, each if it is wanted, in this order and nothing else.
Without any of them no interpreter is launched, and there is nothing but what is shown, whatever
interpreter the configuration names and whether or not one can be launched. -/
theorem invoke_asked (color : Bool) {input : List UInt8} {arguments : List Text} {config : Config}
    {text : Text} (hread : Arguments.read arguments = .run a)
    (hconfig : configOf host a = .ok config) (htext : textOf host input a = .ok text) :
    let l := config.interpreter
    let opened := View.ofText config.editor text none
    let view := if a.fold then opened.foldAll else opened
    let shown := view.page (color && !a.plain)
    let report := invoke host input color arguments
    (∀ script, host.start l = .ok script →
      (∀ n, .input ∉ (host.course l).closes n) →
      (∀ request ∈ Request.prepare (normalize text), '\n' ∉ request) →
      (∀ i < (a.lines text).length, script.isOver i = false) →
      ∃ doc listing,
        report = ⟨0, shown ++ ((if a.runs text then doc ++ ['\n'] else []) ++
          if a.tables then (Table.listed listing).flatMap tableLine else []), none,
          if a.run || a.tables || a.mode.isSome then [l] else []⟩ ∧
        (a.runs text = true → IsAnswer host l script a.commands (normalize text) doc) ∧
        (a.tables = true → IsAnswer host l script (a.before text) ".tables".toList listing) ∧
        ((a.runs text || a.tables) = true → ∃ s, (consult host l a view).1.session = some s ∧
          s.child.heard = a.lines text)) ∧
    ((a.run || a.tables || a.mode.isSome) = false → report = ⟨0, shown, none, []⟩ ∧
      ∀ (host' : Host) (config' : Config), configOf host' a = .ok config' →
        config'.editor = config.editor → textOf host' input a = .ok text →
        invoke host' input color arguments = report) ∧
    ∀ arguments' run tables mode, Arguments.read arguments' = .run { a with run, tables, mode } →
      ∃ rest, (invoke host input color arguments').output = shown ++ rest := by
  intro l opened view shown report
  refine ⟨fun script hstart hopen hline hruns => ?_, fun hneeds => ?_,
    fun arguments' run tables mode hread' => ?_⟩
  · rw [← a.linesFor_asked text] at hruns ⊢
    obtain ⟨⟨doc, hdoc⟩, ⟨listing, hlisting⟩, hheard⟩ := exists_answers script hopen hline hruns
    obtain ⟨hconsult, hsession⟩ := consult_eq hstart (text_viewOf config.editor text a.fold) rfl
      (fun h => (hdoc h).given) fun h => (hlisting h).given
    refine ⟨doc, listing, ?_, hdoc, hlisting, fun h => ⟨_, hsession h, hheard⟩⟩
    change invoke host input color arguments = _
    cases hneeds : a.needsInterpreter with
    | true =>
      have hlaunched : (a.run || a.tables || a.mode.isSome) = true := hneeds
      rw [invoke_eq hread hconfig htext, present, hneeds, if_pos rfl, hconsult, if_pos hlaunched]
      rfl
    | false =>
      have hlaunched : (a.run || a.tables || a.mode.isSome) = false := hneeds
      have hshown : invoke host input color arguments = ⟨0, shown, none, []⟩ :=
        invoke_shown hread hconfig htext hneeds
      rw [hshown, hlaunched, if_neg Bool.false_ne_true]
      rw [Bool.or_eq_false_iff, Bool.or_eq_false_iff] at hlaunched
      obtain ⟨⟨hrun, htables⟩, -⟩ := hlaunched
      rw [Arguments.runs, hrun, htables]
      exact congrArg (Report.mk 0 · none []) (List.append_nil _).symm
  · have hreport : report = ⟨0, shown, none, []⟩ := invoke_shown hread hconfig htext hneeds
    refine ⟨hreport, fun host' config' hconfig' heditor htext' => ?_⟩
    rw [hreport, invoke_shown hread hconfig' htext' hneeds, heditor]
    rfl
  · rw [invoke_eq hread' (by exact hconfig) (by exact htext)]
    exact exists_output_present config text color

/-- An interpreter that prints the same line for everything. -/
def tellingScript : Script :=
  ⟨Utf8.encode ">>>".toList, .output, none,
    [⟨fun _ => Utf8.encode ">>>\nR : a\n>>>".toList, .output, none⟩]⟩

/-- A host with that interpreter, which is so slow that its start is not told in time and no more
than a line of its answer to the text is. -/
def tellingHost : Host where
  find _ := .error .notFound
  launch _ := .ok tellingScript
  preset := []
  course _ := { report := 60000, delays := fun n => if n = 2 then [0, 300, 5000] else [] }

def allWanted : List Text := ["--run".toList, "--mode=bag".toList, "--tables".toList]

def everything : Arguments := { mode := some .bag, run := true, tables := true }

theorem invoke_asked_telling :
    Arguments.read allWanted = .run everything ∧
      textOf tellingHost [0x52] everything = .ok ['R'] ∧
      invoke tellingHost [0x52] false allWanted =
        ⟨0, (View.ofText {} ['R'] none).page false ++ "R : a\nR (a)\n".toList, none, [{}]⟩ := by
  have hread : Arguments.read allWanted = .run everything := by cbv
  have hdecode : Utf8.decode? [0x52] = some ['R'] := by decide +kernel
  have hentry : Entry.text ⟨.ok [], fun _ => .ok [0x52]⟩ [] = .ok ['R'] :=
    (Entry.text_eq_ok_iff _ _).2 ⟨_, rfl, hdecode⟩
  have htext : textOf tellingHost [0x52] everything = .ok ['R'] :=
    (mapError_eq_ok_iff _ _ _).2 hentry
  obtain ⟨hasked, -, -⟩ := invoke_asked false hread rfl htext
  obtain ⟨doc, listing, hreport, hdoc, hlisting, -⟩ :=
    hasked tellingScript rfl (fun _ => List.not_mem_nil) (by decide) (by decide)
  have hran : (((opened tellingHost {} tellingScript).asks
      [".eval bag".toList]).1.ask ['R']).2 = .ok "R : a".toList := by cbv
  have hlisted : (((opened tellingHost {} tellingScript).asks
      [".eval bag".toList, ['R']]).1.ask ".tables".toList).2 = .ok "R : a".toList := by cbv
  have hdocText : doc = "R : a".toList := Except.ok.inj ((hdoc rfl).given.symm.trans hran)
  have hlistingText : listing = "R : a".toList :=
    Except.ok.inj ((hlisting rfl).given.symm.trans hlisted)
  have htables : Table.listed "R : a".toList = [⟨['R'], [['a']]⟩] := by cbv
  rw [hdocText, hlistingText, htables] at hreport
  exact ⟨hread, htext, hreport⟩

end QueryEditor.CommandLine
