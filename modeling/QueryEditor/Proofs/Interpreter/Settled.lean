import QueryEditor.Proofs.Interpreter.Alignment
import QueryEditor.Proofs.Interpreter.Answered
import QueryEditor.Proofs.Interpreter.Loads
import QueryEditor.Proofs.Interpreter.Modes

/-!
# A queue worked off

Whatever a client has told and answered before, its queue is worked off as the session would be
asked request by request. Commands in it move the session on and are not answered, so the response
of the request behind them is the next one.

* `Client.workMany_eq`, **`Client.settle_eq`**: a queue without an end, from any time on;
* `Session.afterAll_commands`, `Session.givenAll_commands`: commands in a queue;
* `Session.aligned_asks`: requests in order, as long as each can be written;
* `Session.opened`, `Session.IsPunctual`: the session of a client just started, where nothing is late;
* `Session.IsAnswer`, **`Session.exists_isAnswer`**: the answer to a text asked behind others.
-/

namespace QueryEditor

namespace Client

variable {host : Host} {c : Client} {s : Session}

theorem workMany_eq (hsession : c.session = some s) (hrunning : c.running = true)
    (hend : .shutdown ∉ c.queue) {n : Nat} (hn : c.queue.length ≤ n) :
    c.workMany host n =
      { c with
        session := some (s.afterAll host c.queue)
        queue := []
        responses := c.responses ++ s.givenAll host c.queue
        notifications := c.notifications ++ (s.modesSet host c.queue).map .modeSet } := by
  induction n generalizing c s with
  | zero =>
    have hqueue : c.queue = [] := List.length_eq_zero_iff.1 (Nat.le_zero.1 hn)
    obtain ⟨session, id, queue, responses, notifications, running⟩ := c
    subst hsession hqueue
    simp [workMany, Session.afterAll, Session.givenAll, Session.modesSet]
  | succ n ih =>
    rw [workMany]
    cases hqueue : c.queue with
    | nil =>
      have hrest := ih hsession hrunning hend (by rw [hqueue]; exact Nat.zero_le n)
      rw [work_nil hrunning hqueue, hrest, hqueue]
    | cons r queue =>
      rw [hqueue] at hend hn
      obtain ⟨hr, hqueue'⟩ := not_or.1 (mt List.mem_cons.2 hend)
      rw [work_cons hsession hrunning hqueue, handle_eq _ _ (Ne.symm hr)]
      let next : Client :=
        { c with
          session := some (s.after host r)
          queue
          responses := c.responses ++ (s.given host r).toList
          notifications := c.notifications ++ (s.modeSet? r).toList.map .modeSet }
      have hrest := ih (c := next) rfl hrunning hqueue' (Nat.le_of_succ_le_succ hn)
      refine hrest.trans ?_
      simp [next, Session.afterAll, Session.givenAll, Session.modesSet]

/-- **A queue without an end** is worked off, and nothing that was told before is lost. -/
theorem settle_eq (hsession : c.session = some s) (hrunning : c.running = true)
    (hend : .shutdown ∉ c.queue) : c.settle host =
      { c with
        session := some (s.afterAll host c.queue)
        queue := []
        responses := c.responses ++ s.givenAll host c.queue
        notifications := c.notifications ++ (s.modesSet host c.queue).map .modeSet } :=
  workMany_eq hsession hrunning hend (Nat.le_succ _)

end Client

namespace Session

variable {s : Session} {script : Script} {lines : List (List UInt8)} {ts : List Text}

theorem asks_append (s : Session) (ts us : List Text) :
    (s.asks (ts ++ us)).1 = ((s.asks ts).1.asks us).1 := by
  induction ts generalizing s with
  | nil => rfl
  | cons t ts ih => exact ih (s.ask t).1

/-! ## Commands in a queue -/

theorem afterAll_commands (host : Host) (s : Session) (ts : List Text) :
    s.afterAll host (ts.map .command) = (s.asks ts).1 := by
  induction ts generalizing s with
  | nil => rfl
  | cons t ts ih => exact ih (s.ask t).1

theorem givenAll_commands (host : Host) (s : Session) (ts : List Text) :
    s.givenAll host (ts.map .command) = [] := by
  induction ts generalizing s with
  | nil => rfl
  | cons t ts ih => exact ih (s.ask t).1

/-! ## Requests that can be written -/

theorem aligned_asks {p : Text} {greeting : Screen} {screen : Reply → List UInt8 → Screen} {i : Nat}
    (hp : IsClear p) (hshows : script.Shows p greeting screen) (h : Aligned p script i s)
    (hts : ∀ t ∈ ts, '\n' ∉ t.trim)
    (hruns : ∀ j < i + (linesFor ts).length, script.isOver j = false) :
    Aligned p script (i + (linesFor ts).length) (s.asks ts).1 := by
  induction ts generalizing i s with
  | nil => exact h
  | cons t ts ih =>
    have hrest := fun u hu => hts u (List.mem_cons_of_mem t hu)
    rw [linesFor_cons, List.length_append, ← Nat.add_assoc] at hruns ⊢
    have hfirst : Aligned p script (i + (lineFor t).toList.length) (s.ask t).1 := by
      cases hprepare : Request.prepare t with
      | none =>
        have hline : lineFor t = none := Option.map_eq_none_iff.2 hprepare
        rw [ask_of_lineFor_none hline, hline]
        exact h
      | some request =>
        have hline := lineFor_of_prepare hprepare
        have hnow : script.isOver i = false := by
          refine hruns i ?_
          simp only [hline, Option.toList_some, List.length_singleton]
          omega
        rw [hline]
        exact (aligned_ask hp hshows h hnow (hts t List.mem_cons_self) hprepare).2
    exact ih hfirst hrest hruns

/-! ## Answers behind other requests -/

theorem exists_lineFor {t : Text} (h : t.isBlank = false) : ∃ line, lineFor t = some line := by
  obtain ⟨request, hprepare⟩ := Request.exists_prepare h
  exact ⟨_, lineFor_of_prepare hprepare⟩

theorem length_linesFor_lt {t : Text} (h : t.isBlank = false) (ts us : List Text) :
    (linesFor ts).length < (linesFor (ts ++ t :: us)).length := by
  obtain ⟨line, hline⟩ := exists_lineFor h
  rw [linesFor_append, linesFor_cons, hline]
  simp only [List.length_append, Option.toList_some, List.length_singleton]
  omega

theorem lineFeed_not_mem_trim {t : Text} (h : ∀ request ∈ Request.prepare t, '\n' ∉ request) :
    '\n' ∉ t.trim := by
  cases hprepare : Request.prepare t with
  | none =>
    rw [Request.prepare_eq_none_iff, Text.isBlank_iff] at hprepare
    rw [hprepare]
    exact List.not_mem_nil
  | some request =>
    have hfeed := h request hprepare
    obtain ⟨-, ⟨-, rfl⟩ | ⟨-, rfl⟩⟩ := Request.prepare_eq_some_iff.1 hprepare
    · exact hfeed
    · exact fun hmem => hfeed (List.mem_append_left _ hmem)

/-- The session of a client just started. -/
def opened (host : Host) (l : Launch) (script : Script) : Session :=
  ((start l.prompt script ⟨host.course l, l.queryTimeout⟩).awaitPrompt l.startupTimeout).1

/-- What the interpreter says is in time for the configuration, and it closes nothing but by an
exit. -/
structure IsPunctual (host : Host) (l : Launch) : Prop where
  keeps : (⟨host.course l, l.queryTimeout⟩ : Link).Keeps
  greets : ((host.course l).delays 0).sum ≤ l.startupTimeout

theorem heard_opened {host : Host} {l : Launch} (script : Script)
    (hopen : ∀ n, .input ∉ (host.course l).closes n) : Heard script [] (opened host l script) :=
  heard_start l.prompt script ⟨host.course l, l.queryTimeout⟩ hopen l.startupTimeout

theorem linesWithin_eq_none_iff {limit : Nat} {delays : List Nat} :
    linesWithin limit delays = none ↔ delays.sum ≤ limit := by
  induction delays generalizing limit with
  | nil => simp [linesWithin]
  | cons d ds ih =>
    rw [linesWithin, List.sum_cons]
    split
    · simp only [reduceCtorEq, false_iff]
      omega
    · rw [Option.map_eq_none_iff, ih]
      omega

theorem aligned_opened {host : Host} {l : Launch} {greeting : Screen}
    {screen : Reply → List UInt8 → Screen} (hpunctual : IsPunctual host l)
    (hp : IsClear l.prompt) (hshows : script.Shows l.prompt greeting screen) :
    Aligned l.prompt script 0 (opened host l script) := by
  let link : Link := ⟨host.course l, l.queryTimeout⟩
  have hdelays : (start l.prompt script link).delays = (host.course l).delays 0 := by
    rw [delays, link_start, child_start]
    rfl
  have hall : linesWithin l.startupTimeout (start l.prompt script link).delays = none :=
    linesWithin_eq_none_iff.2 (hdelays ▸ hpunctual.greets)
  rw [opened, awaitPrompt, hall]
  exact (aligned_start hp hshows hpunctual.keeps).2

/-- The answer to a text that is asked behind others from the start on: the session gives it, and
where the interpreter shows screens and nothing is late, it is the screen whose number is that of
the line. -/
structure IsAnswer (host : Host) (l : Launch) (script : Script) (ts : List Text)
    (t answer : Text) : Prop where
  given : (((opened host l script).asks ts).1.ask t).2 = .ok answer
  shown : IsPunctual host l → ∀ greeting screen, IsClear l.prompt →
    script.Shows l.prompt greeting screen →
    ∀ line ∈ lineFor t, answer = script.answer screen (linesFor ts).length line

/-- **Each of many texts is answered** as long as the interpreter has not exited before any of
them and keeps its input open. -/
theorem exists_isAnswer {host : Host} {l : Launch} (script : Script)
    (hopen : ∀ n, .input ∉ (host.course l).closes n) {t : Text} {us : List Text}
    (hlines : ∀ u ∈ ts ++ t :: us, '\n' ∉ u.trim) (hblank : t.isBlank = false)
    (hruns : ∀ i < (linesFor (ts ++ t :: us)).length, script.isOver i = false) :
    ∃ answer, IsAnswer host l script ts t answer := by
  obtain ⟨hts, hrest⟩ := List.forall_mem_append.1 hlines
  have ht := hrest t List.mem_cons_self
  have hlength := length_linesFor_lt hblank ts us
  have hbefore : ∀ i < (linesFor ts).length, script.isOver i = false :=
    fun i hi => hruns i (hi.trans hlength)
  have hnow := hruns _ hlength
  have hheard := (heard_opened script hopen).asks hts (by simpa using hbefore)
  rw [List.nil_append] at hheard
  obtain ⟨answer, hanswer⟩ := (exists_ask_eq_ok_iff hblank).2 (hheard.hears hnow)
  refine ⟨answer, hanswer, fun hpunctual greeting screen hp hshows line hline => ?_⟩
  obtain ⟨request, hprepare, rfl⟩ := Option.map_eq_some_iff.1 hline
  have haligned := aligned_asks hp hshows (aligned_opened hpunctual hp hshows) hts
    (by simpa using hbefore)
  rw [Nat.zero_add] at haligned
  have hshown := (aligned_ask hp hshows haligned hnow ht hprepare).1
  exact Except.ok.inj (hanswer.symm.trans hshown)

end Session

end QueryEditor
