import Mathlib.Logic.Function.Basic
import QueryEditor.Proofs.Console.Echoes
import QueryEditor.Proofs.Interpreter.Replies

/-!
# Requests and answers stay aligned

Between two calls nothing waits on either output but blanks, and the next reply of the interpreter
is the one for the next request. A request restores this, with the number of the next request one
higher, and its answer is that of its reply.

* `Session.Rests`: only blanks wait, **`Session.Rests.receive`**: a screen that arrives;
* `Session.Aligned`: the invariant, with the number of the next request;
* `Session.aligned_start`, `Session.aligned_ask`, `Session.aligned_call`: the start and one step;
* **`Session.calls_aligned`**: every call gives what it should.
-/

namespace QueryEditor

open Reading

namespace Session

variable {p : Text} {held : Stream → Nat} {s : Session}

/-! ## What waits -/

/-- A number of blanks waits on each output. -/
structure Rests (p : Text) (held : Stream → Nat) (s : Session) : Prop where
  prompt : s.prompt = p
  splitter : ∀ o, s.splitter o = holding p (Utf8.encode (List.replicate (held o) ' '))

theorem rests_push (h : Rests p held s) {o : Stream} {t : Text} {k : Nat}
    (ht : (readAll p (List.replicate (held o) ' ') t).1 = List.replicate k ' ') :
    Rests p (Function.update held o k) (s.push o (Utf8.encode t)) ∧
      (s.push o (Utf8.encode t)).child = s.child ∧
      (s.push o (Utf8.encode t)).queue = s.queue ++
        ((readAll p (List.replicate (held o) ' ') t).2.map Report.line).filterMap
          (Noise.clean p) := by
  have hpush := push_holding p (List.replicate (held o) ' ') t
  rw [ht, ← h.splitter o] at hpush
  refine ⟨⟨(prompt_push s o _).trans h.prompt, fun o' => ?_⟩, child_push s o _, ?_⟩
  · rw [splitter_push]
    by_cases ho : o = o'
    · subst ho
      rw [if_pos rfl, hpush, Function.update_self]
    · rw [if_neg ho, Function.update_of_ne (Ne.symm ho)]
      exact h.splitter o'
  · rw [queue_push, hpush, h.prompt]

theorem rests_close (h : Rests p held s) : Rests p (fun _ => 0) s.close ∧
    s.close.child = s.child ∧ ∃ rest, s.close.queue = s.queue ++ rest := by
  refine ⟨⟨h.prompt, fun o => ?_⟩, rfl, _, rfl⟩
  have hfinish := fun o => congrArg Prod.fst (finish_holding p (List.replicate (held o) ' '))
  cases o with
  | output =>
    have houtput := hfinish .output
    rw [← h.splitter .output] at houtput
    exact houtput
  | errors =>
    have herrors := hfinish .errors
    rw [← h.splitter .errors] at herrors
    exact herrors

/-- **What arrives** leaves nothing waiting but blanks if it does so as a text, and its lines are
put into the queue first. -/
theorem rests_receive (h : Rests p held s) {o : Stream} {t : Text} {k : Nat}
    (ht : (readAll p (List.replicate (held o) ' ') t).1 = List.replicate k ' ') (closing : Bool) :
    (∃ held', Rests p held' (s.receive ⟨o, Utf8.encode t, closing⟩)) ∧
      (s.receive ⟨o, Utf8.encode t, closing⟩).child = s.child ∧
      ∃ rest, (s.receive ⟨o, Utf8.encode t, closing⟩).queue = s.queue ++
        ((readAll p (List.replicate (held o) ' ') t).2.map Report.line).filterMap (Noise.clean p) ++
          rest := by
  obtain ⟨hrests, hchild, hqueue⟩ := rests_push h ht
  cases closing with
  | false => exact ⟨⟨_, hrests⟩, hchild, [], by rw [List.append_nil]; exact hqueue⟩
  | true =>
    obtain ⟨hrests', hchild', rest, hqueue'⟩ := rests_close hrests
    exact ⟨⟨_, hrests'⟩, hchild'.trans hchild, rest, hqueue'.trans (by rw [hqueue])⟩

variable {script : Script} {greeting : Screen}
  {screen : Reply → List UInt8 → Screen} {i : Nat}

/-! ## The invariant -/

/-- Nothing waits but blanks, nothing is late or closed, and the next reply is the one with the
given number. -/
structure Aligned (p : Text) (script : Script) (i : Nat) (s : Session) : Prop where
  rests : ∃ held, Rests p held s
  follows : s.child.Follows script i
  keeps : s.link.Keeps

theorem aligned_withQueue (h : Aligned p script i s) (queue : List Text) :
    Aligned p script i { s with queue } := by
  obtain ⟨held, hrests⟩ := h.rests
  exact ⟨⟨held, hrests.prompt, hrests.splitter⟩, h.follows, h.keeps⟩

theorem waitForPrompt_of_queue {kept rest : List Text} {line : Text}
    (hqueue : s.queue = kept ++ line :: rest) (hkept : ∀ l ∈ kept, isPrompt l s.prompt = false)
    (hline : isPrompt line s.prompt = true) :
    s.waitForPrompt = ({ s with queue := rest }, true) := by
  have hdrop : s.queue.dropWhile (fun l => !isPrompt l s.prompt) = line :: rest := by
    rw [hqueue, List.dropWhile_append_of_pos fun l hl => by rw [hkept l hl]; rfl,
      List.dropWhile_cons_of_neg (by rw [hline]; decide)]
  rw [waitForPrompt, hdrop]

theorem aligned_start (hp : IsClear p) (h : script.Shows p greeting screen) {link : Link}
    (hkeeps : link.Keeps) : (start p script link).waitForPrompt.2 = true ∧
      Aligned p script 0 (start p script link).waitForPrompt.1 := by
  have hbreaks : ∀ l ∈ greeting.lines, Unbroken l ∧ ¬ p <:+: l := fun l hl =>
    ⟨.of_isPlain (h.banner l hl).1, (h.banner l hl).2⟩
  have hfresh : Rests p (fun _ => 0)
      ⟨p, (Child.launch script).1, .start p, .start p, [], link⟩ := by
    refine ⟨rfl, fun o => ?_⟩
    cases o <;> rfl
  have hwaiting := congrArg Prod.fst (hp.readAll_screen hbreaks)
  obtain ⟨⟨held, hrests⟩, hchild, rest, hqueue⟩ :=
    rests_receive hfresh (o := script.stream) hwaiting script.exit.isSome
  obtain ⟨kept, hkept, hclean⟩ := hp.clean_greeting h.banner
  have hstart : start p script link = receive
      ⟨p, (Child.launch script).1, .start p, .start p, [], link⟩
      ⟨script.stream, Utf8.encode (greeting.text p), script.exit.isSome⟩ := by
    rw [start_of_keeps hkeeps, ← h.greets]
    rfl
  rw [← hstart] at hrests hchild hqueue
  have hlines : (start p script link).queue = kept ++ p :: rest := by
    rw [hqueue]
    change [] ++ ((readAll p [] (greeting.text p)).2.map Report.line).filterMap _ ++ rest = _
    rw [hclean, List.nil_append, List.append_assoc, List.singleton_append]
  have hprompt : (start p script link).prompt = p := hrests.prompt
  have hwait := waitForPrompt_of_queue hlines (by rwa [hprompt]) (by rw [hprompt, hp.isPrompt_self])
  rw [hwait]
  refine ⟨rfl, aligned_withQueue ⟨⟨held, hrests⟩, ?_, ?_⟩ rest⟩
  · rw [hchild]
    exact Child.follows_launch script
  · rwa [link_start]

/-! ## One step -/

/-- **One line sent** makes the interpreter give the reply with the number of the line, which is
what is read. -/
theorem aligned_writeLine (hp : IsClear p) (h : script.Shows p greeting screen)
    (hs : Aligned p script i s) (hover : script.isOver i = false) (hqueue : s.queue = [])
    (heard : List UInt8) :
    Aligned p script (i + 1) (s.writeLine heard) ∧
      (s.writeLine heard).answer.2 = script.answer screen i heard := by
  have hexit := hs.follows.exited.trans hover
  have hhears : s.hears = true := hears_of_runs hs.keeps.listens hexit
  have hfollows := hs.follows.hear hover heard
  rw [← child_writeLine_of_hears hhears] at hfollows
  have hkeeps : (s.writeLine heard).link.Keeps := by rw [link_writeLine]; exact hs.keeps
  have hhead := hs.follows.head?_replies
  obtain ⟨held, hrests⟩ := hs.rests
  cases hreply : script.reply? i with
  | none =>
    have hsilent := writeLine_silent hs.keeps hexit (hhead.trans hreply) heard
    refine ⟨⟨⟨held, ?_⟩, hfollows, hkeeps⟩, ?_⟩
    · rw [hsilent]
      exact ⟨hrests.prompt, hrests.splitter⟩
    · rw [hsilent, answer_snd]
      simp only [hqueue, Response.collect, Response.text_start, Script.answer, hreply]
  | some r =>
    have hmem : r ∈ script.replies := List.mem_of_getElem? hreply
    have hresults := h.results r hmem heard
    have hwaiting := congrArg Prod.fst (hp.readAll_reply hresults (held r.stream))
    obtain ⟨⟨held', hrests'⟩, -, rest, hlines⟩ := rests_receive hrests hwaiting r.exit.isSome
    rw [← h.written r hmem heard] at hrests' hlines
    have hgiven := writeLine_reply hs.keeps hexit (hhead.trans hreply) heard
    refine ⟨⟨⟨held', ?_⟩, hfollows, hkeeps⟩, ?_⟩
    · rw [hgiven]
      exact ⟨hrests'.prompt, hrests'.splitter⟩
    · rw [hp.clean_reply hresults] at hlines
      rw [hgiven, answer_snd]
      simp only [hrests'.prompt, hlines]
      rw [hqueue, List.nil_append, collect_reply hp hresults, Script.answer, hreply]

theorem aligned_ask_of_over (hs : Aligned p script i s) (hover : script.isOver i = true)
    {t request : Text} (hrequest : Request.prepare t = some request) :
    (s.ask t).2 = .error (.transfer .brokenPipe) ∧ Aligned p script i (s.ask t).1 := by
  have hdeaf : s.hears = false := not_hears_of_exited (hs.follows.exited.trans hover)
  rw [ask_of_not_hears hdeaf (lineFor_of_prepare hrequest)]
  exact ⟨rfl, aligned_withQueue hs _⟩

theorem aligned_ask (hp : IsClear p) (h : script.Shows p greeting screen)
    (hs : Aligned p script i s) (hover : script.isOver i = false) {t request : Text}
    (ht : '\n' ∉ t.trim) (hrequest : Request.prepare t = some request) :
    (s.ask t).2 = .ok (script.answer screen i (Utf8.encode (request ++ ['\r', '\n']))) ∧
      Aligned p script (i + 1) (s.ask t).1 := by
  obtain ⟨hafter, hanswer⟩ := aligned_writeLine hp h (aligned_withQueue hs []) hover rfl
    (Utf8.encode (request ++ ['\r', '\n']))
  rw [ask_eq hs.keeps (hs.follows.exited.trans hover) ht (lineFor_of_prepare hrequest)]
  exact ⟨congrArg _ hanswer, aligned_withQueue hafter _⟩

/-- **One call** gives what it should, and leaves the session aligned for the calls behind it. -/
theorem aligned_call (hp : IsClear p) (h : script.Shows p greeting screen)
    (hs : Aligned p script i s) {host : Host} {c : Call} (hc : c.IsProper host) :
    ∃ j, Aligned p script j (s.call host c).1 ∧ ∀ cs,
      script.outcomes screen i (c :: cs) = (s.call host c).2 :: script.outcomes screen j cs := by
  cases c with
  | query t =>
    cases hrequest : Request.prepare t with
    | none =>
      have hask : s.ask t = (s, .ok noOutput) := by rw [ask, hrequest]
      simp only [call, hask, Script.outcomes, hrequest]
      exact ⟨i, hs, fun _ => rfl⟩
    | some request =>
      cases hover : script.isOver i with
      | true =>
        obtain ⟨hresult, hafter⟩ := aligned_ask_of_over hs hover hrequest
        simp only [call, hresult, Script.outcomes, hrequest, hover, if_true]
        exact ⟨i, hafter, fun _ => rfl⟩
      | false =>
        obtain ⟨hresult, hafter⟩ := aligned_ask hp h hs hover hc hrequest
        simp only [call, hresult, Script.outcomes, hrequest, hover, if_neg Bool.false_ne_true]
        exact ⟨i + 1, hafter, fun _ => rfl⟩
  | load path =>
    obtain ⟨e, he⟩ := hc
    simp only [call, loadDatabase, existingFile, he, Script.outcomes]
    exact ⟨i, hs, fun _ => rfl⟩
  | add table attributes path =>
    obtain ⟨e, he⟩ := hc
    simp only [call, addTable, existingFile, he, Script.outcomes]
    exact ⟨i, hs, fun _ => rfl⟩

/-! ## Whole runs -/

theorem calls_of_aligned (hp : IsClear p) (h : script.Shows p greeting screen)
    (hs : Aligned p script i s) {host : Host} {cs : List Call} (hcs : ∀ c ∈ cs, c.IsProper host) :
    (s.calls host cs).2 = script.outcomes screen i cs := by
  induction cs generalizing s i with
  | nil => rfl
  | cons c cs ih =>
    obtain ⟨j, hafter, houtcomes⟩ := aligned_call hp h hs (hcs c List.mem_cons_self)
    rw [houtcomes cs, ← ih hafter fun x hx => hcs x (List.mem_cons_of_mem c hx)]
    rfl

/-- **Requests and answers stay aligned**: the prompt of the greeting is found, and then every call
gives what it should, whatever calls came before it. -/
theorem calls_aligned (hp : IsClear p) (h : script.Shows p greeting screen) {host : Host}
    {cs : List Call} (hcs : ∀ c ∈ cs, c.IsProper host) :
    (start p script).waitForPrompt.2 = true ∧
      ((start p script).waitForPrompt.1.calls host cs).2 = script.outcomes screen 0 cs := by
  obtain ⟨hready, hstart⟩ := aligned_start hp h Link.keeps_default
  exact ⟨hready, calls_of_aligned hp h hstart hcs⟩

/-- One line on the first output, and then nothing on the other, again and again. -/
def lineThenNothing (r : Reply) (_ : List UInt8) : Screen :=
  match r.stream with
  | .output => ⟨[['a', 'b']], 1⟩
  | .errors => ⟨[], 0⟩

def shownReply (o : Stream) : Reply where
  written heard := Utf8.encode (angles ++ '\n' ::
    (lineThenNothing ⟨fun _ => [], o, none⟩ heard).text angles)
  stream := o
  exit := none

def greetingScript : Script where
  greeting := Utf8.encode ((⟨[['h', 'i']], 1⟩ : Screen).text angles)
  stream := .output
  exit := none
  replies := [shownReply .output, shownReply .errors]

def emptyHost : Host where
  find _ := .error .notFound
  launch _ := .error .notFound
  preset := []

def mixedCalls : List Call :=
  [.query [' '], .query ['R'], .load ['f'], .query ['R'], .query ['R']]

theorem isClear_angles : IsClear angles := by
  have hplain : Noise.IsPlain angles := by decide
  exact ⟨by decide, hplain, by decide, (Noise.clean_eq_some_iff angles hplain angles).2 (by decide)⟩

theorem isResult_ab : IsResult angles ['a', 'b'] := by
  have hplain : Noise.IsPlain ['a', 'b'] := by decide
  exact ⟨by decide, by decide, by decide,
    (Noise.clean_eq_some_iff angles hplain _).2 (by decide)⟩

theorem greetingScript_shows :
    greetingScript.Shows angles ⟨[['h', 'i']], 1⟩ lineThenNothing := by
  refine ⟨rfl, fun l hl => ?_, fun r hr heard => ?_, fun r hr heard l hl => ?_⟩
  · obtain rfl := List.mem_singleton.1 hl
    exact ⟨by decide, by decide⟩
  · rcases List.mem_pair.1 hr with rfl | rfl
    · rfl
    · rfl
  · rcases List.mem_pair.1 hr with rfl | rfl
    · obtain rfl := List.mem_singleton.1 hl
      exact isResult_ab
    · exact absurd hl List.not_mem_nil

theorem calls_aligned_angles : (start angles greetingScript).waitForPrompt.2 = true ∧
    ((start angles greetingScript).waitForPrompt.1.calls emptyHost mixedCalls).2 =
      [.answered (.ok noOutput), .answered (.ok ['a', 'b']),
        .loaded (.error (.missingFile ['f'])), .answered (.ok noOutput),
        .answered (.ok noOutput)] := by
  have hproper : ∀ c ∈ mixedCalls, c.IsProper emptyHost := by
    have hmissing : ∃ e, emptyHost.find ['f'] = .error e := ⟨_, rfl⟩
    simp only [mixedCalls, List.forall_mem_cons, Call.IsProper, hmissing]
    exact ⟨by decide, by decide, trivial, by decide, by decide, List.forall_mem_nil _⟩
  obtain ⟨hready, hcalls⟩ := calls_aligned isClear_angles greetingScript_shows hproper
  refine ⟨hready, hcalls.trans ?_⟩
  rfl

end Session

end QueryEditor
