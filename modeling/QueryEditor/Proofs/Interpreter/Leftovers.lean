import Mathlib
import QueryEditor.Proofs.Interpreter.Alignment

/-!
# What earlier replies leave behind

A request discards the lines that wait in the queue, but not the bytes that wait in the splitters
for the end of their line. They are read in front of its own reply. Nothing else of earlier replies
reaches a later answer.

* `Session.asks`: requests in order, `linesFor`: the lines that they are sent as;
* `Script.said`: all that is written on an output, `Script.leftover`: what of it waits;
* `Session.After`, `Session.After.asks`: a session whose interpreter still runs;
* `Session.Alike`, `Session.alike_ask`: sessions that answer alike;
* **`Session.answers_independent`**: the answers behind some replies depend on leftovers alone;
* `Session.not_forall_answers_independent`: on those they do depend.
-/

namespace QueryEditor

open Reading

/-- The lines that requests are sent as, blank texts aside. -/
def linesFor (ts : List Text) : List (List UInt8) := ts.filterMap Session.lineFor

namespace Script

/-- What an interpreter writes on an output for the line with a number. -/
def saidTo (s : Script) (o : Stream) (i : Nat) (line : List UInt8) : List UInt8 :=
  match s.reply? i with
  | some r => if r.stream = o then r.written line else []
  | none => []

/-- All that an interpreter writes on an output, from its greeting on. -/
def said (s : Script) (o : Stream) (lines : List (List UInt8)) : List UInt8 :=
  (if s.stream = o then s.greeting else []) ++
    lines.zipIdx.flatMap fun line => s.saidTo o line.2 line.1

/-- The bytes of all that is written on an output that wait for the end of their line. -/
def leftover (p : Text) (s : Script) (o : Stream) (lines : List (List UInt8)) : List UInt8 :=
  ((Splitter.start p).push (s.said o lines)).1.waiting

theorem said_concat (s : Script) (o : Stream) (lines : List (List UInt8)) (line : List UInt8) :
    s.said o (lines ++ [line]) = s.said o lines ++ s.saidTo o lines.length line := by
  simp [said, List.zipIdx_append]

theorem isOver_mono (s : Script) {i j : Nat} (h : i ≤ j) (hj : s.isOver j = false) :
    s.isOver i = false := by
  induction j with
  | zero => rwa [Nat.le_zero.1 h]
  | succ j ih =>
    rw [isOver, Bool.or_eq_false_iff] at hj
    rcases Nat.le_succ_iff.1 h with hle | rfl
    · exact ih hle hj.1
    · rw [isOver, hj.1, hj.2]
      rfl

end Script

namespace Splitter

theorem eq_of_parts {s s' : Splitter} (hprompt : s.prompt = s'.prompt)
    (hwaiting : s.waiting = s'.waiting) : s = s' := by
  cases s
  cases s'
  simp_all

theorem prompt_feed (s : Splitter) (b : UInt8) : (s.feed b).1.prompt = s.prompt := by
  unfold feed
  split
  · rfl
  · simp only
    split <;> rfl

theorem prompt_push (s : Splitter) (bytes : List UInt8) : (s.push bytes).1.prompt = s.prompt := by
  induction bytes generalizing s with
  | nil => rfl
  | cons b bytes ih =>
    rw [← prompt_feed s b]
    exact ih (s.feed b).1

end Splitter

namespace Session

variable {p : Text} {s s' : Session} {script script' : Script} {i : Nat}

def asks (s : Session) : List Text → Session × List (Except Failure Text)
  | [] => (s, [])
  | t :: ts =>
    let (s, answer) := s.ask t
    let (s, answers) := asks s ts
    (s, answer :: answers)

/-! ## While the interpreter runs -/

/-- A session in which lines have been sent to an interpreter that still runs: what it wrote on an
output has gone through the splitter of the output. -/
structure After (p : Text) (script : Script) (lines : List (List UInt8)) (s : Session) : Prop where
  follows : s.child.Follows script lines.length
  link : s.link = {}
  prompt : s.prompt = p
  splitter : ∀ o, s.splitter o = ((Splitter.start p).push (script.said o lines)).1
  runs : script.isOver lines.length = false

theorem After.withQueue {lines : List (List UInt8)} (h : After p script lines s)
    (queue : List Text) : After p script lines { s with queue } :=
  ⟨h.follows, h.link, h.prompt, h.splitter, h.runs⟩

theorem After.exited {lines : List (List UInt8)} (h : After p script lines s) :
    s.child.exited.isSome = false := h.follows.exited.trans h.runs

theorem After.keeps {lines : List (List UInt8)} (h : After p script lines s) : s.link.Keeps := by
  rw [h.link]
  exact Link.keeps_default

theorem after_start (p : Text) (hruns : script.isOver 0 = false) :
    After p script [] (start p script).waitForPrompt.1 := by
  have hexit : script.exit.isSome = false := hruns
  have hstart : start p script =
      push ⟨p, (Child.launch script).1, .start p, .start p, [], {}⟩ script.stream script.greeting := by
    rw [start_of_keeps Link.keeps_default]
    simp only [Child.launch, receive, hexit, if_neg Bool.false_ne_true]
  have hfresh : After p script [] (start p script) := by
    refine ⟨?_, ?_, ?_, fun o => ?_, hruns⟩
    · rw [child_start]
      exact Child.follows_launch script
    · exact link_start p script {}
    · rw [hstart, Session.prompt_push]
    · have hsaid : script.said o [] = if script.stream = o then script.greeting else [] :=
        List.append_nil _
      rw [hstart, splitter_push, hsaid]
      cases o <;> rfl
  unfold waitForPrompt
  split
  · exact hfresh.withQueue []
  · exact hfresh.withQueue _

section Run

variable {lines : List (List UInt8)}

theorem After.writeLine (h : After p script lines s) (line : List UInt8)
    (hruns : script.isOver (lines.length + 1) = false) :
    After p script (lines ++ [line]) (s.writeLine line) := by
  have hhears : s.hears = true := hears_of_runs h.keeps.listens h.exited
  have hfollows := h.follows.hear h.runs line
  rw [← child_writeLine_of_hears hhears] at hfollows
  have hlink : (s.writeLine line).link = {} := (link_writeLine s line).trans h.link
  have hhead := h.follows.head?_replies
  have hopen : ∀ r ∈ script.reply? lines.length, r.exit.isSome = false := by
    intro r hr
    rw [Script.isOver, Option.mem_def.1 hr, Bool.or_eq_false_iff] at hruns
    exact hruns.2
  have hlength : lines.length + 1 = (lines ++ [line]).length := by simp
  rw [hlength] at hfollows hruns
  cases hreply : script.reply? lines.length with
  | none =>
    have hwritten := writeLine_silent h.keeps h.exited (hhead.trans hreply) line
    refine ⟨hfollows, hlink, ?_, fun o => ?_, hruns⟩
    · rw [hwritten]
      exact h.prompt
    · rw [hwritten, Script.said_concat]
      simp only [Script.saidTo, hreply, List.append_nil]
      exact h.splitter o
  | some r =>
    have hwritten := writeLine_reply h.keeps h.exited (hhead.trans hreply) line
    simp only [receive, hopen r hreply, if_neg Bool.false_ne_true] at hwritten
    refine ⟨hfollows, hlink, ?_, fun o => ?_, hruns⟩
    · rw [hwritten]
      exact (Session.prompt_push s r.stream _).trans h.prompt
    · rw [hwritten, Script.said_concat]
      change (s.push r.stream (r.written line)).splitter o = _
      rw [splitter_push, h.splitter, Splitter.push_append]
      simp only [Script.saidTo, hreply]

theorem After.ask (h : After p script lines s) {t : Text} (ht : '\n' ∉ t.trim)
    (hruns : script.isOver (lines ++ (lineFor t).toList).length = false) :
    After p script (lines ++ (lineFor t).toList) (s.ask t).1 := by
  cases hline : lineFor t with
  | none =>
    rw [ask_of_lineFor_none hline, Option.toList_none, List.append_nil]
    exact h
  | some line =>
    rw [ask_eq h.keeps h.exited ht hline]
    rw [hline, Option.toList_some, List.length_append] at hruns
    exact ((h.withQueue []).writeLine line hruns).withQueue _

theorem After.asks (h : After p script lines s) {ts : List Text} (hts : ∀ t ∈ ts, '\n' ∉ t.trim)
    (hruns : script.isOver (lines ++ linesFor ts).length = false) :
    After p script (lines ++ linesFor ts) (s.asks ts).1 := by
  induction ts generalizing lines s with
  | nil => rwa [linesFor, List.filterMap_nil, List.append_nil]
  | cons t ts ih =>
    have hsplit : lines ++ linesFor (t :: ts) = lines ++ (lineFor t).toList ++ linesFor ts := by
      cases hline : lineFor t <;> simp [linesFor, hline]
    rw [hsplit] at hruns ⊢
    have hfirst := script.isOver_mono (List.length_append ▸ Nat.le_add_right _ _) hruns
    exact ih (h.ask (hts t List.mem_cons_self) hfirst)
      (fun u hu => hts u (List.mem_cons_of_mem t hu))
      hruns

end Run

/-! ## Sessions that answer alike -/

/-- Two sessions are the same but for their interpreters and their queues. -/
def Alike (s s' : Session) : Prop := ∃ child queue, s' = { s with child, queue }

theorem alike_of_after {lines : List (List UInt8)} (h : After p script lines s)
    (h' : After p script' lines s')
    (hleft : ∀ o, script.leftover p o lines = script'.leftover p o lines) : Alike s s' := by
  have hsplitter : ∀ o, s'.splitter o = s.splitter o := by
    intro o
    rw [h.splitter, h'.splitter]
    have hprompt := Splitter.prompt_push (.start p) (script.said o lines)
    rw [← Splitter.prompt_push (.start p) (script'.said o lines)] at hprompt
    exact Splitter.eq_of_parts hprompt.symm (hleft o).symm
  obtain ⟨p', child', output', errors', queue', link'⟩ := s'
  obtain rfl : p' = p := h'.prompt
  obtain rfl : p' = s.prompt := h.prompt.symm
  obtain rfl : output' = s.output := hsplitter .output
  obtain rfl : errors' = s.errors := hsplitter .errors
  obtain rfl : link' = s.link := h'.link.trans h.link.symm
  exact ⟨child', queue', rfl⟩

theorem writeLine_withChild {child : Child} (hkeeps : s.link.Keeps)
    (hexit : s.child.exited.isSome = false) (hexit' : child.exited.isSome = false)
    (hhead : s.child.replies.head? = child.replies.head?) (line : List UInt8) :
    ({ s with child } : Session).writeLine line =
      { s.writeLine line with child := (child.hear line).1 } := by
  rw [child.hear_of_exited hexit']
  cases hreply : child.replies.head? with
  | none =>
    rw [writeLine_silent hkeeps hexit (hhead.trans hreply),
      writeLine_silent (s := { s with child }) hkeeps hexit' hreply]
  | some r =>
    rw [writeLine_reply hkeeps hexit (hhead.trans hreply),
      writeLine_reply (s := { s with child }) hkeeps hexit' hreply, receive_withChild]

/-- **One request** in sessions that are alike, whose next reply is the same, has the same answer
and leaves them alike. -/
theorem alike_ask (halike : Alike s s') (hkeeps : s.link.Keeps) (h : s.child.Follows script i)
    (h' : s'.child.Follows script' i) (hreply : script.reply? i = script'.reply? i)
    (hover : script.isOver i = script'.isOver i) {t : Text} (ht : '\n' ∉ t.trim) :
    (s.ask t).2 = (s'.ask t).2 ∧ Alike (s.ask t).1 (s'.ask t).1 ∧ (s.ask t).1.link.Keeps ∧
      ∃ j, i ≤ j ∧ (s.ask t).1.child.Follows script j ∧ (s'.ask t).1.child.Follows script' j ∧
        script.isOver j = script'.isOver j := by
  obtain ⟨child, queue, rfl⟩ := halike
  cases hline : lineFor t with
  | none =>
    rw [ask_of_lineFor_none hline, ask_of_lineFor_none hline]
    exact ⟨rfl, ⟨child, queue, rfl⟩, hkeeps, i, Nat.le_refl i, h, h', hover⟩
  | some line =>
    cases hruns : script.isOver i with
    | true =>
      have hdeaf : s.hears = false := not_hears_of_exited (h.exited.trans hruns)
      have hdeaf' : ({ s with child, queue } : Session).hears = false :=
        not_hears_of_exited (h'.exited.trans (hover.symm.trans hruns))
      rw [ask_of_not_hears hdeaf hline, ask_of_not_hears hdeaf' hline]
      exact ⟨rfl, ⟨child, _, rfl⟩, hkeeps, i, Nat.le_refl i, h, h', hover⟩
    | false =>
      have hexit := h.exited.trans hruns
      have hexit' := h'.exited.trans (hover.symm.trans hruns)
      have hhead : s.child.replies.head? = child.replies.head? :=
        h.head?_replies.trans (hreply.trans h'.head?_replies.symm)
      have hhears : ({ s with queue := [] } : Session).hears = true :=
        hears_of_runs hkeeps.listens hexit
      have hnext : (({ s with queue := [] } : Session).writeLine line).child.Follows script
          (i + 1) := by
        rw [child_writeLine_of_hears hhears]
        exact h.hear hruns line
      have hlink : (({ s with queue := [] } : Session).writeLine line).link.Keeps := by
        rw [link_writeLine]
        exact hkeeps
      rw [ask_eq hkeeps hexit ht hline,
        ask_eq (s := { s with child, queue }) hkeeps hexit' ht hline,
        writeLine_withChild (s := { s with queue := [] }) hkeeps hexit hexit' hhead line]
      refine ⟨rfl, ⟨_, _, rfl⟩, hlink, i + 1, Nat.le_succ i, hnext,
        h'.hear (hover.symm.trans hruns) line, ?_⟩
      rw [Script.isOver, Script.isOver, hover, hreply]

theorem answers_alike (halike : Alike s s') (hkeeps : s.link.Keeps) (h : s.child.Follows script i)
    (h' : s'.child.Follows script' i)
    (hreplies : ∀ j, i ≤ j → script.reply? j = script'.reply? j)
    (hover : script.isOver i = script'.isOver i) {ts : List Text}
    (hts : ∀ t ∈ ts, '\n' ∉ t.trim) : (s.asks ts).2 = (s'.asks ts).2 := by
  induction ts generalizing s s' i with
  | nil => rfl
  | cons t ts ih =>
    obtain ⟨hanswer, halike', hkeeps', j, hj, hnext, hnext', hover'⟩ :=
      alike_ask halike hkeeps h h' (hreplies i (Nat.le_refl i)) hover (hts t List.mem_cons_self)
    have hrest := ih halike' hkeeps' hnext hnext' (fun k hk => hreplies k (hj.trans hk)) hover'
      fun u hu => hts u (List.mem_cons_of_mem t hu)
    change (s.ask t).2 :: ((s.ask t).1.asks ts).2 = (s'.ask t).2 :: ((s'.ask t).1.asks ts).2
    rw [hanswer, hrest]

/-! ## Whole runs -/

/-- **Earlier replies reach a later answer only as leftovers.** Two interpreters that give the same
replies from some request on, and that still run when it is sent, give the same answers from there
on, provided that what they wrote before left the same bytes waiting on each output. -/
theorem answers_independent {ts us : List Text} (hlines : ∀ t ∈ ts ++ us, '\n' ∉ t.trim)
    (hreplies : ∀ i, (linesFor ts).length ≤ i → script.reply? i = script'.reply? i)
    (hruns : script.isOver (linesFor ts).length = false)
    (hruns' : script'.isOver (linesFor ts).length = false)
    (hleft : ∀ o, script.leftover p o (linesFor ts) = script'.leftover p o (linesFor ts)) :
    (((start p script).waitForPrompt.1.asks ts).1.asks us).2 =
      (((start p script').waitForPrompt.1.asks ts).1.asks us).2 := by
  obtain ⟨hts, hus⟩ := List.forall_mem_append.1 hlines
  have hafter := (after_start p (script.isOver_mono (Nat.zero_le _) hruns)).asks hts hruns
  have hafter' := (after_start p (script'.isOver_mono (Nat.zero_le _) hruns')).asks hts hruns'
  rw [List.nil_append] at hafter hafter'
  exact answers_alike (alike_of_after hafter hafter' hleft) hafter.keeps hafter.follows
    hafter'.follows hreplies (hruns.trans hruns'.symm) hus

def replyingFirst (shown : Text) : Script where
  greeting := Utf8.encode angles
  stream := .output
  exit := none
  replies := [⟨fun _ => Utf8.encode shown, .output, none⟩,
    ⟨fun _ => Utf8.encode ('b' :: '\n' :: angles ++ angles), .output, none⟩]

def trailing (left : Text) : Text := angles ++ 'a' :: '\n' :: angles ++ left

theorem replyingFirst_reply? (shown shown' : Text) :
    ∀ i, 1 ≤ i → (replyingFirst shown).reply? i = (replyingFirst shown').reply? i := by
  intro i hi
  have hmin : min i 1 = 1 := min_eq_right hi
  simp [Script.reply?, replyingFirst, hmin]

theorem answers_independent_closed :
    (∀ t ∈ [['R']] ++ [['S']], '\n' ∉ Text.trim t) ∧
      (∀ o, (replyingFirst (trailing [])).leftover angles o (linesFor [['R']]) =
        (replyingFirst ['c', '\n']).leftover angles o (linesFor [['R']])) ∧
      (((start angles (replyingFirst (trailing []))).waitForPrompt.1.asks [['R']]).1.asks
        [['S']]).2 =
      (((start angles (replyingFirst ['c', '\n'])).waitForPrompt.1.asks [['R']]).1.asks
        [['S']]).2 := by
  have hlines : ∀ t ∈ [['R']] ++ [['S']], '\n' ∉ Text.trim t := by decide
  have hleft : ∀ o, (replyingFirst (trailing [])).leftover angles o (linesFor [['R']]) =
      (replyingFirst ['c', '\n']).leftover angles o (linesFor [['R']]) := by
    intro o
    cases o <;> rfl
  exact ⟨hlines, hleft,
    answers_independent hlines (replyingFirst_reply? _ _) rfl rfl hleft⟩

/-- Leftovers do reach it: `junk`, left behind a prompt, comes out in front of the next answer. -/
theorem not_forall_answers_independent : ¬ ∀ (p : Text) (script : Script) (replies : List Reply)
    (ts us : List Text), (∀ t ∈ ts ++ us, '\n' ∉ t.trim) →
      (∀ i, (linesFor ts).length ≤ i →
        script.reply? i = ({ script with replies } : Script).reply? i) →
      script.isOver (linesFor ts).length = false →
      ({ script with replies } : Script).isOver (linesFor ts).length = false →
      (((start p script).waitForPrompt.1.asks ts).1.asks us).2 =
        (((start p { script with replies }).waitForPrompt.1.asks ts).1.asks us).2 := by
  intro h
  have hsame := h angles (replyingFirst (trailing "junk".toList))
    (replyingFirst (trailing [])).replies [['R']] [['S']] (by decide)
    (replyingFirst_reply? _ _) rfl rfl
  have hjunk : (((start angles (replyingFirst (trailing "junk".toList))).waitForPrompt.1.asks
      [['R']]).1.asks [['S']]).2 = [.ok "junkb".toList] := by cbv
  have hnone : (((start angles (replyingFirst (trailing []))).waitForPrompt.1.asks
      [['R']]).1.asks [['S']]).2 = [.ok ['b']] := by cbv
  exact absurd (hjunk.symm.trans (hsame.trans hnone)) (by decide)

end Session

end QueryEditor
