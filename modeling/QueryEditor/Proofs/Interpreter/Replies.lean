import QueryEditor.Proofs.Console.Requests
import QueryEditor.Proofs.Console.Transcripts
import QueryEditor.Proofs.Interpreter.Calls

/-!
# One request and its reply

A request of one line makes the interpreter give its next reply. The reply arrives on one of the two
outputs, where it is read behind what waits there, and the lines it comes to are the first ones that
the answer is collected from. The other output and what was in the queue have no part in it, as long
as nothing is late and no pipe is closed.

* `Session.splitter`, `Session.splitter_push`, `Session.queue_push`: bytes that arrive on an output;
* `Session.receive_eq`, `Session.queue_receive`: a reply that arrives;
* `Link.Keeps`: nothing is late or closed, and what this says of each step;
* `Session.ask_eq`, `Session.writeLine_reply`: a request of one line;
* `Child.Follows`: which reply is next, `Child.Follows.hear`: one line sent;
* **`Session.ask_reply`**: the answer to a request whose reply is a text.
-/

namespace QueryEditor

open Reading

namespace Session

variable {p : Text} {s : Session}

/-! ## Output that arrives -/

def splitter (s : Session) : Stream → Splitter
  | .output => s.output
  | .errors => s.errors

theorem splitter_push (s : Session) (o o' : Stream) (bytes : List UInt8) :
    (s.push o bytes).splitter o' = ((s.splitter o').push (if o = o' then bytes else [])).1 := by
  cases o <;> cases o' <;> rfl

theorem queue_push (s : Session) (o : Stream) (bytes : List UInt8) :
    (s.push o bytes).queue =
      s.queue ++ ((s.splitter o).push bytes).2.filterMap (Noise.clean s.prompt) := by
  cases o <;> rfl

theorem prompt_push (s : Session) (o : Stream) (bytes : List UInt8) :
    (s.push o bytes).prompt = s.prompt := by cases o <;> rfl

theorem child_push (s : Session) (o : Stream) (bytes : List UInt8) :
    (s.push o bytes).child = s.child := by cases o <;> rfl

theorem receive_eq (s : Session) (b : Burst) :
    ∃ output errors queue, s.receive b = { s with output, errors, queue } := by
  rcases b with ⟨o, bytes, closing⟩
  cases o <;> cases closing <;> exact ⟨_, _, _, rfl⟩

theorem prompt_receive (s : Session) (b : Burst) : (s.receive b).prompt = s.prompt := by
  obtain ⟨_, _, _, h⟩ := s.receive_eq b
  rw [h]

theorem link_receive (s : Session) (b : Burst) : (s.receive b).link = s.link := by
  obtain ⟨_, _, _, h⟩ := s.receive_eq b
  rw [h]

/-- The lines of what arrives come first in the queue, those of a close behind them. -/
theorem queue_receive (s : Session) (b : Burst) : ∃ rest, (s.receive b).queue =
    s.queue ++ ((s.splitter b.stream).push b.bytes).2.filterMap (Noise.clean s.prompt) ++ rest := by
  unfold receive
  rw [← queue_push]
  split
  · exact ⟨_, rfl⟩
  · exact ⟨[], (List.append_nil _).symm⟩

theorem receive_withChild (s : Session) (child : Child) (b : Burst) :
    ({ s with child } : Session).receive b = { s.receive b with child } := by
  rcases b with ⟨o, bytes, closing⟩
  cases o <;> cases closing <;> rfl

theorem answer_snd (s : Session) :
    s.answer.2 = (Response.start.collect s.prompt s.queue).1.text := rfl

end Session

/-! ## Links that keep -/

/-- Nothing is closed but by an exit, and nothing comes too late. -/
structure Link.Keeps (k : Link) : Prop where
  closes : ∀ n, k.course.closes n = []
  late : ∀ n, k.course.late n = 0
  delays : ∀ n, ∀ d ∈ k.course.delays n, d ≤ k.limit

/-- The input is not closed but by an exit. -/
def Link.Listens (k : Link) : Prop := ∀ n, .input ∉ k.course.closes n

theorem Link.keeps_default : ({} : Link).Keeps :=
  ⟨fun _ => rfl, fun _ => rfl, fun _ _ hd => absurd hd List.not_mem_nil⟩

theorem Link.Keeps.listens {k : Link} (h : k.Keeps) : k.Listens := by
  intro n
  rw [h.closes n]
  exact List.not_mem_nil

namespace Session

variable {p : Text} {s : Session}

theorem isClosed_eq_false_iff {pipe : Pipe} : s.isClosed pipe = false ↔
    ∀ n ≤ s.child.heard.length, pipe ∉ s.link.course.closes n := by
  simp only [isClosed, List.any_eq_false, List.mem_range, Nat.lt_succ_iff, List.contains_iff_mem]

theorem hears_of_listens (h : s.link.Listens) : s.hears = !s.child.exited.isSome := by
  have hopen : s.isClosed .input = false := isClosed_eq_false_iff.2 fun n _ => h n
  rw [hears, hopen, Bool.not_false, Bool.and_true]

theorem hears_of_runs (h : s.link.Listens) (hexit : s.child.exited.isSome = false) :
    s.hears = true := by rw [hears_of_listens h, hexit, Bool.not_false]

theorem not_hears_of_exited (hexit : s.child.exited.isSome = true) : s.hears = false := by
  rw [hears, hexit, Bool.not_true, Bool.false_and]

theorem closePipes_of_keeps (h : s.link.Keeps) : s.closePipes = s := by
  rw [closePipes, h.closes]
  rfl

theorem start_of_keeps {link : Link} (h : link.Keeps) (p : Text) (script : Script) :
    start p script link = receive ⟨p, (Child.launch script).1, .start p, .start p, [], link⟩
      (Child.launch script).2 :=
  closePipes_of_keeps (by rwa [link_receive])

theorem arriving_of_keeps (h : s.link.Keeps) (b : Burst) : s.arriving b = b := by
  have hopen : s.isClosed (.output b.stream) = false :=
    isClosed_eq_false_iff.2 fun n _ => by rw [h.closes n]; exact List.not_mem_nil
  rw [arriving, hopen, if_neg Bool.false_ne_true]

theorem discard_of_keeps (h : s.link.Keeps) : s.discard = { s with queue := [] } := by
  rw [discard, h.late, Nat.sub_zero, List.drop_length]

theorem readFirst_of_keeps (h : s.link.Keeps) {α : Type} (read : Session → Session × α) :
    s.readFirst (linesEachWithin s.link.limit s.delays) read = read s := by
  have hall : linesEachWithin s.link.limit s.delays = none := by
    rw [linesEachWithin, List.findIdx?_eq_none_iff]
    intro d hd
    have := h.delays _ d hd
    simpa using this
  rw [hall, readFirst]

/-! ## One line sent -/

theorem closePipes_eq (s : Session) :
    ∃ output errors queue, s.closePipes = { s with output, errors, queue } := by
  rw [closePipes]
  induction s.link.course.closes s.child.heard.length generalizing s with
  | nil => exact ⟨_, _, _, rfl⟩
  | cons pipe pipes ih =>
    have hfirst : ∃ output errors queue, s.closePipe pipe = { s with output, errors, queue } := by
      rcases pipe with _ | _ | _ <;> exact ⟨_, _, _, rfl⟩
    obtain ⟨_, _, _, hfirst⟩ := hfirst
    obtain ⟨_, _, _, hrest⟩ := ih (s.closePipe pipe)
    rw [List.foldl_cons, hrest, hfirst]
    exact ⟨_, _, _, rfl⟩

theorem writeLine_eq (s : Session) (line : List UInt8) : ∃ output errors queue,
    s.writeLine line = { s with
      child := if s.hears then (s.child.hear line).1 else s.child, output, errors, queue } := by
  unfold writeLine
  split
  · rcases s.child.hear line with ⟨child, _ | b⟩
    · obtain ⟨_, _, _, h⟩ := closePipes_eq { s with child }
      exact ⟨_, _, _, h⟩
    · obtain ⟨_, _, _, hreceive⟩ := receive_eq { s with child } (s.arriving b)
      obtain ⟨output, errors, queue, h⟩ :=
        closePipes_eq (({ s with child } : Session).receive (s.arriving b))
      refine ⟨output, errors, queue, h.trans ?_⟩
      rw [hreceive]
  · exact ⟨_, _, _, rfl⟩

theorem child_writeLine (s : Session) (line : List UInt8) :
    (s.writeLine line).child = if s.hears then (s.child.hear line).1 else s.child := by
  obtain ⟨_, _, _, h⟩ := s.writeLine_eq line
  rw [h]

theorem child_writeLine_of_hears (h : s.hears = true) (line : List UInt8) :
    (s.writeLine line).child = (s.child.hear line).1 := by
  rw [child_writeLine, if_pos h]

theorem link_writeLine (s : Session) (line : List UInt8) : (s.writeLine line).link = s.link := by
  obtain ⟨_, _, _, h⟩ := s.writeLine_eq line
  rw [h]

theorem start_eq (p : Text) (script : Script) (link : Link) : ∃ output errors queue,
    start p script link = ⟨p, (Child.launch script).1, output, errors, queue, link⟩ := by
  let fresh : Session := ⟨p, (Child.launch script).1, .start p, .start p, [], link⟩
  obtain ⟨_, _, _, hreceive⟩ := fresh.receive_eq (Child.launch script).2
  obtain ⟨output, errors, queue, h⟩ := (fresh.receive (Child.launch script).2).closePipes_eq
  refine ⟨output, errors, queue, h.trans ?_⟩
  rw [hreceive]

theorem child_start (p : Text) (script : Script) (link : Link) :
    (start p script link).child = (Child.launch script).1 := by
  obtain ⟨_, _, _, h⟩ := start_eq p script link
  rw [h]

theorem link_start (p : Text) (script : Script) (link : Link) :
    (start p script link).link = link := by
  obtain ⟨_, _, _, h⟩ := start_eq p script link
  rw [h]

theorem bytesByLine_of_not_mem {bs : List UInt8} (h : 10 ∉ bs) :
    bytesByLine (bs ++ [10]) = [bs ++ [10]] := by
  induction bs with
  | nil => rfl
  | cons b bs ih =>
    obtain ⟨hb, hbs⟩ := not_or.1 (mt List.mem_cons.2 h)
    rw [List.cons_append, bytesByLine, if_neg (Ne.symm hb), ih hbs]

theorem bytesByLine_request {request : Text} (h : '\n' ∉ request) :
    bytesByLine (Utf8.encode (request ++ ['\r', '\n'])) =
      [Utf8.encode (request ++ ['\r', '\n'])] := by
  have hsplit : Utf8.encode (request ++ ['\r', '\n']) =
      Utf8.encode (request ++ ['\r']) ++ [10] := by
    rw [List.append_cons, Utf8.encode_append]
    rfl
  have hline : (10 : UInt8) ∉ Utf8.encode (request ++ ['\r']) := by
    have hfeed : '\n' ∉ request ++ ['\r'] := by simpa using h
    exact mt (Utf8.mem_encode_iff (c := '\n') (by decide) _).1 hfeed
  rw [hsplit, bytesByLine_of_not_mem hline]

theorem write_of_not_mem (hhears : s.hears = true) {request : Text} (h : '\n' ∉ request) :
    s.write request = .ok (s.writeLine (Utf8.encode (request ++ ['\r', '\n']))) := by
  rw [write, if_pos hhears, bytesByLine_request h]
  rfl

theorem not_mem_of_prepare {t request : Text} (ht : '\n' ∉ t.trim)
    (h : Request.prepare t = some request) : '\n' ∉ request := by
  obtain ⟨-, ⟨-, rfl⟩ | ⟨-, rfl⟩⟩ := Request.prepare_eq_some_iff.1 h
  · exact ht
  · simpa using ht

/-- The line that the request of a text is sent as, none for a blank text. -/
def lineFor (t : Text) : Option (List UInt8) :=
  (Request.prepare t).map fun request => Utf8.encode (request ++ ['\r', '\n'])

theorem lineFor_of_prepare {t request : Text} (h : Request.prepare t = some request) :
    lineFor t = some (Utf8.encode (request ++ ['\r', '\n'])) := by
  rw [lineFor, h, Option.map_some]

theorem ask_of_lineFor_none {t : Text} (h : lineFor t = none) : s.ask t = (s, .ok noOutput) := by
  have hprepare : Request.prepare t = none := Option.map_eq_none_iff.1 h
  rw [ask, hprepare]

theorem ask_eq (hkeeps : s.link.Keeps) (hexit : s.child.exited.isSome = false) {t : Text}
    (ht : '\n' ∉ t.trim) {line : List UInt8} (hline : lineFor t = some line) :
    s.ask t = ((({ s with queue := [] } : Session).writeLine line).answer.1,
      .ok (({ s with queue := [] } : Session).writeLine line).answer.2) := by
  obtain ⟨request, hrequest, rfl⟩ := Option.map_eq_some_iff.1 hline
  have hhears : ({ s with queue := [] } : Session).hears = true :=
    hears_of_runs hkeeps.listens hexit
  have hwrite := write_of_not_mem hhears (not_mem_of_prepare ht hrequest)
  have hafter : ∀ line, (({ s with queue := [] } : Session).writeLine line).link = s.link :=
    fun line => link_writeLine _ line
  simp only [ask, hrequest, discard_of_keeps hkeeps, hwrite]
  rw [readFirst_of_keeps (by rwa [hafter])]

theorem ask_of_not_hears (h : s.hears = false) {t : Text} {line : List UInt8}
    (hline : lineFor t = some line) :
    s.ask t = (s.discard, .error (.transfer .brokenPipe)) := by
  obtain ⟨request, hrequest, rfl⟩ := Option.map_eq_some_iff.1 hline
  have hwrite : s.discard.write request = .error (.transfer .brokenPipe) := by
    rw [write, if_neg (by rw [show s.discard.hears = s.hears from rfl, h]; decide)]
  simp only [ask, hrequest, hwrite]

end Session

namespace Child

theorem hear_of_exited (c : Child) (h : c.exited.isSome = false) (line : List UInt8) :
    c.hear line = match c.replies.head? with
      | none => ({ c with heard := c.heard ++ [line] }, none)
      | some r => (⟨advance c.replies, r.exit, c.heard ++ [line]⟩,
          some ⟨r.stream, r.written line, r.exit.isSome⟩) := by
  unfold hear
  rw [h, if_neg Bool.false_ne_true]
  cases hreplies : c.replies with
  | nil => rfl
  | cons r rs => rfl

theorem advance_drop (rs : List Reply) (i : Nat) :
    advance (rs.drop (min i (rs.length - 1))) = rs.drop (min (i + 1) (rs.length - 1)) := by
  by_cases h : i + 1 ≤ rs.length - 1
  · rw [min_eq_left (by omega), min_eq_left h, List.drop_eq_getElem_cons (by omega),
      List.drop_eq_getElem_cons (i := i + 1) (by omega)]
    rfl
  · rw [min_eq_right (by omega), min_eq_right (by omega)]
    have hlast : (rs.drop (rs.length - 1)).length ≤ 1 := by rw [List.length_drop]; omega
    cases hrest : rs.drop (rs.length - 1) with
    | nil => rfl
    | cons r rest =>
      rw [hrest, List.length_cons] at hlast
      rw [List.length_eq_zero_iff.1 (show rest.length = 0 by omega)]
      rfl

/-! ## Which reply is next -/

/-- The next reply is the one with the given number, and the interpreter has exited if it should
have before that. -/
structure Follows (script : Script) (i : Nat) (c : Child) : Prop where
  replies : c.replies = script.replies.drop (min i (script.replies.length - 1))
  exited : c.exited.isSome = script.isOver i

variable {script : Script} {i : Nat} {c : Child}

theorem follows_launch (script : Script) : Follows script 0 (launch script).1 :=
  ⟨by rw [Nat.zero_min]; rfl, rfl⟩

theorem Follows.head?_replies (h : Follows script i c) :
    c.replies.head? = script.reply? i := by
  rw [h.replies, List.head?_drop]
  rfl

/-- **One line sent** makes the next reply the one with the next number. -/
theorem Follows.hear (h : Follows script i c) (hover : script.isOver i = false)
    (line : List UInt8) : Follows script (i + 1) (c.hear line).1 := by
  have hexit := h.exited.trans hover
  have hnext := advance_drop script.replies i
  have hover' : script.isOver (i + 1) = (script.reply? i).any fun r => r.exit.isSome := by
    rw [Script.isOver, hover, Bool.false_or]
  have hhead := h.head?_replies
  rw [← h.replies] at hnext
  rw [c.hear_of_exited hexit, hhead]
  cases hreply : script.reply? i with
  | none =>
    rw [hreply, List.head?_eq_none_iff] at hhead
    refine ⟨?_, ?_⟩
    · rw [← hnext, hhead]
      rfl
    · rw [hover', hreply]
      exact hexit
  | some r =>
    refine ⟨hnext, ?_⟩
    rw [hover', hreply]
    rfl

end Child

namespace Session

variable {p : Text} {s : Session}

theorem writeLine_reply (hkeeps : s.link.Keeps) (hexit : s.child.exited.isSome = false) {r : Reply}
    (hreply : s.child.replies.head? = some r) (line : List UInt8) :
    s.writeLine line = { s.receive ⟨r.stream, r.written line, r.exit.isSome⟩ with
      child := ⟨Child.advance s.child.replies, r.exit, s.child.heard ++ [line]⟩ } := by
  have hhears : s.hears = true := hears_of_runs hkeeps.listens hexit
  rw [writeLine, if_pos hhears, s.child.hear_of_exited hexit, hreply]
  simp only [arriving_of_keeps hkeeps, receive_withChild]
  exact closePipes_of_keeps (by rwa [link_receive])

theorem writeLine_silent (hkeeps : s.link.Keeps) (hexit : s.child.exited.isSome = false)
    (hreply : s.child.replies.head? = none) (line : List UInt8) :
    s.writeLine line = { s with child := { s.child with heard := s.child.heard ++ [line] } } := by
  have hhears : s.hears = true := hears_of_runs hkeeps.listens hexit
  rw [writeLine, if_pos hhears, s.child.hear_of_exited hexit, hreply]
  exact closePipes_of_keeps hkeeps

/-! ## The answer -/

/-- **The answer to a request of one line whose reply is a text** is collected from the lines that
the text comes to behind the text that waits on its output. -/
theorem ask_reply (hprompt : s.prompt = p) (hkeeps : s.link.Keeps)
    (hexit : s.child.exited.isSome = false) {t : Text} (ht : '\n' ∉ t.trim) {line : List UInt8}
    (hline : lineFor t = some line)
    {r : Reply} (hreply : s.child.replies.head? = some r) {waiting shown : Text}
    (hwaiting : s.splitter r.stream = holding p (Utf8.encode waiting))
    (hshown : r.written line = Utf8.encode shown) :
    ∃ rest, (s.ask t).2 = .ok (Response.start.collect p
      (((readAll p waiting shown).2.map Report.line).filterMap
        (Noise.clean p) ++ rest)).1.text := by
  subst hprompt
  obtain ⟨rest, hqueue⟩ := queue_receive { s with queue := [] }
    ⟨r.stream, r.written line, r.exit.isSome⟩
  have hsplitter : ({ s with queue := [] } : Session).splitter r.stream = s.splitter r.stream := by
    cases r.stream <;> rfl
  simp only [hsplitter, hwaiting, hshown, push_holding, List.nil_append] at hqueue
  refine ⟨rest, ?_⟩
  rw [ask_eq hkeeps hexit ht hline,
    writeLine_reply (s := { s with queue := [] }) hkeeps hexit hreply, answer_snd]
  simp only [prompt_receive, hshown, hqueue]

end Session

end QueryEditor
