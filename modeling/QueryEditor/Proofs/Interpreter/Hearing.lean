import QueryEditor.Proofs.Interpreter.Leftovers

/-!
# What an interpreter hears

The request of a text is sent as one line or more, and the interpreter hears them in their order.
Lines are lost behind its exit, and behind the reply with which it closes its input; a request that
comes later than that cannot be written.

* `Child.hearAll`: lines heard one after the other;
* `Session.sentFor`: the lines that a request is sent as, whatever is in it;
* **`Session.ask_cases`**: all that can become of a request;
* `Session.exists_child_ask`, `Session.child_ask_of_listens`: what it does to the interpreter;
* `Session.exists_ask_eq_ok_iff`: when it is answered;
* `Session.Heard`, `Session.Heard.asks`: requests in order, as long as the interpreter listens.
-/

namespace QueryEditor

namespace Child

/-- Lines sent to the interpreter one after the other. -/
def hearAll (c : Child) (lines : List (List UInt8)) : Child :=
  lines.foldl (fun c line => (c.hear line).1) c

variable {c : Child}

theorem hearAll_append (c : Child) (lines lines' : List (List UInt8)) :
    c.hearAll (lines ++ lines') = (c.hearAll lines).hearAll lines' := List.foldl_append

theorem hearAll_of_exited (h : c.exited.isSome = true) (lines : List (List UInt8)) :
    c.hearAll lines = c := by
  induction lines with
  | nil => rfl
  | cons line lines ih =>
    have hfirst : (c.hear line).1 = c := by rw [hear, if_pos h]
    change (c.hear line).1.hearAll lines = c
    rw [hfirst, ih]

theorem heard_hear (h : c.exited.isSome = false) (line : List UInt8) :
    (c.hear line).1.heard = c.heard ++ [line] := by
  rw [c.hear_of_exited h]
  cases c.replies.head? <;> rfl

/-- **The lines are heard in their order**, and none is lost but behind the exit. -/
theorem heard_hearAll (c : Child) (lines : List (List UInt8)) :
    ∃ lost, (c.hearAll lines).heard ++ lost = c.heard ++ lines ∧
      ((c.hearAll lines).exited.isSome = false → lost = []) := by
  induction lines generalizing c with
  | nil => exact ⟨[], rfl, fun _ => rfl⟩
  | cons line lines ih =>
    cases hexit : c.exited.isSome with
    | true =>
      rw [hearAll_of_exited hexit]
      exact ⟨line :: lines, rfl, fun h => absurd (hexit.symm.trans h) (by decide)⟩
    | false =>
      obtain ⟨lost, hheard, hnone⟩ := ih (c.hear line).1
      rw [heard_hear hexit, List.append_assoc, List.singleton_append] at hheard
      exact ⟨lost, hheard, hnone⟩

end Child

namespace Session

variable {s : Session} {t : Text}

/-! ## Lines of a request -/

theorem flatten_bytesByLine (bs : List UInt8) : (bytesByLine bs).flatten = bs := by
  induction bs with
  | nil => rfl
  | cons b bs ih =>
    rw [bytesByLine]
    split
    · rw [List.flatten_cons, ih, List.singleton_append]
    · split
      · rename_i hnil
        rw [hnil] at ih
        rw [← ih]
        rfl
      · rename_i l ls hlines
        rw [hlines, List.flatten_cons] at ih
        rw [List.flatten_cons, List.cons_append, ih]

/-- The lines that the request of a text is sent as, none for a blank text. -/
def sentFor (t : Text) : List (List UInt8) :=
  ((Request.prepare t).map fun request =>
    bytesByLine (Utf8.encode (request ++ ['\r', '\n']))).getD []

theorem sentFor_of_not_mem (ht : '\n' ∉ t.trim) : sentFor t = (lineFor t).toList := by
  rw [sentFor, lineFor]
  cases hprepare : Request.prepare t with
  | none => rfl
  | some request => exact bytesByLine_request (not_mem_of_prepare ht hprepare)

/-! ## Lines sent -/

theorem exited_of_hears (h : s.hears = true) : s.child.exited.isSome = false := by
  rw [hears, Bool.and_eq_true, Bool.not_eq_true'] at h
  exact h.1

theorem foldl_writeLine_of_deaf (h : s.hears = false) (lines : List (List UInt8)) :
    lines.foldl writeLine s = s := by
  induction lines with
  | nil => rfl
  | cons line lines ih =>
    have hfirst : s.writeLine line = s := by rw [writeLine, h, if_neg Bool.false_ne_true]
    rw [List.foldl_cons, hfirst, ih]

theorem link_foldl_writeLine (s : Session) (lines : List (List UInt8)) :
    (lines.foldl writeLine s).link = s.link := by
  induction lines generalizing s with
  | nil => rfl
  | cons line lines ih => rw [List.foldl_cons, ih, link_writeLine]

/-- **The interpreter hears lines up to one of them**, and all of them if it hears still more. -/
theorem exists_child_foldl (s : Session) (lines : List (List UInt8)) :
    ∃ taken lost, taken ++ lost = lines ∧
      (lines.foldl writeLine s).child = s.child.hearAll taken ∧
      ((lines.foldl writeLine s).hears = true → lost = []) := by
  induction lines generalizing s with
  | nil => exact ⟨[], [], rfl, rfl, fun _ => rfl⟩
  | cons line lines ih =>
    cases hhears : s.hears with
    | false =>
      rw [foldl_writeLine_of_deaf hhears]
      exact ⟨[], line :: lines, rfl, rfl, fun h => absurd (hhears.symm.trans h) (by decide)⟩
    | true =>
      obtain ⟨taken, lost, hlines, hchild, hlost⟩ := ih (s.writeLine line)
      rw [child_writeLine_of_hears hhears] at hchild
      exact ⟨line :: taken, lost, congrArg (line :: ·) hlines, hchild, hlost⟩

theorem child_foldl_of_listens (h : s.link.Listens) (lines : List (List UInt8)) :
    (lines.foldl writeLine s).child = s.child.hearAll lines := by
  induction lines generalizing s with
  | nil => rfl
  | cons line lines ih =>
    rw [List.foldl_cons, ih (by rwa [link_writeLine])]
    cases hexit : s.child.exited.isSome with
    | false =>
      rw [child_writeLine_of_hears (hears_of_runs h hexit)]
      rfl
    | true =>
      rw [child_writeLine, not_hears_of_exited hexit, if_neg Bool.false_ne_true,
        Child.hearAll_of_exited hexit, Child.hearAll_of_exited hexit]

/-! ## Requests -/

theorem exists_readFirst_eq {α : Type} {read : Session → Session × α}
    (h : ∀ r, ∃ queue, (read r).1 = { r with queue }) (s : Session) (n : Option Nat) :
    ∃ queue, (s.readFirst n read).1 = { s with queue } := by
  cases n with
  | none => exact h s
  | some n =>
    obtain ⟨queue, hread⟩ := h { s with queue := s.queue.take n }
    simp only [readFirst, hread]
    exact ⟨_, rfl⟩

theorem exists_awaitPrompt_eq (s : Session) (limit : Nat) :
    ∃ queue, (s.awaitPrompt limit).1 = { s with queue } := by
  refine exists_readFirst_eq (fun r => ?_) s _
  unfold waitForPrompt
  split
  · exact ⟨_, rfl⟩
  · exact ⟨_, rfl⟩

/-- **All that can become of a request**: that of a blank text is not sent, one that is not heard
fails, and any other is sent and answered. -/
theorem ask_cases (s : Session) (t : Text) :
    (t.isBlank = true ∧ sentFor t = [] ∧ s.ask t = (s, .ok noOutput)) ∨
    (t.isBlank = false ∧ s.hears = false ∧
      s.ask t = (s.discard, .error (.transfer .brokenPipe))) ∨
    (t.isBlank = false ∧ s.hears = true ∧ ∃ queue answer,
      s.ask t = ({ (sentFor t).foldl writeLine s.discard with queue }, .ok answer)) := by
  cases hprepare : Request.prepare t with
  | none =>
    refine .inl ⟨(Request.prepare_eq_none_iff t).1 hprepare, ?_, by rw [ask, hprepare]⟩
    rw [sentFor, hprepare]
    rfl
  | some request =>
    have hfilled : t.isBlank = false := by
      rw [← Bool.not_eq_true, ← Request.prepare_eq_none_iff, hprepare]
      exact Option.some_ne_none request
    cases hhears : s.hears with
    | false =>
      have hask := ask_of_not_hears hhears (lineFor_of_prepare hprepare)
      exact .inr (.inl ⟨hfilled, rfl, hask⟩)
    | true =>
      let sent := (sentFor t).foldl writeLine s.discard
      have hwrite : s.discard.write request = .ok sent := by
        rw [write, if_pos (show s.discard.hears = true from hhears)]
        simp only [sent, sentFor, hprepare, Option.map_some, Option.getD_some]
      let read := sent.readFirst (linesEachWithin sent.link.limit sent.delays) answer
      have hask : s.ask t = (read.1, .ok read.2) := by
        simp only [ask, hprepare, hwrite]
        rfl
      obtain ⟨queue, hread⟩ : ∃ queue, read.1 = { sent with queue } :=
        exists_readFirst_eq (fun _ => ⟨_, rfl⟩) sent _
      exact .inr (.inr ⟨hfilled, rfl, queue, read.2, by rw [hask, hread]⟩)

theorem link_ask (s : Session) (t : Text) : (s.ask t).1.link = s.link := by
  rcases s.ask_cases t with ⟨-, -, h⟩ | ⟨-, -, h⟩ | ⟨-, -, queue, answer, h⟩
  · rw [h]
  · rw [h]
    rfl
  · rw [h]
    exact link_foldl_writeLine s.discard _

/-- **A request does to the interpreter what its lines do**, up to one of them, and all of them if
the interpreter hears still more. -/
theorem exists_child_ask (s : Session) (t : Text) : ∃ taken lost, taken ++ lost = sentFor t ∧
    (s.ask t).1.child = s.child.hearAll taken ∧ ((s.ask t).1.hears = true → lost = []) := by
  rcases s.ask_cases t with ⟨-, hsent, h⟩ | ⟨-, hdeaf, h⟩ | ⟨-, -, queue, answer, h⟩
  · rw [h, hsent]
    exact ⟨[], [], rfl, rfl, fun _ => rfl⟩
  · rw [h]
    exact ⟨[], sentFor t, rfl, rfl, fun hhears => absurd (hdeaf.symm.trans hhears) (by decide)⟩
  · rw [h]
    exact exists_child_foldl s.discard (sentFor t)

theorem child_ask_of_listens (hlistens : s.link.Listens) (t : Text) :
    (s.ask t).1.child = s.child.hearAll (sentFor t) := by
  rcases s.ask_cases t with ⟨-, hsent, h⟩ | ⟨-, hdeaf, h⟩ | ⟨-, -, queue, answer, h⟩
  · rw [h, hsent]
    rfl
  · rw [hears_of_listens hlistens, Bool.not_eq_false'] at hdeaf
    rw [h, Child.hearAll_of_exited hdeaf]
    rfl
  · rw [h]
    exact child_foldl_of_listens (s := s.discard) hlistens _

theorem child_ask_of_deaf (h : s.hears = false) (t : Text) : (s.ask t).1.child = s.child := by
  rcases s.ask_cases t with ⟨-, -, hask⟩ | ⟨-, -, hask⟩ | ⟨-, hhears, -⟩
  · rw [hask]
  · rw [hask]
    rfl
  · exact absurd (h.symm.trans hhears) (by decide)

/-- **What is sent is heard**, up to one of the lines, and all of it if the interpreter hears still
more. -/
theorem exists_heard_ask (s : Session) (t : Text) : ∃ lost,
    (s.ask t).1.child.heard ++ lost = s.child.heard ++ sentFor t ∧
      ((s.ask t).1.hears = true → lost = []) := by
  obtain ⟨taken, rest, hsent, hchild, hrest⟩ := exists_child_ask s t
  obtain ⟨lost, hheard, hlost⟩ := s.child.heard_hearAll taken
  rw [← hchild] at hheard hlost
  refine ⟨lost ++ rest, ?_, fun h => ?_⟩
  · rw [← List.append_assoc, hheard, List.append_assoc, hsent]
  · rw [hrest h, hlost (exited_of_hears h), List.append_nil]

theorem hears_of_hears_ask (h : (s.ask t).1.hears = true) : s.hears = true := by
  cases hhears : s.hears with
  | true => rfl
  | false =>
    rcases s.ask_cases t with ⟨-, -, hask⟩ | ⟨-, -, hask⟩ | ⟨-, htrue, -⟩
    · rw [hask, hhears] at h
      exact h
    · rw [hask] at h
      exact hhears.symm.trans h
    · exact absurd (hhears.symm.trans htrue) (by decide)

/-- A request is answered as long as the interpreter hears. -/
theorem exists_ask_eq_ok_iff (ht : t.isBlank = false) :
    (∃ output, (s.ask t).2 = .ok output) ↔ s.hears = true := by
  rcases s.ask_cases t with ⟨hblank, -⟩ | ⟨-, hdeaf, h⟩ | ⟨-, hhears, queue, answer, h⟩
  · exact absurd (ht.symm.trans hblank) (by decide)
  · rw [h, hdeaf]
    exact iff_of_false (fun ⟨_, hok⟩ => nomatch hok) (by decide)
  · rw [h]
    exact iff_of_true ⟨answer, rfl⟩ hhears

/-! ## While the interpreter listens -/

variable {script : Script} {lines : List (List UInt8)} {ts us : List Text}

theorem linesFor_cons (t : Text) (ts : List Text) :
    linesFor (t :: ts) = (lineFor t).toList ++ linesFor ts := by
  rw [linesFor, linesFor, List.filterMap_cons]
  cases lineFor t <;> rfl

theorem linesFor_append (ts us : List Text) : linesFor (ts ++ us) = linesFor ts ++ linesFor us :=
  List.filterMap_append

/-- The interpreter keeps its input open, has heard some lines, and goes on with the next of its
replies. -/
structure Heard (script : Script) (lines : List (List UInt8)) (s : Session) : Prop where
  listens : s.link.Listens
  follows : s.child.Follows script lines.length
  heard : s.child.heard = lines

theorem Heard.hears (h : Heard script lines s) (hruns : script.isOver lines.length = false) :
    s.hears = true := hears_of_runs h.listens (h.follows.exited.trans hruns)

theorem heard_start (p : Text) (script : Script) (link : Link) (h : link.Listens) (limit : Nat) :
    Heard script [] ((start p script link).awaitPrompt limit).1 := by
  obtain ⟨queue, hwait⟩ := exists_awaitPrompt_eq (start p script link) limit
  obtain ⟨_, _, _, hstart⟩ := start_eq p script link
  rw [hwait, hstart]
  exact ⟨h, Child.follows_launch script, rfl⟩

/-- **One request of one line** is one more line heard, unless its text is blank. -/
theorem Heard.ask (h : Heard script lines s) (ht : '\n' ∉ t.trim)
    (hruns : script.isOver lines.length = false) :
    Heard script (lines ++ (lineFor t).toList) (s.ask t).1 := by
  have hchild := child_ask_of_listens h.listens t
  have hlink : (s.ask t).1.link.Listens := by rw [link_ask]; exact h.listens
  rw [sentFor_of_not_mem ht] at hchild
  cases hline : lineFor t with
  | none =>
    rw [hline] at hchild
    rw [Option.toList_none, List.append_nil]
    exact ⟨hlink, hchild ▸ h.follows, (congrArg Child.heard hchild).trans h.heard⟩
  | some line =>
    rw [hline] at hchild
    replace hchild : (s.ask t).1.child = (s.child.hear line).1 := hchild
    rw [Option.toList_some]
    refine ⟨hlink, ?_, ?_⟩
    · rw [hchild, List.length_append]
      exact h.follows.hear hruns line
    · rw [hchild, Child.heard_hear (h.follows.exited.trans hruns), h.heard]

/-- **Requests in order** are heard in their order, as long as the interpreter has not exited
before any of them. -/
theorem Heard.asks (h : Heard script lines s) (hts : ∀ t ∈ ts, '\n' ∉ t.trim)
    (hruns : ∀ i < (lines ++ linesFor ts).length, script.isOver i = false) :
    Heard script (lines ++ linesFor ts) (s.asks ts).1 := by
  induction ts generalizing lines s with
  | nil => rwa [linesFor, List.filterMap_nil, List.append_nil]
  | cons t ts ih =>
    have hrest := fun u hu => hts u (List.mem_cons_of_mem t hu)
    rw [linesFor_cons, ← List.append_assoc] at hruns ⊢
    have hfirst : Heard script (lines ++ (lineFor t).toList) (s.ask t).1 := by
      cases hline : lineFor t with
      | none =>
        rw [ask_of_lineFor_none hline, Option.toList_none, List.append_nil]
        exact h
      | some line =>
        have hnow : script.isOver lines.length = false := by
          refine hruns lines.length ?_
          simp only [hline, Option.toList_some, List.length_append, List.length_singleton]
          omega
        rw [← hline]
        exact h.ask (hts t List.mem_cons_self) hnow
    exact ih hfirst hrest hruns

end Session

end QueryEditor
