import QueryEditor.Display.View
import QueryEditor.Proofs.Console.Requests
import QueryEditor.Proofs.Interpreter.Acts
import QueryEditor.Proofs.Interpreter.Hearing
import QueryEditor.Proofs.Line.Normalized

/-!
# Texts on their way out

A text on its way to the interpreter is brought into plain punctuation by the view and once more by
the client, is looked at for blankness by the client and once more by the session, and is prepared
by the session. None of these steps undoes or repeats another one: the view makes no difference to
what the client queues, and what the client queues is sent.

* `Child.heard_prefix_hearAll`, `Session.length_heard_ask`: what is sent is heard;
* `Session.Sends`: a text is not skipped;
* `Client.PreparedOnce`, **`Client.preparedOnce`**: the steps agree.
-/

namespace QueryEditor

theorem Child.heard_prefix_hearAll (c : Child) (lines : List (List UInt8)) :
    c.heard <+: (c.hearAll lines).heard := by
  induction lines generalizing c with
  | nil => exact List.prefix_refl _
  | cons line lines ih =>
    cases hexit : c.exited.isSome with
    | true => rw [hearAll_of_exited hexit]
    | false =>
      have hfirst : c.heard <+: (c.hear line).1.heard := by
        rw [heard_hear hexit]
        exact List.prefix_append _ _
      exact hfirst.trans (ih (c.hear line).1)

namespace Session

variable {s : Session} {t r : Text}

theorem exists_sentFor (h : Request.prepare t = some r) :
    ∃ line lines, sentFor t = line :: lines := by
  refine List.exists_cons_of_ne_nil fun hnil => ?_
  have hsent : sentFor t = bytesByLine (Utf8.encode (r ++ ['\r', '\n'])) := by
    rw [sentFor, h, Option.map_some, Option.getD_some]
  have hbytes := flatten_bytesByLine (Utf8.encode (r ++ ['\r', '\n']))
  rw [← hsent, hnil] at hbytes
  have hnone := (Utf8.encode_eq_nil_iff _).1 hbytes.symm
  exact List.append_ne_nil_of_right_ne_nil r (List.cons_ne_nil _ _) hnone

/-- **What is sent is heard** by an interpreter that runs and keeps its input open. -/
theorem length_heard_ask (hhears : s.hears = true) (h : Request.prepare t = some r) :
    s.child.heard.length < (s.ask t).1.child.heard.length := by
  obtain ⟨line, lines, hsent⟩ := exists_sentFor h
  rcases s.ask_cases t with ⟨-, hnone, -⟩ | ⟨-, hdeaf, -⟩ | ⟨-, -, queue, answer, hask⟩
  · rw [hsent] at hnone
    cases hnone
  · exact absurd (hdeaf.symm.trans hhears) (by decide)
  · obtain ⟨taken, lost, -, hchild, -⟩ := exists_child_foldl (s.discard.writeLine line) lines
    have hfirst : (s.discard.writeLine line).child = (s.child.hear line).1 :=
      child_writeLine_of_hears (s := s.discard) hhears line
    have hafter : (s.ask t).1.child = (s.child.hear line).1.hearAll taken := by
      rw [hask, hsent, ← hfirst]
      exact hchild
    calc s.child.heard.length < (s.child.hear line).1.heard.length := by
          rw [Child.heard_hear (exited_of_hears hhears), List.length_append]
          exact Nat.lt_succ_self _
      _ ≤ (s.ask t).1.child.heard.length := by
          rw [hafter]
          exact ((s.child.hear line).1.heard_prefix_hearAll taken).length_le

/-- The session does not skip the text: an interpreter that hears hears of it, and for any other the
request fails. -/
structure Sends (s : Session) (t : Text) : Prop where
  heard : s.hears = true → s.child.heard.length < (s.ask t).1.child.heard.length
  failed : s.hears = false → (s.ask t).2 = .error (.transfer .brokenPipe)

theorem sends_of_prepare (h : Request.prepare t = some r) (s : Session) : s.Sends t where
  heard hhears := length_heard_ask hhears h
  failed hdeaf := by rw [ask_of_not_hears hdeaf (lineFor_of_prepare h)]

theorem ask_of_prepare (h : Request.prepare t = some r) (s : Session) : s.ask t = s.ask r := by
  rw [ask, ask, h, Request.prepare_of_prepare h]

end Session

namespace Client

/-- A text is prepared once and for all when it is handed to a client. -/
structure PreparedOnce (t : Text) : Prop where
  /-- It makes no difference that a view has brought the text into plain punctuation. -/
  outgoing : ∀ (c : Client) (v : View), v.text = t → c.execute v.outgoing = c.execute t
  refused : ∀ c : Client, (c.execute t).2 = none ↔ Request.prepare (normalize t) = none
  blank : Request.prepare (normalize t) = none ↔ t.isBlank = true
  unchanged : ∀ c : Client, (c.execute t).2 = none → (c.execute t).1 = c
  queued : ∀ (c : Client) (id : RequestId), (c.execute t).2 = some id →
    id = c.nextId ∧ (c.execute t).1.nextId = id + 1 ∧
      (c.session.isSome = true → (c.execute t).1.queue = c.queue ++ [.execute id (normalize t)])
  sent : ∀ (c : Client) (id : RequestId), (c.execute t).2 = some id →
    ∀ s : Session, s.Sends (normalize t)
  prepared : ∀ r, Request.prepare (normalize t) = some r →
    Request.IsPrepared t r ∧ ∀ s : Session, s.ask (normalize t) = s.ask r
  broken : Document.BrokenAlike ⟨normalize t⟩ ⟨t⟩

theorem prepare_normalize_eq_none_iff (t : Text) :
    Request.prepare (normalize t) = none ↔ t.isBlank = true := by
  rw [Request.prepare_eq_none_iff, isBlank_normalize]

theorem execute_cases (c : Client) (t : Text) :
    (t.isBlank = true ∧ c.execute t = (c, none)) ∨
    (t.isBlank = false ∧ c.execute t = (({ c with nextId := c.nextId + 1 } : Client).enqueue
      (some (.execute c.nextId (normalize t))), some c.nextId)) := by
  rw [← isBlank_normalize]
  cases hblank : (normalize t).isBlank with
  | true => exact .inl ⟨rfl, c.execute_blank t hblank⟩
  | false =>
    refine .inr ⟨rfl, ?_⟩
    rw [execute, if_neg (by simp [hblank]), sendNumbered, takeId]
    simp only [send_fst]

/-- **A text is prepared once and for all**, whatever it is: every look at it for blankness decides
alike, what is queued is sent, and preparing it again changes nothing. -/
theorem preparedOnce (t : Text) : PreparedOnce t where
  outgoing c v hv := by
    rw [View.outgoing, hv, execute, execute, normalize_normalize]
  refused c := by
    rw [prepare_normalize_eq_none_iff]
    rcases c.execute_cases t with ⟨hblank, he⟩ | ⟨hfilled, he⟩
    · exact iff_of_true (by rw [he]) hblank
    · exact iff_of_false (by rw [he]; exact Option.some_ne_none _) (Bool.eq_false_iff.1 hfilled)
  blank := prepare_normalize_eq_none_iff t
  unchanged c h := by
    rcases c.execute_cases t with ⟨-, he⟩ | ⟨-, he⟩
    · rw [he]
    · rw [he] at h
      cases h
  queued c id h := by
    rcases c.execute_cases t with ⟨-, he⟩ | ⟨-, he⟩
    · rw [he] at h
      cases h
    · rw [he] at h ⊢
      obtain rfl := Option.some.inj h
      unfold enqueue
      cases hopen : c.session.isSome with
      | true => exact ⟨rfl, rfl, fun _ => rfl⟩
      | false => exact ⟨rfl, rfl, fun h => absurd h Bool.false_ne_true⟩
  sent c id h s := by
    rcases c.execute_cases t with ⟨-, he⟩ | ⟨hfilled, -⟩
    · rw [he] at h
      cases h
    · obtain ⟨r, hr⟩ := Request.exists_prepare ((isBlank_normalize t).trans hfilled)
      exact Session.sends_of_prepare hr s
  prepared r h := ⟨Request.isPrepared_of_prepare h, Session.ask_of_prepare h⟩
  broken := Document.brokenAlike_normalize t

end Client

/-- A full-width semicolon in front of white space is the semicolon of the request. -/
example : Request.prepare (normalize " R ＜X＞ S； \n".toList) = some "R <X> S;".toList := by decide

end QueryEditor
