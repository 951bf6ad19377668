import QueryEditor.Interpreter.Client
import QueryEditor.Proofs.Console.Painted
import QueryEditor.Proofs.Data.Identifiers
import QueryEditor.Proofs.Data.Printed
import QueryEditor.Proofs.Interpreter.Alignment

/-!
# Tables that are listed

The interpreter answers `.tables` with a line for each table, which it may paint, and with remarks
between them. The lines come through splitting, cleaning, collecting and parsing with every table in
its place, and the remarks come to nothing.

* `IsRemark`, `Lists`: lines that list tables;
* `Lists.quiet`: no line has a prompt or a break in it;
* `Lists.forall_mem_kept`, `Lists.filterMap_kept`: the lines that are left after cleaning;
* `Session.ask_tables`: the answer of the interpreter;
* **`Client.work_listTables`**: the response to a request for the tables.
-/

namespace QueryEditor

open Noise Reading

/-- A line that is not about a table: printable ASCII without question marks, colons and prompts. -/
structure IsRemark (l : Text) : Prop where
  plain : IsPlain l
  colon : ':' ∉ l
  quiet : ¬ angles <:+: l

/-- The lines list the tables in order. The line of a table may be painted, and there may be remarks
anywhere. -/
inductive Lists : List Table → List Text → Prop where
  | nil : Lists [] []
  | table {t : Table} {blanks : Nat} {raw : Text} {ts : List Table} {lines : List Text} :
      t.IsNamed → Painted (t.line blanks) raw → Lists ts lines → Lists (t :: ts) (raw :: lines)
  | remark {l : Text} {ts : List Table} {lines : List Text} :
      IsRemark l → Lists ts lines → Lists ts (l :: lines)

/-! ## One line -/

namespace Table.IsNamed

variable {t : Table} {blanks : Nat} {raw : Text} (h : t.IsNamed)

include h

theorem unbroken_line (blanks : Nat) : Unbroken (t.line blanks) :=
  .of_isPlain (h.isPlain_line blanks)

theorem isPrompt_line (blanks : Nat) : isPrompt (t.line blanks) angles = false :=
  isPrompt_eq_false fun hpart =>
    h.not_mem_line (c := '>') (by decide) (by decide) blanks (hpart.subset (by decide))

theorem clean_painted (hraw : Painted (t.line blanks) raw) :
    clean angles raw = some (t.line blanks) := by
  rw [hraw.clean_eq (h.not_mem_line (by decide) (by decide) blanks) angles, h.clean_line]

theorem quiet_painted (hraw : Painted (t.line blanks) raw) :
    Unbroken raw ∧ ¬ angles <:+: raw := by
  have hmem : ∀ c, isInIdentifier c = false → c ∉ lineMarks → c.isDigit = false →
      c ∉ ['\x1b', '[', 'm', ';'] → c ∉ raw := fun c hin hmarks hdigit hpaint =>
    hraw.not_mem (h.not_mem_line hin hmarks blanks) hdigit hpaint
  have hangle : '>' ∉ raw := hmem '>' (by decide) (by decide) (by decide) (by decide)
  refine ⟨?_, fun hpart => hangle (hpart.subset (by decide))⟩
  rintro c hc (rfl | rfl)
  · exact hmem '\r' (by decide) (by decide) (by decide) (by decide) hc
  · exact hmem '\n' (by decide) (by decide) (by decide) (by decide) hc

theorem ne_nil_painted (hraw : Painted (t.line blanks) raw) : raw ≠ [] := by
  rintro rfl
  have hkept := h.clean_painted hraw
  obtain ⟨c, rest, -, hline⟩ := h.exists_line blanks
  rw [hline, clean_eq_some_iff angles (List.forall_mem_nil _)] at hkept
  exact List.cons_ne_nil c rest hkept.1

end Table.IsNamed

namespace IsRemark

variable {l : Text} (h : IsRemark l)

include h

theorem unbroken : Unbroken l := .of_isPlain h.plain

theorem ofLine?_eq : Table.ofLine? l = none := Table.ofLine?_of_colon_not_mem h.colon

theorem eq_of_clean {cleaned : Text} (hclean : clean angles l = some cleaned) : cleaned = l :=
  ((clean_eq_some_iff angles h.plain cleaned).1 hclean).1

end IsRemark

/-! ## All lines -/

/-- The lines that are left after splitting and cleaning. -/
def keptLines (lines : List Text) : List Text := (lines.filter (· ≠ [])).filterMap (clean angles)

theorem keptLines_nil_cons (lines : List Text) : keptLines ([] :: lines) = keptLines lines := by
  rw [keptLines, List.filter_cons_of_neg (by simp), keptLines]

theorem keptLines_cons {l : Text} (hl : l ≠ []) (lines : List Text) :
    keptLines (l :: lines) = (clean angles l).toList ++ keptLines lines := by
  rw [keptLines, List.filter_cons_of_pos (by simpa using hl), List.filterMap_cons, keptLines]
  cases clean angles l with
  | none => rfl
  | some cleaned => rfl

theorem keptLines_painted {t : Table} {blanks : Nat} {raw : Text} (h : t.IsNamed)
    (hraw : Painted (t.line blanks) raw) (lines : List Text) :
    keptLines (raw :: lines) = t.line blanks :: keptLines lines := by
  rw [keptLines_cons (h.ne_nil_painted hraw), h.clean_painted hraw]
  rfl

theorem keptLines_remark {l : Text} (h : IsRemark l) (lines : List Text) :
    keptLines (l :: lines) = keptLines lines ∨ keptLines (l :: lines) = l :: keptLines lines := by
  by_cases hnil : l = []
  · rw [hnil]
    exact .inl (keptLines_nil_cons lines)
  · rw [keptLines_cons hnil]
    cases hclean : clean angles l with
    | none => exact .inl rfl
    | some cleaned =>
      rw [h.eq_of_clean hclean]
      exact .inr rfl

namespace Lists

variable {ts : List Table} {lines : List Text}

theorem quiet (h : Lists ts lines) : ∀ l ∈ lines, Unbroken l ∧ ¬ angles <:+: l := by
  induction h with
  | nil => exact List.forall_mem_nil _
  | table hnamed hraw _ ih => exact List.forall_mem_cons.2 ⟨hnamed.quiet_painted hraw, ih⟩
  | remark hremark _ ih =>
    exact List.forall_mem_cons.2 ⟨⟨hremark.unbroken, hremark.quiet⟩, ih⟩

theorem forall_mem_kept (h : Lists ts lines) :
    ∀ l ∈ keptLines lines, Unbroken l ∧ isPrompt l angles = false := by
  induction h with
  | nil => exact List.forall_mem_nil _
  | @table t blanks raw ts lines hnamed hraw _ ih =>
    rw [keptLines_painted hnamed hraw]
    exact List.forall_mem_cons.2 ⟨⟨hnamed.unbroken_line blanks, hnamed.isPrompt_line blanks⟩, ih⟩
  | @remark l ts lines hremark _ ih =>
    rcases keptLines_remark hremark lines with hkept | hkept
    · rw [hkept]
      exact ih
    · rw [hkept]
      exact List.forall_mem_cons.2 ⟨⟨hremark.unbroken, isPrompt_eq_false hremark.quiet⟩, ih⟩

/-- **What is left lists the tables.** -/
theorem filterMap_kept (h : Lists ts lines) : (keptLines lines).filterMap Table.ofLine? = ts := by
  induction h with
  | nil => rfl
  | @table t blanks raw ts lines hnamed hraw _ ih =>
    rw [keptLines_painted hnamed hraw,
      List.filterMap_cons_some (Table.ofLine?_line hnamed.isListable blanks), ih]
  | @remark l ts lines hremark _ ih =>
    rcases keptLines_remark hremark lines with hkept | hkept
    · rw [hkept, ih]
    · rw [hkept, List.filterMap_cons_none hremark.ofLine?_eq, ih]

theorem listed_answer (h : Lists ts lines) (blanks : Nat) :
    Table.listed (⟨keptLines lines, blanks⟩ : Screen).answer = ts := by
  rw [Screen.answer]
  by_cases hnil : keptLines lines = []
  · have hts := h.filterMap_kept
    rw [hnil] at hts
    rw [if_pos hnil, ← hts]
    rfl
  · rw [if_neg hnil, Table.listed_joinWith fun l hl => (h.forall_mem_kept l hl).1,
      h.filterMap_kept]

end Lists

/-! ## The answer -/

def tablesLine : List UInt8 := Utf8.encode (Request.tablesCommand ++ ['\r', '\n'])

/-- What is shown in answer to a request: a prompt, the lines, and a prompt with blanks behind. -/
def shownTo (lines : List Text) (blanks : Nat) : Text :=
  angles ++ (⟨lines, blanks⟩ : Screen).text angles

theorem Lists.collect {ts : List Table} {lines : List Text} (h : Lists ts lines) {waiting : Text}
    (hopens : Opens angles waiting) (blanks : Nat) (rest : List Text) :
    (Response.start.collect angles
      (((readAll angles waiting (shownTo lines blanks)).2.map Report.line).filterMap
        (clean angles) ++ rest)).1.text = (⟨keptLines lines, 0⟩ : Screen).answer := by
  have hclear := Session.isClear_angles
  obtain ⟨seen, hseen, hlines⟩ := hclear.clean_opened hopens (s := ⟨lines, blanks⟩) h.quiet
  rw [shownTo, hlines]
  exact collect_between hclear.isPrompt_self hseen (fun l hl => (h.forall_mem_kept l hl).2) rest

namespace Session

/-- The interpreter runs, nothing is late or closed, and the next reply shows the lines in answer to
a request for the tables, behind a text that lets the prompt be read. -/
structure Shows (s : Session) (r : Reply) (lines : List Text) (blanks : Nat) : Prop where
  prompt : s.prompt = angles
  runs : s.child.exited = none
  keeps : s.link.Keeps
  next : s.child.replies.head? = some r
  waiting : ∃ waiting, s.splitter r.stream = holding angles (Utf8.encode waiting) ∧
    Opens angles waiting
  written : r.written tablesLine = Utf8.encode (shownTo lines blanks)

variable {s : Session} {r : Reply} {ts : List Table} {lines : List Text} {blanks : Nat}

/-- **The answer to a request for the tables.** -/
theorem ask_tables (h : s.Shows r lines blanks) (hlists : Lists ts lines) :
    (s.ask Request.tablesCommand).2 = .ok (⟨keptLines lines, 0⟩ : Screen).answer := by
  obtain ⟨waiting, hwaiting, hopens⟩ := h.waiting
  have hruns : s.child.exited.isSome = false := by rw [h.runs]; rfl
  have hline : lineFor Request.tablesCommand = some tablesLine := rfl
  obtain ⟨rest, hanswer⟩ := ask_reply h.prompt h.keeps hruns (by decide) hline h.next hwaiting
    h.written
  rw [hanswer, hlists.collect hopens]

theorem answer_pushChunks (h : s.Shows r lines blanks) (hlists : Lists ts lines)
    {chunks : List (List UInt8)} (hchunks : chunks.flatten = Utf8.encode (shownTo lines blanks)) :
    (({ s with queue := [] } : Session).pushChunks r.stream chunks).answer.2 =
      (⟨keptLines lines, 0⟩ : Screen).answer := by
  obtain ⟨waiting, hwaiting, hopens⟩ := h.waiting
  have hsplitter : ({ s with queue := [] } : Session).splitter r.stream =
      holding angles (Utf8.encode waiting) := by
    rw [← hwaiting]
    cases r.stream <;> rfl
  have hcollect := hlists.collect hopens blanks []
  rw [pushChunks_eq, hchunks, answer_snd, prompt_push, queue_push, hsplitter, push_holding]
  simp only [h.prompt, List.nil_append]
  rwa [List.append_nil] at hcollect

end Session

/-! ## The response -/

namespace Client

/-- **The tables are listed end to end**: a request for the tables is answered by the tables that
the interpreter listed, in their order, and so is the reply in whatever chunks it arrives. Without
lines there is no output, and there are no tables. -/
theorem work_listTables (host : Host) {c : Client} {s : Session} {id : RequestId}
    {queue : List Request} (hsession : c.session = some s) (hrunning : c.running = true)
    (hqueue : c.queue = .listTables id :: queue) {r : Reply} {lines : List Text} {blanks : Nat}
    (hshows : s.Shows r lines blanks) {ts : List Table} (hlists : Lists ts lines) :
    (c.work host).responses = c.responses ++ [⟨id, .tables ts⟩] ∧
      (lines = [] → (s.ask QueryEditor.Request.tablesCommand).2 = .ok noOutput) ∧
      ∀ chunks : List (List UInt8), chunks.flatten = Utf8.encode (shownTo lines blanks) →
        Table.listed
          (({ s with queue := [] } : Session).pushChunks r.stream chunks).answer.2 = ts := by
  have hanswer := Session.ask_tables hshows hlists
  refine ⟨?_, ?_, fun chunks hchunks => ?_⟩
  · simp only [work, hsession, hrunning, hqueue, if_true, handle, respond, hanswer,
      Result.ofExcept, hlists.listed_answer]
  · rintro rfl
    exact hanswer
  · rw [Session.answer_pushChunks hshows hlists hchunks, hlists.listed_answer]

/-- The painted line of a table with attributes, a count, and the line of a table without any; the
first line is what an empty line behind the prompt comes to. -/
def paintedListing : List Text :=
  [[], '\x1b' :: '[' :: ("1;31".toList ++ 'm' :: 'R' :: '\x1b' :: '[' ::
      ("0".toList ++ 'm' :: " : \x7b a, b_2 \x7d".toList)),
    "2 tables".toList, "_S : \x7b\x7d".toList]

theorem lists_paintedListing :
    Lists [⟨['R'], [['a'], "b_2".toList]⟩, ⟨"_S".toList, []⟩] paintedListing := by
  have hpainted : Painted (Table.line ⟨['R'], [['a'], "b_2".toList]⟩ 0)
      ('\x1b' :: '[' :: ("1;31".toList ++ 'm' :: 'R' :: '\x1b' :: '[' ::
        ("0".toList ++ 'm' :: " : \x7b a, b_2 \x7d".toList))) :=
    .paint (by decide) (.char 'R' (.paint (by decide) (.refl " : \x7b a, b_2 \x7d".toList)))
  have hplain : Painted (Table.line ⟨"_S".toList, []⟩ 0) "_S : \x7b\x7d".toList := .refl _
  have hempty : IsRemark [] := ⟨by decide, by decide, by decide⟩
  have hcount : IsRemark "2 tables".toList :=
    ⟨by decide, by decide, fun h => absurd (h.subset (by decide : '>' ∈ angles)) (by decide)⟩
  exact .remark hempty (.table ⟨by decide, by decide⟩ hpainted
    (.remark hcount (.table ⟨by decide, by decide⟩ hplain .nil)))

def listingReply : Reply :=
  ⟨fun _ => Utf8.encode (shownTo paintedListing 1), .output, none⟩

def listingSession : Session where
  prompt := angles
  child := ⟨[listingReply], none, []⟩
  output := holding angles (Utf8.encode (List.replicate 1 ' '))
  errors := .start angles
  queue := []

theorem listingSession_shows : listingSession.Shows listingReply paintedListing 1 where
  prompt := rfl
  runs := rfl
  keeps := Link.keeps_default
  next := rfl
  waiting := ⟨_, by rw [listingReply]; rfl, Session.isClear_angles.opens_blanks 1⟩
  written := by rw [listingReply]

def listingClient : Client := ⟨some listingSession, 2, [.listTables 1], [], [.ready], true⟩

theorem work_listTables_painted :
    listingSession.Shows listingReply paintedListing 1 ∧
      Lists [⟨['R'], [['a'], "b_2".toList]⟩, ⟨"_S".toList, []⟩] paintedListing ∧
      (listingClient.work Session.emptyHost).responses =
        [⟨1, .tables [⟨['R'], [['a'], "b_2".toList]⟩, ⟨"_S".toList, []⟩]⟩] := by
  obtain ⟨hresponses, -, -⟩ := work_listTables Session.emptyHost (c := listingClient) rfl rfl rfl
    listingSession_shows lists_paintedListing
  exact ⟨listingSession_shows, lists_paintedListing, hresponses⟩

end Client

end QueryEditor
