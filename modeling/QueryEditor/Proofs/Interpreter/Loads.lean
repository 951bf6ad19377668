import Mathlib
import QueryEditor.Proofs.Interpreter.Hearing
import QueryEditor.Proofs.Json.Accepted

/-!
# Loading a database

A database is loaded by two requests, one to forget and one to load, and by reading its file. A file
that is missing, or whose full path cannot be told, is refused before anything is asked, so such a
call is as good as none. Otherwise both requests are sent, whatever becomes of the first one; the
answer is that of the second one, and the tables are those that the file has then.

* `Call.refused?`, **`Session.calls_eq`**: calls for files that are refused;
* `Session.loadThrough`: loading by any taker of requests, `Entry.Describes`: the tables of a file;
* `Session.exists_heard_load`: what is heard of both requests;
* **`Session.loads`**: what loading sends and what it answers.
-/

namespace QueryEditor

theorem Request.prepare_of_dot (r : Text) :
    prepare ('.' :: r) = some (Text.trim ('.' :: r)) := by
  have hblank : ¬ Text.isBlank ('.' :: r) = true := by
    rw [Text.isBlank_iff_forall]
    exact fun h => absurd (h '.' List.mem_cons_self) (by decide)
  have hne : Text.trim ('.' :: r) ≠ [] := mt (Text.isBlank_iff _).2 hblank
  have hhead : (Text.trim ('.' :: r)).head? = some '.' := by
    have hprefix : Text.trim ('.' :: r) <+: '.' :: r := Text.trimEnd_isPrefix ('.' :: r)
    obtain ⟨c, rest, hcons⟩ := List.exists_cons_of_ne_nil hne
    rw [hcons] at hprefix ⊢
    rw [(List.cons_prefix_cons.1 hprefix).1]
    rfl
  exact prepare_eq_some_iff.2 ⟨hne, .inl ⟨.inl hhead, rfl⟩⟩

/-! ## Calls that are refused -/

/-- What a call gives whose file is refused. -/
def Call.refused? (host : Host) : Call → Option CallResult
  | .query _ => none
  | .load path =>
    match Session.existingFile host path with
    | .error failure => some (.loaded (.error failure))
    | .ok _ => none
  | .add _ _ path =>
    match Session.existingFile host path with
    | .error failure => some (.answered (.error failure))
    | .ok _ => none

namespace Session

variable {host : Host} {s : Session}

theorem existingFile_of_find_error {path : Text} {cause : SystemFailure}
    (h : host.find path = .error cause) : existingFile host path = .error (.missingFile path) := by
  rw [existingFile, h]

theorem existingFile_of_path_error {path : Text} {e : Entry} {cause : SystemFailure}
    (h : host.find path = .ok e) (hpath : e.path = .error cause) :
    existingFile host path = .error (.transfer cause) := by
  simp only [existingFile, h, hpath]

theorem existingFile_of_ok {path full : Text} {e : Entry} (h : host.find path = .ok e)
    (hpath : e.path = .ok full) : existingFile host path = .ok (e, full) := by
  simp only [existingFile, h, hpath]

theorem load_of_refused {path : Text} {failure : Failure}
    (h : existingFile host path = .error failure) (s : Session) :
    s.loadDatabase host path = (s, .error failure) ∧
      ∀ table attributes, s.addTable host table attributes path = (s, .error failure) :=
  ⟨by rw [loadDatabase, h], fun table attributes => by rw [addTable, h]⟩

theorem call_of_refused {c : Call} {r : CallResult} (h : c.refused? host = some r) :
    s.call host c = (s, r) := by
  cases c with
  | query t => cases h
  | load path =>
    cases hfile : existingFile host path with
    | error failure =>
      simp only [Call.refused?, hfile, Option.some.injEq] at h
      rw [call, (load_of_refused hfile s).1, ← h]
    | ok file =>
      simp only [Call.refused?, hfile] at h
      cases h
  | add table attributes path =>
    cases hfile : existingFile host path with
    | error failure =>
      simp only [Call.refused?, hfile, Option.some.injEq] at h
      rw [call, (load_of_refused hfile s).2, ← h]
    | ok file =>
      simp only [Call.refused?, hfile] at h
      cases h

/-- **Calls whose files are refused could as well be left out**: the others give what they
give without them, and the session is the same in the end. -/
theorem calls_eq (host : Host) (s : Session) (cs : List Call) :
    let found := cs.filter fun c => (c.refused? host).isNone
    let given := cs.zip (s.calls host cs).2
    (s.calls host cs).1 = (s.calls host found).1 ∧ given.map Prod.fst = cs ∧
      given.filter (fun x => (x.1.refused? host).isNone) = found.zip (s.calls host found).2 ∧
      ∀ x ∈ given, ∀ r ∈ x.1.refused? host, x.2 = r := by
  induction cs generalizing s with
  | nil => exact ⟨rfl, rfl, rfl, fun x hx => absurd hx List.not_mem_nil⟩
  | cons c cs ih =>
    obtain ⟨hstate, hcalls, hgiven, hrefused⟩ := ih (s.call host c).1
    cases hc : c.refused? host with
    | some r =>
      rw [call_of_refused hc] at hstate hcalls hgiven hrefused
      have hrun : s.calls host (c :: cs) = ((s.calls host cs).1, r :: (s.calls host cs).2) := by
        rw [calls, call_of_refused hc]
      rw [hrun, List.filter_cons_of_neg (by simp [hc])]
      refine ⟨hstate, congrArg (c :: ·) hcalls, ?_, ?_⟩
      · rw [List.zip_cons_cons, List.filter_cons_of_neg (by simp [hc])]
        exact hgiven
      · rw [List.zip_cons_cons, List.forall_mem_cons]
        exact ⟨fun r' hr' => Option.some.inj (hc.symm.trans hr'), hrefused⟩
    | none =>
      have hrun : ∀ cs, s.calls host (c :: cs) = (((s.call host c).1.calls host cs).1,
          (s.call host c).2 :: ((s.call host c).1.calls host cs).2) := fun _ => rfl
      dsimp only
      rw [hrun, List.filter_cons_of_pos (by simp [hc]), hrun]
      refine ⟨hstate, congrArg (c :: ·) hcalls, ?_, ?_⟩
      · rw [List.zip_cons_cons, List.filter_cons_of_pos (by simp [hc]), hgiven, List.zip_cons_cons]
      · rw [List.zip_cons_cons, List.forall_mem_cons]
        exact ⟨fun r' hr' => absurd (hc.symm.trans hr') (Option.some_ne_none r').symm, hrefused⟩

end Session

/-! ## Both requests -/

theorem mapError_eq_ok_iff {ε ε' α : Type} (f : ε → ε') (x : Except ε α) (a : α) :
    x.mapError f = .ok a ↔ x = .ok a := by
  cases x with
  | error e => exact iff_of_false (fun h => nomatch h) fun h => nomatch h
  | ok b => exact ⟨fun h => congrArg _ (Except.ok.inj h), fun h => congrArg _ (Except.ok.inj h)⟩

/-- Once some lines are heard the file is text, the text is JSON, and these are the tables that it
describes. -/
def Entry.Describes (e : Entry) (heard : List (List UInt8)) (tables : List Table) : Prop :=
  ∃ bytes text v, e.content heard = .ok bytes ∧ Utf8.decode? bytes = some text ∧
    Json.parse text = .ok v ∧ tables = Database.tables v

variable {heard : List (List UInt8)}

theorem Entry.text_eq_ok_iff (e : Entry) (t : Text) :
    e.text heard = .ok t ↔ ∃ bytes, e.content heard = .ok bytes ∧ Utf8.decode? bytes = some t := by
  rw [Entry.text, bind_eq_ok_iff]
  refine exists_congr fun bytes => and_congr_right fun _ => ?_
  cases Utf8.decode? bytes with
  | none => exact iff_of_false (fun h => nomatch h) fun h => nomatch h
  | some t' =>
    exact ⟨fun h => congrArg _ (Except.ok.inj h), fun h => congrArg _ (Option.some.inj h)⟩

theorem Entry.describes_iff (e : Entry) (tables : List Table) : e.Describes heard tables ↔
    ∃ text, e.text heard = .ok text ∧ Database.parse text = .ok tables := by
  have hparse : ∀ text, Database.parse text = .ok tables ↔
      ∃ v, Json.parse text = .ok v ∧ tables = Database.tables v := by
    intro text
    rw [Database.parse]
    cases Json.parse text with
    | error fault => exact iff_of_false (fun h => nomatch h) fun ⟨_, h, _⟩ => nomatch h
    | ok v =>
      constructor
      · exact fun h => ⟨v, rfl, (Except.ok.inj h).symm⟩
      · rintro ⟨v', hv, rfl⟩
        rw [Except.ok.inj hv]
        rfl
  simp only [hparse, text_eq_ok_iff, Describes]
  constructor
  · rintro ⟨bytes, text, v, hcontent, hdecode, hv, htables⟩
    exact ⟨text, ⟨bytes, hcontent, hdecode⟩, v, hv, htables⟩
  · rintro ⟨text, ⟨bytes, hcontent, hdecode⟩, v, hv, htables⟩
    exact ⟨bytes, text, v, hcontent, hdecode, hv, htables⟩

namespace Session

/-- Load a database file by any taker of requests, of which the lines are known that an interpreter
has heard. -/
def loadThrough {σ : Type} (ask : σ → Text → σ × Except Failure Text)
    (heard : σ → List (List UInt8)) (host : Host) (x : σ) (path : Text) :
    σ × Except Failure Loaded :=
  match existingFile host path with
  | .error failure => (x, .error failure)
  | .ok (e, full) =>
    let (x, _) := ask x Request.resetCommand
    let (x, result) := ask x (Request.loadCommand full)
    (x, do
      let output ← result
      let text ← (e.text (heard x)).mapError .transfer
      let tables ← (Database.parse text).mapError .database
      return { output, tables })

theorem loadDatabase_eq (host : Host) (s : Session) (path : Text) :
    s.loadDatabase host path = loadThrough ask (fun s => s.child.heard) host s path := rfl

/-- **Only the second answer counts**: the first request is sent and its answer is dropped, whether
it is one or a failure. -/
theorem loadThrough_eq {σ : Type} (ask : σ → Text → σ × Except Failure Text)
    (heard : σ → List (List UInt8)) {host : Host} {path full : Text} {e : Entry}
    (h : host.find path = .ok e) (hpath : e.path = .ok full) (x : σ) :
    let asked := ask (ask x ".reset".toList).1 (".load ".toList ++ full)
    (loadThrough ask heard host x path).1 = asked.1 ∧
      ∀ d, (loadThrough ask heard host x path).2 = .ok d ↔
        asked.2 = .ok d.output ∧ e.Describes (heard asked.1) d.tables := by
  intro asked
  have hthrough : loadThrough ask heard host x path = (asked.1, do
      let output ← asked.2
      let text ← (e.text (heard asked.1)).mapError Failure.transfer
      let tables ← (Database.parse text).mapError Failure.database
      return { output, tables }) := by
    rw [loadThrough, existingFile_of_ok h hpath]
    rfl
  rw [hthrough]
  refine ⟨rfl, fun d => ?_⟩
  simp only [bind_eq_ok_iff, mapError_eq_ok_iff, e.describes_iff]
  constructor
  · rintro ⟨output, houtput, text, htext, tables, htables, hd⟩
    obtain rfl := Except.ok.inj hd
    exact ⟨houtput, text, htext, htables⟩
  · rintro ⟨houtput, text, htext, htables⟩
    exact ⟨_, houtput, text, htext, _, htables, rfl⟩

/-! ## What is heard -/

theorem flatten_sentFor_dot (r : Text) : (sentFor ('.' :: r)).flatten =
    Utf8.encode (Text.trim ('.' :: r) ++ ['\r', '\n']) := by
  rw [sentFor, Request.prepare_of_dot]
  exact flatten_bytesByLine _

/-- What is heard of one request is in front of what is heard of the next one, and of that nothing
is heard behind a line that was lost. -/
theorem exists_heard_load (s : Session) (t u : Text) :
    let asked := ((s.ask t).1.ask u).1
    ∃ lost, asked.child.heard ++ lost = s.child.heard ++ (sentFor t ++ sentFor u) ∧
      (asked.hears = true → lost = []) := by
  intro asked
  obtain ⟨lost, hlost, hnone⟩ := exists_heard_ask s t
  obtain ⟨lost', hlost', hnone'⟩ := exists_heard_ask (s.ask t).1 u
  cases hhears : (s.ask t).1.hears with
  | true =>
    rw [hnone hhears, List.append_nil] at hlost
    exact ⟨lost', by rw [hlost', hlost, List.append_assoc], hnone'⟩
  | false =>
    have hdeaf : asked.hears ≠ true := fun h => by
      rw [hears_of_hears_ask h] at hhears
      cases hhears
    have hsame : asked.child = (s.ask t).1.child := child_ask_of_deaf hhears u
    refine ⟨lost ++ sentFor u, ?_, fun h => absurd h hdeaf⟩
    rw [hsame, ← List.append_assoc, hlost, List.append_assoc]

/-! ## Loading -/

/-- **What loading sends and what it answers.** A file that is not found, or whose full path cannot
be told, is refused at once: the session stays as it is, so in any calls those that are refused
could as well be left out. For any other file the request to forget is sent and then the one to
load, and nothing else; of these lines the interpreter hears all, or those up to the one behind
which it stops to hear. Loading gives the answer to the second request with the tables of the file,
just when there is such an answer and the file is then a text that is JSON. What became of the first
request makes no difference to that, also where a request can fail for any other reason; in a
session the second one is answered just when the interpreter still hears behind the first one. -/
theorem loads (host : Host) :
    (∀ path cause, host.find path = .error cause → ∀ s : Session,
      s.loadDatabase host path = (s, .error (.missingFile path)) ∧
        ∀ table attributes,
          s.addTable host table attributes path = (s, .error (.missingFile path))) ∧
    (∀ path e cause, host.find path = .ok e → e.path = .error cause → ∀ s : Session,
      s.loadDatabase host path = (s, .error (.transfer cause)) ∧
        ∀ table attributes,
          s.addTable host table attributes path = (s, .error (.transfer cause))) ∧
    (∀ (s : Session) (cs : List Call),
      let found := cs.filter fun c => (c.refused? host).isNone
      let given := cs.zip (s.calls host cs).2
      (s.calls host cs).1 = (s.calls host found).1 ∧ given.map Prod.fst = cs ∧
        given.filter (fun x => (x.1.refused? host).isNone) = found.zip (s.calls host found).2 ∧
        ∀ x ∈ given, ∀ r ∈ x.1.refused? host, x.2 = r) ∧
    ∀ path e full, host.find path = .ok e → e.path = .ok full →
      (∀ s : Session,
        let reset := ".reset".toList
        let load := ".load ".toList ++ full
        let sent := sentFor reset ++ sentFor load
        let between := (s.ask reset).1
        let asked := between.ask load
        let loaded := s.loadDatabase host path
        sent.flatten = Utf8.encode (reset ++ ['\r', '\n']) ++
            Utf8.encode (Text.trim load ++ ['\r', '\n']) ∧
          loaded.1 = asked.1 ∧
          (s.link.Listens → loaded.1.child = s.child.hearAll sent) ∧
          (∃ lost, loaded.1.child.heard ++ lost = s.child.heard ++ sent ∧
            (loaded.1.hears = true → lost = [])) ∧
          (∀ d, loaded.2 = .ok d ↔
            asked.2 = .ok d.output ∧ e.Describes loaded.1.child.heard d.tables) ∧
          ((∃ output, asked.2 = .ok output) ↔ between.hears = true)) ∧
      (∀ s : Session,
        s.loadDatabase host path = loadThrough ask (fun s => s.child.heard) host s path) ∧
      ∀ (σ : Type) (ask : σ → Text → σ × Except Failure Text) (heard : σ → List (List UInt8))
        (x : σ),
        let asked := ask (ask x ".reset".toList).1 (".load ".toList ++ full)
        (loadThrough ask heard host x path).1 = asked.1 ∧
          ∀ d, (loadThrough ask heard host x path).2 = .ok d ↔
            asked.2 = .ok d.output ∧ e.Describes (heard asked.1) d.tables := by
  refine ⟨fun path cause h => load_of_refused (existingFile_of_find_error h),
    fun path e cause h hpath => load_of_refused (existingFile_of_path_error h hpath),
    calls_eq host, fun path e full h hpath => ⟨fun s => ?_, fun s => loadDatabase_eq host s path,
      fun σ ask heard x => loadThrough_eq ask heard h hpath x⟩⟩
  intro reset load sent between asked loaded
  obtain ⟨hstate, hresult⟩ := loadThrough_eq Session.ask (fun s => s.child.heard) h hpath s
  rw [← loadDatabase_eq] at hstate hresult
  replace hstate : loaded.1 = asked.1 := hstate
  refine ⟨?_, hstate, fun hlistens => ?_, ?_, fun d => ?_, exists_ask_eq_ok_iff rfl⟩
  · rw [List.flatten_append]
    exact congrArg₂ (· ++ ·) (flatten_sentFor_dot _) (flatten_sentFor_dot _)
  · have hbetween : between.link.Listens := by rw [link_ask]; exact hlistens
    rw [hstate, Child.hearAll_append, ← child_ask_of_listens hlistens]
    exact child_ask_of_listens hbetween load
  · rw [hstate]
    exact exists_heard_load s reset load
  · rw [hstate]
    exact hresult d

def oneTable : Text :=
  "\x7b\"tables\":\x7b\"R\":\x7b\"attributes\":\x7b\"a\":null\x7d\x7d\x7d\x7d".toList

/-- A host with that database as its one file, and a file whose full path cannot be told. -/
def oneFileHost : Host where
  find name :=
    if name = ['d'] then .ok ⟨.ok "/d".toList, fun _ => .ok (Utf8.encode oneTable)⟩
    else if name = ['x'] then .ok ⟨.error .permissionDenied, fun _ => .error .permissionDenied⟩
    else .error .notFound
  launch _ := .error .notFound
  preset := []

def printing : Session :=
  start ">>>".toList ⟨Utf8.encode ">>>".toList, .output, none,
    [⟨fun _ => Utf8.encode ">>>\nx\n>>>".toList, .output, none⟩]⟩

def oneTableValue : Json.Value :=
  .object [("tables".toList, .object [(['R'], .object [("attributes".toList,
    .object [(['a'], .null)])])])]

theorem loads_oneFile :
    (printing.loadDatabase oneFileHost ['d']).2 = .ok ⟨['x'], [⟨['R'], [['a']]⟩]⟩ ∧
      printing.loadDatabase oneFileHost ['e'] = (printing, .error (.missingFile ['e'])) ∧
      printing.loadDatabase oneFileHost ['x'] =
        (printing, .error (.transfer .permissionDenied)) := by
  have hdecode : Utf8.decode? (Utf8.encode oneTable) = some oneTable := by decide +kernel
  have hparse : Json.parse oneTable = .ok oneTableValue := by cbv
  obtain ⟨hmissing, huntold, -, hfound⟩ := loads oneFileHost
  obtain ⟨-, -, -, -, hresult, -⟩ := (hfound ['d'] _ _ rfl rfl).1 printing
  refine ⟨(hresult _).2 ⟨by cbv, ?_⟩, (hmissing ['e'] _ rfl printing).1,
    (huntold ['x'] _ _ rfl rfl printing).1⟩
  exact ⟨_, _, oneTableValue, rfl, hdecode, hparse, by decide⟩

end Session

end QueryEditor
