import QueryEditor.Proofs.View.Attended

/-!
# The tenures of a mount

From its opening to its end a view has the mount for itself. All that it does and tells follows from
what it was opened on and from the actions on it: nothing of an earlier view is left, and nothing is
told behind the end. So the steps of a mount say which tenures there were, and its views and
listeners are compared with what each tenure comes to by itself.

* `Tenure`: a view by itself, `Tenures`: those that have ended, and the present one;
* `Attended.Agrees`: the mount is as its tenures say, `Attended.agrees_step`: so it is after a step;
* `Attended.told_step`: what a step tells, `Attended.unmount_eq`: the end of a tenure;
* **`Attended.run_tenures`**: what holds after every run of steps, and behind the end.
-/

namespace QueryEditor

/-! ## Tenures -/

/-- A view by itself: what it was opened on and with, and what was done with it. -/
structure Tenure where
  settings : Settings
  value : Text
  listener : Option Listener
  actions : List View.Action
  deriving DecidableEq, Repr

namespace Tenure

def run (t : Tenure) : View × List View.Answer :=
  (View.ofText t.settings t.value t.listener).run t.actions

def view (t : Tenure) : View := t.run.1

def notices (t : Tenure) : List Notice := t.run.2.flatMap View.Answer.notices

/-- The listener of the view, which was told what the view tells. -/
def hearer? (t : Tenure) (alive : Bool) : Option Hearer :=
  t.listener.map fun l => ⟨l, alive, t.notices⟩

def act (t : Tenure) (a : View.Action) : Tenure := { t with actions := t.actions ++ [a] }

end Tenure

/-- The tenures of steps: those that have ended, in order, and the present one. -/
structure Tenures where
  ended : List Tenure
  present : Option Tenure
  deriving DecidableEq, Repr

namespace Tenures

def step (ts : Tenures) : Mount.Step → Tenures
  | .mount settings value listener =>
    ⟨ts.ended ++ ts.present.toList, some ⟨settings, value, listener, []⟩⟩
  | .unmount => ⟨ts.ended ++ ts.present.toList, none⟩
  | .act a => { ts with present := ts.present.map (·.act a) }

/-- The tenures of steps from the first one on. -/
def of (steps : List Mount.Step) : Tenures := steps.foldl step ⟨[], none⟩

/-- The listeners of the tenures, of which the one of the present tenure is alive. -/
def hearers (ts : Tenures) : List Hearer :=
  ts.ended.filterMap (·.hearer? false) ++ (ts.present.bind (·.hearer? true)).toList

end Tenures

namespace Tenure

variable (t : Tenure) (a : View.Action)

theorem view_act : (t.act a).view = (t.view.act a).1 := by
  rw [view, run, act, View.run_concat]
  rfl

theorem notices_act : (t.act a).notices = t.notices ++ (t.view.act a).2.notices := by
  rw [notices, run, act, View.run_concat, List.flatMap_append, List.flatMap_singleton]
  rfl

theorem hearer?_act (alive : Bool) : (t.act a).hearer? alive =
    (t.hearer? alive).map (Hearer.tell (t.view.act a).2.notices) := by
  rw [hearer?, notices_act, hearer?, Option.map_map]
  rfl

theorem hearer?_release : (t.hearer? true).map Hearer.release = t.hearer? false := by
  rw [hearer?, Option.map_map]
  rfl

theorem listener_view : t.view.live.listener = t.listener :=
  View.run_induction (P := fun v => v.live.listener = t.listener)
    (fun v a h => (v.listener_act a).trans h) rfl t.actions

/-- What a view tells is told to its listener, if it has one, and else it tells nothing. -/
theorem told_hearer? (alive : Bool) :
    (t.hearer? alive).toList.flatMap Hearer.told = t.notices := by
  cases hlistener : t.listener with
  | some l => simp [hearer?, hlistener]
  | none =>
    have hquiet : t.notices = [] := by
      refine List.eq_nil_iff_forall_not_mem.2 fun n hn => ?_
      obtain ⟨l, hl, -⟩ := View.exists_listener_of_mem_run hn
      exact absurd (hl.symm.trans hlistener) (Option.some_ne_none l)
    simp [hearer?, hlistener, hquiet]

end Tenure

namespace Attended

open Mount (Step Result)

/-! ## The mount is as its tenures say -/

/-- The open view is that of the present tenure, the others were closed with the text that they
came to, and every listener was told what its own tenure tells. -/
structure Agrees (x : Attended) (ts : Tenures) : Prop where
  view : x.mount.view = ts.present.map Tenure.view
  held : x.held = (ts.present.bind Tenure.listener).map fun _ =>
    (ts.ended.filterMap (·.hearer? false)).length
  hearers : x.hearers = ts.hearers
  closed : x.closed = ts.ended.map fun t => t.view.text

variable {x : Attended} {ts : Tenures}

theorem agrees_empty : empty.Agrees (.of []) := ⟨rfl, rfl, rfl, rfl⟩

theorem modify_concat {α : Type} (l : List α) (a : α) (f : α → α) :
    (l ++ [a]).modify l.length f = l ++ [f a] := by
  induction l with
  | nil => rfl
  | cons b l ih => simp [ih]

theorem Agrees.hearers_atHeld (h : x.Agrees ts) (f : Hearer → Hearer) :
    (x.atHeld f).hearers = ts.ended.filterMap (·.hearer? false) ++
      ((ts.present.bind (·.hearer? true)).map f).toList := by
  have hheld := h.held
  have hhearers := h.hearers
  rw [atHeld]
  cases hpresent : ts.present with
  | none =>
    rw [hpresent] at hheld
    simp [hheld, hhearers, Tenures.hearers, hpresent]
  | some t =>
    rw [hpresent] at hheld
    cases hlistener : t.listener with
    | none => simp [hheld, hhearers, Tenures.hearers, hpresent, Tenure.hearer?, hlistener]
    | some l =>
      simp [hheld, hhearers, Tenures.hearers, hpresent, Tenure.hearer?, hlistener, modify_concat]

theorem agrees_unmount (h : x.Agrees ts) : x.unmount.1.Agrees (ts.step .unmount) := by
  have hhearers : x.unmount.1.hearers = (x.atHeld Hearer.release).hearers := rfl
  have hclosed : x.unmount.1.closed = x.closed ++ (x.mount.view.map View.close).toList := rfl
  refine ⟨rfl, rfl, ?_, ?_⟩
  · rw [hhearers, h.hearers_atHeld, Tenures.hearers, Tenures.step, List.filterMap_append]
    cases ts.present with
    | none => simp
    | some t =>
      cases hhearer : t.hearer? false <;>
        simp [Tenure.hearer?_release, hhearer]
  · rw [hclosed, h.closed, h.view, Tenures.step, List.map_append]
    cases ts.present with
    | none => rfl
    | some t => rfl

theorem agrees_remount (h : x.Agrees ts) (settings : Settings) (value : Text)
    (listener : Option Listener) : (x.remount settings value listener).Agrees
      (ts.step (.mount settings value listener)) := by
  have hunmount := agrees_unmount h
  have hended : x.unmount.1.hearers = (ts.step .unmount).ended.filterMap (·.hearer? false) := by
    rw [hunmount.hearers, Tenures.hearers]
    exact List.append_nil _
  refine ⟨rfl, ?_, ?_, hunmount.closed⟩
  · cases listener with
    | none => rfl
    | some l => exact congrArg (fun hs : List Hearer => some hs.length) hended
  · change x.unmount.1.hearers ++ (listener.map Hearer.enter).toList = _
    rw [hended]
    cases listener <;> rfl

theorem agrees_act (h : x.Agrees ts) (a : View.Action) :
    (x.act a).1.Agrees (ts.step (.act a)) := by
  have hview := h.view
  have hheld := h.held
  have hhearers : (x.act a).1.hearers =
      (x.atHeld (Hearer.tell (Result.acted (x.mount.act a).2).notices)).hearers := rfl
  rw [h.hearers_atHeld] at hhearers
  cases hpresent : ts.present with
  | none =>
    rw [hpresent] at hview hheld hhearers
    have hmount : (x.mount.act a).1 = x.mount := by rw [Mount.act, hview]; rfl
    refine ⟨?_, ?_, ?_, h.closed⟩
    · change (x.mount.act a).1.view = _
      rw [hmount, hview, Tenures.step, hpresent]
      rfl
    · change x.held = _
      rw [hheld, Tenures.step, hpresent]
      rfl
    · rw [hhearers, Tenures.hearers, Tenures.step, hpresent]
      rfl
  | some t =>
    rw [hpresent] at hview hheld hhearers
    have hmount : x.mount.act a = (⟨some (t.view.act a).1⟩, some (t.view.act a).2) := by
      rw [Mount.act, hview]
      rfl
    refine ⟨?_, ?_, ?_, h.closed⟩
    · change (x.mount.act a).1.view = _
      rw [hmount, Tenures.step, hpresent, Option.map_some, Option.map_some, Tenure.view_act]
    · change x.held = _
      rw [hheld, Tenures.step, hpresent]
      rfl
    · rw [hhearers, hmount, Tenures.hearers, Tenures.step, hpresent, Option.map_some,
        Option.bind_some, Option.bind_some, Tenure.hearer?_act]
      rfl

theorem agrees_step (h : x.Agrees ts) (s : Step) : (x.step s).1.Agrees (ts.step s) := by
  cases s with
  | mount settings value listener => exact agrees_remount h settings value listener
  | unmount => exact agrees_unmount h
  | act a => exact agrees_act h a

theorem agrees_run (h : x.Agrees ts) (steps : List Step) :
    (x.run steps).1.Agrees (steps.foldl Tenures.step ts) := by
  induction steps generalizing x ts with
  | nil => exact h
  | cons s steps ih => exact ih (agrees_step h s)

/-! ## What is told -/

def told (x : Attended) : List Notice := x.hearers.flatMap Hearer.told

theorem Agrees.told_eq (h : x.Agrees ts) :
    x.told = (ts.ended ++ ts.present.toList).flatMap Tenure.notices := by
  have hended : ∀ ended : List Tenure, (ended.filterMap (·.hearer? false)).flatMap Hearer.told =
      ended.flatMap Tenure.notices := by
    intro ended
    induction ended with
    | nil => rfl
    | cons t ended ih =>
      have hfirst := t.told_hearer? false
      rw [List.flatMap_cons, ← ih, ← hfirst]
      cases hhearer : t.hearer? false <;> simp [hhearer]
  rw [told, h.hearers, Tenures.hearers, List.flatMap_append, hended, List.flatMap_append]
  cases ts.present with
  | none => rfl
  | some t => rw [Option.bind_some, t.told_hearer?, Option.toList_some, List.flatMap_singleton]

/-- **What a step tells, the listener of the open view is told**; opening and closing tell
nothing. -/
theorem told_step (h : x.Agrees ts) (s : Step) :
    (x.step s).1.told = x.told ++ (x.step s).2.notices := by
  have hview := h.view
  rw [(agrees_step h s).told_eq, h.told_eq]
  cases s with
  | mount settings value listener =>
    simp [Tenures.step, step, Result.notices, Tenure.notices, Tenure.run, View.run]
  | unmount => simp [Tenures.step, step, Result.notices]
  | act a =>
    cases hpresent : ts.present with
    | none =>
      rw [hpresent] at hview
      have hmount : (x.mount.act a).2 = none := by rw [Mount.act, hview]; rfl
      simp [Tenures.step, step, act, hpresent, hmount, Result.notices]
    | some t =>
      rw [hpresent] at hview
      have hmount : (x.mount.act a).2 = some (t.view.act a).2 := by rw [Mount.act, hview]; rfl
      simp [Tenures.step, step, act, hpresent, hmount, Result.notices, Tenure.notices_act]

theorem told_run (h : x.Agrees ts) (steps : List Step) :
    (x.run steps).1.told = x.told ++ (x.run steps).2.flatMap Result.notices := by
  induction steps generalizing x ts with
  | nil => exact (List.append_nil _).symm
  | cons s steps ih =>
    have hrest := ih (agrees_step h s)
    rw [told_step h s, List.append_assoc] at hrest
    exact hrest

/-! ## One view after another -/

theorem length_tenures (ts : Tenures) (steps : List Step) :
    (steps.foldl Tenures.step ts).ended.length +
        (steps.foldl Tenures.step ts).present.toList.length =
      ts.ended.length + ts.present.toList.length + steps.countP Step.isMount := by
  induction steps generalizing ts with
  | nil => rfl
  | cons s steps ih =>
    rw [List.foldl_cons, ih, List.countP_cons]
    cases s with
    | mount settings value listener =>
      simp only [Tenures.step, List.length_append, Step.isMount, Option.toList_some,
        List.length_singleton, if_true]
      omega
    | unmount =>
      simp [Tenures.step, Step.isMount]
    | act a =>
      cases hpresent : ts.present <;> simp [Tenures.step, Step.isMount, hpresent]

theorem run_acts {v : View} (hview : x.mount.view = some v) (actions : List View.Action) :
    (x.run (actions.map .act)).1.mount.view = some (v.run actions).1 ∧
      (x.run (actions.map .act)).2 = (v.run actions).2.map fun answer => .acted (some answer) := by
  induction actions generalizing x v with
  | nil => exact ⟨hview, rfl⟩
  | cons a actions ih =>
    have hact : x.mount.act a = (⟨some (v.act a).1⟩, some (v.act a).2) := by
      rw [Mount.act, hview]
    have hnext : (x.step (.act a)).1.mount.view = some (v.act a).1 := by
      change (x.mount.act a).1.view = _
      rw [hact]
    obtain ⟨hafter, hanswers⟩ := ih hnext
    refine ⟨hafter, ?_⟩
    change .acted (x.mount.act a).2 :: ((x.step (.act a)).1.run (actions.map .act)).2 = _
    rw [hact, hanswers]
    rfl

/-- **After its end a mount has nothing left**: the view is closed with its text, every listener is
let go, and none is told anything. -/
theorem unmount_eq (h : x.Agrees ts) :
    x.unmount.1.mount.view = none ∧ x.unmount.2 = x.mount.view.map View.text ∧
      (∀ hearer ∈ x.unmount.1.hearers, hearer.alive = false) ∧
      x.unmount.1.hearers.map Hearer.told = x.hearers.map Hearer.told := by
  have hafter := (agrees_unmount h).hearers
  refine ⟨rfl, rfl, ?_, ?_⟩
  · intro hearer hmem
    rw [hafter, Tenures.hearers, Tenures.step, Option.bind_none, Option.toList_none,
      List.append_nil] at hmem
    obtain ⟨t, -, ht⟩ := List.mem_filterMap.1 hmem
    obtain ⟨l, -, rfl⟩ := Option.map_eq_some_iff.1 ht
    rfl
  · have hbefore : x.unmount.1.hearers = (x.atHeld Hearer.release).hearers := rfl
    rw [hbefore, h.hearers_atHeld, h.hearers, Tenures.hearers, List.map_append, List.map_append]
    cases ts.present.bind (·.hearer? true) <;> rfl

theorem Agrees.length_alive (h : x.Agrees ts) :
    (x.hearers.filter Hearer.alive).length = x.mount.listeners := by
  have hended : (ts.ended.filterMap (·.hearer? false)).filter Hearer.alive = [] := by
    refine List.filter_eq_nil_iff.2 fun hearer hmem => ?_
    obtain ⟨t, -, ht⟩ := List.mem_filterMap.1 hmem
    obtain ⟨l, -, rfl⟩ := Option.map_eq_some_iff.1 ht
    exact Bool.false_ne_true
  rw [h.hearers, Tenures.hearers, List.filter_append, hended, Mount.listeners, h.view]
  cases ts.present with
  | none => rfl
  | some t =>
    rw [Option.map_some, Option.bind_some, Option.bind_some, t.listener_view, Tenure.hearer?]
    cases t.listener <;> rfl

theorem Agrees.exists_notice (h : x.Agrees ts) {hearer : Hearer} (hmem : hearer ∈ x.hearers)
    {n : Notice} (hn : n ∈ hearer.told) :
    ∃ origin text, n = hearer.listener.notice origin text := by
  have hown : ∀ (t : Tenure) (alive : Bool), t.hearer? alive = some hearer →
      ∃ origin text, n = hearer.listener.notice origin text := by
    intro t alive ht
    obtain ⟨l, hl, rfl⟩ := Option.map_eq_some_iff.1 ht
    have htold : n ∈ t.notices := hn
    obtain ⟨l', hl', hnotice⟩ := View.exists_listener_of_mem_run htold
    obtain rfl : l = l' := Option.some.inj (hl.symm.trans hl')
    exact hnotice
  rw [h.hearers, Tenures.hearers, List.mem_append, List.mem_filterMap, Option.mem_toList] at hmem
  rcases hmem with ⟨t, -, ht⟩ | hmem
  · exact hown t false ht
  · obtain ⟨t, -, ht⟩ := Option.bind_eq_some_iff.1 hmem
    exact hown t true ht

/-- **Each view has the mount for itself.** After every run of steps the views closed and the one
that is open are those of the tenures that the steps say, of which at most one goes on. A listener
is alive just when its view is open, it was told what that view tells by itself, and nothing else
was told. A view that is opened, whatever was done before, is as if it were opened by itself, and
so is all that it answers. Closing it gives its text; then, and when the mount goes away, no
listener is alive, and none was told of it. -/
theorem run_tenures (steps : List Step) :
    let ran := empty.run steps
    let x := ran.1
    let ts := Tenures.of steps
    (x.mount, ran.2) = Mount.empty.run steps ∧
    (x.mount.view = ts.present.map Tenure.view ∧
      x.closed = ts.ended.map (fun t => t.view.text) ∧
      steps.countP Step.isMount = x.closed.length + if x.mount.view.isSome then 1 else 0) ∧
    (x.hearers = ts.ended.filterMap (·.hearer? false) ++
        (ts.present.bind (·.hearer? true)).toList ∧
      (x.hearers.filter Hearer.alive).length = x.mount.listeners ∧
      (∀ hearer ∈ x.hearers, ∀ n ∈ hearer.told,
        ∃ origin text, n = hearer.listener.notice origin text) ∧
      x.hearers.flatMap Hearer.told = ran.2.flatMap Result.notices) ∧
    (∀ (settings : Settings) (value : Text) (listener : Option Listener)
        (actions : List View.Action),
      let after := x.run (.mount settings value listener :: actions.map .act)
      let alone := (View.ofText settings value listener).run actions
      after.1.mount.view = some alone.1 ∧
        after.2 = .opened :: alone.2.map (fun answer => .acted (some answer)) ∧
        (x.remount settings value listener).hearers.map Hearer.told =
          x.hearers.map Hearer.told ++ (listener.map fun _ => []).toList) ∧
    (x.step .unmount).2 = .closed (x.mount.view.map View.text) ∧
    ∀ y ∈ [(x.step .unmount).1, x.drop],
      y.mount.view = none ∧ (∀ hearer ∈ y.hearers, hearer.alive = false) ∧
        y.hearers.map Hearer.told = x.hearers.map Hearer.told := by
  intro ran x ts
  have h : x.Agrees ts := agrees_run agrees_empty steps
  obtain ⟨hopen, htext, hreleased, hquiet⟩ := unmount_eq h
  refine ⟨empty.mount_run steps, ⟨h.view, h.closed, ?_⟩,
    ⟨h.hearers, h.length_alive, fun hearer hmem n hn => h.exists_notice hmem hn,
      told_run agrees_empty steps⟩,
    fun settings value listener actions => ?_, congrArg Result.closed htext, fun y hy => ?_⟩
  · have hcount : ts.ended.length + ts.present.toList.length = 0 + steps.countP Step.isMount :=
      length_tenures ⟨[], none⟩ steps
    rw [Nat.zero_add] at hcount
    rw [← hcount, h.closed, List.length_map, h.view]
    cases ts.present <;> rfl
  · obtain ⟨hafter, hanswers⟩ := run_acts (x := x.remount settings value listener) rfl actions
    refine ⟨hafter, congrArg (_ :: ·) hanswers, ?_⟩
    change (x.unmount.1.hearers ++ (listener.map Hearer.enter).toList).map Hearer.told = _
    rw [List.map_append, hquiet]
    cases listener <;> rfl
  · obtain rfl : y = x.drop := by
      simpa only [List.mem_cons, List.not_mem_nil, or_false, step, drop, or_self] using hy
    exact ⟨hopen, hreleased, hquiet⟩

end Attended

end QueryEditor
