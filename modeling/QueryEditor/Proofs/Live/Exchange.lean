import QueryEditor.Proofs.Live.Accounts

/-!
# A host that hands back late what it was told

A host keeps the texts that its listener was told in the order of their arrival, and hands each of
them back once, at any later time. A text that comes back after the document has gone on is another
text than the present one: it is applied, and so it is told and comes back again.

What was told last is the present text. So the texts that wait are handed around in a circle, from
which only a text that follows an equal one is taken out. When all of them are equal, nothing more
is applied and the circle empties; when two of them differ, it never does.

* `Exchange`, `Exchange.run`: a live document with the texts that wait at its host;
* `Exchange.after`, `Exchange.applied`: the echoes that follow, and how many apply a change;
* `Exchange.Fed`: the text told last is the present one;
* `Exchange.after_calm`, `Exchange.Restless`: the two ways that an exchange goes on;
* **`Exchange.applied_le_iff`**: when the echoes come to rest.
-/

namespace QueryEditor

/-- A live document, and the texts that its host was told and has not handed back, oldest first. -/
structure Exchange where
  live : LiveDocument
  waiting : List Text
  deriving DecidableEq, Repr

namespace Exchange

/-- What happens in an exchange: an operation on the document, or the oldest text handed back. -/
inductive Event where
  | edit (e : Edit)
  | echo
  deriving DecidableEq, Repr

/-- A document opened by a host that listens. -/
def start (first : Text) (listener : Listener) : Exchange :=
  ⟨(LiveDocument.ofText first).listen (some listener), []⟩

def edit (x : Exchange) (e : Edit) : Exchange × Outcome :=
  let (live, outcome) := x.live.step e
  (⟨live, x.waiting ++ outcome.notices.map Notice.text⟩, outcome)

/-- The oldest text that waits is pushed, if there is one. -/
def echo (x : Exchange) : Exchange × Outcome :=
  match x.waiting with
  | [] => (x, .unchanged)
  | t :: waiting => { x with waiting }.edit (.push t)

def step (x : Exchange) : Event → Exchange × Outcome
  | .edit e => x.edit e
  | .echo => x.echo

/-- The exchange after a run of events, and the answers in order. -/
def run (x : Exchange) : List Event → Exchange × List Outcome
  | [] => (x, [])
  | e :: es =>
    let (x, outcome) := x.step e
    let (x, outcomes) := run x es
    (x, outcome :: outcomes)

/-- The exchange after a number of echoes, with no operation between them. -/
def after (x : Exchange) (k : Nat) : Exchange := (x.run (List.replicate k .echo)).1

/-- How many of a number of echoes apply a change. -/
def applied (x : Exchange) (k : Nat) : Nat :=
  (x.run (List.replicate k .echo)).2.countP fun outcome => outcome.applied.isSome

/-- There is a listener, and the text that it was told last is the present one. -/
structure Fed (x : Exchange) : Prop where
  listens : ∃ l, x.live.listener = some l
  last : ∀ t ∈ x.waiting.getLast?, t = x.live.text

variable {x : Exchange} {t : Text} {waiting : List Text}

theorem after_succ (x : Exchange) (k : Nat) : x.after (k + 1) = x.echo.1.after k := rfl

theorem applied_succ (x : Exchange) (k : Nat) : x.applied (k + 1) =
    x.echo.1.applied k + if x.echo.2.applied.isSome = true then 1 else 0 :=
  List.countP_cons

/-! ## What the host knows -/

theorem fed_start (first : Text) (listener : Listener) : (start first listener).Fed :=
  ⟨⟨listener, rfl⟩, fun _ ht => by cases ht⟩

theorem fed_edit (h : x.Fed) (e : Edit) : (x.edit e).1.Fed := by
  obtain ⟨l, hl⟩ := h.listens
  rcases x.live.step_cases e with hkeep | ⟨origin, c, happly⟩
  · have htold : (x.live.step e).2.notices = [] := by rw [hkeep.outcome]; rfl
    refine ⟨⟨l, hkeep.listener.trans hl⟩, ?_⟩
    simp only [edit, htold, LiveDocument.text, hkeep.doc, List.map_nil, List.append_nil]
    exact h.last
  · refine ⟨⟨l, happly.listener.trans hl⟩, ?_⟩
    simp [edit, LiveDocument.text, happly.notices, happly.doc, hl, l.text_notice]

theorem Fed.tail (h : x.Fed) (hx : x.waiting = t :: waiting) :
    Fed { x with waiting } := by
  refine ⟨h.listens, fun u hu => h.last u ?_⟩
  rw [hx, List.getLast?_cons, show waiting.getLast? = some u from hu]
  rfl

theorem fed_step (h : x.Fed) (e : Event) : (x.step e).1.Fed := by
  cases e with
  | edit e => exact fed_edit h e
  | echo =>
    cases hx : x.waiting with
    | nil => simpa only [step, echo, hx] using h
    | cons t waiting =>
      simp only [step, echo, hx]
      exact fed_edit (h.tail hx) _

theorem fed_run (h : x.Fed) (events : List Event) : (x.run events).1.Fed := by
  induction events generalizing x with
  | nil => exact h
  | cons e events ih => exact ih (fed_step h e)

/-! ## One echo -/

theorem echo_self (hx : x.waiting = x.live.text :: waiting) :
    x.echo = ({ x with waiting }, .unchanged) := by
  simp only [echo, hx, edit, LiveDocument.step, LiveDocument.push_self]
  simp [Outcome.unchanged]

theorem echo_of_ne (h : x.Fed) (hx : x.waiting = t :: waiting) (ht : x.live.text ≠ t) :
    x.echo.1.live.text = t ∧ x.echo.1.waiting = waiting ++ [t] ∧
      x.echo.2.applied.isSome = true := by
  obtain ⟨l, hl⟩ := h.listens
  have happly := LiveDocument.push_of_ne ht
  have htext := LiveDocument.text_push x.live t
  simp only [echo, hx, edit, LiveDocument.step]
  refine ⟨htext, ?_, ?_⟩
  · simp [happly.notices, hl, l.text_notice, LiveDocument.replace_all]
  · rw [happly.applied]
    rfl

/-! ## An exchange that comes to rest -/

/-- Equal texts are handed back one after the other, and nothing is applied. -/
theorem after_calm (h : ∀ t ∈ x.waiting, t = x.live.text) (k : Nat) :
    x.after k = { x with waiting := x.waiting.drop k } ∧ x.applied k = 0 := by
  induction k generalizing x with
  | zero => exact ⟨rfl, rfl⟩
  | succ k ih =>
    rw [after_succ, applied_succ]
    cases hx : x.waiting with
    | nil =>
      have hecho : x.echo = (x, .unchanged) := by simp only [echo, hx]
      obtain ⟨hafter, happlied⟩ := ih h
      rw [hecho, hafter, happlied, hx, List.drop_nil, List.drop_nil]
      exact ⟨rfl, rfl⟩
    | cons t waiting =>
      rw [hx] at h
      obtain rfl := h t List.mem_cons_self
      have hrest := ih (x := { x with waiting }) fun u hu => h u (List.mem_cons_of_mem _ hu)
      rw [echo_self hx, hrest.1, hrest.2]
      exact ⟨rfl, rfl⟩

/-! ## An exchange that does not -/

/-- The host was told the present text last, and another text still waits. -/
structure Restless (x : Exchange) : Prop extends Fed x where
  other : ∃ t ∈ x.waiting, t ≠ x.live.text

theorem Restless.two_le (h : x.Restless) : 2 ≤ x.waiting.length := by
  obtain ⟨u, hu, hne⟩ := h.other
  cases hx : x.waiting with
  | nil =>
    rw [hx] at hu
    cases hu
  | cons t waiting =>
    cases waiting with
    | nil =>
      rw [hx, List.mem_singleton] at hu
      subst hu
      exact absurd (h.last u (by rw [hx]; rfl)) hne
    | cons t' waiting => exact Nat.succ_le_succ (Nat.succ_le_succ (Nat.zero_le _))

/-- **One echo of a restless exchange** leaves it restless, and takes a text out unless it applies
a change. -/
theorem restless_echo (h : x.Restless) : x.echo.1.Restless ∧
    x.echo.1.waiting.length + 1 =
      x.waiting.length + if x.echo.2.applied.isSome = true then 1 else 0 := by
  have hfed : x.echo.1.Fed := fed_step h.toFed .echo
  obtain ⟨u, hu, hne⟩ := h.other
  cases hx : x.waiting with
  | nil =>
    rw [hx] at hu
    cases hu
  | cons t waiting =>
    by_cases ht : x.live.text = t
    · subst ht
      rw [hx] at hu
      have hrest : u ∈ waiting := (List.mem_cons.1 hu).resolve_left hne
      have hecho := echo_self hx
      refine ⟨⟨hfed, ?_⟩, ?_⟩
      · rw [hecho]
        exact ⟨u, hrest, hne⟩
      · rw [hecho]
        rfl
    · obtain ⟨htext, hwaiting, happlied⟩ := echo_of_ne h.toFed hx ht
      refine ⟨⟨hfed, x.live.text, ?_, ?_⟩, ?_⟩
      · -- what was told last is the text that has just been replaced
        rw [hwaiting]
        cases hlast : waiting.getLast? with
        | none =>
          rw [List.getLast?_eq_none_iff.1 hlast] at hx
          exact absurd (h.last t (by rw [hx]; rfl)).symm ht
        | some v =>
          have hv : v = x.live.text := h.last v (by rw [hx, List.getLast?_cons, hlast]; rfl)
          exact List.mem_append_left _ (hv ▸ List.mem_of_getLast? hlast)
      · rwa [htext]
      · rw [hwaiting, if_pos happlied, List.length_append]
        rfl

theorem restless_after (h : x.Restless) (k : Nat) : (x.after k).Restless ∧
    (x.after k).waiting.length + k = x.waiting.length + x.applied k := by
  induction k generalizing x with
  | zero => exact ⟨h, rfl⟩
  | succ k ih =>
    obtain ⟨hnext, hlength⟩ := restless_echo h
    obtain ⟨hafter, hrest⟩ := ih hnext
    rw [after_succ, applied_succ]
    exact ⟨hafter, by omega⟩

/-! ## Whole exchanges -/

/-- **When echoes come to rest.** After any run of operations and echoes, the echoes that follow
apply at most as many changes as texts wait exactly when all texts that wait are the present one.
Then they apply none, and as many echoes as texts wait leave none. Otherwise all echoes but a few
apply a change, and there is always a text that waits. -/
theorem applied_le_iff (first : Text) (listener : Listener) (events : List Event) :
    let x := ((start first listener).run events).1
    ((∀ k, x.applied k ≤ x.waiting.length) ↔ ∀ t ∈ x.waiting, t = x.live.text) ∧
    ((∀ t ∈ x.waiting, t = x.live.text) → ∀ k,
      x.applied k = 0 ∧ (x.after k).waiting = x.waiting.drop k) ∧
    ((∃ t ∈ x.waiting, t ≠ x.live.text) → ∀ k,
      k + 2 ≤ x.applied k + x.waiting.length ∧ (x.after k).waiting ≠ []) := by
  intro x
  have hfed : x.Fed := fed_run (fed_start first listener) events
  have hcalm : (∀ t ∈ x.waiting, t = x.live.text) → ∀ k,
      x.applied k = 0 ∧ (x.after k).waiting = x.waiting.drop k := by
    intro h k
    obtain ⟨hafter, happlied⟩ := after_calm h k
    exact ⟨happlied, by rw [hafter]⟩
  have hrestless : (∃ t ∈ x.waiting, t ≠ x.live.text) → ∀ k,
      k + 2 ≤ x.applied k + x.waiting.length ∧ (x.after k).waiting ≠ [] := by
    intro h k
    obtain ⟨hafter, hlength⟩ := restless_after ⟨hfed, h⟩ k
    have htwo := hafter.two_le
    refine ⟨by omega, fun hnil => ?_⟩
    rw [hnil] at htwo
    exact absurd htwo (by decide)
  refine ⟨⟨fun hle t ht => Decidable.byContradiction fun hne => ?_, fun h k => ?_⟩, hcalm,
    hrestless⟩
  · -- so many echoes that those which apply a change are more than the texts that wait
    have hmany := (hrestless ⟨t, ht, hne⟩ (2 * x.waiting.length)).1
    have hfew := hle (2 * x.waiting.length)
    omega
  · rw [(hcalm h k).1]
    exact Nat.zero_le _

/-- Two letters typed before the host hands anything back: each echo restores the text before the
last one, and three echoes apply three changes though two texts wait. -/
theorem not_forall_applied_le : ¬ ∀ (first : Text) (listener : Listener) (events : List Event),
    (∀ e, .edit e ∈ events → e.origin = .localEdit) →
    ∀ k, ((start first listener).run events).1.applied k ≤
      ((start first listener).run events).1.waiting.length := by
  intro h
  have hthree := h [] .withOrigin [.edit (.insert ['a']), .edit (.insert ['b'])]
    (by simp [Edit.origin]) 3
  exact absurd hthree (by decide)

end Exchange

end QueryEditor
