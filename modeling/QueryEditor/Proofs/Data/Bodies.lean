import QueryEditor.Data.Body
import QueryEditor.Proofs.Json.Values

/-!
# Bodies are read back

The body of an expression may be laid out with blanks between its tokens, with any spelling of its
texts, and with other members before and behind the expression, whatever their values. It is read
as the expression, and what an expression is written as is one of these layouts. So no two
expressions are written alike.

* `Layout`: a body as it may be laid out;
* `Turns`: what a member does to the expression so far;
* **`ofJson_text`**: every layout is read back;
* **`round_trip`**: what is written is read back, as it is and in every other layout.
-/

namespace QueryEditor.Body

open Json

/-! ## Layouts -/

/-- A member with a key, which may be spelled in any way. -/
def IsMember (name item m : Text) : Prop :=
  ∃ g k h, IsGap g ∧ Spells .built name k ∧ IsGap h ∧ m = member g k h item

/-- A member with another key and any value. -/
def IsOther (m : Text) : Prop := ∃ name item, name ≠ key ∧ Written .item item ∧ IsMember name item m

/-- The member with the expression, which may be spelled in any way. -/
def IsOwn (expression m : Text) : Prop :=
  ∃ g w h, IsGap g ∧ Spells .built expression w ∧ IsGap h ∧
    IsMember key (g ++ '"' :: (w ++ '"' :: h)) m

/-- A body as it may be laid out: blanks, the member with the expression among others, blanks. -/
structure Layout (expression : Text) where
  front : Text
  before : List Text
  own : Text
  behind : List Text
  back : Text
  gap_front : IsGap front
  other_before : ∀ m ∈ before, IsOther m
  isOwn : IsOwn expression own
  other_behind : ∀ m ∈ behind, IsOther m
  gap_back : IsGap back

def Layout.text {expression : Text} (l : Layout expression) : Text :=
  l.front ++ '\x7b' :: (Text.joinWith [','] (l.before ++ l.own :: l.behind) ++ '\x7d' :: l.back)

theorem isGap_nil : IsGap [] := rfl

/-- The layout without blanks and without other members, in which the expression is written. -/
def Layout.plain (expression : Text) : Layout expression where
  front := []
  before := []
  own := member [] (escapeAll key) [] (quote expression)
  behind := []
  back := []
  gap_front := isGap_nil
  other_before := fun _ h => absurd h List.not_mem_nil
  isOwn := ⟨[], escapeAll expression, [], isGap_nil, spells_escapeAll _ _, isGap_nil,
    [], escapeAll key, [], isGap_nil, spells_escapeAll _ _, isGap_nil, rfl⟩
  other_behind := fun _ h => absurd h List.not_mem_nil
  gap_back := isGap_nil

theorem Layout.text_plain (expression : Text) : (plain expression).text = toJson expression := by
  simp [text, plain, toJson, quote, member, Text.joinWith]

/-! ## One member -/

/-- A member takes the expression so far from `found` to `found'`: the others are read from there
if a comma is next, and nothing if the closing brace is. -/
def Turns (m : Text) (found found' : Option Text) : Prop :=
  ∀ s rest final, (s = '\x7d' :: rest ∧ final = found') ∨
      (∃ s', s = ',' :: s' ∧ Gives (readMembers found' s') final rest) →
    Gives (readMembers found (m ++ s)) final rest

theorem turns_of {name item m : Text} {found found' : Option Text} (hm : IsMember name item m)
    (hvalue : ∀ h s, IsGap h → Closed s →
      ∃ b, IsGap b ∧ Gives (readMember name found (h ++ ':' :: (item ++ s))) found' (b ++ s)) :
    Turns m found found' := by
  intro s rest final hs
  obtain ⟨g, k, h, hg, hk, hh, rfl⟩ := hm
  have hclosed : Closed s := by
    obtain ⟨rfl, -⟩ | ⟨s', rfl, -⟩ := hs <;> simp [Closed]
  obtain ⟨b, hb, hread⟩ := hvalue h s hh hclosed
  obtain ⟨_, hquote⟩ := next?_eq (r := k ++ '"' :: (h ++ ':' :: (item ++ s))) hg (c := '"') rfl
  rw [member_append, readMembers]
  simp only [hquote]
  refine (readString_gives hk _).bind fun _ => hread.bind fun _ => ?_
  obtain ⟨rfl, rfl⟩ | ⟨s', rfl, hothers⟩ := hs
  · obtain ⟨_, hclose⟩ := next?_eq (r := rest) hb (c := '\x7d') rfl
    simp only [Tail.within, hclose]
    exact gives_pure
  · obtain ⟨_, hcomma⟩ := next?_eq (r := s') hb (c := ',') rfl
    simp only [Tail.within, hcomma]
    exact hothers.bind fun _ => gives_pure

/-- **Another member is skipped**, whatever its value. -/
theorem turns_other {m : Text} (hm : IsOther m) (found : Option Text) : Turns m found found := by
  obtain ⟨name, item, hname, hitem, hm⟩ := hm
  refine turns_of hm fun h s hh hs => ?_
  obtain ⟨v, b, hb, hv⟩ := hitem.skips 0 s hs
  obtain ⟨_, hcolon⟩ := next?_eq (r := item ++ s) hh (c := ':') rfl
  refine ⟨b, hb, ?_⟩
  simp only [readMember, if_neg hname, hcolon]
  exact hv.bind fun _ => gives_pure

theorem readExpression_gives {expression g w : Text} (hg : IsGap g)
    (hw : Spells .built expression w) (rest : Text) :
    Gives (readExpression (g ++ '"' :: (w ++ '"' :: rest))) expression rest := by
  obtain ⟨h, hquote⟩ := next?_eq (r := w ++ '"' :: rest) hg (c := '"') rfl
  have hscalar : Gives (readScalar .built '"' (w ++ '"' :: rest)) (.string expression) rest :=
    (readString_gives hw rest).bind fun _ => gives_pure
  have hat : Gives (readScalarAt .built '"' ⟨w ++ '"' :: rest, h⟩) (.string expression) rest :=
    hscalar.bind fun _ => gives_pure
  rw [readExpression, hquote]
  simp only [Char.reduceEq, or_self, if_false]
  exact hat.bind fun _ => gives_pure

/-- **The member with the expression** gives it. -/
theorem turns_own {expression m : Text} (hm : IsOwn expression m) :
    Turns m none (some expression) := by
  obtain ⟨g, w, b, hg, hw, hb, hm⟩ := hm
  refine turns_of hm fun h s hh _ => ⟨b, hb, ?_⟩
  obtain ⟨_, hcolon⟩ := next?_eq (r := g ++ '"' :: (w ++ '"' :: (b ++ s))) hh (c := ':') rfl
  rw [List.append_assoc, List.cons_append, List.append_assoc, List.cons_append]
  simp only [readMember, if_true, Option.isSome_none, Bool.false_eq_true, if_false, hcolon]
  exact (readExpression_gives hg hw _).bind fun _ => gives_pure

/-! ## All members -/

theorem readMembers_behind {m : Text} {found found' : Option Text} (hm : Turns m found found')
    {ms : List Text} (hms : ∀ m ∈ ms, IsOther m) (rest : Text) :
    Gives (readMembers found (Text.joinWith [','] (m :: ms) ++ '\x7d' :: rest)) found' rest := by
  induction ms generalizing m found with
  | nil =>
    rw [Text.joinWith_singleton]
    exact hm _ _ _ (.inl ⟨rfl, rfl⟩)
  | cons x ms ih =>
    obtain ⟨hx, hms⟩ := List.forall_mem_cons.1 hms
    rw [Text.joinWith_cons_cons, List.append_assoc, List.append_assoc]
    exact hm _ _ _ (.inr ⟨_, rfl, ih (turns_other hx found') hms⟩)

theorem readMembers_before {own : Text} {found found' : Option Text} (hown : Turns own found found')
    {before behind : List Text} (hbefore : ∀ m ∈ before, IsOther m)
    (hbehind : ∀ m ∈ behind, IsOther m) (rest : Text) :
    Gives (readMembers found
      (Text.joinWith [','] (before ++ own :: behind) ++ '\x7d' :: rest)) found' rest := by
  induction before with
  | nil => exact readMembers_behind hown hbehind rest
  | cons x before ih =>
    obtain ⟨hx, hbefore⟩ := List.forall_mem_cons.1 hbefore
    have hcons : Text.joinWith [','] (x :: (before ++ own :: behind)) =
        x ++ ',' :: Text.joinWith [','] (before ++ own :: behind) := by
      rw [Text.joinWith, List.intercalate_cons_of_ne_nil (by simp)]
      simp [Text.joinWith]
    rw [List.cons_append, hcons, List.append_assoc, List.cons_append]
    exact turns_other hx found _ _ _ (.inr ⟨_, rfl, ih hbefore⟩)

/-! ## The body -/

theorem IsMember.next? {name item m : Text} (hm : IsMember name item m) (s : Text) :
    ∃ u, next? (m ++ s) = some ('"', u) := by
  obtain ⟨g, k, h, hg, -, -, rfl⟩ := hm
  rw [member_append]
  obtain ⟨_, hquote⟩ := next?_eq hg (c := '"') rfl
  exact ⟨_, hquote⟩

theorem exists_joinWith_cons (m : Text) (ms : List Text) (s : Text) :
    ∃ s', Text.joinWith [','] (m :: ms) ++ s = m ++ s' := by
  cases ms with
  | nil => exact ⟨s, by rw [Text.joinWith_singleton]⟩
  | cons x ms => exact ⟨_, by rw [Text.joinWith_cons_cons, List.append_assoc]⟩

theorem Layout.next? {expression : Text} (l : Layout expression) (s : Text) :
    ∃ u, Json.next? (Text.joinWith [','] (l.before ++ l.own :: l.behind) ++ s) = some ('"', u) := by
  cases hbefore : l.before with
  | nil =>
    obtain ⟨g, w, h, -, -, -, hown⟩ := l.isOwn
    obtain ⟨s', heq⟩ := exists_joinWith_cons l.own l.behind s
    rw [List.nil_append, heq]
    exact hown.next? s'
  | cons x before =>
    obtain ⟨name, item, -, -, hx⟩ := l.other_before x (by simp [hbefore])
    obtain ⟨s', heq⟩ := exists_joinWith_cons x (before ++ l.own :: l.behind) s
    rw [List.cons_append, heq]
    exact hx.next? s'

theorem readBody_gives {expression : Text} (l : Layout expression) :
    Gives (readBody l.text) (some expression) l.back := by
  have hmembers :=
    readMembers_before (turns_own l.isOwn) l.other_before l.other_behind l.back
  obtain ⟨_, hopen⟩ := next?_eq (r := Text.joinWith [','] (l.before ++ l.own :: l.behind) ++
    '\x7d' :: l.back) l.gap_front (c := '\x7b') rfl
  obtain ⟨_, hquote⟩ := l.next? ('\x7d' :: l.back)
  rw [Layout.text, readBody, hopen]
  simp only [Char.reduceEq, if_false, if_true, hquote]
  exact hmembers.bind fun _ => gives_pure

/-- **Every layout is read back** as its expression. -/
theorem ofJson_text {expression : Text} (l : Layout expression) :
    ofJson l.text = .ok expression := by
  obtain ⟨_, hbody⟩ := readBody_gives l
  rw [ofJson, hbody]
  change (atEnd l.back >>= fun _ => _) = _
  rw [atEnd_eq l.gap_back]
  rfl

/-- **What an expression is written as is read back**, as it is and in every other layout. No other
expression is written in the same way. -/
theorem round_trip (expression : Text) :
    ofJson (toJson expression) = .ok expression ∧
      (∃ l : Layout expression, l.text = toJson expression) ∧
      (∀ l : Layout expression, ofJson l.text = .ok expression) ∧
      ∀ other, toJson other = toJson expression ↔ other = expression := by
  have hread : ∀ e, ofJson (toJson e) = .ok e := fun e => by
    rw [← Layout.text_plain]
    exact ofJson_text _
  refine ⟨hread expression, ⟨.plain expression, Layout.text_plain expression⟩, ofJson_text,
    fun other => ⟨fun heq => ?_, fun heq => by rw [heq]⟩⟩
  have hboth : Except.ok other = Except.ok (ε := Fault) expression := by
    rw [← hread other, ← hread expression, heq]
  exact Except.ok.inj hboth

theorem isOther_nested :
    IsOther " \"data\" : [1, \x7b\"a\": null\x7d]".toList := by
  have hblank : IsGap [' '] := by decide
  have hone : IsNumber ['1'] :=
    ⟨[], ['1'], [], [], by simp, ⟨⟨by simp, by decide⟩, fun _ => rfl⟩, .inl rfl, .inl rfl, rfl⟩
  have hobject : Written .value "\x7b\"a\": null\x7d".toList :=
    .object (.lastMember isGap_nil (spells_escapeAll .skipped ['a']) isGap_nil
      (.item hblank .null isGap_nil))
  have hitem : Written .item " [1, \x7b\"a\": null\x7d]".toList :=
    .item hblank (.array (.comma (.item isGap_nil (.number hone) isGap_nil)
      (.last (.item hblank hobject isGap_nil)))) isGap_nil
  exact ⟨"data".toList, _, by decide, hitem, [' '], "data".toList, [' '], hblank,
    spells_escapeAll .built "data".toList, hblank, rfl⟩

theorem round_trip_nested : ∃ l : Layout "R\n".toList,
    l.text = " \x7b \"data\" : [1, \x7b\"a\": null\x7d], \"expression\": \"R\\n\" \x7d\n".toList ∧
      ofJson l.text = .ok "R\n".toList := by
  let l : Layout "R\n".toList :=
    { front := [' ']
      before := [" \"data\" : [1, \x7b\"a\": null\x7d]".toList]
      own := " \"expression\": \"R\\n\" ".toList
      behind := []
      back := ['\n']
      gap_front := by decide
      other_before := fun m hm => List.mem_singleton.1 hm ▸ isOther_nested
      isOwn := ⟨[' '], escapeAll "R\n".toList, [' '], by decide, spells_escapeAll _ _, by decide,
        [' '], escapeAll key, [], by decide, spells_escapeAll _ _, isGap_nil, rfl⟩
      other_behind := fun _ h => absurd h List.not_mem_nil
      gap_back := by decide }
  exact ⟨l, rfl, (round_trip "R\n".toList).2.2.1 l⟩

end QueryEditor.Body
