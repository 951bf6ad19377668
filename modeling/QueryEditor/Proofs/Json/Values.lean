import QueryEditor.Proofs.Json.Tokens

/-!
# Reading values

A value may be laid out in any way and nested to any depth. One that is skipped is read to its end,
and so is one that is built when it is within the limits; what is read is what the text denotes.

* `Reads`: what the readers do with a part of the grammar;
* **`Denotes.reads`**: they do it with every text of that part;
* `Written.skips`: what is written by the grammar is skipped.
-/

namespace QueryEditor.Json

/-! ## The first character of a value -/

def starts : Text := [' ', '\t', '\n', '\r', '[', ']', '\x7b', 'n', 't', 'f', '"']

theorem not_mem_starts {c : Char} (h : c = '-' ∨ c.isDigit = true) : c ∉ starts := by
  have hall : starts.all (fun d => d != '-' && !d.isDigit) = true := by decide
  intro hc
  have hnot := List.all_eq_true.1 hall c hc
  rcases h with rfl | hdigit
  · exact absurd hnot (by decide)
  · simp [hdigit] at hnot

theorem NumeralOf.exists_cons {n : Numeral} {w : Text} (h : NumeralOf n w) :
    ∃ c r, w = c :: r ∧ (c = '-' ∨ c.isDigit = true) := by
  obtain ⟨u, ⟨fraction, exponent, hwhole, -, -, rfl⟩, rfl⟩ := h
  obtain ⟨c, r, hcons, hc, -⟩ := hwhole.1.exists_cons
  cases n.negative with
  | true => exact ⟨'-', _, rfl, .inl rfl⟩
  | false => exact ⟨c, r ++ (fraction ++ exponent), by simp [hcons], .inr hc⟩

theorem Denotes.exists_cons {care : Care} {w : Text} {v : Value} (h : Denotes care .value w v) :
    ∃ c r, w = c :: r ∧ isGap c = false ∧ c ≠ ']' := by
  cases h with
  | number hw =>
    obtain ⟨c, r, rfl, hc⟩ := hw.exists_cons
    have hnot := not_mem_starts hc
    simp only [starts, List.mem_cons, List.not_mem_nil, or_false, not_or] at hnot
    exact ⟨c, r, rfl, by simp [isGap, hnot], by simp [hnot]⟩
  | _ => exact ⟨_, _, rfl, by decide, by decide⟩

theorem Denotes.next?_ne {care : Care} {p : Phrase} {w : Text} {v : Value}
    (h : Denotes care p w v) (hp : p = .item ∨ p = .items) (s : Text) :
    ∃ c u, next? (w ++ s) = some (c, u) ∧ c ≠ ']' := by
  induction h generalizing s with
  | item hg hw _ _ =>
    obtain ⟨c, r, rfl, hgap, hne⟩ := hw.exists_cons
    rw [List.append_assoc, List.append_assoc, List.cons_append]
    obtain ⟨_, heq⟩ := next?_eq hg hgap
    exact ⟨c, _, heq, hne⟩
  | last _ ih => exact ih (.inl rfl) s
  | comma _ _ ih _ =>
    rw [List.append_assoc]
    exact ih (.inl rfl) _
  | _ => simp at hp

theorem Denotes.next?_members {care : Care} {w : Text} {v : Value}
    (h : Denotes care .members w v) (s : Text) : ∃ u, next? (w ++ s) = some ('"', u) := by
  cases h with
  | lastMember hg _ _ _ =>
    rw [member_append]
    obtain ⟨_, heq⟩ := next?_eq hg (c := '"') rfl
    exact ⟨_, heq⟩
  | commaMember hg _ _ _ _ =>
    rw [List.append_assoc, member_append]
    obtain ⟨_, heq⟩ := next?_eq hg (c := '"') rfl
    exact ⟨_, heq⟩

/-! ## Scalars -/

theorem readName_eq (name rest : Text) : ∃ h, readName name (name ++ rest) = .ok ⟨rest, h⟩ := by
  induction name with
  | nil => exact ⟨Nat.le_refl _, rfl⟩
  | cons c name ih =>
    obtain ⟨h, heq⟩ := ih
    refine ⟨by simp only [List.cons_append, List.length_cons]; omega, ?_⟩
    simp only [List.cons_append, readName, if_true, heq]
    rfl

theorem readValue_gives {care : Care} {opened : Nat} {g r : Text} {c : Char} {v : Value}
    {rest : Text} (hg : IsGap g) (hc : isGap c = false) (harray : c ≠ '[') (hobject : c ≠ '\x7b')
    (h : Gives (readScalar care c r) v rest) :
    Gives (readValue care opened (g ++ c :: r)) v rest := by
  obtain ⟨_, heq⟩ := next?_eq (r := r) hg hc
  rw [readValue]
  simp only [heq, if_neg harray, if_neg hobject]
  exact h.bind fun _ => gives_pure

/-- The values with a name, by its first character and the others. -/
def named : List (Char × String × Value) :=
  [('n', "ull", .null), ('t', "rue", .bool true), ('f', "alse", .bool false)]

theorem readScalar_named {care : Care} {c : Char} {name : String} {v : Value}
    (h : (c, name, v) ∈ named) (rest : Text) :
    Gives (readScalar care c (name.toList ++ rest)) v rest := by
  obtain ⟨_, heq⟩ := readName_eq name.toList rest
  simp only [named, List.mem_cons, Prod.mk.injEq, List.not_mem_nil, or_false] at h
  obtain ⟨rfl, rfl, rfl⟩ | ⟨rfl, rfl, rfl⟩ | ⟨rfl, rfl, rfl⟩ := h
  all_goals
    simp only [readScalar, if_true, if_false, Char.reduceEq, heq]
    exact gives_pure

/-! ## Every value -/

/-- What the readers do with a part of the grammar: a value is read behind blanks, and the blanks
behind it are left to the reader of its container. -/
def Reads (care : Care) : Phrase → Text → Value → Prop
  | .value, w, v => ∀ opened, Allowed care opened v → ∀ g rest, IsGap g → Closed rest →
    Gives (readValue care opened (g ++ (w ++ rest))) v rest
  | .item, w, v => ∀ opened, Allowed care opened v → ∀ rest, Closed rest →
    ∃ h, IsGap h ∧ Gives (readValue care opened (w ++ rest)) v (h ++ rest)
  | .items, w, v => ∀ vs opened, v = .array vs → (∀ x ∈ vs, Allowed care opened x) →
    ∀ rest, Gives (readItems care opened (w ++ ']' :: rest)) vs rest
  | .members, w, v => ∀ ms opened, v = .object ms → (∀ m ∈ ms, Allowed care opened m.2) →
    ∀ rest, Gives (readMembers care opened (w ++ '\x7d' :: rest)) ms rest

variable {care : Care}

theorem reads_named (c : Char) (name : String) (v : Value) (h : (c, name, v) ∈ named) :
    Reads care .value (c :: name.toList) v := by
  intro opened _ g rest hg _
  have hstart : isGap c = false ∧ c ≠ '[' ∧ c ≠ '\x7b' := by
    simp only [named, List.mem_cons, Prod.mk.injEq, List.not_mem_nil, or_false] at h
    obtain ⟨rfl, -⟩ | ⟨rfl, -⟩ | ⟨rfl, -⟩ := h <;> decide
  exact readValue_gives hg hstart.1 hstart.2.1 hstart.2.2 (readScalar_named h rest)

theorem reads_number {n : Numeral} {w : Text} (h : NumeralOf n w) :
    Reads care .value w (.number n) := by
  intro opened hallowed g rest hg hrest
  have hn := readNumber_gives h (allowed_number_iff.1 hallowed) hrest
  obtain ⟨c, r, rfl, hc⟩ := h.exists_cons
  have hnot := not_mem_starts hc
  simp only [starts, List.mem_cons, List.not_mem_nil, or_false, not_or] at hnot
  have hscalar : Gives (readScalar care c (r ++ rest)) (.number n) rest := by
    simp only [readScalar, hnot, if_false, if_pos hc]
    exact hn.bind fun _ => gives_pure
  exact readValue_gives hg (by simp [isGap, hnot]) (by simp [hnot]) (by simp [hnot]) hscalar

theorem reads_string {t w : Text} (h : Spells care t w) :
    Reads care .value ('"' :: (w ++ ['"'])) (.string t) := by
  intro opened _ g rest hg _
  rw [List.cons_append, List.append_assoc, List.singleton_append]
  exact readValue_gives hg (by decide) (by decide) (by decide)
    ((readString_gives h rest).bind fun _ => gives_pure)

theorem reads_noItems {g : Text} (hg : IsGap g) :
    Reads care .value ('[' :: (g ++ [']'])) (.array []) := by
  intro opened hallowed front rest hfront _
  obtain ⟨_, hopen⟩ := next?_eq (r := g ++ ']' :: rest) hfront (c := '[') rfl
  obtain ⟨_, hclose⟩ := next?_eq (r := rest) hg (c := ']') rfl
  rw [List.cons_append, List.append_assoc, List.singleton_append, readValue]
  simp only [hopen, hclose, if_true, (allowed_array_iff.1 hallowed).1, Bool.false_eq_true, if_false]
  exact gives_pure

theorem reads_noMembers {g : Text} (hg : IsGap g) :
    Reads care .value ('\x7b' :: (g ++ ['\x7d'])) (.object []) := by
  intro opened hallowed front rest hfront _
  obtain ⟨_, hopen⟩ := next?_eq (r := g ++ '\x7d' :: rest) hfront (c := '\x7b') rfl
  obtain ⟨_, hclose⟩ := next?_eq (r := rest) hg (c := '\x7d') rfl
  rw [List.cons_append, List.append_assoc, List.singleton_append, readValue]
  simp only [hopen, hclose, Char.reduceEq, if_true, (allowed_object_iff.1 hallowed).1,
    Bool.false_eq_true, if_false]
  exact gives_pure

theorem reads_array {w : Text} {v : Value} (hw : Denotes care .items w v)
    (h : Reads care .items w v) : Reads care .value ('[' :: (w ++ [']'])) v := by
  obtain ⟨vs, rfl⟩ := hw.exists_items
  intro opened hallowed front rest hfront _
  obtain ⟨hdeep, hvs⟩ := allowed_array_iff.1 hallowed
  obtain ⟨_, hopen⟩ := next?_eq (r := w ++ ']' :: rest) hfront (c := '[') rfl
  obtain ⟨c, _, hnext, hne⟩ := hw.next?_ne (.inr rfl) (']' :: rest)
  rw [List.cons_append, List.append_assoc, List.singleton_append, readValue]
  simp only [hopen, if_true, hdeep, Bool.false_eq_true, if_false, hnext]
  -- the reader looks for an empty array first
  split
  · rename_i heq
    cases heq
    exact absurd rfl hne
  · exact (h vs (opened + 1) rfl hvs rest).bind fun _ => gives_pure

theorem reads_object {w : Text} {v : Value} (hw : Denotes care .members w v)
    (h : Reads care .members w v) : Reads care .value ('\x7b' :: (w ++ ['\x7d'])) v := by
  obtain ⟨ms, rfl⟩ := hw.exists_members
  intro opened hallowed front rest hfront _
  obtain ⟨hdeep, hms⟩ := allowed_object_iff.1 hallowed
  obtain ⟨_, hopen⟩ := next?_eq (r := w ++ '\x7d' :: rest) hfront (c := '\x7b') rfl
  obtain ⟨_, hnext⟩ := hw.next?_members ('\x7d' :: rest)
  rw [List.cons_append, List.append_assoc, List.singleton_append, readValue]
  simp only [hopen, Char.reduceEq, if_true, hdeep, Bool.false_eq_true, if_false, hnext]
  exact (h ms (opened + 1) rfl hms rest).bind fun _ => gives_pure

theorem Closed.gap {h rest : Text} (hh : IsGap h) (hrest : Closed rest) : Closed (h ++ rest) := by
  cases h with
  | nil => exact hrest
  | cons c h =>
    rintro d ⟨⟩
    exact .inl (List.all_eq_true.1 hh _ List.mem_cons_self)

theorem reads_item {g w h : Text} {v : Value} (hg : IsGap g) (hw : Reads care .value w v)
    (hh : IsGap h) : Reads care .item (g ++ (w ++ h)) v := by
  intro opened hallowed rest hrest
  refine ⟨h, hh, ?_⟩
  rw [List.append_assoc, List.append_assoc]
  exact hw opened hallowed g (h ++ rest) hg (hrest.gap hh)

theorem reads_last {w : Text} {v : Value} (hw : Reads care .item w v) :
    Reads care .items w (.array [v]) := by
  rintro _ opened ⟨⟩ hallowed rest
  obtain ⟨h, hh, hv⟩ :=
    hw opened (hallowed v List.mem_cons_self) (']' :: rest) (by simp [Closed])
  obtain ⟨_, hclose⟩ := next?_eq (r := rest) hh (c := ']') rfl
  rw [readItems]
  refine hv.bind fun _ => ?_
  simp only [hclose]
  exact gives_pure

theorem reads_comma {u w : Text} {v : Value} {vs : List Value} (hu : Reads care .item u v)
    (hw : Reads care .items w (.array vs)) : Reads care .items (u ++ ',' :: w) (.array (v :: vs)) := by
  rintro _ opened ⟨⟩ hallowed rest
  obtain ⟨hv, hvs⟩ := List.forall_mem_cons.1 hallowed
  obtain ⟨h, hh, hx⟩ := hu opened hv (',' :: (w ++ ']' :: rest)) (by simp [Closed])
  obtain ⟨_, hcomma⟩ := next?_eq (r := w ++ ']' :: rest) hh (c := ',') rfl
  rw [List.append_assoc, List.cons_append, readItems]
  refine hx.bind fun _ => ?_
  simp only [hcomma]
  exact (hw vs opened rfl hvs rest).bind fun _ => gives_pure

theorem readMembers_gives {opened : Nat} {g t k h u s rest : Text} {v : Value}
    {ms : List (Text × Value)} (hg : IsGap g) (hk : Spells care t k) (hh : IsGap h)
    (hu : Reads care .item u v) (hallowed : Allowed care opened v)
    (hs : (s = '\x7d' :: rest ∧ ms = []) ∨
      ∃ s', s = ',' :: s' ∧ Gives (readMembers care opened s') ms rest) :
    Gives (readMembers care opened (member g k h u ++ s)) ((t, v) :: ms) rest := by
  have hclosed : Closed s := by
    obtain ⟨rfl, -⟩ | ⟨s', rfl, -⟩ := hs <;> simp [Closed]
  obtain ⟨b, hb, hv⟩ := hu opened hallowed s hclosed
  obtain ⟨_, hquote⟩ := next?_eq (r := k ++ '"' :: (h ++ ':' :: (u ++ s))) hg (c := '"') rfl
  obtain ⟨_, hcolon⟩ := next?_eq (r := u ++ s) hh (c := ':') rfl
  rw [member_append, readMembers]
  simp only [hquote]
  refine (readString_gives hk _).bind fun _ => ?_
  simp only [hcolon, Tail.within]
  refine hv.bind fun _ => ?_
  obtain ⟨rfl, rfl⟩ | ⟨s', rfl, hms⟩ := hs
  · obtain ⟨_, hclose⟩ := next?_eq (r := rest) hb (c := '\x7d') rfl
    simp only [hclose]
    exact gives_pure
  · obtain ⟨_, hcomma⟩ := next?_eq (r := s') hb (c := ',') rfl
    simp only [hcomma]
    exact hms.bind fun _ => gives_pure

/-- **What a text denotes is read from it**, however it is laid out and however deep it is nested.
-/
theorem Denotes.reads {p : Phrase} {w : Text} {v : Value} (h : Denotes care p w v) :
    Reads care p w v := by
  induction h with
  | null => exact reads_named 'n' "ull" .null (by simp [named])
  | isTrue => exact reads_named 't' "rue" (.bool true) (by simp [named])
  | isFalse => exact reads_named 'f' "alse" (.bool false) (by simp [named])
  | number hw => exact reads_number hw
  | string hw => exact reads_string hw
  | noItems hg => exact reads_noItems hg
  | array hw ih => exact reads_array hw ih
  | noMembers hg => exact reads_noMembers hg
  | object hw ih => exact reads_object hw ih
  | item hg _ hh ih => exact reads_item hg ih hh
  | last _ ih => exact reads_last ih
  | comma _ _ ihv ihw => exact reads_comma ihv ihw
  | lastMember hg hk hh _ ih =>
    rintro _ opened ⟨⟩ hallowed rest
    exact readMembers_gives hg hk hh ih (hallowed _ List.mem_cons_self) (.inl ⟨rfl, rfl⟩)
  | commaMember hg hk hh _ _ ih ihs =>
    rintro _ opened ⟨⟩ hallowed rest
    obtain ⟨hv, hms⟩ := List.forall_mem_cons.1 hallowed
    rw [List.append_assoc, List.cons_append]
    exact readMembers_gives hg hk hh ih hv (.inr ⟨_, rfl, ihs _ opened rfl hms rest⟩)

/-- **What is written by the grammar is skipped** to its end, but for the blanks behind it. -/
theorem Written.skips {w : Text} (h : Written .item w) (opened : Nat) (rest : Text)
    (hrest : Closed rest) :
    ∃ v b, IsGap b ∧ Gives (readValue .skipped opened (w ++ rest)) v (b ++ rest) := by
  obtain ⟨v, hv⟩ := written_iff.1 h
  exact ⟨v, hv.reads opened (allowed_skipped opened v) rest hrest⟩

end QueryEditor.Json
