import QueryEditor.Proofs.Console.Cleaned
import QueryEditor.Proofs.Text.Runs

/-!
# What cleaning takes out of a line

Control sequences do not overlap: each starts with the escape character, which is nowhere else in
it, and its classes of characters tell where it stops. So the places of a line that lie in one are
just those that are taken out with it, whatever incomplete sequences stand between them, and
cleaning leaves the characters at the other places, as far as they are visible.

* `IsSequence`: the control sequences, `InSequence`: the places of a text that lie in one;
* `IsSequence.apart`: control sequences do not overlap;
* `stripSequences_eq_outside`: the text without its control sequences, by its places;
* **`clean_deletes`**: a line is dropped as a whole, or nothing but noise is taken out of it.
-/

namespace QueryEditor

/-- The characters of a text at the places with a property, in order. -/
def Text.select (p : Nat → Bool) (t : Text) : Text :=
  (t.zipIdx.filter fun x => p x.2).map Prod.fst

namespace Text

variable {p q : Nat → Bool} {t : Text}

theorem select_append (p : Nat → Bool) (s t : Text) :
    select p (s ++ t) = select p s ++ select (fun i => p (s.length + i)) t := by
  have hshift : t.zipIdx s.length = t.zipIdx.map fun x => (x.1, s.length + x.2) :=
    List.zipIdx_eq_map_add
  rw [select, List.zipIdx_append, List.filter_append, List.map_append, Nat.zero_add, hshift,
    List.filter_map, List.map_map]
  rfl

theorem select_congr (h : ∀ i < t.length, p i = q i) : select p t = select q t := by
  rw [select, select, List.filter_congr fun x hx => h x.2 (List.snd_lt_of_mem_zipIdx hx)]

theorem select_false (t : Text) : select (fun _ => false) t = [] := by
  rw [select, List.filter_false, List.map_nil]

theorem select_sublist (p : Nat → Bool) (t : Text) : (select p t).Sublist t := by
  have hpart := (List.filter_sublist (p := fun x => p x.2) (l := t.zipIdx)).map Prod.fst
  rwa [List.zipIdx_map_fst] at hpart

theorem filter_select (p : Nat → Bool) (f : Char → Bool) (t : Text) :
    (select p t).filter f = (t.zipIdx.filter fun x => f x.1 && p x.2).map Prod.fst := by
  rw [select, List.filter_map, List.filter_filter]
  rfl

end Text

namespace Noise

/-! ## Control sequences -/

/-- A control sequence: the escape character and a bracket, then parameters and intermediate
characters, as many as there are, and one final character. -/
def IsSequence (w : Text) : Prop :=
  ∃ parameters intermediates final, parameters.all isParameter = true ∧
    intermediates.all isIntermediate = true ∧ isFinal final = true ∧
    w = '\x1b' :: '[' :: (parameters ++ (intermediates ++ [final]))

variable {c : Char} {t w rest : Text}

theorem toNat_of_isParameter (h : isParameter c = true) : 48 ≤ c.toNat ∧ c.toNat ≤ 63 := by
  simp only [isParameter, Bool.or_eq_true, beq_iff_eq] at h
  rcases h with (hdigit | rfl) | rfl
  · have := toNat_of_isDigit hdigit
    omega
  · decide
  · decide

theorem toNat_of_isIntermediate (h : isIntermediate c = true) : 32 ≤ c.toNat ∧ c.toNat ≤ 47 := by
  simpa [isIntermediate, Char.le_def, UInt32.le_iff_toNat_le] using h

theorem toNat_of_isFinal (h : isFinal c = true) : 64 ≤ c.toNat ∧ c.toNat ≤ 126 := by
  simpa [isFinal, Char.le_def, UInt32.le_iff_toNat_le] using h

theorem afterSequence?_eq_some_iff (t rest : Text) : afterSequence? t = some rest ↔
    ∃ body, IsSequence ('\x1b' :: '[' :: body) ∧ t = body ++ rest := by
  constructor
  · intro h
    unfold afterSequence? at h
    split at h
    · cases h
    · rename_i c after hafter
      split at h
      · rename_i hfinal
        obtain rfl := Option.some.inj h
        refine ⟨_, ⟨t.takeWhile isParameter, (t.dropWhile isParameter).takeWhile isIntermediate, c,
          List.all_takeWhile, List.all_takeWhile, hfinal, rfl⟩, ?_⟩
        rw [List.append_assoc, List.append_assoc, List.singleton_append, ← hafter,
          List.takeWhile_append_dropWhile, List.takeWhile_append_dropWhile]
      · cases h
  · rintro ⟨body, ⟨parameters, intermediates, final, hparameters, hintermediates, hfinal, hbody⟩,
      rfl⟩
    have hbody' : body = parameters ++ (intermediates ++ [final]) := by simpa using hbody
    have hnotIntermediate : ∀ c ∈ (final :: rest).head?, isIntermediate c = false := by
      rintro c ⟨⟩
      refine Bool.eq_false_iff.2 fun hc => ?_
      have := toNat_of_isFinal hfinal
      have := toNat_of_isIntermediate hc
      omega
    have hnotParameter : ∀ c ∈ (intermediates ++ final :: rest).head?, isParameter c = false := by
      intro c hc
      refine Bool.eq_false_iff.2 fun hparameter => ?_
      have := toNat_of_isParameter hparameter
      cases intermediates with
      | nil =>
        obtain rfl : final = c := Option.some.inj hc
        have := toNat_of_isFinal hfinal
        omega
      | cons d ds =>
        obtain rfl : d = c := Option.some.inj hc
        have := toNat_of_isIntermediate (List.all_eq_true.1 hintermediates d List.mem_cons_self)
        omega
    rw [hbody', List.append_assoc, List.append_assoc, List.singleton_append, afterSequence?,
      dropWhile_append hparameters hnotParameter, dropWhile_append hintermediates hnotIntermediate]
    simp only [hfinal, if_true]

instance (w : Text) : Decidable (IsSequence w) :=
  decidable_of_iff (w.take 2 = ['\x1b', '['] ∧ afterSequence? (w.drop 2) = some []) <| by
    rw [afterSequence?_eq_some_iff]
    constructor
    · rintro ⟨hfront, body, hbody, hdrop⟩
      rw [List.append_nil] at hdrop
      rwa [← List.take_append_drop 2 w, hfront, hdrop]
    · intro h
      obtain ⟨parameters, intermediates, final, -, -, -, rfl⟩ := id h
      exact ⟨rfl, _, h, (List.append_nil _).symm⟩

namespace IsSequence

theorem exists_body (h : IsSequence w) :
    ∃ body, w = '\x1b' :: '[' :: body ∧ '\x1b' ∉ '[' :: body := by
  obtain ⟨parameters, intermediates, final, hparameters, hintermediates, hfinal, rfl⟩ := h
  refine ⟨_, rfl, fun hmem => ?_⟩
  have hescape : ('\x1b' : Char).toNat = 27 := rfl
  simp only [List.mem_cons, List.mem_append, List.not_mem_nil, or_false] at hmem
  rcases hmem with hbracket | hparameter | hintermediate | heq
  · exact absurd hbracket (by decide)
  · have := toNat_of_isParameter (List.all_eq_true.1 hparameters _ hparameter)
    omega
  · have := toNat_of_isIntermediate (List.all_eq_true.1 hintermediates _ hintermediate)
    omega
  · have := toNat_of_isFinal (heq ▸ hfinal)
    omega

theorem eq_of_append {v x y : Text} (hw : IsSequence w) (hv : IsSequence v)
    (h : w ++ x = v ++ y) : w = v := by
  obtain ⟨body, rfl, -⟩ := hw.exists_body
  obtain ⟨body', rfl, -⟩ := hv.exists_body
  have hbodies : body ++ x = body' ++ y := (List.cons.inj (List.cons.inj h).2).2
  have hx := (afterSequence?_eq_some_iff _ x).2 ⟨body, hw, rfl⟩
  have hy := (afterSequence?_eq_some_iff _ y).2 ⟨body', hv, rfl⟩
  rw [hbodies] at hx
  obtain rfl := Option.some.inj (hx.symm.trans hy)
  rw [List.append_cancel_right hbodies]

/-- **Control sequences do not overlap**: behind one at the front the next one starts behind it. -/
theorem apart {v x y : Text} (hw : IsSequence w) (hv : IsSequence v)
    (h : w ++ rest = x ++ (v ++ y)) :
    (x = [] ∧ w = v) ∨ ∃ x', x = w ++ x' ∧ rest = x' ++ (v ++ y) := by
  rcases List.append_eq_append_iff.1 h with ⟨x', rfl, hrest⟩ | ⟨u, rfl, hu⟩
  · exact .inr ⟨x', rfl, hrest⟩
  · cases u with
    | nil => exact .inr ⟨[], by simp, hu.symm⟩
    | cons d u =>
      obtain ⟨body', rfl, -⟩ := id hv.exists_body
      obtain rfl : '\x1b' = d := (List.cons.inj hu).1
      cases x with
      | nil => exact .inl ⟨rfl, hw.eq_of_append hv h⟩
      | cons c x =>
        -- the escape character would stand inside of the one at the front
        obtain ⟨body, hbody, hescape⟩ := hw.exists_body
        have hinside : x ++ '\x1b' :: u = '[' :: body := (List.cons.inj hbody).2
        exact absurd (hinside ▸ List.mem_append_right x List.mem_cons_self) hescape

end IsSequence

/-! ## Places in control sequences -/

/-- The place of a text lies in a control sequence. -/
def InSequence (t : Text) (i : Nat) : Prop :=
  ∃ start ≤ i, ∃ stop ≤ t.length, i < stop ∧ IsSequence (t.cut start stop)

instance (t : Text) (i : Nat) : Decidable (InSequence t i) :=
  inferInstanceAs (Decidable (∃ start ≤ i, ∃ stop ≤ t.length, i < stop ∧ _))

theorem inSequence_iff (t : Text) (i : Nat) : InSequence t i ↔ ∃ x w y,
    t = x ++ (w ++ y) ∧ IsSequence w ∧ x.length ≤ i ∧ i < x.length + w.length := by
  constructor
  · rintro ⟨start, hstart, stop, hstop, hi, hsequence⟩
    refine ⟨t.take start, t.cut start stop, t.drop stop, ?_, hsequence, ?_, ?_⟩
    · rw [Text.cut_append_drop t (hstart.trans hi.le), List.take_append_drop]
    · exact (List.length_take_le _ _).trans hstart
    · rw [Text.cut, List.length_drop, List.length_take, List.length_take]
      omega
  · rintro ⟨x, w, y, rfl, hsequence, hstart, hstop⟩
    refine ⟨x.length, hstart, (x ++ w).length, ?_, ?_, ?_⟩
    · simp only [List.length_append]
      omega
    · rwa [List.length_append]
    · rwa [Text.cut_append]

theorem inSequence_append (h : IsSequence w) (rest : Text) (i : Nat) :
    InSequence (w ++ rest) (w.length + i) ↔ InSequence rest i := by
  rw [inSequence_iff, inSequence_iff]
  constructor
  · rintro ⟨x, v, y, htext, hv, hstart, hstop⟩
    rcases h.apart hv htext with ⟨rfl, rfl⟩ | ⟨x', rfl, hrest⟩
    · rw [List.length_nil] at hstop
      omega
    · rw [List.length_append] at hstart hstop
      exact ⟨x', v, y, hrest, hv, by omega, by omega⟩
  · rintro ⟨x, v, y, rfl, hv, hstart, hstop⟩
    refine ⟨w ++ x, v, y, (List.append_assoc _ _ _).symm, hv, ?_, ?_⟩
    all_goals
      rw [List.length_append]
      omega

theorem inSequence_of_lt (h : IsSequence w) (rest : Text) {i : Nat} (hi : i < w.length) :
    InSequence (w ++ rest) i :=
  (inSequence_iff _ i).2 ⟨[], w, rest, rfl, h, Nat.zero_le i, by rwa [List.length_nil, Nat.zero_add]⟩

theorem inSequence_cons (h : ∀ w y, c :: rest = w ++ y → ¬ IsSequence w) :
    ¬ InSequence (c :: rest) 0 ∧ ∀ i, InSequence (c :: rest) (1 + i) ↔ InSequence rest i := by
  simp only [inSequence_iff]
  refine ⟨?_, fun i => ⟨?_, ?_⟩⟩
  · rintro ⟨x, w, y, htext, hw, hstart, -⟩
    obtain rfl : x = [] := List.eq_nil_of_length_eq_zero (Nat.le_zero.1 hstart)
    exact h w y htext hw
  · rintro ⟨x, w, y, htext, hw, hstart, hstop⟩
    cases x with
    | nil => exact absurd hw (h w y htext)
    | cons d x =>
      rw [List.length_cons] at hstart hstop
      exact ⟨x, w, y, (List.cons.inj htext).2, hw, by omega, by omega⟩
  · rintro ⟨x, w, y, rfl, hw, hstart, hstop⟩
    refine ⟨c :: x, w, y, rfl, hw, ?_, ?_⟩
    all_goals
      rw [List.length_cons]
      omega

/-! ## The text without its control sequences -/

/-- The characters of a text that lie in no control sequence. -/
def outside (t : Text) : Text := t.select fun i => !decide (InSequence t i)

theorem outside_append (h : IsSequence w) (rest : Text) : outside (w ++ rest) = outside rest := by
  have hfront : w.select (fun i => !decide (InSequence (w ++ rest) i)) = [] := by
    rw [Text.select_congr (q := fun _ => false) fun i hi => by
      simp [inSequence_of_lt h rest hi], Text.select_false]
  rw [outside, Text.select_append, hfront, List.nil_append, outside]
  simp only [inSequence_append h]

theorem outside_cons (h : ∀ w y, c :: rest = w ++ y → ¬ IsSequence w) :
    outside (c :: rest) = c :: outside rest := by
  obtain ⟨hfirst, hrest⟩ := inSequence_cons h
  have hsplit : c :: rest = [c] ++ rest := rfl
  rw [outside, hsplit, Text.select_append]
  simp [Text.select, hfirst, hrest, outside]

/-- **The text without its control sequences**, by its places. -/
theorem stripSequences_eq_outside (t : Text) : stripSequences t = outside t := by
  induction t using stripSequences.induct with
  | case1 rest rest' hafter ih =>
    obtain ⟨body, hbody, rfl⟩ := (afterSequence?_eq_some_iff rest rest').1 hafter
    have hsplit : '\x1b' :: '[' :: (body ++ rest') = ('\x1b' :: '[' :: body) ++ rest' := rfl
    rw [hsplit, outside_append hbody, ← ih, List.cons_append, List.cons_append, stripSequences,
      hafter]
  | case2 rest hafter ih =>
    rw [outside_cons, ← ih, stripSequences, hafter]
    intro w y htext hw
    obtain ⟨body, rfl, -⟩ := id hw.exists_body
    have hrest : rest = body ++ y := (List.cons.inj (List.cons.inj htext).2).2
    have hsome := (afterSequence?_eq_some_iff rest y).2 ⟨body, hw, hrest⟩
    exact absurd (hafter.symm.trans hsome) (Option.some_ne_none _).symm
  | case3 => rw [stripSequences, outside, Text.select, List.zipIdx_nil]; rfl
  | case4 c rest hother ih =>
    rw [outside_cons, ← ih, stripSequences]
    · exact hother
    · intro w y htext hw
      obtain ⟨body, rfl, -⟩ := hw.exists_body
      exact hother (body ++ y) (List.cons.inj htext).1 (List.cons.inj htext).2

/-! ## Cleaning -/

/-- A tab, a line break, or printable ASCII but the question mark. -/
def IsShown (c : Char) : Prop :=
  c = '\t' ∨ c = '\r' ∨ c = '\n' ∨ (' ' ≤ c ∧ c ≤ '~' ∧ c ≠ '?')

theorem isVisible_iff (c : Char) : isVisible c = true ↔ IsShown c := by
  simp only [isVisible, IsShown, Bool.or_eq_true, Bool.and_eq_true, decide_eq_true_eq, bne_iff_ne,
    beq_iff_eq]
  tauto

instance (c : Char) : Decidable (IsShown c) := decidable_of_iff _ (isVisible_iff c)

/-- A line is dropped as a whole, or it is what is visible outside its control sequences. -/
theorem eq_of_clean {p raw cleaned : Text} (h : clean p raw = some cleaned) :
    cleaned = (outside raw).filter isVisible := by
  rw [← stripSequences_eq_outside]
  exact (clean_kept_iff.1 h).2.1

/-- **What cleaning takes out of a line.** What is left of it is a part of it that is all shown, and
has the characters that are shown at the places outside its control sequences, in order. A line
that is all shown is dropped as a whole or left as it is. -/
theorem clean_deletes (p raw : Text) :
    (∀ cleaned, clean p raw = some cleaned →
      cleaned.Sublist raw ∧ (∀ c ∈ cleaned, IsShown c) ∧
      cleaned = (raw.zipIdx.filter fun x => IsShown x.1 ∧ ¬ InSequence raw x.2).map Prod.fst) ∧
    ((∀ c ∈ raw, IsShown c) → clean p raw = none ∨ clean p raw = some raw) := by
  constructor
  · intro cleaned h
    have hshown : ∀ c ∈ cleaned, IsShown c := fun c hc =>
      (isVisible_iff c).1 (isVisible_of_mem_clean h c hc)
    obtain rfl := eq_of_clean h
    refine ⟨List.filter_sublist.trans (Text.select_sublist _ raw), hshown, ?_⟩
    rw [outside, Text.filter_select]
    refine congrArg (List.map Prod.fst) (List.filter_congr fun x _ => ?_)
    rw [Bool.eq_iff_iff]
    simp [isVisible_iff]
  · intro hshown
    have hescape : '\x1b' ∉ raw := fun hmem => absurd (hshown _ hmem) (by decide)
    have hvisible : raw.filter isVisible = raw :=
      List.filter_eq_self.2 fun c hc => (isVisible_iff c).2 (hshown c hc)
    cases h : clean p raw with
    | none => exact .inl rfl
    | some cleaned =>
      rw [eq_of_clean h, ← stripSequences_eq_outside, stripSequences_of_not_mem hescape, hvisible]
      exact .inr rfl

/-- A colour is taken out, and of an incomplete sequence behind it the escape character alone. -/
theorem clean_deletes_incomplete :
    clean ">>>".toList "\x1b[1;32mé?a\x1b[0".toList = some "a[0".toList ∧
      "a[0".toList.Sublist "\x1b[1;32mé?a\x1b[0".toList ∧ (∀ c ∈ "a[0".toList, IsShown c) := by
  have hclean : clean ">>>".toList "\x1b[1;32mé?a\x1b[0".toList = some "a[0".toList := by
    decide +kernel
  obtain ⟨hpart, hshown, -⟩ := (clean_deletes _ _).1 _ hclean
  exact ⟨hclean, hpart, hshown⟩

end Noise

end QueryEditor
