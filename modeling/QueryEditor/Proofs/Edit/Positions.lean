import QueryEditor.Proofs.Line.Replaced

/-!
# Positions follow their characters

A change whose ends are in order leaves what is in front of it where it is, and moves what is behind
it by as much as the text grows or shrinks. A position is mapped to where its character is found,
the end of the text to the end, and a position whose character is taken out to the end of what was
put in, unless the change starts there. So each place of the new text is that of one character that
was left or of one that was put in.

* `Change.Leaves`: the change does not take out the character at a position;
* `mapPos_of_lt`, `mapPos_start`, `mapPos_within`, `mapPos_of_le`: where a position goes;
* **`Change.mapPos_mono`**: positions keep their order;
* `Document.getElem?_mapPos`, `Document.perm_places`: characters and places;
* **`Document.carries_replace`**: what holds of the positions of a text at every change inside it.
-/

namespace QueryEditor

theorem range_add_add (i j k : Nat) : List.range (i + j + k) =
    List.range i ++ (List.range' i j ++ List.range' (i + j) k) := by
  have hwhole := List.range'_append_1 (s := 0) (m := i) (n := j + k)
  rw [Nat.zero_add] at hwhole
  rw [List.range'_append_1, List.range_eq_range', List.range_eq_range', hwhole, Nat.add_assoc]

namespace Change

variable {c : Change} {p q : Nat}

/-! ## Where a position goes -/

theorem mapPos_of_lt (h : p < c.start) : c.mapPos p = p := if_pos (.inl h)

theorem mapPos_start (h : c.start < c.stop) : c.mapPos c.start = c.start := if_pos (.inr ⟨rfl, h⟩)

theorem mapPos_within (hstart : c.start < p) (hstop : p < c.stop) :
    c.mapPos p = c.start + c.newLength := by
  unfold mapPos
  rw [if_neg (by omega), if_neg (by omega), if_neg (by omega)]

theorem mapPos_of_le (h : c.start ≤ c.stop) (hp : c.stop ≤ p) :
    c.mapPos p = c.start + c.newLength + (p - c.stop) := by
  unfold mapPos
  rw [if_neg (by omega)]
  split
  · omega
  · rw [if_pos (by omega)]
    omega

theorem mapPos_cases (h : c.start ≤ c.stop) (p : Nat) :
    (p < c.start ∧ c.mapPos p = p) ∨
    (p = c.start ∧ p < c.stop ∧ c.mapPos p = c.start) ∨
    (c.start < p ∧ p < c.stop ∧ c.mapPos p = c.start + c.newLength) ∨
    (c.stop ≤ p ∧ c.mapPos p = c.start + c.newLength + (p - c.stop)) := by
  rcases Nat.lt_trichotomy p c.start with hlt | rfl | hgt
  · exact .inl ⟨hlt, mapPos_of_lt hlt⟩
  · rcases Nat.lt_or_ge c.start c.stop with hstop | hstop
    · exact .inr (.inl ⟨rfl, hstop, mapPos_start hstop⟩)
    · exact .inr (.inr (.inr ⟨hstop, mapPos_of_le h hstop⟩))
  · rcases Nat.lt_or_ge p c.stop with hstop | hstop
    · exact .inr (.inr (.inl ⟨hgt, hstop, mapPos_within hgt hstop⟩))
    · exact .inr (.inr (.inr ⟨hstop, mapPos_of_le h hstop⟩))

/-- **Positions keep their order.** -/
theorem mapPos_mono (h : c.start ≤ c.stop) (hpq : p ≤ q) : c.mapPos p ≤ c.mapPos q := by
  have hp := mapPos_cases h p
  have hq := mapPos_cases h q
  omega

theorem start_le_mapPos (h : c.start ≤ c.stop) (hp : c.start ≤ p) : c.start ≤ c.mapPos p := by
  have := mapPos_cases h p
  omega

/-! ## Places -/

/-- The change does not take out the character at a position. -/
def Leaves (c : Change) (pos : Nat) : Prop := pos < c.start ∨ c.stop ≤ pos

instance (c : Change) : DecidablePred c.Leaves := fun pos =>
  inferInstanceAs (Decidable (pos < c.start ∨ c.stop ≤ pos))

theorem filter_leaves {length : Nat} (h : c.Inside length) :
    (List.range length).filter (fun pos => c.Leaves pos) =
      List.range c.start ++ List.range' c.stop (length - c.stop) := by
  have hfront : (List.range c.start).filter (fun pos => c.Leaves pos) = List.range c.start := by
    refine List.filter_eq_self.2 fun pos hpos => decide_eq_true (.inl ?_)
    exact List.mem_range.1 hpos
  have hout : (List.range' c.start (c.stop - c.start)).filter (fun pos => c.Leaves pos) = [] := by
    refine List.filter_eq_nil_iff.2 fun pos hpos hleft => ?_
    rw [List.mem_range'_1] at hpos
    have : pos < c.start ∨ c.stop ≤ pos := of_decide_eq_true hleft
    omega
  have hbehind : (List.range' c.stop (length - c.stop)).filter (fun pos => c.Leaves pos) =
      List.range' c.stop (length - c.stop) := by
    refine List.filter_eq_self.2 fun pos hpos => decide_eq_true (.inr ?_)
    exact (List.mem_range'_1.1 hpos).1
  have hstop : c.start + (c.stop - c.start) = c.stop := Nat.add_sub_cancel' h.1
  have hparts := range_add_add c.start (c.stop - c.start) (length - c.stop)
  rw [hstop, Nat.add_sub_cancel' h.2] at hparts
  rw [hparts, List.filter_append, List.filter_append, hfront, hout, hbehind, List.nil_append]

theorem map_mapPos_leaves {length : Nat} (h : c.Inside length) :
    ((List.range length).filter fun pos => c.Leaves pos).map c.mapPos =
      List.range c.start ++ List.range' (c.start + c.newLength) (length - c.stop) := by
  have hfront : (List.range c.start).map c.mapPos = List.range c.start := by
    calc (List.range c.start).map c.mapPos
      _ = (List.range c.start).map id :=
        List.map_congr_left fun p hp => mapPos_of_lt (List.mem_range.1 hp)
      _ = List.range c.start := List.map_id _
  have hbehind : (List.range' c.stop (length - c.stop)).map c.mapPos =
      List.range' (c.start + c.newLength) (length - c.stop) := by
    rw [List.range'_eq_map_range, List.map_map, List.range'_eq_map_range]
    refine List.map_congr_left fun i _ => ?_
    rw [Function.comp_apply, mapPos_of_le h.1 (Nat.le_add_right _ _), Nat.add_sub_cancel_left]
  rw [filter_leaves h, List.map_append, hfront, hbehind]

end Change

namespace Document

variable {d : Document} {c : Change}

theorem text_replace (h : c.Inside d.length) :
    (d.replace c).text = d.text.take c.start ++ c.new ++ d.text.drop c.stop := by
  rw [replace_eq h, Text.splice]

theorem length_replace (h : c.Inside d.length) :
    (d.replace c).length = c.start + c.newLength + (d.length - c.stop) := by
  rw [replace_eq h]
  exact Text.length_splice d.text c.new (Nat.le_trans h.1 h.2)

theorem mapPos_length (h : c.Inside d.length) : c.mapPos d.length = (d.replace c).length := by
  rw [Change.mapPos_of_le h.1 h.2, length_replace h]

/-- **A character that is left is found where its position is mapped to.** -/
theorem getElem?_mapPos (h : c.Inside d.length) {p : Nat} (hp : c.Leaves p) :
    (d.replace c).text[c.mapPos p]? = d.text[p]? := by
  have hlength : (d.text.take c.start).length = c.start :=
    List.length_take_of_le (Nat.le_trans h.1 h.2)
  rw [text_replace h, List.append_assoc]
  rcases hp with hlt | hle
  · rw [Change.mapPos_of_lt hlt, List.getElem?_append_left (by omega), List.getElem?_take_of_lt hlt]
  · rw [Change.mapPos_of_le h.1 hle, List.getElem?_append_right (by omega),
      List.getElem?_append_right (by rw [Change.newLength]; omega), List.getElem?_drop, hlength]
    congr 1
    rw [Change.newLength]
    omega

theorem cut_replace (h : c.Inside d.length) :
    (d.replace c).text.cut c.start (c.start + c.newLength) = c.new := by
  have hlength : (d.text.take c.start).length = c.start :=
    List.length_take_of_le (Nat.le_trans h.1 h.2)
  have hcut := Text.cut_append (d.text.take c.start) c.new (d.text.drop c.stop)
  rw [List.length_append, hlength, ← List.append_assoc] at hcut
  rw [text_replace h]
  exact hcut

/-- **Every place of the new text is taken once**, by a character that was left or by one that was
put in. -/
theorem perm_places (h : c.Inside d.length) :
    ((((List.range d.length).filter fun pos => c.Leaves pos).map c.mapPos) ++
      List.range' c.start c.newLength).Perm (List.range (d.replace c).length) := by
  rw [Change.map_mapPos_leaves h, length_replace h, range_add_add, List.append_assoc]
  exact List.perm_append_comm.append_left _

end Document

/-! ## All positions of a text -/

/-- The change carries the positions of a text along. -/
structure Change.Carries (c : Change) (d : Document) : Prop where
  /-- A character that is left is found where its position is mapped to. -/
  left : ∀ p < d.length, c.Leaves p →
    ∃ x, d.text[p]? = some x ∧ (d.replace c).text[c.mapPos p]? = some x
  /-- The end stays the end. -/
  last : c.mapPos d.length = (d.replace c).length
  /-- A position inside what is taken out goes to the end of what is put in. -/
  within : ∀ p, c.start < p → p < c.stop → c.mapPos p = c.start + c.newLength
  /-- The start of what is taken out stays. -/
  first : c.start < c.stop → c.mapPos c.start = c.start
  /-- What is put in stands where the change starts. -/
  new : (d.replace c).text.cut c.start (c.start + c.newLength) = c.new
  /-- Each place of the new text is that of one character left or put in. -/
  places : (((List.range d.length).filter fun p => c.Leaves p).map c.mapPos ++
    List.range' c.start c.newLength).Perm (List.range (d.replace c).length)

/-- **Positions follow their characters**, at every change that lies inside the text. -/
theorem Document.carries_replace (d : Document) {c : Change} (h : c.Inside d.length) :
    c.Carries d where
  left p hp hleft := by
    have hx : d.text[p]? = some d.text[p] := List.getElem?_eq_getElem hp
    exact ⟨d.text[p], hx, (getElem?_mapPos h hleft).trans hx⟩
  last := mapPos_length h
  within _ hstart hstop := Change.mapPos_within hstart hstop
  first := Change.mapPos_start
  new := cut_replace h
  places := perm_places h

/-- Two characters replaced by three. -/
theorem Document.carries_replace_longer :
    let d : Document := ⟨"R <X> S".toList⟩
    let c : Change := ⟨2, 4, "xyz".toList⟩
    c.Inside d.length ∧ c.Carries d ∧ [1, 2, 3, 4, 7].map c.mapPos = [1, 2, 5, 5, 8] :=
  have h : (Change.mk 2 4 "xyz".toList).Inside 7 := ⟨by decide, by decide⟩
  ⟨h, carries_replace ⟨"R <X> S".toList⟩ h, by decide⟩

end QueryEditor
