import QueryEditor.Data.Table
import QueryEditor.Proofs.Console.Lines
import QueryEditor.Proofs.Text.Trimmed

/-!
# Listings of tables

A listing is read line by line, whatever its breaks are: white space behind a line makes no
difference to its table, nor does white space around the list of its attributes. A table that can be
listed has no mark of a listing inside its name or its attributes, and no white space at their ends.

* `outputLines_append_feed`: the line in front of a break, `Joined`: lines with breaks between them;
* `Table.mark_induction`, `Table.of_mem_entries`: the entries of a list;
* `Table.IsEntry`, `Table.IsListable`: what can be listed, `Table.line`: the line of a table;
* `Table.ofLine?_append_of_isBlank`: white space behind a line;
* **`Table.listed_of_joined`**: a listing is read line by line.
-/

namespace QueryEditor

/-! ## Lines of printed output -/

variable {l : Text}

theorem outputLines_cons {c : Char} {t : Text} (hfeed : c ≠ '\n')
    (hboth : c = '\r' → t.head? ≠ some '\n') :
    outputLines (c :: t) = pushLine c (outputLines t) := by
  rw [outputLines, if_neg hfeed]
  rintro rest rfl rfl
  exact hboth rfl rfl

theorem outputLines_append_feed (h : '\n' ∉ l) (rest : Text) :
    outputLines (l ++ '\r' :: '\n' :: rest) = l :: outputLines rest ∧
      (l.getLast? ≠ some '\r' → outputLines (l ++ '\n' :: rest) = l :: outputLines rest) := by
  induction l with
  | nil => exact ⟨rfl, fun _ => rfl⟩
  | cons c l ih =>
    obtain ⟨hc, hl⟩ := not_or.1 (mt List.mem_cons.2 h)
    obtain ⟨ihboth, ihfeed⟩ := ih hl
    constructor
    · rw [List.cons_append, outputLines_cons (Ne.symm hc), ihboth, pushLine]
      intro _ hhead
      cases l with
      | nil => exact absurd (Option.some.inj hhead) (by decide)
      | cons d l => exact hl (Option.some.inj hhead ▸ List.mem_cons_self)
    · intro hlast
      have hlast' : l.getLast? ≠ some '\r' := by
        cases l with
        | nil => exact (Option.some_ne_none _).symm
        | cons d l => simpa using hlast
      rw [List.cons_append, outputLines_cons (Ne.symm hc), ihfeed hlast', pushLine]
      intro hreturn hhead
      cases l with
      | nil => exact hlast (hreturn ▸ rfl)
      | cons d l => exact hl (Option.some.inj hhead ▸ List.mem_cons_self)

theorem outputLines_of_feed_not_mem (h : '\n' ∉ l) :
    outputLines l = if l = [] then [] else [l] := by
  induction l with
  | nil => rfl
  | cons c l ih =>
    obtain ⟨hc, hl⟩ := not_or.1 (mt List.mem_cons.2 h)
    rw [outputLines_cons (Ne.symm hc), ih hl, if_neg (List.cons_ne_nil c l)]
    · split
      · rename_i hnil
        rw [hnil]
        rfl
      · rfl
    · intro _ hhead
      exact hl (List.mem_of_mem_head? hhead)

theorem feed_not_mem_of_mem_outputLines (t : Text) : ∀ l ∈ outputLines t, '\n' ∉ l := by
  fun_induction outputLines t with
  | case1 => exact List.forall_mem_nil _
  | case2 rest ih => exact List.forall_mem_cons.2 ⟨List.not_mem_nil, ih⟩
  | case3 rest _ ih => exact List.forall_mem_cons.2 ⟨List.not_mem_nil, ih⟩
  | case4 c rest _ hc ih =>
    cases houtput : outputLines rest with
    | nil =>
      rw [pushLine]
      simpa using Ne.symm hc
    | cons l lines =>
      rw [houtput] at ih
      obtain ⟨hl, hlines⟩ := List.forall_mem_cons.1 ih
      rw [pushLine]
      refine List.forall_mem_cons.2 ⟨?_, hlines⟩
      exact mt List.mem_cons.1 (not_or.2 ⟨Ne.symm hc, hl⟩)

/-- The lines, one behind the other, with a break between any two: a line feed, or a carriage return
and a line feed. -/
inductive Joined : List Text → Text → Prop where
  | nil : Joined [] []
  | last (l : Text) : Joined [l] l
  | cons {l b t : Text} {lines : List Text} : b ∈ [['\n'], ['\r', '\n']] → lines ≠ [] →
      Joined lines t → Joined (l :: lines) (l ++ (b ++ t))

theorem joined_joinWith (lines : List Text) : Joined lines (Text.joinWith ['\n'] lines) := by
  induction lines with
  | nil => exact .nil
  | cons l lines ih =>
    cases lines with
    | nil =>
      rw [Text.joinWith_singleton]
      exact .last l
    | cons next lines =>
      rw [Text.joinWith_cons_cons]
      exact .cons List.mem_cons_self (List.cons_ne_nil _ _) ih

/-! ## Joined texts -/

theorem Text.mem_joinWith {sep : Text} {pieces : List Text} {c : Char}
    (h : c ∈ joinWith sep pieces) : (∃ piece ∈ pieces, c ∈ piece) ∨ c ∈ sep := by
  induction pieces with
  | nil => exact absurd h List.not_mem_nil
  | cons piece pieces ih =>
    cases pieces with
    | nil =>
      rw [joinWith_singleton] at h
      exact .inl ⟨piece, List.mem_singleton_self _, h⟩
    | cons next pieces =>
      rw [joinWith_cons_cons, List.mem_append, List.mem_append] at h
      rcases h with hfirst | hsep | hlater
      · exact .inl ⟨piece, List.mem_cons_self, hfirst⟩
      · exact .inr hsep
      · rcases ih hlater with ⟨later, hmem, hc⟩ | hsep
        · exact .inl ⟨later, List.mem_cons_of_mem _ hmem, hc⟩
        · exact .inr hsep

namespace Table

/-! ## Marks -/

theorem splitFirst_append {mark : Char} {a : Text} (h : mark ∉ a) (b : Text) :
    splitFirst mark (a ++ mark :: b) = (a, b) := by
  have hbefore : ∀ c ∈ a, (c != mark) = true := fun c hc =>
    bne_iff_ne.2 fun heq => h (heq ▸ hc)
  rw [splitFirst, List.takeWhile_append_of_pos hbefore, List.dropWhile_append_of_pos hbefore]
  simp

theorem splitFirst_of_not_mem {mark : Char} {a : Text} (h : mark ∉ a) :
    splitFirst mark a = (a, []) := by
  have hall : ∀ c ∈ a, (c != mark) = true := fun c hc =>
    bne_iff_ne.2 fun heq => h (heq ▸ hc)
  rw [splitFirst, List.takeWhile_eq_self_iff.2 hall, List.dropWhile_eq_nil_iff.2 hall]
  rfl

theorem entries_append_comma (s t : Text) : entries (s ++ ',' :: t) = entries s ++ entries t := by
  have hsplit : (s ++ ',' :: t).splitOn ',' = s.splitOn ',' ++ t.splitOn ',' :=
    List.splitOnP_append_cons s t (beq_self_eq_true ',')
  rw [entries, hsplit, List.map_append, List.filter_append, entries, entries]

theorem entries_of_not_mem {s : Text} (h : ',' ∉ s) :
    entries s = if s.trim = [] then [] else [s.trim] := by
  have hsplit : s.splitOn ',' = [s] :=
    List.splitOnP_eq_singleton fun c hc => beq_eq_false_iff_ne.2 fun heq => h (heq ▸ hc)
  rw [entries, hsplit]
  by_cases hs : s.trim = []
  · simp [hs]
  · simp [hs]

theorem comma_not_mem_of_isBlank {u : Text} (h : u.isBlank = true) : ',' ∉ u := fun hmem =>
  absurd ((Text.isBlank_iff_forall u).1 h _ hmem) (by decide)

/-- What holds of a text without the mark, and of a text with one more piece in front of the mark,
holds of every text. -/
theorem mark_induction (mark : Char) {P : Text → Prop} (piece : ∀ t, mark ∉ t → P t)
    (cons : ∀ s t, mark ∉ s → P t → P (s ++ mark :: t)) (t : Text) : P t := by
  by_cases h : mark ∈ t
  · obtain ⟨s, rest, ht, hs⟩ := List.eq_append_cons_of_mem h
    have hshorter : rest.length < t.length := by
      rw [ht, List.length_append, List.length_cons]
      omega
    rw [ht]
    exact cons s rest hs (mark_induction mark piece cons rest)
  · exact piece t h
  termination_by t.length

theorem of_mem_entries {t a : Text} (h : a ∈ entries t) :
    a ≠ [] ∧ a.trim = a ∧ ',' ∉ a ∧ a ⊆ t := by
  have hpiece : ∀ s : Text, ',' ∉ s → a ∈ entries s →
      a ≠ [] ∧ a.trim = a ∧ ',' ∉ a ∧ a ⊆ s := by
    intro s hs ha
    rw [entries_of_not_mem hs] at ha
    split at ha
    · exact absurd ha List.not_mem_nil
    · rename_i hne
      obtain rfl := List.mem_singleton.1 ha
      have hsubset : s.trim ⊆ s := (Text.trim_isInfix s).subset
      exact ⟨hne, Text.trim_trim s, fun hcomma => hs (hsubset hcomma), hsubset⟩
  induction t using mark_induction ',' with
  | piece t ht => exact hpiece t ht h
  | cons s t hs ih =>
    rw [entries_append_comma, List.mem_append] at h
    rcases h with h | h
    · obtain ⟨hne, htrim, hcomma, hsubset⟩ := hpiece s hs h
      exact ⟨hne, htrim, hcomma, List.subset_append_of_subset_left _ hsubset⟩
    · obtain ⟨hne, htrim, hcomma, hsubset⟩ := ih h
      exact ⟨hne, htrim, hcomma,
        List.subset_append_of_subset_right _ (List.subset_cons_of_subset _ hsubset)⟩

theorem entries_append_of_isBlank {u : Text} (hu : u.isBlank = true) (t : Text) :
    entries (u ++ t) = entries t ∧ entries (t ++ u) = entries t := by
  have hcomma := comma_not_mem_of_isBlank hu
  have hpiece : ∀ s : Text, ',' ∉ s → entries (u ++ s) = entries s := by
    intro s hs
    rw [entries_of_not_mem (mt List.mem_append.1 (not_or.2 ⟨hcomma, hs⟩)),
      Text.trim_append_of_isBlank hu, entries_of_not_mem hs]
  induction t using mark_induction ',' with
  | piece t ht =>
    refine ⟨hpiece t ht, ?_⟩
    rw [entries_of_not_mem (mt List.mem_append.1 (not_or.2 ⟨ht, hcomma⟩)),
      Text.trim_append_right_of_isBlank hu, entries_of_not_mem ht]
  | cons s t hs ih =>
    constructor
    · rw [← List.append_assoc, entries_append_comma, hpiece s hs, entries_append_comma]
    · rw [List.append_assoc, List.cons_append, entries_append_comma, ih.2, entries_append_comma]

theorem entries_joinWith_comma (pieces : List Text) :
    entries (Text.joinWith [','] pieces) = pieces.flatMap entries := by
  induction pieces with
  | nil => rfl
  | cons piece pieces ih =>
    cases pieces with
    | nil => simp [Text.joinWith_singleton]
    | cons next pieces =>
      rw [Text.joinWith_cons_cons, List.singleton_append, entries_append_comma, ih]
      exact List.flatMap_cons.symm

/-- The text can be an attribute in a listing: there is something in it, but no mark, and no white
space at its ends. -/
structure IsEntry (a : Text) : Prop where
  ne_nil : a ≠ []
  trimmed : a.trim = a
  comma : ',' ∉ a
  colon : ':' ∉ a
  opening : '\x7b' ∉ a
  closing : '\x7d' ∉ a

instance (a : Text) : Decidable (IsEntry a) :=
  decidable_of_iff (a ≠ [] ∧ a.trim = a ∧ ',' ∉ a ∧ ':' ∉ a ∧ '\x7b' ∉ a ∧ '\x7d' ∉ a)
    ⟨fun ⟨hne, htrimmed, hcomma, hcolon, hopening, hclosing⟩ =>
        ⟨hne, htrimmed, hcomma, hcolon, hopening, hclosing⟩,
      fun ⟨hne, htrimmed, hcomma, hcolon, hopening, hclosing⟩ =>
        ⟨hne, htrimmed, hcomma, hcolon, hopening, hclosing⟩⟩

theorem entries_entry {a u v : Text} (ha : IsEntry a) (hu : u.isBlank = true)
    (hv : v.isBlank = true) : entries (u ++ a ++ v) = [a] := by
  have hcomma : ',' ∉ u ++ a ++ v := by
    simp only [List.mem_append, not_or]
    exact ⟨⟨comma_not_mem_of_isBlank hu, ha.comma⟩, comma_not_mem_of_isBlank hv⟩
  have htrim : (u ++ a ++ v).trim = a := by
    rw [Text.trim_append_right_of_isBlank hv, Text.trim_append_of_isBlank hu, ha.trimmed]
  rw [entries_of_not_mem hcomma, htrim, if_neg ha.ne_nil]

theorem entries_of_isBlank {u : Text} (h : u.isBlank = true) : entries u = [] := by
  rw [entries_of_not_mem (comma_not_mem_of_isBlank h), if_pos ((Text.isBlank_iff u).1 h)]

/-! ## The line of a table -/

/-- The name and the attributes of the table can be read back. -/
structure IsListable (t : Table) : Prop where
  name_trimmed : t.name.trim = t.name
  name_colon : ':' ∉ t.name
  attributes : ∀ a ∈ t.attributes, IsEntry a

/-- What stands between the braces: the attributes, or a number of blanks if there are none. -/
def inner (t : Table) (blanks : Nat) : Text :=
  if t.attributes = [] then List.replicate blanks ' '
  else ' ' :: Text.joinWith ", ".toList t.attributes ++ [' ']

def line (t : Table) (blanks : Nat) : Text :=
  t.name ++ " : \x7b".toList ++ t.inner blanks ++ ['\x7d']

theorem inner_eq_replicate {t : Table} (h : t.attributes = []) (blanks : Nat) :
    t.inner blanks = List.replicate blanks ' ' := if_pos h

theorem inner_eq_joinWith {t : Table} (h : t.attributes ≠ []) (blanks : Nat) :
    t.inner blanks = [' '] ++ Text.joinWith ", ".toList t.attributes ++ [' '] := if_neg h

theorem mem_inner {t : Table} {blanks : Nat} {c : Char} (h : c ∈ t.inner blanks) :
    (∃ a ∈ t.attributes, c ∈ a) ∨ c = ' ' ∨ c = ',' := by
  by_cases hnil : t.attributes = []
  · rw [inner_eq_replicate hnil] at h
    exact .inr (.inl (List.eq_of_mem_replicate h))
  · simp only [inner_eq_joinWith hnil, List.mem_append, List.mem_singleton] at h
    rcases h with (hblank | hjoined) | hblank
    · exact .inr (.inl hblank)
    · rcases Text.mem_joinWith hjoined with hattribute | hsep
      · exact .inl hattribute
      · exact .inr (List.mem_pair.1 hsep).symm
    · exact .inr (.inl hblank)

/-! ## Tables by their lines -/

theorem ofLine?_of_colon_not_mem {l : Text} (h : ':' ∉ l) : ofLine? l = none := by
  rw [ofLine?, if_neg (mt List.contains_iff_mem.1 h)]

theorem filter_unbraced {x : Text} (hopening : '\x7b' ∉ x) (hclosing : '\x7d' ∉ x) :
    x.filter (fun c => c != '\x7b' && c != '\x7d') = x := by
  refine List.filter_eq_self.2 fun c hc => ?_
  have hopen : c ≠ '\x7b' := fun heq => hopening (heq ▸ hc)
  have hclose : c ≠ '\x7d' := fun heq => hclosing (heq ▸ hc)
  simp [hopen, hclose]

theorem ofLine?_append_of_isBlank {u : Text} (hu : u.isBlank = true) (l : Text) :
    ofLine? (l ++ u) = ofLine? l := by
  have hwhite := (Text.isBlank_iff_forall u).1 hu
  have hcolon : ':' ∉ u := fun hmem => absurd (hwhite _ hmem) (by decide)
  have hkept := filter_unbraced (x := u) (fun hmem => absurd (hwhite _ hmem) (by decide))
    fun hmem => absurd (hwhite _ hmem) (by decide)
  by_cases hl : ':' ∈ l
  · obtain ⟨name, rest, rfl, hname⟩ := List.eq_append_cons_of_mem hl
    have hmarked : ∀ x : Text, (name ++ ':' :: x).contains ':' = true := fun x =>
      List.contains_iff_mem.2 (List.mem_append_right _ List.mem_cons_self)
    rw [List.append_assoc, List.cons_append, ofLine?, ofLine?, if_pos (hmarked _),
      if_pos (hmarked _), splitFirst_append hname, splitFirst_append hname]
    by_cases hrest : ':' ∈ rest
    · obtain ⟨inside, more, rfl, hinside⟩ := List.eq_append_cons_of_mem hrest
      rw [List.append_assoc, List.cons_append]
      simp only [splitFirst_append hinside]
    · have hnone := mt List.mem_append.1 (not_or.2 ⟨hrest, hcolon⟩)
      simp only [splitFirst_of_not_mem hrest, splitFirst_of_not_mem hnone, List.filter_append,
        hkept, (entries_append_of_isBlank hu _).2]
  · have hnone := mt List.mem_append.1 (not_or.2 ⟨hl, hcolon⟩)
    rw [ofLine?, ofLine?, if_neg (mt List.contains_iff_mem.1 hnone),
      if_neg (mt List.contains_iff_mem.1 hl)]

/-- **A listing is read line by line**, whatever its breaks. -/
theorem listed_of_joined {lines : List Text} {output : Text} (h : Joined lines output)
    (hlines : ∀ l ∈ lines, '\n' ∉ l) : listed output = lines.filterMap ofLine? := by
  induction h with
  | nil => rfl
  | last l =>
    have hl := hlines l (List.mem_singleton_self l)
    rw [listed, outputLines_of_feed_not_mem hl]
    split
    · rename_i hnil
      rw [hnil]
      rfl
    · rfl
  | @cons l b t lines hb _ _ ih =>
    obtain ⟨hl, hrest⟩ := List.forall_mem_cons.1 hlines
    -- A carriage return at the end of a line is taken for part of its break, which makes no
    -- difference to the table of the line.
    have hfirst : ∃ l', outputLines (l ++ (b ++ t)) = l' :: outputLines t ∧
        ofLine? l' = ofLine? l := by
      simp only [List.mem_cons, List.not_mem_nil, or_false] at hb
      rcases hb with rfl | rfl
      · by_cases hlast : l.getLast? = some '\r'
        · obtain ⟨l', rfl⟩ := List.getLast?_eq_some_iff.1 hlast
          have hl' : '\n' ∉ l' := fun hmem => hl (List.mem_append_left _ hmem)
          refine ⟨l', ?_, (ofLine?_append_of_isBlank rfl l').symm⟩
          rw [List.append_assoc]
          exact (outputLines_append_feed hl' t).1
        · exact ⟨l, (outputLines_append_feed hl t).2 hlast, rfl⟩
      · exact ⟨l, (outputLines_append_feed hl t).1, rfl⟩
    obtain ⟨l', houtput, hl'⟩ := hfirst
    rw [listed] at ih
    rw [listed, houtput, List.filterMap_cons, hl', ih hrest, ← List.filterMap_cons]

/-- **A listing is read line by line**, with line feeds between the lines. -/
theorem listed_joinWith {lines : List Text} (h : ∀ l ∈ lines, Unbroken l) :
    listed (Text.joinWith ['\n'] lines) = lines.filterMap ofLine? :=
  listed_of_joined (joined_joinWith lines) fun l hl hfeed => h l hl _ hfeed (.inr rfl)

end Table

end QueryEditor
