import QueryEditor.Proofs.Data.Listing

/-!
# Printed tables are read back

A listing may be printed with white space around every part of a line, with entries that are empty,
with other lines between those of the tables, and with either break. It is read as the tables that
were printed. Every table that is read, from whatever output, can be printed; so reading, printing
and reading again is reading once.

* `IsWellFormed`: tables that can be printed, `isWellFormed_of_mem_listed`: every table that is read
  is one of them;
* `Pieces`, `IsLine`, `Prints`: how tables may be printed, `printed`: one way to do it;
* **`ofLine?_of_isLine`**: a printed line gives its table;
* **`listing_round_trip`**: what is printed is read back.
-/

namespace QueryEditor

namespace Table

/-! ## Every table that is read -/

/-- The table can be printed and read back: its name and its attributes are listable, and nowhere
in them is a line feed. -/
structure IsWellFormed (t : Table) : Prop extends IsListable t where
  name_feed : '\n' ∉ t.name
  attributes_feed : ∀ a ∈ t.attributes, '\n' ∉ a

instance (t : Table) : Decidable t.IsWellFormed :=
  decidable_of_iff ((t.name.trim = t.name ∧ ':' ∉ t.name ∧ ∀ a ∈ t.attributes, IsEntry a) ∧
      '\n' ∉ t.name ∧ ∀ a ∈ t.attributes, '\n' ∉ a)
    ⟨fun ⟨⟨htrimmed, hcolon, has⟩, hname, hfeed⟩ => ⟨⟨htrimmed, hcolon, has⟩, hname, hfeed⟩,
      fun ⟨⟨htrimmed, hcolon, has⟩, hname, hfeed⟩ => ⟨⟨htrimmed, hcolon, has⟩, hname, hfeed⟩⟩

theorem isWellFormed_of_ofLine? {l : Text} {t : Table} (hl : '\n' ∉ l) (h : ofLine? l = some t) :
    t.IsWellFormed := by
  unfold ofLine? at h
  split at h
  · obtain rfl := Option.some.inj h
    have hbefore : ∀ (mark : Char) (x : Text),
        (splitFirst mark x).1 ⊆ x ∧ mark ∉ (splitFirst mark x).1 := fun mark x =>
      ⟨(List.takeWhile_sublist _).subset, fun hmem => by simpa using List.mem_takeWhile_imp hmem⟩
    have hbehind : (splitFirst ':' l).2 ⊆ l :=
      ((List.drop_sublist _ _).trans (List.dropWhile_sublist _)).subset
    have hname : (splitFirst ':' l).1.trim ⊆ (splitFirst ':' l).1 :=
      (Text.trim_isInfix _).subset
    have hattributes : ∀ a ∈ entries ((splitFirst ':' (splitFirst ':' l).2).1.filter
        fun c => c != '\x7b' && c != '\x7d'), ∀ c ∈ a,
        (c ∈ l ∧ c ≠ ':') ∧ c ≠ '\x7b' ∧ c ≠ '\x7d' := by
      intro a ha c hc
      obtain ⟨hinside, hbrace⟩ := List.mem_filter.1 ((of_mem_entries ha).2.2.2 hc)
      obtain ⟨hsubset, hcolon⟩ := hbefore ':' (splitFirst ':' l).2
      refine ⟨⟨hbehind (hsubset hinside), fun heq => hcolon (heq ▸ hinside)⟩, ?_⟩
      simpa using hbrace
    exact
      { name_trimmed := Text.trim_trim _
        name_colon := fun hmem => (hbefore ':' l).2 (hname hmem)
        attributes := fun a ha =>
          { ne_nil := (of_mem_entries ha).1
            trimmed := (of_mem_entries ha).2.1
            comma := (of_mem_entries ha).2.2.1
            colon := fun hmem => (hattributes a ha _ hmem).1.2 rfl
            opening := fun hmem => (hattributes a ha _ hmem).2.1 rfl
            closing := fun hmem => (hattributes a ha _ hmem).2.2 rfl }
        name_feed := fun hmem => hl ((hbefore ':' l).1 (hname hmem))
        attributes_feed := fun a ha hmem => hl (hattributes a ha _ hmem).1.1 }
  · cases h

theorem isWellFormed_of_mem_listed {output : Text} {t : Table} (h : t ∈ listed output) :
    t.IsWellFormed := by
  obtain ⟨l, hl, ht⟩ := List.mem_filterMap.1 h
  exact isWellFormed_of_ofLine? (feed_not_mem_of_mem_outputLines output l hl) ht

/-! ## Printed tables -/

/-- White space that breaks no line. -/
def IsSpacing (g : Text) : Prop := g.isBlank = true ∧ '\n' ∉ g

instance (g : Text) : Decidable (IsSpacing g) := inferInstanceAs (Decidable (_ ∧ _))

/-- What stands between commas: the attributes in order with white space around them, and any number
of entries that are nothing but white space. -/
inductive Pieces : List Text → List Text → Prop where
  | nil : Pieces [] []
  | empty {g : Text} {as ps : List Text} : IsSpacing g → Pieces as ps → Pieces as (g :: ps)
  | filled {g a h : Text} {as ps : List Text} : IsSpacing g → IsSpacing h → Pieces as ps →
      Pieces (a :: as) ((g ++ a ++ h) :: ps)

/-- The line has the name of the table, a colon, and its attributes in braces, with white space
around each of them. -/
def IsLine (t : Table) (l : Text) : Prop :=
  ∃ front mid behind back pieces, IsSpacing front ∧ IsSpacing mid ∧ IsSpacing behind ∧
    IsSpacing back ∧ Pieces t.attributes pieces ∧
    l = (front ++ t.name ++ mid) ++
      ':' :: (behind ++ '\x7b' :: (Text.joinWith [','] pieces ++ '\x7d' :: back))

/-- The lines have the tables in order, one in a line, and anywhere other lines that have no
colon. -/
inductive Prints : List Table → List Text → Prop where
  | nil : Prints [] []
  | table {t : Table} {l : Text} {ts : List Table} {lines : List Text} :
      t.IsLine l → Prints ts lines → Prints (t :: ts) (l :: lines)
  | other {l : Text} {ts : List Table} {lines : List Text} :
      ':' ∉ l → '\n' ∉ l → Prints ts lines → Prints ts (l :: lines)

theorem Pieces.flatMap_entries {as ps : List Text} (h : Pieces as ps)
    (has : ∀ a ∈ as, IsEntry a) : ps.flatMap entries = as := by
  induction h with
  | nil => rfl
  | empty hg _ ih => rw [List.flatMap_cons, entries_of_isBlank hg.1, ih has, List.nil_append]
  | filled hg hh _ ih =>
    obtain ⟨ha, hrest⟩ := List.forall_mem_cons.1 has
    rw [List.flatMap_cons, entries_entry ha hg.1 hh.1, ih hrest, List.singleton_append]

theorem IsSpacing.not_mem {g : Text} (h : IsSpacing g) {c : Char}
    (hc : Unicode.isWhite c = false) : c ∉ g := fun hmem =>
  Bool.eq_false_iff.1 hc ((Text.isBlank_iff_forall g).1 h.1 c hmem)

theorem Pieces.not_mem {as ps : List Text} (h : Pieces as ps) {c : Char} (has : ∀ a ∈ as, c ∉ a)
    (hspacing : ∀ g, IsSpacing g → c ∉ g) (hcomma : c ≠ ',') : c ∉ Text.joinWith [','] ps := by
  have hpieces : ∀ p ∈ ps, c ∉ p := by
    induction h with
    | nil => exact List.forall_mem_nil _
    | empty hg _ ih => exact List.forall_mem_cons.2 ⟨hspacing _ hg, ih has⟩
    | filled hg hh _ ih =>
      obtain ⟨ha, hrest⟩ := List.forall_mem_cons.1 has
      refine List.forall_mem_cons.2 ⟨?_, ih hrest⟩
      simp only [List.mem_append, not_or]
      exact ⟨⟨hspacing _ hg, ha⟩, hspacing _ hh⟩
  intro hmem
  rcases Text.mem_joinWith hmem with ⟨p, hp, hc⟩ | hsep
  · exact hpieces p hp hc
  · exact hcomma (List.mem_singleton.1 hsep)

/-- **A printed line gives its table.** -/
theorem ofLine?_of_isLine {t : Table} {l : Text} (ht : t.IsListable) (h : t.IsLine l) :
    ofLine? l = some t := by
  obtain ⟨front, mid, behind, back, pieces, hfront, hmid, hbehind, hback, hpieces, rfl⟩ := h
  have hname : ':' ∉ front ++ t.name ++ mid := by
    simp only [List.mem_append, not_or]
    exact ⟨⟨hfront.not_mem (by decide), ht.name_colon⟩, hmid.not_mem (by decide)⟩
  have htrim : (front ++ t.name ++ mid).trim = t.name := by
    rw [Text.trim_append_right_of_isBlank hmid.1, Text.trim_append_of_isBlank hfront.1,
      ht.name_trimmed]
  have hinner : ∀ c, (∀ a ∈ t.attributes, c ∉ a) → Unicode.isWhite c = false → c ≠ ',' →
      c ∉ Text.joinWith [','] pieces := fun c has hwhite hcomma =>
    hpieces.not_mem has (fun _ hg => hg.not_mem hwhite) hcomma
  have hcolon : ':' ∉ behind ++ '\x7b' :: (Text.joinWith [','] pieces ++ '\x7d' :: back) := by
    simp only [List.mem_append, List.mem_cons, not_or]
    exact ⟨hbehind.not_mem (by decide), by decide,
      hinner ':' (fun a ha => (ht.attributes a ha).colon) (by decide) (by decide), by decide,
      hback.not_mem (by decide)⟩
  have hbraces : (behind ++ '\x7b' :: (Text.joinWith [','] pieces ++ '\x7d' :: back)).filter
      (fun c => c != '\x7b' && c != '\x7d') = behind ++ (Text.joinWith [','] pieces ++ back) := by
    have hopening := hinner '\x7b' (fun a ha => (ht.attributes a ha).opening) (by decide) (by decide)
    have hclosing := hinner '\x7d' (fun a ha => (ht.attributes a ha).closing) (by decide) (by decide)
    simp [filter_unbraced hopening hclosing,
      filter_unbraced (hbehind.not_mem (by decide)) (hbehind.not_mem (by decide)),
      filter_unbraced (hback.not_mem (by decide)) (hback.not_mem (by decide))]
  have hentries : entries (behind ++ (Text.joinWith [','] pieces ++ back)) = t.attributes := by
    rw [(entries_append_of_isBlank hbehind.1 _).1, (entries_append_of_isBlank hback.1 _).2,
      entries_joinWith_comma, hpieces.flatMap_entries ht.attributes]
  have hmarked : ((front ++ t.name ++ mid) ++
      ':' :: (behind ++ '\x7b' :: (Text.joinWith [','] pieces ++ '\x7d' :: back))).contains ':' =
      true := List.contains_iff_mem.2 (List.mem_append_right _ List.mem_cons_self)
  rw [ofLine?, if_pos hmarked, splitFirst_append hname]
  simp only
  rw [splitFirst_of_not_mem hcolon, hbraces, hentries, htrim]

theorem IsLine.feed_not_mem {t : Table} {l : Text} (ht : t.IsWellFormed) (h : t.IsLine l) :
    '\n' ∉ l := by
  obtain ⟨front, mid, behind, back, pieces, hfront, hmid, hbehind, hback, hpieces, rfl⟩ := h
  have hinner := hpieces.not_mem ht.attributes_feed (fun _ hg => hg.2) (by decide)
  simp only [List.mem_append, List.mem_cons, not_or]
  exact ⟨⟨⟨hfront.2, ht.name_feed⟩, hmid.2⟩, by decide, hbehind.2, by decide, hinner, by decide,
    hback.2⟩

theorem Prints.listed {ts : List Table} {lines : List Text} (h : Prints ts lines)
    (hts : ∀ t ∈ ts, t.IsWellFormed) {output : Text} (houtput : Joined lines output) :
    listed output = ts := by
  have hlines : (∀ l ∈ lines, '\n' ∉ l) ∧ lines.filterMap ofLine? = ts := by
    clear houtput
    induction h with
    | nil => exact ⟨List.forall_mem_nil _, rfl⟩
    | table hline _ ih =>
      obtain ⟨ht, hrest⟩ := List.forall_mem_cons.1 hts
      obtain ⟨hfeed, hmap⟩ := ih hrest
      refine ⟨List.forall_mem_cons.2 ⟨hline.feed_not_mem ht, hfeed⟩, ?_⟩
      rw [List.filterMap_cons_some (ofLine?_of_isLine ht.toIsListable hline), hmap]
    | other hcolon hfeed _ ih =>
      obtain ⟨hrest, hmap⟩ := ih hts
      refine ⟨List.forall_mem_cons.2 ⟨hfeed, hrest⟩, ?_⟩
      rw [List.filterMap_cons_none (ofLine?_of_colon_not_mem hcolon), hmap]
  rw [listed_of_joined houtput hlines.1, hlines.2]

/-! ## Printing in one way -/

/-- The tables, one line `Name : { a, b, c }` for each. -/
def printed (ts : List Table) : Text := Text.joinWith ['\n'] (ts.map fun t => t.line 1)

theorem isSpacing_nil : IsSpacing [] := ⟨rfl, List.not_mem_nil⟩

theorem isSpacing_blank : IsSpacing [' '] := by decide

theorem exists_pieces {attributes : List Text} (h : attributes ≠ []) :
    ∃ pieces, Pieces attributes pieces ∧
      Text.joinWith [','] pieces = [' '] ++ Text.joinWith ", ".toList attributes ++ [' '] := by
  induction attributes with
  | nil => exact absurd rfl h
  | cons a attributes ih =>
    cases attributes with
    | nil =>
      refine ⟨[[' '] ++ a ++ [' ']], .filled isSpacing_blank isSpacing_blank .nil, ?_⟩
      rw [Text.joinWith_singleton, Text.joinWith_singleton]
    | cons b attributes =>
      obtain ⟨pieces, hpieces, hjoin⟩ := ih (List.cons_ne_nil _ _)
      refine ⟨([' '] ++ a ++ []) :: pieces, .filled isSpacing_blank isSpacing_nil hpieces, ?_⟩
      obtain ⟨p, ps, rfl⟩ : ∃ p ps, pieces = p :: ps := by
        cases hpieces with
        | empty _ _ => exact ⟨_, _, rfl⟩
        | filled _ _ _ => exact ⟨_, _, rfl⟩
      rw [Text.joinWith_cons_cons, hjoin, Text.joinWith_cons_cons]
      simp

theorem isLine_line (t : Table) (blanks : Nat) : t.IsLine (t.line blanks) := by
  have hblanks : IsSpacing (List.replicate blanks ' ') :=
    ⟨Text.isBlank_replicate blanks, fun hmem => absurd (List.eq_of_mem_replicate hmem) (by decide)⟩
  have hinner : ∃ pieces, Pieces t.attributes pieces ∧
      Text.joinWith [','] pieces = t.inner blanks := by
    by_cases h : t.attributes = []
    · rw [h, inner_eq_replicate h]
      exact ⟨_, .empty hblanks .nil, Text.joinWith_singleton _ _⟩
    · rw [inner_eq_joinWith h]
      exact exists_pieces h
  obtain ⟨pieces, hpieces, hjoin⟩ := hinner
  refine ⟨[], [' '], [' '], [], pieces, isSpacing_nil, isSpacing_blank, isSpacing_blank,
    isSpacing_nil, hpieces, ?_⟩
  simp [line, hjoin]

theorem ofLine?_line {t : Table} (h : t.IsListable) (blanks : Nat) :
    ofLine? (t.line blanks) = some t := ofLine?_of_isLine h (isLine_line t blanks)

theorem prints_map_line (ts : List Table) : Prints ts (ts.map fun t => t.line 1) := by
  induction ts with
  | nil => exact .nil
  | cons t ts ih => exact .table (isLine_line t 1) ih

theorem listed_printed {ts : List Table} (h : ∀ t ∈ ts, t.IsWellFormed) :
    listed (printed ts) = ts := (prints_map_line ts).listed h (joined_joinWith _)

/-- **What is printed is read back.** From any output just one well-formed table is read for each
line with a colon; well-formed tables are read back from all ways to print them; so reading what was
printed from a reading gives the reading again. -/
theorem listing_round_trip :
    (∀ output, (∀ t ∈ listed output, t.IsWellFormed) ∧
      List.Forall₂ (fun line t => ofLine? line = some t)
        ((outputLines output).filter (':' ∈ ·)) (listed output)) ∧
    (∀ ts lines output, (∀ t ∈ ts, t.IsWellFormed) → Prints ts lines → Joined lines output →
      listed output = ts) ∧
    (∀ output, listed (printed (listed output)) = listed output) := by
  refine ⟨fun output => ⟨fun t => isWellFormed_of_mem_listed, ?_⟩,
    fun ts lines output hts hprints => hprints.listed hts,
    fun output => listed_printed fun t => isWellFormed_of_mem_listed⟩
  rw [listed]
  induction outputLines output with
  | nil => exact .nil
  | cons l lines ih =>
    by_cases hl : ':' ∈ l
    · have hsome : (ofLine? l).isSome = true := by
        rw [isSome_ofLine?]
        exact List.contains_iff_mem.2 hl
      obtain ⟨t, ht⟩ := Option.isSome_iff_exists.1 hsome
      rw [List.filter_cons_of_pos (by simpa using hl), List.filterMap_cons_some ht]
      exact .cons ht ih
    · rw [List.filter_cons_of_neg (by simpa using hl),
        List.filterMap_cons_none (ofLine?_of_colon_not_mem hl)]
      exact ih

/-- A table whose line has blanks and an empty entry in it, a remark, and a table without a name and
attributes. -/
theorem listing_round_trip_spaced :
    listed "  R :\x7b a,, b b \x7d  \r\n2 tables\n: \x7b\x7d".toList =
      [⟨['R'], [['a'], "b b".toList]⟩, ⟨[], []⟩] := by
  have hwell : ∀ t ∈ [Table.mk ['R'] [['a'], "b b".toList], ⟨[], []⟩], t.IsWellFormed := by decide
  have hpieces : Pieces [['a'], "b b".toList] [" a".toList, [], " b b ".toList] :=
    .filled (a := ['a']) (h := []) isSpacing_blank isSpacing_nil
      (.empty isSpacing_nil (.filled (a := "b b".toList) isSpacing_blank isSpacing_blank .nil))
  have hfirst : IsLine ⟨['R'], [['a'], "b b".toList]⟩ "  R :\x7b a,, b b \x7d  ".toList :=
    ⟨[' ', ' '], [' '], [], [' ', ' '], _, by decide, by decide, by decide, by decide, hpieces,
      by decide⟩
  have hlast : IsLine ⟨[], []⟩ ": \x7b\x7d".toList :=
    ⟨[], [], [' '], [], [], by decide, by decide, by decide, by decide, .nil, by decide⟩
  have hprints : Prints _
      ["  R :\x7b a,, b b \x7d  ".toList, "2 tables".toList, ": \x7b\x7d".toList] :=
    .table hfirst (.other (by decide) (by decide) (.table hlast .nil))
  have hjoined : Joined _ "  R :\x7b a,, b b \x7d  \r\n2 tables\n: \x7b\x7d".toList :=
    .cons (l := "  R :\x7b a,, b b \x7d  ".toList) (b := ['\r', '\n']) (by decide) (by decide)
      (.cons (l := "2 tables".toList) (b := ['\n']) (by decide) (by decide)
        (.last ": \x7b\x7d".toList))
  exact listing_round_trip.2.1 _ _ _ hwell hprints hjoined

end Table

end QueryEditor
