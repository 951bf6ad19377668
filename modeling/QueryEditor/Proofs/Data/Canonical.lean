import Mathlib
import QueryEditor.Data.Database
import QueryEditor.Proofs.Json.Accepted

/-!
# The tables of a database file

Whatever the shape of a file that is JSON, it has a list of tables, and the list says nothing about
how the file is written: tables and attributes stand in the order of code points, and two files that
differ in the order of members, in the values of attributes or in members that nobody looks at have
the same list.

* `Value.Holds`, `Value.HasKey`: the last member with a key, the keys of an object;
* `IsLayout`: what the list of tables of a value is, **`isLayout_tables`**;
* `Alike`: values that differ in what is not looked at, **`Alike.tables_eq`**;
* **`parse_canonical`**: the tables of every text.
-/

namespace QueryEditor

namespace Json

/-! ## Keys in order -/

theorem insertKey_pairwise (k : Text) {keys : List Text} (h : keys.Pairwise (· < ·)) :
    (insertKey k keys).Pairwise (· < ·) := by
  induction keys with
  | nil => simp [insertKey]
  | cons x xs ih =>
    obtain ⟨hx, hxs⟩ := List.pairwise_cons.1 h
    unfold insertKey
    split
    · rename_i hlt
      refine List.pairwise_cons.2 ⟨fun y hy => ?_, h⟩
      obtain rfl | hy := List.mem_cons.1 hy
      · exact hlt
      · exact List.lt_trans hlt (hx y hy)
    · split
      · exact h
      · rename_i hlt hne
        have hbehind : x < k := Decidable.byContradiction fun hn =>
          hne (List.le_antisymm (List.not_lt.1 hn) (List.not_lt.1 hlt))
        refine List.pairwise_cons.2 ⟨fun y hy => ?_, ih hxs⟩
        obtain rfl | hy := (insertKey_mem k y xs).1 hy
        · exact hbehind
        · exact hx y hy

namespace Value

variable {k key : Text} {x y : Value} {ms ns xs ys : List (Text × Value)}

theorem pairwise_keysOf (ms : List (Text × Value)) : (keysOf ms).Pairwise (· < ·) := by
  suffices h : ∀ keys : List Text, keys.Pairwise (· < ·) →
      (ms.foldl (fun keys m => insertKey m.1 keys) keys).Pairwise (· < ·) from h [] .nil
  induction ms with
  | nil => exact fun _ h => h
  | cons m ms ih => exact fun keys h => ih _ (insertKey_pairwise m.1 h)

theorem mem_keysOf : k ∈ keysOf ms ↔ k ∈ ms.map Prod.fst := by
  suffices h : ∀ keys : List Text,
      k ∈ ms.foldl (fun keys m => insertKey m.1 keys) keys ↔ k ∈ keys ∨ k ∈ ms.map Prod.fst by
    rw [keysOf, h, List.mem_nil_iff, false_or]
  induction ms with
  | nil => simp
  | cons m ms ih =>
    intro keys
    rw [List.foldl_cons, ih, insertKey_mem, List.map_cons, List.mem_cons]
    exact ⟨by rintro ((h | h) | h) <;> simp [h], by rintro (h | h | h) <;> simp [h]⟩

theorem keysOf_congr (h : ∀ k, k ∈ ms.map Prod.fst ↔ k ∈ ns.map Prod.fst) :
    keysOf ms = keysOf ns :=
  (pairwise_keysOf ms).eq_of_mem_iff (pairwise_keysOf ns) fun k => by
    rw [mem_keysOf, mem_keysOf, h]

/-! ## Members -/

/-- The value is an object, and of its members with the key the last one has the value `x`. -/
def Holds (v : Value) (key : Text) (x : Value) : Prop :=
  ∃ before behind, v = .object (before ++ (key, x) :: behind) ∧ key ∉ behind.map Prod.fst

def HasKey (v : Value) (key : Text) : Prop :=
  ∃ members, v = .object members ∧ key ∈ members.map Prod.fst

theorem lastOf_eq_some_iff : lastOf k ms = some x ↔
    ∃ before behind, ms = before ++ (k, x) :: behind ∧ k ∉ behind.map Prod.fst := by
  rw [lastOf, List.lookup_eq_some_iff]
  constructor
  · rintro ⟨behind, before, hms, hbehind⟩
    refine ⟨before.reverse, behind.reverse, ?_, fun hk => ?_⟩
    · rw [← List.reverse_reverse ms, hms]
      simp
    · obtain ⟨m, hm, rfl⟩ := List.mem_map.1 hk
      simpa using hbehind m (List.mem_reverse.1 hm)
  · rintro ⟨before, behind, rfl, hbehind⟩
    refine ⟨behind.reverse, before.reverse, by simp, fun m hm => bne_iff_ne.2 ?_⟩
    rintro rfl
    exact hbehind (List.mem_map_of_mem (List.mem_reverse.1 hm))

theorem lastOf_eq_none_iff : lastOf k ms = none ↔ k ∉ ms.map Prod.fst := by
  rw [lastOf, List.lookup_eq_none_iff]
  constructor
  · intro h hk
    obtain ⟨m, hm, rfl⟩ := List.mem_map.1 hk
    simpa using h m (List.mem_reverse.2 hm)
  · intro h m hm
    refine bne_iff_ne.2 ?_
    rintro rfl
    exact h (List.mem_map_of_mem (List.mem_reverse.1 hm))

theorem member?_eq_some_iff {v : Value} : v.member? key = some x ↔ v.Holds key x := by
  cases v with
  | object ms => simp [member?, members?, lastOf_eq_some_iff, Holds]
  | _ => simp [member?, members?, Holds]

theorem Holds.eq {v : Value} (h : v.Holds key x) (h' : v.Holds key y) : x = y :=
  Option.some.inj ((member?_eq_some_iff.2 h).symm.trans (member?_eq_some_iff.2 h'))

theorem mem_keys?_iff {v : Value} : k ∈ v.keys?.getD [] ↔ v.HasKey k := by
  cases v with
  | object ms => simp [keys?, members?, mem_keysOf, HasKey]
  | _ => simp [keys?, members?, HasKey]

theorem lastOf_append : lastOf k (xs ++ ys) = (lastOf k ys).or (lastOf k xs) := by
  rw [lastOf, List.reverse_append, List.lookup_append]
  rfl

theorem lastOf_cons (m : Text × Value) :
    lastOf k (m :: ms) = (lastOf k ms).or (if k = m.1 then some m.2 else none) := by
  obtain ⟨key, x⟩ := m
  rw [← List.singleton_append, lastOf_append]
  by_cases h : k = key
  · simp [lastOf, h]
  · rw [if_neg h]
    simp [lastOf, List.lookup_cons, beq_false_of_ne h]

end Value

end Json

namespace Database

open Json Value

/-! ## What the tables are -/

/-- The tables that the value of the member `tables` describes. -/
def described (v : Value) : List Table :=
  match v.members? with
  | none => []
  | some members => (keysOf members).map fun name => table name (lastOf name members)

def attributesOf (v : Value) : List Text :=
  ((v.member? "attributes".toList).bind keys?).getD []

theorem tables_eq (v : Value) : tables v = ((v.member? "tables".toList).map described).getD [] := by
  unfold tables
  cases v.member? "tables".toList <;> rfl

theorem table_eq (name : Text) (description : Option Value) :
    table name description = ⟨name, (description.map attributesOf).getD []⟩ := by
  cases description <;> rfl

theorem attributesOf_eq (v : Value) : attributesOf v =
    ((v.member? "attributes".toList).map fun attributes => attributes.keys?.getD []).getD [] := by
  unfold attributesOf
  cases v.member? "attributes".toList <;> rfl

theorem mem_getD_map {α β : Type} {o : Option α} {f : α → List β} {b : β} :
    b ∈ (o.map f).getD [] ↔ ∃ a, o = some a ∧ b ∈ f a := by
  cases o <;> simp

/-- The list of tables of a value: names and attributes ascend; the names are the keys of its last
member `tables`, and the attributes of a table are the keys of the last member `attributes` of the
last member with its name. What is no object has no keys. -/
structure IsLayout (v : Value) (ts : List Table) : Prop where
  names_ascend : (ts.map Table.name).Pairwise (· < ·)
  attributes_ascend : ∀ t ∈ ts, t.attributes.Pairwise (· < ·)
  mem_names : ∀ name, name ∈ ts.map Table.name ↔
    ∃ all, v.Holds "tables".toList all ∧ all.HasKey name
  mem_attributes : ∀ t ∈ ts, ∀ a, a ∈ t.attributes ↔
    ∃ all description attributes, v.Holds "tables".toList all ∧ all.Holds t.name description ∧
      description.Holds "attributes".toList attributes ∧ attributes.HasKey a

theorem mem_attributesOf {v : Value} {a : Text} : a ∈ attributesOf v ↔
    ∃ attributes, v.Holds "attributes".toList attributes ∧ attributes.HasKey a := by
  simp only [attributesOf_eq, mem_getD_map, member?_eq_some_iff, mem_keys?_iff]

theorem pairwise_keys? (v : Value) : (v.keys?.getD []).Pairwise (· < ·) := by
  cases v with
  | object ms => exact pairwise_keysOf ms
  | _ => exact .nil

theorem pairwise_attributesOf (v : Value) : (attributesOf v).Pairwise (· < ·) := by
  rw [attributesOf_eq]
  cases v.member? "attributes".toList with
  | none => exact .nil
  | some attributes => exact pairwise_keys? attributes

theorem map_name_described (v : Value) : (described v).map Table.name = v.keys?.getD [] := by
  cases v with
  | object ms => simp [described, members?, keys?, table_eq, Function.comp_def]
  | _ => rfl

theorem attributes_of_mem_described {v : Value} {t : Table} (h : t ∈ described v) :
    ∃ description, v.Holds t.name description ∧ t.attributes = attributesOf description := by
  cases v with
  | object ms =>
    obtain ⟨name, hname, rfl⟩ := List.mem_map.1 h
    cases hlast : lastOf name ms with
    | none => exact absurd (mem_keysOf.1 hname) (lastOf_eq_none_iff.1 hlast)
    | some description =>
      exact ⟨description, member?_eq_some_iff.1 hlast, by rw [table_eq]; rfl⟩
  | _ => cases h

/-- **The tables of a value are its layout**, whatever its shape. -/
theorem isLayout_tables (v : Value) : IsLayout v (tables v) := by
  rw [tables_eq]
  cases hall : v.member? "tables".toList with
  | none =>
    have hnone : ∀ all, ¬ v.Holds "tables".toList all := fun all h => by
      rw [member?_eq_some_iff.2 h] at hall
      cases hall
    exact ⟨.nil, nofun, fun name => iff_of_false nofun fun ⟨all, h, _⟩ => hnone all h, nofun⟩
  | some all =>
    have hholds := member?_eq_some_iff.1 hall
    refine ⟨?_, fun t ht => ?_, fun name => ?_, fun t ht a => ?_⟩
    · exact (map_name_described all).symm ▸ pairwise_keys? all
    · obtain ⟨description, -, ht⟩ := attributes_of_mem_described ht
      exact ht.symm ▸ pairwise_attributesOf description
    · rw [Option.map_some, Option.getD_some, map_name_described, mem_keys?_iff]
      exact ⟨fun h => ⟨all, hholds, h⟩, fun ⟨_, h, hkey⟩ => h.eq hholds ▸ hkey⟩
    · obtain ⟨description, hdescription, ht⟩ := attributes_of_mem_described ht
      rw [ht, mem_attributesOf]
      constructor
      · exact fun ⟨attributes, h, ha⟩ => ⟨all, description, attributes, hholds, hdescription, h, ha⟩
      · rintro ⟨_, _, attributes, h, h', h'', ha⟩
        obtain rfl := h.eq hholds
        obtain rfl := h'.eq hdescription
        exact ⟨attributes, h'', ha⟩

/-! ## What makes no difference -/

/-- Members in another order, in which those with the same key keep theirs. -/
inductive Reordered : List (Text × Value) → List (Text × Value) → Prop
  | nil : Reordered [] []
  | cons {m xs ys} : Reordered xs ys → Reordered (m :: xs) (m :: ys)
  | swap {m n xs} : m.1 ≠ n.1 → Reordered (m :: n :: xs) (n :: m :: xs)
  | trans {xs ys zs} : Reordered xs ys → Reordered ys zs → Reordered xs zs

/-- The parts of a database file: the whole of it, the tables, one table, its attributes, and what
is not looked at. -/
inductive Part where
  | file
  | tables
  | table
  | attributes
  | other

/-- The part that a member of a part is. -/
def Part.inside : Part → Text → Part
  | .file, key => if key = "tables".toList then .tables else .other
  | .tables, _ => .table
  | .table, key => if key = "attributes".toList then .attributes else .other
  | .attributes, _ => .other
  | .other, _ => .other

/-- The part does not depend on whether it has a member with the key. -/
def Part.Ignores : Part → Text → Prop
  | .file, key => key ≠ "tables".toList
  | .tables, _ => False
  | .table, key => key ≠ "attributes".toList
  | .attributes, _ => False
  | .other, _ => True

/-- Values of a part of a file that differ in the order of their members, in members that are not
looked at, or in such a way in one of their members. -/
inductive Alike : Part → Value → Value → Prop
  | refl {p v} : Alike p v v
  | symm {p v w} : Alike p v w → Alike p w v
  | trans {p u v w} : Alike p u v → Alike p v w → Alike p u w
  | reordered {p xs ys} : Reordered xs ys → Alike p (.object xs) (.object ys)
  | added {p xs ys key x} : p.Ignores key →
      Alike p (.object (xs ++ ys)) (.object (xs ++ (key, x) :: ys))
  | inside {p xs ys key x y} : Alike (p.inside key) x y →
      Alike p (.object (xs ++ (key, x) :: ys)) (.object (xs ++ (key, y) :: ys))
  | shapeless {p v w} : v.members? = none → w.members? = none → Alike p v w
  | other {v w} : Alike .other v w

theorem reordered_of_perm {xs ys : List (Text × Value)} (h : xs.Perm ys)
    (hkeys : (xs.map Prod.fst).Nodup) : Reordered xs ys := by
  induction h with
  | nil => exact .nil
  | cons m _ ih => exact .cons (ih (List.nodup_cons.1 hkeys).2)
  | swap m n xs =>
    rw [List.map_cons, List.map_cons, List.nodup_cons] at hkeys
    exact .swap fun heq => hkeys.1 (heq ▸ List.mem_cons_self)
  | trans hfirst _ ihfirst ihsecond =>
    exact .trans (ihfirst hkeys) (ihsecond ((hfirst.map Prod.fst).nodup_iff.1 hkeys))

theorem Reordered.mem_keys {xs ys : List (Text × Value)} (h : Reordered xs ys) (k : Text) :
    k ∈ xs.map Prod.fst ↔ k ∈ ys.map Prod.fst := by
  induction h with
  | nil => exact Iff.rfl
  | cons _ ih => rw [List.map_cons, List.map_cons, List.mem_cons, List.mem_cons, ih]
  | swap _ => simp [or_left_comm]
  | trans _ _ ihfirst ihsecond => exact ihfirst.trans ihsecond

theorem Reordered.lastOf_eq {xs ys : List (Text × Value)} (h : Reordered xs ys) (k : Text) :
    lastOf k xs = lastOf k ys := by
  induction h with
  | nil => rfl
  | cons _ ih => rw [lastOf_cons, lastOf_cons, ih]
  | @swap m n xs hne =>
    simp only [lastOf_cons, Option.or_assoc]
    by_cases hm : k = m.1
    · simp [hm, hne]
    · simp [hm]
  | trans _ _ ihfirst ihsecond => exact ihfirst.trans ihsecond

/-- What is read from two values of a part agrees. -/
def Agree : Part → Value → Value → Prop
  | .file, v, w => tables v = tables w
  | .tables, v, w => described v = described w
  | .table, v, w => attributesOf v = attributesOf w
  | .attributes, v, w => v.keys?.getD [] = w.keys?.getD []
  | .other, _, _ => True

variable {p : Part} {xs ys : List (Text × Value)}

theorem Agree.refl (v : Value) : Agree p v v := by
  cases p <;> first | rfl | trivial

theorem Agree.symm {v w : Value} (h : Agree p v w) : Agree p w v := by
  cases p <;> first | exact Eq.symm h | trivial

theorem Agree.trans {u v w : Value} (h : Agree p u v) (h' : Agree p v w) : Agree p u w := by
  cases p <;> first | exact Eq.trans h h' | trivial

theorem getD_map_congr {α β : Type} {o o' : Option α} {f : α → List β}
    (h : Option.Rel (fun a b => f a = f b) o o') : (o.map f).getD [] = (o'.map f).getD [] := by
  cases h with
  | some h => exact h
  | none => rfl

theorem agree_object (hkeys : (∀ k, ¬ p.Ignores k) → ∀ k, k ∈ xs.map Prod.fst ↔ k ∈ ys.map Prod.fst)
    (hlast : ∀ k, ¬ p.Ignores k → Option.Rel (Agree (p.inside k)) (lastOf k xs) (lastOf k ys)) :
    Agree p (.object xs) (.object ys) := by
  cases p with
  | file =>
    have hmember := hlast "tables".toList fun h => h rfl
    exact (tables_eq (.object xs)).trans
      ((getD_map_congr hmember).trans (tables_eq (.object ys)).symm)
  | tables =>
    have hsame : keysOf xs = keysOf ys := keysOf_congr (hkeys fun _ h => h)
    refine (congrArg (List.map _) hsame).trans (List.map_congr_left fun name _ => ?_)
    rw [table_eq, table_eq, getD_map_congr (hlast name fun h => h)]
  | table =>
    have hmember := hlast "attributes".toList fun h => h rfl
    exact (attributesOf_eq (.object xs)).trans
      ((getD_map_congr hmember).trans (attributesOf_eq (.object ys)).symm)
  | attributes => exact keysOf_congr (hkeys fun _ h => h)
  | other => trivial

theorem rel_refl (o : Option Value) : Option.Rel (Agree p) o o := by
  cases o with
  | none => exact .none
  | some v => exact .some (.refl v)

theorem agree_added {key : Text} {x : Value} (h : p.Ignores key) :
    Agree p (.object (xs ++ ys)) (.object (xs ++ (key, x) :: ys)) := by
  refine agree_object (fun hall => absurd h (hall key)) fun k hk => ?_
  have hne : k ≠ key := by
    rintro rfl
    exact hk h
  rw [lastOf_append, lastOf_append, lastOf_cons, if_neg hne, Option.or_none]
  exact rel_refl _

theorem agree_inside {key : Text} {x y : Value} (h : Agree (p.inside key) x y) :
    Agree p (.object (xs ++ (key, x) :: ys)) (.object (xs ++ (key, y) :: ys)) := by
  refine agree_object (fun _ k => by simp) fun k _ => ?_
  simp only [lastOf_append, lastOf_cons]
  cases lastOf k ys with
  | some v => exact rel_refl _
  | none =>
    by_cases hk : k = key
    · subst hk
      simpa using Option.Rel.some h
    · simpa [hk] using rel_refl _

theorem agree_shapeless {v w : Value} (hv : v.members? = none) (hw : w.members? = none) :
    Agree p v w := by
  have hmember : ∀ k, v.member? k = none ∧ w.member? k = none := fun k => by
    rw [member?, member?, hv, hw]
    exact ⟨rfl, rfl⟩
  cases p with
  | file => exact (tables_eq v).trans (by rw [tables_eq w, (hmember _).1, (hmember _).2])
  | tables => simp only [Agree, described, hv, hw]
  | table =>
    exact (attributesOf_eq v).trans (by rw [attributesOf_eq w, (hmember _).1, (hmember _).2])
  | attributes => simp only [Agree, keys?, hv, hw]
  | other => trivial

/-- **What is not looked at makes no difference.** -/
theorem Alike.agree {v w : Value} (h : Alike p v w) : Agree p v w := by
  induction h with
  | refl => exact .refl _
  | symm _ ih => exact ih.symm
  | trans _ _ ih ih' => exact ih.trans ih'
  | reordered h => exact agree_object (fun _ => h.mem_keys) fun k _ => h.lastOf_eq k ▸ rel_refl _
  | added h => exact agree_added h
  | inside _ ih => exact agree_inside ih
  | shapeless hv hw => exact agree_shapeless hv hw
  | other => trivial

/-! ## Texts -/

theorem parse_eq_ok_iff {t : Text} {ts : List Table} :
    parse t = .ok ts ↔ ∃ v, Denotes .built .item t v ∧ v.Fits 0 ∧ tables v = ts := by
  have hmap : parse t = .ok ts ↔ ∃ v, Json.parse t = .ok v ∧ tables v = ts := by
    rw [parse]
    cases Json.parse t with
    | error fault => exact iff_of_false nofun fun ⟨_, h, _⟩ => nomatch h
    | ok v => simp [Except.map]
  rw [hmap]
  exact exists_congr fun v => by rw [Json.parse_eq_ok_iff, and_assoc]

/-- **The tables of every text.** One that denotes a value within the limits has tables, whatever
the shape of the value: they are its layout, and those of every text whose value is alike. Any other
text is refused. -/
theorem parse_canonical (t : Text) :
    (∀ v, Denotes .built .item t v → v.Fits 0 → ∃ ts, parse t = .ok ts ∧ IsLayout v ts ∧
      ∀ t' v', Denotes .built .item t' v' → v'.Fits 0 → Alike .file v v' → parse t' = .ok ts) ∧
    ((¬ ∃ v, Denotes .built .item t v ∧ v.Fits 0) → ∃ fault, parse t = .error fault) := by
  refine ⟨fun v hv hfits => ⟨tables v, ?_, isLayout_tables v, fun t' v' hv' hfits' halike => ?_⟩,
    fun hnone => ?_⟩
  · exact parse_eq_ok_iff.2 ⟨v, hv, hfits, rfl⟩
  · have hsame : tables v = tables v' := halike.agree
    exact parse_eq_ok_iff.2 ⟨v', hv', hfits', hsame.symm⟩
  · cases hparse : parse t with
    | error fault => exact ⟨fault, rfl⟩
    | ok ts =>
      obtain ⟨v, hv, hfits, -⟩ := parse_eq_ok_iff.1 hparse
      exact absurd ⟨v, hv, hfits⟩ hnone

def attributed (attributes : List (Text × Value)) : Value :=
  .object [("attributes".toList, .object attributes)]

def repeating : Text :=
  ("\x7b\"tables\": \x7b\"R\": [], \"S\": [], " ++
    "\"R\": \x7b\"attributes\": \x7b\"b\": null, \"\\u0061\": null\x7d\x7d\x7d\x7d").toList

def repeatingValue : Value :=
  .object [("tables".toList, .object [(['R'], .array []), (['S'], .array []),
    (['R'], attributed [(['b'], .null), (['a'], .null)])])]

def shuffled : Text :=
  ("\x7b\"x\": [[]], \"tables\": \x7b\"R\": [], " ++
    "\"R\": \x7b\"attributes\": \x7b\"a\": \"int\", \"b\": null\x7d\x7d, \"S\": []\x7d\x7d").toList

def shuffledValue : Value :=
  .object [(['x'], .array [.array []]), ("tables".toList, .object [(['R'], .array []),
    (['R'], attributed [(['a'], .string "int".toList), (['b'], .null)]), (['S'], .array [])])]

theorem alike_shuffled : Alike .file repeatingValue shuffledValue := by
  have hattributes : Alike .attributes (.object [(['b'], .null), (['a'], .null)])
      (.object [(['a'], .string "int".toList), (['b'], .null)]) :=
    .trans (.reordered (reordered_of_perm (.swap _ _ _) (by decide)))
      (@Alike.inside .attributes [] _ _ _ _ .other)
  have htable : Alike .table (attributed [(['b'], .null), (['a'], .null)])
      (attributed [(['a'], .string "int".toList), (['b'], .null)]) :=
    @Alike.inside .table [] [] "attributes".toList _ _ hattributes
  have hswap : Reordered
      [(['R'], .array []), (['S'], .array []), (['R'], attributed [(['b'], .null), (['a'], .null)])]
      [(['R'], .array []), (['R'], attributed [(['b'], .null), (['a'], .null)]), (['S'], .array [])] :=
    .cons (.swap (by decide))
  have htables := Alike.trans (.reordered hswap)
    (@Alike.inside .tables [(['R'], .array [])] [(['S'], .array [])] ['R'] _ _ htable)
  exact .trans (@Alike.inside .file [] [] "tables".toList _ _ htables)
    (@Alike.added .file [] _ ['x'] (.array [.array []])
      (show ['x'] ≠ "tables".toList by decide))

theorem parse_canonical_shuffled :
    parse repeating = .ok [⟨['R'], [['a'], ['b']]⟩, ⟨['S'], []⟩] ∧
      parse shuffled = .ok [⟨['R'], [['a'], ['b']]⟩, ⟨['S'], []⟩] ∧
      ∃ fault, parse ['\x7b'] = .error fault := by
  have hrepeating : Json.parse repeating = .ok repeatingValue := by cbv
  have hshuffled : Json.parse shuffled = .ok shuffledValue := by cbv
  have hended : Json.parse ['\x7b'] = .error .ended := by cbv
  obtain ⟨hv, hfits⟩ := Json.parse_eq_ok_iff.1 hrepeating
  obtain ⟨hv', hfits'⟩ := Json.parse_eq_ok_iff.1 hshuffled
  obtain ⟨ts, hparse, -, hsame⟩ := (parse_canonical repeating).1 _ hv hfits
  have hts : ts = [⟨['R'], [['a'], ['b']]⟩, ⟨['S'], []⟩] := by
    rw [parse, hrepeating] at hparse
    exact (Except.ok.inj hparse).symm.trans (by decide)
  subst hts
  refine ⟨hparse, hsame _ _ hv' hfits' alike_shuffled, (parse_canonical _).2 ?_⟩
  rintro ⟨v, hv⟩
  rw [Json.parse_eq_ok_iff.2 hv] at hended
  cases hended

/-- A text with a code unit that is half of a surrogate pair is JSON, and it is refused. -/
theorem not_forall_exists_parse_eq_ok : ¬ ∀ t v, Denotes .skipped .item t v → v.Fits 0 →
    ∃ ts, parse t = .ok ts := by
  intro h
  have hunit : Spelling .skipped (Char.ofNat 0xD800) "\\ud800".toList :=
    .unit (by decide) nofun
  have hitem : Denotes .skipped .item "\"\\ud800\"".toList (.string [Char.ofNat 0xD800]) :=
    .item (g := []) rfl (.string (.cons hunit .nil)) (h := []) rfl
  have hparse : Json.parse "\"\\ud800\"".toList = .error .malformed := by cbv
  obtain ⟨ts, hts⟩ := h _ _ hitem .string
  rw [parse, hparse] at hts
  cases hts

end Database

end QueryEditor
