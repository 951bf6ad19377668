import Mathlib.Data.List.Basic
import Mathlib.Data.List.Induction
import Mathlib.Data.List.TakeWhile
import QueryEditor.Text.Utf8

/-!
# Reading what was written

The bytes of a text are read as that text, whatever follows them. The first byte of a character
goes on no other character, and all its other bytes do, so the ends of characters are found from
behind as well: bytes that end with the bytes of a text end where a character ends.

* `Encoding`: the bytes of one character, **`exists_encoding`**: every character has them;
* **`decode_encode`**: what is written is read back;
* **`encode_suffix_iff`**: a text ends with another when its bytes do;
* `not_encode_suffix_part`: bytes that break off inside a character end with no text;
* `lineFeed_not_mem_decode`: a line feed is read from its own byte only.
-/

namespace QueryEditor.Utf8

/-! ## Bytes as numbers -/

theorem toNat_ofNat {n : Nat} (h : n < 256) : (UInt8.ofNat n).toNat = n := by
  rw [UInt8.toNat_ofNat', Nat.mod_eq_of_lt h]

theorem leadByte_ofNat {n : Nat} (h : n < 256) : leadByte (UInt8.ofNat n) =
    if n < 0x80 then some (0, 0, 0)
    else if n < 0xC2 then none
    else if n < 0xE0 then some (1, 0x80, 0xBF)
    else if n = 0xE0 then some (2, 0xA0, 0xBF)
    else if n = 0xED then some (2, 0x80, 0x9F)
    else if n < 0xF0 then some (2, 0x80, 0xBF)
    else if n = 0xF0 then some (3, 0x90, 0xBF)
    else if n < 0xF4 then some (3, 0x80, 0xBF)
    else if n = 0xF4 then some (3, 0x80, 0x8F)
    else none := by
  simp only [leadByte, UInt8.lt_iff_toNat_lt, ← UInt8.toNat_inj, toNat_ofNat h]
  rfl

theorem isContinuation_ofNat {n : Nat} (h : n < 256) :
    isContinuation (UInt8.ofNat n) = true ↔ 0x80 ≤ n ∧ n ≤ 0xBF := by
  simp only [isContinuation, UInt8.le_iff_toNat_le, toNat_ofNat h, Bool.and_eq_true,
    decide_eq_true_eq]
  rfl

/-! ## One character -/

theorem following_append {low high : UInt8} {tail : List UInt8} (rest : List UInt8)
    (hsecond : ∀ b ∈ tail.head?, low ≤ b ∧ b ≤ high)
    (hlater : ∀ b ∈ tail.drop 1, isContinuation b = true) :
    following tail.length low high (tail ++ rest) = tail := by
  cases tail with
  | nil => cases rest <;> simp [following]
  | cons b tail =>
    have hb := hsecond b rfl
    have htail : tail.takeWhile isContinuation = tail :=
      List.takeWhile_eq_self_iff.2 (by simpa using hlater)
    rw [List.cons_append, following, if_pos ⟨by simp, hb⟩]
    simp [htail]

theorem front_append {b : UInt8} {tail : List UInt8} {c : Char} (low high : UInt8)
    (rest : List UInt8)
    (hlead : leadByte b = some (tail.length, low, high))
    (hsecond : ∀ x ∈ tail.head?, low ≤ x ∧ x ≤ high)
    (hlater : ∀ x ∈ tail.drop 1, isContinuation x = true)
    (hpoint : codePoint (if tail.length = 0 then 7 else 6 - tail.length) b tail = c.toNat) :
    front b (tail ++ rest) = (some c, tail.length) := by
  rw [front, hlead]
  simp only [following_append rest hsecond hlater, if_true, hpoint, Char.ofNat_toNat]

/-- The bytes of a character: a first byte that goes on no other, and bytes that go it on. They are
read as the character, whatever follows them. -/
structure Encoding (c : Char) (b : UInt8) (tail : List UInt8) : Prop where
  bytes : String.utf8EncodeChar c = b :: tail
  lead : isContinuation b = false
  later : ∀ x ∈ tail, isContinuation x = true
  front : ∀ rest, front b (tail ++ rest) = (some c, tail.length)

theorem toNat_cases (c : Char) : c.toNat < 0xD800 ∨ 0xDFFF < c.toNat ∧ c.toNat < 0x110000 :=
  c.valid

/-- The byte that goes on a character with the last six bits of a number. -/
def payload (n : Nat) : UInt8 := UInt8.ofNat (n % 64 + 0x80)

theorem isContinuation_payload (n : Nat) : isContinuation (payload n) = true :=
  (isContinuation_ofNat (by omega)).2 (by omega)

theorem isContinuation_of_mem_payloads (ns : List Nat) :
    ∀ x ∈ ns.map payload, isContinuation x = true := by
  intro x hx
  obtain ⟨n, -, rfl⟩ := List.mem_map.1 hx
  exact isContinuation_payload n

theorem toNat_payload (n : Nat) : (payload n).toNat % 64 = n % 64 := by
  rw [payload, toNat_ofNat (by omega)]
  omega

theorem payload_between (low high : Nat) {n : Nat} (hhigh : high < 256)
    (h : low ≤ n % 64 + 0x80 ∧ n % 64 + 0x80 ≤ high) :
    UInt8.ofNat low ≤ payload n ∧ payload n ≤ UInt8.ofNat high := by
  simp only [payload, UInt8.le_iff_toNat_le]
  rw [toNat_ofNat (by omega), toNat_ofNat (by omega), toNat_ofNat hhigh]
  exact h

theorem isContinuation_lead {n : Nat} (h : n < 256) (hn : n < 0x80 ∨ 0xBF < n) :
    isContinuation (UInt8.ofNat n) = false :=
  Bool.eq_false_iff.2 fun e => by
    have := (isContinuation_ofNat h).1 e
    omega

theorem encoding_one {c : Char} (h : c.toNat ≤ 0x7F) : Encoding c (UInt8.ofNat c.toNat) [] where
  bytes := if_pos h
  lead := isContinuation_lead (by omega) (by omega)
  later := by simp
  front rest := by
    refine front_append 0 0 rest ?_ (by simp) (by simp) ?_
    · rw [leadByte_ofNat (by omega), if_pos (by omega)]
      rfl
    · change (UInt8.ofNat c.toNat).toNat % 128 = c.toNat
      rw [toNat_ofNat (by omega)]
      omega

theorem encoding_two {c : Char} (h : ¬ c.toNat ≤ 0x7F) (h' : c.toNat ≤ 0x7FF) :
    Encoding c (UInt8.ofNat (c.toNat / 64 % 32 + 0xC0)) ([c.toNat].map payload) where
  bytes := (if_neg h).trans (if_pos h')
  lead := isContinuation_lead (by omega) (by omega)
  later := isContinuation_of_mem_payloads _
  front rest := by
    refine front_append (UInt8.ofNat 0x80) (UInt8.ofNat 0xBF) rest ?_ ?_ ?_ ?_
    · rw [leadByte_ofNat (by omega), if_neg (by omega), if_neg (by omega), if_pos (by omega)]
      rfl
    · simpa using payload_between 0x80 0xBF (by omega) (by omega)
    · exact isContinuation_of_mem_payloads []
    · change (UInt8.ofNat (c.toNat / 64 % 32 + 0xC0)).toNat % 32 * 64 + (payload _).toNat % 64 = _
      rw [toNat_ofNat (by omega), toNat_payload]
      omega

theorem encoding_three {c : Char} (h : ¬ c.toNat ≤ 0x7FF) (h' : c.toNat ≤ 0xFFFF) :
    Encoding c (UInt8.ofNat (c.toNat / 4096 % 16 + 0xE0))
      ([c.toNat / 64, c.toNat].map payload) where
  bytes := (if_neg (show ¬ c.toNat ≤ 0x7F by omega)).trans ((if_neg h).trans (if_pos h'))
  lead := isContinuation_lead (by omega) (by omega)
  later := isContinuation_of_mem_payloads _
  front rest := by
    have hvalid := toNat_cases c
    -- the smallest and the greatest second byte depend on the first
    have hlead : ∃ low high, high < 256 ∧
        leadByte (UInt8.ofNat (c.toNat / 4096 % 16 + 0xE0)) =
          some (2, UInt8.ofNat low, UInt8.ofNat high) ∧
        low ≤ c.toNat / 64 % 64 + 0x80 ∧ c.toNat / 64 % 64 + 0x80 ≤ high := by
      rw [leadByte_ofNat (by omega), if_neg (by omega), if_neg (by omega), if_neg (by omega)]
      split
      · exact ⟨0xA0, 0xBF, by omega, rfl, by omega, by omega⟩
      · split
        · exact ⟨0x80, 0x9F, by omega, rfl, by omega, by omega⟩
        · exact ⟨0x80, 0xBF, by omega, if_pos (by omega), by omega, by omega⟩
    obtain ⟨low, high, hhigh, hlead, hbounds⟩ := hlead
    refine front_append _ _ rest hlead ?_ (isContinuation_of_mem_payloads [_]) ?_
    · simpa using payload_between _ _ hhigh hbounds
    · change ((UInt8.ofNat (c.toNat / 4096 % 16 + 0xE0)).toNat % 16 * 64 +
        (payload _).toNat % 64) * 64 + (payload _).toNat % 64 = _
      rw [toNat_ofNat (by omega), toNat_payload, toNat_payload]
      omega

theorem encoding_four {c : Char} (h : ¬ c.toNat ≤ 0xFFFF) :
    Encoding c (UInt8.ofNat (c.toNat / 262144 % 8 + 0xF0))
      ([c.toNat / 4096, c.toNat / 64, c.toNat].map payload) where
  bytes := (if_neg (show ¬ c.toNat ≤ 0x7F by omega)).trans
    ((if_neg (show ¬ c.toNat ≤ 0x7FF by omega)).trans (if_neg h))
  lead := isContinuation_lead (by omega) (by omega)
  later := isContinuation_of_mem_payloads _
  front rest := by
    have hvalid := toNat_cases c
    have hlead : ∃ low high, high < 256 ∧
        leadByte (UInt8.ofNat (c.toNat / 262144 % 8 + 0xF0)) =
          some (3, UInt8.ofNat low, UInt8.ofNat high) ∧
        low ≤ c.toNat / 4096 % 64 + 0x80 ∧ c.toNat / 4096 % 64 + 0x80 ≤ high := by
      rw [leadByte_ofNat (by omega), if_neg (by omega), if_neg (by omega), if_neg (by omega),
        if_neg (by omega), if_neg (by omega), if_neg (by omega)]
      split
      · exact ⟨0x90, 0xBF, by omega, rfl, by omega, by omega⟩
      · split
        · exact ⟨0x80, 0xBF, by omega, rfl, by omega, by omega⟩
        · exact ⟨0x80, 0x8F, by omega, if_pos (by omega), by omega, by omega⟩
    obtain ⟨low, high, hhigh, hlead, hbounds⟩ := hlead
    refine front_append _ _ rest hlead ?_ (isContinuation_of_mem_payloads [_, _]) ?_
    · simpa using payload_between _ _ hhigh hbounds
    · change (((UInt8.ofNat (c.toNat / 262144 % 8 + 0xF0)).toNat % 8 * 64 +
        (payload _).toNat % 64) * 64 + (payload _).toNat % 64) * 64 + (payload _).toNat % 64 = _
      rw [toNat_ofNat (by omega), toNat_payload, toNat_payload, toNat_payload]
      omega

/-- **Every character is read back from its bytes.** -/
theorem exists_encoding (c : Char) : ∃ b tail, Encoding c b tail := by
  by_cases h1 : c.toNat ≤ 0x7F
  · exact ⟨_, _, encoding_one h1⟩
  · by_cases h2 : c.toNat ≤ 0x7FF
    · exact ⟨_, _, encoding_two h1 h2⟩
    · by_cases h3 : c.toNat ≤ 0xFFFF
      · exact ⟨_, _, encoding_three h2 h3⟩
      · exact ⟨_, _, encoding_four h3⟩

/-! ## Texts -/

theorem encode_nil : encode [] = [] := rfl

theorem encode_append (t u : Text) : encode (t ++ u) = encode t ++ encode u := by
  simp [encode]

theorem encode_cons {c : Char} {b : UInt8} {tail : List UInt8} (h : Encoding c b tail)
    (t : Text) : encode (c :: t) = b :: (tail ++ encode t) := by
  rw [encode, List.flatMap_cons, ← encode, h.bytes, List.cons_append]

theorem encode_singleton {c : Char} {b : UInt8} {tail : List UInt8} (h : Encoding c b tail) :
    encode [c] = b :: tail := by rw [encode_cons h, encode_nil, List.append_nil]

@[simp]
theorem encode_eq_nil_iff (t : Text) : encode t = [] ↔ t = [] := by
  cases t with
  | nil => exact iff_of_true encode_nil rfl
  | cons c t =>
    obtain ⟨b, tail, hc⟩ := exists_encoding c
    rw [encode_cons hc]
    exact iff_of_false (List.cons_ne_nil _ _) (List.cons_ne_nil _ _)

theorem characters_encode_append (t : Text) (bs : List UInt8) :
    characters (encode t ++ bs) = t.map some ++ characters bs := by
  induction t with
  | nil => rfl
  | cons c t ih =>
    obtain ⟨b, tail, hc⟩ := exists_encoding c
    rw [encode_cons hc, List.cons_append, characters, List.append_assoc, hc.front]
    simp only [List.drop_left, List.map_cons, List.cons_append, ih]

/-- **What is written is read back.** -/
theorem decode_encode (t : Text) : decode (encode t) = t := by
  have h := characters_encode_append t []
  rw [List.append_nil, characters, List.append_nil] at h
  rw [decode, h, List.map_map]
  exact List.map_id t

theorem Encoding.unique {c d : Char} {b : UInt8} {tail : List UInt8} (hc : Encoding c b tail)
    (hd : Encoding d b tail) : c = d :=
  Option.some.inj (Prod.mk.inj ((hc.front []).symm.trans (hd.front []))).1

theorem Encoding.unique_of_nil {c d : Char} {b : UInt8} {tail : List UInt8}
    (hc : Encoding c b tail) (hd : Encoding d b []) : c = d := by
  have hfront := hc.front []
  rw [List.append_nil, ← List.nil_append tail, hd.front tail] at hfront
  exact (Option.some.inj (Prod.mk.inj hfront).1).symm

theorem mem_encode_iff {c : Char} (hc : c.toNat ≤ 0x7F) (t : Text) :
    UInt8.ofNat c.toNat ∈ encode t ↔ c ∈ t := by
  have hone := encoding_one hc
  induction t with
  | nil => simp [encode_nil]
  | cons d t ih =>
    obtain ⟨b, tail, hd⟩ := exists_encoding d
    have htail : UInt8.ofNat c.toNat ∉ tail := fun h =>
      absurd (hd.later _ h) (by rw [hone.lead]; exact Bool.false_ne_true)
    have hlead : UInt8.ofNat c.toNat = b ↔ c = d := by
      constructor
      · rintro rfl
        exact (hd.unique_of_nil hone).symm
      · rintro rfl
        exact (List.cons.inj (hone.bytes.symm.trans hd.bytes)).1
    simp only [encode_cons hd, List.mem_cons, List.mem_append, ih, hlead, htail, false_or]

/-! ## The ends of characters -/

/-- The last byte that goes on no character, and what is behind it, are found from behind. -/
theorem append_lead_inj {x y u v : List UInt8} {a b : UInt8} (h : x ++ a :: u = y ++ b :: v)
    (ha : isContinuation a = false) (hb : isContinuation b = false)
    (hu : ∀ i ∈ u, isContinuation i = true) (hv : ∀ i ∈ v, isContinuation i = true) :
    x = y ∧ a = b ∧ u = v := by
  rcases List.append_eq_append_iff.1 h with ⟨z, rfl, hz⟩ | ⟨z, rfl, hz⟩
  · cases z with
    | nil => simp_all
    | cons i z =>
      obtain ⟨rfl, rfl⟩ := List.cons.inj hz
      have hmem := hu b (by simp)
      rw [hb] at hmem
      exact absurd hmem Bool.false_ne_true
  · cases z with
    | nil => simp_all
    | cons i z =>
      obtain ⟨rfl, rfl⟩ := List.cons.inj hz
      have hmem := hv a (by simp)
      rw [ha] at hmem
      exact absurd hmem Bool.false_ne_true

/-- Bytes that break off inside a character end with the bytes of no text. -/
theorem not_encode_suffix_part {p : Text} {c : Char} {b : UInt8} {u v : List UInt8} (hp : p ≠ [])
    (hc : Encoding c b (u ++ v)) (hv : v ≠ []) (w : Text) :
    ¬ encode p <:+ encode w ++ b :: u := by
  rintro ⟨x, hx⟩
  obtain ⟨q, a, rfl⟩ : ∃ q a, p = q ++ [a] := ⟨_, _, (List.dropLast_concat_getLast hp).symm⟩
  obtain ⟨b', tail, ha⟩ := exists_encoding a
  rw [encode_append, encode_singleton ha, ← List.append_assoc] at hx
  have hu : ∀ i ∈ u, isContinuation i = true := fun i hi => hc.later i (List.mem_append_left v hi)
  obtain ⟨-, rfl, rfl⟩ := append_lead_inj hx ha.lead hc.lead ha.later hu
  have hwhole := hc.front []
  rw [List.append_nil] at hwhole
  have hlength := (Prod.mk.inj (hwhole.symm.trans (ha.front v))).2
  rw [List.length_append] at hlength
  exact hv (List.length_eq_zero_iff.1 (by omega))

/-- **A text ends with another when its bytes do.** -/
theorem encode_suffix_iff {p w : Text} : encode p <:+ encode w ↔ p <:+ w := by
  constructor
  · intro h
    induction p using List.reverseRecOn generalizing w with
    | nil => exact List.nil_suffix
    | append_singleton q a ih =>
      obtain ⟨x, hx⟩ := h
      obtain ⟨b, tail, ha⟩ := exists_encoding a
      rw [encode_append, encode_singleton ha, ← List.append_assoc] at hx
      rcases List.eq_nil_or_concat' w with rfl | ⟨y, c, rfl⟩
      · simp [encode_nil] at hx
      · obtain ⟨b', tail', hc⟩ := exists_encoding c
        rw [encode_append, encode_singleton hc] at hx
        obtain ⟨hfront, rfl, rfl⟩ := append_lead_inj hx ha.lead hc.lead ha.later hc.later
        obtain ⟨z, rfl⟩ := ih ⟨x, hfront⟩
        rw [ha.unique hc]
        exact ⟨z, (List.append_assoc z q [c]).symm⟩
  · rintro ⟨x, rfl⟩
    rw [encode_append]
    exact List.suffix_append _ _

/-! ## Line feeds in bytes -/

theorem between_of_mem_head?_following {more : Nat} {low high : UInt8} {rest : List UInt8}
    {x : UInt8} (h : x ∈ (following more low high rest).head?) : low ≤ x ∧ x ≤ high := by
  cases rest with
  | nil => simp [following] at h
  | cons b r =>
    rw [following] at h
    split at h
    · rename_i hb
      obtain rfl := Option.some.inj h
      exact hb.2
    · simp at h

theorem le_foldl_payloads (tail : List UInt8) (n : Nat) :
    n ≤ tail.foldl (fun n c => n * 64 + c.toNat % 64) n := by
  induction tail generalizing n with
  | nil => exact Nat.le_refl n
  | cons x tail ih =>
    rw [List.foldl_cons]
    exact Nat.le_trans (by omega) (ih _)

section Lead

variable {b : UInt8} {more : Nat} {low high : UInt8} (hlead : leadByte b = some (more, low, high))

include hlead

theorem codePoint_of_one (hmore : more = 0) : codePoint 7 b [] = b.toNat := by
  change b.toNat % 128 = b.toNat
  rw [← UInt8.ofNat_toNat (x := b), leadByte_ofNat b.toNat_lt] at hlead
  split_ifs at hlead <;> cases hlead
  case pos hascii => exact Nat.mod_eq_of_lt hascii
  all_goals exact absurd hmore (by decide)

/-- The first two bytes of a character that has more than one say that it is no line feed. -/
theorem lineFeed_lt_codePoint {tail : List UInt8} (hlength : tail.length = more) (hmore : more ≠ 0)
    (hsecond : ∀ x ∈ tail.head?, low ≤ x ∧ x ≤ high) : 10 < codePoint (6 - more) b tail := by
  obtain ⟨x, rest, rfl⟩ := List.exists_cons_of_length_pos (by omega : 0 < tail.length)
  obtain ⟨hlow, hhigh⟩ := hsecond x rfl
  rw [UInt8.le_iff_toNat_le] at hlow hhigh
  refine Nat.lt_of_lt_of_le ?_ (le_foldl_payloads rest _)
  rw [← UInt8.ofNat_toNat (x := b), leadByte_ofNat b.toNat_lt] at hlead
  split_ifs at hlead <;> cases hlead
  · exact absurd rfl hmore
  · change 10 < b.toNat % 32 * 64 + x.toNat % 64
    omega
  · change 10 < b.toNat % 16 * 64 + x.toNat % 64
    change 0xA0 ≤ x.toNat at hlow
    change x.toNat ≤ 0xBF at hhigh
    omega
  · change 10 < b.toNat % 16 * 64 + x.toNat % 64
    omega
  · change 10 < b.toNat % 16 * 64 + x.toNat % 64
    omega
  · change 10 < b.toNat % 8 * 64 + x.toNat % 64
    change 0x90 ≤ x.toNat at hlow
    change x.toNat ≤ 0xBF at hhigh
    omega
  · change 10 < b.toNat % 8 * 64 + x.toNat % 64
    omega
  · change 10 < b.toNat % 8 * 64 + x.toNat % 64
    omega

end Lead

theorem ofNat_ne_lineFeed {n : Nat} (h : n ≠ 10) : Char.ofNat n ≠ '\n' := by
  intro heq
  have hnat : (Char.ofNat n).toNat = 10 := congrArg Char.toNat heq
  by_cases hvalid : n.isValidChar
  · have hread : Char.ofNat n = Char.ofNatAux n hvalid := dif_pos hvalid
    rw [hread] at hnat
    exact h hnat
  · have hread : Char.ofNat n = '\x00' := dif_neg hvalid
    rw [hread] at hnat
    cases hnat

theorem front_ne_lineFeed {b : UInt8} (hb : b ≠ 10) (rest : List UInt8) :
    (front b rest).1 ≠ some '\n' := by
  rw [front]
  cases hlead : leadByte b with
  | none => exact nofun
  | some bounds =>
    obtain ⟨more, low, high⟩ := bounds
    simp only
    split
    · rename_i hlength
      refine fun heq => ofNat_ne_lineFeed ?_ (Option.some.inj heq)
      by_cases hmore : more = 0
      · have hnil := List.length_eq_zero_iff.1 (hlength.trans hmore)
        rw [if_pos hmore, hnil, codePoint_of_one hlead hmore]
        exact fun e => hb (UInt8.toNat_inj.1 e)
      · have hpoint := lineFeed_lt_codePoint hlead hlength hmore fun x hx =>
          between_of_mem_head?_following hx
        rw [if_neg hmore]
        omega
    · exact nofun

/-- **A line feed is read from its own byte only**, also where the bytes are no text. -/
theorem lineFeed_not_mem_decode {bs : List UInt8} (h : 10 ∉ bs) : '\n' ∉ decode bs := by
  induction bs using characters.induct with
  | case1 => simp [decode, characters]
  | case2 b rest ih =>
    obtain ⟨hb, hrest⟩ := not_or.1 (mt List.mem_cons.2 h)
    have hfront := front_ne_lineFeed (Ne.symm hb) rest
    rw [decode_cons, List.mem_cons, not_or]
    refine ⟨fun heq => ?_, ih fun hmem => hrest (List.mem_of_mem_drop hmem)⟩
    cases hc : (front b rest).1 with
    | none =>
      rw [hc] at heq
      exact absurd heq (by decide)
    | some c =>
      rw [hc] at heq hfront
      exact hfront (congrArg some heq.symm)

end QueryEditor.Utf8
