import Mathlib
import ConfigGate.Proofs.Coercion
import ConfigGate.Proofs.Digits
import ConfigGate.Proofs.Text

/-!
# Spellings of a UUID

A UUID has four spellings: its 32 digits, the digits in five groups, and the groups in braces or
behind `urn:uuid:`. Reading begins with the number of bytes of a text and only then looks at its
characters. A spelling has one byte for each character, so that it is read as what it is, and a text
of the same number of bytes with other characters in it is refused (`uuid_spellings`).
-/

namespace ConfigGate

/-! ### Letter cases -/

namespace Uuid

/-- `c` is the letter `d` in either letter case. -/
def IsCase (d c : Char) : Prop := c = d ∨ c = d.toUpper

theorem isCase_toLower (c : Char) : IsCase c.toLower c := by
  by_cases hc : c.val ≥ 'A'.val ∧ c.val ≤ 'Z'.val
  · have hrange : 65 ≤ c.toNat ∧ c.toNat ≤ 90 := hc
    obtain ⟨k, hk⟩ : ∃ k : Fin 26, c.toNat = 65 + k.val :=
      ⟨⟨c.toNat - 65, by omega⟩, by simp only; omega⟩
    have hback : ∀ k : Fin 26,
        Char.ofNat (65 + k.val) = (Char.ofNat (65 + k.val)).toLower.toUpper := by
      decide
    have hback := hback k
    rw [← hk, Char.ofNat_toNat] at hback
    exact .inr hback
  · refine .inl ?_
    rw [Char.toLower, dif_neg hc]

theorem isCase_urn {d c : Char} (hd : d ∈ urn) (h : IsCase d c) :
    d = c.toLower ∧ c.utf8Size = 1 := by
  have hletters : (d = d.toLower ∧ d.utf8Size = 1) ∧
      d = d.toUpper.toLower ∧ d.toUpper.utf8Size = 1 := by
    fin_cases hd <;> decide
  rcases h with rfl | rfl
  · exact hletters.1
  · exact hletters.2

/-! ### Spellings -/

/-- Four bits of a UUID. The highest are those at place zero. -/
def nibble (u : Uuid) (place : Nat) : Nibble := (u.bits.extractLsb' (124 - 4 * place) 4).toFin

/-- The text is the 32 digits of `u`. -/
def SimpleText (u : Uuid) (s : List Char) : Prop :=
  List.Forall₂ Nibble.IsSpelled ((List.range 32).map u.nibble) s

inductive GroupedText (u : Uuid) : List Char → Prop where
  | mk {a b c d e : List Char} (ha : a.length = 8) (hb : b.length = 4) (hc : c.length = 4)
      (hd : d.length = 4) (he : e.length = 12) (h : SimpleText u (a ++ (b ++ (c ++ (d ++ e))))) :
      GroupedText u (a ++ '-' :: (b ++ '-' :: (c ++ '-' :: (d ++ '-' :: e))))

inductive Spelling (u : Uuid) : List Char → Prop where
  | simple {s : List Char} (h : SimpleText u s) : Spelling u s
  | grouped {s : List Char} (h : GroupedText u s) : Spelling u s
  | braced {s : List Char} (h : GroupedText u s) : Spelling u ('{' :: (s ++ ['}']))
  | urn {p s : List Char} (hp : List.Forall₂ IsCase ['u', 'r', 'n', ':', 'u', 'u', 'i', 'd', ':'] p)
      (h : GroupedText u s) : Spelling u (p ++ s)

/-! ### Digits -/

theorem nibbles_eq (u : Uuid) : u.nibbles = (List.range 32).map u.nibble := by
  have hfixed : ∀ w n, Digits.fixed Nibble.base_pos w n =
      (List.range w).map fun i => Digits.last Nibble.base_pos (n / 16 ^ (w - 1 - i)) := by
    intro w
    induction w with
    | zero => intro n; rfl
    | succ w ih =>
      intro n
      rw [Digits.fixed, ih, List.range_succ, List.map_append]
      congr 1
      · refine List.map_congr_left fun i hi => ?_
        have hi : i < w := List.mem_range.1 hi
        rw [Nat.div_div_eq_div_mul, ← pow_succ', show w - 1 - i + 1 = w + 1 - 1 - i by omega]
      · simp
  rw [nibbles, hfixed]
  refine List.map_congr_left fun i hi => Fin.ext ?_
  have hi : i < 32 := List.mem_range.1 hi
  have hpow : (16 : Nat) ^ (31 - i) = 2 ^ (124 - 4 * i) := by
    rw [show (16 : Nat) = 2 ^ 4 from rfl, ← pow_mul, show 4 * (31 - i) = 124 - 4 * i by omega]
  show u.bits.toNat / 16 ^ (31 - i) % 16 = (u.bits.extractLsb' (124 - 4 * i) 4).toNat
  rw [BitVec.extractLsb'_toNat, Nat.shiftRight_eq_div_pow, hpow]

theorem ofNibbles_nibbles (u : Uuid) : ofNibbles u.nibbles = u := by
  have hlt : u.bits.toNat < 16 ^ 32 := u.bits.isLt
  rw [ofNibbles, nibbles, Digits.value_fixed, Nat.mod_eq_of_lt hlt, BitVec.ofNat_toNat,
    BitVec.setWidth_eq]

theorem ofNibbles_eq_iff {ns : List Nibble} (h : ns.length = 32) {u : Uuid} :
    ofNibbles ns = u ↔ ns = u.nibbles := by
  constructor
  · intro hu
    have hlt : Digits.value ns < 2 ^ 128 := by
      have := Digits.value_lt ns
      rwa [h] at this
    rw [← hu, nibbles, ofNibbles, BitVec.toNat_ofNat, Nat.mod_eq_of_lt hlt, ← h]
    exact (Digits.fixed_value Nibble.base_pos ns).symm
  · intro hns
    rw [hns, ofNibbles_nibbles]

theorem mapM_ofChar?_eq_some_iff {s : List Char} {ns : List Nibble} :
    s.mapM Nibble.ofChar? = some ns ↔ List.Forall₂ Nibble.IsSpelled ns s := by
  induction s generalizing ns with
  | nil => cases ns <;> simp
  | cons c s ih =>
    rw [List.mapM_cons]
    simp only [Option.bind_eq_bind, Option.bind_eq_some_iff, Option.pure_def, Option.some.injEq, ih,
      Nibble.ofChar?_eq_some_iff]
    constructor
    · rintro ⟨n, hn, ns, hns, rfl⟩
      exact .cons hn hns
    · rintro (_ | ⟨hn, hns⟩)
      exact ⟨_, hn, _, hns, rfl⟩

theorem simple?_eq_some_iff {s : List Char} {u : Uuid} : simple? s = some u ↔ SimpleText u s := by
  rw [SimpleText, ← nibbles_eq, simple?]
  split
  · next hlen =>
    rw [Option.map_eq_some_iff]
    constructor
    · rintro ⟨ns, hns, hu⟩
      rw [mapM_ofChar?_eq_some_iff] at hns
      rwa [← (ofNibbles_eq_iff (hns.length_eq.trans hlen)).1 hu]
    · intro h
      exact ⟨_, mapM_ofChar?_eq_some_iff.2 h, ofNibbles_nibbles u⟩
  · next hlen =>
    constructor
    · intro h
      cases h
    · intro h
      refine absurd ?_ hlen
      rw [← h.length_eq]
      exact Digits.length_fixed ..

/-! ### Groups -/

theorem groups?_joinGroups {lengths : List Nat} (hne : lengths ≠ []) {s : List Char}
    (h : s.length = lengths.sum) : groups? lengths (joinGroups lengths s) = some s := by
  induction lengths generalizing s with
  | nil => exact absurd rfl hne
  | cons n lengths ih =>
    cases lengths with
    | nil =>
      rw [List.sum_cons, List.sum_nil, Nat.add_zero] at h
      rw [joinGroups, groups?, if_pos h]
    | cons m lengths =>
      have hlen : (s.take n).length = n := by
        rw [List.sum_cons] at h
        rw [List.length_take]
        omega
      have hrest := ih (s := s.drop n) (by simp) (by simp [h])
      rw [joinGroups, groups?, List.drop_left' hlen, List.take_left' hlen]
      · simp only [hrest, Option.map_some, List.take_append_drop]
      · simp
      · simp

theorem eq_joinGroups_of_groups? {lengths : List Nat} {s t : List Char}
    (h : groups? lengths s = some t) : t.length = lengths.sum ∧ s = joinGroups lengths t := by
  induction lengths generalizing s t with
  | nil =>
    rw [groups?] at h
    split at h
    · next hs =>
      cases h
      exact ⟨rfl, hs⟩
    · cases h
  | cons n lengths ih =>
    rcases lengths with - | ⟨m, lengths⟩
    · rw [groups?] at h
      split at h
      · next hs =>
        cases h
        exact ⟨by simpa using hs, rfl⟩
      · cases h
    · rw [groups?] at h
      split at h
      · next r hr =>
        obtain ⟨t', ht', rfl⟩ := Option.map_eq_some_iff.1 h
        obtain ⟨hlen, hjoin⟩ := ih ht'
        have hle : n < s.length := by
          have := congrArg List.length hr
          rw [List.length_drop, List.length_cons] at this
          omega
        have htake : (s.take n).length = n := List.length_take_of_le hle.le
        refine ⟨by rw [List.length_append, htake, hlen]; rfl, ?_⟩
        rw [joinGroups, List.take_left' htake, List.drop_left' htake, ← hjoin, ← hr,
          List.take_append_drop]
        simp
      · cases h
      · simp

theorem joinGroups_append {a b c d e : List Char} (ha : a.length = 8) (hb : b.length = 4)
    (hc : c.length = 4) (hd : d.length = 4) :
    joinGroups groupLengths (a ++ (b ++ (c ++ (d ++ e)))) =
      a ++ '-' :: (b ++ '-' :: (c ++ '-' :: (d ++ '-' :: e))) := by
  simp only [joinGroups, groupLengths, List.take_left' ha, List.drop_left' ha, List.take_left' hb,
    List.drop_left' hb, List.take_left' hc, List.drop_left' hc, List.take_left' hd,
    List.drop_left' hd]

theorem exists_groups {t : List Char} (h : t.length = 32) : ∃ a b c d e : List Char,
    t = a ++ (b ++ (c ++ (d ++ e))) ∧
      a.length = 8 ∧ b.length = 4 ∧ c.length = 4 ∧ d.length = 4 ∧ e.length = 12 := by
  refine ⟨t.take 8, (t.drop 8).take 4, (t.drop 12).take 4, (t.drop 16).take 4, t.drop 20, ?_, ?_⟩
  · have h20 : (t.drop 16).drop 4 = t.drop 20 := List.drop_drop
    have h16 : (t.drop 12).drop 4 = t.drop 16 := List.drop_drop
    have h12 : (t.drop 8).drop 4 = t.drop 12 := List.drop_drop
    rw [← h20, List.take_append_drop, ← h16, List.take_append_drop, ← h12, List.take_append_drop,
      List.take_append_drop]
  · simp only [List.length_take, List.length_drop]
    omega

theorem hyphenated?_eq_some_iff {s : List Char} {u : Uuid} :
    hyphenated? s = some u ↔ GroupedText u s := by
  rw [hyphenated?, Option.bind_eq_some_iff]
  constructor
  · rintro ⟨t, ht, hu⟩
    obtain ⟨hlen, rfl⟩ := eq_joinGroups_of_groups? ht
    obtain ⟨a, b, c, d, e, rfl, ha, hb, hc, hd, he⟩ := exists_groups hlen
    rw [joinGroups_append ha hb hc hd]
    exact .mk ha hb hc hd he (simple?_eq_some_iff.1 hu)
  · rintro ⟨ha, hb, hc, hd, he, h⟩
    refine ⟨_, ?_, simple?_eq_some_iff.2 h⟩
    rw [← joinGroups_append ha hb hc hd]
    refine groups?_joinGroups (by decide) ?_
    simp only [List.length_append, ha, hb, hc, hd, he]
    rfl

/-! ### Sizes and wrappers -/

theorem byteCount_joinGroups (lengths : List Nat) (s : List Char) :
    Text.byteCount (joinGroups lengths s) = Text.byteCount s + (lengths.length - 1) := by
  induction lengths generalizing s with
  | nil => rfl
  | cons n lengths ih =>
    cases lengths with
    | nil => rfl
    | cons m lengths =>
      have hs : Text.byteCount s = Text.byteCount (s.take n) + Text.byteCount (s.drop n) := by
        rw [← Text.byteCount_append, List.take_append_drop]
      have hdash : '-'.utf8Size = 1 := rfl
      rw [joinGroups, Text.byteCount_append, Text.byteCount, ih, hs, hdash]
      · simp only [List.length_cons]
        omega
      · simp

theorem byteCount_of_forall₂ {α : Type} {R : α → Char → Prop} {as : List α} {s : List Char}
    (h : List.Forall₂ R as s) (hR : ∀ a ∈ as, ∀ c, R a c → c.utf8Size = 1) :
    Text.byteCount s = as.length := by
  induction h with
  | nil => rfl
  | cons hac _ ih =>
    rw [List.forall_mem_cons] at hR
    rw [Text.byteCount, hR.1 _ hac, ih hR.2, List.length_cons, Nat.add_comm]

theorem SimpleText.byteCount {u : Uuid} {s : List Char} (h : SimpleText u s) :
    Text.byteCount s = 32 := by
  refine (byteCount_of_forall₂ h fun n _ c hc => ?_).trans (by simp)
  exact hc.utf8Size

theorem GroupedText.byteCount {u : Uuid} {s : List Char} (h : GroupedText u s) :
    Text.byteCount s = 36 := by
  obtain ⟨ha, hb, hc, hd, -, h⟩ := h
  rw [← joinGroups_append ha hb hc hd, byteCount_joinGroups, h.byteCount]
  rfl

theorem inBraces?_eq_some_iff {s t : List Char} :
    inBraces? s = some t ↔ s = '{' :: (t ++ ['}']) := by
  constructor
  · intro h
    unfold inBraces? at h
    split at h
    · next r =>
      split at h
      · next hlast =>
        cases h
        obtain ⟨r, rfl⟩ := List.getLast?_eq_some_iff.1 hlast
        rw [List.dropLast_concat]
      · cases h
    · cases h
  · rintro rfl
    simp [inBraces?]

theorem afterUrn?_eq_some_iff {s t : List Char} :
    afterUrn? s = some t ↔ ∃ p, List.Forall₂ IsCase urn p ∧ s = p ++ t := by
  unfold afterUrn?
  constructor
  · intro h
    split at h
    · next hp =>
      cases h
      refine ⟨s.take urn.length, ?_, (List.take_append_drop _ s).symm⟩
      generalize s.take urn.length = p at hp
      rw [← hp, List.forall₂_map_left_iff, List.forall₂_same]
      exact fun c _ => isCase_toLower c
    · cases h
  · rintro ⟨p, hp, rfl⟩
    have hlower : p.map Char.toLower = urn := by
      have hletters := (List.forall₂_and_left (p := (· ∈ urn)) _ _).2 ⟨fun d hd => hd, hp⟩
      have heq : List.Forall₂ Eq urn (p.map Char.toLower) :=
        List.forall₂_map_right_iff.2 (hletters.imp fun d c h => (isCase_urn h.1 h.2).1)
      rw [List.forall₂_eq_eq_eq] at heq
      exact heq.symm
    have hlen : p.length = urn.length := hp.length_eq.symm
    rw [List.take_left' hlen, List.drop_left' hlen, if_pos hlower]

theorem subject_cases (s : List Char) :
    subject s = (.any, s) ∨ subject s = (.grouped, s) ∨
      ∃ t, subject s = (.grouped, t) ∧ (inBraces? s = some t ∨ afterUrn? s = some t) := by
  unfold subject
  split
  · exact .inr (.inl rfl)
  · next hbraces => exact .inr (.inr ⟨_, rfl, .inl hbraces⟩)
  · next hurn => exact .inr (.inr ⟨_, rfl, .inr hurn⟩)
  · exact .inl rfl

theorem spelling_of_parse {s : List Char} {u : Uuid} (h : parse s = .ok u) : Spelling u s := by
  rcases subject_cases s with hs | hs | ⟨t, hs, ht⟩
  · simp only [parse, hs] at h
    split at h
    · next hu =>
      cases h
      exact .simple (simple?_eq_some_iff.1 hu)
    · cases h
  · simp only [parse, hs] at h
    split at h
    · next hu =>
      cases h
      exact .grouped (hyphenated?_eq_some_iff.1 hu)
    · cases h
  · simp only [parse, hs] at h
    split at h
    · next hu =>
      cases h
      have hu := hyphenated?_eq_some_iff.1 hu
      rcases ht with ht | ht
      · rw [inBraces?_eq_some_iff.1 ht]
        exact .braced hu
      · obtain ⟨p, hp, rfl⟩ := afterUrn?_eq_some_iff.1 ht
        exact .urn hp hu
    · cases h

theorem parse_of_spelling {s : List Char} {u : Uuid} (h : Spelling u s) : parse s = .ok u := by
  cases h with
  | simple h =>
    have hsubject : subject s = (.any, s) := by simp only [subject, h.byteCount]
    simp only [parse, hsubject, simple?_eq_some_iff.2 h]
  | grouped h =>
    have hsubject : subject s = (.grouped, s) := by simp only [subject, h.byteCount]
    simp only [parse, hsubject, hyphenated?_eq_some_iff.2 h]
  | @braced t h =>
    have hsize : Text.byteCount ('{' :: (t ++ ['}'])) = 38 := by
      simp only [Text.byteCount, Text.byteCount_append, h.byteCount]
      rfl
    have hsubject : subject ('{' :: (t ++ ['}'])) = (.grouped, t) := by
      simp only [subject, hsize, inBraces?_eq_some_iff.2 rfl]
    simp only [parse, hsubject, hyphenated?_eq_some_iff.2 h]
  | @urn p t hp h =>
    have hsize : Text.byteCount (p ++ t) = 45 := by
      have hbytes := byteCount_of_forall₂ hp fun d hd c hc => (isCase_urn hd hc).2
      rw [Text.byteCount_append, h.byteCount, hbytes]
      rfl
    have hsubject : subject (p ++ t) = (.grouped, t) := by
      simp only [subject, hsize, afterUrn?_eq_some_iff.2 ⟨p, hp, rfl⟩]
    simp only [parse, hsubject, hyphenated?_eq_some_iff.2 h]

theorem parse_eq_ok_iff {s : List Char} {u : Uuid} : parse s = .ok u ↔ Spelling u s :=
  ⟨spelling_of_parse, parse_of_spelling⟩

/-- The text of a UUID is its grouped spelling. -/
theorem groupedText_text (u : Uuid) : GroupedText u u.text := by
  have hsimple : SimpleText u (u.nibbles.map Nibble.char) := by
    rw [SimpleText, ← nibbles_eq, List.forall₂_map_right_iff, List.forall₂_same]
    exact fun n _ => .inl rfl
  have hlen : (u.nibbles.map Nibble.char).length = 32 := by simp [nibbles]
  obtain ⟨a, b, c, d, e, ht, ha, hb, hc, hd, he⟩ := exists_groups hlen
  rw [ht] at hsimple
  rw [text, ht, joinGroups_append ha hb hc hd]
  exact .mk ha hb hc hd he hsimple

-- Thirty-six bytes in 35 characters.
example : parse "123e4567-e89b-12d3-a456-4266141740é".toList = .error (.character 'é' 34) := by
  decide

end Uuid

namespace Coercion

theorem uuid_eq_ok_iff {field s : String} {u : Uuid} :
    uuid field (.string s) = .ok u ↔ Uuid.Spelling u s.toList := by
  rw [← Uuid.parse_eq_ok_iff, uuid]
  cases Uuid.parse s.toList with
  | ok v => simp only [Except.ok.injEq]
  | error fault => exact ⟨nofun, nofun⟩

theorem uuid_text (field : String) (u : Uuid) :
    uuid field (.string (String.ofList u.text)) = .ok u := by
  rw [uuid_eq_ok_iff, String.toList_ofList]
  exact .grouped u.groupedText_text

theorem exists_uuidParsing {field s : String} (h : ∀ u, ¬ Uuid.Spelling u s.toList) :
    ∃ e, uuid field (.string s) = .error e ∧ e.kind = .uuidParsing ∧ e.path = [field] := by
  rw [uuid]
  cases hparse : Uuid.parse s.toList with
  | ok u => exact absurd (Uuid.parse_eq_ok_iff.1 hparse) (h u)
  | error fault => exact ⟨_, rfl, rfl, rfl⟩

/-- A string is coerced to the UUID that it is a spelling of. If there is none, the text of the
string is what violates the field. The text of every UUID is a spelling of it. -/
theorem uuid_spellings (field s : String) :
    (∀ u, uuid field (.string s) = .ok u ↔ Uuid.Spelling u s.toList) ∧
    ((∃ e, uuid field (.string s) = .error e ∧ e.kind = .uuidParsing ∧ e.path = [field]) ↔
      ∀ u, ¬ Uuid.Spelling u s.toList) ∧
    ∀ u : Uuid, uuid field (.string (String.ofList u.text)) = .ok u := by
  refine ⟨fun u => uuid_eq_ok_iff, ⟨?_, exists_uuidParsing⟩, uuid_text field⟩
  rintro ⟨e, he, -⟩ u hu
  rw [uuid_eq_ok_iff.2 hu] at he
  cases he

end Coercion

end ConfigGate
