import Mathlib
import ConfigGate.Proofs.Json.Escape
import ConfigGate.Proofs.Json.Parse

/-!
# Strings as they are written

A string is written in two layers. The outer one cuts it at its special characters, and the inner
one writes each run between them in slices of its bytes, cut again at the characters outside ASCII.
`Escapes` says what a character is written as without regard to either. The text is the
concatenation of these escapes, every slice falls on characters of its run, and the text is read
back as the string it was written for (`string_escapes`).
-/

namespace ConfigGate.Json.Write

open Grammar
open Text (byteCount)

/-! ### Escapes of characters -/

/-- A `\u` unit with four digits in lower case. -/
inductive IsUnit : List Char → Nat → Prop where
  | mk (i j k l : Nibble) :
      IsUnit ['\\', 'u', i.char, j.char, k.char, l.char] (Digits.value [i, j, k, l])

/-- The characters that have an escape of one letter, with this letter. -/
def letters : List (Char × Char) :=
  [('"', '"'), ('\\', '\\'), ('\x08', 'b'), ('\x0c', 'f'), ('\n', 'n'), ('\r', 'r'), ('\t', 't')]

/-- What a character is written as. Outside ASCII it is the units of its UTF-16 form. -/
inductive Escapes : Char → List Char → Prop where
  | letter {c l : Char} (h : (c, l) ∈ letters) : Escapes c ['\\', l]
  | control {c : Char} {t : List Char} (hc : c < ' ') (hl : ∀ l, (c, l) ∉ letters)
      (ht : IsUnit t c.toNat) : Escapes c t
  | ascii {c : Char} (hc : ' ' ≤ c) (hl : ∀ l, (c, l) ∉ letters) (h : c.toNat < 128) :
      Escapes c [c]
  | unit {c : Char} {t : List Char} (hc : 128 ≤ c.toNat) (ht : IsUnit t c.toNat) : Escapes c t
  | pair {c : Char} {t t' : List Char} {u u' : Nat} (hu : 0xd800 ≤ u ∧ u < 0xdc00)
      (hu' : 0xdc00 ≤ u' ∧ u' < 0xe000)
      (hc : c.toNat = 0x10000 + (u - 0xd800) * 0x400 + (u' - 0xdc00))
      (ht : IsUnit t u) (ht' : IsUnit t' u') : Escapes c (t ++ t')

theorem isUnit_iff {t : List Char} {u : Nat} : IsUnit t u ↔ u < 0x10000 ∧ t = hexUnit u := by
  constructor
  · rintro ⟨i, j, k, l⟩
    have hlt : Digits.value [i, j, k, l] < 0x10000 := by
      simpa using Digits.value_lt [i, j, k, l]
    have hfixed : Digits.fixed Nibble.base_pos 4 (Digits.value [i, j, k, l]) = [i, j, k, l] :=
      Digits.fixed_value Nibble.base_pos [i, j, k, l]
    refine ⟨hlt, ?_⟩
    rw [hexUnit, hexText, hfixed]
    rfl
  · rintro ⟨hu, rfl⟩
    obtain ⟨i, j, k, l, htext, rfl⟩ := exists_hexText hu
    rw [hexUnit, htext]
    exact .mk i j k l

section
variable {c : Char}

theorem isSpecial_iff : isSpecial c = true ↔ c = '"' ∨ c = '\\' ∨ c < ' ' := by
  rw [isSpecial, decide_eq_true_iff]

theorem escape_of_letter {l : Char} (h : (c, l) ∈ letters) : escape c = ['\\', l] := by
  simp only [letters, List.mem_cons, List.not_mem_nil, or_false, Prod.mk.injEq] at h
  rcases h with h | h | h | h | h | h | h
  all_goals
    rcases h with ⟨rfl, rfl⟩
    rfl

theorem escape_of_control (hc : c < ' ') (hl : ∀ l, (c, l) ∉ letters) :
    escape c = hexUnit c.toNat := by
  rw [escape, if_pos (isSpecial_iff.2 (.inr (.inr hc)))]
  unfold special
  split
  case h_8 => rfl
  all_goals simp [letters] at hl

theorem escape_of_not_special (hc : ' ' ≤ c) (hl : ∀ l, (c, l) ∉ letters) :
    escape c = runEscape c := by
  refine if_neg fun h => ?_
  rcases isSpecial_iff.1 h with rfl | rfl | h
  · exact hl '"' (by decide)
  · exact hl '\\' (by decide)
  · exact absurd hc (Char.not_le.2 h)

theorem escape_of_ascii (hc : ' ' ≤ c) (hl : ∀ l, (c, l) ∉ letters) (h : c.toNat < 128) :
    escape c = [c] := by
  rw [escape_of_not_special hc hl, runEscape, if_pos h]

theorem escape_of_outside (h : 128 ≤ c.toNat) : escape c = (units c).flatMap hexUnit := by
  have hc : ' ' ≤ c := Nat.le_trans (by decide : ' '.toNat ≤ 128) h
  have hl : ∀ l, (c, l) ∉ letters := by
    intro l hl
    have hsmall : ∀ p ∈ letters, p.1.toNat < 128 := by decide
    exact absurd (hsmall _ hl) (Nat.not_lt.2 h)
  rw [escape_of_not_special hc hl, runEscape, if_neg (Nat.not_lt.2 h)]

theorem escape_of_unit (h : 128 ≤ c.toNat) (hc : c.toNat < 0x10000) :
    escape c = hexUnit c.toNat := by
  rw [escape_of_outside h, units, if_pos hc, List.flatMap_singleton]

theorem escape_of_pair {u u' : Nat} (hu : 0xd800 ≤ u) (hu' : 0xdc00 ≤ u' ∧ u' < 0xe000)
    (hc : c.toNat = 0x10000 + (u - 0xd800) * 0x400 + (u' - 0xdc00)) :
    escape c = hexUnit u ++ hexUnit u' := by
  have hhigh : 0xd800 + (c.toNat - 0x10000) / 0x400 = u := by omega
  have hlow : 0xdc00 + (c.toNat - 0x10000) % 0x400 = u' := by omega
  rw [escape_of_outside (by omega), units, if_neg (by omega), hhigh, hlow]
  simp

/-- A character has one escape, and it is the one that is written. -/
theorem escapes_iff {t : List Char} : Escapes c t ↔ t = escape c := by
  constructor
  · intro h
    cases h with
    | letter h => exact (escape_of_letter h).symm
    | control hc hl ht => rw [escape_of_control hc hl, (isUnit_iff.1 ht).2]
    | ascii hc hl h => exact (escape_of_ascii hc hl h).symm
    | unit hc ht => rw [escape_of_unit hc (isUnit_iff.1 ht).1, (isUnit_iff.1 ht).2]
    | pair hu hu' hc ht ht' =>
      rw [escape_of_pair hu.1 hu' hc, (isUnit_iff.1 ht).2, (isUnit_iff.1 ht').2]
  · rintro rfl
    by_cases hletter : ∃ l, (c, l) ∈ letters
    · obtain ⟨l, hl⟩ := hletter
      rw [escape_of_letter hl]
      exact .letter hl
    have hl : ∀ l, (c, l) ∉ letters := not_exists.1 hletter
    rcases lt_or_ge c ' ' with hc | hc
    · have hu : c.toNat < 0x10000 := Nat.lt_trans (show c.toNat < ' '.toNat from hc) (by decide)
      rw [escape_of_control hc hl]
      exact .control hc hl (isUnit_iff.2 ⟨hu, rfl⟩)
    rcases Nat.lt_or_ge c.toNat 128 with hascii | houtside
    · rw [escape_of_ascii hc hl hascii]
      exact .ascii hc hl hascii
    rcases Nat.lt_or_ge c.toNat 0x10000 with hu | hpair
    · rw [escape_of_unit houtside hu]
      exact .unit houtside (isUnit_iff.2 ⟨hu, rfl⟩)
    · have hmax : c.toNat < 0x110000 := by
        rcases c.valid with hv | hv
        · exact Nat.lt_trans hv (by decide)
        · exact hv.2
      generalize hu : 0xd800 + (c.toNat - 0x10000) / 0x400 = u
      generalize hu' : 0xdc00 + (c.toNat - 0x10000) % 0x400 = u'
      have hhigh : 0xd800 ≤ u ∧ u < 0xdc00 := by omega
      have hlow : 0xdc00 ≤ u' ∧ u' < 0xe000 := by omega
      have hcode : c.toNat = 0x10000 + (u - 0xd800) * 0x400 + (u' - 0xdc00) := by omega
      rw [escape_of_pair hhigh.1 hlow hcode]
      exact .pair hhigh hlow hcode (isUnit_iff.2 ⟨by omega, rfl⟩) (isUnit_iff.2 ⟨by omega, rfl⟩)

end

/-! ### Cuts -/

/-- The characters of a stretch. -/
def Stretch.text : Stretch → List Char
  | special c => [c]
  | run cs => cs

/-- Stretches that alternate between single special characters and runs of others. -/
inductive IsCut : List Stretch → Prop where
  | nil : IsCut []
  | special {c : Char} {rest : List Stretch} (hc : isSpecial c = true) (h : IsCut rest) :
      IsCut (.special c :: rest)
  | run {cs : List Char} {rest : List Stretch} (ne : cs ≠ []) (hcs : ∀ c ∈ cs, isSpecial c = false)
      (hrest : ∀ cs', rest.head? ≠ some (.run cs')) (h : IsCut rest) : IsCut (.run cs :: rest)

theorem flatMap_text_cons (c : Char) (l : List Stretch) :
    (Stretch.cons c l).flatMap Stretch.text = c :: l.flatMap Stretch.text := by
  rcases l with - | ⟨⟨d⟩ | ⟨cs⟩, l⟩
  all_goals rfl

theorem IsCut.cons {c : Char} {l : List Stretch} (hc : isSpecial c = false) (h : IsCut l) :
    IsCut (Stretch.cons c l) := by
  have hsingle : ∀ d ∈ [c], isSpecial d = false := List.forall_mem_singleton.2 hc
  cases h with
  | nil => exact .run (by simp) hsingle (by simp) .nil
  | special hd h => exact .run (by simp) hsingle (by simp) (.special hd h)
  | run ne hcs hrest h => exact .run (by simp) (List.forall_mem_cons.2 ⟨hc, hcs⟩) hrest h

theorem isCut_stretches (s : List Char) : IsCut (stretches s) := by
  induction s with
  | nil => exact .nil
  | cons c s ih =>
    rw [stretches]
    split
    · exact .special ‹_› ih
    · exact ih.cons (Bool.eq_false_iff.2 ‹_›)

theorem flatMap_text_stretches (s : List Char) : (stretches s).flatMap Stretch.text = s := by
  induction s with
  | nil => rfl
  | cons c s ih =>
    rw [stretches]
    split
    · rw [List.flatMap_cons, ih]
      rfl
    · rw [flatMap_text_cons, ih]

/-! ### Slices -/

/-- The run is what is done, what is pending and what is left, as in `flatten_pieces`: the next
slice starts behind what is done and ends behind what is pending. -/
theorem isSlice_of_mem_pieces {done pending rest : List Char} {start stop : Nat}
    (h : .bytes start stop ∈ pieces (byteCount done) (byteCount done + byteCount pending) rest) :
    Text.IsSlice start stop (done ++ (pending ++ rest)) := by
  induction rest generalizing done pending with
  | nil =>
    obtain ⟨rfl, rfl⟩ := Piece.bytes.inj (List.mem_singleton.1 h)
    exact Text.isSlice_append done pending []
  | cons c rest ih =>
    by_cases hc : c.toNat < 128
    · have hnext := @ih done (pending ++ [c])
      simp only [Text.byteCount_append, Text.byteCount, Nat.add_zero, List.append_assoc,
        List.singleton_append, ← Nat.add_assoc] at hnext
      rw [pieces, if_pos hc] at h
      exact hnext h
    · have hnext := @ih (done ++ (pending ++ [c])) []
      simp only [Text.byteCount_append, Text.byteCount, Nat.add_zero, List.append_assoc,
        List.singleton_append, List.nil_append, ← Nat.add_assoc] at hnext
      rw [pieces, if_neg hc, List.cons_append, List.mem_cons, List.mem_append] at h
      rcases h with h | h | h
      · obtain ⟨rfl, rfl⟩ := Piece.bytes.inj h
        exact Text.isSlice_append done pending (c :: rest)
      · obtain ⟨u, -, hu⟩ := List.mem_map.1 h
        cases hu
      · exact hnext h

/-! ### Strings -/

theorem reads_escapes (s : String) (rest : List Char) :
    Reads (Scan.string (s.toList.flatMap escape ++ '"' :: rest)) s rest := by
  refine Scan.reads_string.2 ⟨s.toList.flatMap escape ++ ['"'], .mk (charsText_escape s.toList), ?_⟩
  rw [List.append_assoc, List.singleton_append]

/-- What is written for a string between its quotes are the escapes of its characters in their
order. The slices taken from the runs between its special characters are in bounds and between
characters. Reading the text gives back the string, so that no other string is written so. -/
theorem string_escapes (s : String) :
    (string s).flatten = '"' :: (s.toList.flatMap escape ++ ['"']) ∧
    (∀ c t, Escapes c t ↔ t = escape c) ∧
    (IsCut (stretches s.toList) ∧ (stretches s.toList).flatMap Stretch.text = s.toList) ∧
    (∀ run, .run run ∈ stretches s.toList → ∀ start stop, .bytes start stop ∈ pieces 0 0 run →
      start ≤ stop ∧ stop ≤ byteCount run ∧ Text.IsBoundary start run ∧
        Text.IsBoundary stop run ∧
        Text.bytes (Text.slice start stop run) =
          ((Text.bytes run).drop start).take (stop - start)) ∧
    (∀ rest, Reads (Scan.string (s.toList.flatMap escape ++ '"' :: rest)) s rest) ∧
    ∀ s' : String, s'.toList.flatMap escape = s.toList.flatMap escape → s' = s := by
  refine ⟨flatten_string s, fun c t => escapes_iff,
    ⟨isCut_stretches s.toList, flatMap_text_stretches s.toList⟩, ?_, reads_escapes s, ?_⟩
  · intro run _ start stop h
    have hslice : Text.IsSlice start stop run := by
      simpa [Text.byteCount] using @isSlice_of_mem_pieces [] [] run start stop
        (by simpa [Text.byteCount] using h)
    exact ⟨hslice.le, hslice.le_byteCount, hslice.start, hslice.stop, hslice.bytes_slice⟩
  · intro s' hs
    have hread := reads_escapes s' []
    rw [hs] at hread
    exact (hread.unique (reads_escapes s [])).1

-- A run that begins and ends outside ASCII: the slices at its ends are empty.
example : (pieces 0 0 ['é', 'a', '😀']).map (·.fragment ['é', 'a', '😀']) =
    [[], "\\u00e9".toList, ['a'], "\\ud83d".toList, "\\ude00".toList, []] := by decide

end ConfigGate.Json.Write
