import Mathlib
import ConfigGate.Json.Write
import ConfigGate.Proofs.Digits
import ConfigGate.Proofs.Json.Grammar
import ConfigGate.Proofs.Text

/-!
# Written strings

A string is cut at its special characters, and the runs between them at their characters outside
ASCII. Put together again the fragments are the escapes of the characters in their order, and each
escape is a text of its character.
-/

namespace ConfigGate.Json.Write

open Grammar

/-! ### Fragments -/

/-- The escape of a character outside of `special`. -/
def runEscape (c : Char) : List Char := if c.toNat < 128 then [c] else (units c).flatMap hexUnit

/-- The text of a character in a string. -/
def escape (c : Char) : List Char := if isSpecial c then special c else runEscape c

theorem fragment_bytes (run : List Char) (start stop : Nat) :
    (Piece.bytes start stop).fragment run = Text.slice start stop run := rfl

theorem flatten_units (run : List Char) (us : List Nat) :
    ((us.map Piece.unit).map (·.fragment run)).flatten = us.flatMap hexUnit := by
  rw [List.map_map, List.flatMap_def]
  rfl

/-- The run is cut into what is written, `pending`, whose bytes are not written yet, and what is
left. -/
theorem flatten_pieces (done pending rest : List Char) :
    ((pieces (Text.byteCount done) (Text.byteCount done + Text.byteCount pending) rest).map
      (·.fragment (done ++ (pending ++ rest)))).flatten = pending ++ rest.flatMap runEscape := by
  induction rest generalizing done pending with
  | nil =>
    have h := Text.slice_append done pending []
    simp only [pieces, List.map_cons, List.map_nil, List.flatten_cons, List.flatten_nil,
      List.flatMap_nil, fragment_bytes, h]
  | cons c rest ih =>
    by_cases hc : c.toNat < 128
    · have h := ih done (pending ++ [c])
      simp only [Text.byteCount_append, Text.byteCount, Nat.add_zero, List.append_assoc,
        List.singleton_append] at h
      rw [pieces, if_pos hc, Nat.add_assoc, h, List.flatMap_cons, runEscape, if_pos hc,
        List.singleton_append]
    · have h := ih (done ++ (pending ++ [c])) []
      simp only [Text.byteCount_append, Text.byteCount, Nat.add_zero, List.append_assoc,
        List.singleton_append, List.nil_append] at h
      rw [pieces, if_neg hc, List.flatMap_cons, runEscape, if_neg hc, Nat.add_assoc]
      simp only [List.cons_append, List.map_cons, List.map_append, List.flatten_cons,
        List.flatten_append, flatten_units, h, fragment_bytes, Text.slice_append]

theorem flatten_run (cs : List Char) :
    (Stretch.run cs).fragments.flatten = cs.flatMap runEscape := by
  simpa [Stretch.fragments, Text.byteCount] using flatten_pieces [] [] cs

theorem flatten_cons (c : Char) (l : List Stretch) :
    ((Stretch.cons c l).flatMap Stretch.fragments).flatten =
      runEscape c ++ (l.flatMap Stretch.fragments).flatten := by
  rcases l with - | ⟨⟨d⟩ | ⟨cs⟩, l⟩ <;>
    simp [Stretch.cons, flatten_run]

theorem flatten_stretches (cs : List Char) :
    ((stretches cs).flatMap Stretch.fragments).flatten = cs.flatMap escape := by
  induction cs with
  | nil => rfl
  | cons c cs ih =>
    rw [stretches, List.flatMap_cons, escape]
    split
    · simp [Stretch.fragments, ih]
    · rw [flatten_cons, ih]

theorem flatten_string (s : String) :
    (string s).flatten = '"' :: (s.toList.flatMap escape ++ ['"']) := by
  simp [string, flatten_stretches]

/-! ### Escapes -/

/-- The four digits of a unit. -/
theorem exists_hexText {u : Nat} (h : u < 0x10000) : ∃ i j k l : Nibble,
    hexText 4 u = [i.char, j.char, k.char, l.char] ∧ Digits.value [i, j, k, l] = u := by
  have hlen : (Digits.fixed Nibble.base_pos 4 u).length = 4 := Digits.length_fixed ..
  have hval : Digits.value (Digits.fixed Nibble.base_pos 4 u) = u := by
    rw [Digits.value_fixed]
    exact Nat.mod_eq_of_lt h
  obtain ⟨i, j, k, l, hds⟩ := List.length_eq_four.1 hlen
  rw [hds] at hval
  exact ⟨i, j, k, l, by rw [hexText, hds]; rfl, hval⟩

theorem unitText_hexText (u : Nat) (h : u < 0x10000) : UnitText (hexText 4 u) u := by
  obtain ⟨i, j, k, l, htext, hval⟩ := exists_hexText h
  rw [htext, ← hval]
  exact .mk (.inl rfl) (.inl rfl) (.inl rfl) (.inl rfl)

/-- A character of the basic plane as one unit. -/
theorem charText_hexUnit {c : Char} (h : c.toNat < 0x10000) : CharText (hexUnit c.toNat) c := by
  have hc : c.toNat < 0xd800 ∨ 0xdfff < c.toNat ∧ c.toNat < 0x110000 := c.valid
  have hunit := CharText.unit (unitText_hexText c.toNat h) (by omega)
  rwa [Char.ofNat_toNat] at hunit

theorem charText_units (c : Char) : CharText ((units c).flatMap hexUnit) c := by
  by_cases h : c.toNat < 0x10000
  · simpa [units, h] using charText_hexUnit h
  · have hc : c.toNat < 0xd800 ∨ 0xdfff < c.toNat ∧ c.toNat < 0x110000 := c.valid
    generalize hu : 0xd800 + (c.toNat - 0x10000) / 0x400 = u
    generalize hu' : 0xdc00 + (c.toNat - 0x10000) % 0x400 = u'
    have hcode : 0x10000 + (u - 0xd800) * 0x400 + (u' - 0xdc00) = c.toNat := by omega
    have hpair := CharText.pair (unitText_hexText u (by omega)) (unitText_hexText u' (by omega))
      (by omega) (by omega)
    rw [hcode, Char.ofNat_toNat] at hpair
    simpa [units, h, hu, hu', hexUnit] using hpair

theorem charText_special {c : Char} (h : isSpecial c = true) : CharText (special c) c := by
  unfold special
  split
  case h_8 hq hb _ _ _ _ _ =>
    simp only [isSpecial, decide_eq_true_eq] at h
    have hc : c < ' ' := (h.resolve_left hq).resolve_left hb
    have : c.toNat < ' '.toNat := hc
    exact charText_hexUnit (Nat.lt_trans this (by decide))
  all_goals exact .short (by decide)

theorem charText_escape (c : Char) : CharText (escape c) c := by
  rw [escape]
  split
  · exact charText_special ‹_›
  · rename_i h
    simp only [isSpecial, decide_eq_true_eq, not_or] at h
    rw [runEscape]
    split
    · exact .plain h.1 h.2.1 h.2.2
    · exact charText_units c

theorem charsText_escape (cs : List Char) : CharsText (cs.flatMap escape) cs := by
  induction cs with
  | nil => exact .nil
  | cons c cs ih => exact .cons (charText_escape c) ih

theorem stringText_string (s : String) : StringText (string s).flatten s := by
  rw [flatten_string]
  exact .mk (charsText_escape s.toList)

end ConfigGate.Json.Write
