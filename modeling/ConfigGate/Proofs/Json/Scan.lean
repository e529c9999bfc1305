import Mathlib
import ConfigGate.Proofs.Digits
import ConfigGate.Proofs.Json.Grammar

/-!
# Tokens and the grammar

Every reader of a token is sound: what it takes off the front of a text is a stretch of the grammar.
And it is complete: it takes a stretch of the grammar, as long as the text does not go on in a way
that would make the stretch longer. Only numbers can be so continued (`Follow`).
-/

namespace ConfigGate.Json

open Digits (Stop)

/-! ### Results of readers -/

/-- A reader gave `v` and left `rest`. -/
def Reads {α : Type} {n : Nat} (r : Except Fault (Scanned α n)) (v : α) (rest : List Char) : Prop :=
  ∃ h, r = .ok ⟨v, rest, h⟩

namespace Reads

variable {α β : Type} {n m : Nat} {r : Except Fault (Scanned α n)} {v : α} {rest : List Char}

theorem of_eq {x : Scanned α n} (h : r = .ok x) : Reads r x.value x.rest := ⟨x.lt, h⟩

@[simp]
theorem ok_iff {x : Scanned α n} : Reads (.ok x) v rest ↔ x.value = v ∧ x.rest = rest := by
  constructor
  · rintro ⟨h, hx⟩
    obtain rfl := Except.ok.inj hx
    exact ⟨rfl, rfl⟩
  · rintro ⟨rfl, rfl⟩
    exact ⟨x.lt, rfl⟩

@[simp]
theorem error_iff {fault : Fault} : ¬ Reads (.error fault : Except Fault (Scanned α n)) v rest := by
  rintro ⟨h, hx⟩
  cases hx

theorem unique {v' : α} {rest' : List Char} (h : Reads r v rest) (h' : Reads r v' rest') :
    v = v' ∧ rest = rest' := by
  obtain ⟨hr, rfl⟩ := h
  exact ok_iff.1 h'

theorem map_iff {f : Scanned α n → Scanned β m} {w : β} :
    Reads (r.map f) w rest ↔ ∃ x, r = .ok x ∧ (f x).value = w ∧ (f x).rest = rest := by
  cases r with
  | error fault => simp [Except.map]
  | ok x => simp [Except.map]

theorem bind_iff {f : Scanned α n → Except Fault (Scanned β m)} {w : β} :
    Reads (r >>= f) w rest ↔ ∃ x, r = .ok x ∧ Reads (f x) w rest := by
  cases r with
  | error fault => simp [bind, Except.bind]
  | ok x => simp [bind, Except.bind]

theorem bind {f : Scanned α n → Except Fault (Scanned β m)} {w : β} {rest' : List Char}
    (h : Reads r v rest') (hf : ∀ x, x.value = v → x.rest = rest' → Reads (f x) w rest) :
    Reads (r >>= f) w rest := by
  obtain ⟨hr, rfl⟩ := h
  exact hf _ rfl rfl

theorem map {f : Scanned α n → Scanned β m} (g : α → β) (h : Reads r v rest)
    (hf : ∀ x, (f x).value = g x.value ∧ (f x).rest = x.rest) : Reads (r.map f) (g v) rest := by
  obtain ⟨hr, rfl⟩ := h
  exact ok_iff.2 ⟨(hf _).1, (hf _).2⟩

end Reads

namespace Scanned

variable {α : Type} {n : Nat} {x : Scanned α n}

@[simp]
theorem value_map {β : Type} (f : α → β) : (x.map f).value = f x.value := rfl

@[simp]
theorem rest_map {β : Type} (f : α → β) : (x.map f).rest = x.rest := rfl

theorem next?_eq_none_iff : x.next? = none ↔ x.rest = [] := by
  obtain ⟨v, rest, h⟩ := x
  cases rest <;> simp [next?]

theorem next?_eq_some_iff {c : Scanned Char n} : x.next? = some c ↔ x.rest = c.value :: c.rest := by
  obtain ⟨v, rest, h⟩ := x
  obtain ⟨c, r, h'⟩ := c
  cases rest <;> simp [next?]

/-- The next character is there whenever the rest has one. -/
theorem exists_next? {c : Char} {r : List Char} (h : x.rest = c :: r) :
    ∃ y : Scanned Char n, x.next? = some y ∧ y.value = c ∧ y.rest = r := by
  obtain ⟨v, rest, hlt⟩ := x
  subst h
  exact ⟨_, rfl, rfl, rfl⟩

end Scanned

/-! ### Blanks -/

namespace Grammar

theorem Blanks.nil : Blanks [] := by simp [Blanks]

theorem Blanks.append {a b : List Char} (ha : Blanks a) (hb : Blanks b) : Blanks (a ++ b) := by
  intro c hc
  rcases List.mem_append.1 hc with h | h
  · exact ha c h
  · exact hb c h

end Grammar

open Grammar

theorem skipBlanks_append {a s : List Char} (ha : Blanks a) : skipBlanks (a ++ s) = skipBlanks s := by
  induction a with
  | nil => rfl
  | cons c a ih =>
    rw [skipBlanks, List.cons_append, List.dropWhile_cons, if_pos (ha c (by simp))]
    exact ih fun c hc => ha c (by simp [hc])

theorem exists_blanks (s : List Char) : ∃ a, Blanks a ∧ s = a ++ skipBlanks s := by
  refine ⟨s.takeWhile isBlank, fun c hc => List.mem_takeWhile_imp hc, ?_⟩
  exact (List.takeWhile_append_dropWhile ..).symm

theorem token?_eq_none_iff {s : List Char} : token? s = none ↔ Blanks s := by
  have hnil : token? s = none ↔ skipBlanks s = [] := by
    unfold token?
    split <;> simp [*]
  rw [hnil, skipBlanks, List.dropWhile_eq_nil_iff]
  rfl

theorem token?_sound {s : List Char} {t : Scanned Char s.length} (h : token? s = some t) :
    isBlank t.value = false ∧ ∃ a, Blanks a ∧ s = a ++ t.value :: t.rest := by
  have hskip : skipBlanks s = t.value :: t.rest := by
    unfold token? at h
    split at h
    · cases h
    · next hs =>
      obtain rfl := Option.some.inj h
      exact hs
  obtain ⟨a, ha, hs⟩ := exists_blanks s
  refine ⟨?_, a, ha, by rw [← hskip]; exact hs⟩
  have := List.head?_dropWhile_not isBlank s
  rw [show s.dropWhile isBlank = _ from hskip] at this
  simpa using this

theorem token?_complete {a s r : List Char} {c : Char} (hs : s = a ++ c :: r) (ha : Blanks a)
    (hc : isBlank c = false) : ∃ t, token? s = some t ∧ t.value = c ∧ t.rest = r := by
  have hskip : skipBlanks s = c :: r := by
    rw [hs, skipBlanks_append ha, skipBlanks, List.dropWhile_cons, hc]
    rfl
  unfold token?
  split
  · next h => rw [hskip] at h; cases h
  · next c' r' h =>
    obtain ⟨rfl, rfl⟩ := List.cons.inj (hskip.symm.trans h)
    exact ⟨_, rfl, rfl, rfl⟩

/-! ### Words -/

namespace Scan

theorem reads_word {n : Nat} {letters rest : List Char} {x : Scanned Unit n} :
    Reads (word letters x) () rest ↔ x.rest = letters ++ rest := by
  induction letters generalizing x with
  | nil => simp [word]
  | cons l ls ih =>
    rw [word]
    cases hx : x.next? with
    | none =>
      rw [Scanned.next?_eq_none_iff] at hx
      simp [hx]
    | some c =>
      rw [Scanned.next?_eq_some_iff] at hx
      dsimp only
      split
      · next hl => rw [ih, hx, hl]; simp [Scanned.map]
      · next hl => simp [hx, Ne.symm hl]

/-! ### Numerals -/

theorem reads_digits {s rest : List Char} {ds : List Digit} :
    Reads (digits s) ds rest ↔ ds ≠ [] ∧ s = ds.map Digit.char ++ rest ∧ Stop rest := by
  rw [← Digits.scan_eq_iff, digits]
  split
  · next h =>
    rw [Reads.ok_iff, Prod.ext_iff]
    constructor
    · rintro ⟨rfl, rfl⟩
      exact ⟨h, rfl, rfl⟩
    · exact fun h => h.2
  · next h =>
    simp only [Reads.error_iff, false_iff]
    rintro ⟨hne, hs⟩
    exact h (by rw [hs]; exact hne)

theorem reads_whole {s rest : List Char} {ds : List Digit} :
    Reads (whole s) ds rest ↔ IsWhole ds ∧ s = ds.map Digit.char ++ rest ∧ Stop rest := by
  rw [whole, Reads.bind_iff]
  constructor
  · rintro ⟨x, hx, h⟩
    obtain ⟨hne, hs, hstop⟩ := reads_digits.1 (.of_eq hx)
    split at h
    · exact absurd h Reads.error_iff
    · next hzero =>
      obtain ⟨rfl, rfl⟩ := Reads.ok_iff.1 h
      exact ⟨⟨hne, fun h => not_not.1 fun hlen => hzero ⟨h, hlen⟩⟩, hs, hstop⟩
  · rintro ⟨⟨hne, hzero⟩, hs, hstop⟩
    obtain ⟨hlt, hx⟩ := reads_digits.2 ⟨hne, hs, hstop⟩
    refine ⟨_, hx, ?_⟩
    rw [if_neg fun h => h.2 (hzero h.1)]
    exact Reads.ok_iff.2 ⟨rfl, rfl⟩

theorem fraction_sound {α : Type} {n : Nat} {x : Scanned α n} {fs : List Digit} {rest : List Char}
    (h : Reads (fraction x) fs rest) : ∃ f, FractionText f fs ∧ x.rest = f ++ rest := by
  unfold fraction at h
  split at h
  · obtain ⟨rfl, rfl⟩ := Reads.ok_iff.1 h
    exact ⟨[], .absent, rfl⟩
  · next c hc =>
    rw [Scanned.next?_eq_some_iff] at hc
    split at h
    · next hdot =>
      obtain ⟨y, hy, rfl, rfl⟩ := Reads.map_iff.1 h
      obtain ⟨hne, hs, -⟩ := reads_digits.1 (.of_eq hy)
      exact ⟨_, .digits hne, by rw [hc, hdot, hs]; rfl⟩
    · obtain ⟨rfl, rfl⟩ := Reads.ok_iff.1 h
      exact ⟨[], .absent, rfl⟩

theorem fraction_complete {α : Type} {n : Nat} {x : Scanned α n} {f rest : List Char}
    {fs : List Digit} (hf : FractionText f fs) (hx : x.rest = f ++ rest) (hstop : Stop rest)
    (hdot : rest.head? ≠ some '.') : Reads (fraction x) fs rest := by
  unfold fraction
  cases hf with
  | absent =>
    split
    · exact Reads.ok_iff.2 ⟨rfl, hx⟩
    · next c hc =>
      rw [Scanned.next?_eq_some_iff] at hc
      rw [if_neg fun h => hdot (by rw [show rest = _ from hx.symm.trans hc, h]; rfl)]
      exact Reads.ok_iff.2 ⟨rfl, hx⟩
  | digits hne =>
    obtain ⟨c, hc, hv, hr⟩ := Scanned.exists_next? hx
    rw [hc]
    dsimp only
    rw [if_pos hv]
    refine Reads.map id (reads_digits.2 ⟨hne, hr, hstop⟩) fun _ => ⟨rfl, rfl⟩

theorem exponentSign_spec {α : Type} {n : Nat} (x : Scanned α n) :
    ∃ sign, ExponentSign sign (exponentSign x).value ∧ x.rest = sign ++ (exponentSign x).rest := by
  unfold exponentSign
  split
  · exact ⟨[], .absent, rfl⟩
  · next c hc =>
    rw [Scanned.next?_eq_some_iff] at hc
    split
    · next h => exact ⟨['+'], .plus, by rw [hc, h]; rfl⟩
    · split
      · next h => exact ⟨['-'], .minus, by rw [hc, h]; rfl⟩
      · exact ⟨[], .absent, rfl⟩

/-- A sign in front of a digit is read as it is meant. -/
theorem exponentSign_complete {α : Type} {n : Nat} {x : Scanned α n} {sign s : List Char}
    {negative : Bool} {d : Digit} (h : ExponentSign sign negative)
    (hx : x.rest = sign ++ d.char :: s) :
    (exponentSign x).value = negative ∧ (exponentSign x).rest = d.char :: s := by
  unfold exponentSign
  cases h with
  | absent =>
    obtain ⟨c, hc, hv, -⟩ := Scanned.exists_next? hx
    rw [hc]
    dsimp only
    rw [hv, if_neg (d.char_ne (by decide)), if_neg (d.char_ne (by decide))]
    exact ⟨rfl, hx⟩
  | plus =>
    obtain ⟨c, hc, hv, hr⟩ := Scanned.exists_next? hx
    rw [hc]
    dsimp only
    rw [if_pos hv]
    exact ⟨rfl, hr⟩
  | minus =>
    obtain ⟨c, hc, hv, hr⟩ := Scanned.exists_next? hx
    rw [hc]
    dsimp only
    rw [if_neg (by rw [hv]; decide), if_pos hv]
    exact ⟨rfl, hr⟩

theorem exponent_sound {α : Type} {n : Nat} {x : Scanned α n} {e : Option Exponent}
    {rest : List Char} (h : Reads (exponent x) e rest) :
    ∃ t, ExponentText t e ∧ x.rest = t ++ rest := by
  unfold exponent at h
  split at h
  · obtain ⟨rfl, rfl⟩ := Reads.ok_iff.1 h
    exact ⟨[], .absent, rfl⟩
  · next c hc =>
    rw [Scanned.next?_eq_some_iff] at hc
    split at h
    · next hmark =>
      obtain ⟨y, hy, rfl, rfl⟩ := Reads.map_iff.1 h
      obtain ⟨sign, hsign, hrest⟩ := exponentSign_spec c
      obtain ⟨hne, hs, -⟩ := reads_digits.1 (.of_eq hy)
      refine ⟨_, .digits hmark hsign hne, ?_⟩
      rw [hc, hrest, hs, List.cons_append, List.append_assoc]
      rfl
    · obtain ⟨rfl, rfl⟩ := Reads.ok_iff.1 h
      exact ⟨[], .absent, rfl⟩

theorem exponent_complete {α : Type} {n : Nat} {x : Scanned α n} {t rest : List Char}
    {e : Option Exponent} (he : ExponentText t e) (hx : x.rest = t ++ rest) (hstop : Stop rest)
    (hmark : ∀ c ∈ rest.head?, ¬ (c = 'e' ∨ c = 'E')) : Reads (exponent x) e rest := by
  unfold exponent
  cases he with
  | absent =>
    split
    · exact Reads.ok_iff.2 ⟨rfl, hx⟩
    · next c hc =>
      rw [Scanned.next?_eq_some_iff] at hc
      rw [if_neg (hmark _ (by rw [show rest = _ from hx.symm.trans hc]; rfl))]
      exact Reads.ok_iff.2 ⟨rfl, hx⟩
  | @digits mark sign negative ds hm hsign hne =>
    obtain ⟨d, ds', rfl⟩ := List.exists_cons_of_ne_nil hne
    rw [List.cons_append, List.append_assoc] at hx
    obtain ⟨c, hc, hv, hr⟩ := Scanned.exists_next? hx
    obtain ⟨hneg, hrest⟩ := exponentSign_complete hsign hr
    rw [hc]
    dsimp only
    rw [if_pos (hv ▸ hm), ← hneg]
    have hread : Reads (digits (exponentSign c).rest) (d :: ds') rest :=
      reads_digits.2 ⟨hne, hrest, hstop⟩
    exact hread.map (fun ds => some (Exponent.mk (exponentSign c).value ds)) fun _ => ⟨rfl, rfl⟩

/-- What follows does not make a number longer. -/
def Follow (rest : List Char) : Prop :=
  ∀ c ∈ rest.head?, Digit.ofChar? c = none ∧ c ≠ '.' ∧ ¬ (c = 'e' ∨ c = 'E')

theorem Follow.stop {rest : List Char} (h : Follow rest) : Stop rest := fun c hc => (h c hc).1

theorem Follow.of_exponentText {e rest : List Char} {x : Option Exponent} (he : ExponentText e x)
    (h : Follow rest) : Stop (e ++ rest) ∧ (e ++ rest).head? ≠ some '.' := by
  cases he with
  | absent =>
    refine ⟨h.stop, fun hd => ?_⟩
    exact (h '.' hd).2.1 rfl
  | digits hmark _ _ => rcases hmark with rfl | rfl <;> exact ⟨Digits.stop_cons.2 (by decide), by simp⟩

theorem Follow.of_fractionText {f e rest : List Char} {fs : List Digit} {x : Option Exponent}
    (hf : FractionText f fs) (he : ExponentText e x) (h : Follow rest) :
    Stop (f ++ (e ++ rest)) := by
  cases hf with
  | absent => exact (Follow.of_exponentText he h).1
  | digits _ => exact Digits.stop_cons.2 (by decide)

theorem unsigned_sound {negative : Bool} {s rest : List Char} {n : Numeral}
    (h : Reads (unsigned negative s) n rest) :
    n.negative = negative ∧ IsWhole n.whole ∧ ∃ f e, FractionText f n.fraction ∧
      ExponentText e n.exponent ∧ s = n.whole.map Digit.char ++ (f ++ e) ++ rest := by
  obtain ⟨w, hw, h⟩ := Reads.bind_iff.1 h
  obtain ⟨f, hf, h⟩ := Reads.bind_iff.1 h
  obtain ⟨e, he, h⟩ := Reads.bind_iff.1 h
  obtain ⟨rfl, rfl⟩ := Reads.ok_iff.1 h
  obtain ⟨hwhole, hs, -⟩ := reads_whole.1 (.of_eq hw)
  obtain ⟨ft, hft, hw'⟩ := fraction_sound (.of_eq hf)
  obtain ⟨et, het, hf'⟩ := exponent_sound (.of_eq he)
  refine ⟨rfl, hwhole, ft, et, hft, het, ?_⟩
  refine hs.trans ?_
  rw [hw', hf', List.append_assoc, List.append_assoc]
  rfl

theorem unsigned_complete {whole fs : List Digit} {x : Option Exponent} {f e rest : List Char}
    (negative : Bool) (hw : IsWhole whole) (hf : FractionText f fs) (he : ExponentText e x)
    (hrest : Follow rest) :
    Reads (unsigned negative (whole.map Digit.char ++ (f ++ e) ++ rest)) ⟨negative, whole, fs, x⟩
      rest := by
  rw [List.append_assoc, List.append_assoc]
  obtain ⟨hlt₁, h₁⟩ := reads_whole.2 ⟨hw, rfl, Follow.of_fractionText hf he hrest⟩
  obtain ⟨hstop, hdot⟩ := Follow.of_exponentText he hrest
  obtain ⟨hlt₂, h₂⟩ := fraction_complete (x := ⟨whole, _, hlt₁⟩) hf rfl hstop hdot
  obtain ⟨hlt₃, h₃⟩ := exponent_complete (x := ⟨fs, _, hlt₂⟩) he rfl hrest.stop
    fun c hc => (hrest c hc).2.2
  simp only [unsigned, h₁, h₂, h₃, bind, Except.bind]
  exact Reads.ok_iff.2 ⟨rfl, rfl⟩

theorem numeral_sound {s rest : List Char} {n : Numeral} (h : Reads (numeral s) n rest) :
    ∃ t, NumeralText t n ∧ s = t ++ rest := by
  have positive : ∀ {s}, Reads (unsigned false s) n rest → ∃ t, NumeralText t n ∧ s = t ++ rest := by
    intro s h
    obtain ⟨hn, hw, f, e, hf, he, hs⟩ := unsigned_sound h
    obtain ⟨_, w, fs, x⟩ := n
    subst hn
    exact ⟨_, .mk false hw hf he, hs⟩
  unfold numeral at h
  split at h
  · exact positive h
  · split at h
    · next c r hc =>
      obtain ⟨y, hy, rfl, rfl⟩ := Reads.map_iff.1 h
      obtain ⟨hn, hw, f, e, hf, he, hs⟩ := unsigned_sound (.of_eq hy)
      refine ⟨_, NumeralText.mk y.value.negative hw hf he, ?_⟩
      rw [hn, hc]
      exact congrArg ('-' :: ·) hs
    · exact positive h

theorem numeral_complete {t rest : List Char} {n : Numeral} (h : NumeralText t n)
    (hrest : Follow rest) : Reads (numeral (t ++ rest)) n rest := by
  cases h with
  | @mk whole fs x f e negative hw hf he =>
    have hread := unsigned_complete negative hw hf he hrest
    cases negative with
    | true =>
      show Reads (numeral ('-' :: (whole.map Digit.char ++ (f ++ e) ++ rest))) _ rest
      rw [numeral, if_pos rfl]
      exact Reads.map id hread fun _ => ⟨rfl, rfl⟩
    | false =>
      show Reads (numeral (whole.map Digit.char ++ (f ++ e) ++ rest)) _ rest
      obtain ⟨d, ds, rfl⟩ := List.exists_cons_of_ne_nil hw.1
      rw [List.map_cons, List.cons_append, List.cons_append] at hread ⊢
      rw [numeral, if_neg (d.char_ne (by decide))]
      exact hread

theorem reads_number {s rest : List Char} {x : Number} :
    Reads (number s) x rest ↔ ∃ n, Reads (numeral s) n rest ∧ Number.ofNumeral n = .ok x := by
  rw [number, Reads.bind_iff]
  constructor
  · rintro ⟨n, hn, h⟩
    split at h
    · next v hv =>
      obtain ⟨rfl, rfl⟩ := Reads.ok_iff.1 h
      exact ⟨n.value, .of_eq hn, hv⟩
    · exact absurd h Reads.error_iff
  · rintro ⟨n, ⟨hlt, hn⟩, hx⟩
    refine ⟨_, hn, ?_⟩
    dsimp only
    rw [hx]
    exact Reads.ok_iff.2 ⟨rfl, rfl⟩

/-! ### Strings -/

theorem shortEscape?_eq_some_iff {l c : Char} :
    shortEscape? l = some c ↔ (l, c) ∈ shortEscapes := by
  constructor
  · intro h
    unfold shortEscape? at h
    split at h
    case h_9 => cases h
    all_goals
      obtain rfl := Option.some.inj h
      decide
  · intro h
    simp only [shortEscapes, List.mem_cons, List.not_mem_nil, or_false, Prod.mk.injEq] at h
    rcases h with h | h | h | h | h | h | h | h
    all_goals
      obtain ⟨rfl, rfl⟩ := h
      rfl

theorem isHighSurrogate_iff {u : Nat} : isHighSurrogate u = true ↔ 0xd800 ≤ u ∧ u < 0xdc00 :=
  decide_eq_true_iff

theorem isLowSurrogate_iff {u : Nat} : isLowSurrogate u = true ↔ 0xdc00 ≤ u ∧ u < 0xe000 :=
  decide_eq_true_iff

theorem reads_hexDigit {α : Type} {n : Nat} {fault : Fault} {x : Scanned α n} {d : Nibble}
    {rest : List Char} :
    Reads (hexDigit fault x) d rest ↔ ∃ c, d.IsSpelled c ∧ x.rest = c :: rest := by
  simp only [← Nibble.ofChar?_eq_some_iff]
  unfold hexDigit
  cases hx : x.next? with
  | none => simp [Scanned.next?_eq_none_iff.1 hx]
  | some c =>
    rw [Scanned.next?_eq_some_iff.1 hx]
    dsimp only
    cases hc : Nibble.ofChar? c.value with
    | none => simp [hc]
    | some d' => simp [hc, Scanned.map]

theorem reads_hexUnit {α : Type} {n : Nat} {x : Scanned α n} {u : Nat} {rest : List Char} :
    Reads (hexUnit x) u rest ↔ ∃ t, UnitText t u ∧ x.rest = t ++ rest := by
  unfold hexUnit
  dsimp only
  constructor
  · intro h
    split at h
    · exact absurd h Reads.error_iff
    · obtain ⟨a, ha, h⟩ := Reads.bind_iff.1 h
      obtain ⟨b, hb, h⟩ := Reads.bind_iff.1 h
      obtain ⟨c, hc, h⟩ := Reads.bind_iff.1 h
      obtain ⟨d, hd, h⟩ := Reads.bind_iff.1 h
      obtain ⟨rfl, rfl⟩ := Reads.ok_iff.1 h
      obtain ⟨a', ha', hx⟩ := reads_hexDigit.1 (.of_eq ha)
      obtain ⟨b', hb', hy⟩ := reads_hexDigit.1 (.of_eq hb)
      obtain ⟨c', hc', hz⟩ := reads_hexDigit.1 (.of_eq hc)
      obtain ⟨d', hd', hw⟩ := reads_hexDigit.1 (.of_eq hd)
      exact ⟨_, .mk ha' hb' hc' hd', by rw [hx, hy, hz, hw]; rfl⟩
  · rintro ⟨t, ⟨ha, hb, hc, hd⟩, hx⟩
    have hcount : ¬ Text.byteCount x.rest < 4 := by
      rw [hx]
      simp only [List.cons_append, Text.byteCount, ha.utf8Size, hb.utf8Size, hc.utf8Size,
        hd.utf8Size]
      omega
    rw [if_neg hcount]
    refine Reads.bind (reads_hexDigit.2 ⟨_, ha, hx⟩) fun x₁ hv₁ hx₁ => ?_
    refine Reads.bind (reads_hexDigit.2 ⟨_, hb, hx₁⟩) fun x₂ hv₂ hx₂ => ?_
    refine Reads.bind (reads_hexDigit.2 ⟨_, hc, hx₂⟩) fun x₃ hv₃ hx₃ => ?_
    refine Reads.bind (reads_hexDigit.2 ⟨_, hd, hx₃⟩) fun x₄ hv₄ hx₄ => ?_
    exact Reads.ok_iff.2 ⟨by rw [Scanned.value_map, hv₁, hv₂, hv₃, hv₄], hx₄⟩

theorem reads_pairMark {α : Type} {n : Nat} {mark c : Char} {x : Scanned α n} {rest : List Char} :
    Reads (pairMark mark x) c rest ↔ c = mark ∧ x.rest = mark :: rest := by
  unfold pairMark
  cases hx : x.next? with
  | none => simp [Scanned.next?_eq_none_iff.1 hx]
  | some d =>
    rw [Scanned.next?_eq_some_iff.1 hx]
    dsimp only
    split
    · next h =>
      rw [Reads.ok_iff, h, List.cons.injEq]
      exact ⟨fun h => ⟨h.1.symm, rfl, h.2⟩, fun h => ⟨h.1.symm, h.2.2⟩⟩
    · next h => simp [h]

theorem reads_surrogatePair {n : Nat} {high : Scanned Nat n} {c : Char} {rest : List Char} :
    Reads (surrogatePair high) c rest ↔ ∃ t u, UnitText t u ∧ (0xdc00 ≤ u ∧ u < 0xe000) ∧
      c = ofSurrogates high.value u ∧ high.rest = '\\' :: 'u' :: (t ++ rest) := by
  constructor
  · intro h
    obtain ⟨x, hx, h⟩ := Reads.bind_iff.1 h
    obtain ⟨y, hy, h⟩ := Reads.bind_iff.1 h
    obtain ⟨low, hlow, h⟩ := Reads.bind_iff.1 h
    split at h
    · next hl =>
      obtain ⟨rfl, rfl⟩ := Reads.ok_iff.1 h
      obtain ⟨-, hx'⟩ := reads_pairMark.1 (.of_eq hx)
      obtain ⟨-, hy'⟩ := reads_pairMark.1 (.of_eq hy)
      obtain ⟨t, ht, hlow'⟩ := reads_hexUnit.1 (.of_eq hlow)
      exact ⟨t, low.value, ht, isLowSurrogate_iff.1 hl, Scanned.value_map _,
        by rw [hx', hy', hlow']; rfl⟩
    · exact absurd h Reads.error_iff
  · rintro ⟨t, u, ht, hl, hc, hrest⟩
    refine Reads.bind (reads_pairMark.2 ⟨rfl, hrest⟩) fun x _ hx => ?_
    refine Reads.bind (reads_pairMark.2 ⟨rfl, hx⟩) fun y _ hy => ?_
    refine Reads.bind (reads_hexUnit.2 ⟨t, ht, hy⟩) fun low hv hlow => ?_
    rw [hv, if_pos (isLowSurrogate_iff.2 hl)]
    exact Reads.ok_iff.2 ⟨by rw [Scanned.value_map, hv, hc], hlow⟩

theorem reads_hexEscape {n : Nat} {letter : Scanned Char n} {c : Char} {rest : List Char} :
    Reads (hexEscape letter) c rest ↔
      ∃ t, CharText ('\\' :: 'u' :: t) c ∧ letter.rest = t ++ rest := by
  constructor
  · intro h
    obtain ⟨x, hx, h⟩ := Reads.bind_iff.1 h
    obtain ⟨t, ht, hrest⟩ := reads_hexUnit.1 (.of_eq hx)
    split at h
    · exact absurd h Reads.error_iff
    · next hl =>
      rw [isLowSurrogate_iff] at hl
      split at h
      · next hh =>
        obtain ⟨t', u, ht', hl', hc, hx'⟩ := reads_surrogatePair.1 h
        rw [hc, hrest, hx']
        exact ⟨_, .pair ht ht' (isHighSurrogate_iff.1 hh) hl', by simp⟩
      · next hh =>
        rw [isHighSurrogate_iff] at hh
        obtain ⟨rfl, rfl⟩ := Reads.ok_iff.1 h
        exact ⟨t, .unit ht (by omega), hrest⟩
  · rintro ⟨t, ht, hrest⟩
    cases ht with
    | short h => simp [shortEscapes] at h
    | @unit t u ht hu =>
      have hlow : ¬ isLowSurrogate u = true := by
        rw [isLowSurrogate_iff]
        omega
      have hhigh : ¬ isHighSurrogate u = true := by
        rw [isHighSurrogate_iff]
        omega
      refine Reads.bind (reads_hexUnit.2 ⟨t, ht, hrest⟩) fun x hv hx => ?_
      rw [hv, if_neg hlow, if_neg hhigh]
      exact Reads.ok_iff.2 ⟨by rw [Scanned.value_map, hv], hx⟩
    | @pair t t' u u' ht ht' hu hu' =>
      have hlow : ¬ isLowSurrogate u = true := by
        rw [isLowSurrogate_iff]
        omega
      rw [List.append_assoc] at hrest
      refine Reads.bind (reads_hexUnit.2 ⟨t, ht, hrest⟩) fun x hv hx => ?_
      rw [hv, if_neg hlow, if_pos (isHighSurrogate_iff.2 hu)]
      exact reads_surrogatePair.2 ⟨t', u', ht', hu', by rw [hv]; rfl, hx⟩

theorem reads_escape {s rest : List Char} {c : Char} :
    Reads (escape s) c rest ↔ ∃ t, CharText ('\\' :: t) c ∧ s = t ++ rest := by
  unfold escape
  split
  · simp only [Reads.error_iff, false_iff]
    rintro ⟨t, ht, h⟩
    obtain ⟨rfl, -⟩ := List.append_eq_nil_iff.1 h.symm
    cases ht with
    | plain _ hb => exact hb rfl
  · next l r =>
    split
    · next hl =>
      subst hl
      rw [reads_hexEscape]
      constructor
      · rintro ⟨t, ht, rfl⟩
        exact ⟨'u' :: t, ht, rfl⟩
      · rintro ⟨t, ht, h⟩
        cases ht with
        | plain _ hb => exact absurd rfl hb
        | short hs =>
          obtain ⟨rfl, -⟩ := List.cons.inj h
          simp [shortEscapes] at hs
        | unit ht hu => exact ⟨_, .unit ht hu, (List.cons.inj h).2⟩
        | pair ht ht' hh hl => exact ⟨_, .pair ht ht' hh hl, (List.cons.inj h).2⟩
    · next hl =>
      constructor
      · intro h
        split at h
        · next x hx =>
          obtain ⟨rfl, rfl⟩ := Reads.ok_iff.1 h
          exact ⟨[l], .short (shortEscape?_eq_some_iff.1 hx), rfl⟩
        · exact absurd h Reads.error_iff
      · rintro ⟨t, ht, h⟩
        cases ht with
        | plain _ hb => exact absurd rfl hb
        | short hs =>
          obtain ⟨rfl, rfl⟩ := List.cons.inj h
          rw [shortEscape?_eq_some_iff.2 hs]
          exact Reads.ok_iff.2 ⟨rfl, rfl⟩
        | unit => exact absurd (List.cons.inj h).1 hl
        | pair => exact absurd (List.cons.inj h).1 hl

theorem characters_sound {n : Nat} {done s rest : List Char} {h : s.length ≤ n} {v : String}
    (hr : Reads (characters n done s h) v rest) :
    ∃ body cs, CharsText body cs ∧ s = body ++ '"' :: rest ∧
      v = String.ofList (done.reverse ++ cs) := by
  fun_induction characters n done s h with
  | case1 => exact absurd hr Reads.error_iff
  | case2 done r h =>
    obtain ⟨rfl, rfl⟩ := Reads.ok_iff.1 hr
    exact ⟨[], [], .nil, rfl, by simp⟩
  | case3 done r x hx h _ _ ih =>
    obtain ⟨t, ht, hs⟩ := reads_escape.1 (.of_eq hx)
    obtain ⟨body, cs, hbody, hrest, rfl⟩ := ih hr
    refine ⟨_, _, .cons ht hbody, ?_, by simp⟩
    rw [List.append_assoc, ← hrest, List.cons_append, ← hs]
  | case4 => exact absurd hr Reads.error_iff
  | case5 => exact absurd hr Reads.error_iff
  | case6 done c r h hq hb hc _ ih =>
    obtain ⟨body, cs, hbody, hrest, rfl⟩ := ih hr
    exact ⟨_, _, .cons (.plain hq hb hc) hbody, by rw [hrest]; rfl, by simp⟩

/-- An escape is read behind its backslash, any other character by itself. -/
theorem characters_step {t : List Char} {c : Char} (ht : CharText t c) {s rest : List Char}
    {n : Nat} {done : List Char} {v : String} (h : (t ++ s).length ≤ n)
    (hs : ∀ h', Reads (characters n (c :: done) s h') v rest) :
    Reads (characters n done (t ++ s) h) v rest := by
  have escaped : ∀ {t' : List Char} (hlen : ('\\' :: (t' ++ s)).length ≤ n),
      CharText ('\\' :: t') c → Reads (characters n done ('\\' :: (t' ++ s)) hlen) v rest := by
    intro t' hlen ht'
    obtain ⟨hlt, hx⟩ := reads_escape.2 ⟨t', ht', rfl⟩
    rw [characters, if_neg (by decide), if_pos rfl]
    split
    · next x hx' =>
      obtain rfl := Except.ok.inj (hx.symm.trans hx')
      exact hs _
    · next hx' => cases hx.symm.trans hx'
  cases ht with
  | plain hq hb hc =>
    show Reads (characters n done (c :: s) h) v rest
    rw [characters, if_neg hq, if_neg hb, if_neg hc]
    exact hs _
  | short hl => exact escaped h (.short hl)
  | unit ht hu => exact escaped h (.unit ht hu)
  | pair ht ht' hh hl => exact escaped h (.pair ht ht' hh hl)

theorem characters_complete {body cs : List Char} (hb : CharsText body cs) (rest : List Char)
    (n : Nat) (done : List Char) (h : (body ++ '"' :: rest).length ≤ n) :
    Reads (characters n done (body ++ '"' :: rest) h) (String.ofList (done.reverse ++ cs))
      rest := by
  induction hb generalizing done with
  | nil =>
    show Reads (characters n done ('"' :: rest) h) _ rest
    rw [characters, if_pos rfl]
    exact Reads.ok_iff.2 ⟨by simp, rfl⟩
  | @cons t ts c cs ht hts ih =>
    have hassoc : t ++ ts ++ '"' :: rest = t ++ (ts ++ '"' :: rest) := List.append_assoc ..
    simp only [hassoc]
    refine characters_step ht (hassoc ▸ h) fun h' => ?_
    simpa using ih (c :: done) h'

theorem reads_string {s rest : List Char} {v : String} :
    Reads (string s) v rest ↔ ∃ t, StringText ('"' :: t) v ∧ s = t ++ rest := by
  constructor
  · intro h
    obtain ⟨body, cs, hbody, hs, rfl⟩ := characters_sound h
    refine ⟨body ++ ['"'], .mk (by simpa using hbody), by simp [hs]⟩
  · rintro ⟨t, ⟨hbody⟩, rfl⟩
    rw [List.append_assoc]
    simpa [string] using characters_complete hbody rest _ [] (Nat.le_refl _)

end Scan

end ConfigGate.Json
