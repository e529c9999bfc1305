import Mathlib
import ConfigGate.Proofs.Coercion
import ConfigGate.Proofs.Moment.Grammar

/-!
# Offsets decide what a moment is

A text that is no number spells one written moment. Without an offset it is read as a civil date and
time. With one it is read as the instant in UTC, except at the end of the range of instants: where
the offset leads past it, or is as long as 26 hours, the offset is dropped and what is left is
civil. Only `Z` makes such a text fail. `moment_offset` says which texts are read and as what. An
offset counts in whole seconds: one that is written with a fraction is rounded (`Offset.seconds`)
before the instant is found.
-/

namespace ConfigGate

open Moment.Grammar (WrittenText)

/-! ### Texts that are supported -/

namespace Moment

namespace Grammar

theorem bracket_notMem_digits (ds : List Digit) : '[' ∉ ds.map Digit.char := by
  intro h
  obtain ⟨d, -, hd⟩ := List.mem_map.1 h
  exact d.char_ne (by decide) hd

theorem ComponentText.bracket_notMem {c : Component} {t : List Char} {n : Nat}
    (h : ComponentText c t n) : '[' ∉ t := by
  obtain ⟨ds, -, -⟩ := h
  exact bracket_notMem_digits ds

theorem bracket_notMem_markText (extended : Bool) {m : Char} (hm : m ≠ '[') :
    '[' ∉ markText extended m := by
  cases extended with
  | true => simpa [markText] using hm.symm
  | false => simp [markText]

theorem DateText.bracket_notMem {t : List Char} {d : Date} (h : DateText t d) : '[' ∉ t := by
  obtain ⟨extended, hy, hm, hd, -⟩ := h
  simp [hy.bracket_notMem, hm.bracket_notMem, hd.bracket_notMem, bracket_notMem_markText]

theorem FractionText.bracket_notMem {t : List Char} {n : Nat} (h : FractionText t n) : '[' ∉ t := by
  cases h with
  | absent => exact List.not_mem_nil
  | digits hp => rcases hp with rfl | rfl <;> simp [bracket_notMem_digits]

theorem TimeText.bracket_notMem {h m s : Component} {t : List Char} {a n : Nat} {b c : Option Nat}
    (ht : TimeText h m s t a b c n) : '[' ∉ t := by
  cases ht with
  | hours ha => exact ha.bracket_notMem
  | minutes extended ha hb => simp [ha.bracket_notMem, hb.bracket_notMem, bracket_notMem_markText]
  | seconds extended ha hb hc hf =>
    simp [ha.bracket_notMem, hb.bracket_notMem, hc.bracket_notMem, hf.bracket_notMem,
      bracket_notMem_markText]

theorem OffsetText.bracket_notMem {t : List Char} {o : Offset} (h : OffsetText t o) : '[' ∉ t := by
  cases h with
  | zulu hc => rcases hc with rfl | rfl <;> simp
  | numeric hc ht => rcases hc with rfl | rfl <;> simp [ht.bracket_notMem]

theorem WrittenText.bracket_notMem {s : List Char} {w : Written} (h : WrittenText s w) :
    '[' ∉ s := by
  have hsep : ∀ {c : Char}, IsSeparator c → '[' ≠ c := by
    rintro c (rfl | rfl | rfl) <;> decide
  cases h with
  | date hd => exact hd.bracket_notMem
  | civil hd hc ht =>
    obtain ⟨ht⟩ := ht
    simp [hd.bracket_notMem, hsep hc, ht.bracket_notMem]
  | zoned hd hc ht ho =>
    obtain ⟨ht⟩ := ht
    simp [hd.bracket_notMem, hsep hc, ht.bracket_notMem, ho.bracket_notMem]

theorem WrittenText.exists_digit {s : List Char} {w : Written} (h : WrittenText s w) :
    ∃ (d : Digit) (r : List Char), s = d.char :: r := by
  have hdate : ∀ {t : List Char} {date : Date}, DateText t date →
      ∃ (d : Digit) (r : List Char), t = d.char :: r := by
    rintro t date ⟨extended, hy, -, -, -⟩
    obtain ⟨d, r, rfl⟩ := Parse.exists_digit hy
    exact ⟨d, _, List.cons_append⟩
  cases h with
  | date hd => exact hdate hd
  | civil hd hc ht =>
    obtain ⟨d, r, rfl⟩ := hdate hd
    exact ⟨d, _, List.cons_append⟩
  | zoned hd hc ht ho =>
    obtain ⟨d, r, rfl⟩ := hdate hd
    exact ⟨d, _, List.cons_append⟩

theorem WrittenText.isUnsupported {s : List Char} {w : Written} (h : WrittenText s w) :
    isUnsupported s = false := by
  have hbracket := h.bracket_notMem
  obtain ⟨d, r, rfl⟩ := h.exists_digit
  have hplus : d.char ≠ '+' := d.char_ne (by decide)
  have hminus : d.char ≠ '-' := d.char_ne (by decide)
  have hcontains : (d.char :: r).contains '[' = false := by simpa using hbracket
  simp only [Moment.isUnsupported, hcontains, List.head?_cons, Option.some.injEq, hplus, hminus,
    decide_false, Bool.or_self]

end Grammar

theorem ofWords_eq_ok_iff {s : List Char} {m : Moment} :
    ofWords s = .ok m ↔ ∃ w, WrittenText s w ∧ w.moment = .ok m := by
  unfold ofWords
  split
  · next hs =>
    refine ⟨nofun, ?_⟩
    rintro ⟨w, hw, -⟩
    rw [hw.isUnsupported] at hs
    cases hs
  · simp only [Except.bind_eq_ok_iff, writtenParse_iff]

/-- The text is a number other than an infinity or `nan`. -/
def IsFiniteNumber (s : List Char) : Prop :=
  ∃ negative x, NumericText.read? s = some (.finite negative x)

theorem not_isFiniteNumber_of_none {s : List Char} (h : NumericText.read? s = none) :
    ¬ IsFiniteNumber s := by
  rintro ⟨negative, x, hread⟩
  rw [h] at hread
  cases hread

theorem parse_of_not_isFiniteNumber {s : List Char} (h : ¬ IsFiniteNumber s) :
    parse s = ofWords s := by
  unfold parse
  split
  · next negative x hread => exact absurd ⟨negative, x, hread⟩ h
  · rfl

end Moment

/-! ### The instant that is written -/

/-- The first nanosecond of the years 0 and later. -/
theorem Civil.IsWritable.le_nanoseconds {c : Civil} (h : c.IsWritable) :
    -62167219200000000000 ≤ c.nanoseconds := by
  obtain ⟨⟨hyear, -⟩, ⟨hmonth, -, hday, -⟩, -⟩ := h
  have hdays : -719528 ≤ c.date.dayNumber := by
    simp only [Date.dayNumber, Date.epochDay, Date.daysBeforeMonth]
    split_ifs <;> omega
  simp only [nanoseconds, Clock.perSecond]
  omega

namespace Written

/-- The written time in UTC, in nanoseconds: the local time less the offset in whole seconds, a half
and more of a second counted as one. -/
def utc (w : Written) : Int :=
  w.civil.nanoseconds - w.offset.elim 0 Offset.seconds * Clock.perSecond

/-- The offset is 26 hours or leads past the last instant. -/
def LosesOffset (w : Written) : Prop :=
  ∃ o, w.offset = some o ∧ (o.isUsable = false ∨ 253402207201000000000 ≤ w.utc)

theorem utc_of_offset {w : Written} {o : Offset} (ho : w.offset = some o) :
    w.utc = w.civil.nanoseconds - o.seconds * Clock.perSecond := by
  rw [utc, ho]
  rfl

theorem instant?_of_losesOffset {w : Written} (h : w.LosesOffset) : w.instant? = none := by
  obtain ⟨o, ho, hlost⟩ := h
  simp only [instant?, ho, Instant.ofNanoseconds?, ← utc_of_offset ho]
  rcases hlost with hlost | hlost
  · rw [hlost]
    rfl
  · rw [dif_neg (fun h => absurd h.2 (Int.not_lt.2 hlost)), ite_self]

theorem moment_of_none {w : Written} (h : w.offset = none) : w.moment = .ok (.civil w.civil) := by
  have hinstant : w.instant? = none := by rw [instant?, h]
  simp only [moment, hinstant, h, reduceCtorEq, if_false]

theorem moment_of_losesOffset {w : Written} (h : w.LosesOffset) :
    w.moment = if w.offset = some .zulu then .error .zulu else .ok (.civil w.civil) := by
  rw [moment, instant?_of_losesOffset h]

theorem moment_of_utc {w : Written} {o : Offset} (ho : w.offset = some o)
    (husable : o.isUsable = true) {t : Instant} (h : w.utc = t.nanoseconds) :
    w.moment = .ok (.instant t) := by
  have hinstant : w.instant? = some t := by
    simp only [instant?, ho, husable, if_true, Instant.ofNanoseconds?, ← utc_of_offset ho, h]
    exact dif_pos t.inRange
  rw [moment, hinstant]

/-- Nothing is lost at the other end, as years have no sign. -/
theorem exists_moment {w : Written} (hw : w.civil.IsWritable) (hsome : w.offset ≠ none)
    (h : ¬ w.LosesOffset) :
    ∃ t : Instant, w.moment = .ok (.instant t) ∧ t.nanoseconds = w.utc := by
  obtain ⟨o, ho⟩ := Option.ne_none_iff_exists'.1 hsome
  have husable : o.isUsable = true := by
    by_contra hne
    exact h ⟨o, ho, .inl (Bool.eq_false_iff.2 hne)⟩
  have hbelow : w.utc < 253402207201000000000 := by
    by_contra hle
    exact h ⟨o, ho, .inr (Int.not_lt.1 hle)⟩
  have habove : -377705023201000000000 ≤ w.utc := by
    have hcivil := hw.le_nanoseconds
    have hoffset : o.seconds.natAbs < 93600 := of_decide_eq_true husable
    rw [utc_of_offset ho, Clock.perSecond]
    omega
  exact ⟨⟨w.utc, habove, hbelow⟩, moment_of_utc ho husable rfl, rfl⟩

end Written

namespace Moment

theorem moment_string_iff {field s : String} (hs : ¬ IsFiniteNumber s.toList) {m : Moment} :
    Coercion.moment field (.string s) = .ok m ↔
      ∃ w, WrittenText s.toList w ∧ w.moment = .ok m := by
  rw [Coercion.moment_eq_ok_iff, Coercion.readMoment?, Option.some.injEq,
    parse_of_not_isFiniteNumber hs, ofWords_eq_ok_iff]

theorem moment_string_iff_of_writtenText {field s : String} (hs : ¬ IsFiniteNumber s.toList)
    {w : Written} (hw : WrittenText s.toList w) {m : Moment} :
    Coercion.moment field (.string s) = .ok m ↔ w.moment = .ok m := by
  rw [moment_string_iff hs]
  constructor
  · rintro ⟨v, hv, hm⟩
    rwa [hw.unique hv]
  · exact fun hm => ⟨w, hw, hm⟩

end Moment

/-- A text that is accepted, and is no number, is an instant if it has an offset and civil if it has
none, unless the offset is lost. Then it is civil. The instant is the local time less the offset,
the offset rounded to whole seconds. Every text of the grammar is accepted, except one that would
lose a `Z`. -/
theorem moment_offset (field : String) {s : String} (hs : ¬ Moment.IsFiniteNumber s.toList) :
    (∀ m, Coercion.moment field (.string s) = .ok m →
      ∃ w, (∀ v, WrittenText s.toList v ↔ v = w) ∧
        (¬ w.LosesOffset →
          ((∃ t, m = .instant t) ↔ w.offset ≠ none) ∧ ((∃ c, m = .civil c) ↔ w.offset = none) ∧
          (∀ t, m = .instant t → t.nanoseconds = w.utc) ∧ ∀ c, m = .civil c → c = w.civil) ∧
        (w.LosesOffset → w.offset ≠ some .zulu ∧ m = .civil w.civil)) ∧
    ∀ w, WrittenText s.toList w →
      ((∃ m, Coercion.moment field (.string s) = .ok m) ↔
        ¬ (w.LosesOffset ∧ w.offset = some .zulu)) := by
  constructor
  · intro m hm
    obtain ⟨w, hw, hm⟩ := (Moment.moment_string_iff hs).1 hm
    have hunique : ∀ v, WrittenText s.toList v ↔ v = w :=
      fun v => ⟨fun hv => hv.unique hw, fun hv => hv ▸ hw⟩
    refine ⟨w, hunique, fun hkept => ?_, fun hlost => ?_⟩
    · by_cases hnone : w.offset = none
      · rw [Written.moment_of_none hnone, Except.ok.injEq] at hm
        simp [← hm, hnone]
      · obtain ⟨t, ht, hutc⟩ := Written.exists_moment hw.isWritable hnone hkept
        rw [ht, Except.ok.injEq] at hm
        simp [← hm, hnone, hutc]
    · rw [Written.moment_of_losesOffset hlost] at hm
      split_ifs at hm with hzulu
      exact ⟨hzulu, (Except.ok.inj hm).symm⟩
  · intro w hw
    simp only [Moment.moment_string_iff_of_writtenText hs hw]
    by_cases hlost : w.LosesOffset
    · rw [Written.moment_of_losesOffset hlost]
      split_ifs with hzulu <;> simp [hlost, hzulu]
    · by_cases hnone : w.offset = none
      · simp [Written.moment_of_none hnone, hlost]
      · obtain ⟨t, ht, -⟩ := Written.exists_moment hw.isWritable hnone hlost
        simp [ht, hlost]

/-- A second of an offset is rounded up from its half. -/
theorem moment_offset_rounded :
    ¬ Moment.IsFiniteNumber "2024-01-01t05:00:01+05:00:00.5".toList ∧
    ∃ t, Coercion.moment "timestamp" (.string "2024-01-01t05:00:01+05:00:00.5") = .ok (.instant t) ∧
      t.nanoseconds = 1704067200000000000 := by
  have hs : ¬ Moment.IsFiniteNumber "2024-01-01t05:00:01+05:00:00.5".toList :=
    Moment.not_isFiniteNumber_of_none (by decide)
  have hw : WrittenText "2024-01-01t05:00:01+05:00:00.5".toList
      ⟨⟨2024, 1, 1⟩, some ⟨5, 0, 1, 0⟩, some (.numeric false 5 (some 0) (some 0) 500000000)⟩ :=
    Moment.writtenParse_iff.1 (by decide)
  obtain ⟨hread, haccepted⟩ := moment_offset "timestamp" hs
  obtain ⟨m, hm⟩ := (haccepted _ hw).2 (fun h => nomatch h.2)
  obtain ⟨w, hunique, hkept, -⟩ := hread m hm
  obtain rfl := (hunique _).1 hw
  have hfits : ¬ Written.LosesOffset ⟨⟨2024, 1, 1⟩, some ⟨5, 0, 1, 0⟩,
      some (.numeric false 5 (some 0) (some 0) 500000000)⟩ := by
    rintro ⟨o, ho, h⟩
    cases ho
    revert h
    decide
  obtain ⟨hinstant, -, hutc, -⟩ := hkept hfits
  obtain ⟨t, rfl⟩ := hinstant.2 nofun
  refine ⟨hs, t, hm, (hutc t rfl).trans (by decide)⟩

/-- The last day, on a clock that shows UTC. -/
theorem offset_dropped :
    ¬ Moment.IsFiniteNumber "9999-12-31T23:59:59+00:00".toList ∧
    Written.LosesOffset
      ⟨⟨9999, 12, 31⟩, some ⟨23, 59, 59, 0⟩, some (.numeric false 0 (some 0) none 0)⟩ ∧
    WrittenText "9999-12-31T23:59:59+00:00".toList
      ⟨⟨9999, 12, 31⟩, some ⟨23, 59, 59, 0⟩, some (.numeric false 0 (some 0) none 0)⟩ ∧
    Coercion.moment "timestamp" (.string "9999-12-31T23:59:59+00:00") =
      .ok (.civil ⟨⟨9999, 12, 31⟩, ⟨23, 59, 59, 0⟩⟩) := by
  refine ⟨Moment.not_isFiniteNumber_of_none (by decide), ⟨_, rfl, .inr (by decide)⟩,
    Moment.writtenParse_iff.1 (by decide), ?_⟩
  exact Coercion.moment_eq_ok_iff.2 (by decide)

end ConfigGate
