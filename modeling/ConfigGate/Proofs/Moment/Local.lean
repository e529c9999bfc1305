import Mathlib
import ConfigGate.Proofs.Moment.Fields

/-!
# Local times

At every instant a clock with an offset from UTC shows one date and time. Written with that offset,
whatever it is, and with any of the separators, the date and time is read as the instant
(`moment_local`). Local days are counted one by one from 1970-01-01, not by the formula that reading
uses.
-/

namespace ConfigGate

/-- `c` is the date and time at `t` on a clock that is `offset` seconds ahead of UTC. -/
structure Civil.IsLocal (c : Civil) (t : Instant) (offset : Int) : Prop where
  clock : c.clock.IsValid
  count : ∃ days : Int, c.date.Counted days ∧ t.nanoseconds + offset * 10 ^ 9 =
    (((days * 24 + c.clock.hour) * 60 + c.clock.minute) * 60 + c.clock.second) * 10 ^ 9 +
      c.clock.nanosecond

/-- The text of an offset in seconds, with hours and minutes of two digits. -/
inductive ZoneText : List Char → Int → Prop where
  | zulu : ZoneText ['Z'] 0
  | ahead {hours minutes : Nat} (hh : hours ≤ 23) (hm : minutes ≤ 59) :
      ZoneText ('+' :: (paddedText 2 hours ++ ':' :: paddedText 2 minutes))
        (3600 * hours + 60 * minutes)
  | behind {hours minutes : Nat} (hh : hours ≤ 23) (hm : minutes ≤ 59) :
      ZoneText ('-' :: (paddedText 2 hours ++ ':' :: paddedText 2 minutes))
        (-(3600 * hours + 60 * minutes))

/-! ### One date and time -/

theorem Clock.IsValid.ofNanoseconds {t : Clock} (h : t.IsValid) :
    Clock.ofNanoseconds (t.seconds * perSecond + t.nanosecond) = t := by
  obtain ⟨hour, minute, second, nanosecond⟩ := t
  obtain ⟨hh, hm, hs, hn⟩ := h
  simp only [Clock.ofNanoseconds, seconds, perSecond, Clock.mk.injEq] at *
  omega

theorem Civil.ofNanoseconds_nanoseconds {c : Civil} (hd : c.date.Exists) (hc : c.clock.IsValid) :
    ofNanoseconds c.nanoseconds = c := by
  have hlt : c.clock.seconds * Clock.perSecond + c.clock.nanosecond < 86400 * Clock.perSecond := by
    obtain ⟨hh, hm, hs, hn⟩ := hc
    simp only [Clock.seconds, Clock.perSecond]
    omega
  have hdays : c.nanoseconds / (86400 * Clock.perSecond) = c.date.dayNumber := by
    simp only [nanoseconds, Clock.perSecond] at *
    omega
  have hrest : (c.nanoseconds % (86400 * Clock.perSecond)).toNat =
      c.clock.seconds * Clock.perSecond + c.clock.nanosecond := by
    simp only [nanoseconds, Clock.perSecond] at *
    omega
  have hdate : Date.ofDayNumber c.date.dayNumber = c.date :=
    Date.dayNumber_injective (Date.exists_ofDayNumber _) hd (Date.dayNumber_ofDayNumber _)
  rw [ofNanoseconds, hdays, hrest, hdate, hc.ofNanoseconds]

theorem Civil.isLocal_iff {c : Civil} {t : Instant} {offset : Int} :
    c.IsLocal t offset ↔ c = ofNanoseconds (t.nanoseconds + offset * Clock.perSecond) := by
  constructor
  · rintro ⟨hclock, days, hdays, hcount⟩
    obtain ⟨hdate, rfl⟩ := Date.counted_iff.1 hdays
    have hn : t.nanoseconds + offset * Clock.perSecond = c.nanoseconds := by
      simp only [nanoseconds, Clock.seconds, Clock.perSecond]
      omega
    rw [hn, ofNanoseconds_nanoseconds hdate hclock]
  · rintro rfl
    have hn := nanoseconds_ofNanoseconds (t.nanoseconds + offset * Clock.perSecond)
    refine ⟨isValid_clock_ofNanoseconds _, _,
      Date.counted_iff.2 ⟨Date.exists_ofDayNumber _, rfl⟩, ?_⟩
    simp only [nanoseconds, Clock.seconds, Clock.perSecond] at hn ⊢
    omega

/-! ### Its texts -/

open Moment Moment.Grammar

theorem ZoneText.exists_offset {zone : List Char} {offset : Int} (h : ZoneText zone offset) :
    ∃ o : Offset, OffsetText zone o ∧ o.seconds = offset ∧ o.isUsable = true := by
  have hnumeric : ∀ {hours minutes : Nat}, hours ≤ 23 → minutes ≤ 59 →
      TimeText .offsetHours .offsetMinutes .offsetSeconds
        (paddedText 2 hours ++ ':' :: paddedText 2 minutes) hours (some minutes) none 0 := by
    intro hours minutes hh hm
    have hours_le : hours ≤ 25 := Nat.le_trans hh (by decide)
    exact .minutes true (componentText_padded .offsetHours ⟨Nat.zero_le _, hours_le⟩)
      (componentText_padded .offsetMinutes ⟨Nat.zero_le _, hm⟩)
  cases h with
  | zulu => exact ⟨.zulu, .zulu (.inl rfl), rfl, rfl⟩
  | @ahead hours minutes hh hm =>
    refine ⟨_, .numeric (.inl rfl) (hnumeric hh hm), ?_, ?_⟩
    · simp [Offset.seconds]
    · simp [Offset.isUsable, Offset.seconds]
      omega
  | @behind hours minutes hh hm =>
    refine ⟨_, .numeric (.inr rfl) (hnumeric hh hm), ?_, ?_⟩
    · simp [Offset.seconds]
    · simp [Offset.isUsable, Offset.seconds]
      omega

variable {t : Instant} {c : Civil} {offset : Int}

theorem Civil.IsLocal.isWritable (h : c.IsLocal t offset)
    (hyear : 0 ≤ c.date.year ∧ c.date.year ≤ 9999) : c.IsWritable := by
  obtain ⟨hclock, days, hdays, -⟩ := h
  exact ⟨hyear, (Date.counted_iff.1 hdays).1, hclock⟩

theorem Civil.IsWritable.writtenText (h : c.IsWritable) {separator : Char}
    (hseparator : IsSeparator separator) {fraction : List Digit}
    (hfraction : fraction.length ≤ 9 ∧
      Digits.value fraction * 10 ^ (9 - fraction.length) = c.clock.nanosecond)
    {zone : List Char} {o : Offset} (ho : OffsetText zone o) :
    WrittenText (dateFields c.date.year.toNat c.date.month c.date.day ++ separator ::
      (timeFields c.clock.hour c.clock.minute c.clock.second ++ fractionFields fraction ++ zone))
      ⟨c.date, some c.clock, some o⟩ := by
  exact .zoned h.dateText hseparator (h.clockText hfraction) ho

theorem Civil.IsLocal.moment (h : c.IsLocal t offset) {o : Offset} (ho : o.seconds = offset)
    (husable : o.isUsable = true) :
    Written.moment ⟨c.date, some c.clock, some o⟩ = .ok (.instant t) := by
  have hnanoseconds : c.nanoseconds = t.nanoseconds + offset * Clock.perSecond := by
    rw [Civil.isLocal_iff.1 h, Civil.nanoseconds_ofNanoseconds]
  refine Written.moment_of_utc rfl husable ?_
  show c.nanoseconds - o.seconds * Clock.perSecond = t.nanoseconds
  rw [hnanoseconds, ho, Int.add_sub_cancel]

/-- At every instant a clock with an offset shows one date and time. If its year has four digits,
the date and time with the offset behind it is read as the instant. -/
theorem Coercion.moment_local (field : String) (t : Instant) {zone : List Char} {offset : Int}
    (hzone : ZoneText zone offset) :
    ∃ c : Civil, (∀ d : Civil, d.IsLocal t offset ↔ d = c) ∧
      ∀ separator fraction, 0 ≤ c.date.year ∧ c.date.year ≤ 9999 →
        separator = 'T' ∨ separator = 't' ∨ separator = ' ' →
        fraction.length ≤ 9 ∧
          Digits.value fraction * 10 ^ (9 - fraction.length) = c.clock.nanosecond →
        moment field (.string (String.ofList
          (dateFields c.date.year.toNat c.date.month c.date.day ++ separator ::
            (timeFields c.clock.hour c.clock.minute c.clock.second ++ fractionFields fraction ++
              zone)))) = .ok (.instant t) := by
  obtain ⟨o, hoffset, ho, husable⟩ := hzone.exists_offset
  refine ⟨_, fun d => Civil.isLocal_iff, ?_⟩
  have hc : Civil.IsLocal _ t offset := Civil.isLocal_iff.2 rfl
  generalize Civil.ofNanoseconds (t.nanoseconds + offset * Clock.perSecond) = c at hc
  intro separator fraction hyear hseparator hfraction
  have hw := (hc.isWritable hyear).writtenText hseparator hfraction hoffset
  refine (moment_string_iff ?_).2 ⟨_, ?_, hc.moment ho husable⟩
  · rw [String.toList_ofList]
    exact not_isFiniteNumber_fields _ _ _ _
  · rwa [String.toList_ofList]

/-- An hour behind UTC the first half hour of March is the last of a leap day. -/
theorem Coercion.moment_local_leap_day :
    ZoneText "-01:00".toList (-3600) ∧
    moment "timestamp" (.string "2024-02-29 23:30:00.250-01:00") =
      .ok (.instant ⟨1709253000250000000, by decide⟩) := by
  have hzone : ZoneText "-01:00".toList (-3600) := by
    have h : ZoneText _ _ := .behind (by decide : 1 ≤ 23) (by decide : 0 ≤ 59)
    rwa [show '-' :: (paddedText 2 1 ++ ':' :: paddedText 2 0) = "-01:00".toList by decide +kernel]
      at h
  obtain ⟨c, hc, hread⟩ := moment_local "timestamp" ⟨1709253000250000000, by decide⟩ hzone
  obtain rfl : ⟨⟨2024, 2, 29⟩, ⟨23, 30, 0, 250000000⟩⟩ = c :=
    (hc _).1 ⟨by constructor <;> decide, 19782, Date.counted_iff.2 (by decide), by decide⟩
  refine ⟨hzone, ?_⟩
  rw [show "2024-02-29 23:30:00.250-01:00" = String.ofList (dateFields 2024 2 29 ++ ' ' ::
    (timeFields 23 30 0 ++ fractionFields [2, 5, 0] ++ "-01:00".toList)) by decide +kernel]
  exact hread ' ' [2, 5, 0] (by decide) (by decide) (by decide)

end ConfigGate
