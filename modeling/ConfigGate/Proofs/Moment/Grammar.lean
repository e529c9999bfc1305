import Mathlib
import ConfigGate.Moment.Read
import ConfigGate.Proofs.Digits
import ConfigGate.Proofs.Except
import ConfigGate.Proofs.Moment.Calendar
import ConfigGate.Proofs.Text

/-!
# The grammar of written moments

`WrittenText text w` says that a text spells a date, perhaps a time, perhaps an offset behind the
time. `Written.parse` reads exactly these texts (`writtenParse_iff`), so that a text spells one
written moment at most. A part that is read is told from what follows by its first character
(`Ends`). What is spelled is a date of the calendar and a time of the day
(`WrittenText.isWritable`).
-/

namespace ConfigGate.Moment

/-! ### Productions -/

namespace Grammar

inductive ComponentText (c : Component) : List Char → Nat → Prop where
  | mk (ds : List Digit) (len : ds.length = c.width)
      (bounds : c.bounds.1 ≤ Digits.value ds ∧ Digits.value ds ≤ c.bounds.2) :
      ComponentText c (ds.map Digit.char) (Digits.value ds)

/-- The mark between components, which the basic form leaves out. -/
def markText (extended : Bool) (mark : Char) : List Char := if extended then [mark] else []

inductive DateText : List Char → Date → Prop where
  | mk {y m d : List Char} {year month day : Nat} (extended : Bool)
      (hy : ComponentText .year y year) (hm : ComponentText .month m month)
      (hd : ComponentText .day d day) (h : Date.Exists ⟨year, month, day⟩) :
      DateText (y ++ (markText extended '-' ++ (m ++ (markText extended '-' ++ d))))
        ⟨year, month, day⟩

inductive FractionText : List Char → Nat → Prop where
  | absent : FractionText [] 0
  | digits {point : Char} {ds : List Digit} (hp : point = '.' ∨ point = ',') (ne : ds ≠ [])
      (len : ds.length ≤ 9) : FractionText (point :: ds.map Digit.char) (Parse.nanosecondsOf ds)

/-- Hours with what may follow them. Only seconds have a fraction. -/
inductive TimeText (h m s : Component) :
    List Char → Nat → Option Nat → Option Nat → Nat → Prop where
  | hours {t : List Char} {a : Nat} (ha : ComponentText h t a) : TimeText h m s t a none none 0
  | minutes {t u : List Char} {a b : Nat} (extended : Bool) (ha : ComponentText h t a)
      (hb : ComponentText m u b) :
      TimeText h m s (t ++ (markText extended ':' ++ u)) a (some b) none 0
  | seconds {t u v f : List Char} {a b c n : Nat} (extended : Bool) (ha : ComponentText h t a)
      (hb : ComponentText m u b) (hc : ComponentText s v c) (hf : FractionText f n) :
      TimeText h m s (t ++ (markText extended ':' ++ (u ++ (markText extended ':' ++ (v ++ f)))))
        a (some b) (some c) n

inductive ClockText : List Char → Clock → Prop where
  | mk {t : List Char} {hour n : Nat} {minute second : Option Nat}
      (h : TimeText .hour .minute .second t hour minute second n) :
      ClockText t ⟨hour, minute.getD 0, min (second.getD 0) 59, n⟩

inductive OffsetText : List Char → Offset → Prop where
  | zulu {c : Char} (hc : c = 'Z' ∨ c = 'z') : OffsetText [c] .zulu
  | numeric {c : Char} {t : List Char} {hours n : Nat} {minutes seconds : Option Nat}
      (hc : c = '+' ∨ c = '-')
      (h : TimeText .offsetHours .offsetMinutes .offsetSeconds t hours minutes seconds n) :
      OffsetText (c :: t) (.numeric (c = '-') hours minutes seconds n)

/-- What stands between date and time. -/
def IsSeparator (c : Char) : Prop := c = 'T' ∨ c = 't' ∨ c = ' '

inductive WrittenText : List Char → Written → Prop where
  | date {d : List Char} {date : Date} (hd : DateText d date) : WrittenText d ⟨date, none, none⟩
  | civil {d t : List Char} {date : Date} {clock : Clock} {c : Char} (hd : DateText d date)
      (hc : IsSeparator c) (ht : ClockText t clock) :
      WrittenText (d ++ c :: t) ⟨date, some clock, none⟩
  | zoned {d t o : List Char} {date : Date} {clock : Clock} {offset : Offset} {c : Char}
      (hd : DateText d date) (hc : IsSeparator c) (ht : ClockText t clock)
      (ho : OffsetText o offset) :
      WrittenText (d ++ c :: (t ++ o)) ⟨date, some clock, some offset⟩

end Grammar

open Grammar

namespace Parse

variable {s r : List Char}

/-! ### What is read is spelled -/

theorem byteCount_digits (ds : List Digit) : Text.byteCount (ds.map Digit.char) = ds.length := by
  have hascii : ∀ c ∈ ds.map Digit.char, c.utf8Size = 1 := by
    intro c hc
    obtain ⟨d, -, rfl⟩ := List.mem_map.1 hc
    exact d.utf8Size_char
  rw [Text.byteCount_of_ascii hascii, List.length_map]

theorem digits_sound {k : Nat} {ds : List Digit} (h : digits k s = .ok (ds, r)) :
    s = ds.map Digit.char ++ r ∧ (ds.length = k ∨ ds.length < k ∧ r = []) := by
  induction k generalizing s ds with
  | zero =>
    cases h
    exact ⟨rfl, .inl rfl⟩
  | succ k ih =>
    rcases s with - | ⟨c, s⟩
    · cases h
      exact ⟨rfl, .inr ⟨by simp, rfl⟩⟩
    · rw [digits] at h
      split at h
      · next d hd =>
        obtain ⟨⟨es, r'⟩, hes, heq⟩ := Except.map_eq_ok_iff.1 h
        cases heq
        obtain ⟨rfl, hlen⟩ := ih hes
        rw [Digit.ofChar?_eq_some_iff.1 hd]
        refine ⟨rfl, ?_⟩
        rcases hlen with hlen | ⟨hlen, hr⟩
        · exact .inl (by simp [hlen])
        · exact .inr ⟨by simpa using hlen, hr⟩
      · cases h

theorem component_sound {c : Component} {n : Nat} (h : component c s = .ok (n, r)) :
    ∃ t, s = t ++ r ∧ ComponentText c t n := by
  unfold component at h
  split at h
  · cases h
  · next hsize =>
    split at h
    · cases h
    · next ds r' hds =>
      dsimp only at h
      split at h
      · next hb =>
        cases h
        obtain ⟨rfl, hlen⟩ := digits_sound hds
        refine ⟨ds.map Digit.char, rfl, .mk ds ?_ hb⟩
        rcases hlen with hlen | ⟨hlen, rfl⟩
        · exact hlen
        · rw [List.append_nil, byteCount_digits] at hsize
          exact absurd hlen hsize
      · cases h

theorem mark_sound {c : Char} {b : Bool} (h : mark c s = (b, r)) : s = markText b c ++ r := by
  rcases s with - | ⟨d, s⟩
  · cases h
    rfl
  · rw [mark] at h
    split at h
    · next hd =>
      cases h
      rw [hd]
      rfl
    · cases h
      rfl

theorem daySeparator_sound {extended : Bool} {u : Unit} (h : daySeparator extended s = .ok (u, r)) :
    s = markText extended '-' ++ r := by
  rcases s with - | ⟨c, s⟩
  · rw [daySeparator] at h
    split_ifs at h with hextended
    cases h
    rw [markText, if_neg hextended]
    rfl
  · rw [daySeparator] at h
    split_ifs at h with hextended hc hc
    · cases h
      rw [markText, if_pos hextended, hc]
      rfl
    · cases h
      rw [markText, if_neg hextended]
      rfl

theorem date_sound {d : Date} (h : date s = .ok (d, r)) : ∃ t, s = t ++ r ∧ DateText t d := by
  obtain ⟨⟨year, s₁⟩, hyear, h⟩ := Except.bind_eq_ok_iff.1 h
  obtain ⟨extended, s₂, hmark⟩ : ∃ extended s₂, mark '-' s₁ = (extended, s₂) := ⟨_, _, rfl⟩
  dsimp only at h
  rw [hmark] at h
  obtain ⟨⟨month, s₃⟩, hmonth, h⟩ := Except.bind_eq_ok_iff.1 h
  obtain ⟨⟨_, s₄⟩, hsep, h⟩ := Except.bind_eq_ok_iff.1 h
  obtain ⟨⟨day, s₅⟩, hday, h⟩ := Except.bind_eq_ok_iff.1 h
  dsimp only at hmonth hsep hday h
  split at h
  · next hexists =>
    cases h
    obtain ⟨y, hs, hy⟩ := component_sound hyear
    obtain ⟨m, hs₂, hm⟩ := component_sound hmonth
    obtain ⟨t, hs₄, ht⟩ := component_sound hday
    refine ⟨_, ?_, .mk extended hy hm ht hexists⟩
    rw [hs, mark_sound hmark, hs₂, daySeparator_sound hsep, hs₄]
    simp only [List.append_assoc]
  · cases h

theorem further_sound {extended : Bool} {c : Component} {o : Option Nat}
    (h : further extended c s = .ok (o, r)) :
    o = none ∧ s = r ∨ ∃ n t, o = some n ∧ s = markText extended ':' ++ (t ++ r) ∧
      ComponentText c t n := by
  cases extended with
  | true =>
    rw [further, if_pos rfl] at h
    split at h
    · next r' hmark =>
      obtain ⟨⟨n, r''⟩, hn, heq⟩ := Except.map_eq_ok_iff.1 h
      cases heq
      obtain ⟨t, rfl, ht⟩ := component_sound hn
      exact .inr ⟨n, t, rfl, mark_sound hmark, ht⟩
    · next r' hmark =>
      cases h
      exact .inl ⟨rfl, mark_sound hmark⟩
  | false =>
    rw [further, if_neg (by decide)] at h
    split at h
    · obtain ⟨⟨n, r''⟩, hn, heq⟩ := Except.map_eq_ok_iff.1 h
      cases heq
      obtain ⟨t, rfl, ht⟩ := component_sound hn
      exact .inr ⟨n, t, rfl, rfl, ht⟩
    · cases h
      exact .inl ⟨rfl, rfl⟩

theorem fraction_sound {fault : Fault} {n : Nat} (h : fraction fault s = .ok (n, r)) :
    ∃ t, s = t ++ r ∧ FractionText t n := by
  rcases s with - | ⟨c, s⟩
  · cases h
    exact ⟨[], rfl, .absent⟩
  · rw [fraction] at h
    split at h
    · next hc =>
      dsimp only at h
      split at h
      · cases h
      · next hne =>
        cases h
        obtain ⟨hs, -⟩ := Digits.scan_eq_iff.1 (Prod.mk.eta (p := Digits.scan s)).symm
        refine ⟨_, ?_, .digits hc hne (List.length_take_le 9 _)⟩
        -- Digits behind the ninth are left to what follows.
        have htaken : ((Digits.scan s).1.take 9).map Digit.char =
            s.take ((Digits.scan s).1.take 9).length := by
          nth_rewrite 3 [hs]
          simp [List.take_append_of_le_length]
        rw [List.cons_append, htaken, List.take_append_drop]
    · cases h
      exact ⟨[], rfl, .absent⟩

/-- A time is read in three steps, for a clock as for an offset. -/
theorem time_sound {h m d : Component} {a n : Nat} {b c : Option Nat} {fault : Fault}
    {s₁ s₂ : List Char} (ha : component h s = .ok (a, s₁))
    (hbc : furtherTwo m d s₁ = .ok ((b, c), s₂)) (hn : fractionOf fault c s₂ = .ok (n, r)) :
    ∃ t, s = t ++ r ∧ TimeText h m d t a b c n := by
  obtain ⟨t, rfl, ht⟩ := component_sound ha
  obtain ⟨⟨o, s₃⟩, ho, hc⟩ := Except.bind_eq_ok_iff.1 hbc
  dsimp only at hc
  clear hbc
  generalize (mark ':' s₁).1 = extended at ho hc
  rcases further_sound ho with ⟨rfl, rfl⟩ | ⟨b', u, rfl, rfl, hu⟩
  · cases hc
    cases hn
    exact ⟨t, rfl, .hours ht⟩
  · obtain ⟨⟨o', s₄⟩, ho', hc⟩ := Except.bind_eq_ok_iff.1 hc
    cases hc
    rcases further_sound ho' with ⟨rfl, rfl⟩ | ⟨c', v, rfl, rfl, hv⟩
    · cases hn
      exact ⟨_, by simp only [List.append_assoc], .minutes extended ht hu⟩
    · obtain ⟨f, rfl, hf⟩ := fraction_sound hn
      exact ⟨_, by simp only [List.append_assoc], .seconds extended ht hu hv hf⟩

theorem clock_sound {t : Clock} (h : clock s = .ok (t, r)) : ∃ u, s = u ++ r ∧ ClockText u t := by
  obtain ⟨⟨hour, s₁⟩, hhour, h⟩ := Except.bind_eq_ok_iff.1 h
  obtain ⟨⟨⟨minute, second⟩, s₂⟩, hminute, h⟩ := Except.bind_eq_ok_iff.1 h
  obtain ⟨⟨nanosecond, s₃⟩, hnano, h⟩ := Except.bind_eq_ok_iff.1 h
  cases h
  obtain ⟨u, hs, hu⟩ := time_sound hhour hminute hnano
  exact ⟨u, hs, .mk hu⟩

/-- An offset is read, or none is there. -/
theorem offset_sound {o : Option Offset} (h : offset s = .ok (o, r)) :
    o = none ∧ s = r ∨ ∃ t o', o = some o' ∧ s = t ++ r ∧ OffsetText t o' := by
  rcases s with - | ⟨c, s⟩
  · cases h
    exact .inl ⟨rfl, rfl⟩
  · rw [offset] at h
    split_ifs at h with hzulu hsign
    · cases h
      exact .inr ⟨[c], .zulu, rfl, rfl, .zulu hzulu⟩
    · obtain ⟨⟨o', r'⟩, ho', heq⟩ := Except.map_eq_ok_iff.1 h
      cases heq
      obtain ⟨⟨hours, s₁⟩, hhours, h⟩ := Except.bind_eq_ok_iff.1 ho'
      obtain ⟨⟨⟨minutes, seconds⟩, s₂⟩, hminutes, h⟩ := Except.bind_eq_ok_iff.1 h
      obtain ⟨⟨nanosecond, s₃⟩, hnano, h⟩ := Except.bind_eq_ok_iff.1 h
      cases h
      obtain ⟨t, rfl, ht⟩ := time_sound hhours hminutes hnano
      exact .inr ⟨c :: t, _, rfl, rfl, .numeric hsign ht⟩
    · cases h
      exact .inl ⟨rfl, rfl⟩

/-! ### What is spelled is read -/

/-- Nothing that could go on with a time stands in front. -/
def Ends (r : List Char) : Prop :=
  ∀ c ∈ r.head?, Digit.ofChar? c = none ∧ c ≠ ':' ∧ c ≠ '.' ∧ c ≠ ','

theorem ends_nil : Ends [] := by simp [Ends]

theorem Ends.stop (h : Ends r) : Digits.Stop r := fun c hc => (h c hc).1

theorem digits_complete (ds : List Digit) (r : List Char) :
    digits ds.length (ds.map Digit.char ++ r) = .ok (ds, r) := by
  induction ds with
  | nil => rfl
  | cons d ds ih => simp [digits, ih, Except.map]

theorem component_complete {c : Component} {t : List Char} {n : Nat} (h : ComponentText c t n)
    (r : List Char) : component c (t ++ r) = .ok (n, r) := by
  obtain ⟨ds, hlen, hbounds⟩ := h
  have hsize : ¬ Text.byteCount (ds.map Digit.char ++ r) < c.width := by
    rw [Text.byteCount_append, byteCount_digits, hlen]
    omega
  rw [component, if_neg hsize, ← hlen, digits_complete]
  exact if_pos hbounds

/-- A component begins with a digit, so that no mark is taken in its place. -/
theorem exists_digit {c : Component} {t : List Char} {n : Nat} (h : ComponentText c t n) :
    ∃ (d : Digit) (u : List Char), t = d.char :: u := by
  obtain ⟨ds, hlen, -⟩ := h
  rcases ds with - | ⟨d, ds⟩
  · cases c <;> cases hlen
  · exact ⟨d, ds.map Digit.char, rfl⟩

theorem mark_complete {c : Component} {t : List Char} {n : Nat} (h : ComponentText c t n)
    {m : Char} (hm : Digit.ofChar? m = none) (extended : Bool) (r : List Char) :
    mark m (markText extended m ++ (t ++ r)) = (extended, t ++ r) := by
  obtain ⟨d, u, rfl⟩ := exists_digit h
  cases extended with
  | true => exact if_pos rfl
  | false => exact if_neg (d.char_ne hm)

theorem daySeparator_complete {c : Component} {t : List Char} {n : Nat} (h : ComponentText c t n)
    (extended : Bool) (r : List Char) :
    daySeparator extended (markText extended '-' ++ (t ++ r)) = .ok ((), t ++ r) := by
  obtain ⟨d, u, rfl⟩ := exists_digit h
  cases extended with
  | true => rfl
  | false => exact if_neg (d.char_ne (by decide))

theorem date_complete {t : List Char} {d : Date} (h : DateText t d) (r : List Char) :
    date (t ++ r) = .ok (d, r) := by
  obtain ⟨extended, hy, hm, hd, hexists⟩ := h
  simp only [List.append_assoc]
  refine Except.bind_eq_ok_iff.2 ⟨_, component_complete hy _, ?_⟩
  dsimp only
  rw [mark_complete hm (by decide)]
  refine Except.bind_eq_ok_iff.2 ⟨_, component_complete hm _, ?_⟩
  refine Except.bind_eq_ok_iff.2 ⟨_, daySeparator_complete hd extended r, ?_⟩
  exact Except.bind_eq_ok_iff.2 ⟨_, component_complete hd r, if_pos hexists⟩

theorem further_complete {c : Component} (hw : c.width = 2) {t : List Char} {n : Nat}
    (h : ComponentText c t n) (extended : Bool) (r : List Char) :
    further extended c (markText extended ':' ++ (t ++ r)) = .ok (some n, r) := by
  cases extended with
  | true =>
    rw [further, if_pos rfl, mark_complete h (by decide)]
    exact Except.map_eq_ok_iff.2 ⟨_, component_complete h r, rfl⟩
  | false =>
    have htwo : startsWithTwoDigits (t ++ r) = true := by
      obtain ⟨ds, hlen, -⟩ := h
      obtain ⟨d, e, rfl⟩ := List.length_eq_two.1 (hlen.trans hw)
      simp [startsWithTwoDigits]
    rw [further, if_neg (by decide)]
    exact (if_pos htwo).trans (Except.map_eq_ok_iff.2 ⟨_, component_complete h r, rfl⟩)

theorem further_ends (h : Ends r) (extended : Bool) (c : Component) :
    further extended c r = .ok (none, r) := by
  rcases r with - | ⟨d, r⟩
  · cases extended <;> rfl
  · obtain ⟨hdigit, hcolon, -⟩ := h d rfl
    cases extended with
    | true => rw [further, if_pos rfl, mark, if_neg hcolon]
    | false =>
      have htwo : startsWithTwoDigits (d :: r) = false := by
        rcases r with - | ⟨e, r⟩
        · rfl
        · simp [startsWithTwoDigits, hdigit]
      simp [further, htwo]

theorem fraction_complete {f : List Char} {n : Nat} (hf : FractionText f n) (hr : Ends r)
    (fault : Fault) : fraction fault (f ++ r) = .ok (n, r) := by
  cases hf with
  | absent =>
    rcases r with - | ⟨c, r⟩
    · rfl
    · obtain ⟨-, -, hpoint, hcomma⟩ := hr c rfl
      exact if_neg (not_or.2 ⟨hpoint, hcomma⟩)
  | @digits point ds hp hne hlen =>
    rw [List.cons_append, fraction, if_pos hp, Digits.scan_append ds hr.stop]
    simp only [List.take_of_length_le hlen, if_neg hne]
    rw [List.drop_left' (List.length_map _)]

/-- The three steps of reading a time. -/
theorem time_complete {h m d : Component} (hm : m.width = 2) (hd : d.width = 2) {t : List Char}
    {a n : Nat} {b c : Option Nat} (ht : TimeText h m d t a b c n) (hr : Ends r) (fault : Fault) :
    ∃ s₁ s₂, component h (t ++ r) = .ok (a, s₁) ∧ furtherTwo m d s₁ = .ok ((b, c), s₂) ∧
      fractionOf fault c s₂ = .ok (n, r) := by
  cases ht with
  | hours ha =>
    refine ⟨r, r, component_complete ha r, ?_, rfl⟩
    exact Except.bind_eq_ok_iff.2 ⟨_, further_ends hr _ m, rfl⟩
  | minutes extended ha hb =>
    simp only [List.append_assoc]
    refine ⟨_, r, component_complete ha _, ?_, rfl⟩
    rw [furtherTwo, mark_complete hb (by decide)]
    refine Except.bind_eq_ok_iff.2 ⟨_, further_complete hm hb extended r, ?_⟩
    exact Except.bind_eq_ok_iff.2 ⟨_, further_ends hr extended d, rfl⟩
  | seconds extended ha hb hc hf =>
    simp only [List.append_assoc]
    refine ⟨_, _, component_complete ha _, ?_, fraction_complete hf hr fault⟩
    rw [furtherTwo, mark_complete hb (by decide)]
    refine Except.bind_eq_ok_iff.2 ⟨_, further_complete hm hb extended _, ?_⟩
    exact Except.bind_eq_ok_iff.2 ⟨_, further_complete hd hc extended _, rfl⟩

theorem clock_complete {u : List Char} {t : Clock} (h : ClockText u t) (hr : Ends r) :
    clock (u ++ r) = .ok (t, r) := by
  obtain ⟨ht⟩ := h
  obtain ⟨s₁, s₂, h₁, h₂, h₃⟩ := time_complete rfl rfl ht hr .noClockFraction
  refine Except.bind_eq_ok_iff.2 ⟨_, h₁, ?_⟩
  refine Except.bind_eq_ok_iff.2 ⟨_, h₂, ?_⟩
  exact Except.bind_eq_ok_iff.2 ⟨_, h₃, rfl⟩

theorem offset_complete {t : List Char} {o : Offset} (h : OffsetText t o) (hr : Ends r) :
    offset (t ++ r) = .ok (some o, r) := by
  cases h with
  | zulu hc => exact if_pos hc
  | @numeric c t hours n minutes seconds hc ht =>
    obtain ⟨s₁, s₂, h₁, h₂, h₃⟩ := time_complete rfl rfl ht hr .noOffsetFraction
    have hzulu : ¬ (c = 'Z' ∨ c = 'z') := by rcases hc with rfl | rfl <;> decide
    rw [List.cons_append, offset, if_neg hzulu, if_pos hc]
    refine Except.map_eq_ok_iff.2 ⟨(.numeric (c = '-') hours minutes seconds n, r), ?_, rfl⟩
    refine Except.bind_eq_ok_iff.2 ⟨_, h₁, ?_⟩
    refine Except.bind_eq_ok_iff.2 ⟨_, h₂, ?_⟩
    exact Except.bind_eq_ok_iff.2 ⟨_, h₃, rfl⟩

theorem ends_of_offsetText {t : List Char} {o : Offset} (h : OffsetText t o) : Ends t := by
  cases h with
  | zulu hc => rcases hc with rfl | rfl <;> simp [Ends] <;> decide
  | numeric hc ht => rcases hc with rfl | rfl <;> simp [Ends] <;> decide

theorem afterDate_complete {date : Date} {c : Char} (hc : IsSeparator c) {t : Clock}
    {o : Option Offset} {s₁ : List Char} (hclock : clock s = .ok (t, s₁))
    (hoffset : offset s₁ = .ok (o, r)) : afterDate date (c :: s) = .ok (⟨date, some t, o⟩, r) := by
  unfold IsSeparator at hc
  rw [afterDate, if_pos hc]
  refine Except.bind_eq_ok_iff.2 ⟨_, hclock, ?_⟩
  exact Except.bind_eq_ok_iff.2 ⟨_, hoffset, rfl⟩

end Parse

/-! ### Whole texts -/

theorem writtenText_of_parse {s : List Char} {w : Written} (h : Written.parse s = .ok w) :
    WrittenText s w := by
  obtain ⟨⟨date, s₁⟩, hdate, h⟩ := Except.bind_eq_ok_iff.1 h
  obtain ⟨⟨w', rest⟩, hw, h⟩ := Except.bind_eq_ok_iff.1 h
  obtain ⟨d, rfl, hd⟩ := Parse.date_sound hdate
  rcases rest with - | ⟨_, _⟩
  swap
  · cases h
  cases h
  rcases s₁ with - | ⟨c, s₁⟩
  · cases hw
    rw [List.append_nil]
    exact .date hd
  · rw [Parse.afterDate] at hw
    split at hw
    · next hc =>
      obtain ⟨⟨clock, s₂⟩, hclock, hw⟩ := Except.bind_eq_ok_iff.1 hw
      obtain ⟨⟨offset, s₃⟩, hoffset, hw⟩ := Except.bind_eq_ok_iff.1 hw
      cases hw
      obtain ⟨t, rfl, ht⟩ := Parse.clock_sound hclock
      rcases Parse.offset_sound hoffset with ⟨rfl, rfl⟩ | ⟨o, offset, rfl, rfl, ho⟩
      · rw [List.append_nil]
        exact .civil hd hc ht
      · rw [List.append_nil]
        exact .zoned hd hc ht ho
    · cases hw

theorem parse_of_writtenText {s : List Char} {w : Written} (h : WrittenText s w) :
    Written.parse s = .ok w := by
  cases h with
  | date hd =>
    have hdate := Parse.date_complete hd []
    rw [List.append_nil] at hdate
    exact Except.bind_eq_ok_iff.2 ⟨_, hdate, rfl⟩
  | civil hd hc ht =>
    have hclock := Parse.clock_complete ht Parse.ends_nil
    rw [List.append_nil] at hclock
    refine Except.bind_eq_ok_iff.2 ⟨_, Parse.date_complete hd _, ?_⟩
    exact Except.bind_eq_ok_iff.2 ⟨_, Parse.afterDate_complete hc hclock rfl, rfl⟩
  | zoned hd hc ht ho =>
    have hclock := Parse.clock_complete ht (Parse.ends_of_offsetText ho)
    have hoffset := Parse.offset_complete ho Parse.ends_nil
    rw [List.append_nil] at hoffset
    refine Except.bind_eq_ok_iff.2 ⟨_, Parse.date_complete hd _, ?_⟩
    exact Except.bind_eq_ok_iff.2 ⟨_, Parse.afterDate_complete hc hclock hoffset, rfl⟩

theorem writtenParse_iff {s : List Char} {w : Written} :
    Written.parse s = .ok w ↔ WrittenText s w :=
  ⟨writtenText_of_parse, parse_of_writtenText⟩

namespace Grammar

theorem WrittenText.unique {s : List Char} {v w : Written} (hv : WrittenText s v)
    (hw : WrittenText s w) : v = w := by
  have h := writtenParse_iff.2 hv
  rw [writtenParse_iff.2 hw] at h
  exact (Except.ok.inj h).symm

/-! ### What is spelled is in range -/

theorem ComponentText.bounds {c : Component} {t : List Char} {n : Nat} (h : ComponentText c t n) :
    c.bounds.1 ≤ n ∧ n ≤ c.bounds.2 := by
  obtain ⟨ds, -, hbounds⟩ := h
  exact hbounds

theorem DateText.isWritable {t : List Char} {d : Date} (h : DateText t d) :
    (0 ≤ d.year ∧ d.year ≤ 9999) ∧ d.Exists := by
  obtain ⟨-, hy, -, -, hexists⟩ := h
  exact ⟨⟨Int.natCast_nonneg _, Int.ofNat_le.2 hy.bounds.2⟩, hexists⟩

theorem FractionText.lt {t : List Char} {n : Nat} (h : FractionText t n) : n < 10 ^ 9 := by
  cases h with
  | absent => decide
  | @digits point ds hp ne len =>
    have hpow : 10 ^ ds.length * 10 ^ (9 - ds.length) = 10 ^ 9 := by
      rw [← pow_add, Nat.add_sub_cancel' len]
    rw [Parse.nanosecondsOf, Nat.pow_eq, ← hpow]
    exact Nat.mul_lt_mul_of_pos_right (Digits.value_lt ds) (by positivity)

theorem ClockText.isValid {t : List Char} {c : Clock} (h : ClockText t c) : c.IsValid := by
  obtain ⟨ht⟩ := h
  cases ht with
  | hours ha => exact ⟨ha.bounds.2, Nat.zero_le _, Nat.min_le_right _ _, FractionText.absent.lt⟩
  | minutes _ ha hb =>
    exact ⟨ha.bounds.2, hb.bounds.2, Nat.min_le_right _ _, FractionText.absent.lt⟩
  | seconds _ ha hb hc hf => exact ⟨ha.bounds.2, hb.bounds.2, Nat.min_le_right _ _, hf.lt⟩

theorem WrittenText.isWritable {s : List Char} {w : Written} (h : WrittenText s w) :
    w.civil.IsWritable := by
  cases h with
  | date hd => exact ⟨hd.isWritable.1, hd.isWritable.2, Clock.isValid_midnight⟩
  | civil hd hc ht => exact ⟨hd.isWritable.1, hd.isWritable.2, ht.isValid⟩
  | zoned hd hc ht ho => exact ⟨hd.isWritable.1, hd.isWritable.2, ht.isValid⟩

end Grammar

end ConfigGate.Moment
