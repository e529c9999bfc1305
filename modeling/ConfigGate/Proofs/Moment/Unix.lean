import Mathlib
import ConfigGate.Proofs.Binary64.Integer
import ConfigGate.Proofs.Coercion

/-!
# Unix numbers

An integer is taken for the binary64 number nearest to its nanoseconds. This is exact where the
nanoseconds have at most 53 significant bits, in particular for the seconds of the years 1824 to
2115 and for the milliseconds up to the year 1987 (`moment_integer`). Of the milliseconds of the
year 2024 three out of four are off.
-/

namespace ConfigGate

open Magnitude (Rounds Nearest IsShort)

/-! ### From numbers to moments

These are stated for variables, as nothing must evaluate the instant of a number. -/

theorem Moment.ofUnix_of_instant {x : Binary64} {t : Instant} (h : Unix.instant x = .ok t) :
    ofUnix x = .ok (.instant t) := by
  rw [ofUnix, h, Except.map]

theorem Moment.ofUnix_of_error {x : Binary64} {fault : Fault} (h : Unix.instant x = .error fault) :
    ofUnix x = .error fault := by
  rw [ofUnix, h, Except.map]

theorem Coercion.exists_error_of_readMoment? {field : String} {value : Json} {fault : Moment.Fault}
    (h : readMoment? value = some (.error fault)) : ∃ e, moment field value = .error e := by
  rw [moment, h]
  exact ⟨_, rfl⟩

namespace Unix

/-- The nanoseconds in the unit of an integer of this magnitude. -/
def unitOf (m : Nat) : Nat := if millisecondsAbove < m then 1000000 else 1000000000

theorem unit_of_toRat {x : Magnitude} {m : Nat} (h : x.toRat = m) : unit x = unitOf m := by
  have hunits : x.units = m * Magnitude.perOne := by
    have := x.units_eq_toRat
    rw [h] at this
    exact_mod_cast this
  simp only [unit, unitOf, hunits, Nat.mul_lt_mul_right Magnitude.perOne_pos]

theorem unitOf_lt (m : Nat) : unitOf m < 2 ^ 53 := by
  unfold unitOf
  split <;> decide

/-- The unit is a binary64 number. -/
theorem exists_ofNat?_unit (x : Magnitude) :
    ∃ u, Magnitude.ofNat? (unit x) = some u ∧ u.toRat = unit x := by
  have hlt : unit x < 2 ^ 53 := by
    unfold unit
    split <;> decide
  obtain ⟨u, hu⟩ := Magnitude.exists_toRat_nat hlt
  have hr := Magnitude.rounds_ofNat (unit x)
  rw [← hu] at hr
  exact ⟨u, hr.eq, hu⟩

/-- The nanoseconds of an integer that binary64 holds. -/
theorem nanoseconds?_of_toRat {x : Magnitude} {m : Nat} (h : x.toRat = m) (hm : m < 2 ^ 53)
    (negative : Bool) : ∃ n : Nat, Nearest (m * unitOf m) n ∧
      nanoseconds? negative x = some (if negative then -(n : Int) else n) := by
  obtain ⟨u, hunit, hu⟩ := exists_ofNat?_unit x
  have hr := Magnitude.rounds_mul x u
  rw [h, hu, unit_of_toRat h, ← Nat.cast_mul] at hr
  have hsize : m * unitOf m ≤ 2 ^ 128 :=
    (Nat.mul_le_mul hm.le (unitOf_lt m).le).trans (by norm_num)
  obtain ⟨p, n, hp, hn, hnear⟩ := Magnitude.exists_nearest hr hsize
  refine ⟨n, hnear, ?_⟩
  rw [nanoseconds?, hunit, Option.bind_eq_bind, Option.bind_some, hp, Option.bind_some,
    Magnitude.round_of_toRat hn]

theorem instant_of_nanoseconds? {negative : Bool} {x : Magnitude} {t : Instant}
    (h : nanoseconds? negative x = some t.nanoseconds) :
    instant (.finite negative x) = .ok t := by
  have hinstant : Instant.ofNanoseconds? t.nanoseconds = some t := by
    rw [Instant.ofNanoseconds?, dif_pos t.inRange]
  rw [instant, h, instantAt, hinstant]

theorem instant_integer {i : Int} (h : i.natAbs < 2 ^ 53)
    (fits : -0x8000000000000000 ≤ i ∧ i < 0x10000000000000000) :
    ∃ n : Nat, Nearest (i.natAbs * unitOf i.natAbs) n ∧
      ∀ t : Instant, t.nanoseconds = (if i < 0 then -(n : Int) else n) →
        instant (Json.Number.integer i fits).toBinary64 = .ok t := by
  obtain ⟨x, hx⟩ := Magnitude.exists_toRat_nat h
  have hread : Magnitude.ofNat? i.natAbs = some x := by
    have hr := Magnitude.rounds_ofNat i.natAbs
    rw [← hx] at hr
    exact hr.eq
  obtain ⟨n, hnear, hn⟩ := nanoseconds?_of_toRat hx h (decide (i < 0))
  refine ⟨n, hnear, fun t ht => ?_⟩
  rw [Json.Number.toBinary64, hread]
  refine instant_of_nanoseconds? (hn.trans ?_)
  simp only [decide_eq_true_eq, ht]

/-! ### Exactness -/

section

variable {i : Int} {n u : Nat}

/-- The signed nanoseconds of an integer are as far from the exact ones as the unsigned are. -/
theorem signed_sub (i : Int) (n u : Nat) :
    |(if i < 0 then -(n : Int) else n) - i * u| = |(n : Int) - (i.natAbs * u : Nat)| := by
  rcases lt_or_ge i 0 with hi | hi
  · obtain ⟨m, rfl⟩ : ∃ m : Nat, i = -m := ⟨i.natAbs, by omega⟩
    rw [if_pos hi, Int.natAbs_neg, Int.natAbs_natCast, ← abs_neg]
    congr 1
    push_cast
    ring
  · lift i to Nat using hi
    rw [if_neg (by omega), Int.natAbs_natCast]
    push_cast
    rfl

/-- The two bounds are the binary64 numbers next to the ends of the range. -/
theorem exists_instant (hnear : Nearest (i.natAbs * u) n)
    (habove : 0 ≤ i → i.natAbs * u ≤ 253402207200999997440)
    (hbelow : i < 0 → i.natAbs * u ≤ 377705023200999964672) :
    ∃ t : Instant, t.nanoseconds = if i < 0 then -(n : Int) else n := by
  rcases lt_or_ge i 0 with hi | hi
  · have hle := hnear.le_of_isShort ⟨5763321276870727, 16, by norm_num, by norm_num⟩ (by norm_num)
      (hbelow hi)
    exact ⟨⟨-n, by omega⟩, (if_pos hi).symm⟩
  · have hle := hnear.le_of_isShort ⟨7733221655303955, 15, by norm_num, by norm_num⟩ (by norm_num)
      (habove hi)
    exact ⟨⟨n, by omega⟩, (if_neg (by omega)).symm⟩

/-- The first millisecond in range is rounded out of it. -/
theorem instant_first :
    instant (Json.Number.integer (-377705023201000) (by decide)).toBinary64 =
      .error .unixSeconds := by
  decide +kernel

/-- An integer whose nanoseconds do not reach the ends of the range. -/
theorem moment_near (field : String) (fits : -0x8000000000000000 ≤ i ∧ i < 0x10000000000000000)
    (hu : unitOf i.natAbs = u) (habove : 0 ≤ i → i.natAbs * u ≤ 253402207200999997440)
    (hbelow : i < 0 → i.natAbs * u ≤ 377705023200999964672) :
    ∃ t : Instant, Coercion.moment field (.number (.integer i fits)) = .ok (.instant t) ∧
      (t.nanoseconds = i * u ↔ IsShort (i.natAbs * u)) ∧
      2 ^ 53 * |t.nanoseconds - i * u| ≤ |i| * u := by
  have hsize : i.natAbs * u ≤ 377705023200999964672 := by
    rcases lt_or_ge i 0 with hi | hi
    · exact hbelow hi
    · exact (habove hi).trans (by norm_num)
  have hunit : 1000000 ≤ u := by
    rw [← hu, unitOf]
    split <;> norm_num
  have hi : i.natAbs < 2 ^ 53 := by
    have := Nat.mul_le_mul_left i.natAbs hunit
    omega
  obtain ⟨n, hnear, hread⟩ := instant_integer hi fits
  rw [hu] at hnear
  obtain ⟨t, ht⟩ := exists_instant hnear habove hbelow
  have hsub := signed_sub i n u
  rw [← ht] at hsub
  refine ⟨t, ?_, ?_, ?_⟩
  · exact Coercion.moment_eq_ok_iff.2 (congrArg some (Moment.ofUnix_of_instant (hread t ht)))
  · rw [← hnear.eq_iff (Nat.lt_of_le_of_lt hsize (by norm_num)), ← sub_eq_zero, ← abs_eq_zero, hsub,
      abs_eq_zero, sub_eq_zero, Nat.cast_inj]
  · have habs : |i| * u = (i.natAbs * u : Nat) := by
      rw [Int.abs_eq_natAbs]
      push_cast
      rfl
    rw [hsub, habs]
    exact hnear.near

end

end Unix

/-- What becomes of an integer as a unix number. Up to 2 * 10^10 it counts seconds. It is always
accepted, and its instant is off by a part in 2^53 at most. It is exact if and only if the
nanoseconds have at most 53 significant bits. A larger one counts milliseconds, of which the same is
true, save that the first millisecond in range is refused. -/
theorem moment_integer (field : String) (i : Int)
    (fits : -0x8000000000000000 ≤ i ∧ i < 0x10000000000000000) :
    (|i| ≤ 20000000000 →
      ∃ t : Instant, Coercion.moment field (.number (.integer i fits)) = .ok (.instant t) ∧
        (t.nanoseconds = i * 1000000000 ↔ IsShort (i.natAbs * 1000000000)) ∧
        2 ^ 53 * |t.nanoseconds - i * 1000000000| ≤ |i| * 1000000000) ∧
    (20000000000 < |i| → -377705023201000000000 ≤ i * 1000000 →
      i * 1000000 < 253402207201000000000 →
      (i = -377705023201000 ∧
        ∃ e, Coercion.moment field (.number (.integer i fits)) = .error e) ∨
      ∃ t : Instant, Coercion.moment field (.number (.integer i fits)) = .ok (.instant t) ∧
        (t.nanoseconds = i * 1000000 ↔ IsShort (i.natAbs * 1000000)) ∧
        2 ^ 53 * |t.nanoseconds - i * 1000000| ≤ |i| * 1000000) ∧
    (|i| ≤ 4611686018 → IsShort (i.natAbs * 1000000000)) ∧
    (|i| ≤ 576460752303 → IsShort (i.natAbs * 1000000)) := by
  rw [Int.abs_eq_natAbs]
  refine ⟨fun hi => ?_, fun hi hlow hhigh => ?_, fun hi => ?_, fun hi => ?_⟩
  · have hunit : Unix.unitOf i.natAbs = 1000000000 := by
      rw [Unix.unitOf, if_neg (by simp only [Unix.millisecondsAbove]; omega)]
    have := Unix.moment_near field fits hunit (by omega) (by omega)
    rwa [Int.abs_eq_natAbs] at this
  · have hunit : Unix.unitOf i.natAbs = 1000000 := by
      rw [Unix.unitOf, if_pos (by simp only [Unix.millisecondsAbove]; omega)]
    by_cases hfirst : i = -377705023201000
    · subst hfirst
      exact .inl ⟨rfl, Coercion.exists_error_of_readMoment?
        (congrArg some (Moment.ofUnix_of_error Unix.instant_first))⟩
    · have := Unix.moment_near field fits hunit (by omega) (by omega)
      rw [Int.abs_eq_natAbs] at this
      exact .inr this
  · have hshort : IsShort (i.natAbs * 1953125) := .of_lt (by omega)
    have := hshort.mul_pow 9
    rwa [mul_assoc] at this
  · have hshort : IsShort (i.natAbs * 15625) := .of_lt (by omega)
    have := hshort.mul_pow 6
    rwa [mul_assoc] at this

/-- A millisecond of the year 2024 is off. -/
theorem moment_integer_off :
    ∃ t : Instant, Coercion.moment "timestamp" (.number (.integer 1704067200001 (by decide))) =
      .ok (.instant t) ∧ t.nanoseconds ≠ 1704067200001 * 1000000 := by
  have h := (moment_integer "timestamp" 1704067200001 (by decide)).2.1 (by decide) (by decide)
    (by decide)
  rcases h with ⟨hfirst, -⟩ | ⟨t, ht, hexact, -⟩
  · cases hfirst
  · refine ⟨t, ht, fun h => ?_⟩
    have hdvd : 2 ^ (7 + 1) ∣ 1704067200001 * 1000000 := (hexact.1 h).pow_dvd (by norm_num)
    omega

/-- A second of the year 2116 that is 512 nanoseconds late. -/
theorem moment_second_late :
    Coercion.moment "timestamp" (.number (.integer 4611686019 (by decide))) =
      .ok (.instant ⟨4611686019 * 1000000000 + 512, by decide⟩) := by
  have hinstant : Unix.instant (Json.Number.integer 4611686019 (by decide)).toBinary64 =
      .ok ⟨4611686019 * 1000000000 + 512, by decide⟩ := by
    decide +kernel
  exact Coercion.moment_eq_ok_iff.2 (congrArg some (Moment.ofUnix_of_instant hinstant))

end ConfigGate
