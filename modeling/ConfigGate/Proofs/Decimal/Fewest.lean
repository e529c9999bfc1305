import Mathlib
import ConfigGate.Proofs.Binary64.Nearest
import ConfigGate.Proofs.Json.Float

/-!
# The fewest digits

The decimal that is chosen for a magnitude has no more digits than any other that is rounded to the
magnitude, and of those with as many digits none is nearer (`isShortest_ofMagnitude`). Whatever is
rounded to a magnitude is an interval around it. So if there is a point of a grid in the interval,
one of the two neighbours of the magnitude is in it, and the grids are tried from the coarsest on.
The seventeenth always has one (`exists_rounds_grid`).
-/

namespace ConfigGate

/-- Where a range is cut, what stands before is what is less. -/
theorem mem_of_range_eq_append_cons {n m : Nat} {before after : List Nat}
    (h : List.range n = before ++ m :: after) {j : Nat} (hj : j < m) : j ∈ before := by
  rw [List.range_eq_range', List.range'_eq_append_iff] at h
  obtain ⟨k, hk, rfl, h⟩ := h
  obtain ⟨rfl, -, -⟩ := List.range'_eq_cons_iff.1 h.symm
  rw [List.mem_range'_1]
  omega

/-! ### Numbers of digits -/

namespace Digits

theorem lt_pow_count (n : Nat) : n < 10 ^ count n := by
  induction n using Nat.strong_induction_on with
  | _ n ih =>
    rw [count]
    split
    · next h => simp [h]
    · next h =>
      have := ih (n / 10) (by omega)
      rw [pow_succ]
      omega

theorem exists_count {n : Nat} (h : n ≠ 0) : ∃ k, count n = k + 1 ∧ 10 ^ k ≤ n := by
  induction n using Nat.strong_induction_on with
  | _ n ih =>
    rw [count, if_neg h]
    refine ⟨count (n / 10), rfl, ?_⟩
    by_cases hn : n / 10 = 0
    · rw [hn, count, if_pos rfl, pow_zero]
      omega
    · obtain ⟨k, hk, hle⟩ := ih (n / 10) (by omega) hn
      rw [hk, pow_succ]
      omega

theorem decimal_mul_ten {n : Nat} (h : n ≠ 0) : decimal (10 * n) = decimal n ++ [Digit.zero] := by
  rw [decimal, if_neg (by omega), Nat.mul_div_cancel_left n (by decide)]
  congr 2
  apply Fin.ext
  exact Nat.mul_mod_right 10 n

theorem dropZeros_append_zero (ds : List Digit) :
    dropZeros (ds ++ [Digit.zero]) = dropZeros ds := by
  rw [dropZeros, List.reverse_append, List.reverse_singleton, List.singleton_append,
    List.dropWhile_cons_of_pos (by rfl), dropZeros]

theorem length_dropZeros_le (ds : List Digit) : (dropZeros ds).length ≤ ds.length := by
  obtain ⟨zeros, h, -⟩ := dropZeros_append ds
  have := congrArg List.length h
  rw [List.length_append] at this
  omega

theorem dropZeros_pow (k : Nat) : dropZeros (decimal (10 ^ k)) = dropZeros (decimal 1) := by
  induction k with
  | zero => rfl
  | succ k ih => rw [pow_succ', decimal_mul_ten (by positivity), dropZeros_append_zero, ih]

/-- The first number of one digit more ends in zeros. -/
theorem length_dropZeros_decimal_le {c k : Nat} (hk : 0 < k) (hc : c ≤ 10 ^ k) :
    (dropZeros (decimal c)).length ≤ k := by
  rcases Nat.lt_or_eq_of_le hc with hlt | rfl
  · exact (length_dropZeros_le _).trans (length_decimal_le hk hlt)
  · rw [dropZeros_pow]
    have hone : (decimal 1).length ≤ 1 := length_decimal_le (by decide) (by decide)
    exact (length_dropZeros_le _).trans (hone.trans hk)

end Digits

theorem Scientific.toRat_nonneg (d : Scientific) : 0 ≤ d.toRat := by
  unfold toRat
  positivity

theorem Scientific.IsNormal.length_pos {d : Scientific} (h : d.IsNormal) : 0 < d.digits.length := by
  obtain ⟨first, rest, hd, -⟩ := h.head
  rw [hd]
  exact Nat.succ_pos _

namespace Magnitude

variable {x : Magnitude} {tie : Tie} {p : Int} {c : Nat}

theorem units_pos (hx : x.isZero = false) : 0 < x.units := by
  rw [Nat.pos_iff_ne_zero]
  intro h
  have hzero : x.isZero = true := isZero_iff.2 (by rw [toRat, h, Nat.cast_zero, zero_div])
  rw [hx] at hzero
  cases hzero

theorem toRat_pos (hx : x.isZero = false) : 0 < x.toRat :=
  div_pos (Nat.cast_pos.2 (units_pos hx)) perOne_pos_rat

/-- The leading power is that of the first digit. -/
theorem leadingPower_bounds (hx : x.isZero = false) :
    (10 : ℚ) ^ x.leadingPower ≤ x.toRat ∧ x.toRat < 10 ^ (x.leadingPower + 1) := by
  have hu := units_pos hx
  have hP := perOne_pos
  unfold leadingPower toRat
  generalize x.units = u at *
  generalize perOne = P at *
  have hP' : (0 : ℚ) < P := Nat.cast_pos.2 hP
  split
  · next hle =>
    have hne : u / P ≠ 0 := (Nat.div_pos hle hP).ne'
    obtain ⟨k, hk, hlow⟩ := Digits.exists_count hne
    have hhigh := Digits.lt_pow_count (u / P)
    rw [hk] at hhigh ⊢
    have hlow' : 10 ^ k * P ≤ u := (Nat.le_div_iff_mul_le hP).1 hlow
    have hhigh' : u < 10 ^ (k + 1) * P := (Nat.div_lt_iff_lt_mul hP).1 hhigh
    have hcast : ((k + 1 : Nat) : Int) - 1 = k := by omega
    rw [hcast, le_div_iff₀ hP', div_lt_iff₀ hP', zpow_natCast, ← Nat.cast_succ, zpow_natCast]
    exact ⟨by exact_mod_cast hlow', by exact_mod_cast hhigh'⟩
  · next hlt =>
    have hne : (P - 1) / u ≠ 0 := (Nat.div_pos (by omega) hu).ne'
    obtain ⟨k, hk, hlow⟩ := Digits.exists_count hne
    have hhigh := Digits.lt_pow_count ((P - 1) / u)
    rw [hk] at hhigh ⊢
    have hlow' : 10 ^ k * u ≤ P - 1 := (Nat.le_div_iff_mul_le hu).1 hlow
    have hhigh' : P - 1 < 10 ^ (k + 1) * u := (Nat.div_lt_iff_lt_mul hu).1 hhigh
    have hcast : -((k + 1 : Nat) : Int) + 1 = -k := by omega
    rw [hcast, zpow_neg, zpow_neg, zpow_natCast, zpow_natCast, inv_eq_one_div, inv_eq_one_div,
      div_le_div_iff₀ (by positivity) hP', div_lt_div_iff₀ hP' (by positivity), one_mul]
    refine ⟨?_, ?_⟩
    · have : P ≤ u * 10 ^ (k + 1) := by rw [Nat.mul_comm]; omega
      exact_mod_cast this
    · have : u * 10 ^ k < P := by rw [Nat.mul_comm]; omega
      exact_mod_cast this

/-! ### Neighbours on a grid -/

theorem readsBack_iff : x.readsBack c p = true ↔ Rounds (c * 10 ^ p) (some x) := by
  refine ⟨rounds_of_readsBack, fun h => ?_⟩
  exact decide_eq_true ((rounds_ofDecimal c p).unique h)

/-- The neighbour of `x` below it on a grid. -/
def floor (x : Magnitude) (p : Int) : Nat := (x.ratio p).1 / (x.ratio p).2

theorem le_floor_iff : c ≤ x.floor p ↔ (c : ℚ) * 10 ^ p ≤ x.toRat := by
  obtain ⟨hd, hq⟩ := ratio_spec x p
  have hd' : (0 : ℚ) < (x.ratio p).2 := Nat.cast_pos.2 hd
  have hpow : (0 : ℚ) < 10 ^ p := by positivity
  rw [floor, Nat.le_div_iff_mul_le hd, ← le_div_iff₀ hpow, ← hq, le_div_iff₀ hd']
  exact_mod_cast Iff.rfl

theorem floor_lt : x.toRat < (x.floor p + 1 : Nat) * 10 ^ p := by
  rw [← not_le, ← le_floor_iff]
  omega

/-- How far `x` is from the neighbour below. -/
theorem sub_floor : x.toRat - x.floor p * 10 ^ p =
    ((x.ratio p).1 % (x.ratio p).2 : Nat) / (x.ratio p).2 * 10 ^ p := by
  obtain ⟨hd, hq⟩ := ratio_spec x p
  have hd' : (0 : ℚ) < (x.ratio p).2 := Nat.cast_pos.2 hd
  have hpow : (0 : ℚ) < 10 ^ p := by positivity
  have hdiv : ((x.ratio p).2 * x.floor p + (x.ratio p).1 % (x.ratio p).2 : Nat) =
      ((x.ratio p).1 : ℚ) := by
    rw [floor, Nat.div_add_mod]
  have hx : x.toRat = (x.ratio p).1 / (x.ratio p).2 * 10 ^ p := by
    rw [hq, div_mul_cancel₀ _ hpow.ne']
  rw [hx, ← hdiv]
  push_cast
  field_simp
  ring

theorem two_mul_mod_le_iff :
    2 * ((x.ratio p).1 % (x.ratio p).2) ≤ (x.ratio p).2 ↔
      2 * (x.toRat - x.floor p * 10 ^ p) ≤ 10 ^ p := by
  have hd : (0 : ℚ) < (x.ratio p).2 := Nat.cast_pos.2 (ratio_spec x p).1
  have hs : (0 : ℚ) < 10 ^ p := by positivity
  rw [sub_floor, ← mul_assoc, mul_le_iff_le_one_left hs, ← mul_div_assoc, div_le_one hd]
  exact_mod_cast Iff.rfl

theorem le_two_mul_mod_iff :
    (x.ratio p).2 ≤ 2 * ((x.ratio p).1 % (x.ratio p).2) ↔
      10 ^ p ≤ 2 * (x.toRat - x.floor p * 10 ^ p) := by
  have hd : (0 : ℚ) < (x.ratio p).2 := Nat.cast_pos.2 (ratio_spec x p).1
  have hs : (0 : ℚ) < 10 ^ p := by positivity
  rw [sub_floor, ← mul_assoc, le_mul_iff_one_le_left hs, ← mul_div_assoc, one_le_div hd]
  exact_mod_cast Iff.rfl

/-- A point of a grid that is rounded to `x` has a neighbour of `x` between it and `x`. -/
theorem exists_neighbour (h : Rounds (c * 10 ^ p) (some x)) :
    c ≤ x.floor p ∧ x.readsBack (x.floor p) p = true ∨
      x.floor p + 1 ≤ c ∧ x.readsBack (x.floor p + 1) p = true := by
  have hx := x.rounds_self
  rcases Nat.lt_or_ge (x.floor p) c with hlt | hle
  · refine .inr ⟨hlt, readsBack_iff.2 (hx.convex h floor_lt.le ?_ (by positivity))⟩
    have hcast : ((x.floor p + 1 : Nat) : ℚ) ≤ c := by exact_mod_cast hlt
    gcongr
  · refine .inl ⟨hle, readsBack_iff.2 (h.convex hx ?_ (le_floor_iff.1 le_rfl) (by positivity))⟩
    gcongr

theorem isSome_gridPoint? (tie : Tie) (h : Rounds (c * 10 ^ p) (some x)) :
    (gridPoint? tie x p).isSome = true := by
  have hneighbour := exists_neighbour h
  unfold gridPoint?
  unfold floor at hneighbour
  dsimp only
  split
  · split_ifs
    · rfl
    · rfl
    · cases tie <;> rfl
  · rfl
  · rfl
  · next hbelow habove =>
    rw [hbelow, habove] at hneighbour
    rcases hneighbour with ⟨-, h⟩ | ⟨-, h⟩ <;> cases h

/-- Of two neighbours that are rounded to `x` the nearer one is taken. -/
theorem gridPoint?_choice (h : gridPoint? tie x p = some c) :
    c = x.floor p ∧ (x.readsBack (x.floor p + 1) p = true →
      2 * ((x.ratio p).1 % (x.ratio p).2) ≤ (x.ratio p).2) ∨
    c = x.floor p + 1 ∧ (x.readsBack (x.floor p) p = true →
      (x.ratio p).2 ≤ 2 * ((x.ratio p).1 % (x.ratio p).2)) := by
  unfold gridPoint? at h
  unfold floor
  dsimp only at h
  split at h
  · split_ifs at h with h₁ h₂
    · cases h
      exact .inl ⟨rfl, fun _ => h₁.le⟩
    · cases h
      exact .inr ⟨rfl, fun _ => h₂.le⟩
    · cases tie with
      | up =>
        cases h
        exact .inr ⟨rfl, fun _ => Nat.not_lt.1 h₁⟩
      | even =>
        cases h
        rcases Nat.mod_two_eq_zero_or_one ((x.ratio p).1 / (x.ratio p).2) with hmod | hmod
        · rw [hmod]
          exact .inl ⟨rfl, fun _ => Nat.not_lt.1 h₂⟩
        · rw [hmod]
          exact .inr ⟨rfl, fun _ => Nat.not_lt.1 h₁⟩
  · next habove =>
    cases h
    refine .inl ⟨rfl, fun h => ?_⟩
    rw [habove] at h
    cases h
  · next hbelow _ =>
    cases h
    refine .inr ⟨rfl, fun h => ?_⟩
    rw [hbelow] at h
    cases h
  · cases h

theorem gridPoint?_near (h : gridPoint? tie x p = some c) {c' : Nat}
    (h' : Rounds (c' * 10 ^ p) (some x)) :
    |x.toRat - c * 10 ^ p| ≤ |x.toRat - c' * 10 ^ p| := by
  have hchoice := gridPoint?_choice h
  have hneighbour := exists_neighbour h'
  rw [two_mul_mod_le_iff, le_two_mul_mod_iff] at hchoice
  have hlow : (x.floor p : ℚ) * 10 ^ p ≤ x.toRat := le_floor_iff.1 le_rfl
  have hhigh := @floor_lt x p
  have hs : (0 : ℚ) < 10 ^ p := by positivity
  generalize x.floor p = f, (10 : ℚ) ^ p = s at *
  push_cast at hhigh
  rcases hneighbour with ⟨hc, hread⟩ | ⟨hc, hread⟩
  · have hcs : (c' : ℚ) * s ≤ f * s := by gcongr
    rw [abs_of_nonneg (a := x.toRat - c' * s) (by linarith)]
    rcases hchoice with ⟨rfl, -⟩ | ⟨rfl, hdown⟩
    · rw [abs_of_nonneg (by linarith)]
      linarith
    · have := hdown hread
      push_cast
      rw [abs_of_neg (by linarith)]
      linarith
  · have hcs : ((f : ℚ) + 1) * s ≤ c' * s := by
      have : (f : ℚ) + 1 ≤ c' := by exact_mod_cast hc
      gcongr
    rw [abs_of_neg (a := x.toRat - c' * s) (by linarith)]
    rcases hchoice with ⟨rfl, hup⟩ | ⟨rfl, -⟩
    · have := hup hread
      rw [abs_of_nonneg (by linarith)]
      linarith
    · push_cast
      rw [abs_of_neg (by linarith)]
      linarith

/-! ### Seventeen digits -/

/-- Half a step of the seventeenth grid is less than the distance that rounding bridges. -/
theorem exists_rounds_grid (hx : x.isZero = false) :
    ∃ c : Nat, Rounds (c * 10 ^ (x.leadingPower - 16)) (some x) := by
  have hlow := (leadingPower_bounds hx).1
  have hs : (0 : ℚ) < 10 ^ (x.leadingPower - 16) := by positivity
  have hstep : (10 : ℚ) ^ (x.leadingPower - 16) * 10 ^ 16 ≤ x.toRat := by
    rw [← zpow_natCast, ← zpow_add₀ (by norm_num)]
    convert hlow using 2
    push_cast
    ring
  generalize (10 : ℚ) ^ (x.leadingPower - 16) = s at *
  have hx' := toRat_pos hx
  have ht : 0 ≤ x.toRat / s + 1 / 2 := by positivity
  have hle := Nat.floor_le ht
  have hlt := Nat.lt_floor_add_one (x.toRat / s + 1 / 2)
  generalize ⌊x.toRat / s + 1 / 2⌋₊ = c at hle hlt
  have hcs : (c : ℚ) * s ≤ x.toRat + s / 2 := by
    rw [← sub_le_iff_le_add, le_div_iff₀ hs] at hle
    linarith
  have hsc : x.toRat < c * s + s / 2 := by
    have hlt' : x.toRat / s < c + 1 / 2 := by linarith
    rw [div_lt_iff₀ hs] at hlt'
    linarith
  refine ⟨c, rounds_of_near (by positivity) ?_⟩
  rw [abs_lt, lt_div_iff₀ (by norm_num)]
  constructor <;> linarith

/-- Of the grids that have a point for `x` the coarsest has `m` digits behind the leading power, and
`c` is its point. -/
structure FirstGrid (tie : Tie) (x : Magnitude) (m c : Nat) : Prop where
  shortest : x.shortest tie = (c, x.leadingPower - m)
  point : gridPoint? tie x (x.leadingPower - m) = some c
  first : ∀ j c' : Nat, Rounds (c' * 10 ^ (x.leadingPower - j)) (some x) → m ≤ j

theorem exists_firstGrid (tie : Tie) (hx : x.isZero = false) : ∃ m c, FirstGrid tie x m c := by
  obtain ⟨c₀, hc₀⟩ := exists_rounds_grid hx
  have hlast := isSome_gridPoint? tie hc₀
  let grid? (n : Nat) : Option (Nat × Int) :=
    (gridPoint? tie x (x.leadingPower - n)).map (·, x.leadingPower - n)
  cases hfind : (List.range 17).findSome? grid? with
  | some decimal =>
    obtain ⟨before, m, after, hrange, hm, hnone⟩ := List.findSome?_eq_some_iff.1 hfind
    have hbefore := fun j => @mem_of_range_eq_append_cons _ _ _ _ hrange j
    obtain ⟨c, hc, rfl⟩ := Option.map_eq_some_iff.1 hm
    have hshortest : x.shortest tie = (c, x.leadingPower - m) := by
      unfold shortest
      dsimp only
      rw [hfind]
    refine ⟨m, c, hshortest, hc, fun j c' hj => ?_⟩
    by_contra hlt
    have hsome := isSome_gridPoint? tie hj
    rw [Option.map_eq_none_iff.1 (hnone j (hbefore j (by omega)))] at hsome
    cases hsome
  | none =>
    have hnone := List.findSome?_eq_none_iff.1 hfind 16 (by simp)
    rw [Option.map_eq_none_iff] at hnone
    push_cast at hnone
    rw [hnone] at hlast
    cases hlast

/-! ### Other decimals -/

/-- `d` is rounded to `x`, no decimal with fewer digits is, and no other with as many is nearer. -/
structure IsShortest (x : Magnitude) (d : Scientific) : Prop where
  normal : d.IsNormal
  rounds : IsNearest d.toRat (some x)
  fewest : ∀ d' : Scientific, d'.IsNormal → IsNearest d'.toRat (some x) →
    d.digits.length ≤ d'.digits.length
  nearest : ∀ d' : Scientific, d'.IsNormal → IsNearest d'.toRat (some x) →
    d'.digits.length = d.digits.length → |x.toRat - d.toRat| ≤ |x.toRat - d'.toRat|

/-- A decimal that is rounded to `x` is on the grid of its last digit if it has the leading power of
`x`. Otherwise a power of ten lies between the two, and is on the coarsest grid. -/
theorem exists_on_grid (hx : x.isZero = false) {d : Scientific} (hd : d.IsNormal)
    (h : Rounds d.toRat (some x)) :
    d.exponent = x.leadingPower ∨
      x.leadingPower < d.exponent ∧ Rounds ((10 : Nat) * 10 ^ x.leadingPower) (some x) ∨
      d.exponent < x.leadingPower ∧ d.toRat ≤ 10 ^ x.leadingPower ∧
        Rounds ((1 : Nat) * 10 ^ x.leadingPower) (some x) := by
  obtain ⟨hlow, hhigh⟩ := leadingPower_bounds hx
  obtain ⟨hdlow, hdhigh⟩ := hd.bounds
  have hself := x.rounds_self
  rcases lt_trichotomy d.exponent x.leadingPower with hlt | heq | hgt
  · have hpow : (10 : ℚ) ^ (d.exponent + 1) ≤ 10 ^ x.leadingPower :=
      zpow_le_zpow_right₀ (by norm_num) (by omega)
    have hle : d.toRat ≤ 10 ^ x.leadingPower := hdhigh.le.trans hpow
    refine .inr (.inr ⟨hlt, hle, ?_⟩)
    rw [Nat.cast_one, one_mul]
    exact h.convex hself hle hlow (by positivity)
  · exact .inl heq
  · have hpow : (10 : ℚ) ^ (x.leadingPower + 1) ≤ 10 ^ d.exponent :=
      zpow_le_zpow_right₀ (by norm_num) (by omega)
    refine .inr (.inl ⟨hgt, ?_⟩)
    rw [zpow_add₀ (by norm_num), zpow_one, mul_comm] at hpow hhigh
    exact hself.convex h hhigh.le (hpow.trans hdlow) (by positivity)

/-- On the grid that has `m` more digits than the coarsest. -/
theorem gridPoint?_le (hx : x.isZero = false) {m : Nat}
    (h : gridPoint? tie x (x.leadingPower - m) = some c) : c ≤ 10 ^ (m + 1) := by
  have hhigh := (leadingPower_bounds hx).2
  have hlow : (x.floor (x.leadingPower - m) : ℚ) * 10 ^ (x.leadingPower - m) ≤ x.toRat :=
    le_floor_iff.1 le_rfl
  have hs : (0 : ℚ) < 10 ^ (x.leadingPower - m) := by positivity
  have hpow : (10 : ℚ) ^ (x.leadingPower + 1) = 10 ^ (m + 1) * 10 ^ (x.leadingPower - m) := by
    rw [← zpow_natCast, ← zpow_add₀ (by norm_num), Nat.cast_succ, add_right_comm,
      add_sub_cancel]
  rw [hpow] at hhigh
  have hc : c ≤ x.floor (x.leadingPower - m) + 1 := by
    rcases gridPoint?_choice h with ⟨rfl, -⟩ | ⟨rfl, -⟩
    · exact Nat.le_succ _
    · exact le_rfl
  generalize x.floor (x.leadingPower - m) = f at hlow hc
  have hfloor : (f : ℚ) < (10 ^ (m + 1) : Nat) := by
    rw [Nat.cast_pow]
    exact lt_of_mul_lt_mul_right (hlow.trans_lt hhigh) hs.le
  exact hc.trans (Nat.cast_lt.1 hfloor)

namespace FirstGrid

variable {m : Nat} {d : Scientific}

/-- Where a multiple of the leading power is rounded to `x`, the first grid is the coarsest. -/
theorem eq_zero (h : FirstGrid tie x m c) {k : Nat}
    (hk : Rounds (k * 10 ^ x.leadingPower) (some x)) : m = 0 := by
  have := h.first 0 k (by rwa [Nat.cast_zero, sub_zero])
  omega

theorem le_length (h : FirstGrid tie x m c) (hx : x.isZero = false) (hd : d.IsNormal)
    (hr : Rounds d.toRat (some x)) : m + 1 ≤ d.digits.length := by
  have hpos := hd.length_pos
  rcases exists_on_grid hx hd hr with heq | ⟨-, hten⟩ | ⟨-, -, hone⟩
  · rw [Scientific.toRat, heq] at hr
    have := h.first _ _ hr
    omega
  · have := h.eq_zero hten
    omega
  · have := h.eq_zero hone
    omega

theorem near (h : FirstGrid tie x m c) (hx : x.isZero = false) (hd : d.IsNormal)
    (hr : Rounds d.toRat (some x)) (hlength : d.digits.length = m + 1) :
    |x.toRat - c * 10 ^ (x.leadingPower - m)| ≤ |x.toRat - d.toRat| := by
  have hgrid := h.point
  have hdigits : d.digits.length - 1 = m := by omega
  rcases exists_on_grid hx hd hr with heq | ⟨hgt, hten⟩ | ⟨-, hle, hone⟩
  · rw [Scientific.toRat, heq, hdigits] at hr ⊢
    exact gridPoint?_near hgrid hr
  · -- A decimal of one digit, with zeros behind it up to the grid.
    obtain rfl := h.eq_zero hten
    obtain ⟨j, hj⟩ := Int.le.dest hgt.le
    rw [Nat.cast_zero, sub_zero] at hgrid ⊢
    rw [Scientific.toRat, hdigits, Nat.cast_zero, sub_zero,
      ← mul_pow_mul_zpow _ j (show d.exponent = j + x.leadingPower by omega)] at hr ⊢
    exact gridPoint?_near hgrid hr
  · -- The power of ten between `d` and `x` is nearer than `d`.
    obtain rfl := h.eq_zero hone
    rw [Nat.cast_zero, sub_zero] at hgrid ⊢
    have hnear := gridPoint?_near hgrid hone
    have hlow := (leadingPower_bounds hx).1
    rw [Nat.cast_one, one_mul, abs_of_nonneg (a := x.toRat - 10 ^ x.leadingPower) (by linarith)]
      at hnear
    rw [abs_of_nonneg (a := x.toRat - d.toRat) (by linarith)]
    linarith

end FirstGrid

/-- The decimal on the first grid is the shortest. -/
theorem isShortest_ofMagnitude (tie : Tie) (hx : x.isZero = false) :
    x.IsShortest (Scientific.ofMagnitude tie x) := by
  obtain ⟨m, c, hfirst⟩ := exists_firstGrid tie hx
  have happ := approximates_of_gridPoint? hfirst.point
  have hc := happ.ne_zero hx
  rw [Scientific.ofMagnitude, hfirst.shortest]
  dsimp only
  have hrat := Scientific.toRat_ofDecimal hc (x.leadingPower - m)
  have hlength : (Scientific.ofDecimal c (x.leadingPower - m)).digits.length ≤ m + 1 :=
    Digits.length_dropZeros_decimal_le (Nat.succ_pos m) (gridPoint?_le hx hfirst.point)
  have hrounds : ∀ {d : Scientific}, IsNearest d.toRat (some x) → Rounds d.toRat (some x) :=
    fun {d} => (rounds_iff_isNearest d.toRat_nonneg).2
  refine ⟨Scientific.isNormal_ofDecimal hc _, ?_, fun d hd hr => ?_, fun d hd hr heq => ?_⟩
  · rw [hrat]
    exact happ.rounds.isNearest
  · exact hlength.trans (hfirst.le_length hx hd (hrounds hr))
  · rw [hrat]
    have := hfirst.le_length hx hd (hrounds hr)
    exact hfirst.near hx hd (hrounds hr) (by omega)

end Magnitude

end ConfigGate
