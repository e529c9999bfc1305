import Mathlib
import ConfigGate.Proofs.Json.Accuracy
import ConfigGate.Proofs.Json.Escape
import ConfigGate.Proofs.Json.Float
import ConfigGate.Proofs.Judgement
import ConfigGate.Proofs.Locality
import ConfigGate.Proofs.Text

/-!
# Ranges of numbers

Whether a number lies within the bounds of its field is decided on the float that its literal is
read as, which need not be the nearest one. The decision is right all the same for every literal
within the bounds, and for every literal that misses a bound by a ten-thousandth (`judge_ranges`).
`LastMember` finds the literal in the text: of the members with one key the last one counts.
-/

namespace ConfigGate

open Json (Denotes Members)
open Json.Grammar

/-! ### The member that counts -/

namespace Json.Grammar

/-- The text is an object, and `t` is the text of the value of its last member named `key`. -/
inductive LastMember : List Char → String → List Char → Prop where
  | mk {before after : List Char} {front back : List Entry} {e : Entry} (hb : Blanks before)
      (ha : Blanks after) (pad : ∀ m ∈ front ++ e :: back, m.IsPadded)
      (keys : ∀ m ∈ front ++ e :: back, StringText m.keyText m.key)
      (values : ∀ m ∈ front ++ e :: back, Value NumberOf 126 m.item.text m.item.value)
      (last : ∀ m ∈ back, m.key ≠ e.key) :
      LastMember (before ++ ('{' :: (separated ((front ++ e :: back).map (·.written)) ++ ['}']) ++
        after)) e.key e.item.text

variable {text t : List Char} {key : String} {n : Numeral} {x : Json}

theorem LastMember.denotes (h : LastMember text key t) :
    ∃ (document : Members) (x : Json), Denotes text (.object document) ∧
      document.get? key = some x ∧ Value NumberOf 126 t x := by
  obtain ⟨hb, ha, pad, keys, values, last⟩ := h
  rename_i front back e
  have hmerges := Members.merges_ofList ((front ++ e :: back).map (·.member))
  refine ⟨_, e.item.value,
    .mk hb (.object (front ++ e :: back) (by simp) pad keys values hmerges) ha, ?_,
    values e (by simp)⟩
  rw [hmerges.get?_eq, Members.get?_reverse_eq_some_iff]
  refine ⟨front.map (·.member), back.map (·.member), by simp [Entry.member], ?_⟩
  intro m hm
  obtain ⟨e', he', rfl⟩ := List.mem_map.1 hm
  exact last e' he'

theorem exists_lastMember {document : Members} (h : Denotes text (.object document))
    (hx : document.get? key = some x) : ∃ t, LastMember text key t ∧ Value NumberOf 126 t x := by
  obtain ⟨hb, ht, ha⟩ := h
  cases ht with
  | emptyObject => cases hx
  | object entries ne pad keys values merges =>
    rw [merges.get?_eq, Members.get?_reverse_eq_some_iff] at hx
    obtain ⟨front, back, hsplit, hlast⟩ := hx
    obtain ⟨front, rest, rfl, rfl, hrest⟩ := List.map_eq_append_iff.1 hsplit
    obtain ⟨e, back, rfl, he, rfl⟩ := List.map_eq_cons_iff.1 hrest
    obtain ⟨rfl, rfl⟩ := Prod.mk.inj he
    refine ⟨e.item.text, .mk hb ha pad keys values fun m hm => ?_, values e (by simp)⟩
    exact hlast m.member (List.mem_map_of_mem hm)

theorem NumeralText.unique {m : Numeral} (hn : NumeralText t n) (hm : NumeralText t m) : n = m := by
  have hnil : Scan.Follow [] := by simp [Scan.Follow]
  exact ((Scan.numeral_complete hn hnil).unique (Scan.numeral_complete hm hnil)).1

theorem NumeralText.length_whole_le (h : NumeralText t n) : n.whole.length ≤ t.length := by
  cases h
  simp only [List.length_append, List.length_map]
  omega

/-- A value whose text is a numeral is the number of this numeral. -/
theorem Value.number_of_numeralText {depth : Nat} (h : Value NumberOf depth t x)
    (hn : NumeralText t n) : ∃ y, x = .number y ∧ NumberOf n y := by
  obtain ⟨c, r, rfl, -⟩ := h.head
  have hc := Parse.numeralText_head hn rfl
  cases h with
  | number hm hy => exact ⟨_, rfl, hn.unique hm ▸ hy⟩
  | string hs =>
    generalize ht : c :: r = t at hs
    cases hs
    exact absurd (List.cons.inj ht).1 (Parse.ne_of_begins hc (by decide))
  | _ => exact absurd rfl (Parse.ne_of_begins hc (by decide))

end Json.Grammar

/-! ### Signed bounds -/

/-- The number that a numeral stands for. -/
def Numeral.signedRat (n : Numeral) : ℚ := if n.negative then -n.toRat else n.toRat

open Json.Number (Sides Tracks IsBound)

/-- An integer whose sides are kept, with either sign. -/
structure IsLimit (b : Int) : Prop where
  bound : IsBound b.natAbs
  three_le : 3 ≤ b.natAbs

theorem Numeral.sides {n : Numeral} {g : Magnitude} (h : Tracks n.toRat g) {b : Int}
    (hb : IsLimit b) : Sides n.signedRat (Binary64.signedRat n.negative g) b := by
  have hsame := h hb.bound hb.three_le
  have hq := n.toRat_nonneg
  have hg := g.toRat_nonneg
  have hpos : (0 : ℚ) < b.natAbs := Nat.cast_pos.2 (by have := hb.three_le; omega)
  have hother : Sides (-n.toRat) (-g.toRat) b.natAbs := .of_lt (by linarith) (by linarith)
  rw [signedRat, Binary64.signedRat]
  rcases Int.natAbs_eq b with hb' | hb'
  · have hcast : (b : ℚ) = b.natAbs := by
      rw [hb', Int.natAbs_natCast, Int.cast_natCast]
    rw [hcast]
    cases n.negative with
    | false => exact hsame
    | true => exact hother
  · have hcast : (b : ℚ) = -b.natAbs := by
      rw [hb', Int.natAbs_neg, Int.natAbs_natCast, Int.cast_neg, Int.cast_natCast]
    rw [hcast]
    cases n.negative with
    | false =>
      have := hother.neg
      rwa [neg_neg, neg_neg] at this
    | true => exact hsame.neg

/-! ### The verdict on a number -/

namespace Coercion

variable (field : String) {x : Json.Number} {s : Bool} {g : Magnitude} {ge le : Int32}

theorem number_of_below (le : Int32) (hx : x.toBinary64 = .finite s g)
    (h : Binary64.signedRat s g < ge.toInt) :
    ∃ e, number field (.number x) ge le = .error e ∧ e.kind = .greaterThanEqual := by
  have hbelow := Binary64.isBelow_iff_signedRat.2 h
  simp only [number, readNumber, bind, Except.bind, hx, hbelow, Bool.or_true, if_true]
  exact ⟨_, rfl, rfl⟩

theorem number_of_above (hx : x.toBinary64 = .finite s g)
    (hge : ge.toInt ≤ Binary64.signedRat s g) (h : le.toInt < Binary64.signedRat s g) :
    ∃ e, number field (.number x) ge le = .error e ∧ e.kind = .lessThanEqual := by
  have habove := Binary64.isAbove_iff_signedRat.2 h
  have hbelow : (Binary64.finite s g).isBelow ge.toInt = false := by
    rw [Bool.eq_false_iff, ne_eq, Binary64.isBelow_iff_signedRat, not_lt]
    exact hge
  simp only [number, readNumber, bind, Except.bind, hx, hbelow, habove, Binary64.isNaN,
    Bool.or_false, if_true]
  exact ⟨_, rfl, rfl⟩

end Coercion

theorem Verdict.against_number {document : Members} {name : String} {ge le : Int32}
    {x : Json.Number} {n : Numeral} (hf : ⟨name, .number ge le⟩ ∈ schema)
    (hget : document.get? name = some (.number x)) (hx : NumberOf n x)
    (hlen : n.whole.length ≤ 2 ^ 31) (hge : IsLimit ge.toInt) (hle : IsLimit le.toInt)
    (hgl : ge.toInt ≤ le.toInt) :
    (ge.toInt ≤ n.signedRat ∧ n.signedRat ≤ le.toInt → (ofDocument document).against name = []) ∧
    (n.signedRat ≤ ge.toInt - 1 / 10000 →
      ((ofDocument document).against name).map (·.kind) = [.greaterThanEqual]) ∧
    (le.toInt + 1 / 10000 ≤ n.signedRat →
      ((ofDocument document).against name).map (·.kind) = [.lessThanEqual]) := by
  obtain ⟨g, hg, htracks⟩ := hx.tracks hlen
  have hlow := n.sides htracks hge
  have hhigh := n.sides htracks hle
  have hcheck : Field.check document ⟨name, .number ge le⟩ =
      (Coercion.number name (.number x) ge le).map .number := Field.check_of_get? hget
  refine ⟨fun hq => ?_, fun hq => ?_, fun hq => ?_⟩
  · have hread : Coercion.readNumber name (.number x) = .ok (.finite n.negative g) :=
      congrArg Except.ok hg
    have hok := Coercion.number_eq_ok_iff.2 ⟨hread,
      Binary64.between_iff_signedRat.2 ⟨hlow.ge hq.1, hhigh.le hq.2⟩⟩
    rw [hok] at hcheck
    exact against_of_ok hf hcheck
  · obtain ⟨e, he, hkind⟩ := Coercion.number_of_below name le hg (hlow.lt hq)
    rw [he] at hcheck
    rw [against_of_error hf hcheck, List.map_singleton, hkind]
  · have hgl' : (ge.toInt : ℚ) ≤ le.toInt := by exact_mod_cast hgl
    obtain ⟨e, he, hkind⟩ := Coercion.number_of_above name hg
      (hlow.ge (by linarith)) (hhigh.gt hq)
    rw [he] at hcheck
    rw [against_of_error hf hcheck, List.map_singleton, hkind]

/-- Whatever literal decides about the temperature or the pressure of a document, as long as it has
fewer than 2^31 bytes: there is no violation if its exact value is within the bounds, and one of the
bound that it misses by a ten-thousandth or more. Every number of a document has such a literal. -/
theorem judge_ranges {raw : List Char} {v : Verdict} (hv : judge raw = .ok v) :
    (∀ literal n, LastMember raw "temperature" literal → NumeralText literal n →
      Text.byteCount literal < 2 ^ 31 →
      (-50 ≤ n.signedRat ∧ n.signedRat ≤ 150 → v.against "temperature" = []) ∧
      (n.signedRat ≤ -50.0001 →
        (v.against "temperature").map (·.kind) = [.greaterThanEqual]) ∧
      (150.0001 ≤ n.signedRat →
        (v.against "temperature").map (·.kind) = [.lessThanEqual])) ∧
    (∀ literal n, LastMember raw "pressure" literal → NumeralText literal n →
      Text.byteCount literal < 2 ^ 31 →
      (800 ≤ n.signedRat ∧ n.signedRat ≤ 1200 → v.against "pressure" = []) ∧
      (n.signedRat ≤ 799.9999 → (v.against "pressure").map (·.kind) = [.greaterThanEqual]) ∧
      (1200.0001 ≤ n.signedRat → (v.against "pressure").map (·.kind) = [.lessThanEqual])) ∧
    ∀ (document : Members) key x, Denotes raw (.object document) →
      document.get? key = some (.number x) →
      ∃ literal n, LastMember raw key literal ∧ NumeralText literal n ∧ NumberOf n x := by
  obtain ⟨document, hd, rfl⟩ := exists_document hv
  have hfind : ∀ {name literal n}, LastMember raw name literal → NumeralText literal n →
      Text.byteCount literal < 2 ^ 31 → ∃ x, Members.get? name document = some (.number x) ∧
        NumberOf n x ∧ n.whole.length ≤ 2 ^ 31 := by
    intro name literal n hl hn hsize
    obtain ⟨document', x, hd', hget, hvalue⟩ := hl.denotes
    obtain rfl := Json.object.inj (hd.unique hd')
    obtain ⟨y, rfl, hy⟩ := hvalue.number_of_numeralText hn
    have hlen := hn.length_whole_le.trans (Text.length_le_byteCount literal)
    exact ⟨y, hget, hy, by omega⟩
  refine ⟨fun literal n hl hn hsize => ?_, fun literal n hl hn hsize => ?_,
    fun document' key x hd' hx => ?_⟩
  · obtain ⟨x, hget, hx, hlen⟩ := hfind hl hn hsize
    have hf : ⟨"temperature", .number (-50) 150⟩ ∈ schema := by decide
    have h := Verdict.against_number hf hget hx hlen
      ⟨⟨by decide, by decide⟩, by decide⟩ ⟨⟨by decide, by decide⟩, by decide⟩ (by decide)
    have hge : (-50 : Int32).toInt = -50 := by decide
    have hle : (150 : Int32).toInt = 150 := by decide
    norm_num [hge, hle] at h ⊢
    exact h
  · obtain ⟨x, hget, hx, hlen⟩ := hfind hl hn hsize
    have hf : ⟨"pressure", .number 800 1200⟩ ∈ schema := by decide
    have h := Verdict.against_number hf hget hx hlen
      ⟨⟨by decide, by decide⟩, by decide⟩ ⟨⟨by decide, by decide⟩, by decide⟩ (by decide)
    have hge : (800 : Int32).toInt = 800 := by decide
    have hle : (1200 : Int32).toInt = 1200 := by decide
    norm_num [hge, hle] at h ⊢
    exact h
  · obtain ⟨literal, hl, hvalue⟩ := exists_lastMember hd' hx
    cases hvalue with
    | number hn hx => exact ⟨literal, _, hl, hn, hx⟩

/-- Of two temperatures the last one counts, here with its point moved by an exponent. -/
theorem judge_ranges_repeated :
    ∃ v, judge "\x7b\"temperature\":null,\"temperature\":1500001e-4\x7d".toList = .ok v ∧
      (v.against "temperature").map (·.kind) = [.lessThanEqual] := by
  let n : Numeral := ⟨false, [1, 5, 0, 0, 0, 0, 1], [], some ⟨true, [4]⟩⟩
  have hn : NumeralText "1500001e-4".toList n :=
    @NumeralText.mk n.whole [] n.exponent [] _ false ⟨by decide, by decide⟩ .absent
      (@ExponentText.digits 'e' ['-'] true [4] (.inl rfl) .minus (by decide))
  have hq : n.toRat = 150.0001 := by
    have hc : n.coefficient = 1500001 := by decide
    have hp : n.power = -4 := by decide
    rw [Numeral.toRat, hc, hp]
    norm_num
  obtain ⟨g, hg, -⟩ := Json.Number.ofFractional_le (n := n) (b := 2000) ⟨by decide, by decide⟩
    (by rw [hq]; norm_num) (by simp [n])
  have hx : NumberOf n (.float false g) :=
    .float (fun i hi => absurd hi (Json.Grammar.not_isInteger (by decide) i)) hg
  -- The two members, without blanks.
  let entry (t : List Char) (x : Json) : Entry :=
    ⟨[], "\"temperature\"".toList, [], "temperature", ⟨[], t, [], x⟩⟩
  have hpad : ∀ t x, (entry t x).IsPadded := fun t x => ⟨.nil, .nil, .nil, .nil⟩
  have hkey : ∀ t x, StringText (entry t x).keyText (entry t x).key :=
    fun t x => Json.Write.stringText_string "temperature"
  have hl : LastMember "\x7b\"temperature\":null,\"temperature\":1500001e-4\x7d".toList
      "temperature" "1500001e-4".toList :=
    @LastMember.mk [] [] [entry "null".toList .null] []
      (entry "1500001e-4".toList (.number (.float false g))) .nil .nil
      (by simp [hpad]) (by simp [hkey])
      (List.forall_mem_cons.2 ⟨.null, List.forall_mem_singleton.2 (.number hn hx)⟩) (by simp)
  obtain ⟨document, x, hd, -⟩ := hl.denotes
  have hv := judge_of_object hd
  refine ⟨_, hv, ((judge_ranges hv).1 _ n hl hn (by decide)).2.2 ?_⟩
  rw [Numeral.signedRat, if_neg (by decide), hq]

end ConfigGate
