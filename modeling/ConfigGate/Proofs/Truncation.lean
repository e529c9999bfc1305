import Mathlib
import ConfigGate.Proofs.Judgement

/-!
# Truncated documents

A document ends where the bracket that opened it is closed, whatever comes behind, so that a text
cannot be an object and the beginning of a longer one (`judge_append`). A text that is cut off
before this bracket denotes nothing at all: it begins with the bracket of an object and can be no
other value.
-/

namespace ConfigGate

open Json (Denotes Members Reads token?)
open Json.Grammar (Blanks Value NumberOf)

namespace Json

/-- An object is read whatever comes behind it. -/
theorem Parse.reads_object {depth : Nat} {a t : List Char} {ms : Members} (ha : Blanks a)
    (ht : Value NumberOf depth t (.object ms)) (rest : List Char) :
    Reads (Parse.value depth (a ++ (t ++ rest))) (.object ms) rest := by
  refine reads_of_value (fun d _ => value_complete d) ha ht fun n hn => ?_
  cases hn

/-- The text of an object, and that of no other value, begins with a curly bracket. -/
theorem Grammar.Value.isObject_iff {depth : Nat} {c : Char} {r : List Char} {x : Json}
    (h : Value NumberOf depth (c :: r) x) : (∃ ms, x = .object ms) ↔ c = '{' := by
  generalize ht : c :: r = t at h
  cases h with
  | number hn _ =>
    have hc := Parse.numeralText_head hn ht.symm
    exact ⟨nofun, fun h => absurd h (Parse.ne_of_begins hc (by decide))⟩
  | emptyObject | object => exact ⟨fun _ => (List.cons.inj ht).1, fun _ => ⟨_, rfl⟩⟩
  | string hs =>
    cases hs
    obtain ⟨rfl, -⟩ := List.cons.inj ht
    exact ⟨nofun, nofun⟩
  | _ =>
    obtain ⟨rfl, -⟩ := List.cons.inj ht
    exact ⟨nofun, nofun⟩

namespace Denotes

variable {p q : List Char} {x y : Json} {ms : Members}

/-- The first character that counts tells objects from other values. -/
theorem isObject_iff (h : Denotes p x) :
    ∃ a c r, Blanks a ∧ isBlank c = false ∧ p = a ++ c :: r ∧
      ((∃ ms, x = .object ms) ↔ c = '{') := by
  obtain ⟨hb, ht, -⟩ := h
  obtain ⟨c, r, rfl, hblank, -⟩ := ht.head
  exact ⟨_, c, _, hb, hblank, rfl, ht.isObject_iff⟩

/-- A text and a continuation of it denote objects both or neither. -/
theorem isObject_of_append (hp : Denotes p x) (hq : Denotes (p ++ q) (.object ms)) :
    ∃ ms, x = .object ms := by
  obtain ⟨a, c, r, ha, hc, hpc, hx⟩ := hp.isObject_iff
  obtain ⟨a', c', r', ha', hc', hqc, hy⟩ := hq.isObject_iff
  -- The longer text has one first character, seen from both decompositions.
  obtain ⟨t, ht, hv, -⟩ := token?_complete
    (show p ++ q = a ++ c :: (r ++ q) by rw [hpc, List.append_assoc]; rfl) ha hc
  obtain ⟨t', ht', hv', -⟩ := token?_complete hqc ha' hc'
  rw [ht] at ht'
  cases ht'
  exact hx.2 (hv.symm.trans (hv'.trans (hy.1 ⟨ms, rfl⟩)))

theorem blanks_of_append (hp : Denotes p (.object ms)) (hq : Denotes (p ++ q) y) :
    Blanks q ∧ y = .object ms := by
  obtain ⟨hb, ht, -⟩ := hp
  rename_i before t after
  obtain ⟨hlt, hread⟩ := Parse.reads_object hb ht (after ++ q)
  have htext : before ++ (t ++ after) ++ q = before ++ (t ++ (after ++ q)) := by simp
  have hparse := parse_of_denotes hq
  rw [htext] at hparse
  simp only [parse, maxDepth, hread, bind, Except.bind] at hparse
  split at hparse
  · next hnone =>
    refine ⟨fun c hc => token?_eq_none_iff.1 hnone c (List.mem_append_right _ hc), ?_⟩
    exact (Except.ok.inj hparse).symm
  · cases hparse

theorem append_blanks (hp : Denotes p x) (hq : Blanks q) : Denotes (p ++ q) x := by
  obtain ⟨hb, ht, ha⟩ := hp
  rw [List.append_assoc, List.append_assoc]
  exact .mk hb ht (ha.append hq)

end Denotes

end Json

/-- A truncated document is never judged. If a text and a continuation of it are both judged, the
continuation adds blanks only and the verdict is the same, as it always is behind blanks. A text
that a judged document continues by anything but blanks is malformed. -/
theorem judge_append (p q : List Char) :
    (∀ v w, judge p = .ok v → judge (p ++ q) = .ok w →
      (∀ c ∈ q, c = ' ' ∨ c = '\t' ∨ c = '\n' ∨ c = '\r') ∧ judge p = judge (p ++ q)) ∧
    (∀ v, judge p = .ok v → (∀ c ∈ q, c = ' ' ∨ c = '\t' ∨ c = '\n' ∨ c = '\r') →
      judge (p ++ q) = .ok v) ∧
    (∀ w, judge (p ++ q) = .ok w →
      (∃ c ∈ q, ¬ (c = ' ' ∨ c = '\t' ∨ c = '\n' ∨ c = '\r')) →
      ∃ diagnosis, judge p = .error (.malformed diagnosis)) := by
  have hblank : ∀ c, Json.isBlank c = true ↔ c = ' ' ∨ c = '\t' ∨ c = '\n' ∨ c = '\r' := by
    intro c
    rw [Json.Grammar.isBlank_eq_true_iff]
    tauto
  refine ⟨fun v w hv hw => ?_, fun v hv hq => ?_, fun w hw hq => ?_⟩
  · obtain ⟨d, hd, rfl⟩ := exists_document hv
    obtain ⟨d', hd', rfl⟩ := exists_document hw
    obtain ⟨hq, hdd⟩ := hd.blanks_of_append hd'
    refine ⟨fun c hc => (hblank c).1 (hq c hc), ?_⟩
    rw [hv, hw, Json.object.inj hdd]
  · obtain ⟨d, hd, rfl⟩ := exists_document hv
    exact judge_of_object (hd.append_blanks fun c hc => (hblank c).2 (hq c hc))
  · obtain ⟨d', hd', rfl⟩ := exists_document hw
    obtain ⟨c, hc, hne⟩ := hq
    refine judge_of_nothing fun x hx => ?_
    obtain ⟨d, rfl⟩ := hx.isObject_of_append hd'
    exact hne ((hblank c).1 ((hx.blanks_of_append hd').1 c hc))

/-- The only bracket of an empty document cut off. -/
theorem judge_append_bracket : ∃ diagnosis, judge ['{'] = .error (.malformed diagnosis) := by
  have hd : Denotes ['{', '}'] (.object []) := .mk .nil (.emptyObject .nil) .nil
  exact (judge_append ['{'] ['}']).2.2 _ (judge_of_object hd) ⟨'}', by simp, by decide⟩

end ConfigGate
