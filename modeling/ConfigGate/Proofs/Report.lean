import Mathlib
import ConfigGate.Proofs.VerdictLine

/-!
# Reports

The steps of a report fall into groups: a step that appends a violation, and the steps behind it
that add to its context. Each group yields one violation, and steps before the first group find
nothing to change (`Accounts`). Every step keeps this up, so it holds along a whole history
(`history_reports`). The line of the verdict has the entries of each context in their order.
-/

namespace ConfigGate

open Json (Member Members)
open Json.Write (memberText write_array write_object)
open Json.Grammar (intercalate_cons)

/-! ### Lines -/

namespace Violation

/-- A violation as it stands in the line of a verdict. -/
def text (e : Violation) : List Char := e.toJson.write Verdict.style

/-- What the text of a violation begins with, whatever its context. -/
def opening (e : Violation) : List Char :=
  '{' :: [',', ' '].intercalate
    ([("type", .string e.kind.name),
      ("loc", .array (e.path.map .string)),
      ("msg", .string e.message),
      ("input", e.input)].map (memberText Verdict.style))

theorem text_of_none {e : Violation} (h : e.context = none) : e.text = e.opening ++ ['}'] := by
  rw [text, toJson, h, write_object]
  rfl

theorem text_of_some {e : Violation} {context : Members} (h : e.context = some context) :
    e.text = e.opening ++ (", \"ctx\": \x7b".toList ++
      ([',', ' '].intercalate (context.map (memberText Verdict.style)) ++ ['}', '}'])) := by
  have hkey : (Json.Write.string "ctx").flatten = "\"ctx\"".toList := rfl
  have hlast : memberText Verdict.style ("ctx", .object context) = "\"ctx\": \x7b".toList ++
      ([',', ' '].intercalate (context.map (memberText Verdict.style)) ++ ['}']) := by
    rw [memberText, hkey, write_object]
    rfl
  rw [text, toJson, h, write_object, opening, Option.elim_some, List.map_append, List.map_singleton,
    hlast, List.map_cons, List.cons_append, intercalate_cons, intercalate_cons]
  simp [Verdict.style]

end Violation

namespace Verdict

theorem line_ofViolations (vs : List Violation) :
    (ofViolations vs).line =
      "\x7b\"ok\": ".toList ++ ((if vs.isEmpty then "true" else "false").toList ++
        (", \"errors\": [".toList ++
          ([',', ' '].intercalate (vs.map Violation.text) ++ "]\x7d\n".toList))) := by
  have hok : ∀ b, memberText style ("ok", .bool b) =
      "\"ok\": ".toList ++ (if b then "true" else "false").toList := by
    intro b
    cases b <;> rfl
  have hkey : (Json.Write.string "errors").flatten = "\"errors\"".toList := rfl
  have herrors : memberText style ("errors", .array (vs.map Violation.toJson)) =
      "\"errors\": [".toList ++ ([',', ' '].intercalate (vs.map Violation.text) ++ [']']) := by
    rw [memberText, hkey, write_array, List.map_map]
    rfl
  rw [line_eq, toJson, ofViolations, write_object, List.map_cons, List.map_singleton,
    intercalate_cons, List.flatMap_singleton, hok, herrors]
  simp [style]

end Verdict

namespace Report

/-! ### Histories -/

theorem length_history (vs : List Violation) (steps : List Step) :
    (history vs steps).length = steps.length + 1 := by
  induction steps generalizing vs with
  | nil => rfl
  | cons s steps ih => rw [history, List.length_cons, ih, List.length_cons]

/-- An entry of a history is what the steps up to there make of the first one. -/
theorem getElem?_history (vs : List Violation) {steps : List Step} {n : Nat}
    (h : n ≤ steps.length) :
    (history vs steps)[n]? = some ((steps.take n).foldl step vs) := by
  induction steps generalizing vs n with
  | nil =>
    obtain rfl := Nat.le_zero.1 h
    rfl
  | cons s steps ih =>
    cases n with
    | zero => rfl
    | succ n => exact ih _ (Nat.le_of_succ_le_succ h)

theorem modifyLast_append {α : Type} (f : α → α) (xs : List α) (x : α) :
    modifyLast f (xs ++ [x]) = xs ++ [f x] := by
  induction xs with
  | nil => rfl
  | cons y xs ih =>
    cases xs with
    | nil => rfl
    | cons z xs => exact congrArg (y :: ·) ih

/-- `vs'` is `vs` but for the context of the last violation, if there is one. -/
inductive Reframes : List Violation → List Violation → Prop where
  | nil : Reframes [] []
  | last (front : List Violation) (e : Violation) (context : Option Members) :
      Reframes (front ++ [e]) (front ++ [{ e with context }])

theorem reframes_step (vs : List Violation) (key : String) (value : Json) :
    Reframes vs (step vs (.context key value)) := by
  rcases List.eq_nil_or_concat vs with rfl | ⟨front, e, rfl⟩
  · exact .nil
  · rw [List.concat_eq_append, step, modifyLast_append]
    exact .last front e _

/-! ### Groups -/

/-- A violation that is appended, and the entries that are added to its context in their order. -/
structure Group where
  violation : Violation
  entries : List Member

namespace Group

def steps (g : Group) : List Step := .append g.violation :: g.entries.map fun m => .context m.1 m.2

def add (g : Group) (m : Member) : Group := { g with entries := g.entries ++ [m] }

theorem steps_add (g : Group) (m : Member) : (g.add m).steps = g.steps ++ [.context m.1 m.2] := by
  simp [steps, add]

/-- `e` is the violation of the group with the entries as its context: no context if there are none,
and else every key at the place of its first entry and with the value of its last. -/
structure Yields (g : Group) (e : Violation) : Prop where
  same : e = { g.violation with context := e.context }
  none_iff : e.context = none ↔ g.entries = []
  merges : ∀ context, e.context = some context →
    (Members.keys context).Nodup ∧ Members.Merges g.entries context

theorem yields_ofField (kind : Violation.Kind) (field message : String) (input : Json) :
    (Group.mk (.ofField kind field message input) []).Yields (.ofField kind field message input) :=
  ⟨rfl, by simp [Violation.ofField], by simp [Violation.ofField]⟩

variable {g : Group} {e : Violation}

theorem Yields.getD_context (h : g.Yields e) : e.context.getD [] = Members.ofList g.entries := by
  cases hc : e.context with
  | none =>
    rw [h.none_iff.1 hc]
    rfl
  | some context => exact Members.merges_iff.1 (h.merges context hc).2

theorem Yields.withContext (h : g.Yields e) (m : Member) :
    (g.add m).Yields (e.withContext m.1 m.2) := by
  have hcontext : (e.withContext m.1 m.2).context = some (Members.ofList (g.entries ++ [m])) := by
    rw [Members.ofList_append_singleton, ← h.getD_context]
    rfl
  have hmerges : Members.Merges (g.entries ++ [m]) (Members.ofList (g.entries ++ [m])) :=
    Members.merges_ofList _
  refine ⟨?_, ?_, fun context hc => ?_⟩
  · rw [h.same]
    rfl
  · simp [hcontext, add]
  · obtain rfl := Option.some.inj (hcontext.symm.trans hc)
    exact ⟨hmerges.nodup, hmerges⟩

end Group

/-- The steps are groups one after the other, and `vs` has what each of them yields. Before the
first group there is no violation to add to. -/
inductive Accounts : List Step → List Violation → Prop where
  | lead {steps : List Step} (h : ∀ s ∈ steps, ∃ key value, s = .context key value) :
      Accounts steps []
  | group {steps : List Step} {vs : List Violation} {g : Group} {e : Violation}
      (h : Accounts steps vs) (hg : g.Yields e) : Accounts (steps ++ g.steps) (vs ++ [e])

namespace Accounts

variable {steps : List Step} {vs : List Violation}

theorem eq_nil_iff (h : Accounts steps vs) : vs = [] ↔ ∀ v, .append v ∉ steps := by
  cases h with
  | lead hlead =>
    refine ⟨fun _ v hv => ?_, fun _ => rfl⟩
    obtain ⟨key, value, hs⟩ := hlead _ hv
    cases hs
  | @group steps vs g e h hg =>
    have hmem : .append g.violation ∈ steps ++ g.steps :=
      List.mem_append_right _ List.mem_cons_self
    exact ⟨fun hnil => by simp at hnil, fun hno => absurd hmem (hno _)⟩

theorem context (h : Accounts steps vs) (key : String) (value : Json) :
    Accounts (steps ++ [.context key value]) (step vs (.context key value)) := by
  cases h with
  | lead hlead =>
    refine .lead fun s hs => ?_
    rcases List.mem_append.1 hs with hs | hs
    · exact hlead s hs
    · exact ⟨key, value, List.mem_singleton.1 hs⟩
  | @group steps vs g e h hg =>
    rw [List.append_assoc, ← g.steps_add (key, value), step, modifyLast_append]
    exact h.group (hg.withContext (key, value))

/-- The context of an appended violation has nothing in it, and its group no entries. -/
theorem step (h : Accounts steps vs) {s : Step} (hnew : ∀ v, s = .append v →
      ∃ kind field message input, v = .ofField kind field message input) :
    Accounts (steps ++ [s]) (step vs s) := by
  cases s with
  | append v =>
    obtain ⟨kind, field, message, input, rfl⟩ := hnew v rfl
    exact h.group (Group.yields_ofField kind field message input)
  | context key value => exact h.context key value

end Accounts

theorem accounts_foldl {steps : List Step} (hnew : ∀ v, .append v ∈ steps →
      ∃ kind field message input, v = .ofField kind field message input) :
    Accounts steps (steps.foldl step []) := by
  induction steps using List.reverseRecOn with
  | nil => exact .lead (by simp)
  | append_singleton steps s ih =>
    rw [List.foldl_append, List.foldl_cons, List.foldl_nil]
    refine (ih fun v hv => hnew v (List.mem_append_left _ hv)).step ?_
    rintro v rfl
    exact hnew v (by simp)

/-- Along a history of new violations and of entries for them: a verdict passes exactly if no
violation was appended, the steps so far account for the violations and their contexts, the next
entry changes nothing but the context of the last violation, and the line of the verdict has the
entries of every context in their order. -/
theorem history_reports (steps : List Step) (hnew : ∀ v, .append v ∈ steps →
      ∃ kind field message input, v = .ofField kind field message input) :
    (history [] steps).length = steps.length + 1 ∧
    ∀ n vs, (history [] steps)[n]? = some vs →
      ((Verdict.ofViolations vs).ok = true ↔ ∀ v, .append v ∉ steps.take n) ∧
      Accounts (steps.take n) vs ∧
      (∀ key value, steps[n]? = some (.context key value) →
        ∃ vs', (history [] steps)[n + 1]? = some vs' ∧ Reframes vs vs') ∧
      (Verdict.ofViolations vs).line =
        "\x7b\"ok\": ".toList ++ ((if vs.isEmpty then "true" else "false").toList ++
          (", \"errors\": [".toList ++
            ([',', ' '].intercalate (vs.map Violation.text) ++ "]\x7d\n".toList))) ∧
      ∀ e ∈ vs, (e.context = none → e.text = e.opening ++ ['}']) ∧
        ∀ context, e.context = some context →
          e.text = e.opening ++ (", \"ctx\": \x7b".toList ++
            ([',', ' '].intercalate (context.map (memberText Verdict.style)) ++ ['}', '}'])) := by
  refine ⟨length_history [] steps, fun n vs hvs => ?_⟩
  have hn : n ≤ steps.length := by
    have hlt := (List.getElem?_eq_some_iff.1 hvs).1
    rw [length_history] at hlt
    exact Nat.le_of_lt_succ hlt
  obtain rfl := Option.some.inj ((getElem?_history [] hn).symm.trans hvs)
  have haccounts : Accounts (steps.take n) ((steps.take n).foldl step []) :=
    accounts_foldl fun v hv => hnew v (List.mem_of_mem_take hv)
  refine ⟨?_, haccounts, fun key value hs => ?_, Verdict.line_ofViolations _,
    fun e _ => ⟨Violation.text_of_none, fun context => Violation.text_of_some⟩⟩
  · rw [← haccounts.eq_nil_iff]
    exact List.isEmpty_iff
  · have hlt := (List.getElem?_eq_some_iff.1 hs).1
    refine ⟨_, getElem?_history [] hlt, ?_⟩
    rw [List.take_add_one, hs, Option.toList_some, List.foldl_append]
    exact reframes_step _ key value

/-- An entry before all violations is lost. Behind a violation, the second entry with a key replaces
the value of the first and keeps its place. -/
theorem history_reports_repeated_key :
    let first := Violation.ofField .uuidParsing "id" "" .null
    let second := Violation.ofField .missing "mode" "" .null
    let told := { first with context := some [("error", .bool false), ("at", .null)] }
    let steps := [.context "lost" .null, .append first, .context "error" (.bool true),
      .context "at" .null, .context "error" (.bool false), .append second]
    (history [] steps)[6]? = some [told, second] ∧ Accounts steps [told, second] ∧
      told.text =
        told.opening ++ ", \"ctx\": \x7b\"error\": false, \"at\": null\x7d\x7d".toList := by
  intro first second told steps
  have hnew : ∀ v, .append v ∈ steps →
      ∃ kind field message input, v = .ofField kind field message input := by
    intro v hv
    simp only [steps, List.mem_cons, Step.append.injEq, reduceCtorEq, false_or, or_false,
      List.not_mem_nil] at hv
    rcases hv with rfl | rfl
    all_goals exact ⟨_, _, _, _, rfl⟩
  have hend : (history [] steps)[6]? = some [told, second] := rfl
  obtain ⟨-, haccounts, -, -, htext⟩ := (history_reports steps hnew).2 6 _ hend
  exact ⟨hend, haccounts, (htext told List.mem_cons_self).2 _ rfl⟩

end Report

end ConfigGate
