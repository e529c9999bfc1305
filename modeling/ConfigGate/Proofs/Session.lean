import Mathlib
import ConfigGate.Session
import ConfigGate.Proofs.Conformance
import ConfigGate.Proofs.Judgement

/-!
# Sessions

What a session leaves behind, for every source and sink (`run_outcomes`). A sink sees the line of a
verdict as a sequence of writes, any of which may be cut. What it holds in the end depends only on
the bytes of the line and its capacity: the statements about `Sink.take` are for every sequence of
writes. The log is settled before the first write.
-/

namespace ConfigGate

/-! ### Sinks -/

namespace Sink

/-- The first bytes of `bytes`, as many as the sink takes. -/
def kept (sink : Sink) (bytes : List UInt8) : List UInt8 :=
  match sink.capacity with
  | none => bytes
  | some n => bytes.take (min n bytes.length)

/-- The sink takes all of `bytes`. -/
def Fits (sink : Sink) (bytes : List UInt8) : Prop := ∀ n, sink.capacity = some n → bytes.length ≤ n

theorem take_none (writes : List (List UInt8)) : take none writes = (writes.flatten, true) := by
  induction writes with
  | nil => rfl
  | cons w writes ih => simp only [take, ih, List.flatten_cons]

theorem take_some (n : Nat) (writes : List (List UInt8)) :
    take (some n) writes = (writes.flatten.take n, decide (writes.flatten.length ≤ n)) := by
  induction writes generalizing n with
  | nil => simp [take]
  | cons w writes ih =>
    rw [take, List.flatten_cons, List.length_append]
    by_cases hw : w.length ≤ n
    · -- The write is taken whole, and the others see the room it leaves.
      rw [if_pos hw, ih, List.take_append, List.take_of_length_le hw]
      have hroom : writes.flatten.length ≤ n - w.length ↔ w.length + writes.flatten.length ≤ n := by
        omega
      simp only [hroom]
    · have hcut : n - w.length = 0 := by omega
      have hmore : ¬ w.length + writes.flatten.length ≤ n := by omega
      rw [if_neg hw, List.take_append, hcut, List.take_zero, List.append_nil,
        decide_eq_false hmore]

theorem bytes_flatten (fragments : List Json.Fragment) :
    (fragments.map Text.bytes).flatten = Text.bytes fragments.flatten := by
  induction fragments with
  | nil => rfl
  | cons f fragments ih =>
    rw [List.map_cons, List.flatten_cons, List.flatten_cons, ih]
    exact List.flatMap_append.symm

/-- A sink holds the first bytes of what is written, however it is cut into fragments, and fails
exactly if it does not take all of it or cannot pass it on. -/
theorem write_spec (sink : Sink) (fragments : List Json.Fragment) :
    (sink.write fragments).1 = sink.kept (Text.bytes fragments.flatten) ∧
      ((sink.write fragments).2 = none ↔
        sink.Fits (Text.bytes fragments.flatten) ∧ sink.flushFailure = none) := by
  rw [← bytes_flatten]
  unfold write kept Fits
  cases sink.capacity with
  | none => simp [take_none]
  | some n =>
    rw [take_some]
    generalize (fragments.map Text.bytes).flatten = bytes
    refine ⟨List.take_eq_take_min, ?_⟩
    by_cases hn : bytes.length ≤ n
    · simp [hn]
    · simp [hn]

end Sink

/-! ### Sources -/

theorem Source.read_of_text {source : Source} {text : String} (hf : source.failure = none)
    (hb : text.toUTF8 = source.bytes) : source.read = .ok text := by
  have hvalid : source.bytes.IsValidUTF8 := hb ▸ text.isValidUTF8
  have htext : String.fromUTF8 source.bytes hvalid = text :=
    String.toByteArray_inj.1 hb.symm
  simp only [read, hf, String.fromUTF8?, dif_pos hvalid, htext]

theorem judge_error_cases {text : List Char} {failure : Failure} (h : judge text = .error failure) :
    (∃ diagnosis, failure = .malformed diagnosis) ∨ ∃ name, failure = .notAnObject name := by
  unfold judge at h
  split at h
  · exact .inl ⟨_, (Except.error.inj h).symm⟩
  · cases h
  · exact .inr ⟨_, (Except.error.inj h).symm⟩

theorem Verdict.events_of_judge {text : List Char} {v : Verdict} (h : judge text = .ok v) :
    (v.ok = false → v.events = [.documentJudged false v.violations.length]) ∧
      (v.ok = true → ∃ r, v.record = some r ∧
        v.events = [.documentJudged true 0, .recordNormalized r]) := by
  obtain ⟨document, -, rfl⟩ := exists_document h
  obtain ⟨hok, hrecord⟩ := ok_iff_record_isSome document
  constructor
  · intro hfalse
    have hnone : (ofDocument document).record = none := by
      by_contra hne
      have := hok.2 (hrecord.2 (Option.isSome_iff_ne_none.2 hne))
      rw [hfalse] at this
      cases this
    simp [events, hfalse, hnone]
  · intro htrue
    have hnil := hok.1 htrue
    obtain ⟨r, hr⟩ := Option.isSome_iff_exists.1 (hrecord.1 hnil)
    exact ⟨r, hr, by simp [events, htrue, hnil, hr]⟩

/-! ### Sessions -/

namespace Session

variable {source : Source} {text : String} (sink : Sink)

theorem run_of_failure {failure : Failure} (hf : source.failure = none)
    (hb : text.toUTF8 = source.bytes) (hj : judge text.toList = .error failure) :
    run source sink = ⟨[], [.documentRead source.bytes.size], some failure⟩ := by
  have hsize : text.utf8ByteSize = source.bytes.size := congrArg ByteArray.size hb
  simp only [run, Source.read_of_text hf hb, hj, hsize]

theorem run_of_verdict {v : Verdict} (hf : source.failure = none)
    (hb : text.toUTF8 = source.bytes) (hj : judge text.toList = .ok v) :
    run source sink = ⟨(sink.write v.fragments).1, .documentRead source.bytes.size :: v.events,
      (sink.write v.fragments).2.map .unwritable⟩ := by
  have hsize : text.utf8ByteSize = source.bytes.size := congrArg ByteArray.size hb
  simp only [run, Source.read_of_text hf hb, hj, hsize]

theorem log_run (source : Source) (sink sink' : Sink) :
    (run source sink').log = (run source sink).log := by
  unfold run
  split
  · rfl
  · dsimp only
    split <;> rfl

/-- What a session leaves behind. If the source fails or is not UTF-8, nothing is written or
logged. If there is no verdict on its text, nothing is written and the log has the size of the
document alone. Otherwise the sink holds the line of the verdict as far as it takes it, in whatever
fragments it comes, the session fails exactly if the line does not fit or cannot be passed on, and
the log has the verdict too, and the record of a document that passes. The log is the same for
every sink. -/
theorem run_outcomes (source : Source) (sink : Sink) :
    let session := run source sink
    (∀ reason, source.failure = some reason →
      session = ⟨[], [], some (.unreadable (.source reason))⟩) ∧
    (source.failure = none → ¬ source.bytes.IsValidUTF8 →
      session = ⟨[], [], some (.unreadable .encoding)⟩) ∧
    (∀ text : String, source.failure = none → text.toUTF8 = source.bytes →
      (∀ failure, judge text.toList = .error failure →
        session = ⟨[], [.documentRead source.bytes.size], some failure⟩ ∧
          ((∃ diagnosis, failure = .malformed diagnosis) ∨
            ∃ name, failure = .notAnObject name)) ∧
      ∀ v, judge text.toList = .ok v →
        let line := Text.bytes v.line
        ((sink.capacity = none → session.output = line) ∧
          ∀ n, sink.capacity = some n → session.output = line.take (min n line.length)) ∧
        (∀ fragments, fragments.flatten = v.line →
          (sink.write fragments).1 = session.output ∧
            ((sink.write fragments).2 = none ↔ session.failure = none)) ∧
        (session.failure = none ↔
          (∀ n, sink.capacity = some n → line.length ≤ n) ∧ sink.flushFailure = none) ∧
        (∀ failure, session.failure = some failure → ∃ reason, failure = .unwritable reason) ∧
        (v.ok = false → session.log =
          [.documentRead source.bytes.size, .documentJudged false v.violations.length]) ∧
        (v.ok = true → ∃ r, v.record = some r ∧ session.log =
          [.documentRead source.bytes.size, .documentJudged true 0, .recordNormalized r])) ∧
    ∀ sink', (run source sink').log = session.log := by
  intro session
  refine ⟨fun reason hf => ?_, fun hf hutf => ?_, fun text hf hb => ⟨fun failure hj => ?_,
    fun v hj => ?_⟩, log_run source sink⟩
  · simp only [session, run, Source.read, hf]
  · simp only [session, run, Source.read, hf, String.fromUTF8?, dif_neg hutf]
  · exact ⟨run_of_failure sink hf hb hj, judge_error_cases hj⟩
  · have hrun := run_of_verdict sink hf hb hj
    obtain ⟨hfail, hpass⟩ := Verdict.events_of_judge hj
    obtain ⟨hkept, hnone⟩ := sink.write_spec v.fragments
    have hfailure : session.failure = none ↔ (sink.write v.fragments).2 = none := by
      simp only [session, hrun, Option.map_eq_none_iff]
    refine ⟨⟨fun hc => ?_, fun n hc => ?_⟩, fun fragments hfragments => ?_,
      hfailure.trans hnone, fun failure h => ?_, fun hok => ?_, fun hok => ?_⟩
    · simp only [session, hrun, hkept, Sink.kept, hc, Verdict.line]
    · simp only [session, hrun, hkept, Sink.kept, hc, Verdict.line]
    · obtain ⟨hkept', hnone'⟩ := sink.write_spec fragments
      rw [hfragments] at hkept' hnone'
      refine ⟨?_, hnone'.trans (hfailure.trans hnone).symm⟩
      simp only [session, hrun, hkept, hkept', Verdict.line]
    · simp only [session, hrun, Option.map_eq_some_iff] at h
      obtain ⟨reason, -, rfl⟩ := h
      exact ⟨reason, rfl⟩
    · simp only [session, hrun, hfail hok]
    · obtain ⟨r, hr, hevents⟩ := hpass hok
      exact ⟨r, hr, by simp only [session, hrun, hevents]⟩

/-- A sink with room for three bytes keeps three bytes of a verdict, and the session fails. -/
theorem run_outcomes_cut :
    let session := run ⟨"\x7b\x7d".toUTF8, none⟩ ⟨some 3, "full", none⟩
    session.output = Text.bytes "\x7b\"o".toList ∧ session.failure ≠ none := by
  intro session
  have hd : Json.Denotes "\x7b\x7d".toList (.object []) := .mk .nil (.emptyObject .nil) .nil
  obtain ⟨⟨-, hcut⟩, -, hfails, -⟩ :=
    ((run_outcomes ⟨"\x7b\x7d".toUTF8, none⟩ ⟨some 3, "full", none⟩).2.2.1 "\x7b\x7d" rfl rfl).2 _
      (judge_of_object hd)
  refine ⟨(hcut 3 rfl).trans (by decide +kernel), ?_⟩
  rw [ne_eq, hfails]
  intro h
  exact absurd (h.1 3 rfl) (by decide +kernel)

end Session

end ConfigGate
