import Mathlib
import ConfigGate.Command
import ConfigGate.Proofs.Session

/-!
# The command line

What the program ends with, for all arguments and for everything on its standard input
(`ofArguments_exits`). Without arguments, or with two dashes alone, the exit code tells whether
there is a verdict, and the standard output has its line or nothing. All other arguments are settled
before the standard input matters.
-/

namespace ConfigGate

open Json (Denotes)

/-! ### Requests -/

namespace Request

/-- The text that an argument asks for. Of the letters behind one dash the first counts. -/
inductive Asks : String → String → Prop where
  | help : Asks "--help" helpText
  | version : Asks "--version" versionText
  | helpLetter {argument : String} {letters : List Char}
      (h : argument.toList = '-' :: 'h' :: letters) : Asks argument summaryText
  | versionLetter {argument : String} {letters : List Char}
      (h : argument.toList = '-' :: 'V' :: letters) : Asks argument versionText

/-- An argument asks for a text, or is reported. -/
theorem ofArgument_cases (argument : String) :
    (∃ shown, Asks argument shown ∧ ofArgument argument ≠ judge ∧
      ∀ stdin, Outcome.ofRequest stdin (ofArgument argument) = .ofText shown) ∨
    ((∀ shown, ¬ Asks argument shown) ∧ ∃ reported, ofArgument argument = unexpected reported) := by
  unfold ofArgument
  split_ifs with hhelp hversion
  · exact .inl ⟨helpText, hhelp ▸ .help, nofun, fun _ => rfl⟩
  · exact .inl ⟨versionText, hversion ▸ .version, nofun, fun _ => rfl⟩
  · split
    · next c letters harg =>
      split_ifs with hdash
      · refine .inr ⟨fun shown hasks => ?_, argument, rfl⟩
        subst hdash
        cases hasks with
        | help => exact hhelp rfl
        | version => exact hversion rfl
        | helpLetter h | versionLetter h => simp [harg] at h
      · unfold ofLetter
        split_ifs with hh hv
        · exact .inl ⟨summaryText, .helpLetter (hh ▸ harg), nofun, fun _ => rfl⟩
        · exact .inl ⟨versionText, .versionLetter (hv ▸ harg), nofun, fun _ => rfl⟩
        · refine .inr ⟨fun shown hasks => ?_, _, rfl⟩
          cases hasks with
          | help => exact hhelp rfl
          | version => exact hversion rfl
          | helpLetter h =>
            rw [harg] at h
            exact hh (List.cons.inj (List.cons.inj h).2).1
          | versionLetter h =>
            rw [harg] at h
            exact hv (List.cons.inj (List.cons.inj h).2).1
    · next hshort =>
      refine .inr ⟨fun shown hasks => ?_, argument, rfl⟩
      cases hasks with
      | help => exact hhelp rfl
      | version => exact hversion rfl
      | helpLetter h | versionLetter h => exact hshort _ _ h

theorem not_asks_dashes (shown : String) : ¬ Asks "--" shown := by
  intro h
  generalize hdashes : "--" = argument at h
  cases h with
  | help | version => exact absurd hdashes (by decide)
  | helpLetter h | versionLetter h => simp [← hdashes] at h

/-- What the arguments ask for: a verdict, or what the first of them says, or nothing. -/
theorem ofArguments_cases (arguments : List String) :
    ((arguments = [] ∨ arguments = ["--"]) ∧ ofArguments arguments = judge) ∨
    (∃ argument rest, arguments = argument :: rest ∧ argument ≠ "--" ∧
      ofArguments arguments = ofArgument argument) ∨
    ∃ positional rest, arguments = "--" :: positional :: rest ∧
      ofArguments arguments = unexpected positional := by
  rcases arguments with - | ⟨argument, rest⟩
  · exact .inl ⟨.inl rfl, rfl⟩
  · by_cases hdashes : argument = "--"
    · subst hdashes
      rcases rest with - | ⟨positional, rest⟩
      · exact .inl ⟨.inr rfl, by simp [ofArguments]⟩
      · exact .inr (.inr ⟨positional, rest, rfl, by simp [ofArguments]⟩)
    · exact .inr (.inl ⟨argument, rest, rfl, hdashes, by simp [ofArguments, hdashes]⟩)

end Request

/-! ### Judging -/

/-- Why what is on the standard input has no verdict. -/
inductive IsFatal (stdin : ByteArray) : Failure → Prop where
  | encoding (h : ¬ stdin.IsValidUTF8) : IsFatal stdin (.unreadable .encoding)
  | other {text : String} {x : Json} (ht : text.toUTF8 = stdin) (hx : Denotes text.toList x)
      (hne : ∀ document, x ≠ .object document) : IsFatal stdin (.notAnObject x.typeName)
  | malformed {text : String} {diagnosis : Json.Diagnosis} (ht : text.toUTF8 = stdin)
      (hno : ∀ x, ¬ Denotes text.toList x)
      (hd : judge text.toList = .error (.malformed diagnosis)) :
      IsFatal stdin (.malformed diagnosis)

namespace Outcome

variable {stdin : ByteArray} {text : String}

theorem write_unlimited (fragments : List Json.Fragment) :
    unlimited.write fragments = (Text.bytes fragments.flatten, none) := by
  obtain ⟨hkept, hnone⟩ := unlimited.write_spec fragments
  exact Prod.ext hkept (hnone.2 ⟨nofun, rfl⟩)

theorem ofDocument_of_verdict {v : Verdict} (ht : text.toUTF8 = stdin)
    (hv : judge text.toList = .ok v) : ofDocument stdin = ⟨0, Text.bytes v.line, []⟩ := by
  have hrun : Session.run ⟨stdin, none⟩ unlimited = _ := Session.run_of_verdict unlimited rfl ht hv
  rw [write_unlimited] at hrun
  simp only [ofDocument, hrun, Option.map_none, Verdict.line]

/-- The outcome of a failure. -/
def ofFailure (failure : Failure) : Outcome :=
  ⟨1, [], Text.bytes ("Error: " ++ failure.message ++ "\n").toList⟩

theorem ofDocument_of_failure {failure : Failure} (ht : text.toUTF8 = stdin)
    (hv : judge text.toList = .error failure) : ofDocument stdin = ofFailure failure := by
  have hrun : Session.run ⟨stdin, none⟩ unlimited = _ := Session.run_of_failure unlimited rfl ht hv
  simp only [ofDocument, hrun, ofFailure]

theorem ofDocument_of_encoding (h : ¬ stdin.IsValidUTF8) :
    ofDocument stdin = ofFailure (.unreadable .encoding) := by
  simp only [ofDocument, Session.run, Source.read, String.fromUTF8?, dif_neg h, ofFailure]

/-- Bytes are the text of an object, or there is a reason why they are not. -/
theorem ofDocument_cases (stdin : ByteArray) :
    (∃ (text : String) (document : Json.Members), text.toUTF8 = stdin ∧
      Denotes text.toList (.object document)) ∨
    ∃ failure, IsFatal stdin failure ∧ ofDocument stdin = ofFailure failure := by
  by_cases hutf : stdin.IsValidUTF8
  · obtain ⟨text, ht⟩ : ∃ text : String, text.toUTF8 = stdin := ⟨String.fromUTF8 stdin hutf, rfl⟩
    rcases denotes_cases text.toList with ⟨document, hd⟩ | ⟨x, hx, hne⟩ | hno
    · exact .inl ⟨text, document, ht, hd⟩
    · exact .inr ⟨_, .other ht hx hne, ofDocument_of_failure ht (judge_of_other hx hne)⟩
    · obtain ⟨diagnosis, hd⟩ := judge_of_nothing hno
      exact .inr ⟨_, .malformed ht hno hd, ofDocument_of_failure ht hd⟩
  · exact .inr ⟨_, .encoding hutf, ofDocument_of_encoding hutf⟩

/-- Without arguments or with two dashes, the program ends with code 0 and the line of a verdict if
the standard input is the text of an object, and otherwise with code 1, no output and the reason.
With any other arguments what it ends with is the same for every standard input: code 0 and the text
that the first argument asks for, or code 2 and no output if it asks for none. -/
theorem ofArguments_exits (arguments : List String) :
    (arguments = [] ∨ arguments = ["--"] → ∀ stdin : ByteArray,
      (∀ (text : String) (document : Json.Members), text.toUTF8 = stdin →
        Denotes text.toList (.object document) →
        ofArguments arguments stdin = ⟨0, Text.bytes (Verdict.ofDocument document).line, []⟩) ∧
      ((∃ (text : String) (document : Json.Members), text.toUTF8 = stdin ∧
        Denotes text.toList (.object document)) ∨
        ∃ failure, IsFatal stdin failure ∧ ofArguments arguments stdin =
          ⟨1, [], Text.bytes ("Error: " ++ failure.message ++ "\n").toList⟩)) ∧
    (¬ (arguments = [] ∨ arguments = ["--"]) →
      Request.ofArguments arguments ≠ .judge ∧
      (∀ stdin stdin', ofArguments arguments stdin = ofArguments arguments stdin') ∧
      ∀ stdin,
        (∃ argument shown, arguments.head? = some argument ∧ Request.Asks argument shown ∧
          ofArguments arguments stdin = ⟨0, Text.bytes shown.toList, []⟩) ∨
        ((∀ argument shown, arguments.head? = some argument → ¬ Request.Asks argument shown) ∧
          ∃ errors, ofArguments arguments stdin = ⟨2, [], errors⟩)) := by
  rcases Request.ofArguments_cases arguments with
    ⟨hnone, hjudge⟩ | ⟨argument, rest, rfl, hdashes, hfirst⟩ | ⟨positional, rest, rfl, hrefused⟩
  · refine ⟨fun _ stdin => ?_, fun h => absurd hnone h⟩
    rw [ofArguments, hjudge, ofRequest]
    exact ⟨fun text document ht hd => ofDocument_of_verdict ht (judge_of_object hd),
      ofDocument_cases stdin⟩
  · refine ⟨fun h => by simp [hdashes] at h, fun _ => ?_⟩
    simp only [ofArguments, hfirst, List.head?_cons, Option.some.injEq]
    rcases Request.ofArgument_cases argument with
      ⟨shown, hasks, hne, htext⟩ | ⟨hno, reported, hreported⟩
    · exact ⟨hne, fun stdin stdin' => (htext stdin).trans (htext stdin').symm,
        fun stdin => .inl ⟨argument, shown, rfl, hasks, htext stdin⟩⟩
    · rw [hreported]
      refine ⟨nofun, fun _ _ => rfl, fun stdin => .inr ⟨?_, unexpectedText reported, rfl⟩⟩
      rintro _ shown rfl
      exact hno shown
  · refine ⟨fun h => by simp at h, fun _ => ?_⟩
    rw [hrefused]
    refine ⟨nofun, fun _ _ => by simp only [ofArguments, hrefused, ofRequest], fun stdin =>
      .inr ⟨?_, unexpectedText positional, by simp only [ofArguments, hrefused, ofRequest]⟩⟩
    rintro _ shown ⟨⟩
    exact Request.not_asks_dashes shown

/-- Two dashes have the document judged, and letters for help and version do not. -/
theorem ofArguments_exits_dashes :
    ofArguments ["--"] "\x7b\x7d".toUTF8 =
      ⟨0, Text.bytes ("\x7b\"ok\": false, \"errors\": [".toList ++ [',', ' '].intercalate
        (["id", "timestamp", "temperature", "pressure", "mode"].map fun field =>
          "\x7b\"type\": \"missing\", \"loc\": [\"".toList ++ field.toList ++
            "\"], \"msg\": \"Field required\", \"input\": \x7b\x7d\x7d".toList) ++
        "]\x7d\n".toList), []⟩ ∧
      ∀ stdin stdin', ofArguments ["-hV", "--"] stdin = ofArguments ["-hV", "--"] stdin' := by
  have hd : Denotes "\x7b\x7d".toList (.object []) := .mk .nil (.emptyObject .nil) .nil
  have hline := ((ofArguments_exits ["--"]).1 (.inr rfl) _).1 "\x7b\x7d" [] rfl hd
  refine ⟨hline.trans (congrArg (fun line => Outcome.mk 0 (Text.bytes line) []) ?_),
    ((ofArguments_exits ["-hV", "--"]).2 (by simp)).2.1⟩
  decide +kernel

end Outcome

end ConfigGate
