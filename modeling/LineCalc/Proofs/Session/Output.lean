import LineCalc.Session

/-!
# LineCalc.Proofs.Session.Output

What happens in a session.  Each line before the first empty one makes an
exchange of its own, and whatever the lines are the session ends in one way:
`Session.events_run`, from which each view of a session follows.  What is
written is the answer to each line, and so it is the same whatever the lines
before and after it are: `Session.exists_output_run_append`.
-/

namespace LineCalc

namespace Session

variable {s : Settings} {texts before after : List (List Char)} {text : List Char}

/-- The lines of the input that are answered. -/
def answered (texts : List (List Char)) : List (List Char) := texts.takeWhile (!·.isEmpty)

/-- What is written for a line. -/
def lineOutput (s : Settings) (text : List Char) : List String :=
  [(Line.attempt s text).answer, ""]

/-- Lines that are not empty do not end the session. -/
theorem answered_append (h : ∀ text ∈ before, text ≠ []) :
    answered (before ++ texts) = before ++ answered texts :=
  List.takeWhile_append_of_pos (by simpa using h)

theorem answered_cons (h : text ≠ []) : answered (text :: texts) = text :: answered texts :=
  List.takeWhile_cons_of_pos (by simpa using h)

/-- What happens at a line that is answered. -/
def exchange (s : Settings) (text : List Char) : List Event :=
  .prompt s.prompt :: lineEvents s text

/-- A session from any prompt on: an exchange for each line before the first empty one, then a
prompt that no line answers. -/
theorem continued_eq (s : Settings) (handled : Nat) (texts : List (List Char)) :
    continued s handled texts =
      ⟨handled + (answered texts).length, (answered texts).flatMap (exchange s) ++
        .prompt s.prompt :: closing (handled + (answered texts).length)⟩ := by
  induction texts generalizing handled with
  | nil => rfl
  | cons text texts ih =>
      by_cases h : text = []
      · subst h
        rfl
      · have hcount : handled + 1 + (answered texts).length =
            handled + (answered (text :: texts)).length := by
          rw [answered_cons h, List.length_cons]
          omega
        rw [continued, if_neg (by simpa using h), ih, hcount, answered_cons h, List.flatMap_cons]
        simp [exchange]

/-- A session is its opening, an exchange for each line that is answered, and its closing. -/
theorem events_run (s : Settings) (texts : List (List Char)) :
    (run s texts).events = opening :: ((answered texts).flatMap (exchange s) ++
      .prompt s.prompt :: closing (answered texts).length) := by
  simp only [run, continued_eq, Nat.zero_add]

/-- Of what happens at a line the answer is written, and an empty line. -/
theorem output_exchange (s : Settings) (text : List Char) :
    (exchange s text).filterMap Event.output? = lineOutput s text := by
  simp [exchange, lineEvents, lineOutput, List.filterMap_cons, Event.output?, Function.comp_def]

/-- A session answers the lines before the first empty one in order, each of them by itself, and
says in the end that it terminates. -/
theorem output_run (s : Settings) (texts : List (List Char)) :
    (run s texts).output = (answered texts).flatMap (lineOutput s) ++ ["Terminating..."] := by
  rw [output, events_run, List.filterMap_cons_none rfl, List.filterMap_append,
    List.filterMap_flatMap]
  simp only [output_exchange]
  rfl

/-- The answer to a line that is no empty one comes after those to the lines before it. -/
theorem exists_output_run_append (hb : ∀ text ∈ before, text ≠ []) (ht : text ≠ [])
    (after : List (List Char)) :
    ∃ rest, (run s (before ++ text :: after)).output =
      before.flatMap (lineOutput s) ++ (lineOutput s text ++ rest) := by
  refine ⟨(answered after).flatMap (lineOutput s) ++ ["Terminating..."], ?_⟩
  rw [output_run, answered_append hb, answered_cons ht]
  simp

end Session

end LineCalc
