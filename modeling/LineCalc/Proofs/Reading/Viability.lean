import LineCalc.Proofs.Reading.Verdict

/-!
# LineCalc.Proofs.Reading.Viability

A fault of the grammar is found at the first token that cannot stand where it
is.  Whatever the machine with one counter expects, and however many
parentheses are open, there are tokens that it accepts from there
(`Counter.completion`), so everything before the token that it rejects can be
completed to an expression.  That token decides: no line that begins with the
tokens up to it is accepted.
-/

namespace LineCalc

variable {limit depth : Nat} {ts : List Token} {p : Token} {expecting : Expecting}
variable {f : GrammarFault}

/-! ## completions -/

namespace Counter

/-- The tokens that bring a line to its end: an operand where one is missing, and a parenthesis for
each that is open. -/
def completion (expecting : Expecting) (depth : Nat) : List Token :=
  (if expecting = .operator then [] else [⟨.number, ['1']⟩]) ++
    (List.replicate depth ⟨.closeParen, [')']⟩ ++ [.endOfLine])

/-- A completion ends the line. -/
theorem isLine_completion (front : List Token) (expecting : Expecting) (depth : Nat) :
    Reading.isLine (front ++ completion expecting depth) = true := by
  simp only [completion, ← List.append_assoc]
  simp [Reading.isLine, Token.endOfLine]

/-- The numbers of a completion have values. -/
theorem readable_completion (expecting : Expecting) (depth : Nat) :
    Readable (completion expecting depth) := by
  intro t ht hk
  simp only [completion, List.mem_append, List.mem_replicate, List.mem_singleton] at ht
  obtain ht | ⟨-, rfl⟩ | rfl := ht
  · split at ht
    · cases ht
    · obtain rfl := List.mem_singleton.mp ht
      exact ⟨_, rfl⟩
  · cases hk
  · cases hk

/-- Closing as many parentheses as are open ends the line. -/
theorem verdict_closings (limit depth : Nat) (p : Token) :
    verdict limit .operator depth p (List.replicate depth ⟨.closeParen, [')']⟩ ++ [.endOfLine]) =
      .ok () := by
  induction depth generalizing p with
  | zero => rfl
  | succ depth ih =>
      rw [List.replicate_succ, List.cons_append, verdict, move_close rfl]
      exact ih _

/-- Every state of the machine can be brought to the end of a line. -/
theorem verdict_completion (limit depth : Nat) (p : Token) (expecting : Expecting) :
    verdict limit expecting depth p (completion expecting depth) = .ok () := by
  cases expecting with
  | operand | signedOperand =>
      show verdict _ _ _ _ (_ :: _) = _
      rw [verdict]
      exact verdict_closings limit depth _
  | operator => exact verdict_closings limit depth p

/-! ## the token that is rejected -/

/-- The machine rejects a token after a front of the line that could have been completed, and does
not look at what comes later. -/
theorem exists_rejected (hl : Reading.isLine ts = true)
    (h : verdict limit expecting depth p ts = .error f) :
    ∃ front more, ts = front ++ f.token :: more ∧ (∀ t ∈ front, t.kind ≠ .eof) ∧
      (∀ us, verdict limit expecting depth p (front ++ f.token :: us) = .error f) ∧
      ∃ expecting' depth',
        verdict limit expecting depth p (front ++ completion expecting' depth') = .ok () := by
  induction ts generalizing expecting depth p with
  | nil => simp [Reading.isLine] at hl
  | cons t ts ih =>
      rw [verdict] at h
      split at h
      · next g hm =>
        cases h
        obtain rfl := token_of_move hm
        refine ⟨[], ts, rfl, by simp, fun us => ?_, expecting, depth, verdict_completion ..⟩
        rw [List.nil_append, verdict, hm]
      · cases h
      · next expecting' depth' hm =>
        obtain ⟨hk, -⟩ := depth_of_move hm
        have ht : ∀ u ∈ [t], u.kind ≠ .eof := by simpa using hk
        have hl' : Reading.isLine ts = true := Reading.isLine_of_append ht hl
        obtain ⟨front, more, rfl, hfront, hrejects, e', d', hcompletes⟩ := ih hl' h
        refine ⟨t :: front, more, rfl, by simpa [hk] using hfront, fun us => ?_, e', d', ?_⟩
        · rw [List.cons_append, verdict, hm]
          exact hrejects us
        · rw [List.cons_append, verdict, hm]
          exact hcompletes

end Counter

/-! ## lines -/

/-- If a line whose numbers have values fails by the grammar, its fault is at a place no later than
its first end such that the tokens before the place can be completed to a line that is accepted,
and no line that begins with these and the token at the place is. -/
theorem readTokens_error_viable (s : Settings) (hr : Readable ts)
    (h : readTokens s.limit ts = .error (.grammar f)) :
    ∃ place, place ≤ (beforeEnd ts).length ∧ ts[place]? = some f.token ∧
      (∃ more, Reading.isLine (ts.take place ++ more) = true ∧
        ∃ e, readTokens s.limit (ts.take place ++ more) = .ok e) ∧
      ∀ more e, readTokens s.limit (ts.take (place + 1) ++ more) ≠ .ok e := by
  have hl := isLine_of_readTokens h nofun
  obtain ⟨front, more, rfl, hfront, hrejects, e', d', hcompletes⟩ :=
    Counter.exists_rejected hl (check_of_readTokens_error h)
  have htake : (front ++ f.token :: more).take front.length = front := List.take_left
  have htake' : (front ++ f.token :: more).take (front.length + 1) = front ++ [f.token] := by
    rw [List.append_cons]
    exact List.take_left' (by simp)
  refine ⟨front.length, ?_, by simp, ⟨Counter.completion e' d', ?_, ?_⟩, fun us e he => ?_⟩
  · rw [beforeEnd, List.takeWhile_append_of_pos (by simpa using hfront), List.length_append]
    omega
  · exact Counter.isLine_completion _ e' d'
  · rw [htake]
    refine (readTokens_ok_iff_check (Counter.isLine_completion _ e' d') ?_).mpr hcompletes
    intro t ht
    obtain ht | ht := List.mem_append.mp ht
    · exact hr t (List.mem_append_left _ ht)
    · exact Counter.readable_completion e' d' t ht
  · rw [htake', List.append_assoc, List.singleton_append] at he
    have haccepts := check_of_readTokens he
    rw [Counter.check, hrejects us] at haccepts
    cases haccepts

/-- A line that ends before its parenthesis is closed; what closes it comes too late. -/
def brokenLine : List Token :=
  [⟨.minus, ['-']⟩, ⟨.openParen, ['(']⟩, ⟨.number, ['1']⟩, .endOfLine, ⟨.closeParen, [')']⟩,
   .endOfLine]

/-- A line that ends inside a group fails at its end, and what was read can be completed. -/
theorem readTokens_brokenLine :
    Readable brokenLine ∧
      readTokens Settings.standard.limit brokenLine =
        .error (.grammar (.unclosed ⟨.number, ['1']⟩ .endOfLine)) ∧
      ∃ place, place ≤ (beforeEnd brokenLine).length ∧ brokenLine[place]? = some .endOfLine ∧
        (∃ more, Reading.isLine (brokenLine.take place ++ more) = true ∧
          ∃ e, readTokens Settings.standard.limit (brokenLine.take place ++ more) = .ok e) ∧
        ∀ more e, readTokens Settings.standard.limit (brokenLine.take (place + 1) ++ more) ≠
          .ok e := by
  have hr : Readable brokenLine := by decide
  have h : readTokens Settings.standard.limit brokenLine =
      .error (.grammar (.unclosed ⟨.number, ['1']⟩ .endOfLine)) :=
    (readTokens_error_iff_check (by decide) hr).mpr rfl
  exact ⟨hr, h, readTokens_error_viable Settings.standard hr h⟩

end LineCalc
