import LineCalc.Proofs.Line.Outcome
import LineCalc.Proofs.Reading.Lexemes

/-!
# LineCalc.Proofs.Line.Scripts

The script of a digit does not matter: a line and the same line in ASCII
digits are cut alike, and end alike (`Line.evaluate_inAscii`).
-/

namespace LineCalc.Line

open Text

/-- Two outcomes of lines are one value, or one fault, of which the second names the tokens and the
node of the first in ASCII digits. -/
inductive AlikeInAscii : Except Fault Float → Except Fault Float → Prop where
  | value (x : Float) : AlikeInAscii (.ok x) (.ok x)
  | grammar (g : GrammarFault) : AlikeInAscii (.error (.reading (.grammar g)))
      (.error (.reading (.grammar (g.map (Token.mapLexeme inAscii)))))
  | refused (node : Expr) : AlikeInAscii (.error (.evaluation (.zeroDivision node)))
      (.error (.evaluation (.zeroDivision (node.mapLexeme inAscii))))

/-- Lines read as one expression but for the script of its digits end alike. -/
theorem alikeInAscii_of_read {s : Settings} {text text' : List Char} {e : Expr}
    (h : read s text = .ok e) (h' : read s text' = .ok (e.mapLexeme inAscii)) :
    AlikeInAscii (evaluate s text) (evaluate s text') := by
  rw [evaluate_of_read h, evaluate_of_read h', Expr.evaluate_mapLexeme]
  obtain ⟨x, hx⟩ | ⟨-, node, hnode⟩ := e.evaluate_cases s.division
  · rw [hx]
    exact .value x
  · rw [hnode]
    exact .refused node

/-- With the ASCII digit of the same value in the place of every digit, a line has the same tokens
with these digits in them, and ends with the same double, with the same fault of the grammar at
the token that was at fault before, or with a division refused as before. -/
theorem evaluate_inAscii (s : Settings) (text : List Char) :
    tokens s (inAscii text) = (tokens s text).map (Token.mapLexeme inAscii) ∧
      AlikeInAscii (evaluate s text) (evaluate s (inAscii text)) := by
  have htokens : tokens s (inAscii text) = (tokens s text).map (Token.mapLexeme inAscii) :=
    tokensOf_inAscii s.trailingDot text
  have hread : read s (inAscii text) =
      readTokens s.limit ((tokens s text).map (Token.mapLexeme inAscii)) :=
    congrArg (readTokens s.limit) htokens
  refine ⟨htokens, ?_⟩
  obtain ⟨e, he⟩ | ⟨g, hg⟩ := readTokens_tokensOf_cases s.limit s.trailingDot text
  · exact alikeInAscii_of_read he (hread.trans (readTokens_mapLexeme keepsValues_inAscii he))
  · have hr := readable_tokensOf s.trailingDot text
    have hg' := hread.trans (readTokens_mapLexeme_error keepsValues_inAscii hr hg)
    rw [evaluate_of_read_error hg, evaluate_of_read_error hg']
    exact .grammar g

end LineCalc.Line
