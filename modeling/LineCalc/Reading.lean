import LineCalc.Expr.Basic

/-!
# LineCalc.Reading

Reading tokens as an expression, by the grammar

```
expression     := addition
addition       := multiplication (('+' | '-') multiplication)*
multiplication := unary (('*' | '/') unary)*
unary          := ('+' | '-')? primary
primary        := number | '(' expression ')'
```

with one token of lookahead.  A `Reading` is a place in a list of tokens; it
outlives a failure, which leaves it at the token where it stopped.  The end
of the line is never taken, so a reading of tokens that end with it does not
run out of them.  The count of open parentheses is limited, and the room that
is left under the limit is what the recursion runs on.
-/

namespace LineCalc

/-- A way in which tokens fail to be an expression. -/
inductive GrammarFault where
  /-- No operand begins with the token. -/
  | invalid (t : Token)
  /-- The parenthesis opens one level too many. -/
  | tooDeep (t : Token)
  /-- A parenthesis is open, and the token after an operand does not close it. -/
  | unclosed (previous t : Token)
  /-- The expression is over, and the token is not the end of the line. -/
  | leftOver (t : Token)
  deriving DecidableEq

namespace GrammarFault

/-- The token that a fault is reported at. -/
def token : GrammarFault → Token
  | invalid t | tooDeep t | unclosed _ t | leftOver t => t

/-- The text of the error, which names the token or the one before it. -/
def message : GrammarFault → String
  | invalid t => "Invalid token " ++ t.describe
  | tooDeep _ => "expression nested too deeply"
  | unclosed previous _ => "Expected ')' after " ++ previous.describe
  | leftOver t => "Unexpected token " ++ t.describe ++ " after end of expression"

end GrammarFault

/-- A place in a list of tokens. -/
structure Reading where
  /-- How many parentheses may be open at once. -/
  limit : Nat
  /-- The tokens taken, the last one first. -/
  consumed : List Token
  /-- The tokens not taken. -/
  ahead : List Token
  /-- How many parentheses have been opened and not closed. -/
  depth : Nat
  /-- The failures so far, the last one first. -/
  reported : List GrammarFault

namespace Reading

/-- Why a reading ends without an expression. -/
inductive Fault where
  | grammar (f : GrammarFault)
  /-- The lexeme of a number is no numeral. -/
  | value (f : ValueFault)
  /-- A token cannot be the sign or the operator of a node. -/
  | node (f : NodeFault)
  /-- No token is left. -/
  | exhausted
  /-- The tokens do not end with the end of the line. -/
  | unterminated

/-- The text of the error. -/
def Fault.message : Fault → String
  | grammar f => f.message
  | value f => f.message
  | node f => f.message
  | exhausted => "list index out of range"
  | unterminated => "Token sequence must end with an EOF token"

/-! ## places -/

/-- The whole line, taken and not taken. -/
def tokens (r : Reading) : List Token := r.consumed.reverse ++ r.ahead

/-- How many tokens have been taken. -/
def place (r : Reading) : Nat := r.consumed.length

/-- The last token taken; before the first one, the last of all. -/
def previous? (r : Reading) : Option Token := r.consumed.head?.or r.ahead.getLast?

/-- The place after the next token. -/
def shift (r : Reading) : Reading :=
  { r with consumed := r.ahead.take 1 ++ r.consumed, ahead := r.ahead.drop 1 }

/-- One parenthesis more is open. -/
def enter (r : Reading) : Reading := { r with depth := r.depth + 1 }

/-- One parenthesis less is open. -/
def leave (r : Reading) : Reading := { r with depth := r.depth - 1 }

/-- A fault is put on record. -/
def report (r : Reading) (f : GrammarFault) : Reading := { r with reported := f :: r.reported }

/-- Whether the last of some tokens is the end of the line. -/
def isLine (ts : List Token) : Bool := ts.getLast?.any (·.kind = .eof)

/-- The reading of a line from its beginning. -/
def start (limit : Nat) (ts : List Token) : Reading := ⟨limit, [], ts, 0, []⟩

/-- The first place in a list of tokens, which has to end with the end of the line. -/
def ofTokens (limit : Nat) (ts : List Token) : Except Fault Reading :=
  if isLine ts then .ok (start limit ts) else .error .unterminated

end Reading

/-! ## reading -/

/-- An action on a reading, which may fail; the place is kept either way. -/
abbrev Reader := ExceptT Reading.Fault (StateM Reading)

namespace Reader

/-- What an action answers at a place, and the place after it. -/
def runOn {α : Type} (m : Reader α) (r : Reading) : Except Reading.Fault α × Reading :=
  StateT.run (ExceptT.run m) r

/-- A token that is there, or the error of a place beyond the line. -/
def token : Option Token → Reader Token
  | some t => return t
  | none => throw .exhausted

/-- The next token, which stays where it is. -/
def peek : Reader Token := do token (← get).ahead.head?

/-- Takes the next token, unless it is the end of the line. -/
def advance : Reader Token := do
  let t ← peek
  if t.kind = .eof then return t
  else
    modify Reading.shift
    return t

/-- The token taken last. -/
def previous : Reader Token := do token (← get).previous?

/-- Ends the reading, and puts the failure on record. -/
def fail (f : GrammarFault) : Reader Expr := do
  modify (·.report f)
  throw (.grammar f)

/-- The number of a token just taken. -/
def literal (t : Token) : Reader Expr :=
  match Expr.ofNumber t with
  | .ok e => return e
  | .error f => throw (.value f)

/-- A node, if its token can stand there. -/
def node : Except NodeFault Expr → Reader Expr
  | .ok e => return e
  | .error f => throw (.node f)

/-! ### what the steps do to a place -/

/-- To give a value is to take nothing. -/
@[simp] theorem runOn_pure {α : Type} (a : α) (r : Reading) :
    runOn (pure a) r = (.ok a, r) := rfl

/-- A failure skips what follows it and keeps the place. -/
theorem runOn_bind {α β : Type} (m : Reader α) (k : α → Reader β) (r : Reading) :
    runOn (m >>= k) r =
      match runOn m r with
      | (.ok a, r') => runOn (k a) r'
      | (.error f, r') => (.error f, r') := by
  simp only [runOn, ExceptT.run_bind, StateT.run_bind]
  rcases StateT.run (ExceptT.run m) r with ⟨a | a, r'⟩ <;> rfl

/-- After a reader that succeeds the next one goes on from where it stopped. -/
theorem runOn_bind_ok {α β : Type} {m : Reader α} {k : α → Reader β} {r r' : Reading} {a : α}
    (h : runOn m r = (.ok a, r')) : runOn (m >>= k) r = runOn (k a) r' := by
  rw [runOn_bind, h]

/-- A fault is the fault of all that was to follow. -/
theorem runOn_bind_error {α β : Type} {m : Reader α} {k : α → Reader β} {r r' : Reading}
    {f : Reading.Fault} (h : runOn m r = (.error f, r')) : runOn (m >>= k) r = (.error f, r') := by
  rw [runOn_bind, h]

/-- To look at the next token is to take nothing. -/
theorem runOn_peek {r : Reading} {t : Token} {ts : List Token} (h : r.ahead = t :: ts) :
    runOn peek r = (.ok t, r) := by
  show runOn (token r.ahead.head?) r = _
  rw [h]
  rfl

/-- Any token but the end of the line is taken. -/
theorem runOn_advance {r : Reading} {t : Token} {ts : List Token} (h : r.ahead = t :: ts)
    (hk : t.kind ≠ .eof) : runOn advance r = (.ok t, r.shift) := by
  rw [advance, runOn_bind_ok (runOn_peek h)]
  simp only [hk, if_false]
  rfl

/-- To look at the last token is to take nothing. -/
theorem runOn_previous {r : Reading} {t : Token} (h : r.previous? = some t) :
    runOn previous r = (.ok t, r) := by
  show runOn (token r.previous?) r = _
  rw [h]
  rfl

/-- A failure goes on record, and takes nothing. -/
@[simp] theorem runOn_fail (f : GrammarFault) (r : Reading) :
    runOn (fail f) r = (.error (.grammar f), r.report f) := rfl

/-- A change of the place alone. -/
@[simp] theorem runOn_modify (f : Reading → Reading) (r : Reading) :
    runOn (modify f) r = (.ok (), f r) := rfl

/-! ### the parts of the grammar -/

/-- Operands joined by the operators of one rank, folded to the left.  Every round takes a
token, so the tokens ahead bound their count. -/
def chain (rank : Kind → Option Operator) (operand : Reader Expr) :
    List Token → Expr → Reader Expr
  | [], _ => throw .exhausted
  | _ :: ahead, left => do
    if (rank (← peek).kind).isSome then
      let op ← advance
      let right ← operand
      let e ← node (Expr.ofOperator op.kind left right)
      chain rank operand ahead e
    else return left

/-- Operands joined by the operators of one rank, from left to right. -/
def joined (rank : Kind → Option Operator) (operand : Reader Expr) : Reader Expr := do
  let left ← operand
  chain rank operand (← get).ahead left

/-- The end of a pair of parentheses around an expression. -/
def closing (e : Expr) : Reader Expr := do
  if (← peek).kind = .closeParen then
    let _ ← advance
    modify Reading.leave
    return e
  else fail (.unclosed (← previous) (← peek))

/-- What stands in a pair of parentheses, of which the first is the next token. -/
def parenthesised (inner : Token → Reader Expr) : Reader Expr := do
  let opening ← advance
  modify Reading.enter
  let e ← inner opening
  closing e

/-- A number, or what `inner` reads between parentheses. -/
def primaryOver (inner : Token → Reader Expr) : Reader Expr := do
  let t ← peek
  match t.kind with
  | .number =>
    let _ ← advance
    literal t
  | .openParen => parenthesised inner
  | _ => fail (.invalid t)

/-- A sign and its operand, or an operand.  One sign is all that an operand may have. -/
def unaryOver (inner : Token → Reader Expr) : Reader Expr := do
  if (← peek).kind.sign?.isSome then
    let op ← advance
    let e ← primaryOver inner
    node (Expr.ofSign op.kind e)
  else primaryOver inner

/-- Products and quotients of unary expressions. -/
def multiplicationOver (inner : Token → Reader Expr) : Reader Expr :=
  joined Kind.multiplicative? (unaryOver inner)

/-- Sums and differences of products. -/
def additionOver (inner : Token → Reader Expr) : Reader Expr :=
  joined Kind.additive? (multiplicationOver inner)

/-- The expression after a parenthesis, if there is room for the level that it opens. -/
def within : Nat → Token → Reader Expr
  | 0, opening => fail (.tooDeep opening)
  | room + 1, _ => additionOver (within room)

/-- A part of the grammar with the room that is left at this place. -/
def here (part : (Token → Reader Expr) → Reader Expr) : Reader Expr := do
  let r ← get
  part (within (r.limit - r.depth))

/-- A part of the grammar has the room that the place leaves it. -/
theorem runOn_here (part : (Token → Reader Expr) → Reader Expr) (r : Reading) :
    runOn (here part) r = runOn (part (within (r.limit - r.depth))) r := by
  rw [here, runOn_bind]
  rfl

/-- A number, or an expression between parentheses. -/
def primary : Reader Expr := here primaryOver

/-- A primary expression, which may have a sign. -/
def unary : Reader Expr := here unaryOver

/-- Unary expressions joined by products and quotients. -/
def multiplication : Reader Expr := here multiplicationOver

/-- Products joined by sums and differences. -/
def addition : Reader Expr := here additionOver

/-- Any expression. -/
def expression : Reader Expr := addition

/-- An expression that is followed by the end of the line. -/
def whole : Reader Expr := do
  let e ← expression
  let t ← peek
  if t.kind = .eof then return e else fail (.leftOver t)

end Reader

/-! ## operations by name -/

namespace Reading

/-- The operations of a parser. -/
inductive Op where
  | whole
  | expression
  | addition
  | multiplication
  | unary
  | primary
  | peek
  | advance
  | previous

/-- What an operation gives back. -/
inductive Answer where
  | expr (e : Expr)
  | token (t : Token)

/-- What an operation does. -/
def Op.action : Op → Reader Answer
  | whole => .expr <$> Reader.whole
  | expression => .expr <$> Reader.expression
  | addition => .expr <$> Reader.addition
  | multiplication => .expr <$> Reader.multiplication
  | unary => .expr <$> Reader.unary
  | primary => .expr <$> Reader.primary
  | peek => .token <$> Reader.peek
  | advance => .token <$> Reader.advance
  | previous => .token <$> Reader.previous

/-- An operation at a place: its answer or fault, and the place where it stops. -/
def perform (op : Op) (r : Reading) : Except Fault Answer × Reading := op.action.runOn r

/-- The outcome of reading a list of tokens, and the failures on record. -/
def outcome (limit : Nat) (ts : List Token) : Except Fault Expr × List GrammarFault :=
  match ofTokens limit ts with
  | .error f => (.error f, [])
  | .ok r =>
    let (e, r) := Reader.whole.runOn r
    (e, r.reported)

end Reading

/-- The expression that tokens stand for. -/
def readTokens (limit : Nat) (ts : List Token) : Except Reading.Fault Expr :=
  (Reading.outcome limit ts).1

end LineCalc
