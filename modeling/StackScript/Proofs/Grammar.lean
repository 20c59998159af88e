import StackScript.Parsing

/-!
# The grammar

The documented grammar as one inductive relation between stretches of tokens
and the trees that they spell, one constructor a production. It does not mention
the parser's states. Repetitions grow to the right, in the order in which a text
is read, so a tree lists its parts in the order of the text. The nesting limit is
not part of the relation: how many blocks a stretch leaves open is a count of its
words.

`Viable` is what the grammar says of an unfinished text: some continuation makes
it a program.
-/

namespace StackScript

/-- The word of an arithmetic instruction. -/
def ArithmeticOp.keyword : ArithmeticOp → Keyword
  | .add => .add
  | .subtract => .subtract
  | .multiply => .multiply
  | .divide => .divide

/-- The word of a bitwise instruction. -/
def BitwiseOp.keyword : BitwiseOp → Keyword
  | .and => .and
  | .or => .or
  | .xor => .xor
  | .negate => .negate
  | .not => .not

namespace Grammar

/-- So many line breaks. -/
def lineBreaks (count : Nat) : List Token :=
  List.replicate count .lineBreak

/-- What a stretch of tokens may be: the parts of speech, each with its tree. -/
inductive Phrase where
  | value (operand : Operand)
  | instruction (instruction : Instruction)
  /-- The branches of a conditional, from `if` on. -/
  | branches (branches : List Branch)
  /-- One or more instructions on lines of their own. -/
  | sequence (instructions : List Instruction)
  | block (body : Block)
  | subroutine (subroutine : Subroutine)
  /-- One or more subroutines, without line breaks around them. -/
  | subroutines (subroutines : List Subroutine)
  | program (subroutines : List Subroutine)

/-- The tokens spell the phrase. -/
inductive Spells : List Token → Phrase → Prop where
  | integer (n : Int64) : Spells [.integer n] (.value (.integer n))
  | float (x : Binary64) : Spells [.float x] (.value (.float x))
  | text (s : String) : Spells [.text s] (.value (.text s))
  | identifier (name : String) : Spells [.identifier name] (.value (.identifier name))
  | assign {source : Operand} {value : List Token} (target : String) :
    Spells value (.value source) →
    Spells (.keyword .assign :: value ++ [.identifier target])
      (.instruction (.assign source target))
  | push {source : Operand} {value : List Token} :
    Spells value (.value source) →
    Spells (.keyword .push :: value) (.instruction (.push source))
  | print {source : Operand} {value : List Token} :
    Spells value (.value source) →
    Spells (.keyword .print :: value) (.instruction (.print source))
  | exit {code : Operand} {value : List Token} :
    Spells value (.value code) →
    Spells (.keyword .exit :: value) (.instruction (.exit code))
  | pop (target : String) :
    Spells [.keyword .pop, .identifier target] (.instruction (.pop target))
  | arithmetic (op : ArithmeticOp) (target : String) :
    Spells [.keyword op.keyword, .identifier target] (.instruction (.arithmetic op target))
  | bitwise (op : BitwiseOp) (target : String) :
    Spells [.keyword op.keyword, .identifier target] (.instruction (.bitwise op target))
  | stop : Spells [.keyword .stop] (.instruction .stop)
  | store : Spells [.keyword .store] (.instruction .store)
  | load : Spells [.keyword .load] (.instruction .load)
  | invoke (name : String) : Spells [.identifier name] (.instruction (.invoke name))
  | loop {condition : Operand} {body : Block} {value block : List Token} (breaks : Nat) :
    Spells value (.value condition) → Spells block (.block body) →
    Spells (.keyword .whileWord :: value ++ lineBreaks breaks ++ block)
      (.instruction (.loop condition body))
  | ifBranch {condition : Operand} {body : Block} {value block : List Token} (breaks : Nat) :
    Spells value (.value condition) → Spells block (.block body) →
    Spells (.keyword .ifWord :: value ++ lineBreaks breaks ++ block)
      (.branches [⟨condition, body⟩])
  | elifBranch {earlier : List Branch} {condition : Operand} {body : Block}
      {before value block : List Token} (breaksBefore breaks : Nat) :
    Spells before (.branches earlier) →
    Spells value (.value condition) → Spells block (.block body) →
    Spells (before ++ lineBreaks breaksBefore ++ .keyword .elifWord :: value ++
        lineBreaks breaks ++ block)
      (.branches (earlier ++ [⟨condition, body⟩]))
  | conditional {branches : List Branch} {tokens : List Token} :
    Spells tokens (.branches branches) →
    Spells tokens (.instruction (.conditional branches none))
  | conditionalElse {branches : List Branch} {body : Block} {before block : List Token}
      (breaksBefore breaks : Nat) :
    Spells before (.branches branches) → Spells block (.block body) →
    Spells (before ++ lineBreaks breaksBefore ++ .keyword .elseWord ::
        lineBreaks breaks ++ block)
      (.instruction (.conditional branches (some body)))
  | firstInstruction {instruction : Instruction} {tokens : List Token} :
    Spells tokens (.instruction instruction) → Spells tokens (.sequence [instruction])
  | nextInstruction {earlier : List Instruction} {instruction : Instruction}
      {before tokens : List Token} (breaks : Nat) :
    Spells before (.sequence earlier) → Spells tokens (.instruction instruction) →
    Spells (before ++ lineBreaks (breaks + 1) ++ tokens) (.sequence (earlier ++ [instruction]))
  | emptyBlock {opening : Keyword} (breaks : Nat) :
    opening = .beginWord ∨ opening = .doWord →
    Spells (.keyword opening :: lineBreaks breaks ++ [.keyword .endWord]) (.block [])
  | block {opening : Keyword} {body : Block} {tokens : List Token} (breaksBefore breaks : Nat) :
    opening = .beginWord ∨ opening = .doWord → Spells tokens (.sequence body) →
    Spells (.keyword opening :: lineBreaks breaksBefore ++ tokens ++ lineBreaks breaks ++
        [.keyword .endWord])
      (.block body)
  | subroutine {body : Block} {block : List Token} (name : String) (breaks : Nat) :
    Spells block (.block body) →
    Spells (.identifier name :: lineBreaks breaks ++ block) (.subroutine ⟨name, body⟩)
  | firstSubroutine {subroutine : Subroutine} {tokens : List Token} :
    Spells tokens (.subroutine subroutine) → Spells tokens (.subroutines [subroutine])
  | nextSubroutine {earlier : List Subroutine} {subroutine : Subroutine}
      {before tokens : List Token} (breaks : Nat) :
    Spells before (.subroutines earlier) → Spells tokens (.subroutine subroutine) →
    Spells (before ++ lineBreaks (breaks + 1) ++ tokens) (.subroutines (earlier ++ [subroutine]))
  | program {subroutines : List Subroutine} {tokens : List Token} (breaksBefore breaks : Nat) :
    Spells tokens (.subroutines subroutines) →
    Spells (lineBreaks breaksBefore ++ tokens ++ lineBreaks breaks) (.program subroutines)

/-- The tokens are the beginning of a program. -/
def Viable (tokens : List Token) : Prop :=
  ∃ rest subroutines, Spells (tokens ++ rest) (.program subroutines)

/-- The blocks that the tokens open and do not close. -/
def openBlocks (tokens : List Token) : Int :=
  tokens.count (.keyword .beginWord) + tokens.count (.keyword .doWord) -
    tokens.count (.keyword .endWord)

/-- Nowhere in the tokens are more blocks open than the limit allows. -/
def NestsWithin (limit : Nat) (tokens : List Token) : Prop :=
  ∀ before, before <+: tokens → openBlocks before ≤ limit

@[simp]
theorem lineBreaks_zero : lineBreaks 0 = [] :=
  rfl

/-- One more line break may be counted at either end. -/
theorem lineBreaks_succ (count : Nat) : lineBreaks (count + 1) = .lineBreak :: lineBreaks count :=
  rfl

theorem lineBreaks_append_lineBreak (count : Nat) :
    lineBreaks count ++ [.lineBreak] = lineBreaks (count + 1) :=
  List.replicate_succ'.symm

@[simp]
theorem openBlocks_nil : openBlocks [] = 0 :=
  rfl

/-- Open blocks add up. -/
theorem openBlocks_append (left right : List Token) :
    openBlocks (left ++ right) = openBlocks left + openBlocks right := by
  simp only [openBlocks, List.count_append]
  omega

theorem openBlocks_cons (token : Token) (tokens : List Token) :
    openBlocks (token :: tokens) = openBlocks [token] + openBlocks tokens :=
  openBlocks_append [token] tokens

end Grammar

end StackScript
