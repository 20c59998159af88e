import StackScript.Source
import StackScript.Token.Scan

/-!
# Parsing

The grammar needs no look-ahead: after every token it is settled what may come
next, so the parser is a state that takes one token at a time. The state holds
the blocks that are open and what has been read of each. Line breaks may stand
before a block, before an instruction and before `elif` and `else`; elsewhere
they end an instruction. Whether the break after a branch ended the whole
conditional is only known at the next token, and until then the state remembers
both the branches and the break.
-/

namespace StackScript

/-- The number of blocks that may be open at once, a subroutine's own included. -/
def maxNesting : Nat := 512

/-! ## States -/

/-- What a nested block is for. -/
inductive Nested where
  /-- The body of a loop. -/
  | loop (condition : Operand)
  /-- A branch of a conditional, after the `earlier` ones, latest first. -/
  | branch (earlier : List Branch) (condition : Operand)
  /-- The block after `else`; the branches are given latest first. -/
  | otherwise (branches : List Branch)

/-- The open blocks from the innermost one outwards, each with the instructions
read so far, latest first. -/
inductive Context where
  | subroutine (name : String) (body : List Instruction)
  | nested (kind : Nested) (body : List Instruction) (outer : Context)

/-- What a value is read for. -/
inductive ValueUse where
  | assign
  | push
  | print
  | exit
  | loop
  /-- The condition of the branch after the `earlier` ones, latest first. -/
  | branch (earlier : List Branch)

/-- What a variable's name is read for. -/
inductive TargetUse where
  | assign (source : Operand)
  | pop
  | arithmetic (op : ArithmeticOp)
  | bitwise (op : BitwiseOp)

/-- The place inside an open block. -/
inductive Point where
  /-- Before an instruction or the end of the block. -/
  | instruction
  /-- Right after an instruction. -/
  | instructionEnd
  /-- Before a value. -/
  | value (use : ValueUse)
  /-- Before a variable's name. -/
  | target (use : TargetUse)
  /-- Before the word that opens a nested block. -/
  | opening (kind : Nested)
  /-- After a branch, and after a line break too if `broken`. -/
  | branchEnd (branches : List Branch) (broken : Bool)

/-- The place in the text. -/
inductive Position where
  /-- Before a subroutine's name. -/
  | subroutine
  /-- Right after a subroutine. -/
  | subroutineEnd
  /-- Between a subroutine's name and its block. -/
  | heading (name : String)
  /-- Inside the block of a subroutine. -/
  | inside (context : Context) (point : Point)

/-- The subroutines read so far, latest first, and the place in the text. -/
structure ParserState where
  done : List Subroutine
  position : Position

namespace Context

/-- The number of open blocks. -/
def depth : Context → Nat
  | .subroutine _ _ => 1
  | .nested _ _ outer => outer.depth + 1

/-- Puts an instruction after those of the innermost block. -/
def add (instruction : Instruction) : Context → Context
  | .subroutine name body => .subroutine name (instruction :: body)
  | .nested kind body outer => .nested kind (instruction :: body) outer

end Context

namespace Point

/-- What the grammar asks for at a place. -/
def expects : Point → Expectation
  | .instruction => .instruction
  | .instructionEnd => .instructionEnd
  | .value _ => .value
  | .target _ => .variableName
  | .opening _ => .blockOpening
  | .branchEnd _ broken => if broken then .instruction else .instructionEnd

end Point

namespace Position

/-- What the grammar asks for at a place. -/
def expects : Position → Expectation
  | .subroutine => .subroutineName
  | .subroutineEnd => .subroutineEnd
  | .heading _ => .blockOpening
  | .inside _ point => point.expects

end Position

/-! ## One token -/

/-- The operand that a token spells. -/
def Operand.ofToken? : Token → Option Operand
  | .integer n => some (.integer n)
  | .float x => some (.float x)
  | .text s => some (.text s)
  | .identifier name => some (.identifier name)
  | .keyword _ => none
  | .lineBreak => none

/-- Whether a token opens a block. -/
def Token.opensBlock : Token → Bool
  | .keyword word => word.opensBlock
  | _ => false

namespace Context

/-- The place after the innermost block's `end`. -/
def close (done : List Subroutine) : Context → ParserState
  | .subroutine name body => ⟨⟨name, body.reverse⟩ :: done, .subroutineEnd⟩
  | .nested (.loop condition) body outer =>
    ⟨done, .inside (outer.add (.loop condition body.reverse)) .instructionEnd⟩
  | .nested (.branch earlier condition) body outer =>
    ⟨done, .inside outer (.branchEnd (⟨condition, body.reverse⟩ :: earlier) false)⟩
  | .nested (.otherwise branches) body outer =>
    ⟨done, .inside (outer.add (.conditional branches.reverse (some body.reverse)))
      .instructionEnd⟩

/-- The place after the first word of an instruction, or of the block's end. -/
def start? (done : List Subroutine) (context : Context) : Token → Option ParserState
  | .identifier name => some ⟨done, .inside (context.add (.invoke name)) .instructionEnd⟩
  | .keyword .endWord => some (context.close done)
  | .keyword .ifWord => some ⟨done, .inside context (.value (.branch []))⟩
  | .keyword .whileWord => some ⟨done, .inside context (.value .loop)⟩
  | .keyword .assign => some ⟨done, .inside context (.value .assign)⟩
  | .keyword .push => some ⟨done, .inside context (.value .push)⟩
  | .keyword .print => some ⟨done, .inside context (.value .print)⟩
  | .keyword .exit => some ⟨done, .inside context (.value .exit)⟩
  | .keyword .pop => some ⟨done, .inside context (.target .pop)⟩
  | .keyword .add => some ⟨done, .inside context (.target (.arithmetic .add))⟩
  | .keyword .subtract => some ⟨done, .inside context (.target (.arithmetic .subtract))⟩
  | .keyword .multiply => some ⟨done, .inside context (.target (.arithmetic .multiply))⟩
  | .keyword .divide => some ⟨done, .inside context (.target (.arithmetic .divide))⟩
  | .keyword .and => some ⟨done, .inside context (.target (.bitwise .and))⟩
  | .keyword .or => some ⟨done, .inside context (.target (.bitwise .or))⟩
  | .keyword .xor => some ⟨done, .inside context (.target (.bitwise .xor))⟩
  | .keyword .negate => some ⟨done, .inside context (.target (.bitwise .negate))⟩
  | .keyword .not => some ⟨done, .inside context (.target (.bitwise .not))⟩
  | .keyword .stop => some ⟨done, .inside (context.add .stop) .instructionEnd⟩
  | .keyword .store => some ⟨done, .inside (context.add .store) .instructionEnd⟩
  | .keyword .load => some ⟨done, .inside (context.add .load) .instructionEnd⟩
  | _ => none

/-- The place before an instruction, after one more token. -/
def atInstruction? (done : List Subroutine) (context : Context) : Token → Option ParserState
  | .lineBreak => some ⟨done, .inside context .instruction⟩
  | token => context.start? done token

/-- The place right after an instruction, after one more token: a line break or
the end of the block. -/
def atInstructionEnd? (done : List Subroutine) (context : Context) : Token → Option ParserState
  | .lineBreak => some ⟨done, .inside context .instruction⟩
  | .keyword .endWord => some (context.close done)
  | _ => none

/-- The place after a value. -/
def useValue (done : List Subroutine) (context : Context) (value : Operand) :
    ValueUse → ParserState
  | .assign => ⟨done, .inside context (.target (.assign value))⟩
  | .push => ⟨done, .inside (context.add (.push value)) .instructionEnd⟩
  | .print => ⟨done, .inside (context.add (.print value)) .instructionEnd⟩
  | .exit => ⟨done, .inside (context.add (.exit value)) .instructionEnd⟩
  | .loop => ⟨done, .inside context (.opening (.loop value))⟩
  | .branch earlier => ⟨done, .inside context (.opening (.branch earlier value))⟩

/-- The place after a variable's name. -/
def useTarget (done : List Subroutine) (context : Context) (name : String) :
    TargetUse → ParserState
  | .assign source => ⟨done, .inside (context.add (.assign source name)) .instructionEnd⟩
  | .pop => ⟨done, .inside (context.add (.pop name)) .instructionEnd⟩
  | .arithmetic op => ⟨done, .inside (context.add (.arithmetic op name)) .instructionEnd⟩
  | .bitwise op => ⟨done, .inside (context.add (.bitwise op name)) .instructionEnd⟩

/-- The place after one more token, where the grammar without its nesting limit
allows that token. -/
def next? (done : List Subroutine) (context : Context) (token : Token) :
    Point → Option ParserState
  | .instruction => context.atInstruction? done token
  | .instructionEnd => context.atInstructionEnd? done token
  | .value use => (Operand.ofToken? token).map fun value => context.useValue done value use
  | .target use =>
    match token with
    | .identifier name => some (context.useTarget done name use)
    | _ => none
  | .opening kind =>
    if token.opensBlock then some ⟨done, .inside (.nested kind [] context) .instruction⟩
    else if token = .lineBreak then some ⟨done, .inside context (.opening kind)⟩
    else none
  | .branchEnd branches broken =>
    match token with
    | .lineBreak => some ⟨done, .inside context (.branchEnd branches true)⟩
    | .keyword .elifWord => some ⟨done, .inside context (.value (.branch branches))⟩
    | .keyword .elseWord => some ⟨done, .inside context (.opening (.otherwise branches))⟩
    | _ =>
      let context := context.add (.conditional branches.reverse none)
      if broken then context.atInstruction? done token else context.atInstructionEnd? done token

end Context

namespace ParserState

/-- Nothing has been read. -/
def initial : ParserState :=
  ⟨[], .subroutine⟩

/-- The state after one more token, where the grammar without its nesting limit
allows that token. -/
def next? (state : ParserState) (token : Token) : Option ParserState :=
  match state.position with
  | .subroutine =>
    match token with
    | .lineBreak => some state
    | .identifier name => some ⟨state.done, .heading name⟩
    | _ => none
  | .subroutineEnd =>
    match token with
    | .lineBreak => some ⟨state.done, .subroutine⟩
    | _ => none
  | .heading name =>
    if token.opensBlock then some ⟨state.done, .inside (.subroutine name []) .instruction⟩
    else if token = .lineBreak then some state
    else none
  | .inside context point => context.next? state.done token point

/-- Before a subroutine's name stand line breaks at most. -/
theorem next?_subroutine (done : List Subroutine) (token : Token) :
    next? ⟨done, .subroutine⟩ token =
      match token with
      | .lineBreak => some ⟨done, .subroutine⟩
      | .identifier name => some ⟨done, .heading name⟩
      | _ => none :=
  rfl

/-- A subroutine ends its line. -/
theorem next?_subroutineEnd (done : List Subroutine) (token : Token) :
    next? ⟨done, .subroutineEnd⟩ token =
      match token with
      | .lineBreak => some ⟨done, .subroutine⟩
      | _ => none :=
  rfl

/-- Between a subroutine's name and its block stand line breaks at most. -/
@[simp]
theorem next?_heading (done : List Subroutine) (name : String) (token : Token) :
    next? ⟨done, .heading name⟩ token =
      if token.opensBlock then some ⟨done, .inside (.subroutine name []) .instruction⟩
      else if token = .lineBreak then some ⟨done, .heading name⟩
      else none :=
  rfl

/-- Inside a block the context decides. -/
@[simp]
theorem next?_inside (done : List Subroutine) (context : Context) (point : Point) (token : Token) :
    next? ⟨done, .inside context point⟩ token = context.next? done token point :=
  rfl

/-- The number of open blocks. -/
def depth (state : ParserState) : Nat :=
  match state.position with
  | .inside context _ => context.depth
  | _ => 0

@[simp]
theorem depth_inside (done : List Subroutine) (context : Context) (point : Point) :
    depth ⟨done, .inside context point⟩ = context.depth :=
  rfl

/-- Takes one token. A token that opens one block too many is an error where
the grammar allows it; elsewhere it is as wrong as any other. -/
def advance (state : ParserState) (lexeme : Lexeme) : Except SyntaxError ParserState :=
  match state.next? lexeme.token with
  | some next =>
    if maxNesting < next.depth then .error (.nestingTooDeep lexeme.line maxNesting) else .ok next
  | none => .error (.unexpectedToken lexeme.line lexeme.token state.position.expects)

/-- The subroutines, if the text may end here. -/
def finish? (state : ParserState) : Option (List Subroutine) :=
  match state.position, state.done with
  | .subroutineEnd, done => some done.reverse
  | .subroutine, first :: rest => some (first :: rest).reverse
  | _, _ => none

end ParserState

/-! ## Texts -/

namespace Subroutine

/-- The subroutines that a list of tokens spells. An error at the end names the
line of the last token. -/
def ofLexemes (lexemes : List Lexeme) : Except SyntaxError (List Subroutine) := do
  let state ← lexemes.foldlM ParserState.advance ParserState.initial
  match state.finish? with
  | some subroutines => .ok subroutines
  | none =>
    .error (.unexpectedEnd ((lexemes.getLast?.map Lexeme.line).getD 1) state.position.expects)

end Subroutine

namespace Source

/-- The tokens of a text, its comments cut. -/
def lexemes (text : String) : Except SyntaxError (List Lexeme) :=
  Lexeme.ofText (stripComments text.toList)

/-- The subroutines that a text defines, in the order of the text. -/
def subroutines (text : String) : Except SyntaxError (List Subroutine) := do
  Subroutine.ofLexemes (← lexemes text)

end Source

/-- The program that a text spells. -/
def Program.ofText (text : String) : Except SourceError Program :=
  match Source.subroutines text with
  | .error error => .error (.grammar error)
  | .ok definitions =>
    match Program.ofSubroutines definitions with
    | .error error => .error (.definitions error)
    | .ok program => .ok program

end StackScript
