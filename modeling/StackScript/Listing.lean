import StackScript.Program
import StackScript.Token
import StackScript.Text.Quoted

/-!
# Listings

A program's tree written out for a reader: every part on a line of its own,
indented by four spaces a level, with a comma after it. `Outline` is the shape
of such a listing; the rest of the module gives the outlines of instructions.
-/

namespace StackScript

/-- A named or bare group of parts, or a single word. -/
inductive Outline where
  /-- A word. -/
  | word (text : String)
  /-- A name with labelled parts between braces. -/
  | record (name : String) (parts : List (String × Outline))
  /-- A name with parts between parentheses. -/
  | tuple (name : String) (parts : List Outline)
  /-- Parts between brackets. -/
  | sequence (parts : List Outline)

namespace Outline

/-- The spaces at the start of a line. -/
def indentation (level : Nat) : String :=
  String.ofList (List.replicate (4 * level) ' ')

mutual

/-- Writes an outline, whose lines after the first start at this level, behind
`text`. -/
def writeAfter (text : String) (level : Nat) : Outline → String
  | .word shown => text ++ shown
  | .record name parts =>
    writeLabelled (text ++ name ++ " \x7b\n") (level + 1) parts ++ indentation level ++ "\x7d"
  | .tuple name parts =>
    writeParts (text ++ name ++ "(\n") (level + 1) parts ++ indentation level ++ ")"
  | .sequence [] => text ++ "[]"
  | .sequence (first :: rest) =>
    writeParts (text ++ "[\n") (level + 1) (first :: rest) ++ indentation level ++ "]"

/-- Writes parts, a line or more for each. -/
def writeParts (text : String) (level : Nat) : List Outline → String
  | [] => text
  | part :: rest =>
    writeParts (writeAfter (text ++ indentation level) level part ++ ",\n") level rest

/-- Writes parts behind their labels. -/
def writeLabelled (text : String) (level : Nat) : List (String × Outline) → String
  | [] => text
  | (label, part) :: rest =>
    writeLabelled (writeAfter (text ++ indentation level ++ label ++ ": ") level part ++ ",\n")
      level rest

end

/-- The text of an outline. -/
def render (outline : Outline) : String :=
  outline.writeAfter "" 0

end Outline

/-- A literal or a variable in a listing. -/
def Operand.outline : Operand → Outline
  | .integer n => .tuple "Integer" [.word (toString n.toInt)]
  | .float x => .tuple "Float" [.word (x.text Token.floatStyle)]
  | .text s => .tuple "String" [.word (Text.quote s)]
  | .identifier name => .tuple "Identifier" [.word (Text.quote name)]

/-- An arithmetic operation in a listing. -/
def ArithmeticOp.listed : ArithmeticOp → String
  | .add => "Add"
  | .subtract => "Sub"
  | .multiply => "Mul"
  | .divide => "Div"

/-- A bitwise operation in a listing. -/
def BitwiseOp.listed : BitwiseOp → String
  | .and => "And"
  | .or => "Or"
  | .xor => "Xor"
  | .negate => "Negate"
  | .not => "Not"

namespace Outline

/-- A block around the outlines of its instructions. -/
def block (instructions : List Outline) : Outline :=
  .record "Block" [("instructions", .sequence instructions)]

mutual

/-- An instruction in a listing. -/
def ofInstruction : Instruction → Outline
  | .assign source target =>
    .record "Assign" [("src", source.outline), ("target", .word (Text.quote target))]
  | .arithmetic op target =>
    .record "Arithmetic" [("op", .word op.listed), ("target", .word (Text.quote target))]
  | .bitwise op target =>
    .record "Bitwise" [("op", .word op.listed), ("target", .word (Text.quote target))]
  | .conditional branches none =>
    .record "Conditional"
      [("branches", .sequence (ofBranches branches)), ("else_block", .word "None")]
  | .conditional branches (some otherwise) =>
    .record "Conditional"
      [("branches", .sequence (ofBranches branches)),
        ("else_block", .tuple "Some" [block (ofInstructions otherwise)])]
  | .loop condition body =>
    .record "Loop" [("condition", condition.outline), ("block", block (ofInstructions body))]
  | .push source => .tuple "Push" [source.outline]
  | .pop target => .tuple "Pop" [.word (Text.quote target)]
  | .print source => .tuple "Print" [source.outline]
  | .exit code => .tuple "Halt" [code.outline]
  | .stop => .word "Stop"
  | .store => .word "Store"
  | .load => .word "Load"
  | .invoke name => .tuple "Invoke" [.word (Text.quote name)]

/-- The instructions of a block in a listing. -/
def ofInstructions : List Instruction → List Outline
  | [] => []
  | instruction :: rest => ofInstruction instruction :: ofInstructions rest

/-- The branches of a conditional in a listing. -/
def ofBranches : List Branch → List Outline
  | [] => []
  | ⟨condition, body⟩ :: rest =>
    .record "Branch" [("condition", condition.outline), ("block", block (ofInstructions body))] ::
      ofBranches rest

end

end Outline

/-- A block written out. -/
def Block.listing (block : Block) : String :=
  (Outline.block (Outline.ofInstructions block)).render

end StackScript
