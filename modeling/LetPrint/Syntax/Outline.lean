import LetPrint.Syntax.Describe

/-! Trees drawn with lines.

`Outline` is a tree of labels with named branches; `Outline.rows` draws it, one
label to a row, with lines that lead from each label to its branches.
`Node.outline` labels a node and its parts, with or without their spans, and with
spans as offsets or, given the source, as lines and columns. -/
namespace LetPrint
open Text

mutual

/-- A label, with branches or without. -/
inductive Outline where
  | leaf (label : Phrase)
  | branching (label : Phrase) (branches : Branches)

/-- Named branches, in order. -/
inductive Branches where
  | nil
  | cons (name : Phrase) (outline : Outline) (rest : Branches)

end

namespace Branches

def isEmpty : Branches → Bool
  | nil => true
  | cons .. => false

end Branches

/-- The line that leads to a branch. -/
def branchMark (isLast : Bool) : Piece :=
  if isLast then "└─ " else "├─ "

/-- The line that passes a branch by, on the way to the branches after it. -/
def passingMark (isLast : Bool) : Piece :=
  if isLast then "   " else "│  "

mutual

/-- The rows of a tree. -/
def Outline.rows : Outline → List Phrase
  | .leaf label => [branchMark true :: label]
  | .branching label branches =>
    (branchMark true :: label) :: branches.rows.map (.verbatim "   " :: ·)

/-- The rows of branches: a leaf stands in the row of its name, and a tree below it. -/
def Branches.rows : Branches → List Phrase
  | .nil => []
  | .cons name (.leaf label) rest =>
    (branchMark rest.isEmpty :: name ++ Phrase.text " = " ++ label) :: rest.rows
  | .cons name (.branching label branches) rest =>
    (branchMark rest.isEmpty :: name ++ Phrase.text ":") ::
      (passingMark rest.isEmpty :: branchMark true :: label) ::
      branches.rows.map (fun row => passingMark rest.isEmpty :: .verbatim "   " :: row) ++
      rest.rows

end

/-- How spans are shown: whether nodes and tokens have theirs, and the source whose
lines and columns are shown in place of offsets. -/
structure SpanView where
  shown : Bool
  source : Option Source

namespace SpanView

/-- A span in words. -/
def phrase (view : SpanView) (span : Span) : Phrase :=
  match view.source with
  | none => [span.start, "..", span.stop]
  | some source =>
    let start := source.position span.start
    let stop := source.position span.stop
    [(start.line : Int), ":", start.column, "-", (stop.line : Int), ":", stop.column]

/-- The label of a span. -/
def label (view : SpanView) (span : Span) : Phrase :=
  Phrase.text "Span(" ++ view.phrase span ++ Phrase.text ")"

/-- The label of a node that has a span. -/
def nodeLabel (view : SpanView) (kind : String) (span : Span) : Phrase :=
  Phrase.text kind ++ if view.shown then Phrase.text " [" ++ view.phrase span ++ Phrase.text "]" else []

/-- The branch for the span of a node. -/
def branch (view : SpanView) (span : Span) : Branches :=
  if view.shown then .cons (Phrase.text "span") (.leaf (view.label span)) .nil else .nil

end SpanView

/-- A token as a label. -/
def Token.label (t : Token) (view : SpanView) : Phrase :=
  (["Token(", t.kind.name, ", ", quoted t.raw] : Phrase) ++
    (if view.shown then Phrase.text ", " ++ view.phrase t.span else []) ++ Phrase.text ")"

namespace Atom

/-- A value as a label. -/
def label (view : SpanView) : Atom → Phrase
  | absent => ["None"]
  | flag value => [if value then "True" else "False"]
  | integer value => [value]
  | real value => [value.write]
  | text value => [quoted value]
  | token value => value.label view
  | span value => view.label value
  | immediate value => ["Immediate(", value, ")"]
  | reference name => ["VariableRef(", name, ")"]
  | instr _ => ["Instr"]
  | binOp value => [value.worded]
  | opcode value => value.inspected
  | tokenKind value => [value.worded]

/-- The argument of an instruction as a value of its own. -/
def ofArgument : Option Argument → Atom
  | none => absent
  | some (.immediate value) => immediate value
  | some (.reference name) => reference name
  | some (.text name) => text name

/-- The outline of a value: an instruction has parts, and nothing else does. -/
def outline (view : SpanView) : Atom → Outline
  | instr value =>
    .branching (Phrase.text "Instr") (.cons (Phrase.text "op") (.leaf value.op.inspected)
      (.cons (Phrase.text "arg") (.leaf ((ofArgument value.arg).label view)) .nil))
  | value => .leaf (value.label view)

end Atom

namespace Operator

def label : Operator → Phrase
  | known op => Phrase.text op.worded
  | other text => Phrase.text (quoted text)

end Operator

namespace Node

/-- Whether a node is a span and nothing else. -/
def isSpan : Node → Bool
  | atom (.span _) => true
  | _ => false

/-- Branches with one more in front, for a part of a node. A part that is a span is
left out when spans are hidden. -/
def branch (view : SpanView) (name : Phrase) (part : Node) (outline : Outline) (rest : Branches) :
    Branches :=
  if part.isSpan && !view.shown then rest else .cons name outline rest

mutual

/-- The outline of a node. -/
def outline (view : SpanView) : Node → Outline
  | literal value span =>
    .branching (view.nodeLabel "Literal" span)
      (.cons (Phrase.text "value") (.leaf [value]) (view.branch span))
  | var name span =>
    .branching (view.nodeLabel "Variable" span)
      (.cons (Phrase.text "name") (.leaf (name.label view)) (view.branch span))
  | binary left op right span =>
    .branching (view.nodeLabel "Binary" span)
      (branch view (Phrase.text "left") left (left.outline view)
        (.cons (Phrase.text "op") (.leaf op.label)
          (branch view (Phrase.text "right") right (right.outline view) (view.branch span))))
  | letStmt name value span =>
    .branching (view.nodeLabel "LetStmt" span)
      (.cons (Phrase.text "name") (.leaf (name.label view))
        (branch view (Phrase.text "value") value (value.outline view) (view.branch span)))
  | printStmt value span =>
    .branching (view.nodeLabel "PrintStmt" span)
      (branch view (Phrase.text "value") value (value.outline view) (view.branch span))
  | foreign kind span => .branching (view.nodeLabel kind span) (view.branch span)
  | list items =>
    .branching ["list[", (items.length : Int), "]"] (outlineItems view 0 items)
  | atom value => value.outline view

/-- The branches for the items of a list, numbered from `index` on. -/
def outlineItems (view : SpanView) (index : Nat) : List Node → Branches
  | [] => .nil
  | item :: items =>
    branch view ["[", (index : Int), "]"] item (item.outline view)
      (outlineItems view (index + 1) items)

end

/-- The rows of the drawing of a node. -/
def outlineRows (view : SpanView) (node : Node) : List Phrase :=
  (node.outline view).rows

/-- The drawing of a node, unless it holds an integer too long to show. -/
def drawing? (view : SpanView) (node : Node) : Option String :=
  (Phrase.joined "\n" (node.outlineRows view)).writeShort?

end Node

end LetPrint
