import ScriptSyntax.Tree.Leaf
import ScriptSyntax.Lexer.Stream

/-!
Documents: the values in which trees, tokens, comments, faults and options are handed to other programs.
-/

namespace ScriptSyntax

inductive Document where
  | null
  | boolean (value : Bool)
  | natural (value : Nat)
  | number (value : Number.Double)
  | text (value : String)
  | list (items : List Document)
  | object (fields : List (String × Document))
  /-- A node of a syntax tree: its type, where it lies, and its own fields. -/
  | node (type : String) (span : Span) (fields : List (String × Document))
deriving Inhabited

namespace Document

def optional {α : Type} (toDocument : α → Document) : Option α → Document
  | none => null
  | some a => toDocument a

/-- A field that is left out where there is no value. -/
def field? {α : Type} (name : String) (toDocument : α → Document) : Option α → List (String × Document)
  | none => []
  | some a => [(name, toDocument a)]

def pair (p : Nat × Nat) : Document := list [natural p.1, natural p.2]

@[simp] theorem optional_none {α : Type} (f : α → Document) : optional f none = null := rfl
@[simp] theorem optional_some {α : Type} (f : α → Document) (a : α) : optional f (some a) = f a := rfl

end Document

def Position.fields (p : Position) : List (String × Document) :=
  [("line", .natural p.line), ("column", .natural p.column)]

def Position.toDocument (p : Position) : Document := .object p.fields

def SourceLocation.toDocument (l : SourceLocation) : Document :=
  .object ([("start", l.start.toDocument), ("end", l.stop.toDocument)] ++
    Document.field? "source" .text l.file)

/-- The fields for a recorded location and range. -/
def Document.placeFields (location : Option SourceLocation) (range : Option (Nat × Nat)) :
    List (String × Document) :=
  Document.field? "loc" SourceLocation.toDocument location ++ Document.field? "range" Document.pair range

/-- The fields by which a node says where it lies. -/
def Span.fields (s : Span) : List (String × Document) :=
  [("start", .natural s.start), ("end", .natural s.stop)] ++
    Document.placeFields s.location s.range

/-! ### Tokens, comments, faults and options -/

open Document (field? placeFields)

def TokenValue.toDocument : TokenValue → Document
  | none => .null
  | name text | string text | bigint text => .text text
  | number value => .number value
  | regexp pattern flags => .object [("pattern", .text pattern), ("flags", .text flags)]

def Token.toDocument (t : Token) : Document :=
  .object ([("type", .text t.kind.label), ("value", t.value.toDocument), ("start", .natural t.start),
    ("end", .natural t.stop)] ++ placeFields t.location t.range)

def CommentKind.name : CommentKind → String
  | line => "Line"
  | block => "Block"

def Comment.toDocument (c : Comment) : Document :=
  .object ([("type", .text c.kind.name), ("value", .text c.text), ("start", .natural c.start),
    ("end", .natural c.stop)] ++ placeFields c.location c.range)

def Severity.name : Severity → String
  | fatal => "fatal"
  | recoverable => "recoverable"

def SyntaxError.toDocument (e : SyntaxError) : Document :=
  .object ([("message", .text e.message), ("pos", .natural e.pos)] ++ e.position.fields ++
    [("severity", .text e.severity.name), ("display", .text e.display),
     ("recoverable", .boolean e.isRecoverable)])

def Version.toDocument : Version → Document
  | latest => .text "latest"
  | numbered number => .natural number

def AllowReserved.toDocument : AllowReserved → Document
  | yes => .boolean true
  | no => .boolean false
  | never => .text "never"

def SourceType.toDocument : SourceType → Document
  | script => .text "script"
  | module => .text "module"

def Options.toDocument (o : Options) : Document :=
  .object
    [("ecmaVersion", o.version.toDocument),
     ("sourceType", o.sourceType.toDocument),
     ("allowReserved", .optional AllowReserved.toDocument o.allowReserved),
     ("allowReturnOutsideFunction", .boolean o.allowReturnOutsideFunction),
     ("allowImportExportEverywhere", .boolean o.allowImportExportEverywhere),
     ("allowAwaitOutsideFunction", .boolean o.allowAwaitOutsideFunction),
     ("allowSuperOutsideMethod", .boolean o.allowSuperOutsideMethod),
     ("allowHashBang", .optional .boolean o.allowHashBang),
     ("checkPrivateFields", .boolean o.checkPrivateFields),
     ("locations", .boolean o.locations),
     ("ranges", .boolean o.ranges),
     ("sourceFile", .optional .text o.sourceFile)]

end ScriptSyntax
