/-!
Words with a meaning of their own: keywords, and the reserved words of each edition.
-/

namespace ScriptSyntax
namespace Word

/-- Words that are keywords in every edition. -/
def commonKeywords : List String :=
  ["break", "case", "catch", "continue", "debugger", "default", "do", "else", "finally", "for",
   "function", "if", "return", "switch", "throw", "try", "var", "while", "with", "null", "true",
   "false", "instanceof", "typeof", "void", "delete", "new", "in", "this"]

def moduleKeywords : List String := ["export", "import"]

def classKeywords : List String := ["const", "class", "extends", "super"]

/-- Is `word` a keyword of `edition`?  Modules have `import` and `export` in every edition. -/
def isKeyword (edition : Nat) (inModule : Bool) (word : String) : Bool :=
  commonKeywords.contains word ||
    (moduleKeywords.contains word && (6 ≤ edition || inModule)) ||
    (classKeywords.contains word && 6 ≤ edition)

/-- Reserved in the third edition. -/
def thirdEditionReserved : List String :=
  ["abstract", "boolean", "byte", "char", "class", "double", "enum", "export", "extends", "final",
   "float", "goto", "implements", "import", "int", "interface", "long", "native", "package",
   "private", "protected", "public", "short", "static", "super", "synchronized", "throws",
   "transient", "volatile"]

/-- Reserved in the fifth edition. -/
def fifthEditionReserved : List String :=
  ["class", "enum", "extends", "super", "const", "export", "import"]

/-- Reserved in strict code only. -/
def strictReserved : List String :=
  ["implements", "interface", "let", "package", "private", "protected", "public", "static", "yield"]

end Word

/-- What decides which words are reserved. -/
structure ReservedWords where
  edition : Nat
  inModule : Bool
  allowed : Bool
deriving DecidableEq, Inhabited

namespace ReservedWords

open Word

/-- Reserved in sloppy code. -/
def contains (r : ReservedWords) (word : String) : Bool :=
  !r.allowed &&
    ((r.inModule && word == "await") ||
      (if 6 ≤ r.edition then word == "enum"
       else if r.edition = 5 then fifthEditionReserved.contains word
       else thirdEditionReserved.contains word))

/-- Reserved in strict code. -/
def containsStrict (r : ReservedWords) (word : String) : Bool :=
  r.contains word || strictReserved.contains word

/-- Not to be bound or assigned in strict code. -/
def containsStrictBinding (r : ReservedWords) (word : String) : Bool :=
  r.containsStrict word || word == "eval" || word == "arguments"

@[simp] theorem contains_of_allowed (r : ReservedWords) (word : String) (h : r.allowed = true) :
    r.contains word = false := by
  simp [contains, h]

end ReservedWords
end ScriptSyntax
