/-!
What can be wrong with a regular expression.
-/

namespace ScriptSyntax
namespace RegExp

inductive Fault where
  | invalidFlag
  | duplicateFlag
  | tooDeeplyNested
  | unmatchedParenthesis
  | loneQuantifierBrackets
  | invalidEscape
  | invalidNamedCapture
  | nothingToRepeat
  | invalidQuantifier
  | unterminatedGroup
  | quantifierOutOfOrder
  | incompleteQuantifier
  | duplicateModifiers
  | invalidModifiers
  | invalidGroup
  | duplicateGroupName
  | invalidGroupName
  | invalidUnicodeEscape
  | invalidNamedReference
  | invalidPropertyName
  | invalidPropertyValue
  | unterminatedClass
  | negatedStringClass
  | invalidClass
  | rangeOutOfOrder
  | invalidClassEscape
  | invalidClassCharacter
deriving DecidableEq, Inhabited, Repr

def Fault.message : Fault → String
  | invalidFlag => "Invalid regular expression flag"
  | duplicateFlag => "Duplicate regular expression flag"
  | tooDeeplyNested => "Too deeply nested"
  | unmatchedParenthesis => "Unmatched ')'"
  | loneQuantifierBrackets => "Lone quantifier brackets"
  | invalidEscape => "Invalid escape"
  | invalidNamedCapture => "Invalid named capture referenced"
  | nothingToRepeat => "Nothing to repeat"
  | invalidQuantifier => "Invalid quantifier"
  | unterminatedGroup => "Unterminated group"
  | quantifierOutOfOrder => "numbers out of order in \x7b\x7d quantifier"
  | incompleteQuantifier => "Incomplete quantifier"
  | duplicateModifiers => "Duplicate regular expression modifiers"
  | invalidModifiers => "Invalid regular expression modifiers"
  | invalidGroup => "Invalid group"
  | duplicateGroupName => "Duplicate capture group name"
  | invalidGroupName => "Invalid capture group name"
  | invalidUnicodeEscape => "Invalid unicode escape"
  | invalidNamedReference => "Invalid named reference"
  | invalidPropertyName => "Invalid property name"
  | invalidPropertyValue => "Invalid property value"
  | unterminatedClass => "Unterminated character class"
  | negatedStringClass => "Negated character class may contain strings"
  | invalidClass => "Invalid character class"
  | rangeOutOfOrder => "Range out of order in character class"
  | invalidClassEscape => "Invalid class escape"
  | invalidClassCharacter => "Invalid character in character class"

end RegExp
end ScriptSyntax
