import ScriptSyntax.RegExp.Fault

/-!
What can be wrong with a text, and how each fault is worded.
-/

namespace ScriptSyntax

inductive Fault where
  | unexpectedToken
  -- characters and tokens
  | invalidCharacterPosition
  | unexpectedCharacter (c : Char)
  | unterminatedComment
  | unterminatedRegExp
  | invalidRegExp (pattern : String) (fault : RegExp.Fault)
  | separatorInLegacyOctal
  | separatorRepeated
  | separatorFirst
  | separatorLast
  | numberExpected (radix : Nat)
  | identifierAfterNumber
  | invalidNumber
  | badEscape
  | codePointOutOfBounds
  | unterminatedString
  | unterminatedTemplate
  | invalidEscape
  | invalidEscapeInTemplate
  | octalInTemplate
  | octalInStrictMode
  | unicodeEscapeExpected
  | invalidUnicodeEscape
  -- words
  | escapeInKeyword (keyword : String)
  | yieldInGenerator
  | awaitInAsync
  | argumentsInFieldInitializer
  | nameInStaticBlock (name : String)
  | unexpectedKeyword (name : String)
  | awaitOutsideAsync
  | reservedWord (name : String)
  -- expressions
  | tooDeeplyNested
  | mixedCoalesce
  | privateRightOperand
  | deleteVariable
  | deletePrivate
  | optionalCallee
  | optionalTag
  | superOutsideMethod
  | superCallOutsideConstructor
  | newMetaProperty
  | escapedNewTarget
  | newTargetOutsideFunction
  | importTrailingComma
  | importMetaProperty
  | escapedImportMeta
  | importMetaOutsideModule
  | badTemplateEscape
  | unterminatedTemplateLiteral
  | getterParameters
  | setterParameters
  | setterRest
  | protoRedefined
  | propertyRedefined
  | privateUndeclared (name : String)
  | shorthandAssignment
  | yieldInParameters
  | awaitInParameters
  | strictDirectiveInComplexFunction
  -- targets and patterns
  | commaAfterRest
  | assignToRvalue
  | parenthesizedPattern
  | accessorInPattern
  | restDefault
  | compoundDefault
  | optionalTarget
  | alreadyDeclared (name : String)
  | strictBinding (name : String)
  | strictAssignment (name : String)
  | lexicalLet
  | argumentClash
  | bindingMember
  | bindingRvalue
  -- statements
  | moduleItemNested
  | moduleItemInScript
  | usingMisplaced
  | awaitUsingOutsideAsync
  | unsyntacticBreak
  | unsyntacticContinue
  | withInStrictMode
  | returnOutsideFunction
  | multipleDefaults
  | newlineAfterThrow
  | missingCatch
  | labelDeclared (name : String)
  | forOfLet
  | forInInitializer
  | forOfInitializer
  | missingInitializer (kind : String)
  | patternInitializer
  -- classes
  | duplicateConstructor
  | privateRedeclared (name : String)
  | accessorConstructor
  | privateConstructor
  | generatorConstructor
  | asyncConstructor
  | staticPrototypeMethod
  | constructorField
  | staticPrototypeField
  -- modules
  | undefinedExport (name : String)
  | loneSurrogateName
  | duplicateAttribute (name : String)
  | duplicateExport (name : String)
  | stringExport
  /-- A fault of an extension's own. -/
  | other (text : String)
deriving DecidableEq, Inhabited, Repr

namespace Fault

def message : Fault → String
  | unexpectedToken => "Unexpected token"
  | invalidCharacterPosition => "Invalid character position"
  | unexpectedCharacter c => "Unexpected character '" ++ c.toString ++ "'"
  | unterminatedComment => "Unterminated comment"
  | unterminatedRegExp => "Unterminated regular expression"
  | invalidRegExp pattern fault =>
    "Invalid regular expression: /" ++ pattern ++ "/: " ++ fault.message
  | separatorInLegacyOctal =>
    "Numeric separator is not allowed in legacy octal numeric literals"
  | separatorRepeated => "Numeric separator must be exactly one underscore"
  | separatorFirst => "Numeric separator is not allowed at the first of digits"
  | separatorLast => "Numeric separator is not allowed at the last of digits"
  | numberExpected radix => "Expected number in radix " ++ toString radix
  | identifierAfterNumber => "Identifier directly after number"
  | invalidNumber => "Invalid number"
  | badEscape => "Bad character escape sequence"
  | codePointOutOfBounds => "Code point out of bounds"
  | unterminatedString => "Unterminated string constant"
  | unterminatedTemplate => "Unterminated template"
  | invalidEscape => "Invalid escape sequence"
  | invalidEscapeInTemplate => "Invalid escape sequence in template string"
  | octalInTemplate => "Octal literal in template string"
  | octalInStrictMode => "Octal literal in strict mode"
  | unicodeEscapeExpected => "Expecting Unicode escape sequence \\uXXXX"
  | invalidUnicodeEscape => "Invalid Unicode escape"
  | escapeInKeyword keyword => "Escape sequence in keyword " ++ keyword
  | yieldInGenerator => "Cannot use 'yield' as identifier inside a generator"
  | awaitInAsync => "Cannot use 'await' as identifier inside an async function"
  | argumentsInFieldInitializer => "Cannot use 'arguments' in class field initializer"
  | nameInStaticBlock name =>
    "Cannot use " ++ name ++ " in class static initialization block"
  | unexpectedKeyword name => "Unexpected keyword '" ++ name ++ "'"
  | awaitOutsideAsync => "Cannot use keyword 'await' outside an async function"
  | reservedWord name => "The keyword '" ++ name ++ "' is reserved"
  | tooDeeplyNested => "Maximum nesting depth exceeded"
  | mixedCoalesce =>
    "Logical expressions and coalesce expressions cannot be mixed. Wrap either by parentheses"
  | privateRightOperand => "Private identifier can only be left side of binary expression"
  | deleteVariable => "Deleting local variable in strict mode"
  | deletePrivate => "Private fields can not be deleted"
  | optionalCallee => "Optional chaining cannot appear in the callee of new expressions"
  | optionalTag => "Optional chaining cannot appear in the tag of tagged template expressions"
  | superOutsideMethod => "'super' keyword outside a method"
  | superCallOutsideConstructor => "super() call outside constructor of a subclass"
  | newMetaProperty => "The only valid meta property for new is 'new.target'"
  | escapedNewTarget => "'new.target' must not contain escaped characters"
  | newTargetOutsideFunction =>
    "'new.target' can only be used in functions and class static block"
  | importTrailingComma => "Trailing comma is not allowed in import()"
  | importMetaProperty => "The only valid meta property for import is 'import.meta'"
  | escapedImportMeta => "'import.meta' must not contain escaped characters"
  | importMetaOutsideModule => "Cannot use 'import.meta' outside a module"
  | badTemplateEscape => "Bad escape sequence in untagged template literal"
  | unterminatedTemplateLiteral => "Unterminated template literal"
  | getterParameters => "getter should have no params"
  | setterParameters => "setter should have exactly one param"
  | setterRest => "Setter cannot use rest params"
  | protoRedefined => "Redefinition of __proto__ property"
  | propertyRedefined => "Redefinition of property"
  | privateUndeclared name =>
    "Private field '#" ++ name ++ "' must be declared in an enclosing class"
  | shorthandAssignment =>
    "Shorthand property assignments are valid only in destructuring patterns"
  | yieldInParameters => "Yield expression cannot be a default value"
  | awaitInParameters => "Await expression cannot be a default value"
  | strictDirectiveInComplexFunction =>
    "Illegal 'use strict' directive in function with non-simple parameter list"
  | commaAfterRest => "Comma is not permitted after the rest element"
  | assignToRvalue => "Assigning to rvalue"
  | parenthesizedPattern => "Parenthesized pattern"
  | accessorInPattern => "Object pattern can't contain getter or setter"
  | restDefault => "Rest elements cannot have a default value"
  | compoundDefault => "Only '=' operator can be used for specifying default value."
  | optionalTarget => "Optional chaining cannot appear in left-hand side"
  | alreadyDeclared name => "Identifier '" ++ name ++ "' has already been declared"
  | strictBinding name => "Binding " ++ name ++ " in strict mode"
  | strictAssignment name => "Assigning to " ++ name ++ " in strict mode"
  | lexicalLet => "let is disallowed as a lexically bound name"
  | argumentClash => "Argument name clash"
  | bindingMember => "Binding member expression"
  | bindingRvalue => "Binding rvalue"
  | moduleItemNested => "'import' and 'export' may only appear at the top level"
  | moduleItemInScript => "'import' and 'export' may appear only with 'sourceType: module'"
  | usingMisplaced =>
    "Using declaration cannot appear in the top level when source type is `script` " ++
      "or in the bare case statement"
  | awaitUsingOutsideAsync => "Await using cannot appear outside of async function"
  | unsyntacticBreak => "Unsyntactic break"
  | unsyntacticContinue => "Unsyntactic continue"
  | withInStrictMode => "'with' in strict mode"
  | returnOutsideFunction => "'return' outside of function"
  | multipleDefaults => "Multiple default clauses"
  | newlineAfterThrow => "Illegal newline after throw"
  | missingCatch => "Missing catch or finally clause"
  | labelDeclared name => "Label '" ++ name ++ "' is already declared"
  | forOfLet => "The left-hand side of a for-of loop may not start with 'let'."
  | forInInitializer => "for-in loop variable declaration may not have an initializer"
  | forOfInitializer => "for-of loop variable declaration may not have an initializer"
  | missingInitializer kind => "Missing initializer in " ++ kind ++ " declaration"
  | patternInitializer => "Complex binding patterns require an initialization value"
  | duplicateConstructor => "Duplicate constructor in the same class"
  | privateRedeclared name => "Identifier '#" ++ name ++ "' has already been declared"
  | accessorConstructor => "Constructor can't have get/set modifier"
  | privateConstructor => "Classes can't have an element named '#constructor'"
  | generatorConstructor => "Constructor can't be a generator"
  | asyncConstructor => "Constructor can't be an async method"
  | staticPrototypeMethod => "Classes may not have a static property named prototype"
  | constructorField => "Classes can't have a field named 'constructor'"
  | staticPrototypeField => "Classes can't have a static field named 'prototype'"
  | undefinedExport name => "Export '" ++ name ++ "' is not defined"
  | loneSurrogateName => "An export name cannot include a lone surrogate."
  | duplicateAttribute name => "Duplicate attribute key '" ++ name ++ "'"
  | duplicateExport name => "Duplicate export '" ++ name ++ "'"
  | stringExport => "A string literal cannot be used as an exported binding without `from`."
  | other text => text

end Fault
end ScriptSyntax
