import ScriptSyntax.Alphabet
import ScriptSyntax.Word
import ScriptSyntax.Source.Position
import ScriptSyntax.Number.Decimal
import ScriptSyntax.Options
import ScriptSyntax.RegExp.Property
import ScriptSyntax.RegExp.Cursor
import ScriptSyntax.RegExp.Validator
import ScriptSyntax.SyntaxError
import ScriptSyntax.Context
import ScriptSyntax.Scope
import ScriptSyntax.Scope.PrivateNames
import ScriptSyntax.Source.Directive
import ScriptSyntax.Extension.Placeholder
import ScriptSyntax.Parser.Deferred
import ScriptSyntax.Tree.ESTree
import ScriptSyntax.Proofs.Accepted
import ScriptSyntax.Proofs.Ambient.Redefinition
import ScriptSyntax.Proofs.Chain.Parse
import ScriptSyntax.Proofs.Contextual
import ScriptSyntax.Proofs.Enclosed
import ScriptSyntax.Proofs.Lexer.Checkpoint
import ScriptSyntax.Proofs.Lexer.CommentFree
import ScriptSyntax.Proofs.Lexer.Gap
import ScriptSyntax.Proofs.Lexer.Opening
import ScriptSyntax.Proofs.Lexer.Spelling
import ScriptSyntax.Proofs.Lexer.Surrogate
import ScriptSyntax.Proofs.Lexer.Unglued
import ScriptSyntax.Proofs.RegExp.Core.Complete
import ScriptSyntax.Proofs.RegExp.Duplicate
import ScriptSyntax.Proofs.RegExp.Reread
import ScriptSyntax.Proofs.Scope.Conflict
import ScriptSyntax.Proofs.Source.Text
import ScriptSyntax.Proofs.Lexer.Alone
import ScriptSyntax.Proofs.Lexer.Reach
import ScriptSyntax.Proofs.Tandem.Atom
import ScriptSyntax.Proofs.Tandem.Statement
import ScriptSyntax.Proofs.Tandem.ModuleItem
import ScriptSyntax.Proofs.Tandem.Offset
import ScriptSyntax.Proofs.Tandem.Program
import ScriptSyntax.Proofs.Lexer.Lone
import ScriptSyntax.Proofs.Lexer.Advance
import ScriptSyntax.Proofs.Lexer.Base
import ScriptSyntax.Proofs.Lexer.Delimited
import ScriptSyntax.Proofs.Lexer.Separator
import ScriptSyntax.Proofs.Lexer.Word
import ScriptSyntax.Proofs.Number.Limbs
import ScriptSyntax.Proofs.RegExp.Bounds
import ScriptSyntax.Proofs.RegExp.Sets.Contents
import ScriptSyntax.Proofs.RegExp.Cursor.Discipline
