import ConfigBinding.DottedName
import ConfigBinding.Scope
import ConfigBinding.Token.Lexer

/-!
# Syntax errors

Why a text is not a sequence of statements, and the span that a report points at. A cause holds the
words that it concerns; its wording is one function of the cause (`SyntaxError.message`).
-/

namespace ConfigBinding

namespace SyntaxError

/-- The place in the grammar at which a token was not expected. -/
inductive Place
  | value | mapKey | macroName | referenceScope | reference
  | statementStart | importPath | importAlias | includePath
  | bindingTarget | paramName | afterValue | afterBinding
deriving DecidableEq, Repr

def Place.text : Place → String
  | .value => "where a value was expected"
  | .mapKey => "where a string mapping key was expected"
  | .macroName => "in macro name"
  | .referenceScope => "in reference scope"
  | .reference => "in reference"
  | .statementStart => "at start of statement"
  | .importPath => "in import"
  | .importAlias => "after `as`"
  | .includePath => "where an include path string was expected"
  | .bindingTarget => "in binding target"
  | .paramName => "where a parameter name was expected"
  | .afterValue => "after value"
  | .afterBinding => "after binding"

/-- What is wrong. Where a token was found or not, `none` stands for the end of the input. -/
inductive Cause
  | lexical (cause : LexError.Cause) (message : String)
  | expected (mark : Mark) (found : Option Token)
  | unexpected (found : Option Token) (place : Place)
  /-- A name with dots stands where a scope segment has to be. -/
  | dottedScope (name : DottedName)
  /-- Only one thing can be imported from `__gin__`. -/
  | unknownSwitch (name : String)
  /-- A macro cannot be defined in a scope, and a binding needs a parameter. -/
  | scopedMacro (scope : Scope) (name : DottedName)
  | repeatedParam (param : String)
  /-- A statement that is no binding was given where only bindings are taken. -/
  | notBinding
deriving DecidableEq

/-- The kinds of syntax errors. -/
inductive Kind
  | invalidToken
  | unexpectedToken
  | unexpectedEnd
  | invalidStatement
deriving DecidableEq, Repr

end SyntaxError

/-- A syntax error with the span that it concerns. -/
structure SyntaxError where
  cause : SyntaxError.Cause
  span : Span
deriving DecidableEq

namespace SyntaxError

def kind (error : SyntaxError) : Kind :=
  match error.cause with
  | .lexical _ _ => .invalidToken
  | .expected _ none | .unexpected none _ => .unexpectedEnd
  | .expected _ (some _) | .unexpected (some _) _ => .unexpectedToken
  | _ => .invalidStatement

def message (error : SyntaxError) : String :=
  match error.cause with
  | .lexical _ message => message
  | .expected mark (some token) =>
    "expected `" ++ mark.spelling ++ "`, found `" ++ token.toText ++ "`"
  | .expected mark none => "expected `" ++ mark.spelling ++ "`, found end of input"
  | .unexpected (some token) place => "unexpected `" ++ token.toText ++ "` " ++ place.text
  | .unexpected none place => "unexpected end of input " ++ place.text
  | .dottedScope name => "scope name `" ++ name.toText ++ "` cannot be dotted"
  | .unknownSwitch name => "unknown `__gin__` import `" ++ name ++ "`"
  | .scopedMacro scope name =>
    "`" ++ scope.toText ++ "/" ++ name.toText
      ++ "` is neither a macro nor a binding; bindings need `Symbol.parameter`"
  | .repeatedParam param => "parameter `" ++ param ++ "` bound twice in one block"
  | .notBinding => "only `key = value` bindings are allowed here"

/-- The report of a text that could not be read as tokens. -/
def ofLexError (file : Nat) (error : LexError) : SyntaxError :=
  ⟨.lexical error.cause error.message, ⟨file, error.start, error.stop⟩⟩

/-- Reads the tokens of a text, with their offsets as spans store them. The offset at each end of a
span is that of a token, and readers do not calculate with them. -/
def readStored {α : Type} (file : Nat) (text : String)
    (read : List Lexeme → Except SyntaxError α) : Except SyntaxError α :=
  match tokenize text with
  | .error error => .error (.ofLexError file error.stored)
  | .ok lexemes => read (lexemes.map Lexeme.stored)

end SyntaxError

end ConfigBinding
