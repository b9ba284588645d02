import Offside.Source.Location
import Offside.Text.Quoted
import Offside.Ty

/-!
# Diagnostics

Why a source is refused.  A cause says what is wrong; its name, its wording, its tip
and the stage that it belongs to are each one function of the cause.  A diagnostic is
a cause at a location.

A stage may also stop for want of a source text at a position, or of steps; these two
endings are no statements about the program and are kept apart in `Failure`.
-/

namespace Offside

/-- The two families of causes: malformed text, and violated typing rules. -/
inductive Stage where
  | parse
  | typeCheck
  deriving DecidableEq, Repr

/-- What is wrong with a source. -/
inductive Cause where
  -- tokens and concrete syntax
  | unrecognisedToken (token : String)
  | inconsistentIndentation
  | unexpectedToken (token : String)
  | unexpectedTokenDetailed (token message : String)
  -- from concrete syntax to programs
  | numberParseError (token : String)
  | notALiteral (text : String)
  | unknownOperator (op : String)
  | unsupportedCallee (text : String)
  | builtinArity (name : String) (expected received : Nat)
  | unsupportedExpression (text : String)
  | unsupportedStatement (text : String)
  | unsupportedAssignTarget (text : String)
  | declarationAfterStatement (name : String)
  | missingDelimiter (expected : String)
  | malformedList (text : String)
  | emptyIndex
  | tooManySliceIndices (count : Nat)
  | comprehensionMismatch (opening closing : String)
  | missingParameterType (name : String)
  | invalidType (text : String)
  | invalidVarInit (name : String)
  | invalidGenericParameter (text : String)
  | unsupportedBaseClass (text : String)
  | invalidClassBody (className : String)
  | invalidProgram
  -- typing
  | unboundId (name : String)
  | undefinedFunction (name : String)
  | typeMatchError (expected received : Ty)
  | operatorTypeMismatch (op : String) (left right : Ty)
  | unaryOperatorTypeMismatch (op : String) (operand : Ty)
  | classEquality (op : String)
  | isOperandsNotObjects (left right : Ty)
  | conditionNotBool (received : Ty)
  | returnOutsideFunction
  | returnTypeMismatch (expected received : Ty)
  | unexpectedArguments (name : String) (expected received : Nat)
  | argumentTypeMatchError (expected received : Ty)
  | initReturnNotNone (className : String)
  | initSignatureOverridden (className : String)
  | notAnObject (operation : String) (received : Ty)
  | unknownClass (name : String)
  | unknownField (className field : String)
  | unknownMethod (className method : String)
  | printObject
  | indexNotInteger (received : Ty)
  | cannotIndex (received : Ty)
  | itemAssignmentUnsupported (received : Ty)
  | incompatibleListElements (first element : Ty)
  | notIterable (received : Ty)
  | outsideLoop (keyword : String)
  deriving Repr

namespace Cause

/-- The name under which a cause is reported. -/
def name : Cause → String
  | .unrecognisedToken _ => "UnrecognisedToken"
  | .inconsistentIndentation => "InconsistentIndentation"
  | .unexpectedToken _ => "UnexpectedToken"
  | .unexpectedTokenDetailed .. => "UnexpectedTokenDetailed"
  | .numberParseError _ => "NumberParseError"
  | .notALiteral _ => "NotALiteral"
  | .unknownOperator _ => "UnknownOperator"
  | .unsupportedCallee _ => "UnsupportedCallee"
  | .builtinArity .. => "BuiltinArity"
  | .unsupportedExpression _ => "UnsupportedExpression"
  | .unsupportedStatement _ => "UnsupportedStatement"
  | .unsupportedAssignTarget _ => "UnsupportedAssignTarget"
  | .declarationAfterStatement _ => "DeclarationAfterStatement"
  | .missingDelimiter _ => "MissingDelimiter"
  | .malformedList _ => "MalformedList"
  | .emptyIndex => "EmptyIndex"
  | .tooManySliceIndices _ => "TooManySliceIndices"
  | .comprehensionMismatch .. => "ComprehensionMismatch"
  | .missingParameterType _ => "MissingTypeAnnotation"
  | .invalidType _ => "InvalidTypeAnnotation"
  | .invalidVarInit _ => "InvalidVarInit"
  | .invalidGenericParameter _ => "InvalidGenericParameter"
  | .unsupportedBaseClass _ => "UnsupportedBaseClass"
  | .invalidClassBody _ => "InvalidClassBody"
  | .invalidProgram => "InvalidProgram"
  | .unboundId _ => "UnboundId"
  | .undefinedFunction _ => "UndefinedFunction"
  | .typeMatchError .. => "TypeMatchError"
  | .operatorTypeMismatch .. => "OperatorTypeMismatch"
  | .unaryOperatorTypeMismatch .. => "UnaryOperatorTypeMismatch"
  | .classEquality _ => "ClassEquality"
  | .isOperandsNotObjects .. => "IsOperandsNotObjects"
  | .conditionNotBool _ => "ConditionNotBool"
  | .returnOutsideFunction => "ReturnOutsideFunction"
  | .returnTypeMismatch .. => "ReturnTypeMismatch"
  | .unexpectedArguments .. => "UnexpectedArguments"
  | .argumentTypeMatchError .. => "ArgumentTypeMatchError"
  | .initReturnNotNone _ => "InitReturnNotNone"
  | .initSignatureOverridden _ => "InitSignatureOverridden"
  | .notAnObject .. => "NotAnObject"
  | .unknownClass _ => "UnknownClass"
  | .unknownField .. => "UnknownField"
  | .unknownMethod .. => "UnknownMethod"
  | .printObject => "PrintObject"
  | .indexNotInteger _ => "IndexNotInteger"
  | .cannotIndex _ => "CannotIndex"
  | .itemAssignmentUnsupported _ => "ItemAssignmentUnsupported"
  | .incompatibleListElements .. => "IncompatibleListElements"
  | .notIterable _ => "NotIterable"
  | .outsideLoop _ => "OutsideLoop"

/-- The stage that raises a cause. -/
def stage : Cause → Stage
  | .unrecognisedToken _ | .inconsistentIndentation | .unexpectedToken _
  | .unexpectedTokenDetailed .. | .numberParseError _ | .notALiteral _ | .unknownOperator _
  | .unsupportedCallee _ | .builtinArity .. | .unsupportedExpression _ | .unsupportedStatement _
  | .unsupportedAssignTarget _ | .declarationAfterStatement _ | .missingDelimiter _
  | .malformedList _ | .emptyIndex | .tooManySliceIndices _ | .comprehensionMismatch ..
  | .missingParameterType _ | .invalidType _ | .invalidVarInit _
  | .invalidGenericParameter _ | .unsupportedBaseClass _ | .invalidClassBody _
  | .invalidProgram => .parse
  | .unboundId _ | .undefinedFunction _ | .typeMatchError .. | .operatorTypeMismatch ..
  | .unaryOperatorTypeMismatch .. | .classEquality _ | .isOperandsNotObjects ..
  | .conditionNotBool _ | .returnOutsideFunction | .returnTypeMismatch ..
  | .unexpectedArguments .. | .argumentTypeMatchError .. | .initReturnNotNone _
  | .initSignatureOverridden _ | .notAnObject .. | .unknownClass _ | .unknownField ..
  | .unknownMethod .. | .printObject | .indexNotInteger _ | .cannotIndex _
  | .itemAssignmentUnsupported _ | .incompatibleListElements .. | .notIterable _
  | .outsideLoop _ => .typeCheck

/-- A text between backquotes. -/
def ticked (text : String) : String := "`" ++ text ++ "`"

open Text (quoted) in
/-- What is wrong, in words. -/
def message : Cause → String
  | .unrecognisedToken token => "unrecognised token: " ++ quoted token
  | .inconsistentIndentation => "inconsistent indentation"
  | .unexpectedToken token => "unexpected token: " ++ quoted token
  | .unexpectedTokenDetailed token message =>
    "unexpected token (" ++ message ++ "): " ++ quoted token
  | .numberParseError token => "error parsing number: " ++ quoted token
  | .notALiteral text => "not a literal: " ++ quoted text
  | .unknownOperator op => "could not parse operator: " ++ quoted op
  | .unsupportedCallee text => "unsupported call target: " ++ quoted text
  | .builtinArity name expected received =>
    "builtin " ++ quoted name ++ " takes " ++ toString expected ++ " argument(s), received " ++
      toString received
  | .unsupportedExpression text => "could not parse expression: " ++ quoted text
  | .unsupportedStatement text => "could not parse statement: " ++ quoted text
  | .unsupportedAssignTarget text => "unknown target while parsing assignment: " ++ quoted text
  | .declarationAfterStatement name =>
    "declaration of " ++ quoted name ++ " after the first statement"
  | .missingDelimiter expected => "missing " ++ quoted expected
  | .malformedList text => "malformed list near " ++ quoted text
  | .emptyIndex => "there should be at least one value inside the brackets"
  | .tooManySliceIndices count =>
    "too many indices (" ++ toString count ++ "), maximum is three"
  | .comprehensionMismatch opening closing =>
    "comprehension start and end mismatch: " ++ quoted opening ++ " and " ++ quoted closing
  | .missingParameterType name => "missed type annotation for parameter " ++ quoted name
  | .invalidType text => "invalid type annotation: " ++ quoted text
  | .invalidVarInit name => "invalid variable init: " ++ quoted name
  | .invalidGenericParameter text => "expected TypeVar in Generic[] args, found " ++ quoted text
  | .unsupportedBaseClass text => "unsupported base class " ++ quoted text
  | .invalidClassBody className => "could not parse the body of class " ++ quoted className
  | .invalidProgram => "could not parse program"
  | .unboundId name => "unbound id: " ++ quoted name
  | .undefinedFunction name => "undefined function: " ++ quoted name
  | .typeMatchError expected received =>
    "types do not match: expected " ++ ticked expected.text ++ ", received " ++
      ticked received.text
  | .operatorTypeMismatch op left right =>
    "type mismatch for operator " ++ ticked op ++ ": " ++ ticked left.text ++ " and " ++
      ticked right.text
  | .unaryOperatorTypeMismatch op operand =>
    "type mismatch for operator " ++ ticked op ++ ": " ++ ticked operand.text
  | .classEquality op => "cannot apply operator " ++ ticked op ++ " on class types"
  | .isOperandsNotObjects left right =>
    "`is` operands must be objects, received " ++ ticked left.text ++ " and " ++
      ticked right.text
  | .conditionNotBool received =>
    "condition expression must be a bool, received " ++ ticked received.text
  | .returnOutsideFunction => "cannot return outside of functions"
  | .returnTypeMismatch expected received =>
    "expected return type " ++ ticked expected.text ++ "; got type " ++ ticked received.text
  | .unexpectedArguments name expected received =>
    "unexpected arguments for " ++ quoted name ++ ": expected " ++ toString expected ++
      ", received " ++ toString received
  | .argumentTypeMatchError expected received =>
    "argument types do not match: expected " ++ ticked expected.text ++ ", received " ++
      ticked received.text
  | .initReturnNotNone className =>
    "__init__ of " ++ quoted className ++ " must have a None return type"
  | .initSignatureOverridden className =>
    "cannot override __init__ type signature of " ++ quoted className
  | .notAnObject operation received =>
    operation ++ " requires an object, received " ++ ticked received.text
  | .unknownClass name => "unknown class " ++ quoted name
  | .unknownField className field =>
    "could not find field " ++ quoted field ++ " in class " ++ quoted className
  | .unknownMethod className method =>
    "could not find method " ++ quoted method ++ " in class " ++ quoted className
  | .printObject => "print can't be called on objects"
  | .indexNotInteger received => "index is of non-integer type " ++ ticked received.text
  | .cannotIndex received => "cannot index into type " ++ ticked received.text
  | .itemAssignmentUnsupported received =>
    "type " ++ ticked received.text ++ " does not support item assignment"
  | .incompatibleListElements first element =>
    "list has incompatible types: " ++ ticked element.text ++ " and " ++ ticked first.text
  | .notIterable received => "type " ++ ticked received.text ++ " is not iterable"
  | .outsideLoop keyword => quoted keyword ++ " outside of a loop"

/-- Advice on how to mend the source, where there is any. -/
def tip : Cause → Option String
  | .inconsistentIndentation => some "Dedent does not match any outer indentation level"
  | .unexpectedToken token => some ("Unexpected token: " ++ ticked token)
  | .unexpectedTokenDetailed token message =>
    some ("Unexpected token: " ++ ticked token ++ ", " ++ message)
  | .numberParseError token =>
    some ("Invalid number: " ++ ticked token ++ ", is it above the integer limit?")
  | .missingDelimiter expected => some ("Expected " ++ ticked expected ++ " here")
  | .declarationAfterStatement name =>
    some ("Move the declaration of " ++ ticked name ++ " above the first statement")
  | .missingParameterType name =>
    some ("Add a type annotation, e.g. " ++ ticked (name ++ ": int"))
  | .invalidVarInit name =>
    some ("Declare " ++ ticked name ++ " with a type and a literal value, e.g. " ++
      ticked (name ++ ": int = 0"))
  | .unsupportedBaseClass _ => some "Only `object` and `Generic[...]` are allowed as bases"
  | .unboundId name => some ("Variable " ++ ticked name ++ " not declared")
  | .unexpectedArguments _ expected received =>
    some ("Expected " ++ toString expected ++ " arguments, received " ++ toString received)
  | .argumentTypeMatchError expected received =>
    some ("Expected argument type " ++ ticked expected.text ++ ", received " ++
      ticked received.text)
  | .typeMatchError expected received =>
    some ("Expected type " ++ ticked expected.text ++ ", received " ++ ticked received.text)
  | .classEquality _ => some "Use `is` to compare objects"
  | .initSignatureOverridden className =>
    some ("`__init__` must be declared as " ++
      ticked ("def __init__(self: " ++ className ++ "):"))
  | .printObject => some "Print one of the object's fields instead"
  | .notIterable _ => some "Classes are iterable when they declare `next` and `hasnext`"
  | _ => none

end Cause

/-- A cause at the place where it was found. -/
structure Diagnostic where
  cause : Cause
  location : Location
  deriving Repr

/-- A diagnostic in words, with its place. -/
def Diagnostic.message (diagnostic : Diagnostic) : String :=
  diagnostic.cause.message ++ " at line " ++ toString diagnostic.location.line ++
    ", column " ++ toString diagnostic.location.column

/-- Why a stage gives no result. -/
inductive Failure where
  /-- The source is refused. -/
  | refused (diagnostic : Diagnostic)
  /-- A position was used that is not the start of a character. -/
  | offBoundary
  /-- The steps allotted to the stage did not suffice. -/
  | unfinished
  deriving Repr

/-- The result of a stage, or why there is none. -/
abbrev Outcome := Except Failure

namespace Outcome

/-- The location of a position that should be one of the source. -/
def locate (source : Source) (position : Nat) : Outcome Location :=
  match Source.location? source position with
  | some location => .ok location
  | none => .error .offBoundary

/-- Refuses the source for a cause at a position. -/
def refuseAt {α : Type} (source : Source) (position : Nat) (cause : Cause) : Outcome α :=
  match Source.location? source position with
  | some location => .error (.refused ⟨cause, location⟩)
  | none => .error .offBoundary

end Outcome
end Offside
