import DocQuery.Double.Decimal
import DocQuery.Instant.Printer
import DocQuery.Value.Json

/-!
What can go wrong: each cause, its kind, and the words that report it.

A fault says what is wrong with a filter, a schema, an expression, a stage or a value that one of them
met. A failure adds where in a pipeline it happened.
-/

namespace DocQuery

inductive FaultKind where
  | queryShape
  | typeMismatch
  | arithmetic
  | groupKey
  | jsonSchema
  | limitExceeded
  | serialization
deriving DecidableEq

inductive Fault where
  -- Text
  | notJson
  -- Filters
  | filterNotObject (found : Value)
  | mixedCondition (names : List String)
  | optionsWithoutRegex
  | operatorCount (names : List String)
  | unknownFieldOperator (name : String)
  | unknownDocumentOperator (name : String)
  | operandNotArray (operator : String)
  | clausesNotArray (operator : String)
  | elemMatchNotObject
  | sizeNotCount (found : Value)
  | unknownTypeAlias (found : Value)
  | regexNotString
  | regexOptionsNotString
  | regexFlag (flag : Char)
  | regexPattern (pattern : String)
  | modNotPair
  | modNotNumber (found : Value)
  | modDivisorZero
  | bitsNotMask (operator : String) (found : Value)
  | notWithoutDocument
  | textWithoutSearch
  | textSearchRefused (reason : String)
  -- Schemas
  | schemaNotObject
  | schemaNotCount (keyword : String)
  | schemaNotNumber (keyword : String)
  | schemaTypeNotString (keyword : String)
  | schemaUnknownType (name : String)
  | requiredNotArray
  | requiredNotString
  | propertiesNotObject
  | schemaPatternNotString
  | schemaPattern (pattern : String)
  | enumNotArray
  | additionalNotBool
  | schemaUnknownKeyword (keyword : String)
  | inProperty (field : String) (cause : Fault)
  -- Expressions
  | bareDollar
  | undefinedVariable (name : String)
  | unknownOperator (name : String)
  | operatorNotAlone (names : List String)
  | argumentCount (operator : String) (wanted found : Nat)
  | argumentRange (operator : String) (least most found : Nat)
  | notUnary (operator : String) (found : Nat)
  | roundArguments (operator : String) (found : Nat)
  | ifNullArguments
  | argumentsNotObject (operator : String)
  | unknownArgument (operator name : String)
  | missingArgument (operator name : String)
  | variableName (operator name : String)
  | wrongType (operator wanted : String) (found : Value)
  | letVarsNotObject
  | branchesNotArray
  | noBranch
  | twoDates
  | divideByZero (operator : String)
  | zeroToNegativePower
  | negativeRoot
  | logOfNonPositive (operator : String) (found : Double)
  | placesOutOfRange (operator : String) (found : Int)
  | offsetOutOfRange (operator : String) (found : Double)
  | dateOutOfRange (operator : String) (date : Instant) (millis : Int)
  | filterLimit (found : Int)
  | sliceCount (found : Int)
  | rangeStepZero
  | rangeTooLong (count limit : Int)
  | notPair (found : Value)
  | substringStart (found : Int)
  | emptyDelimiter
  | conversionFailed (operator : String) (found : Value)
  | unknownTimezone (operator name : String)
  | dateFormat (cause : LocalTime.FormatFault)
  | notDateText (text : String)
  | millisOutOfRange (millis : Int)
  -- Accumulators and stages
  | unknownAccumulator (name : String)
  | groupNotObject
  | groupWithoutId
  | inGroupId (cause : Fault)
  | groupFieldDotted (field : String)
  | groupFieldShape (field : String)
  | countWithArguments
  | sortByCountShape
  | tooManyGroups (limit : Nat)
  | tooManyDocuments (count limit : Nat)
  | notDocument (stage : String) (found : Value)
  | fieldName (stage field : String)
  | stageNotObject (stage : String)
  | stageWithoutFields (stage : String)
  | projectNotObject
  | exclusionInInclusion (field : String)
  | unsetShape
  | unsetNothing
  | sortNoKeys
  | sortDirection (field : String)
  | stageCount (stage : String) (least : Int) (found : Value)
  | countFieldNotString
  | countFieldDotted
  | replaceRootShape
  | newRootNotObject (found : Value)
  | unwindIndexNotString
  | unwindPreserveNotBool
  | unwindUnknownOption (name : String)
  | unwindWithoutPath
  | unwindShape
  | unwindPathPrefix
  -- Pipelines
  | pipelineNotArray
  | stepNotObject
  | stepOperatorCount (names : List String)
  | unknownStage (name : String)

namespace Fault

def kind : Fault → FaultKind
  | notJson => .serialization
  | modDivisorZero | divideByZero _ | zeroToNegativePower | negativeRoot | logOfNonPositive ..
  | offsetOutOfRange .. | dateOutOfRange .. => .arithmetic
  | textSearchRefused _ | wrongType .. | noBranch | twoDates | notPair _ | conversionFailed ..
  | notDateText _ | millisOutOfRange _ | notDocument .. | newRootNotObject _ => .typeMismatch
  | schemaNotObject | schemaNotCount _ | schemaNotNumber _ | schemaTypeNotString _ | schemaUnknownType _
  | requiredNotArray | requiredNotString | propertiesNotObject | schemaPatternNotString | schemaPattern _
  | enumNotArray | additionalNotBool | schemaUnknownKeyword _ | inProperty .. => .jsonSchema
  | rangeTooLong .. | tooManyGroups _ | tooManyDocuments .. => .limitExceeded
  | groupWithoutId | inGroupId _ => .groupKey
  | _ => .queryShape

def commaList (names : List String) : String := ", ".intercalate names

/-- The words of a fault without its kind. -/
def text : Fault → String
  | notJson => "not a JSON text"
  | filterNotObject v => "filter must be an object, got " ++ v.typeName
  | mixedCondition names =>
    "cannot mix operators and field names in a condition: \x7b" ++ commaList names ++ "\x7d"
  | optionsWithoutRegex => "$options needs a $regex"
  | operatorCount names => "an operator object must hold exactly one operator, found [" ++ commaList names ++ "]"
  | unknownFieldOperator name => "unknown operator: " ++ name
  | unknownDocumentOperator name => "unknown top level operator: " ++ name
  | operandNotArray op => op ++ " needs an array"
  | clausesNotArray op => op ++ " argument must be an array"
  | elemMatchNotObject => "$elemMatch needs an Object"
  | sizeNotCount v => "$size needs a non-negative integer, got " ++ v.jsonText
  | unknownTypeAlias v => "unknown type name alias: " ++ v.jsonText
  | regexNotString => "$regex has to be a string"
  | regexOptionsNotString => "$options has to be a string"
  | regexFlag c => "invalid flag in regex options: " ++ c.toString
  | regexPattern p => "Invalid regex pattern '" ++ p ++ "'"
  | modNotPair => "malformed mod, needs to be an array of [divisor, remainder]"
  | modNotNumber v => "malformed mod, " ++ v.jsonText ++ " is not a number"
  | modDivisorZero => "$mod divisor cannot be 0"
  | bitsNotMask op v =>
    op ++ " takes a non-negative integer bitmask or an array of bit positions, got " ++ v.jsonText
  | notWithoutDocument => "$not needs a regex or a document"
  | textWithoutSearch => "$text requires a $search string"
  | textSearchRefused reason => reason
  | schemaNotObject => "Schema must be an object"
  | schemaNotCount k => k ++ " must be a non-negative integer"
  | schemaNotNumber k => k ++ " must be a number"
  | schemaTypeNotString k => k ++ " must be a string or an array of strings"
  | schemaUnknownType name => "Unsupported type '" ++ name ++ "'"
  | requiredNotArray => "required must be an array of field names"
  | requiredNotString => "required entries must be strings"
  | propertiesNotObject => "properties must be an object"
  | schemaPatternNotString => "pattern must be a string"
  | schemaPattern p => "invalid regex pattern '" ++ p ++ "'"
  | enumNotArray => "enum must be an array"
  | additionalNotBool => "additionalProperties must be a boolean"
  | schemaUnknownKeyword k => "Unsupported keyword '" ++ k ++ "'"
  | inProperty field cause => "property '" ++ field ++ "': " ++ cause.text
  | bareDollar => "'$' is not a valid field path"
  | undefinedVariable name => "Use of undefined variable: $$" ++ name
  | unknownOperator name => "Unknown expression operator: " ++ name
  | operatorNotAlone names =>
    "an expression object with an operator must have exactly one field, found: " ++ commaList names
  | argumentCount op wanted found =>
    op ++ " requires exactly " ++ toString wanted ++ " arguments, got " ++ toString found
  | argumentRange op least most found =>
    op ++ " requires between " ++ toString least ++ " and " ++ toString most ++ " arguments, got " ++ toString found
  | notUnary op found => op ++ " takes exactly 1 argument, got " ++ toString found
  | roundArguments op found => op ++ " requires 1 or 2 arguments, got " ++ toString found
  | ifNullArguments => "$ifNull requires at least 2 arguments"
  | argumentsNotObject op => op ++ " requires an object argument"
  | unknownArgument op name => op ++ " found an unknown argument: " ++ name
  | missingArgument op name => op ++ " requires '" ++ name ++ "' to be specified"
  | variableName op name => op ++ " has an invalid variable name: '" ++ name ++ "'"
  | wrongType op wanted v => op ++ " requires " ++ wanted ++ ", found " ++ v.typeName
  | letVarsNotObject => "$let 'vars' must be an object"
  | branchesNotArray => "$switch expected an array for 'branches'"
  | noBranch => "$switch could not find a matching branch for an input, and no default was specified"
  | twoDates => "$add only supports one date argument"
  | divideByZero op => op ++ " by zero"
  | zeroToNegativePower => "$pow cannot raise 0 to a negative exponent"
  | negativeRoot => "$sqrt's argument must be greater than or equal to 0"
  | logOfNonPositive op x => op ++ "'s argument must be a positive number, got " ++ x.toText
  | placesOutOfRange op n => op ++ " places must be between -20 and 100, got " ++ toString n
  | offsetOutOfRange op x => op ++ " offset " ++ x.toText ++ " is not a representable number of milliseconds"
  | dateOutOfRange op t millis =>
    op ++ ": shifting " ++ t.toFullText ++ " by " ++ toString millis ++ "ms leaves the date range"
  | filterLimit n => "$filter limit must be a positive integer, got " ++ toString n
  | sliceCount n => "$slice count must be positive, got " ++ toString n
  | rangeStepZero => "$range requires a non-zero step value"
  | rangeTooLong count limit =>
    "$range would produce " ++ toString count ++ " elements, more than the limit of " ++ toString limit
  | notPair v =>
    "$arrayToObject requires \x7bk, v\x7d objects or [key, value] pairs, found " ++ v.jsonText
  | substringStart n => "$substrCP start must be non-negative, got " ++ toString n
  | emptyDelimiter => "$split requires a non-empty delimiter"
  | conversionFailed op v => op ++ " failed to convert " ++ v.typeName ++ " value " ++ v.jsonText
  | unknownTimezone op name => op ++ ": unrecognized timezone '" ++ name ++ "'"
  | dateFormat .openToken => "$dateToString format cannot end with '%'"
  | dateFormat (.unknownToken c) => "$dateToString has an invalid format specifier: %" ++ c.toString
  | notDateText s => "$toDate cannot parse '" ++ s ++ "' as a date"
  | millisOutOfRange n => "$toDate: " ++ toString n ++ " is out of the date range"
  | unknownAccumulator name => "unknown group operator '" ++ name ++ "'"
  | groupNotObject => "$group must be an object"
  | groupWithoutId => "a group specification must include an _id"
  | inGroupId cause => cause.text
  | groupFieldDotted field => "the group aggregate field name '" ++ field ++ "' cannot contain '.'"
  | groupFieldShape field =>
    "the group aggregate field '" ++ field ++ "' must be defined as an expression inside an object"
  | countWithArguments => "$count takes no arguments, i.e. $count: \x7b\x7d"
  | sortByCountShape => "$sortByCount requires a field path or an operator expression"
  | tooManyGroups limit => "$group would create more than " ++ toString limit ++ " groups"
  | tooManyDocuments count limit =>
    "pipeline input has " ++ toString count ++ " documents, limit is " ++ toString limit
  | notDocument stage v => stage ++ " expects documents, found " ++ v.typeName
  | fieldName stage field => stage ++ ": invalid field name '" ++ field ++ "'"
  | stageNotObject stage => stage ++ " specification must be an object"
  | stageWithoutFields stage => stage ++ " specification must have at least one field"
  | projectNotObject => "$project must be an object"
  | exclusionInInclusion field => "Cannot do exclusion on field '" ++ field ++ "' in inclusion projection"
  | unsetShape => "$unset specification must be a string or an array of strings"
  | unsetNothing => "$unset specification must name at least one field"
  | sortNoKeys => "$sort stage must have at least one sort key"
  | sortDirection field =>
    "$sort key ordering for '" ++ field ++ "' must be 1 (for ascending) or -1 (for descending)"
  | stageCount stage least v =>
    stage ++ " requires an integer >= " ++ toString least ++ ", found " ++ v.jsonText
  | countFieldNotString => "$count field name must be a string"
  | countFieldDotted => "$count field name must not contain '.'"
  | replaceRootShape => "$replaceRoot specification must be \x7bnewRoot: <expression>\x7d"
  | newRootNotObject v =>
    "'newRoot' expression must evaluate to an object, but resulting value was: " ++ v.jsonText
  | unwindIndexNotString => "$unwind includeArrayIndex must be a string"
  | unwindPreserveNotBool => "$unwind preserveNullAndEmptyArrays must be a boolean"
  | unwindUnknownOption name => "unrecognized option to $unwind stage: " ++ name
  | unwindWithoutPath => "$unwind requires a string 'path'"
  | unwindShape => "$unwind specification must be a string or an object"
  | unwindPathPrefix => "path option to $unwind stage should be prefixed with a '$'"
  | pipelineNotArray => "Pipeline must be an array"
  | stepNotObject => "Stage must be an object"
  | stepOperatorCount names => "Each stage must have exactly one operator, found [" ++ commaList names ++ "]"
  | unknownStage name => "Unknown pipeline stage: " ++ name

end Fault

/-- How each kind is announced. -/
def FaultKind.announcement : FaultKind → String
  | queryShape => "Invalid query shape"
  | typeMismatch => "Type mismatch"
  | arithmetic => "Arithmetic error"
  | groupKey => "Invalid group key"
  | jsonSchema => "Invalid $jsonSchema"
  | limitExceeded => "Limit exceeded"
  | serialization => "Serialization error"

def Fault.message (f : Fault) : String := f.kind.announcement ++ ": " ++ f.text

/-- A fault, and the stage of a pipeline in which it arose if there is one. -/
inductive Failure where
  | plain (cause : Fault)
  | inStage (index : Nat) (stage : String) (cause : Fault)

namespace Failure

def cause : Failure → Fault
  | plain cause | inStage _ _ cause => cause

def message : Failure → String
  | plain cause => cause.message
  | inStage index stage cause => "Stage " ++ toString index ++ " (" ++ stage ++ ") failed: " ++ cause.message

end Failure

abbrev Checked := Except Fault

abbrev Outcome := Except Failure

end DocQuery
