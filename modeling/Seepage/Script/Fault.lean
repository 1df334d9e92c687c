import Seepage.Text.Quoted

set_option autoImplicit false

namespace Seepage.Script

inductive Cause where
  -- characters and tokens
  | unexpectedCharacter (char : Char)
  | unterminatedComment
  | unterminatedString
  | unterminatedTemplate
  | unterminatedRegex
  | badEscape (wanted : String)
  | invalidEscape
  | escapeCutOff
  | escapeExpected
  | escapedKeyword (word : String)
  | invalidNameCharacter
  | digitExpected (radix : Nat)
  | exponentExpected
  | identifierAfterNumber
  | misplacedSeparator
  | legacyOctal
  | legacyDecimal
  | octalInTypedCode
  | legacyComment
  | duplicateFlag (flag : Char)
  | unknownFlags
  | blankAfterHash
  -- the shape of the text
  | unexpectedEnd
  | expected (wanted got : String)
  | unexpected (got wanted : String)
  | identExpected
  | expressionExpected
  | semicolonExpected
  | statementEndExpected
  | trailingComma
  | breakAfterThrow
  | breakBeforeArrow
  | arrowNotAllowed
  | emptyParens
  | spreadInParens
  | notAnExpression
  -- modules
  | importOutsideModule
  | metaOutsideModule
  | importNotAllowed
  | trailingCommaInImport
  | importOfReserved
  | importOfString (name : String)
  | exportOfReserved (name : String)
  | exportOfString
  -- names
  | reservedInStrict (name : String)
  | reservedShorthand
  | awaitAsName
  | bindingOfEval
  | argumentsInField
  | privateConstructor
  -- assignments and patterns
  | notAssignable
  | notSimple
  | useOfArguments
  | invalidTarget
  | invalidPattern
  | restNotLast
  | commaAfterRest
  | restWithoutName
  | initializedProperty
  | patternWithoutValue
  | constWithoutValue
  | initializerInForHead
  | tooManyInForHead
  | asyncInForHead
  | annotationInForHead
  | patternInForHead
  | awaitWithoutOf
  | usingNotEnabled
  | usingWithoutValue
  | usingOfPattern
  | usingInForIn
  | emptyDeclarations
  -- operators
  | unaryBeforePower
  | mixedNullish
  | deleteOfName
  | deleteOfOther
  | newOnChain
  | optionalSuper
  | superNotAllowed
  | superCallNotAllowed
  | superPrivateName
  | nonNullNotAllowed (word : String)
  | taggedOnChain
  -- functions
  | awaitOutsideAsync
  | awaitOutsideModule
  | awaitInParameter
  | awaitStar
  | yieldInParameter
  | newTargetOutside
  | strictWithPatterns
  | restParameterNotLast
  | restParameterWithValue
  | optionalRest
  | optionalWithValue
  | optionalPattern
  | parameterPropertyPattern
  | parameterProperty
  | parameterValueInSignature
  | bodyInAmbientCode
  | getterWithParameter
  | setterParameterCount
  | restInSetter
  -- classes
  | duplicateConstructor
  | asyncConstructor
  | generatorConstructor
  | accessorConstructor
  | fieldConstructor
  | secondExtends
  | secondImplements
  | severalParents
  | invalidClassName
  | modifierSeen (word : String)
  | modifierOrder (first second : String)
  | modifierConflict (first second : String)
  | modifierNotHere
  | modifierOnConstructor (word : String)
  | modifierOnTypeParameter (word : String)
  | modifierOfTypeOwner (word : String)
  | modifierOfTypeFunction (word : String)
  | typeParametersOnConstructor
  | typeParametersMissing
  | annotationOnConstructor
  | typeParametersOnAccessor
  | overrideWithoutParent
  | abstractOutside
  | abstractWithBody
  | abstractWithValue
  | abstractNotHere
  | asyncNotHere
  | declareNotHere
  | declareInAmbientCode
  | readonlyMethod
  | readonlyAccessor
  | accessOnPrivateName
  | modifierOnPrivateName (word : String)
  -- jumps and other statements
  | returnOutside
  | breakOutside
  | breakUnknownLabel
  | continueOutside
  | continueUnknownLabel
  | duplicateLabel (name : String)
  | duplicateDefault
  | declarationNotAllowed
  | withInStrict
  | withInTypedCode
  | labelledFunction
  | labelledGenerator
  -- types
  | optionalMember
  | commaInKey
  | computedEnumMember
  | numericEnumMember
  | privateInInterface
  | invalidInterfaceName
  | invalidHeritage
  | indexParameterCount
  | requiredAfterOptional
  | emptyTypeArguments
  | nameExpected
  | stringExpected
  | setterWithoutParameter
  | typeOnTypeImport
  | typeOnTypeExport
  | tooDeep
deriving DecidableEq, Repr, Inhabited

structure Fault where
  cause : Cause
  pos : Nat
deriving DecidableEq, Repr, Inhabited

def radixName (radix : Nat) : String :=
  match radix with
  | 2 => "a binary"
  | 8 => "an octal"
  | 16 => "a hexadecimal"
  | _ => "a decimal"

def Cause.message : Cause → String
  | .unexpectedCharacter char => "Unexpected character " ++ Text.quotedSingle char
  | .unterminatedComment => "Unterminated block comment"
  | .unterminatedString => "Unterminated string constant"
  | .unterminatedTemplate => "Unterminated template"
  | .unterminatedRegex => "Unterminated regexp literal"
  | .badEscape wanted => "Bad character escape sequence, expected " ++ wanted
  | .invalidEscape => "Invalid unicode escape"
  | .escapeCutOff => "Invalid string escape"
  | .escapeExpected => "Expected unicode escape"
  | .escapedKeyword word => "Unexpected escape sequence in reserved word: " ++ word
  | .invalidNameCharacter => "Invalid character in identifier"
  | .digitExpected radix => "Expected " ++ radixName radix ++ " digit"
  | .exponentExpected => "Expected +, - or decimal digit after e"
  | .identifierAfterNumber => "Identifier cannot follow number"
  | .misplacedSeparator => "A numeric separator is only allowed between two digits"
  | .legacyOctal => "Legacy octal escape is not permitted in strict mode"
  | .legacyDecimal => "Legacy decimal escape is not permitted in strict mode"
  | .octalInTypedCode =>
    "Legacy octal literals are not available when targeting ECMAScript 5 and higher"
  | .legacyComment => "Legacy comments cannot be used in module code"
  | .duplicateFlag flag =>
    "Duplicated regular expression flag '" ++ String.singleton flag ++ "'."
  | .unknownFlags => "Unknown regular expression flags."
  | .blankAfterHash => "Unexpected space between # and identifier"
  | .unexpectedEnd => "Unexpected eof"
  | .expected wanted got => "Expected '" ++ wanted ++ "', got '" ++ got ++ "'"
  | .unexpected got wanted => "Unexpected token `" ++ got ++ "`. Expected " ++ wanted
  | .identExpected => "Expected ident"
  | .expressionExpected => "Expression expected"
  | .semicolonExpected => "Expected a semicolon"
  | .statementEndExpected => "Expected ';', '\x7d' or <eof>"
  | .trailingComma => "Trailing comma is not allowed"
  | .breakAfterThrow => "LineBreak cannot follow 'throw'"
  | .breakBeforeArrow => "Unexpected line break between arrow head and arrow"
  | .arrowNotAllowed => "An arrow function is not allowed here"
  | .emptyParens => "Parenthesized expression cannot be empty"
  | .spreadInParens => "Parenthesized expression cannot contain spread operator"
  | .notAnExpression => "Not an expression"
  | .importOutsideModule => "'import', and 'export' cannot be used outside of module code"
  | .metaOutsideModule => "'import.meta' cannot be used outside of module code."
  | .importNotAllowed => "Import is not allowed here"
  | .trailingCommaInImport => "Trailing comma is disallowed inside import(...) arguments"
  | .importOfReserved => "cannot import as reserved word"
  | .importOfString name =>
    "A string literal cannot be used as an imported binding.\n- Did you mean `import \x7b \"" ++
      name ++ "\" as foo \x7d`?"
  | .exportOfReserved name => "`" ++ name ++ "` cannot be used without `from` clause"
  | .exportOfString =>
    "A string literal cannot be used as an exported binding without `from`."
  | .reservedInStrict name => "`" ++ name ++ "` cannot be used as an identifier in strict mode"
  | .reservedShorthand => "Cannot use a reserved word as a shorthand property"
  | .awaitAsName => "`await` cannot be used as an identifier in an async context"
  | .bindingOfEval =>
    "'eval' and 'arguments' cannot be used as a binding identifier in strict mode"
  | .argumentsInField => "'arguments' is only allowed in functions and class methods"
  | .privateConstructor => "Classes can't have a private field named '#constructor'."
  | .notAssignable =>
    "The left-hand side of an assignment expression must be a variable or a property access."
  | .notSimple => "Cannot assign to this"
  | .useOfArguments => "Invalid use of 'arguments' in strict mode"
  | .invalidTarget => "Invalid assignment target"
  | .invalidPattern => "Not a pattern"
  | .restNotLast => "Rest element must be final element"
  | .commaAfterRest => "Trailing comma isn't permitted after a rest element"
  | .restWithoutName => "`...` must be followed by an identifier in declaration contexts"
  | .initializedProperty => "assignment property is invalid syntax"
  | .patternWithoutValue => "Destructuring bindings require initializers"
  | .constWithoutValue => "'const' declarations must be initialized"
  | .initializerInForHead => "Unexpected initializer in for in/of loop"
  | .tooManyInForHead => "Expected one variable binding"
  | .asyncInForHead => "The left-hand side of a `for...of` statement may not be `async`"
  | .annotationInForHead =>
    "The left-hand side of a 'for...of' statement cannot use a type annotation"
  | .patternInForHead =>
    "The left-hand side of a 'for...in' statement cannot be a destructuring pattern"
  | .awaitWithoutOf => "for await syntax is valid only for for-of statement"
  | .usingNotEnabled =>
    "Using declaration is not enabled. Set jsc.parser.explicitResourceManagement to true"
  | .usingWithoutValue => "Using declaration requires initializer"
  | .usingOfPattern => "Using declaration only allows identifiers"
  | .usingInForIn => "Using declaration is not allowed in for-in loop"
  | .emptyDeclarations => "Variable declaration list cannot be empty"
  | .unaryBeforePower => "'**' cannot be applied to unary/await expression."
  | .mixedNullish =>
    "Nullish coalescing operator(??) requires parens when mixing with logical operators"
  | .deleteOfName => "'delete' cannot be called on an identifier in strict mode"
  | .deleteOfOther => "The operand of a delete operator must be a property reference."
  | .newOnChain => "Constructor in/after an optional chaining is not allowed."
  | .optionalSuper => "Super call cannot be optional"
  | .superNotAllowed => "Invalid access to super"
  | .superCallNotAllowed => "Invalid `super()`"
  | .superPrivateName => "Index super with private name is not allowed"
  | .nonNullNotAllowed word =>
    "Typescript non-null assertion operator is not allowed with '" ++ word ++ "'"
  | .taggedOnChain => "Tagged template literal is not allowed in an optional chain"
  | .awaitOutsideAsync => "await isn't allowed in non-async function"
  | .awaitOutsideModule => "top level await is only allowed in module"
  | .awaitInParameter => "`await` expressions cannot be used in a parameter initializer."
  | .awaitStar =>
    "await* has been removed from the async functions proposal. Use Promise.all() instead."
  | .yieldInParameter => "'yield' cannot be used as a parameter within generator"
  | .newTargetOutside =>
    "'new.target' is only allowed in the body of a function declaration, function expression, " ++
      "or class."
  | .strictWithPatterns =>
    "Illegal 'use strict' directive in function with non-simple parameter list."
  | .restParameterNotLast => "A rest parameter must be last in a parameter list"
  | .restParameterWithValue => "A rest parameter cannot have an initializer"
  | .optionalRest => "A rest parameter cannot be optional"
  | .optionalWithValue => "Parameter cannot have question mark and initializer"
  | .optionalPattern =>
    "A binding pattern parameter cannot be optional in an implementation signature."
  | .parameterPropertyPattern =>
    "Typescript parameter property must be an identifier or assignment pattern"
  | .parameterProperty => "A parameter property is only allowed in a constructor implementation"
  | .parameterValueInSignature =>
    "A parameter initializer is only allowed in a function or constructor implementation"
  | .bodyInAmbientCode => "An implementation cannot be declared in ambient contexts"
  | .getterWithParameter => "A `get` accessor cannot have parameters"
  | .setterParameterCount => "A `set` accessor must have exactly one parameter"
  | .restInSetter => "Rest pattern is not allowed in setter"
  | .duplicateConstructor => "A class can only have one constructor"
  | .asyncConstructor => "Constructor can't be an async function"
  | .generatorConstructor => "A constructor cannot be generator"
  | .accessorConstructor => "Class constructor can't be an accessor"
  | .fieldConstructor => "Classes may not have a non-static field named 'constructor'"
  | .secondExtends => "`extends` clause already seen."
  | .secondImplements => "`implements` clause already seen"
  | .severalParents => "Classes can only extend a single class"
  | .invalidClassName => "Invalid class name"
  | .modifierSeen word => "'" ++ word ++ "' modifier already seen."
  | .modifierOrder first second =>
    "'" ++ first ++ "' modifier must precede '" ++ second ++ "' modifier."
  | .modifierConflict first second =>
    "'" ++ first ++ "' modifier cannot be used with '" ++ second ++ "' modifier."
  | .modifierNotHere => "Modifiers cannot appear here"
  | .modifierOnConstructor word =>
    "'" ++ word ++ "' modifier cannot appear on a constructor declaration"
  | .modifierOnTypeParameter word => "'" ++ word ++ "' modifier cannot appear on a type parameter"
  | .modifierOfTypeOwner word =>
    "'" ++ word ++ "' modifier can only appear on a type parameter of a class, interface or " ++
      "type alias"
  | .modifierOfTypeFunction word =>
    "'" ++ word ++ "' modifier can only appear on a type parameter of a function, method or class"
  | .typeParametersOnConstructor => "Type parameters cannot appear on a constructor declaration"
  | .typeParametersMissing => "Type parameter list cannot be empty"
  | .annotationOnConstructor => "Type annotation cannot appear on a constructor declaration"
  | .typeParametersOnAccessor => "An accessor cannot have type parameters"
  | .overrideWithoutParent =>
    "This member cannot have an 'override' modifier because its containing class does not " ++
      "extend another class."
  | .abstractOutside => "Abstract methods can only appear within an abstract class."
  | .abstractWithBody => "Abstract method cannot have an implementation."
  | .abstractWithValue => "Abstract property cannot have an initializer."
  | .abstractNotHere => "`abstract` modifier can only appear on a class or method declaration"
  | .asyncNotHere => "`async` modifier cannot be used here"
  | .declareNotHere => "`declare` modifier cannot appear on class elements of this kind"
  | .declareInAmbientCode =>
    "`declare` modifier not allowed for code already in an ambient context"
  | .readonlyMethod => "A method cannot be readonly"
  | .readonlyAccessor => "A getter or a setter cannot be readonly"
  | .accessOnPrivateName =>
    "An accessibility modifier cannot be used with a private identifier."
  | .modifierOnPrivateName word =>
    "'" ++ word ++ "' modifier cannot be used with a private identifier"
  | .returnOutside => "Return statement is not allowed here"
  | .breakOutside =>
    "A 'break' statement can only be used within an enclosing iteration or switch statement"
  | .breakUnknownLabel =>
    "A 'break' statement can only jump to a label of an enclosing statement"
  | .continueOutside =>
    "A 'continue' statement can only jump to a label of an enclosing iteration statement"
  | .continueUnknownLabel => "Jump target cannot cross function boundary"
  | .duplicateLabel name => "Label " ++ name ++ " is already declared"
  | .duplicateDefault => "A switch block cannot have multiple defaults"
  | .declarationNotAllowed => "Declaration is not allowed"
  | .withInStrict => "With statement are not allowed in strict mode"
  | .withInTypedCode =>
    "The 'with' statement is not supported. All symbols in a 'with' block will have type 'any'."
  | .labelledFunction => "Function cannot be labelled in strict mode"
  | .labelledGenerator => "Generator or async function cannot be labelled"
  | .optionalMember => "An object member cannot be declared optional"
  | .commaInKey => "A comma expression is not allowed in a computed property name"
  | .computedEnumMember => "Computed property names are not allowed in enums"
  | .numericEnumMember => "An enum member cannot have a numeric name"
  | .privateInInterface => "private names are not allowed in interface"
  | .invalidInterfaceName => "interface name is invalid"
  | .invalidHeritage =>
    "An interface can only extend an identifier/qualified-name with optional type arguments."
  | .indexParameterCount => "An index signature must have exactly one parameter"
  | .requiredAfterOptional => "A required element cannot follow an optional element."
  | .emptyTypeArguments => "Type argument list cannot be empty."
  | .nameExpected => "Expected an identifier"
  | .stringExpected => "String literal expected"
  | .setterWithoutParameter => "Setter should have exactly one parameter"
  | .typeOnTypeImport =>
    "The 'type' modifier cannot be used on a named import when 'import type' is used on its " ++
      "import statement."
  | .typeOnTypeExport =>
    "The 'type' modifier cannot be used on a named export when 'export type' is used on its " ++
      "export statement."
  | .tooDeep => "The text nests too deeply"

end Seepage.Script
