/-!
# Complaints about a source text

What can be wrong with a source text, and how it is said. A diagnostic is a complaint with the byte
offset at which it arises.
-/

namespace UnusedMethods.Script

/-- What is wrong with a source text. -/
inductive Complaint where
  -- characters and tokens
  | invalidCharacter (c : Char)
  | unexpectedEnd
  | afterNumber
  | badUnicodeEscape
  | badEscape
  | badTemplateEscape
  | openString
  | openComment
  | openRegex
  | unknownFlag (c : Char)
  | repeatedFlag (c : Char)
  | clashingFlags
  | escapedKeyword
  | markupCloser (c entity : String)
  | unexpectedToken
  | diffMarker
  | expected (wanted found : String)
  | expectedEither (wanted other found : String)
  | noSemicolon
  | trailingComma (what : String)
  | flow
  | tooDeep
  | typedOnly (what : String)
  -- names
  | reservedName (word : String)
  | nameExpected
  | keywordReserved (word : String)
  | strictAssignment (word : String)
  | awaitName
  | yieldName
  | letName (binding : String)
  | redeclared (name : String)
  | redeclaredLabel (name : String)
  | argumentsPlace (place : String)
  -- expressions
  | badTarget
  | patternOperator
  | instantiatedTarget
  | restTarget
  | defaultOperator
  | unfinishedObject
  | emptyParens
  | exponentOperand
  | mixedCoalesce
  | spreadNotLast
  | optionalNew
  | newImport
  | nameAfterOptional
  | strayMarkup
  | strayAwait
  | staticAwait
  | strayYield
  | parameterOperator (word : String)
  | arrowNewline
  | badSuper
  | superCall
  | superMember
  | superOutsideDerived
  | superPrivate
  | newTarget
  | onlyMeta (owner property : String)
  | deleteName
  | deletePrivate
  | octalLiteral
  | leadingZero
  | privateOutside (name : String)
  | privateUndeclared (name : String)
  | noSpecifier
  | importArguments
  | importMeta
  | optionalTemplate
  | markupMismatch (name : String)
  | emptyMarkupExpression
  | markupComma
  -- statements
  | strayReturn
  | strayBreak
  | strayContinue
  | continueTarget
  | jumpBoundary
  | undefinedLabel
  | withStatement
  | throwNewline
  | noCatch
  | noSwitchClause
  | awaitLoop
  | asyncLoop
  | letLoop
  | usingLoop (binding : String)
  | annotatedLoop (loop : String)
  | badFunctionPlace
  | badClassPlace
  | badAsyncPlace
  | badGeneratorPlace
  | lexicalPlace
  | noInitializer (what : String)
  | usingInitializer
  | usingPattern
  | usingExport
  | usingScript
  | usingCase
  | loopManyDeclarations (loop : String)
  | loopInitializer (loop : String)
  -- functions
  | noBody
  | noFunctionName
  | ambientBody
  | strictParameters
  | restNotLast
  | restElementNotLast
  | restInitializer
  | restOptional
  | restKey
  | badRest
  | getterParameters
  | setterParameters
  | setterRest
  | setterDefault
  | setterResult
  | accessorBody
  | requiredAfterOptional
  | arrowThis
  -- classes
  | noClassName
  | constructorField
  | constructorAccessorField
  | privateConstructor
  | staticPrototype
  | constructorGenerator
  | constructorAsync
  | constructorAccessor
  | constructorThis
  | constructorTypes
  | severalConstructors
  | missingConstructor
  | missingImplementation
  | overloadDecorator
  | decoratorPlace
  | decoratorTwice
  | decoratorParens
  | extendsTwice
  | extendsLate
  | implementsTwice
  | extendsMany
  | abstractOutside (what : String)
  | abstractBody (what name : String)
  | abstractInitializer (name : String)
  | abstractConstructor
  | parameterPattern
  | parameterProperty
  | optionalDefinite
  | optionalAccessor
  -- modifiers
  | accessibilityTwice
  | modifierTwice (word : String)
  | modifierOrder (word before : String)
  | modifiersHere
  | modifierUnusable (word : String)
  | modifierOnParameter (word : String)
  | modifierOnElement (word : String)
  | modifierOnTypeMember (word : String)
  | modifierOnTypeParameter (word : String)
  | modifierOnIndex (word : String)
  | modifierWithAccessor (word : String)
  | modifierVariance (word : String)
  | modifierReadonly
  | readonlyType
  | constMember
  | accessibilityPrivate
  -- types
  | emptyTypeParameters
  | emptyTypeArguments
  | takenTypeName (what name : String)
  | typeMark (mark place : String)
  | tupleOptionalRest
  | tupleLateOptional
  | tupleLateRest
  | stringExpected
  | indexParameters
  | indexQuestion
  | indexUntyped
  | interfaceExtends
  | interfaceImplements
  | numericEnumMember
  | enumComputedName
  | enumInitializer
  | definiteWithInitializer
  | definiteWithoutType
  | strayTyping
  | strayOptional
  -- modules
  | stringExport
  | reservedExport
  | loneSurrogate
  | strayExport
  | undefinedExport (name : String)
  | repeatedExport (name : String)
  | repeatedDefault
  | typeOfTypeImport
  | typeOfTypeExport
  | outsideModule (what : String)
  | notTopLevel (what : String)
  | namespacePlace
  | globalDeclare
  | assignmentMixed
  | assignmentInNamespace
deriving Repr

/-- The wording of a complaint. -/
def Complaint.message : Complaint → String
  | .invalidCharacter c => "Invalid Character `" ++ c.toString ++ "`"
  | .unexpectedEnd => "Unexpected end of file"
  | .afterNumber => "Invalid characters after number"
  | .badUnicodeEscape => "Invalid Unicode escape sequence"
  | .badEscape => "Invalid escape sequence"
  | .badTemplateEscape => "Bad escape sequence in untagged template literal"
  | .openString => "Unterminated string"
  | .openComment => "Unterminated multiline comment"
  | .openRegex => "Unterminated regular expression"
  | .unknownFlag c => "Unexpected flag " ++ c.toString ++ " in regular expression literal"
  | .repeatedFlag c => "Flag " ++ c.toString ++ " is mentioned twice in regular expression literal"
  | .clashingFlags => "The 'u' and 'v' regular expression flags cannot be enabled at the same time"
  | .escapedKeyword => "Keywords cannot contain escape characters"
  | .markupCloser c entity =>
    "Unexpected token. Did you mean `\x7b'" ++ c ++ "'\x7d` or `" ++ entity ++ "`?"
  | .unexpectedToken => "Unexpected token"
  | .diffMarker => "Encountered diff marker"
  | .expected wanted found => "Expected `" ++ wanted ++ "` but found `" ++ found ++ "`"
  | .expectedEither wanted other found =>
    "Expected `" ++ wanted ++ "` or `" ++ other ++ "` but found `" ++ found ++ "`"
  | .noSemicolon =>
    "Expected a semicolon or an implicit semicolon after a statement, but found none"
  | .trailingComma what => what ++ " may not have a trailing comma."
  | .flow => "Flow is not supported"
  | .tooDeep => "Source is nested too deeply"
  | .typedOnly what => what ++ " can only be used in TypeScript files."
  | .reservedName word =>
    "Identifier expected. '" ++ word ++ "' is a reserved word that cannot be used here."
  | .nameExpected => "Identifier expected."
  | .keywordReserved word => "The keyword '" ++ word ++ "' is reserved"
  | .strictAssignment word => "Cannot assign to '" ++ word ++ "' in strict mode"
  | .awaitName => "Cannot use `await` as an identifier in an async context"
  | .yieldName => "Cannot use `yield` as an identifier in a generator context"
  | .letName binding =>
    "`let` cannot be declared as a variable name inside of a `" ++ binding ++ "` declaration"
  | .redeclared name => "Identifier `" ++ name ++ "` has already been declared"
  | .redeclaredLabel name => "Label `" ++ name ++ "` has already been declared"
  | .argumentsPlace place => "'arguments' is not allowed in " ++ place
  | .badTarget => "Cannot assign to this expression"
  | .patternOperator => "Invalid left-hand side in assignment"
  | .instantiatedTarget =>
    "The left-hand side of an assignment expression must be a variable or a property access."
  | .restTarget => "Invalid rest operator's argument."
  | .defaultOperator => "Only '=' operator can be used for specifying default value."
  | .unfinishedObject => "Invalid assignment in object literal"
  | .emptyParens => "Empty parenthesized expression"
  | .exponentOperand => "Unexpected exponentiation expression"
  | .mixedCoalesce => "Logical expressions and coalesce expressions cannot be mixed"
  | .spreadNotLast => "Spread must be last element"
  | .optionalNew => "Invalid optional chain from new expression."
  | .newImport => "Cannot use new with dynamic import"
  | .nameAfterOptional => "Identifier expected after '?.'"
  | .strayMarkup => "Unexpected JSX expression"
  | .strayAwait => "`await` is only allowed within async functions and at the top levels of modules"
  | .staticAwait => "Cannot use await in class static initialization block"
  | .strayYield => "A 'yield' expression is only allowed in a generator body."
  | .parameterOperator word => word ++ " expression not allowed in formal parameter"
  | .arrowNewline => "Line terminator not permitted before arrow"
  | .badSuper => "'super' can only be used with function calls or in property accesses"
  | .superCall =>
    "Super calls are not permitted outside constructors or in nested functions inside constructors."
  | .superMember =>
    "'super' can only be referenced in members of derived classes or object literal expressions."
  | .superOutsideDerived => "'super' can only be referenced in a derived class."
  | .superPrivate => "Private fields cannot be accessed on super"
  | .newTarget => "Unexpected new.target expression"
  | .onlyMeta owner property =>
    "The only valid meta property for " ++ owner ++ " is " ++ owner ++ "." ++ property
  | .deleteName => "Delete of an unqualified identifier in strict mode."
  | .deletePrivate => "The operand of a 'delete' operator cannot be a private identifier."
  | .octalLiteral => "'0'-prefixed octal literals and octal escape sequences are deprecated"
  | .leadingZero => "Decimals with leading zeros are not allowed in strict mode"
  | .privateOutside name =>
    "Private identifier '#" ++ name ++ "' is not allowed outside class bodies"
  | .privateUndeclared name =>
    "Private field '" ++ name ++ "' must be declared in an enclosing class"
  | .noSpecifier => "import() requires a specifier."
  | .importArguments =>
    "Dynamic imports can only accept a module specifier and an optional set of attributes as " ++
      "arguments"
  | .importMeta => "Unexpected import.meta expression"
  | .optionalTemplate => "Tagged template expressions are not permitted in an optional chain"
  | .markupMismatch name => "Expected corresponding JSX closing tag for '" ++ name ++ "'."
  | .emptyMarkupExpression => "JSX attributes must only be assigned a non-empty 'expression'."
  | .markupComma => "JSX expressions may not use the comma operator"
  | .strayReturn => "A 'return' statement can only be used within a function body."
  | .strayBreak => "Illegal break statement"
  | .strayContinue => "Illegal continue statement: no surrounding iteration statement"
  | .continueTarget =>
    "A `continue` statement can only jump to a label of an enclosing `for`, `while` or `do " ++
      "while` statement."
  | .jumpBoundary => "Jump target cannot cross function boundary."
  | .undefinedLabel => "Use of undefined label"
  | .withStatement => "'with' statements are not allowed"
  | .throwNewline => "Illegal newline after throw"
  | .noCatch => "Missing catch or finally clause"
  | .noSwitchClause => "Expected switch clause"
  | .awaitLoop => "await can only be used in conjunction with `for...of` statements"
  | .asyncLoop => "The left-hand side of a `for...of` statement may not be `async`"
  | .letLoop => "The left-hand side of a `for...of` statement may not start with `let`"
  | .usingLoop binding =>
    "The left-hand side of a for...in statement cannot be an " ++ binding ++ " declaration."
  | .annotatedLoop loop =>
    "The left-hand side of a 'for..." ++ loop ++ "' statement cannot use a type annotation."
  | .badFunctionPlace => "Invalid function declaration"
  | .badClassPlace => "Invalid class declaration"
  | .badAsyncPlace => "Async functions can only be declared at the top level or inside a block"
  | .badGeneratorPlace => "Generators can only be declared at the top level or inside a block"
  | .lexicalPlace => "Lexical declaration cannot appear in a single-statement context"
  | .noInitializer what => "Missing initializer in " ++ what ++ " declaration"
  | .usingInitializer => "Using declarations must have an initializer."
  | .usingPattern => "Using declarations may not have binding patterns."
  | .usingExport => "Using declarations cannot be exported directly."
  | .usingScript => "Using declaration cannot appear in the top level when source type is `script`"
  | .usingCase => "Using declaration cannot appear in the bare case statement."
  | .loopManyDeclarations loop =>
    "Only a single declaration is allowed in a `for..." ++ loop ++ "` statement"
  | .loopInitializer loop =>
    "for-" ++ loop ++ " loop variable declaration may not have an initializer"
  | .noBody => "Expected function body"
  | .noFunctionName => "Expected function name"
  | .ambientBody => "An implementation cannot be declared in ambient contexts."
  | .strictParameters => "Illegal 'use strict' directive in function with non-simple parameter list"
  | .restNotLast => "A rest parameter must be last in a parameter list"
  | .restElementNotLast => "A rest element must be last in a destructuring pattern"
  | .restInitializer => "A rest element cannot have an initializer."
  | .restOptional => "A rest parameter cannot be optional"
  | .restKey => "A rest element cannot have a property name."
  | .badRest => "Invalid rest element"
  | .getterParameters => "A 'get' accessor must not have any formal parameters."
  | .setterParameters => "A 'set' accessor must have exactly one parameter."
  | .setterRest => "A 'set' accessor cannot have rest parameter."
  | .setterDefault => "A 'set' accessor cannot have an initializer."
  | .setterResult => "A 'set' accessor cannot have a return type annotation."
  | .accessorBody => "Getters and setters must have an implementation."
  | .requiredAfterOptional => "A required parameter cannot follow an optional parameter."
  | .arrowThis => "An arrow function cannot have a `this` parameter."
  | .noClassName => "A class name is required."
  | .constructorField => "Classes can't have a field named 'constructor'"
  | .constructorAccessorField => "Classes may not have a field named 'constructor'"
  | .privateConstructor => "Classes can't have an element named '#constructor'"
  | .staticPrototype => "Classes may not have a static property named 'prototype'"
  | .constructorGenerator => "Constructor can't be a generator"
  | .constructorAsync => "Constructor can't be an async method"
  | .constructorAccessor => "Constructor can't have get/set modifier"
  | .constructorThis => "A constructor cannot have a `this` parameter."
  | .constructorTypes => "Type parameters cannot appear on a constructor declaration"
  | .severalConstructors => "Multiple constructor implementations are not allowed."
  | .missingConstructor => "Constructor implementation is missing."
  | .missingImplementation =>
    "Function implementation is missing or not immediately following the declaration."
  | .overloadDecorator => "A decorator can only decorate a method implementation, not an overload."
  | .decoratorPlace => "Decorators are not valid here."
  | .decoratorTwice =>
    "Decorators may not appear after 'export' or 'export default' if they also appear before " ++
      "'export'."
  | .decoratorParens => "Expression must be enclosed in parentheses to be used as a decorator."
  | .extendsTwice => "'extends' clause already seen"
  | .extendsLate => "'extends' clause must precede 'implements' clause"
  | .implementsTwice => "'implements' clause already seen"
  | .extendsMany => "Classes can only extend a single class."
  | .abstractOutside what => "Abstract " ++ what ++ " can only appear within an abstract class."
  | .abstractBody what name =>
    what ++ " '" ++ name ++ "' cannot have an implementation because it is marked abstract."
  | .abstractInitializer name =>
    "Property '" ++ name ++ "' cannot have an initializer because it is marked abstract."
  | .abstractConstructor =>
    "'abstract' modifier can only appear on a class, method, or property declaration."
  | .parameterPattern => "A parameter property may not be declared using a binding pattern."
  | .parameterProperty => "A parameter property is only allowed in a constructor implementation."
  | .optionalDefinite => "A property cannot be both optional and definite."
  | .optionalAccessor => "An 'accessor' property cannot be declared optional."
  | .accessibilityTwice => "Accessibility modifier already seen."
  | .modifierTwice word => "'" ++ word ++ "' modifier already seen."
  | .modifierOrder word before =>
    "'" ++ word ++ "' modifier must precede '" ++ before ++ "' modifier."
  | .modifiersHere => "Modifiers cannot appear here."
  | .modifierUnusable word => "'" ++ word ++ "' modifier cannot be used here."
  | .modifierOnParameter word => "'" ++ word ++ "' modifier cannot appear on a parameter."
  | .modifierOnElement word =>
    "'" ++ word ++ "' modifier cannot appear on class elements of this kind."
  | .modifierOnTypeMember word => "'" ++ word ++ "' modifier cannot appear on a type member."
  | .modifierOnTypeParameter word => "'" ++ word ++ "' modifier cannot appear on a type parameter."
  | .modifierOnIndex word => "'" ++ word ++ "' modifier cannot appear on an index signature."
  | .modifierWithAccessor word =>
    "'accessor' modifier cannot be used with '" ++ word ++ "' modifier."
  | .modifierVariance word =>
    "'" ++ word ++
      "' modifier can only appear on a type parameter of a class, interface or type alias."
  | .modifierReadonly =>
    "'readonly' modifier can only appear on a property declaration or index signature."
  | .readonlyType =>
    "'readonly' type modifier is only permitted on array and tuple literal types."
  | .constMember => "A class member cannot have the 'const' keyword."
  | .accessibilityPrivate => "An accessibility modifier cannot be used with a private identifier."
  | .emptyTypeParameters => "Type parameter list cannot be empty."
  | .emptyTypeArguments => "Type argument list cannot be empty."
  | .takenTypeName what name => what ++ " name cannot be '" ++ name ++ "'"
  | .typeMark mark place =>
    "'" ++ mark ++ "' at the " ++ place ++ " of a type is not valid TypeScript syntax."
  | .tupleOptionalRest => "A tuple member cannot be both optional and rest."
  | .tupleLateOptional =>
    "A labeled tuple element is declared as optional with a question mark after the name and " ++
      "before the colon, rather than after the type."
  | .tupleLateRest =>
    "A labeled tuple element is declared as rest with a '...' before the name, rather than " ++
      "before the type."
  | .stringExpected => "String literal expected."
  | .indexParameters => "An index signature must have exactly one parameter."
  | .indexQuestion => "An index signature parameter cannot have a question mark."
  | .indexUntyped => "An index signature must have a type annotation."
  | .interfaceExtends =>
    "An interface can only extend an identifier/qualified-name with optional type arguments."
  | .interfaceImplements => "Interface declaration cannot have 'implements' clause."
  | .numericEnumMember => "An enum member cannot have a numeric name."
  | .enumComputedName => "Computed property names are not allowed in enums."
  | .enumInitializer => "Enum member must have initializer."
  | .definiteWithInitializer =>
    "Declarations with initializers cannot also have definite assignment assertions."
  | .definiteWithoutType =>
    "Declarations with definite assignment assertions must also have type annotations."
  | .strayTyping => "Unexpected type annotation"
  | .strayOptional => "Unexpected `?` operator"
  | .stringExport => "A string literal cannot be used as an exported binding without `from`"
  | .reservedExport => "A reserved word cannot be used as an exported binding without `from`"
  | .loneSurrogate => "An export name cannot include a unicode lone surrogate"
  | .strayExport => "Unexpected export."
  | .undefinedExport name => "Export '" ++ name ++ "' is not defined"
  | .repeatedExport name => "Duplicated export '" ++ name ++ "'"
  | .repeatedDefault => "Duplicated default export"
  | .typeOfTypeImport =>
    "The 'type' modifier cannot be used on a named import when 'import type' is used on its " ++
      "import statement."
  | .typeOfTypeExport =>
    "The 'type' modifier cannot be used on a named export when 'export type' is used on its " ++
      "export statement."
  | .outsideModule what => "Cannot use " ++ what ++ " outside a module"
  | .notTopLevel what =>
    "'" ++ what ++ "' declaration can only be used at the top level of a module"
  | .namespacePlace =>
    "A namespace declaration is only allowed at the top level of a namespace or module."
  | .globalDeclare =>
    "Augmentations for the global scope should have 'declare' modifier unless they appear in " ++
      "already ambient context."
  | .assignmentMixed =>
    "An export assignment cannot be used in a module with other exported elements."
  | .assignmentInNamespace => "An export assignment cannot be used in a namespace."

/-- A complaint and where it arises. -/
structure Diagnostic where
  complaint : Complaint
  place : Nat
deriving Repr

end UnusedMethods.Script
