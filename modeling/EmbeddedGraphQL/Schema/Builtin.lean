import EmbeddedGraphQL.Schema.Basic

/-!
# Built-in types and directives

Every schema starts with the types that describe schemas, the scalar types of the language and the
directives every server knows.
-/

namespace EmbeddedGraphQL
namespace Builtin

/-- A field without arguments. -/
def field (description : Option String) (name : String) (type : TypeRef) : FieldDeclaration :=
  ⟨description, name, [], type, []⟩

/-- An input without a default value. -/
def input (description : Option String) (name : String) (type : TypeRef) : InputDeclaration :=
  ⟨description, name, type, none, []⟩

/-- The argument that asks for what is deprecated as well. -/
def includeDeprecated : InputDeclaration :=
  ⟨none, "includeDeprecated", .named "Boolean" false, some (.boolean false), []⟩

/-- A field that can be asked for what is deprecated as well. -/
def listing (name : String) (type : TypeRef) : FieldDeclaration :=
  ⟨none, name, [includeDeprecated], type, []⟩

/-- An enum value. -/
def enumValue (description name : String) : EnumDeclaration := ⟨some description, name, []⟩

/-- The type of schemas. -/
def schemaType : SchemaType where
  name := "__Schema"
  description := some
    ("A GraphQL Schema defines the capabilities of a GraphQL server. It exposes all available " ++
    "types and directives on the server, as well as the entry points for query, mutation, and " ++
    "subscription operations.")
  body := .object []
    [field none "description" (.named "String" false),
      field
        (some "A list of all types supported by this server.")
        "types" (.list (.named "__Type" true) true),
      field
        (some "The type that query operations will be rooted at.")
        "queryType" (.named "__Type" true),
      field
        (some ("If this server supports mutation, the type that mutation operations will be " ++
        "rooted at."))
        "mutationType" (.named "__Type" false),
      field
        (some ("If this server support subscription, the type that subscription operations will " ++
        "be rooted at."))
        "subscriptionType" (.named "__Type" false),
      field
        (some "A list of all directives supported by this server.")
        "directives" (.list (.named "__Directive" true) true)]

/-- The type of types. -/
def typeType : SchemaType where
  name := "__Type"
  description := some
    ("The fundamental unit of any GraphQL Schema is the type. There are many kinds of types in " ++
    "GraphQL as represented by the `__TypeKind` enum.\n\nDepending on the kind of a type, " ++
    "certain fields describe information about that type. Scalar types provide no information " ++
    "beyond a name, description and optional `specifiedByURL`, while Enum types provide their " ++
    "values. Object and Interface types provide the fields they describe. Abstract types, Union " ++
    "and Interface, provide the Object types possible at runtime. List and NonNull types " ++
    "compose other types.")
  body := .object []
    [field none "kind" (.named "__TypeKind" true),
      field none "name" (.named "String" false),
      field none "description" (.named "String" false),
      listing "fields" (.list (.named "__Field" true) false),
      field none "interfaces" (.list (.named "__Type" true) false),
      field none "possibleTypes" (.list (.named "__Type" true) false),
      listing "enumValues" (.list (.named "__EnumValue" true) false),
      listing "inputFields" (.list (.named "__InputValue" true) false),
      field none "ofType" (.named "__Type" false),
      field none "specifiedByURL" (.named "String" false)]

/-- The kinds of types. -/
def typeKindType : SchemaType where
  name := "__TypeKind"
  description := some
    "An enum describing what kind of type a given `__Type` is."
  body := .enum
    [enumValue "Indicates this type is a scalar." "SCALAR",
      enumValue
        "Indicates this type is an object. `fields` and `interfaces` are valid fields."
        "OBJECT",
      enumValue
        ("Indicates this type is an interface. `fields`, `interfaces`, and `possibleTypes` are " ++
        "valid fields.")
        "INTERFACE",
      enumValue "Indicates this type is a union. `possibleTypes` is a valid field." "UNION",
      enumValue "Indicates this type is an enum. `enumValues` is a valid field." "ENUM",
      enumValue
        "Indicates this type is an input object. `inputFields` is a valid field."
        "INPUT_OBJECT",
      enumValue "Indicates this type is a list. `ofType` is a valid field." "LIST",
      enumValue "Indicates this type is a non-null. `ofType` is a valid field." "NON_NULL"]

/-- The type of fields. -/
def fieldType : SchemaType where
  name := "__Field"
  description := some
    ("Object and Interface types are described by a list of Fields, each of which has a name, " ++
    "potentially a list of arguments, and a return type.")
  body := .object []
    [field none "name" (.named "String" true),
      field none "description" (.named "String" false),
      listing "args" (.list (.named "__InputValue" true) true),
      field none "type" (.named "__Type" true),
      field none "isDeprecated" (.named "Boolean" true),
      field none "deprecationReason" (.named "String" false)]

/-- The type of arguments and input fields. -/
def inputValueType : SchemaType where
  name := "__InputValue"
  description := some
    ("Arguments provided to Fields or Directives and the input fields of an InputObject are " ++
    "represented as Input Values which describe their type and optionally a default value.")
  body := .object []
    [field none "name" (.named "String" true),
      field none "description" (.named "String" false),
      field none "type" (.named "__Type" true),
      field
        (some "A GraphQL-formatted string representing the default value for this input value.")
        "defaultValue" (.named "String" false),
      field none "isDeprecated" (.named "Boolean" true),
      field none "deprecationReason" (.named "String" false)]

/-- The type of enum values. -/
def enumValueType : SchemaType where
  name := "__EnumValue"
  description := some
    ("One possible value for a given Enum. Enum values are unique values, not a placeholder for " ++
    "a string or numeric value. However an Enum value is returned in a JSON response as a " ++
    "string.")
  body := .object []
    [field none "name" (.named "String" true),
      field none "description" (.named "String" false),
      field none "isDeprecated" (.named "Boolean" true),
      field none "deprecationReason" (.named "String" false)]

/-- The type of directives. -/
def directiveType : SchemaType where
  name := "__Directive"
  description := some
    ("A Directive provides a way to describe alternate runtime execution and type validation " ++
    "behavior in a GraphQL document.\n\nIn some cases, you need to provide options to alter " ++
    "GraphQL's execution behavior in ways field arguments will not suffice, such as " ++
    "conditionally including or skipping a field. Directives provide this by describing " ++
    "additional information to the executor.")
  body := .object []
    [field none "name" (.named "String" true),
      field none "description" (.named "String" false),
      field none "locations" (.list (.named "__DirectiveLocation" true) true),
      listing "args" (.list (.named "__InputValue" true) true),
      field none "isRepeatable" (.named "Boolean" true)]

/-- The places where a directive may stand. -/
def directiveLocationType : SchemaType where
  name := "__DirectiveLocation"
  description := some
    ("A Directive can be adjacent to many parts of the GraphQL language, a __DirectiveLocation " ++
    "describes one such possible adjacencies.")
  body := .enum
    [enumValue "Location adjacent to a query operation." "QUERY",
      enumValue "Location adjacent to a mutation operation." "MUTATION",
      enumValue "Location adjacent to a subscription operation." "SUBSCRIPTION",
      enumValue "Location adjacent to a field." "FIELD",
      enumValue "Location adjacent to a fragment definition." "FRAGMENT_DEFINITION",
      enumValue "Location adjacent to a fragment spread." "FRAGMENT_SPREAD",
      enumValue "Location adjacent to an inline fragment." "INLINE_FRAGMENT",
      enumValue "Location adjacent to a variable definition." "VARIABLE_DEFINITION",
      enumValue "Location adjacent to a schema definition." "SCHEMA",
      enumValue "Location adjacent to a scalar definition." "SCALAR",
      enumValue "Location adjacent to an object type definition." "OBJECT",
      enumValue "Location adjacent to a field definition." "FIELD_DEFINITION",
      enumValue "Location adjacent to an argument definition." "ARGUMENT_DEFINITION",
      enumValue "Location adjacent to an interface definition." "INTERFACE",
      enumValue "Location adjacent to a union definition." "UNION",
      enumValue "Location adjacent to an enum definition." "ENUM",
      enumValue "Location adjacent to an enum value definition." "ENUM_VALUE",
      enumValue "Location adjacent to an input object type definition." "INPUT_OBJECT",
      enumValue "Location adjacent to an input object field definition." "INPUT_FIELD_DEFINITION"]

/-- The scalar type `Int`. -/
def intType : SchemaType where
  name := "Int"
  description := some
    ("The `Int` scalar type represents non-fractional signed whole numeric values. Int can " ++
    "represent values between -(2^31) and 2^31 - 1.")
  body := .scalar

/-- The scalar type `Float`. -/
def floatType : SchemaType where
  name := "Float"
  description := some
    ("The `Float` scalar type represents signed double-precision fractional values as specified " ++
    "by [IEEE 754](https://en.wikipedia.org/wiki/IEEE_floating_point).")
  body := .scalar

/-- The scalar type `String`. -/
def stringType : SchemaType where
  name := "String"
  description := some
    ("The `String` scalar type represents textual data, represented as UTF-8 character " ++
    "sequences. The String type is most often used by GraphQL to represent free-form " ++
    "human-readable text.")
  body := .scalar

/-- The scalar type `Boolean`. -/
def booleanType : SchemaType where
  name := "Boolean"
  description := some
    "The `Boolean` scalar type represents `true` or `false`."
  body := .scalar

/-- The scalar type `ID`. -/
def idType : SchemaType where
  name := "ID"
  description := some
    ("The `ID` scalar type represents a unique identifier, often used to refetch an object or " ++
    "as key for a cache. The ID type appears in a JSON response as a String; however, it is not " ++
    "intended to be human-readable. When expected as an input type, any string (such as " ++
    "`\"4\"`) or integer (such as `4`) input value will be accepted as an ID.")
  body := .scalar

/-- The types every schema starts with. -/
def types : List SchemaType :=
  [schemaType, typeType, typeKindType, fieldType, inputValueType, enumValueType, directiveType,
    directiveLocationType, intType, floatType, stringType, booleanType, idType]

/-- The directive `@skip`. -/
def skipDirective : DirectiveDeclaration where
  name := "skip"
  arguments := [input none "if" (.named "Boolean" true)]
  repeatable := false
  locations := ["FIELD", "FRAGMENT_SPREAD", "INLINE_FRAGMENT"]

/-- The directive `@include`. -/
def includeDirective : DirectiveDeclaration where
  name := "include"
  arguments := [input none "if" (.named "Boolean" true)]
  repeatable := false
  locations := ["FIELD", "FRAGMENT_SPREAD", "INLINE_FRAGMENT"]

/-- The directive `@deprecated`. -/
def deprecatedDirective : DirectiveDeclaration where
  name := "deprecated"
  arguments :=
    [⟨none, "reason", .named "String" false, some (.string "No longer supported"), []⟩]
  repeatable := false
  locations := ["FIELD_DEFINITION", "ARGUMENT_DEFINITION", "INPUT_FIELD_DEFINITION", "ENUM_VALUE"]

/-- The directive `@specifiedBy`. -/
def specifiedByDirective : DirectiveDeclaration where
  name := "specifiedBy"
  arguments := [input none "url" (.named "String" true)]
  repeatable := false
  locations := ["SCALAR"]

/-- The directives every schema starts with. -/
def directives : List DirectiveDeclaration :=
  [skipDirective, includeDirective, deprecatedDirective, specifiedByDirective]

end Builtin
end EmbeddedGraphQL
