import Backend.Substitution

/-!
Names of generated entities. A type is encoded as tokens joined by `_`: pointers and arrays as
suffixes, tuples and functions with their counts in front, argument lists between `T` and `E`.
Names that could be read as a token, or that contain a separator, carry their length.
-/

namespace Backend

abbrev AliasTable := Table AliasDecl

namespace Symbol

def sanitize (name : String) : String :=
  String.ofList (name.toList.map fun c => if c = '.' then '_' else c)

def reserved : List String := ["ptr", "arr", "ret", "va", "T", "E"]

def isAsciiLetter (c : Char) : Bool := ('a' ≤ c && c ≤ 'z') || ('A' ≤ c && c ≤ 'Z')

def isAsciiDigit (c : Char) : Bool := '0' ≤ c && c ≤ '9'

def isCounted (keyword : List Char) (token : List Char) : Bool :=
  keyword.isPrefixOf token &&
    let rest := token.drop keyword.length
    !rest.isEmpty && rest.all isAsciiDigit

def isPlain (token : String) : Bool :=
  let cs := token.toList
  cs.head?.any isAsciiLetter &&
    cs.all (fun c => isAsciiLetter c || isAsciiDigit c) &&
    !reserved.contains token &&
    !isCounted ['t', 'u', 'p'] cs &&
    !isCounted ['f', 'n'] cs &&
    (Primitive.ofName? token).isNone

def nameToken (name : String) : String :=
  let clean := sanitize name
  if isPlain clean then clean else toString clean.utf8ByteSize ++ clean

def primitiveToken : Primitive → String
  | .f32 => "float"
  | .f64 => "double"
  | .bool => "i1"
  | .string => "i8_ptr"
  | p => p.name

def repeated (n : Nat) (s : String) : String := String.join (List.replicate n s)

def joined (parts : List String) : String := String.join (parts.map fun p => "_" ++ p)

/-- Expansion of a name with arguments, for names that stand for another type. -/
abbrev Expansion := String → List TypeRef → Option TypeRef

mutual

/-- The encoding of a type; a name that `expand` knows is encoded by `encode` instead. -/
def encodeWith (expand : Expansion) (encode : TypeRef → String) : TypeRef → String
  | .primitive p => primitiveToken p
  | .pointer inner depth => encodeWith expand encode inner ++ repeated depth "_ptr"
  | .array inner dims =>
    encodeWith expand encode inner ++ String.join (dims.map fun d => s!"_arr_{d}_")
  | .tuple elems => s!"tup{elems.length}" ++ joined (encodeAll expand encode elems)
  | .function params ret variadic =>
    s!"fn{params.length}" ++ joined (encodeAll expand encode params) ++ "_ret_" ++
      encodeWith expand encode ret ++ (if variadic then "_va" else "")
  | .named name [] _ =>
    match Primitive.ofName? name with
    | some p => primitiveToken p
    | none =>
      match expand name [] with
      | some t => encode t
      | none => nameToken name
  | .named name (arg :: args) _ =>
    match expand name (arg :: args) with
    | some t => encode t
    | none =>
      nameToken name ++ "_T" ++
        joined (encodeWith expand encode arg :: encodeAll expand encode args) ++ "_E"

def encodeAll (expand : Expansion) (encode : TypeRef → String) : List TypeRef → List String
  | [] => []
  | t :: ts => encodeWith expand encode t :: encodeAll expand encode ts

end

/-- The encoding of a type in which every name stands for itself. -/
def encode : TypeRef → String := encodeWith (fun _ _ => none) (fun _ => "")

/-- Aliases are followed this many times; then the name itself is written. -/
def maxAliasDepth : Nat := 200

end Symbol

namespace AliasTable

/-- What a reference to an alias stands for. The target of an alias without parameters is taken as
it is, whatever the arguments. -/
def expand? (aliases : AliasTable) (name : String) (args : List TypeRef) : Option TypeRef :=
  (aliases.find? name).map fun a =>
    if a.typeParams.isEmpty then a.target
    else (Substitution.ofParams a.typeParams args).apply a.target

def encodeAt (aliases : AliasTable) : Nat → TypeRef → String
  | 0 => Symbol.encode
  | n + 1 => Symbol.encodeWith aliases.expand? (aliases.encodeAt n)

def encode (aliases : AliasTable) : TypeRef → String := aliases.encodeAt Symbol.maxAliasDepth

def genericName (aliases : AliasTable) (base : String) (args : List TypeRef) : String :=
  Symbol.sanitize base ++ Symbol.joined (args.map aliases.encode)

/-- Symbol of a function with its parameter types and type arguments. -/
def functionName (aliases : AliasTable) (name : String) (params typeArgs : List TypeRef) :
    String :=
  Symbol.sanitize name ++ Symbol.joined ((params ++ typeArgs).map aliases.encode)

def methodName (aliases : AliasTable) (owner method : String) (params typeArgs : List TypeRef) :
    String :=
  aliases.functionName (owner ++ "_" ++ method) params typeArgs

/-! ### Depth bounds under expansion -/

mutual

/-- Every expansion met while encoding a type keeps its pointer depths within bounds. -/
def expandsWith (aliases : AliasTable) (check : TypeRef → Bool) : TypeRef → Bool
  | .primitive _ => true
  | .pointer inner _ => expandsWith aliases check inner
  | .array inner _ => expandsWith aliases check inner
  | .tuple elems => allExpand aliases check elems
  | .function params ret _ => allExpand aliases check params && expandsWith aliases check ret
  | .named name [] _ =>
    (Primitive.ofName? name).isSome ||
      (aliases.expand? name []).all fun t => t.fits && check t
  | .named name (arg :: args) _ =>
    match aliases.expand? name (arg :: args) with
    | some t => t.fits && check t
    | none => expandsWith aliases check arg && allExpand aliases check args

def allExpand (aliases : AliasTable) (check : TypeRef → Bool) : List TypeRef → Bool
  | [] => true
  | t :: ts => expandsWith aliases check t && allExpand aliases check ts

end

def expandsAt (aliases : AliasTable) : Nat → TypeRef → Bool
  | 0 => fun _ => true
  | n + 1 => aliases.expandsWith (aliases.expandsAt n)

def expands (aliases : AliasTable) : TypeRef → Bool := aliases.expandsAt Symbol.maxAliasDepth

end AliasTable

end Backend
