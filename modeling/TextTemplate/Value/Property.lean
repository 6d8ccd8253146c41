import TextTemplate.Value.Equality

/-! # Properties

  What `target.name` reads.  A mapping answers with the entry under that key.
  Every other value answers with a public attribute that holds data; its
  private attributes, whose names start with an underscore, and its methods are
  closed to templates.  Whatever has a length answers to `length`.
-/

namespace TextTemplate

/-- Why an attribute cannot be read. -/
inductive PropertyFault where
  /-- The name starts with an underscore. -/
  | isPrivate (name : String)
  /-- The attribute is a method. -/
  | isCallable (name : String)
  /-- The host object raised an exception while it was asked. -/
  | hostFailed (e : HostError)
  deriving Repr, DecidableEq

/-- What a value has under an attribute's name. -/
inductive Attribute where
  | absent
  | data (v : Value)
  | method
  | failing (e : HostError)

/-! ### The attributes of plain values -/

/-- The methods of whole numbers. -/
def intMethods : List String :=
  ["as_integer_ratio", "bit_count", "bit_length", "conjugate", "from_bytes", "to_bytes"]

/-- The methods of doubles. -/
def floatMethods : List String :=
  ["as_integer_ratio", "conjugate", "fromhex", "hex", "is_integer"]

/-- The methods of lists. -/
def listMethods : List String :=
  ["append", "clear", "copy", "count", "extend", "index", "insert", "pop", "remove", "reverse",
   "sort"]

/-- The methods of tuples. -/
def tupleMethods : List String := ["count", "index"]

/-- The methods of texts. -/
def stringMethods : List String :=
  ["capitalize", "casefold", "center", "count", "encode", "endswith", "expandtabs", "find",
   "format", "format_map", "index", "isalnum", "isalpha", "isascii", "isdecimal", "isdigit",
   "isidentifier", "islower", "isnumeric", "isprintable", "isspace", "istitle", "isupper", "join",
   "ljust", "lower", "lstrip", "maketrans", "partition", "removeprefix", "removesuffix", "replace",
   "rfind", "rindex", "rjust", "rpartition", "rsplit", "rstrip", "split", "splitlines",
   "startswith", "strip", "swapcase", "title", "translate", "upper", "zfill"]

/-- The attribute of a whole number, seen as a complex number and as a fraction. -/
def intAttribute (n : Int) (name : String) : Attribute :=
  if name = "real" ∨ name = "numerator" then .data (.int n)
  else if name = "imag" then .data (.int 0)
  else if name = "denominator" then .data (.int 1)
  else if name ∈ intMethods then .method
  else .absent

/-- The attribute of a double, seen as a complex number. -/
def floatAttribute (x : Float) (name : String) : Attribute :=
  if name = "real" then .data (.float x)
  else if name = "imag" then .data (.float 0)
  else if name ∈ floatMethods then .method
  else .absent

/-- A value whose attributes are methods only. -/
def methodsOnly (methods : List String) (name : String) : Attribute :=
  if name ∈ methods then .method else .absent

/-- What a host object has under a name; of two attributes of one name the later counts.  An
    exception may say that there is no such attribute. -/
def HostObject.attributeAt (o : HostObject Value) (name : String) : Attribute :=
  match o.failing.find? (·.1 == name) with
  | some entry => if entry.2.reach = .missing then .absent else .failing entry.2
  | none =>
    if name ∈ o.methods then .method
    else match o.attributes.reverse.find? (·.1 == name) with
      | some entry => .data entry.2
      | none => .absent

namespace Value

/-- What a value that is no mapping has under a name. -/
def attributeAt : Value → String → Attribute
  | .bool b, name => intAttribute (if b then 1 else 0) name
  | .int n, name => intAttribute n name
  | .float x, name => floatAttribute x name
  | .string _, name => methodsOnly stringMethods name
  | .list _, name => methodsOnly listMethods name
  | .tuple _, name => methodsOnly tupleMethods name
  | .object o, name => o.attributeAt name
  | _, _ => .absent

/-- Reads a public attribute that holds data. -/
def readAttribute (v : Value) (name : String) : Except PropertyFault Value :=
  if name.startsWith "_" then .error (.isPrivate name)
  else match v.attributeAt name with
    | .absent => .ok .undefined
    | .data value => .ok value
    | .method => .error (.isCallable name)
    | .failing e => .error (.hostFailed e)

/-- Reads a property.  Nothing has no properties, so all are `undefined`. -/
def property (v : Value) (name : String) : Except PropertyFault Value :=
  match v with
  | .undefined | .null => .ok .undefined
  | .mapping entries =>
    match find? entries (.string name) with
    | some value => .ok value
    | none => .ok (if name = "length" then .int entries.length else .undefined)
  | v =>
    match (if name = "length" then v.length? else none) with
    | some (.ok n) => .ok (.int n)
    | some (.error e) => .error (.hostFailed e)
    | none => v.readAttribute name

end Value

end TextTemplate
