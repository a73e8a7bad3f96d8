/-! # The catalogue of the library

The functions that every program finds: a few under global names, the others as members of the
namespaces `vec`, `math`, `list`, `string` and `random`.  A function has one identity however many
names lead to it.  Its own name appears where it is displayed; a function without one is displayed
as anonymous.
-/

namespace EventScript

/-- Functions on values of every kind. -/
inductive CoreFunction
  | print | len | type | keys | values | size
  deriving Repr, DecidableEq

/-- Functions on numbers. -/
inductive MathFunction
  | sin | cos | tan | asin | acos | atan | atan2
  | floor | ceil | round | trunc
  | pow | sqrt | cbrt | exp | log | log2 | log10
  | abs | sign | min | max
  | clamp | lerp | inverseLerp | remap | radians | degrees | smoothstep | smootherstep
  deriving Repr, DecidableEq

/-- Functions on lists. -/
inductive ListFunction
  | range | fill
  | map | filter | reduce | flatMap | flatten
  | find | findIndex | indexOf | includes | every | any
  | concat | slice | splice | reverse | sort | shuffle
  | sum | product | min | max | average
  | unique | union | intersection | difference
  | first | last | item
  | isEmpty
  deriving Repr, DecidableEq

/-- Functions on strings. -/
inductive StringFunction
  | toUpperCase | toLowerCase | capitalize | titleCase
  | trim | trimStart | trimEnd
  | padStart | padEnd
  | split | join
  | includes | startsWith | endsWith | indexOf | lastIndexOf
  | replace | replaceAll | slice | substring | fill | reverse
  | isEmpty | charAt | charCodeAt
  | fromCharCode | toNumber | toInt
  | format
  deriving Repr, DecidableEq

/-- Functions that draw from the random generator. -/
inductive RandomFunction
  | random | int | float | bool | choice | choices | sample | shuffle | gaussian | weighted
  | angle | unitVector2d | unitVector3d | inCircle | inSphere | inRect | inBox
  deriving Repr, DecidableEq

/-- Functions on vectors, which are lists of numbers. -/
inductive VectorFunction
  | vec | vec2 | vec3 | add | sub | mul | div | dot | cross | length | lengthSq | normalize
  | distance | distanceSq | lerp | clamp | negate | reflect | angle | project | perp2d | rotate2d
  | equals
  deriving Repr, DecidableEq

/-- The functions of the library. -/
inductive Builtin
  | core (f : CoreFunction)
  | math (f : MathFunction)
  | list (f : ListFunction)
  | string (f : StringFunction)
  | random (f : RandomFunction)
  | vector (f : VectorFunction)
  deriving Repr, DecidableEq

/-- The members of a list that are functions. -/
inductive ListMember
  | push | pop | shift | unshift | slice | concat | indexOf | includes | join | reverse | sort
  deriving Repr, DecidableEq

/-- The members of a string that are functions. -/
inductive StringMember
  | toUpperCase | toLowerCase | trim | split | includes | startsWith | endsWith | slice | replace
  deriving Repr, DecidableEq

namespace CoreFunction

/-- The function's own name. -/
def ownName : CoreFunction → String
  | print => "print" | len => "builtin_len" | type => "type_name" | keys => "builtin_keys"
  | values => "builtin_values" | size => "len"

end CoreFunction

namespace MathFunction

/-- The function's own name. -/
def ownName : MathFunction → String
  | sin => "sin" | cos => "cos" | tan => "tan" | asin => "asin" | acos => "acos" | atan => "atan"
  | atan2 => "atan2" | floor => "floor" | ceil => "ceil" | round => "round_half_up"
  | trunc => "trunc" | pow => "pow" | sqrt => "sqrt" | cbrt => "cbrt" | exp => "exp" | log => "log"
  | log2 => "log2" | log10 => "log10" | abs => "abs" | sign => "sign" | min => "minimum"
  | max => "maximum" | clamp => "clamp" | lerp => "lerp" | inverseLerp => "inverse_lerp"
  | remap => "remap" | radians => "radians" | degrees => "degrees" | smoothstep => "smoothstep"
  | smootherstep => "smootherstep"

/-- The members of the namespace `math` that are functions. -/
def members : List (String × MathFunction) :=
  [("sin", sin), ("cos", cos), ("tan", tan), ("asin", asin), ("acos", acos), ("atan", atan),
   ("atan2", atan2), ("floor", floor), ("ceil", ceil), ("round", round), ("trunc", trunc),
   ("pow", pow), ("sqrt", sqrt), ("cbrt", cbrt), ("exp", exp), ("log", log), ("log2", log2),
   ("log10", log10), ("abs", abs), ("sign", sign), ("min", min), ("max", max), ("clamp", clamp),
   ("lerp", lerp), ("inverseLerp", inverseLerp), ("map", remap), ("radians", radians),
   ("degrees", degrees), ("smoothstep", smoothstep), ("smootherstep", smootherstep)]

end MathFunction

namespace ListFunction

/-- The function's own name, if it has one. -/
def ownName? : ListFunction → Option String
  | range => "list_range" | fill => "repeat" | map => "map_items" | filter => "filter_items"
  | reduce => "reduce_items" | flatMap => "flat_map" | flatten => "flatten" | find => "find"
  | findIndex => "find_index" | indexOf => "index_of" | includes => "includes" | every => "every"
  | any => "some" | concat => "concat" | slice => "slice_items" | splice => "splice"
  | reverse => "reverse" | sort => "sort_items" | shuffle => "shuffle" | sum => "total"
  | product => "product" | min => "smallest" | max => "largest" | average => "average"
  | unique => "unique" | union => "union" | intersection => "intersection"
  | difference => "difference" | first => "first" | last => "last" | item => "at"
  | isEmpty => none

/-- The members of the namespace `list`. -/
def members : List (String × Builtin) :=
  [("range", range), ("repeat", fill), ("map", map), ("filter", filter), ("reduce", reduce),
   ("flatMap", flatMap), ("flatten", flatten), ("find", find), ("findIndex", findIndex),
   ("indexOf", indexOf), ("includes", includes), ("every", every), ("some", any),
   ("concat", concat), ("slice", slice), ("splice", splice), ("reverse", reverse), ("sort", sort),
   ("shuffle", shuffle), ("sum", sum), ("product", product), ("min", min), ("max", max),
   ("average", average), ("unique", unique), ("union", union), ("intersection", intersection),
   ("difference", difference), ("first", first), ("last", last), ("at", item)].map
      (fun m => (m.1, .list m.2)) ++
    [("length", .core .size), ("isEmpty", .list isEmpty)]

end ListFunction

namespace StringFunction

/-- The function's own name, if it has one. -/
def ownName? : StringFunction → Option String
  | capitalize => "capitalize" | titleCase => "title_case" | padStart => "pad_start"
  | padEnd => "pad_end" | split => "split" | join => "join" | slice => "slice_string"
  | substring => "substring" | charAt => "char_at" | charCodeAt => "char_code_at"
  | fromCharCode => "from_char_code" | toNumber => "to_number" | toInt => "to_int"
  | format => "format_template"
  | _ => none

/-- The members of the namespace `string`. -/
def members : List (String × Builtin) :=
  ([("toUpperCase", toUpperCase), ("toLowerCase", toLowerCase), ("capitalize", capitalize),
    ("titleCase", titleCase), ("trim", trim), ("trimStart", trimStart), ("trimEnd", trimEnd),
    ("padStart", padStart), ("padEnd", padEnd), ("split", split), ("join", join),
    ("includes", includes), ("startsWith", startsWith), ("endsWith", endsWith),
    ("indexOf", indexOf), ("lastIndexOf", lastIndexOf), ("replace", replace),
    ("replaceAll", replaceAll), ("slice", slice), ("substring", substring), ("repeat", fill),
    ("reverse", reverse)] : List (String × StringFunction)).map (fun m => (m.1, .string m.2)) ++
  ("length", .core .size) ::
  ([("isEmpty", isEmpty), ("charAt", charAt), ("charCodeAt", charCodeAt),
    ("fromCharCode", fromCharCode), ("toNumber", toNumber), ("toInt", toInt),
    ("format", format)] : List (String × StringFunction)).map (fun m => (m.1, .string m.2))

end StringFunction

namespace RandomFunction

/-- The function's own name. -/
def ownName : RandomFunction → String
  | random => "random" | int => "random_int" | float => "random_float" | bool => "random_bool"
  | choice => "choice" | choices => "choices" | sample => "sample" | shuffle => "shuffle"
  | gaussian => "gaussian" | weighted => "weighted" | angle => "random_angle"
  | unitVector2d => "unit_vector_2d" | unitVector3d => "unit_vector_3d" | inCircle => "in_circle"
  | inSphere => "in_sphere" | inRect => "in_rect" | inBox => "in_box"

/-- The members of the namespace `random`. -/
def members : List (String × RandomFunction) :=
  [("random", random), ("int", int), ("float", float), ("bool", bool), ("choice", choice),
   ("choices", choices), ("sample", sample), ("shuffle", shuffle), ("gaussian", gaussian),
   ("weighted", weighted), ("angle", angle), ("unitVector2d", unitVector2d),
   ("unitVector3d", unitVector3d), ("inCircle", inCircle), ("inSphere", inSphere),
   ("inRect", inRect), ("inBox", inBox)]

end RandomFunction

namespace VectorFunction

/-- The function's own name, which is also its member name. -/
def ownName : VectorFunction → String
  | vec => "vec" | vec2 => "vec2" | vec3 => "vec3" | add => "add" | sub => "sub" | mul => "mul"
  | div => "div" | dot => "dot" | cross => "cross" | length => "length" | lengthSq => "lengthSq"
  | normalize => "normalize" | distance => "distance" | distanceSq => "distanceSq"
  | lerp => "lerp" | clamp => "clamp" | negate => "negate" | reflect => "reflect"
  | angle => "angle" | project => "project" | perp2d => "perp2d" | rotate2d => "rotate2d"
  | equals => "equals"

/-- The functions in the order of the namespace `vec`. -/
def all : List VectorFunction :=
  [vec, vec2, vec3, add, sub, mul, div, dot, cross, length, lengthSq, normalize, distance,
   distanceSq, lerp, clamp, negate, reflect, angle, project, perp2d, rotate2d, equals]

end VectorFunction

/-- The function's own name, if it has one. -/
def Builtin.ownName? : Builtin → Option String
  | core f => f.ownName
  | math f => f.ownName
  | list f => f.ownName?
  | string f => f.ownName?
  | random f => f.ownName
  | vector f => f.ownName

/-- The members of a list by name. -/
def ListMember.ofName? (name : String) : Option ListMember :=
  [("push", push), ("pop", pop), ("shift", shift), ("unshift", unshift), ("slice", slice),
   ("concat", concat), ("indexOf", indexOf), ("includes", includes), ("join", join),
   ("reverse", reverse), ("sort", sort)].lookup name

/-- The member's own name, if it has one. -/
def ListMember.ownName? : ListMember → Option String
  | push => "push" | pop => "pop" | shift => "shift" | unshift => "unshift" | concat => "concat"
  | join => "join"
  | _ => none

/-- The members of a string by name. -/
def StringMember.ofName? (name : String) : Option StringMember :=
  [("toUpperCase", toUpperCase), ("toLowerCase", toLowerCase), ("trim", trim), ("split", split),
   ("includes", includes), ("startsWith", startsWith), ("endsWith", endsWith), ("slice", slice),
   ("replace", replace)].lookup name

end EventScript
