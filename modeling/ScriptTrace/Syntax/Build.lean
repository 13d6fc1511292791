import ScriptTrace.Syntax.Literal

/-!
# Building nodes

The nodes that probes are made of, without positions.
-/

namespace ScriptTrace

namespace Json

def ident (name : Json) : Json := obj [("type", str "Identifier"), ("name", name)]

def thisNode : Json := obj [("type", str "ThisExpression")]

/-- A literal with its value and its text. -/
def literal (value : Json) : Json :=
  obj [("type", str "Literal"), ("value", value), ("raw", str (literalText value))]

/-- The expression `void 0`. -/
def voidZero : Json :=
  obj [("type", str "UnaryExpression"), ("operator", str "void"), ("argument", literal (int 0)),
    ("prefix", bool true)]

/-- A call of a function known by name. -/
def callOf (name : String) (arguments : List Json) : Json :=
  obj [("type", str "CallExpression"), ("callee", ident (str name)), ("arguments", arr arguments)]

/-- A property with a literal key. -/
def property (key : Json) (value : Json) : Json :=
  obj [("type", str "Property"), ("key", literal key), ("computed", bool false), ("value", value),
    ("kind", str "init"), ("method", bool false), ("shorthand", bool false)]

/-- An object of properties with literal keys. -/
def objectOf (pairs : List (Json × Json)) : Json :=
  obj [("type", str "ObjectExpression"), ("properties", arr (pairs.map fun (k, v) => property k v))]

def expressionStatement (expression : Json) : Json :=
  obj [("type", str "ExpressionStatement"), ("expression", expression)]

end Json

end ScriptTrace
