/-! # Attributes that every language has

A language class comes with attributes of its own: the operations on its rules, and what every class
and every instance has. A rule from a mapping cannot have the name of one of them, and where one is
used as if it were a rule, the error names its kind.

* **`Inbuilt`** — such an attribute.
* **`Inbuilt.all`** — all of them.
* **`Inbuilt.find?`** — the one of a given name. -/

namespace Descent

/-- An attribute that every language class has of its own. -/
structure Inbuilt where
  /-- Its name. -/
  name : String
  /-- The name of its kind on a language, if it is there. -/
  onLanguage : Option String
  /-- The name of its kind on a class. -/
  onClass : String
  deriving DecidableEq, Inhabited, Repr

namespace Inbuilt

/-- The operation by which a rule is found in a language's own table. -/
def getRule : String := "get_rule"

/-- The operation that lists the rules of a language. -/
def ruleNames : String := "rule_names"

/-- The operation that tells the stage of a rule. -/
def ruleState : String := "rule_state"

/-- The operation that gives the text of a language. -/
def shown : String := "__repr__"

/-- The operation that looks for attributes which are nowhere else. -/
def fallback : String := "__getattr__"

/-- The kind of an operation, on a language and on a class. -/
def operation (name : String) : Inbuilt := ⟨name, some "method", "function"⟩

/-- The kind of an operation that is part of every object's nature. -/
def natural (name : String) : Inbuilt := ⟨name, some "method-wrapper", "wrapper_descriptor"⟩

/-- The kind of an operation that every object can be asked for. -/
def general (name : String) : Inbuilt :=
  ⟨name, some "builtin_function_or_method", "method_descriptor"⟩

/-- The kind of an operation that belongs to classes and is there for their languages too. -/
def shared (name : String) : Inbuilt :=
  ⟨name, some "builtin_function_or_method", "builtin_function_or_method"⟩

/-- An attribute that only classes have. -/
def classOnly (name kind : String) : Inbuilt := ⟨name, none, kind⟩

/-- All attributes that every language class has of its own. -/
def all : List Inbuilt :=
  [operation getRule, operation ruleNames, operation ruleState, operation shown,
    operation fallback, operation "__init__"]
  ++ ["__delattr__", "__eq__", "__ge__", "__getattribute__", "__gt__", "__hash__", "__le__",
    "__lt__", "__ne__", "__setattr__", "__str__"].map natural
  ++ ["__dir__", "__format__", "__getstate__", "__reduce__", "__reduce_ex__",
    "__sizeof__"].map general
  ++ ["__init_subclass__", "__new__", "__subclasshook__"].map shared
  ++ [⟨"__annotations__", some "dict", "dict"⟩, ⟨"__class__", some "type", "type"⟩,
    ⟨"__dict__", some "dict", "mappingproxy"⟩, ⟨"__doc__", some "str", "str"⟩,
    ⟨"__module__", some "str", "str"⟩, ⟨"__weakref__", some "NoneType", "getset_descriptor"⟩]
  ++ ["__basicsize__", "__dictoffset__", "__flags__", "__itemsize__",
    "__weakrefoffset__"].map (classOnly · "int")
  ++ ["__call__", "__or__", "__ror__"].map (classOnly · "method-wrapper")
  ++ ["__instancecheck__", "__prepare__", "__subclasscheck__", "__subclasses__",
    "mro"].map (classOnly · "builtin_function_or_method")
  ++ [classOnly "__base__" "type", classOnly "__bases__" "tuple", classOnly "__mro__" "tuple",
    classOnly "__name__" "str", classOnly "__qualname__" "str",
    classOnly "__text_signature__" "NoneType"]

/-- The attribute of a given name that every language class has of its own. -/
def find? (name : String) : Option Inbuilt := all.find? (·.name == name)

end Inbuilt

end Descent
