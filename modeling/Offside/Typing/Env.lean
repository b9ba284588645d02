import Offside.Ast
import Offside.Table

/-!
# Environments

What is known at the level of a module: variables, functions and classes with their types.

* `Env.builtins` knows the builtin functions alone.
* `Env.augment` adds the declarations of a program.
-/

namespace Offside

/-- The types of a function's parameters, of the receiver first where it is a method, and
of its result. -/
structure Signature where
  parameters : List Ty
  ret : Ty
  deriving Repr, Inhabited

/-- The types of a class's fields and methods. -/
structure ClassInfo where
  fields : Table Ty
  methods : Table Signature
  deriving Repr, Inhabited

/-- The variables, functions and classes of a module. -/
structure Env where
  globals : Table Ty
  functions : Table Signature
  classes : Table ClassInfo
  deriving Repr, Inhabited

/-- The signature of a function definition. -/
def FunDef.signature {α : Type} (fn : FunDef α) : Signature where
  parameters := fn.parameters.map Parameter.ty
  ret := fn.ret

/-- What a class definition says about the class. -/
def ClassDef.info {α : Type} (cls : ClassDef α) : ClassInfo where
  fields := Table.insertAll [] (cls.fields.map fun field => (field.name, field.ty))
  methods := Table.insertAll [] (cls.methods.map fun method => (method.name, method.signature))

namespace Env

/-- The environment without any names. -/
def empty : Env := ⟨[], [], []⟩

/-- The environment of the builtin functions. -/
def builtins : Env where
  globals := []
  functions := [
    ("abs", ⟨[.num], .num⟩),
    ("max", ⟨[.num, .num], .num⟩),
    ("min", ⟨[.num, .num], .num⟩),
    ("pow", ⟨[.num, .num], .num⟩),
    ("print", ⟨[.plain "object"], .num⟩)]
  classes := []

/-- An environment with the declarations of a program added; a declaration replaces an
earlier one of the same name. -/
def augment {α : Type} (env : Env) (program : Program α) : Env where
  globals := Table.insertAll env.globals (program.inits.map fun init => (init.name, init.ty))
  functions := Table.insertAll env.functions (program.funs.map fun fn => (fn.name, fn.signature))
  classes := Table.insertAll env.classes (program.classes.map fun cls => (cls.name, cls.info))

/-- The type of a variable of the module. -/
def global? (env : Env) (name : String) : Option Ty := Table.find? env.globals name

/-- The signature of a function. -/
def function? (env : Env) (name : String) : Option Signature := Table.find? env.functions name

/-- What is known about a class. -/
def class? (env : Env) (name : String) : Option ClassInfo := Table.find? env.classes name

/-- The type of the elements of an iterable: lists, sets and generators have their element
type; an object is iterable when its class has both `hasnext` and `next`, and yields what
`next` returns. -/
def element? (env : Env) : Ty → Option Ty
  | .list element | .set element | .generator element => some element
  | .object name _ => do
    let cls ← env.class? name
    let _ ← Table.find? cls.methods "hasnext"
    let next ← Table.find? cls.methods "next"
    return next.ret
  | _ => none

end Env
end Offside
