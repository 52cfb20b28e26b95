namespace ObjectWrapper
namespace Declaration

/-!
# Wrapped classes

A class gets wrapper code when its body carries one of two marker macros; which
one decides the kind of wrapper.
-/

/-- The kind of wrapper a class gets. -/
inductive WrapperKind where
  | object
  | gadget
deriving DecidableEq, Repr

/-- The kind that a marker stands for. -/
def WrapperKind.ofMarker? (name : String) : Option WrapperKind :=
  match name with
  | "Q_OBJECT" => some .object
  | "Q_GADGET" => some .gadget
  | _ => none

/-- A class that gets wrapper code. -/
structure WrappedClass where
  name : String
  /-- The namespaces and classes around it, from outside inwards. -/
  enclosing : List String
  /-- The base classes in the order of their declaration. -/
  bases : List String
  /-- The line of its head. -/
  line : Nat
  kind : WrapperKind
deriving DecidableEq, Repr

/-- The name of a class together with what encloses it. -/
def WrappedClass.qualifiedName (declared : WrappedClass) : String :=
  String.intercalate "::" (declared.enclosing ++ [declared.name])

end Declaration
end ObjectWrapper
