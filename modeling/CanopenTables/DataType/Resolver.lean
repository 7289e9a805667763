import CanopenTables.DataType
import CanopenTables.DataType.Family
import CanopenTables.Reported
import CanopenTables.Value

/-!
# Resolving type names

A resolver lives for one generation.  It knows the types that were registered by name and remembers
the types of fixed size that it has worked out.  Strings and domains are worked out each time,
because their size depends on the values they have to hold.
-/

namespace CanopenTables

namespace Family

/-- The storage of a family.  Strings hold the default size, the declared length and the longest
value; domains hold the longest value. -/
def resolve (family : Family) (defaultStringSize longest : Nat) : ResolvedType :=
  match family with
  | unsigned width => ⟨.unsigned width, none, .unsigned width, true⟩
  | integer width => ⟨.integer width, none, .integer width, false⟩
  | real width => ⟨.real width, none, .real width, false⟩
  | string declared =>
    ⟨.unsigned 8, some (max (max defaultStringSize longest) (declared.getD 0)), .visibleString,
      false⟩
  | domain => ⟨.unsigned 8, some longest, .domain, false⟩
  | boolean => ⟨.unsigned 8, none, .boolean, false⟩

end Family

/-- The greatest byte length among the values that have one. -/
def longestBytes (values : List Value) : Nat :=
  (values.filterMap Value.byteLength?).foldl max 0

/-- The types known by name in one generation. -/
structure Resolver where
  /-- Registered and remembered types, the latest first. -/
  known : List (String × ResolvedType)
  /-- The least size of a string. -/
  defaultStringSize : Nat

namespace Resolver

/-- A resolver that knows no names yet. -/
def new (defaultStringSize : Nat) : Resolver := ⟨[], defaultStringSize⟩

/-- Gives a type a name; an earlier type of that name is forgotten. -/
def register (r : Resolver) (name : String) (type : ResolvedType) : Resolver :=
  { r with known := (name, type) :: r.known }

/-- The type of a name, large enough for all candidate values, and the resolver afterwards. -/
def resolveFor (r : Resolver) (name : String) (candidates : List Value) :
    Except GenerationError (ResolvedType × Resolver) :=
  match r.known.lookup name with
  | some type => .ok (type, r)
  | none =>
    match Family.classify name with
    | none => .error (.unresolvableType name)
    | some family =>
      let type := family.resolve r.defaultStringSize (longestBytes candidates)
      .ok (type, if type.kind.isByteSequence then r else r.register name type)

/-- The type of a name when no value is known. -/
def resolve (r : Resolver) (name : String) : Except GenerationError (ResolvedType × Resolver) :=
  r.resolveFor name []

end Resolver

/-- Computations that resolve types, report and may fail. -/
abbrev Lowering := StateT Resolver Reported

namespace Lowering

def resolveFor (name : String) (candidates : List Value) : Lowering ResolvedType := fun r =>
  Reported.ofExcept (r.resolveFor name candidates)

def register (name : String) (type : ResolvedType) : Lowering Unit := fun r =>
  pure ((), r.register name type)

/-- A result that resolves nothing. -/
def ofExcept {α : Type} (x : Except GenerationError α) : Lowering α :=
  StateT.lift (Reported.ofExcept x)

/-- Failures and results of other parts take part without further mention. -/
instance : MonadLift (Except GenerationError) Lowering := ⟨ofExcept⟩

def fail {α : Type} (e : GenerationError) : Lowering α := ofExcept (.error e)

def report (n : Notice) : Lowering Unit := StateT.lift (Reported.report n)

end Lowering
end CanopenTables
