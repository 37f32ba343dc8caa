import FrpProvisioner.Effect.Program
import FrpProvisioner.Api.Meta

/-! The calls a controller makes: those of `client.Client` on its owners `Object ω` and
their dependents `Object β`, and the draws of the name generator. -/
namespace FrpProvisioner
open Effect

inductive Request (ω β : Type) where
  | get (key : NamespacedName)
  | list (ns : String) (selector : Selector)
  | create (o : Object β)
  | update (o : Object β)
  | delete (o : Object β)
  | updateOwner (o : Object ω)
  /-- `utilrand.String(n)`. -/
  | rand (n : ℕ)

@[reducible] def Response {ω β : Type} : Request ω β → Type
  | .get _ => Except GoError (Object ω)
  | .list _ _ => Except GoError (List (Object β))
  | .create _ => Except GoError (Object β)
  | .update _ => Except GoError (Object β)
  | .delete _ => Except GoError Unit
  | .updateOwner _ => Except GoError (Object ω)
  | .rand _ => String

abbrev Api (ω β α : Type) := Program (Request ω β) Response α

namespace Api
variable {ω β : Type}

abbrev get (key : NamespacedName) : Api ω β (Except GoError (Object ω)) :=
  Program.call (Request.get key)

abbrev list (ns : String) (selector : Selector) : Api ω β (Except GoError (List (Object β))) :=
  Program.call (Request.list ns selector)

abbrev create (o : Object β) : Api ω β (Except GoError (Object β)) :=
  Program.call (Request.create o)

/-- On success the caller's copy is overwritten with the stored object. -/
abbrev update (o : Object β) : Api ω β (Except GoError (Object β)) :=
  Program.call (Request.update o)

abbrev delete (o : Object β) : Api ω β (Except GoError Unit) := Program.call (Request.delete o)

abbrev updateOwner (o : Object ω) : Api ω β (Except GoError (Object ω)) :=
  Program.call (Request.updateOwner o)

abbrev rand (n : ℕ) : Api ω β String := Program.call (Request.rand n)

end Api
end FrpProvisioner
