import Monomorph.Method.Descriptor
import Monomorph.Text.Spelling

/-!
Record texts of classes, definitions and descriptors, for a reader who debugs. Names stand in
quotes, argument lists and keys are in their short text.
-/

namespace Monomorph

open Text

def RuntimeClass.record (c : RuntimeClass) : String :=
  Text.record "RuntimeType" [
    field "token" c.token.record,
    field "name" (quoted c.qualifiedName),
    field "valuetype" (truth c.isValueType),
    field "class_inst" (optional (c.instance?.map fun i => i.2.text))]

def MethodDef.record (m : MethodDef) : String :=
  Text.record "MethodDefinition" [
    field "token" m.token.record,
    field "declaring_type" (quoted m.owner.qualifiedName),
    field "name" (quoted m.name),
    field "generic_params" (toString m.params.length)]

def Descriptor.record (d : Descriptor) : String :=
  Text.record "InflatedMethod" [
    field "key" (optional (d.key.map (·.key.text))),
    field "state" d.state.text,
    field "dispatch" (optional (d.dispatch.map Dispatch.record))]

end Monomorph
