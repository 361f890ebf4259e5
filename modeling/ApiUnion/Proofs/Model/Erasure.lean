import ApiUnion.Model.Basic
import ApiUnion.Proofs.Signature.Shape

-- What classes and members say twice: as generic types in their signatures, and as names or
-- descriptors once the types are erased.

namespace ApiUnion

-- What a type can erase to. For type variables that is up to their bounds.
inductive GenericType.ErasesTo : GenericType → FieldType → Prop
  | base (type : BaseType) : ErasesTo (.base type) (.base type)
  | array {component : GenericType} {erased : FieldType} (h : ErasesTo component erased) :
      ErasesTo (.array component) (.array erased)
  | var (name : String) (erased : FieldType) : ErasesTo (.var name) erased
  | classType (segments : List Segment) :
      ErasesTo (.classType segments) (.object (ClassType.internalName segments))

theorem GenericType.erasesTo_object_iff (segments : List Segment) (name : String) :
    (GenericType.classType segments).ErasesTo (.object name) ↔
      ClassType.internalName segments = name := by
  constructor
  · intro h
    cases h
    rfl
  · rintro rfl
    exact .classType segments

-- A signature that gives the super types of a class as the class lists them.
structure ApiClass.DrawnBy (entry : ApiClass) (signature : ClassSignature) : Prop where
  text : ∃ text, entry.signature = some text ∧ ClassSignature.ofText text = .ok signature
  superclass : entry.superclass = some signature.superclass.internalName
  interfaces : entry.interfaces = signature.interfaceNames

-- A signature that erases to the descriptor of a field.
structure ApiField.DrawnBy (field : ApiField) (type : GenericType) : Prop where
  text : ∃ text, field.signature = some text ∧ GenericType.ofText text = .ok type
  erased : ∃ erased, FieldType.ofText? field.descriptor = some erased ∧ type.ErasesTo erased

structure ApiMethod.DrawnBy (method : ApiMethod) (signature : MethodSignature) : Prop where
  text : ∃ text, method.signature = some text ∧ MethodSignature.ofText text = .ok signature
  erased : ∃ erased, MethodType.ofText? method.descriptor = some erased ∧
    List.Forall₂ GenericType.ErasesTo signature.parameters erased.parameters ∧
    List.Forall₂ GenericType.ErasesTo signature.result.toList erased.result.toList

theorem ApiClass.DrawnBy.unique {entry : ApiClass} {a b : ClassSignature} (ha : entry.DrawnBy a)
    (hb : entry.DrawnBy b) : a = b := by
  obtain ⟨left, hleft, haText⟩ := ha.text
  obtain ⟨right, hright, hbText⟩ := hb.text
  obtain rfl := Option.some.inj (hleft.symm.trans hright)
  exact Except.ok.inj (haText.symm.trans hbText)

end ApiUnion
