import ApiUnion.Proofs.Descriptor
import ApiUnion.Proofs.Signature.ClassNames
import ApiUnion.Proofs.Signature.Reading

-- Texts under unchanged names stay as they are: what can be read is what is printed of what was
-- read.

namespace ApiUnion

theorem nestedName_nested (outer name old : String) :
    nestedName outer s!"{outer}${name}" old = name := by
  have hprefix : (outer.toList ++ ['$']).isPrefixOf? (s!"{outer}${name}").toList =
      some name.toList :=
    List.isPrefixOf?_eq_some_iff_append_eq.mpr (by rw [toList_nested]; simp)
  rw [nestedName, hprefix]
  exact String.ofList_toList

theorem FieldType.renameClasses_id : ∀ type : FieldType, type.renameClasses id = type
  | base _ | object _ => rfl
  | array component => congrArg array component.renameClasses_id

theorem MethodType.renameClasses_id (type : MethodType) : type.renameClasses id = type := by
  have hsame : FieldType.renameClasses id = id := funext FieldType.renameClasses_id
  simp only [renameClasses, hsame, List.map_id, Option.map_id, id]

mutual

theorem GenericType.renameClasses_id : ∀ type : GenericType, type.renameClasses id = type
  | .base _ => rfl
  | .array component => congrArg GenericType.array component.renameClasses_id
  | .var _ => rfl
  | .classType segments => congrArg GenericType.classType (renameOutermost_id segments)

theorem TypeArgument.renameClasses_id :
    ∀ argument : TypeArgument, argument.renameClasses id = argument
  | .any => rfl
  | .bounded variance bound => congrArg (TypeArgument.bounded variance) bound.renameClasses_id

theorem renameOutermost_id : ∀ segments : List Segment, renameOutermost id segments = segments
  | [] => rfl
  | ⟨name, arguments⟩ :: rest => by
      rw [renameOutermost, renameInArguments_id arguments]
      exact congrArg (_ :: ·) (renameNested_id name rest)

theorem renameNested_id (outer : String) :
    ∀ segments : List Segment, renameNested id outer outer segments = segments
  | [] => rfl
  | ⟨name, arguments⟩ :: rest => by
      simp only [renameNested, id, nestedName_nested, renameInArguments_id arguments,
        renameNested_id _ rest]

theorem renameInArguments_id :
    ∀ arguments : List TypeArgument, renameInArguments id arguments = arguments
  | [] => rfl
  | argument :: rest => by
      rw [renameInArguments, argument.renameClasses_id, renameInArguments_id rest]

end

theorem TypeParameter.renameClasses_id (parameter : TypeParameter) :
    parameter.renameClasses id = parameter := by
  have hsame : GenericType.renameClasses id = id := funext GenericType.renameClasses_id
  simp only [renameClasses, hsame, List.map_id, Option.map_id, id]

theorem MethodSignature.renameClasses_id (signature : MethodSignature) :
    signature.renameClasses id = signature := by
  have hparameter : TypeParameter.renameClasses id = id := funext TypeParameter.renameClasses_id
  have htype : GenericType.renameClasses id = id := funext GenericType.renameClasses_id
  simp only [renameClasses, hparameter, htype, List.map_id, Option.map_id, id]

theorem ClassSignature.renameClasses_id (signature : ClassSignature) :
    signature.renameClasses id = signature := by
  have hparameter : TypeParameter.renameClasses id = id := funext TypeParameter.renameClasses_id
  have htype : ClassType.renameClasses id = id := funext renameOutermost_id
  simp only [renameClasses, hparameter, htype, List.map_id, id]

theorem renameInFieldDescriptor_id (text : String) : renameInFieldDescriptor id text = text := by
  unfold renameInFieldDescriptor
  cases hread : FieldType.ofText? text with
  | none => rfl
  | some type =>
      obtain ⟨-, htext⟩ := (FieldType.ofText?_eq_some_iff text type).mp hread
      rw [Option.elim_some, type.renameClasses_id, htext]

theorem renameInMethodDescriptor_id (text : String) : renameInMethodDescriptor id text = text := by
  unfold renameInMethodDescriptor
  cases hread : MethodType.ofText? text with
  | none => rfl
  | some type =>
      obtain ⟨-, htext⟩ := (MethodType.ofText?_eq_some_iff text type).mp hread
      rw [Option.elim_some, type.renameClasses_id, htext]

theorem renameInFieldSignature_id (text : String) : renameInFieldSignature id text = text := by
  unfold renameInFieldSignature
  cases hread : GenericType.ofChars? text.toList with
  | none => rfl
  | some type =>
      obtain ⟨-, htext⟩ := (GenericType.ofChars?_eq_some_iff text.toList type).mp hread
      rw [Option.elim_some, type.renameClasses_id, GenericType.text, ← htext, String.ofList_toList]

theorem renameInMethodSignature_id (text : String) : renameInMethodSignature id text = text := by
  unfold renameInMethodSignature
  cases hread : MethodSignature.ofChars? text.toList with
  | none => rfl
  | some signature =>
      obtain ⟨-, htext⟩ := (MethodSignature.ofChars?_eq_some_iff text.toList signature).mp hread
      rw [Option.elim_some, signature.renameClasses_id, MethodSignature.text, ← htext,
        String.ofList_toList]

theorem renameInClassSignature_id (text : String) : renameInClassSignature id text = text := by
  unfold renameInClassSignature
  cases hread : ClassSignature.ofChars? text.toList with
  | none => rfl
  | some signature =>
      obtain ⟨-, htext⟩ := (ClassSignature.ofChars?_eq_some_iff text.toList signature).mp hread
      rw [Option.elim_some, signature.renameClasses_id, ClassSignature.text, ← htext,
        String.ofList_toList]

end ApiUnion
