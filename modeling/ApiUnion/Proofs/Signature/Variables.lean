import Mathlib.Data.Set.Function
import ApiUnion.Proofs.Signature.Reading
import ApiUnion.Signature.Variables

-- The variables of signatures and what becomes of them where they are renamed. A signature is bound
-- to symbols if each of its own variables is called by the symbol for its position; variables of
-- enclosing classes keep their names.

namespace ApiUnion

mutual

def GenericType.variables : GenericType → List String
  | .base _ => []
  | .array component => component.variables
  | .var name => [name]
  | .classType segments => segmentsVariables segments

def Segment.variables : Segment → List String
  | ⟨_, arguments⟩ => argumentsVariables arguments

def TypeArgument.variables : TypeArgument → List String
  | .any => []
  | .bounded _ bound => bound.variables

def segmentsVariables : List Segment → List String
  | [] => []
  | segment :: rest => segment.variables ++ segmentsVariables rest

def argumentsVariables : List TypeArgument → List String
  | [] => []
  | argument :: rest => argument.variables ++ argumentsVariables rest

end

def TypeParameter.variables (parameter : TypeParameter) : List String :=
  parameter.name :: parameter.bounds.flatMap GenericType.variables

def MethodSignature.variables (signature : MethodSignature) : List String :=
  signature.typeParameters.flatMap TypeParameter.variables ++
    (signature.parameters ++ signature.result.toList ++ signature.throws).flatMap
      GenericType.variables

def ClassSignature.variables (signature : ClassSignature) : List String :=
  signature.typeParameters.flatMap TypeParameter.variables ++
    (signature.superclass :: signature.interfaces).flatMap segmentsVariables

mutual

theorem GenericType.rename_congr {names others : Renaming} : ∀ type : GenericType,
    (∀ v ∈ type.variables, names v = others v) → type.rename names = type.rename others
  | .base _, _ => rfl
  | .array component, h => congrArg GenericType.array (component.rename_congr h)
  | .var name, h => congrArg GenericType.var (h name (List.mem_singleton.mpr rfl))
  | .classType segments, h => congrArg GenericType.classType (renameSegments_congr segments h)

theorem Segment.rename_congr {names others : Renaming} : ∀ segment : Segment,
    (∀ v ∈ segment.variables, names v = others v) → segment.rename names = segment.rename others
  | ⟨name, arguments⟩, h => congrArg (Segment.mk name) (renameArguments_congr arguments h)

theorem TypeArgument.rename_congr {names others : Renaming} : ∀ argument : TypeArgument,
    (∀ v ∈ argument.variables, names v = others v) →
      argument.rename names = argument.rename others
  | .any, _ => rfl
  | .bounded variance bound, h => congrArg (TypeArgument.bounded variance) (bound.rename_congr h)

theorem renameSegments_congr {names others : Renaming} : ∀ segments : List Segment,
    (∀ v ∈ segmentsVariables segments, names v = others v) →
      renameSegments names segments = renameSegments others segments
  | [], _ => rfl
  | segment :: rest, h => by
      rw [segmentsVariables, List.forall_mem_append] at h
      rw [renameSegments, renameSegments, segment.rename_congr h.1, renameSegments_congr rest h.2]

theorem renameArguments_congr {names others : Renaming} : ∀ arguments : List TypeArgument,
    (∀ v ∈ argumentsVariables arguments, names v = others v) →
      renameArguments names arguments = renameArguments others arguments
  | [], _ => rfl
  | argument :: rest, h => by
      rw [argumentsVariables, List.forall_mem_append] at h
      rw [renameArguments, renameArguments, argument.rename_congr h.1,
        renameArguments_congr rest h.2]

end

mutual

theorem GenericType.rename_rename (names others : Renaming) : ∀ type : GenericType,
    (type.rename names).rename others = type.rename (others ∘ names)
  | .base _ => rfl
  | .array component => congrArg GenericType.array (component.rename_rename names others)
  | .var _ => rfl
  | .classType segments =>
      congrArg GenericType.classType (renameSegments_rename names others segments)

theorem Segment.rename_rename (names others : Renaming) : ∀ segment : Segment,
    (segment.rename names).rename others = segment.rename (others ∘ names)
  | ⟨name, arguments⟩ =>
      congrArg (Segment.mk name) (renameArguments_rename names others arguments)

theorem TypeArgument.rename_rename (names others : Renaming) : ∀ argument : TypeArgument,
    (argument.rename names).rename others = argument.rename (others ∘ names)
  | .any => rfl
  | .bounded variance bound =>
      congrArg (TypeArgument.bounded variance) (bound.rename_rename names others)

theorem renameSegments_rename (names others : Renaming) : ∀ segments : List Segment,
    renameSegments others (renameSegments names segments) =
      renameSegments (others ∘ names) segments
  | [] => rfl
  | segment :: rest => by
      rw [renameSegments, renameSegments, renameSegments, segment.rename_rename,
        renameSegments_rename names others rest]

theorem renameArguments_rename (names others : Renaming) : ∀ arguments : List TypeArgument,
    renameArguments others (renameArguments names arguments) =
      renameArguments (others ∘ names) arguments
  | [] => rfl
  | argument :: rest => by
      rw [renameArguments, renameArguments, renameArguments, argument.rename_rename,
        renameArguments_rename names others rest]

end

mutual

theorem GenericType.rename_id : ∀ type : GenericType, type.rename id = type
  | .base _ => rfl
  | .array component => congrArg GenericType.array component.rename_id
  | .var _ => rfl
  | .classType segments => congrArg GenericType.classType (renameSegments_id segments)

theorem Segment.rename_id : ∀ segment : Segment, segment.rename id = segment
  | ⟨name, arguments⟩ => congrArg (Segment.mk name) (renameArguments_id arguments)

theorem TypeArgument.rename_id : ∀ argument : TypeArgument, argument.rename id = argument
  | .any => rfl
  | .bounded variance bound => congrArg (TypeArgument.bounded variance) bound.rename_id

theorem renameSegments_id : ∀ segments : List Segment, renameSegments id segments = segments
  | [] => rfl
  | segment :: rest => by rw [renameSegments, segment.rename_id, renameSegments_id rest]

theorem renameArguments_id : ∀ arguments : List TypeArgument,
    renameArguments id arguments = arguments
  | [] => rfl
  | argument :: rest => by rw [renameArguments, argument.rename_id, renameArguments_id rest]

end

mutual

theorem GenericType.variables_rename (names : Renaming) : ∀ type : GenericType,
    (type.rename names).variables = type.variables.map names
  | .base _ => rfl
  | .array component => component.variables_rename names
  | .var _ => rfl
  | .classType segments => segmentsVariables_rename names segments

theorem Segment.variables_rename (names : Renaming) : ∀ segment : Segment,
    (segment.rename names).variables = segment.variables.map names
  | ⟨_, arguments⟩ => argumentsVariables_rename names arguments

theorem TypeArgument.variables_rename (names : Renaming) : ∀ argument : TypeArgument,
    (argument.rename names).variables = argument.variables.map names
  | .any => rfl
  | .bounded _ bound => bound.variables_rename names

theorem segmentsVariables_rename (names : Renaming) : ∀ segments : List Segment,
    segmentsVariables (renameSegments names segments) = (segmentsVariables segments).map names
  | [] => rfl
  | segment :: rest => by
      rw [renameSegments, segmentsVariables, segmentsVariables, List.map_append,
        segment.variables_rename, segmentsVariables_rename names rest]

theorem argumentsVariables_rename (names : Renaming) : ∀ arguments : List TypeArgument,
    argumentsVariables (renameArguments names arguments) =
      (argumentsVariables arguments).map names
  | [] => rfl
  | argument :: rest => by
      rw [renameArguments, argumentsVariables, argumentsVariables, List.map_append,
        argument.variables_rename, argumentsVariables_rename names rest]

end

-- The class names in a type stay when its variables are renamed.
theorem ClassType.names_rename (names : Renaming) (type : ClassType) :
    (type.rename names).map Segment.name = type.map Segment.name := by
  induction type with
  | nil => rfl
  | cons segment rest ih =>
      cases segment
      rw [rename, renameSegments, List.map_cons, List.map_cons, Segment.rename]
      exact congrArg (List.cons _) ih

theorem ClassType.internalName_rename (names : Renaming) (type : ClassType) :
    (type.rename names).internalName = type.internalName := by
  rw [internalName, names_rename, internalName]

theorem TypeParameter.bounds_rename (names : Renaming) (parameter : TypeParameter) :
    (parameter.rename names).bounds = parameter.bounds.map (GenericType.rename names) := by
  obtain ⟨name, classBound, interfaceBounds⟩ := parameter
  cases classBound <;> simp [TypeParameter.bounds, TypeParameter.rename]

theorem TypeParameter.variables_rename (names : Renaming) (parameter : TypeParameter) :
    (parameter.rename names).variables = parameter.variables.map names := by
  simp only [TypeParameter.variables, bounds_rename, List.flatMap_map, GenericType.variables_rename,
    List.map_cons, List.map_flatMap]
  rfl

theorem MethodSignature.variables_rename (names : Renaming) (signature : MethodSignature) :
    (signature.rename names).variables = signature.variables.map names := by
  simp only [MethodSignature.variables, MethodSignature.rename, Option.toList_map,
    List.flatMap_append, List.flatMap_map, TypeParameter.variables_rename,
    GenericType.variables_rename, List.map_append, List.map_flatMap]

theorem ClassSignature.variables_rename (names : Renaming) (signature : ClassSignature) :
    (signature.rename names).variables = signature.variables.map names := by
  simp only [ClassSignature.variables, ClassSignature.rename, ClassType.rename, List.flatMap_map,
    List.flatMap_cons, TypeParameter.variables_rename, segmentsVariables_rename, List.map_append,
    List.map_flatMap]

theorem TypeParameter.rename_congr {names others : Renaming} (parameter : TypeParameter)
    (h : ∀ v ∈ parameter.variables, names v = others v) :
    parameter.rename names = parameter.rename others := by
  obtain ⟨name, classBound, interfaceBounds⟩ := parameter
  obtain ⟨hname, hbounds⟩ := List.forall_mem_cons.mp h
  have hrename : ∀ bound ∈ classBound.toList ++ interfaceBounds,
      bound.rename names = bound.rename others := fun bound hbound =>
    bound.rename_congr fun v hv => hbounds v (List.mem_flatMap.mpr ⟨bound, hbound, hv⟩)
  simp only [rename, TypeParameter.mk.injEq]
  refine ⟨hname, Option.map_congr fun bound hbound => ?_, List.map_congr_left fun bound hbound => ?_⟩
  · exact hrename bound (List.mem_append_left _ (Option.mem_toList.mpr hbound))
  · exact hrename bound (List.mem_append_right _ hbound)

theorem MethodSignature.rename_congr {names others : Renaming} (signature : MethodSignature)
    (h : ∀ v ∈ signature.variables, names v = others v) :
    signature.rename names = signature.rename others := by
  obtain ⟨typeParameters, parameters, result, throws⟩ := signature
  obtain ⟨hparameters, htypes⟩ := List.forall_mem_append.mp h
  have hrename : ∀ type ∈ parameters ++ result.toList ++ throws,
      type.rename names = type.rename others := fun type htype =>
    type.rename_congr fun v hv => htypes v (List.mem_flatMap.mpr ⟨type, htype, hv⟩)
  simp only [List.forall_mem_append, Option.mem_toList] at hrename
  simp only [rename, MethodSignature.mk.injEq]
  refine ⟨List.map_congr_left fun parameter hparameter => parameter.rename_congr fun v hv => ?_,
    List.map_congr_left hrename.1.1, Option.map_congr hrename.1.2, List.map_congr_left hrename.2⟩
  exact hparameters v (List.mem_flatMap.mpr ⟨parameter, hparameter, hv⟩)

theorem ClassSignature.rename_congr {names others : Renaming} (signature : ClassSignature)
    (h : ∀ v ∈ signature.variables, names v = others v) :
    signature.rename names = signature.rename others := by
  obtain ⟨typeParameters, superclass, interfaces⟩ := signature
  obtain ⟨hparameters, htypes⟩ := List.forall_mem_append.mp h
  have hrename : ∀ type ∈ superclass :: interfaces, type.rename names = type.rename others :=
    fun type htype =>
      renameSegments_congr type fun v hv => htypes v (List.mem_flatMap.mpr ⟨type, htype, hv⟩)
  obtain ⟨hsuperclass, hinterfaces⟩ := List.forall_mem_cons.mp hrename
  simp only [rename, ClassSignature.mk.injEq]
  refine ⟨List.map_congr_left fun parameter hparameter => parameter.rename_congr fun v hv => ?_,
    hsuperclass, List.map_congr_left hinterfaces⟩
  exact hparameters v (List.mem_flatMap.mpr ⟨parameter, hparameter, hv⟩)

theorem TypeParameter.rename_rename (names others : Renaming) (parameter : TypeParameter) :
    (parameter.rename names).rename others = parameter.rename (others ∘ names) := by
  simp only [rename, Option.map_map, List.map_map, Function.comp_def, GenericType.rename_rename]

theorem MethodSignature.rename_rename (names others : Renaming) (signature : MethodSignature) :
    (signature.rename names).rename others = signature.rename (others ∘ names) := by
  simp only [rename, Option.map_map, List.map_map, Function.comp_def, GenericType.rename_rename,
    TypeParameter.rename_rename]

theorem ClassSignature.rename_rename (names others : Renaming) (signature : ClassSignature) :
    (signature.rename names).rename others = signature.rename (others ∘ names) := by
  simp only [rename, ClassType.rename, List.map_map, ClassSignature.mk.injEq,
    renameSegments_rename, true_and]
  constructor
  · simp only [Function.comp_def, TypeParameter.rename_rename]
  · exact List.map_congr_left fun type _ => renameSegments_rename names others type

theorem TypeParameter.rename_id (parameter : TypeParameter) : parameter.rename id = parameter := by
  have htypes : GenericType.rename id = id := funext GenericType.rename_id
  simp only [rename, htypes, List.map_id, Option.map_id, id_eq]

theorem MethodSignature.rename_id (signature : MethodSignature) :
    signature.rename id = signature := by
  have htypes : GenericType.rename id = id := funext GenericType.rename_id
  have hparameters : TypeParameter.rename id = id := funext TypeParameter.rename_id
  simp only [rename, htypes, hparameters, List.map_id, Option.map_id, id_eq]

-- Nothing is confused where no two variables get one name.
theorem MethodSignature.rename_injOn {names : Renaming} {scope : Set String}
    (hinj : scope.InjOn names) {a b : MethodSignature} (ha : ∀ v ∈ a.variables, v ∈ scope)
    (hb : ∀ v ∈ b.variables, v ∈ scope) : a.rename names = b.rename names ↔ a = b := by
  refine ⟨fun h => ?_, fun h => congrArg _ h⟩
  have hinverse : ∀ signature : MethodSignature, (∀ v ∈ signature.variables, v ∈ scope) →
      (signature.rename names).rename (Function.invFunOn names scope) = signature := by
    intro signature hscope
    have hid : ∀ v ∈ signature.variables, (Function.invFunOn names scope ∘ names) v = id v :=
      fun v hv => hinj.leftInvOn_invFunOn (hscope v hv)
    rw [rename_rename, signature.rename_congr hid, rename_id]
  rw [← hinverse a ha, ← hinverse b hb, h]

end ApiUnion
