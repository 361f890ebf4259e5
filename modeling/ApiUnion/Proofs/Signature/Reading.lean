import Mathlib.Data.List.Flatten
import ApiUnion.Proofs.Signature.Legible

-- Reading whole signatures: a text is accepted exactly if it is the text of a legible signature.

namespace ApiUnion

open Signature

def TypeParameter.bounds (parameter : TypeParameter) : List GenericType :=
  parameter.classBound.toList ++ parameter.interfaceBounds

-- A parameter without a class bound has its interface bounds to end its name; the closing bracket
-- in place of a name ends the list.
structure TypeParameter.Legible (parameter : TypeParameter) : Prop where
  name : IsIdentifier [':'] parameter.name
  opening : parameter.name.toList.head? ≠ some '>'
  bounded : parameter.bounds ≠ []
  bounds : ∀ bound ∈ parameter.bounds, bound.IsReference ∧ bound.Legible

structure MethodSignature.Legible (signature : MethodSignature) : Prop where
  typeParameters : ∀ parameter ∈ signature.typeParameters, parameter.Legible
  parameters : ∀ type ∈ signature.parameters, type.Legible
  result : ∀ type ∈ signature.result, type.Legible
  throws : ∀ type ∈ signature.throws, type.IsReference ∧ type.Legible

structure ClassSignature.Legible (signature : ClassSignature) : Prop where
  typeParameters : ∀ parameter ∈ signature.typeParameters, parameter.Legible
  superclass : (GenericType.classType signature.superclass).Legible
  interfaces : ∀ type ∈ signature.interfaces, (GenericType.classType type).Legible

theorem TypeParameter.chars_eq (parameter : TypeParameter) :
    parameter.chars = parameter.name.toList ++ ':' ::
      ((parameter.classBound.map GenericType.chars).getD [] ++
        parameter.interfaceBounds.flatMap fun bound => ':' :: bound.chars) :=
  rfl

theorem TypeParameter.head?_chars (parameter : TypeParameter)
    (h : IsIdentifier [':'] parameter.name) :
    parameter.chars.head? = parameter.name.toList.head? := by
  obtain ⟨c, tail, hname⟩ := List.exists_cons_of_ne_nil h.1
  rw [chars_eq, hname, List.cons_append, List.head?_cons, List.head?_cons]

theorem typeParameterChars_eq (parameters : List TypeParameter) :
    typeParameterChars parameters = bracketed TypeParameter.chars parameters := by
  cases parameters <;> rfl

namespace Signature

variable {reference : Parser GenericType} {limit : Nat}

theorem takes_result? (h : Takes reference (Readable limit) GenericType.chars Closed) :
    Takes (result? reference) (fun result => ∀ type ∈ result, type.Legible ∧ type.depth ≤ limit)
      (fun result => (result.map GenericType.chars).getD ['V']) Closed := by
  intro input result rest
  constructor
  · intro hread
    unfold result? at hread
    split at hread
    · simp only [Option.some.injEq, Prod.mk.injEq] at hread
      obtain ⟨rfl, rfl⟩ := hread
      exact ⟨by simp, rfl, trivial⟩
    · simp only [Option.bind_eq_bind, Option.bind_eq_some_iff, Option.pure_def, Option.some.injEq,
        Prod.mk.injEq] at hread
      obtain ⟨⟨type, tail⟩, htype, rfl, rfl⟩ := hread
      obtain ⟨hlegible, rfl, -⟩ := (takes_anyType? h _ _ _).mp htype
      exact ⟨by simpa using hlegible, rfl, trivial⟩
  · rintro ⟨hlegible, rfl, -⟩
    cases result with
    | none => rfl
    | some type =>
        have htype := (takes_anyType? h (type.chars ++ rest) type rest).mpr
          ⟨hlegible type rfl, rfl, trivial⟩
        -- No type starts with the sign for its absence.
        have hread : result? reference (type.chars ++ rest) =
            (anyType? reference (type.chars ++ rest)).bind fun found =>
              some (some found.1, found.2) := by
          cases type with
          | base base => cases base <;> rfl
          | array component | var name | classType segments => rfl
        exact hread.trans (by rw [htype, Option.bind_some])

theorem bounds_eq_some_iff (h : Takes reference (Readable limit) GenericType.chars Closed)
    (input : List Char) (classBound : Option GenericType) (interfaceBounds : List GenericType)
    (rest : List Char) :
    (∃ middle, classBound? reference input = some (classBound, middle) ∧
        announced? ':' reference middle = some (interfaceBounds, rest)) ↔
      (classBound.toList ++ interfaceBounds ≠ [] ∧
        ∀ bound ∈ classBound.toList ++ interfaceBounds, Readable limit bound) ∧
        input = (classBound.map GenericType.chars).getD [] ++
          (interfaceBounds.flatMap fun bound => ':' :: bound.chars) ++ rest ∧
        rest.head? ≠ some ':' := by
  simp only [takes_announced? ':' h _ _ _]
  constructor
  · rintro ⟨middle, hclass, hinterfaces, rfl, hend⟩
    unfold classBound? at hclass
    split at hclass
    · rename_i tail
      simp only [Option.some.injEq, Prod.mk.injEq] at hclass
      obtain ⟨rfl, hmiddle⟩ := hclass
      refine ⟨⟨?_, by simpa using hinterfaces⟩, by simpa using hmiddle, hend⟩
      rintro hnil
      obtain rfl : interfaceBounds = [] := by simpa using hnil
      rw [List.flatMap_nil, List.nil_append] at hmiddle
      rw [← hmiddle] at hend
      exact hend rfl
    · simp only [Option.bind_eq_bind, Option.bind_eq_some_iff, Option.pure_def, Option.some.injEq,
        Prod.mk.injEq] at hclass
      obtain ⟨⟨bound, tail⟩, hbound, rfl, rfl⟩ := hclass
      obtain ⟨hreadable, rfl, -⟩ := (h _ _ _).mp hbound
      refine ⟨⟨by simp, ?_⟩, by simp, hend⟩
      simpa using ⟨hreadable, hinterfaces⟩
  · rintro ⟨⟨hne, hreadable⟩, rfl, hend⟩
    refine ⟨(interfaceBounds.flatMap fun bound => ':' :: bound.chars) ++ rest, ?_,
      fun bound hbound => hreadable bound (by simp [hbound]), rfl, hend⟩
    cases classBound with
    | none =>
        cases interfaceBounds with
        | nil => exact absurd rfl hne
        | cons bound interfaceBounds => rfl
    | some bound =>
        have hbound := (h (bound.chars ++ ((interfaceBounds.flatMap fun bound =>
          ':' :: bound.chars) ++ rest)) bound _).mpr ⟨hreadable bound (by simp), rfl, trivial⟩
        have hread : ∀ tail, classBound? reference (bound.chars ++ tail) =
            (reference (bound.chars ++ tail)).bind fun found =>
              some (some found.1, found.2) := by
          intro tail
          cases bound with
          | base base => exact absurd (hreadable (.base base) (by simp)).1 id
          | array component | var name | classType segments => rfl
        rw [Option.map_some, Option.getD_some, List.append_assoc, hread, hbound, Option.bind_some]

theorem takes_typeParameter? (h : Takes reference (Readable limit) GenericType.chars Closed) :
    Takes (typeParameter? reference)
      (fun parameter => IsIdentifier [':'] parameter.name ∧
        (parameter.bounds ≠ [] ∧ ∀ bound ∈ parameter.bounds, Readable limit bound))
      TypeParameter.chars (fun rest => rest.head? ≠ some ':') := by
  intro input parameter rest
  obtain ⟨name, classBound, interfaceBounds⟩ := parameter
  have hbounds := fun input => bounds_eq_some_iff h input classBound interfaceBounds rest
  simp only [TypeParameter.chars_eq, TypeParameter.bounds]
  constructor
  · intro hread
    simp only [typeParameter?, Option.bind_eq_bind, Option.bind_eq_some_iff, Option.pure_def,
      Option.some.injEq, Prod.mk.injEq, TypeParameter.mk.injEq] at hread
    obtain ⟨⟨name, tail⟩, hname, after, hafter, ⟨classBound, middle⟩, hclass,
      ⟨interfaceBounds, _⟩, hinterfaces, ⟨rfl, rfl, rfl⟩, rfl⟩ := hread
    obtain rfl := (expect?_eq_some_iff _ _ _).mp hafter
    obtain ⟨hreadable, rfl, hend⟩ := (hbounds after).mp ⟨middle, hclass, hinterfaces⟩
    obtain ⟨hidentifier, rfl, -⟩ := (takes_identifier? [':'] _ _ _).mp hname
    exact ⟨⟨hidentifier, hreadable⟩, by simp, hend⟩
  · rintro ⟨⟨hname, hreadable⟩, rfl, hend⟩
    obtain ⟨middle, hclass, hinterfaces⟩ := (hbounds _).mpr ⟨hreadable, rfl, hend⟩
    have hread := (takes_identifier? [':'] (name.toList ++ ':' ::
      ((classBound.map GenericType.chars).getD [] ++
        (interfaceBounds.flatMap fun bound => ':' :: bound.chars) ++ rest)) name _).mpr
      ⟨hname, rfl, ':', rfl, by simp⟩
    simp only [typeParameter?, List.append_assoc, List.cons_append, Option.bind_eq_bind,
      Option.bind_eq_some_iff] at hread hclass ⊢
    exact ⟨_, hread, _, (expect?_eq_some_iff _ _ _).mpr rfl, _, hclass, _, hinterfaces, rfl⟩

theorem typeParameters?_eq_some_iff
    (h : Takes reference (Readable limit) GenericType.chars Closed) (input : List Char)
    (parameters : List TypeParameter) (rest : List Char) :
    typeParameters? reference input = some (parameters, rest) ↔
      (∀ parameter ∈ parameters,
        parameter.Legible ∧ ∀ bound ∈ parameter.bounds, bound.depth ≤ limit) ∧
        input = typeParameterChars parameters ++ rest ∧
        (parameters = [] → rest.head? ≠ some '<') := by
  have hnone : ∀ input, input.head? ≠ some '<' →
      typeParameters? reference input = some ([], input) := by
    intro input hhead
    unfold typeParameters?
    split
    · exact absurd rfl hhead
    · rfl
  have hne : ∀ parameter : TypeParameter, parameter.chars ≠ [] := fun parameter => by
    simp [TypeParameter.chars_eq]
  have hfirst : ∀ name, IsIdentifier [':'] name → name.toList.head? ≠ some ':' := by
    intro name hname hhead
    obtain ⟨tail, htail⟩ := List.head?_eq_some_iff.mp hhead
    exact hname.2 ':' (by simp [htail]) (by simp)
  rw [inBrackets_eq_some_iff (takes_typeParameter? h) (fun parameter _ => hne parameter)
    (fun _ => by simp) (fun parameter rest hlegible => ?_) (fun _ => rfl) hnone,
    typeParameterChars_eq]
  · refine and_congr_left fun _ => forall₂_congr fun parameter _ => ?_
    constructor
    · rintro ⟨⟨hname, hbounded, hreadable⟩, hhead⟩
      rw [parameter.head?_chars hname] at hhead
      exact ⟨⟨hname, hhead, hbounded, fun bound hbound =>
        ⟨(hreadable bound hbound).1, (hreadable bound hbound).2.1⟩⟩,
        fun bound hbound => (hreadable bound hbound).2.2⟩
    · rintro ⟨hlegible, hdepth⟩
      refine ⟨⟨hlegible.name, hlegible.bounded, fun bound hbound => ?_⟩, ?_⟩
      · exact ⟨(hlegible.bounds bound hbound).1, (hlegible.bounds bound hbound).2,
          hdepth bound hbound⟩
      · rw [parameter.head?_chars hlegible.name]
        exact hlegible.opening
  · rw [List.head?_append, Option.or_of_isSome, parameter.head?_chars hlegible.1]
    · exact hfirst parameter.name hlegible.1
    · exact List.isSome_head?.mpr (hne parameter)

end Signature

theorem length_le_length_flatMap {α β : Type} {values : List α} {value : α} (h : value ∈ values)
    (f : α → List β) : (f value).length ≤ (values.flatMap f).length :=
  (List.infix_of_mem_flatten (List.mem_map_of_mem h)).length_le

theorem TypeParameter.length_bound_le {parameter : TypeParameter} {bound : GenericType}
    (h : bound ∈ parameter.bounds) : bound.chars.length ≤ parameter.chars.length := by
  rw [chars_eq]
  simp only [List.length_append, List.length_cons]
  rcases List.mem_append.mp h with hclass | hinterface
  · rw [Option.mem_toList.mp hclass, Option.map_some, Option.getD_some]
    omega
  · have hle := length_le_length_flatMap hinterface fun bound => ':' :: bound.chars
    rw [List.length_cons] at hle
    omega

theorem depth_le_of_mem {types : List GenericType} {type : GenericType} (h : type ∈ types) :
    type.depth ≤ (types.flatMap GenericType.chars).length :=
  type.depth_le.trans (length_le_length_flatMap h GenericType.chars)

theorem typeParameters_depth_le {parameters : List TypeParameter} {parameter : TypeParameter}
    (hparameter : parameter ∈ parameters) {bound : GenericType} (hbound : bound ∈ parameter.bounds) :
    bound.depth ≤ (typeParameterChars parameters).length := by
  have hle := length_le_length_flatMap hparameter TypeParameter.chars
  have hbound := TypeParameter.length_bound_le hbound
  have hdepth := bound.depth_le
  rw [typeParameterChars_eq]
  cases parameters with
  | nil => simp at hparameter
  | cons first parameters =>
      simp only [bracketed, List.length_cons, List.length_append]
      omega

theorem GenericType.ofChars?_eq_some_iff (input : List Char) (type : GenericType) :
    ofChars? input = some type ↔ (type.IsReference ∧ type.Legible) ∧ input = type.chars := by
  have hreference := takes_reference? input.length input type []
  unfold ofChars? complete?
  constructor
  · intro hread
    split at hread
    · rename_i value hvalue
      obtain rfl := Option.some.inj hread
      obtain ⟨hreadable, hinput, -⟩ := hreference.mp hvalue
      exact ⟨⟨hreadable.1, hreadable.2.1⟩, by simpa using hinput⟩
    · cases hread
  · rintro ⟨⟨href, hlegible⟩, rfl⟩
    rw [hreference.mpr ⟨⟨href, hlegible, type.depth_le⟩, by simp, trivial⟩]

theorem MethodSignature.ofChars?_eq_some_iff (input : List Char) (signature : MethodSignature) :
    ofChars? input = some signature ↔ signature.Legible ∧ input = signature.chars := by
  have hreference := takes_reference? input.length
  have hparameters := takes_upTo? ')' (takes_anyType? hreference)
    (fun type _ => type.chars_ne_nil) (fun _ => trivial) (fun _ _ _ => trivial)
  have hthrows := takes_announced? '^' hreference
  simp only [ofChars?, Option.bind_eq_bind, Option.bind_eq_some_iff]
  constructor
  · rintro ⟨⟨typeParameters, rest⟩, hread₁, after, hafter, ⟨parameters, rest⟩, hread₂,
      ⟨result, rest⟩, hread₃, ⟨throws, rest⟩, hread₄, hread⟩
    obtain rfl := (expect?_eq_some_iff _ _ _).mp hafter
    obtain ⟨htypeParameters, hinput, -⟩ := (typeParameters?_eq_some_iff hreference _ _ _).mp hread₁
    obtain ⟨hparameters, rfl, -⟩ := (hparameters _ _ _).mp hread₂
    obtain ⟨hresult, rfl, -⟩ := (takes_result? hreference _ _ _).mp hread₃
    obtain ⟨hthrows, rfl, -⟩ := (hthrows _ _ _).mp hread₄
    split at hread
    · rename_i hend
      obtain rfl := List.isEmpty_iff.mp hend
      obtain rfl := Option.some.inj hread
      refine ⟨⟨fun parameter hparameter => (htypeParameters parameter hparameter).1,
        fun type htype => (hparameters type htype).1.1,
        fun type htype => (hresult type htype).1,
        fun type htype => ⟨(hthrows type htype).1, (hthrows type htype).2.1⟩⟩, ?_⟩
      rw [hinput]
      simp [chars]
    · cases hread
  · rintro ⟨hlegible, rfl⟩
    have hlength : signature.chars.length =
        (typeParameterChars signature.typeParameters).length +
          (1 + ((signature.parameters.flatMap GenericType.chars).length + (1 +
            (((signature.result.map GenericType.chars).getD ['V']).length +
              (signature.throws.flatMap fun type => '^' :: type.chars).length)))) := by
      simp only [chars, List.length_append, List.length_cons]
      omega
    refine ⟨_, (typeParameters?_eq_some_iff hreference _ _ _).mpr
      ⟨fun parameter hparameter => ⟨hlegible.typeParameters parameter hparameter, ?_⟩, rfl, ?_⟩,
      _, (expect?_eq_some_iff _ _ _).mpr rfl,
      (signature.parameters, (signature.result.map GenericType.chars).getD ['V'] ++
        signature.throws.flatMap fun type => '^' :: type.chars),
      (hparameters _ _ _).mpr ⟨?_, by simp, trivial⟩,
      (signature.result, _), (takes_result? hreference _ _ _).mpr ⟨?_, rfl, trivial⟩,
      (signature.throws, []), (hthrows _ _ _).mpr ⟨?_, by simp, by simp⟩, rfl⟩
    · intro bound hbound
      have hdepth := typeParameters_depth_le hparameter hbound
      omega
    · simp
    · intro type htype
      have hdepth := depth_le_of_mem htype
      refine ⟨⟨hlegible.parameters type htype, by omega⟩, ?_⟩
      cases type with
      | base base => cases base <;> simp [GenericType.chars, BaseType.letter]
      | array component | var name | classType segments => simp [GenericType.chars]
    · intro type htype
      have hdepth := type.depth_le
      rw [Option.mem_def.mp htype, Option.map_some, Option.getD_some] at hlength
      exact ⟨hlegible.result type htype, by omega⟩
    · intro type htype
      have hdepth := type.depth_le
      have hle := length_le_length_flatMap htype fun type => '^' :: type.chars
      rw [List.length_cons] at hle
      exact ⟨(hlegible.throws type htype).1, (hlegible.throws type htype).2, by omega⟩

theorem ClassSignature.ofChars?_eq_some_iff (input : List Char) (signature : ClassSignature) :
    ofChars? input = some signature ↔ signature.Legible ∧ input = signature.chars := by
  have hreference := takes_reference? input.length
  have hclass := takes_classType? hreference
  have hinterfaces := toEnd?_eq_some_iff hclass
    (fun type _ => (GenericType.classType type).chars_ne_nil)
  simp only [ofChars?, Option.bind_eq_bind, Option.bind_eq_some_iff]
  constructor
  · rintro ⟨⟨typeParameters, rest⟩, hread₁, ⟨superclass, rest⟩, hread₂, interfaces, hread₃, hread⟩
    obtain ⟨htypeParameters, rfl, -⟩ := (typeParameters?_eq_some_iff hreference _ _ _).mp hread₁
    obtain ⟨hsuperclass, hinput, -⟩ := (hclass _ _ _).mp hread₂
    obtain ⟨hinterfaces, rfl⟩ := (hinterfaces _ _).mp hread₃
    obtain rfl := Option.some.inj hread
    refine ⟨⟨fun parameter hparameter => (htypeParameters parameter hparameter).1,
      hsuperclass.1, fun type htype => (hinterfaces type htype).1⟩, ?_⟩
    simpa [chars] using hinput
  · rintro ⟨hlegible, rfl⟩
    have hlength : signature.chars.length =
        (typeParameterChars signature.typeParameters).length +
          (signature.superclass.chars.length +
            (signature.interfaces.flatMap ClassType.chars).length) := by
      simp only [chars, List.length_append]
      omega
    have hdepth : ∀ type : ClassType, type.chars.length ≤ signature.chars.length →
        segmentsDepth type ≤ signature.chars.length := fun type hle =>
      (Nat.le_succ _).trans ((GenericType.classType type).depth_le.trans hle)
    refine ⟨_, (typeParameters?_eq_some_iff hreference _ _ _).mpr
      ⟨fun parameter hparameter => ⟨hlegible.typeParameters parameter hparameter, ?_⟩,
        (List.append_assoc _ _ _), ?_⟩,
      (signature.superclass, signature.interfaces.flatMap ClassType.chars),
      (hclass _ _ _).mpr ⟨⟨hlegible.superclass, hdepth _ (by omega)⟩, rfl, trivial⟩,
      signature.interfaces, (hinterfaces _ _).mpr ⟨fun type htype =>
        ⟨hlegible.interfaces type htype, hdepth _ ?_⟩, rfl⟩, rfl⟩
    · intro bound hbound
      have hdepth := typeParameters_depth_le hparameter hbound
      omega
    · simp [ClassType.chars, GenericType.chars]
    · have hle := length_le_length_flatMap htype ClassType.chars
      omega

theorem eq_ofList_iff (text : String) (chars : List Char) :
    text.toList = chars ↔ text = String.ofList chars := by
  rw [← String.toList_inj, String.toList_ofList]

theorem GenericType.ofText_eq_ok_iff (text : String) (type : GenericType) :
    ofText text = .ok type ↔ (type.IsReference ∧ type.Legible) ∧ text = type.text := by
  rw [GenericType.text, ← eq_ofList_iff, ← ofChars?_eq_some_iff, ofText]
  cases ofChars? text.toList <;> simp

theorem MethodSignature.ofText_eq_ok_iff (text : String) (signature : MethodSignature) :
    ofText text = .ok signature ↔ signature.Legible ∧ text = signature.text := by
  rw [MethodSignature.text, ← eq_ofList_iff, ← ofChars?_eq_some_iff, ofText]
  cases ofChars? text.toList <;> simp

theorem ClassSignature.ofText_eq_ok_iff (text : String) (signature : ClassSignature) :
    ofText text = .ok signature ↔ signature.Legible ∧ text = signature.text := by
  rw [ClassSignature.text, ← eq_ofList_iff, ← ofChars?_eq_some_iff, ofText]
  cases ofChars? text.toList <;> simp

-- Reading and printing undo each other, where there is something legible to print. What cannot be
-- read is named in full.
structure Signature.Inverse {α : Type} (read : String → Except ClassFileError α)
    (print : α → String) (legible : α → Prop) : Prop where
  print_of_read : ∀ text value, read text = .ok value → print value = text
  read_print : ∀ value, read (print value) = .ok value ↔ legible value
  refused : ∀ text error, read text = .error error → error = .invalidSignature text

theorem Signature.inverse_of_eq_ok_iff {α : Type} {read : List Char → Option α}
    {print : α → String} {legible : α → Prop}
    (h : ∀ text value, (read text.toList).elim (.error (.invalidSignature text)) .ok =
      (.ok value : Except ClassFileError α) ↔ legible value ∧ text = print value) :
    Inverse (fun text => (read text.toList).elim (.error (.invalidSignature text)) .ok) print
      legible where
  print_of_read text value hread := ((h text value).mp hread).2.symm
  read_print value := (h (print value) value).trans (and_iff_left rfl)
  refused text error hread := by
    cases hfound : read text.toList with
    | none =>
        rw [hfound] at hread
        exact (Except.error.inj hread).symm
    | some value =>
        rw [hfound] at hread
        cases hread

-- A field has a reference type for its signature, a method and a class have signatures of their
-- own.
theorem Signature.inverse_ofText_text :
    Inverse GenericType.ofText GenericType.text (fun type => type.IsReference ∧ type.Legible) ∧
      Inverse MethodSignature.ofText MethodSignature.text MethodSignature.Legible ∧
      Inverse ClassSignature.ofText ClassSignature.text ClassSignature.Legible :=
  ⟨inverse_of_eq_ok_iff GenericType.ofText_eq_ok_iff,
    inverse_of_eq_ok_iff MethodSignature.ofText_eq_ok_iff,
    inverse_of_eq_ok_iff ClassSignature.ofText_eq_ok_iff⟩

end ApiUnion
