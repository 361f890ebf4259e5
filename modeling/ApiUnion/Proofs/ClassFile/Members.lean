import ApiUnion.ClassFile.Binary
import ApiUnion.Proofs.ClassFile.Attribute

-- A class or member writes its attributes as a list of parts, each of at most one attribute. What
-- is looked up among the attributes read again is looked up part by part.

namespace ApiUnion

open Reader Interning

namespace Attribute

variable {α β : Type}

@[simp] theorem lastOf_append (value : Attribute → Option α) (xs ys : List Attribute) :
    lastOf value (xs ++ ys) = (lastOf value ys).or (lastOf value xs) := by
  simp [lastOf]

@[simp] theorem lastOf_option (value : Attribute → Option α) (attr : β → Attribute)
    (owner : AttributeOwner) (item : Option β) :
    lastOf value ((item.map attr).toList.map (asRead owner)) =
      item.bind fun item => value ((attr item).asRead owner) := by
  cases item with
  | none => rfl
  | some item => simp [lastOf]

@[simp] theorem lastOf_ofList (value : Attribute → Option α) (attr : List β → Attribute)
    (owner : AttributeOwner) (items : List β) :
    lastOf value ((ofList attr items).map (asRead owner)) =
      if items = [] then none else value ((attr items).asRead owner) := by
  unfold ofList
  cases items with
  | nil => rfl
  | cons item rest => simp [lastOf]

@[simp] theorem lastOf_ofLists (value : Attribute → Option α) (retention : Retention)
    (owner : AttributeOwner) (lists : List (List AnnotationValue)) :
    lastOf value ((Member.ofLists retention lists).map (asRead owner)) =
      if lists.all List.isEmpty then none
      else value ((parameterAnnotations retention lists).asRead owner) := by
  unfold Member.ofLists
  split <;> simp [lastOf]

@[simp] theorem flatMap_option (items : Attribute → List α) (attr : β → Attribute)
    (owner : AttributeOwner) (item : Option β) :
    ((item.map attr).toList.map (asRead owner)).flatMap items =
      item.elim [] fun item => items ((attr item).asRead owner) := by
  cases item with
  | none => rfl
  | some item => simp

@[simp] theorem flatMap_ofList (items : Attribute → List α) (attr : List β → Attribute)
    (owner : AttributeOwner) (list : List β) :
    ((ofList attr list).map (asRead owner)).flatMap items =
      if list = [] then [] else items ((attr list).asRead owner) := by
  unfold ofList
  cases list with
  | nil => rfl
  | cons item rest => simp

@[simp] theorem flatMap_ofLists (items : Attribute → List α) (retention : Retention)
    (owner : AttributeOwner) (lists : List (List AnnotationValue)) :
    ((Member.ofLists retention lists).map (asRead owner)).flatMap items =
      if lists.all List.isEmpty then []
      else items ((parameterAnnotations retention lists).asRead owner) := by
  unfold Member.ofLists
  split <;> simp

-- A part that is left out stands for the empty list.

@[simp] theorem elim_nil (item : Option β) : (item.elim [] fun _ => ([] : List α)) = [] := by
  cases item <;> rfl

@[simp] theorem bind_asRead (item : Option β) (f : β → α) :
    (item.bind fun item => some (f item)) = item.map f := by
  cases item <;> rfl

@[simp] theorem getD_of_nonempty (list : List α) :
    (if list = [] then none else some list).getD [] = list := by
  split <;> simp [*]

theorem getD_listsAsRead (lists : List (List AnnotationValue)) :
    (if lists.all List.isEmpty then none
      else some (lists.map fun list => list.map AnnotationValue.asRead)).getD [] =
      Member.listsAsRead lists := by
  unfold Member.listsAsRead
  split <;> rfl

end Attribute

namespace Member

-- The member with the same name and descriptor that reading builds from these attributes.
def rebuilt (member : Member) (attributes : List Attribute) : Member where
  access := member.access
  name := member.name
  descriptor := member.descriptor
  signature := Attribute.signatureOf attributes
  visible := Attribute.annotationsOf .visible attributes
  invisible := Attribute.annotationsOf .invisible attributes
  exceptions := Attribute.exceptionsOf attributes
  parameters := Attribute.parametersOf attributes
  visibleParameters := Attribute.parameterAnnotationsOf .visible attributes
  invisibleParameters := Attribute.parameterAnnotationsOf .invisible attributes
  annotationDefault := Attribute.defaultOf attributes
  constant := Attribute.constantOf attributes

theorem rebuilt_field (field : Member) :
    field.rebuilt ((field.attributes .field).map (Attribute.asRead .field)) =
      field.asReadField := by
  simp [rebuilt, attributes, asReadField, Attribute.asRead, Attribute.signatureOf,
    Attribute.annotationsOf, Attribute.exceptionsOf, Attribute.parametersOf,
    Attribute.parameterAnnotationsOf, Attribute.defaultOf, Attribute.constantOf]

theorem rebuilt_method (method : Member) :
    method.rebuilt ((method.attributes .method).map (Attribute.asRead .method)) =
      method.asReadMethod := by
  simp [rebuilt, attributes, methodAttributes, asReadMethod, Attribute.asRead,
    Attribute.signatureOf, Attribute.annotationsOf, Attribute.exceptionsOf,
    Attribute.parametersOf, Attribute.parameterAnnotationsOf, Attribute.defaultOf,
    Attribute.constantOf, ← Attribute.getD_listsAsRead]

-- A member is read in four steps, of which only the last one depends on what is read of attributes.
theorem yields_writeWith {α β : Type} {attributes : Pool → Reader α} {found : α} (member : Member)
    (owner : AttributeOwner) (next : UInt16 → String → String → α → β)
    (h : Yields (Attribute.writeAll (member.attributes owner)) fun pool bytes =>
      Reads (attributes pool) found bytes) :
    Yields (member.write owner) fun pool bytes =>
      Reads (do
        let access ← Reader.u2
        let name ← Reader.pooled pool.text
        let descriptor ← Reader.pooled pool.text
        let attributes ← attributes pool
        return next access name descriptor attributes)
        (next member.access member.name member.descriptor found) bytes := by
  refine (Yields.utf8 member.name).bind fun name => ?_
  refine (Yields.utf8 member.descriptor).bind fun descriptor => ?_
  refine h.bind fun attributes => ?_
  refine Yields.pure _ fun pool hattributes hdescriptor hname => ?_
  rw [List.append_assoc, List.append_assoc]
  refine (Reads.u2 member.access).bind ?_
  refine (Reads.pooled hname.1).bind ?_
  refine (Reads.pooled hdescriptor.1).bind ?_
  exact hattributes.bind_pure _

theorem yields_write (member : Member) (owner : AttributeOwner) :
    Yields (member.write owner) fun pool bytes =>
      Reads (read pool owner)
        (member.rebuilt ((member.attributes owner).map (Attribute.asRead owner))) bytes :=
  member.yields_writeWith owner
    (fun access name descriptor attributes => rebuilt { access, name, descriptor } attributes)
    (Attribute.yields_writeAll _ fun attr => attr.yields_write owner)

theorem yields_writeField (field : Member) :
    Yields (field.write .field) fun pool bytes =>
      Reads (read pool .field) field.asReadField bytes := by
  rw [← rebuilt_field]
  exact field.yields_write .field

theorem yields_writeMethod (method : Member) :
    Yields (method.write .method) fun pool bytes =>
      Reads (read pool .method) method.asReadMethod bytes := by
  rw [← rebuilt_method]
  exact method.yields_write .method

end Member

end ApiUnion
