import ApiUnion.ClassFile.Basic

-- What reading finds of a class that was written. Nothing else is lost or changed.

namespace ApiUnion

mutual

def ElementValue.asRead : ElementValue → ElementValue
  | .constant value => .constant value
  | .enumConstant type name => .enumConstant type name
  | .classLiteral descriptor => .classLiteral descriptor
  | .nested value => .nested value.asRead
  | .array values => .array (valuesAsRead values)

-- The name of the class is taken from the descriptor again.
def AnnotationValue.asRead : AnnotationValue → AnnotationValue
  | ⟨type, elements, _⟩ => { type, elements := elementsAsRead elements }

def valuesAsRead : List ElementValue → List ElementValue
  | [] => []
  | value :: rest => value.asRead :: valuesAsRead rest

def elementsAsRead : List (String × ElementValue) → List (String × ElementValue)
  | [] => []
  | (name, value) :: rest => (name, value.asRead) :: elementsAsRead rest

end

@[simp] theorem length_valuesAsRead (values : List ElementValue) :
    (valuesAsRead values).length = values.length := by
  induction values with
  | nil => rfl
  | cons value rest ih => simp [valuesAsRead, ih]

@[simp] theorem length_elementsAsRead (elements : List (String × ElementValue)) :
    (elementsAsRead elements).length = elements.length := by
  induction elements with
  | nil => rfl
  | cons element rest ih => simp [elementsAsRead, ih]

-- The constant of a field is an integer of the same value if it is of a narrower type.
def Constant.asRead : Constant → Constant
  | .byte value => .int value.toInt32
  | .char value => .int (Int32.ofNat value.toNat)
  | .short value => .int value.toInt32
  | .boolean value => .int (if value then 1 else 0)
  | .int value => .int value
  | .long value => .long value
  | .float bits => .float bits
  | .double bits => .double bits
  | .string text => .string text

-- A method is kept only with both its name and its descriptor.
def EnclosingMethod.asRead (enclosing : EnclosingMethod) : EnclosingMethod :=
  match enclosing.name, enclosing.descriptor with
  | some _, some _ => enclosing
  | _, _ => { enclosing with name := none, descriptor := none }

namespace Member

-- Lists of annotations by parameter are lost when all of them are empty.
def listsAsRead (lists : List (List AnnotationValue)) : List (List AnnotationValue) :=
  if lists.all List.isEmpty then [] else lists.map fun list => list.map AnnotationValue.asRead

-- A field has nothing that belongs to methods.
def asReadField (field : Member) : Member where
  access := field.access
  name := field.name
  descriptor := field.descriptor
  signature := field.signature
  visible := field.visible.map AnnotationValue.asRead
  invisible := field.invisible.map AnnotationValue.asRead
  constant := field.constant.map Constant.asRead

-- A method has no constant and no body.
def asReadMethod (method : Member) : Member where
  access := method.access
  name := method.name
  descriptor := method.descriptor
  signature := method.signature
  visible := method.visible.map AnnotationValue.asRead
  invisible := method.invisible.map AnnotationValue.asRead
  exceptions := method.exceptions
  parameters := method.parameters
  visibleParameters := listsAsRead method.visibleParameters
  invisibleParameters := listsAsRead method.invisibleParameters
  annotationDefault := method.annotationDefault.map ElementValue.asRead

end Member

def ClassFile.asRead (file : ClassFile) : ClassFile where
  minor := file.minor
  major := file.major
  access := file.access
  name := file.name
  superclass := file.superclass
  interfaces := file.interfaces
  fields := file.fields.map Member.asReadField
  methods := file.methods.map Member.asReadMethod
  signature := file.signature
  visible := file.visible.map AnnotationValue.asRead
  invisible := file.invisible.map AnnotationValue.asRead
  innerClasses := file.innerClasses
  enclosing := file.enclosing.map EnclosingMethod.asRead

end ApiUnion
