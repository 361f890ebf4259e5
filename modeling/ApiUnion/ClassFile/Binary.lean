import ApiUnion.ClassFile.Attribute

-- Class files as bytes. Writing builds the constant pool as it goes, so that the pool holds just
-- what the class refers to, in order of first reference.

namespace ApiUnion

namespace Attribute

-- Present unless the list is empty.
def ofList {α : Type} (attr : List α → Attribute) (items : List α) : List Attribute :=
  if items.isEmpty then [] else [attr items]

-- The annotations of one retention, in order.
def annotationsOf (retention : Retention) (attributes : List Attribute) : List AnnotationValue :=
  attributes.flatMap fun
    | annotations r list => if r = retention then list else []
    | _ => []

-- Of attributes that are not lists, and of most that are, the last one counts.
def lastOf {α : Type} (value : Attribute → Option α) (attributes : List Attribute) : Option α :=
  attributes.reverse.findSome? value

def signatureOf : List Attribute → Option String :=
  lastOf fun | signature text => some text | _ => none

def parameterAnnotationsOf (retention : Retention) (attributes : List Attribute) :
    List (List AnnotationValue) :=
  (lastOf (fun
    | parameterAnnotations r lists => if r = retention then some lists else none
    | _ => none) attributes).getD []

def exceptionsOf (attributes : List Attribute) : List String :=
  (lastOf (fun | exceptions names => some names | _ => none) attributes).getD []

def parametersOf (attributes : List Attribute) : List MethodParameter :=
  (lastOf (fun | parameters list => some list | _ => none) attributes).getD []

def defaultOf : List Attribute → Option ElementValue :=
  lastOf fun | annotationDefault value => some value | _ => none

def constantOf : List Attribute → Option Constant :=
  lastOf fun | constant value => some value | _ => none

def enclosingOf : List Attribute → Option EnclosingMethod :=
  lastOf fun | enclosingMethod value => some value | _ => none

def innerClassesOf (attributes : List Attribute) : List InnerClass :=
  attributes.flatMap fun
    | innerClasses list => list
    | _ => []

end Attribute

namespace Member

def staticBit : UInt16 := 0x0008

def methodAttributes (member : Member) : List Attribute :=
  (member.body.map fun body =>
    .code body (member.access &&& staticBit != 0) member.descriptor).toList ++
  Attribute.ofList .exceptions member.exceptions ++
  Attribute.ofList .parameters member.parameters ++
  (member.annotationDefault.map .annotationDefault).toList

-- Lists of annotations by parameter are left out when all of them are empty.
def ofLists (retention : Retention) (lists : List (List AnnotationValue)) : List Attribute :=
  if lists.all List.isEmpty then [] else [.parameterAnnotations retention lists]

def attributes (member : Member) (owner : AttributeOwner) : List Attribute :=
  (if owner = .method then methodAttributes member else []) ++
  (member.constant.map .constant).toList ++
  (member.signature.map .signature).toList ++
  Attribute.ofList (.annotations .visible) member.visible ++
  Attribute.ofList (.annotations .invisible) member.invisible ++
  ofLists .visible member.visibleParameters ++
  ofLists .invisible member.invisibleParameters

def write (owner : AttributeOwner) (member : Member) : Interning (List UInt8) := do
  let name ← PoolBuilder.utf8 member.name
  let descriptor ← PoolBuilder.utf8 member.descriptor
  let attributes ← Attribute.writeAll (member.attributes owner)
  pure (Bytes.u2 member.access ++ Bytes.u2 name ++ Bytes.u2 descriptor ++ attributes)

def read (pool : Pool) (owner : AttributeOwner) : Reader Member := do
  let access ← Reader.u2
  let name ← Reader.pooled pool.text
  let descriptor ← Reader.pooled pool.text
  let attributes ← Attribute.readAll pool owner
  return {
    access, name, descriptor
    signature := Attribute.signatureOf attributes
    visible := Attribute.annotationsOf .visible attributes
    invisible := Attribute.annotationsOf .invisible attributes
    exceptions := Attribute.exceptionsOf attributes
    parameters := Attribute.parametersOf attributes
    visibleParameters := Attribute.parameterAnnotationsOf .visible attributes
    invisibleParameters := Attribute.parameterAnnotationsOf .invisible attributes
    annotationDefault := Attribute.defaultOf attributes
    constant := Attribute.constantOf attributes
  }

end Member

namespace ClassFile

def attributes (file : ClassFile) : List Attribute :=
  (file.signature.map .signature).toList ++
  Attribute.ofList (.annotations .visible) file.visible ++
  Attribute.ofList (.annotations .invisible) file.invisible ++
  (file.enclosing.map .enclosingMethod).toList ++
  Attribute.ofList .innerClasses file.innerClasses

-- Everything after the constant pool.
def writeBody (file : ClassFile) : Interning (List UInt8) := do
  let name ← PoolBuilder.class file.name
  let superclass ← PoolBuilder.class? file.superclass
  let interfaceCount ← Interning.length file.interfaces.length "interfaces"
  let interfaces ← Interning.each file.interfaces fun name => Interning.u2 (PoolBuilder.class name)
  let fieldCount ← Interning.length file.fields.length "fields"
  let fields ← Interning.each file.fields (Member.write .field)
  let methodCount ← Interning.length file.methods.length "methods"
  let methods ← Interning.each file.methods (Member.write .method)
  let attributes ← Attribute.writeAll file.attributes
  pure (Bytes.u2 file.access ++ Bytes.u2 name ++ Bytes.u2 superclass ++
    interfaceCount ++ interfaces ++ fieldCount ++ fields ++ methodCount ++ methods ++ attributes)

def toBytes (file : ClassFile) : Except ClassFileError (List UInt8) := do
  let (body, builder) := file.writeBody.run PoolBuilder.empty
  let body ← body
  builder.checkLengths
  pure (Bytes.u4 magic ++ Bytes.u2 file.minor ++ Bytes.u2 file.major ++ builder.bytes ++ body)

-- Everything after the constant pool.
def readBody (minor major : UInt16) (pool : Pool) : Reader ClassFile := do
  let access ← Reader.u2
  let name ← Reader.pooled pool.className
  let superclass ← Reader.pooled pool.className?
  let interfaces ← Reader.times (← Reader.u2).toNat (Reader.pooled pool.className)
  let fields ← Reader.times (← Reader.u2).toNat (Member.read pool .field)
  let methods ← Reader.times (← Reader.u2).toNat (Member.read pool .method)
  let attributes ← Attribute.readAll pool .class
  return {
    minor, major, access, name, superclass, interfaces, fields, methods
    signature := Attribute.signatureOf attributes
    visible := Attribute.annotationsOf .visible attributes
    invisible := Attribute.annotationsOf .invisible attributes
    innerClasses := Attribute.innerClassesOf attributes
    enclosing := Attribute.enclosingOf attributes
  }

def read : Reader ClassFile := do
  let found ← Reader.u4
  if found ≠ magic then Reader.fail (.invalidMagic found)
  let minor ← Reader.u2
  let major ← Reader.u2
  let pool ← Pool.read
  readBody minor major pool

def ofBytes (bytes : List UInt8) : Except ClassFileError ClassFile :=
  Reader.within bytes "class" read

end ClassFile

end ApiUnion
