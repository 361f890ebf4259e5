import ApiUnion.ClassFile.ElementBytes

-- Attributes: the named pieces in which a class file keeps whatever is optional about a class or a
-- member. Each is read and written alone; a reader skips those that it does not know or that do not
-- belong where they stand.

namespace ApiUnion

-- Which annotations a running program can see.
inductive Retention
  | visible | invisible
deriving DecidableEq, Repr

def Retention.name : Retention → String
  | visible => "Visible"
  | invisible => "Invisible"

inductive AttributeOwner
  | «class» | field | method
deriving DecidableEq, Repr

inductive Attribute
  | signature (text : String)
  | annotations (retention : Retention) (list : List AnnotationValue)
  | parameterAnnotations (retention : Retention) (lists : List (List AnnotationValue))
  | innerClasses (list : List InnerClass)
  | enclosingMethod (value : EnclosingMethod)
  | exceptions (names : List String)
  | parameters (list : List MethodParameter)
  | annotationDefault (value : ElementValue)
  | constant (value : Constant)
  | code (body : StubBody) (isStatic : Bool) (descriptor : String)
  | skipped
deriving DecidableEq

namespace Attribute

def name : Attribute → String
  | signature _ => "Signature"
  | annotations retention _ => s!"Runtime{retention.name}Annotations"
  | parameterAnnotations retention _ => s!"Runtime{retention.name}ParameterAnnotations"
  | innerClasses _ => "InnerClasses"
  | enclosingMethod _ => "EnclosingMethod"
  | exceptions _ => "Exceptions"
  | parameters _ => "MethodParameters"
  | annotationDefault _ => "AnnotationDefault"
  | constant _ => "ConstantValue"
  | code .. => "Code"
  | skipped => ""

-- A length that has to fit in one byte.
def shortLength (count : Nat) (what : String) : Interning (List UInt8) :=
  if count ≤ 0xFF then pure (Bytes.u1 (UInt8.ofNat count)) else throw (.tooLarge what)

-- The local variables of a stub: its parameters and, unless it is static, its receiver. The
-- receiver is added with care, the parameters are not.
def stubLocals (isStatic : Bool) (descriptor : String) : Except ClassFileError UInt16 :=
  match MethodType.ofText? descriptor with
  | none => .error (.invalidDescriptor descriptor)
  | some type =>
    match type.slots? with
    | none => .error .additionOverflow
    | some slots =>
      match checkedAdd? slots (if isStatic then 0 else 1) with
      | some locals => .ok locals
      | none => .error (.tooLarge "max_locals")

-- new, dup, ldc_w, invokespecial, athrow, on a stack of three.
def writeStub (body : StubBody) (isStatic : Bool) (descriptor : String) :
    Interning (List UInt8) := do
  let locals ← liftExcept (stubLocals isStatic descriptor)
  let exception ← PoolBuilder.class body.exception
  let message ← PoolBuilder.string body.message
  let constructor ← PoolBuilder.methodref body.exception "<init>" "(Ljava/lang/String;)V"
  let code := [0xBB] ++ Bytes.u2 exception ++ [0x59, 0x13] ++ Bytes.u2 message ++ [0xB7] ++
    Bytes.u2 constructor ++ [0xBF]
  pure (Bytes.u2 3 ++ Bytes.u2 locals ++ Bytes.u4 (UInt32.ofNat code.length) ++ code ++
    Bytes.u2 0 ++ Bytes.u2 0)
where
  liftExcept (value : Except ClassFileError UInt16) : Interning UInt16 :=
    match value with
    | .ok value => pure value
    | .error error => throw error

def writeInnerClass (inner : InnerClass) : Interning (List UInt8) := do
  let name ← PoolBuilder.class inner.name
  let outer ← PoolBuilder.class? inner.outer
  let innerName ← PoolBuilder.utf8? inner.innerName
  pure (Bytes.u2 name ++ Bytes.u2 outer ++ Bytes.u2 innerName ++ Bytes.u2 inner.access)

def writeParameter (parameter : MethodParameter) : Interning (List UInt8) := do
  let name ← PoolBuilder.utf8? parameter.name
  pure (Bytes.u2 name ++ Bytes.u2 parameter.access)

-- A method is named only when both its name and its descriptor are known.
def writeEnclosing (enclosing : EnclosingMethod) : Interning (List UInt8) := do
  let owner ← PoolBuilder.class enclosing.owner
  let method ← match enclosing.name, enclosing.descriptor with
    | some name, some descriptor => PoolBuilder.nameAndType name descriptor
    | _, _ => pure 0
  pure (Bytes.u2 owner ++ Bytes.u2 method)

-- What stands in the attribute after its name and length.
def writeInfo (attr : Attribute) : Interning (List UInt8) :=
  match attr with
  | signature text => Interning.u2 (PoolBuilder.utf8 text)
  | annotations _ list => writeAnnotations list attr.name
  | parameterAnnotations _ lists => do
    let length ← shortLength lists.length attr.name
    pure (length ++ (← Interning.each lists fun list => writeAnnotations list attr.name))
  | innerClasses list => do
    let length ← Interning.length list.length attr.name
    pure (length ++ (← Interning.each list writeInnerClass))
  | enclosingMethod value => writeEnclosing value
  | exceptions names => do
    let length ← Interning.length names.length attr.name
    pure (length ++ (← Interning.each names fun name => Interning.u2 (PoolBuilder.class name)))
  | parameters list => do
    let length ← shortLength list.length attr.name
    pure (length ++ (← Interning.each list writeParameter))
  | annotationDefault value => value.write
  | constant value => Interning.u2 value.internField
  | code body isStatic descriptor => writeStub body isStatic descriptor
  | skipped => pure []

-- The name is interned after what stands in the attribute.
def write (attr : Attribute) : Interning (List UInt8) := do
  let info ← attr.writeInfo
  if 0xFFFFFFFF < info.length then throw (.tooLarge "attribute")
  let name ← PoolBuilder.utf8 attr.name
  pure (Bytes.u2 name ++ Bytes.u4 (UInt32.ofNat info.length) ++ info)

def writeAll (attributes : List Attribute) : Interning (List UInt8) := do
  let bytes ← Interning.each attributes write
  pure ((← Interning.length attributes.length "attributes") ++ bytes)

def readInnerClass (pool : Pool) : Reader InnerClass := do
  let name ← Reader.pooled pool.className
  let outer ← Reader.pooled pool.className?
  let innerName ← Reader.pooled pool.text?
  return ⟨name, outer, innerName, ← Reader.u2⟩

def readParameter (pool : Pool) : Reader MethodParameter := do
  let name ← Reader.pooled pool.text?
  return ⟨name, ← Reader.u2⟩

-- The index zero stands for no method.
def readOwnerMethod (pool : Pool) (owner : String) (method : UInt16) : Reader EnclosingMethod := do
  if method = 0 then
    return ⟨owner, none, none⟩
  else
    let (name, descriptor) ← Reader.lift (pool.nameAndType method)
    return ⟨owner, some name, some descriptor⟩

def readEnclosing (pool : Pool) : Reader EnclosingMethod := do
  let owner ← Reader.pooled pool.className
  let method ← Reader.u2
  readOwnerMethod pool owner method

-- How the attribute of that name is read from `length` bytes, if it is known and belongs to such an
-- owner.
def reader? (pool : Pool) (owner : AttributeOwner) (length : Nat) (name : String) :
    Option (Reader Attribute) :=
  match name, owner with
  | "Signature", _ => some (signature <$> Reader.pooled pool.text)
  | "RuntimeVisibleAnnotations", _ =>
    some (annotations .visible <$> Reader.annotations pool length)
  | "RuntimeInvisibleAnnotations", _ =>
    some (annotations .invisible <$> Reader.annotations pool length)
  | "InnerClasses", .class => some do
    let count ← Reader.u2
    return innerClasses (← Reader.times count.toNat (readInnerClass pool))
  | "EnclosingMethod", .class => some (enclosingMethod <$> readEnclosing pool)
  | "Exceptions", .method => some do
    let count ← Reader.u2
    return exceptions (← Reader.times count.toNat (Reader.pooled pool.className))
  | "MethodParameters", .method => some do
    let count ← Reader.u1
    return parameters (← Reader.times count.toNat (readParameter pool))
  | "RuntimeVisibleParameterAnnotations", .method =>
    some (parameterAnnotations .visible <$> Reader.parameterAnnotations pool length)
  | "RuntimeInvisibleParameterAnnotations", .method =>
    some (parameterAnnotations .invisible <$> Reader.parameterAnnotations pool length)
  | "AnnotationDefault", .method =>
    some (annotationDefault <$> Reader.elementValue pool length)
  | "ConstantValue", .field => some (constant <$> Reader.pooled (Constant.ofField pool))
  | _, _ => none

def read (pool : Pool) (owner : AttributeOwner) : Reader Attribute := do
  let name ← Reader.pooled pool.text
  let length := (← Reader.u4).toNat
  let info ← Reader.take length
  match reader? pool owner length name with
  | some reader => Reader.lift (Reader.within info name reader)
  | none => return skipped

def readAll (pool : Pool) (owner : AttributeOwner) : Reader (List Attribute) := do
  let count ← Reader.u2
  Reader.times count.toNat (read pool owner)

end Attribute

end ApiUnion
