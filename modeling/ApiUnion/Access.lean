-- Access words. A word mixes several independent facts about a class or member; visibility,
-- modality and kind are read out of it and written back without a change to the other bits.

namespace ApiUnion

-- From narrow to wide.
inductive Visibility
  | «private» | packagePrivate | «protected» | «public»
deriving DecidableEq, Repr

inductive Modality
  | final | «open» | «abstract»
deriving DecidableEq, Repr

inductive ClassKind
  | «class» | interface | annotationType | enum
deriving DecidableEq, Repr

namespace Visibility

def all : List Visibility :=
  [.private, packagePrivate, .protected, .public]

def rank : Visibility → Nat
  | .private => 0
  | packagePrivate => 1
  | .protected => 2
  | .public => 3

def bits : Visibility → UInt16
  | .private => 0x0002
  | packagePrivate => 0
  | .protected => 0x0004
  | .public => 0x0001

-- The name of the enumeration constant that stands for it in emitted metadata.
def constantName : Visibility → String
  | .private => "PRIVATE"
  | packagePrivate => "PACKAGE_PRIVATE"
  | .protected => "PROTECTED"
  | .public => "PUBLIC"

def ofConstantName? (name : String) : Option Visibility :=
  all.find? fun visibility => visibility.constantName = name

-- How listings call it.
def label : Visibility → String
  | .private => "Private"
  | packagePrivate => "PackagePrivate"
  | .protected => "Protected"
  | .public => "Public"

-- The wider of two.
def widen (a b : Visibility) : Visibility :=
  if a.rank ≤ b.rank then b else a

end Visibility

namespace Modality

def all : List Modality :=
  [final, .open, .abstract]

def rank : Modality → Nat
  | final => 0
  | .open => 1
  | .abstract => 2

def bits : Modality → UInt16
  | final => 0x0010
  | .open => 0
  | .abstract => 0x0400

def constantName : Modality → String
  | final => "FINAL"
  | .open => "OPEN"
  | .abstract => "ABSTRACT"

def ofConstantName? (name : String) : Option Modality :=
  all.find? fun modality => modality.constantName = name

def label : Modality → String
  | final => "Final"
  | .open => "Open"
  | .abstract => "Abstract"

-- Two different modalities are only ever reconciled as open.
def widen (a b : Modality) : Modality :=
  if a = b then a else .open

-- Whether all that the other permits is permitted.
def isAtLeast (a b : Modality) : Bool :=
  a = b || a = .open

end Modality

def ClassKind.text : ClassKind → String
  | .class => "class"
  | interface => "interface"
  | annotationType => "@interface"
  | enum => "enum"

structure Access where
  bits : UInt16
deriving DecidableEq, Repr

namespace Access

def staticBit : UInt16 := 0x0008
def finalBit : UInt16 := 0x0010
def synchronizedBit : UInt16 := 0x0020
def nativeBit : UInt16 := 0x0100
def interfaceBit : UInt16 := 0x0200
def abstractBit : UInt16 := 0x0400
def annotationTypeBit : UInt16 := 0x2000
def enumBit : UInt16 := 0x4000

def visibilityMask : UInt16 := 0x0007
def modalityMask : UInt16 := 0x0410

-- Bridge, synthetic, static, native, synchronized, strict and varargs: what has to agree between
-- two versions of a method.
def methodKindMask : UInt16 := 0x19E8

def has (access : Access) (bit : UInt16) : Bool :=
  access.bits &&& bit != 0

def isStatic (access : Access) : Bool :=
  access.has staticBit

def isInterface (access : Access) : Bool :=
  access.has interfaceBit

-- Such a method has no body.
def isBodiless (access : Access) : Bool :=
  access.has abstractBit || access.has nativeBit

def visibility (access : Access) : Visibility :=
  if access.has 0x0001 then .public
  else if access.has 0x0004 then .protected
  else if access.has 0x0002 then .private
  else .packagePrivate

def withVisibility (access : Access) (visibility : Visibility) : Access :=
  ⟨access.bits &&& ~~~visibilityMask ||| visibility.bits⟩

def modality (access : Access) : Modality :=
  if access.has abstractBit then .abstract
  else if access.has finalBit then .final
  else .open

def withModality (access : Access) (modality : Modality) : Access :=
  ⟨access.bits &&& ~~~modalityMask ||| modality.bits⟩

def classKind (access : Access) : ClassKind :=
  if access.has annotationTypeBit then .annotationType
  else if access.has interfaceBit then .interface
  else if access.has enumBit then .enum
  else .class

def methodKind (access : Access) : UInt16 :=
  access.bits &&& methodKindMask

def visibilityWords : Visibility → List String
  | .public => ["public"]
  | .protected => ["protected"]
  | .private => ["private"]
  | .packagePrivate => []

-- Interfaces are abstract without saying so.
def words (access : Access) : List String :=
  visibilityWords access.visibility ++
  (if access.isStatic then ["static"] else []) ++
  (if access.has abstractBit && !access.isInterface then ["abstract"] else []) ++
  (if access.has finalBit then ["final"] else []) ++
  (if access.has nativeBit then ["native"] else []) ++
  (if access.has synchronizedBit then ["synchronized"] else [])

def text (access : Access) : String :=
  " ".intercalate access.words

end Access

end ApiUnion
