import ApiUnion.ClassFile.Binary
import ApiUnion.Proofs.ClassFile.Interning

-- A class file is written whenever its texts are short enough and few enough. The numbers of the
-- pool and the bytes of an attribute are both counted by texts, so that one bound does for the two.

namespace ApiUnion

open Interning

-- What is written, as a list of the texts that go into the pool for it. Where something else takes
-- up room, an empty text stands for it.
def Constant.text : Constant → String
  | .string text => text
  | _ => ""

mutual

def ElementValue.texts : ElementValue → List String
  | .constant value => [value.text]
  | .enumConstant type name => [type, name]
  | .classLiteral descriptor => [descriptor]
  | .nested value => "" :: value.texts
  | .array values => "" :: textsOfValues values

def AnnotationValue.texts : AnnotationValue → List String
  | ⟨type, elements, _⟩ => type :: textsOfElements elements

def textsOfValues : List ElementValue → List String
  | [] => []
  | value :: rest => value.texts ++ textsOfValues rest

def textsOfElements : List (String × ElementValue) → List String
  | [] => []
  | (name, value) :: rest => name :: (value.texts ++ textsOfElements rest)

end

namespace Attribute

def textsOfAnnotations (list : List AnnotationValue) : List String :=
  "" :: list.flatMap AnnotationValue.texts

def texts : Attribute → List String
  | signature text => [text]
  | annotations _ list => textsOfAnnotations list
  | parameterAnnotations _ lists => "" :: lists.flatMap textsOfAnnotations
  | innerClasses list =>
    "" :: list.flatMap fun inner => [inner.name, inner.outer.getD "", inner.innerName.getD ""]
  | enclosingMethod value => [value.owner, value.name.getD "", value.descriptor.getD ""]
  | exceptions names => "" :: names
  | parameters list => "" :: list.map fun parameter => parameter.name.getD ""
  | annotationDefault value => value.texts
  | constant value => [value.text]
  | code body _ _ =>
    [body.exception, body.message, body.exception, "<init>", "(Ljava/lang/String;)V"]
  | skipped => []

-- Lists that are counted in one byte fit there, and so do the local variables of a stub in two.
def isShort : Attribute → Bool
  | parameterAnnotations _ lists => lists.length ≤ 0xFF
  | parameters list => list.length ≤ 0xFF
  | code _ isStatic descriptor => (stubLocals isStatic descriptor).isOk
  | _ => true

def textsOfAll (attributes : List Attribute) : List String :=
  "" :: attributes.flatMap fun attr => attr.name :: attr.texts

end Attribute

def Member.texts (owner : AttributeOwner) (member : Member) : List String :=
  member.name :: member.descriptor :: Attribute.textsOfAll (member.attributes owner)

namespace ClassFile

def texts (file : ClassFile) : List String :=
  file.name :: file.superclass.getD "" :: (file.interfaces ++
    (file.fields.flatMap (Member.texts .field) ++
      (file.methods.flatMap (Member.texts .method) ++ Attribute.textsOfAll file.attributes)))

def allAttributes (file : ClassFile) : List Attribute :=
  file.fields.flatMap (fun member => member.attributes .field) ++
    file.methods.flatMap (fun member => member.attributes .method) ++ file.attributes

end ClassFile

theorem length_le_flatMap {α β : Type} {items : List α} {f : α → List β}
    (h : ∀ item ∈ items, 1 ≤ (f item).length) : items.length ≤ (items.flatMap f).length := by
  induction items with
  | nil => exact Nat.zero_le _
  | cons item items ih =>
      obtain ⟨hitem, hitems⟩ := List.forall_mem_cons.mp h
      have hle := ih hitems
      rw [List.flatMap_cons, List.length_append, List.length_cons]
      omega

def Fits (text : String) : Prop :=
  (ModifiedUtf8.encode text).length ≤ 0xFFFF

instance (text : String) : Decidable (Fits text) :=
  inferInstanceAs (Decidable (_ ≤ _))

namespace PoolBuilder

theorem checkLengths_empty : empty.checkLengths = .ok () := by
  simp [checkLengths, empty]

theorem checkLengths_push {builder : PoolBuilder} {entry : PoolEntry}
    (h : builder.checkLengths = .ok ()) (hentry : entry.Writable) :
    (builder.push entry).checkLengths = .ok () := by
  simp only [checkLengths] at h ⊢
  split at h
  · rename_i hall
    refine if_pos ?_
    rw [push, Array.all_push, hall, Bool.true_and]
    cases entry with
    | utf8 text => exact decide_eq_true hentry
    | _ => rfl
  · cases h

end PoolBuilder

namespace Interning

variable {α β : Type}

-- With room for `count` more numbers in the pool the request succeeds, takes no more than those,
-- and has a good answer.
def Affords (request : Interning α) (count : Nat) (good : α → Prop) : Prop :=
  ∀ before : PoolBuilder, before.checkLengths = .ok () → before.next + count ≤ 0xFFFF →
    ∃ a after, request before = (.ok a, after) ∧ after.checkLengths = .ok () ∧
      after.next ≤ before.next + count ∧ good a

namespace Affords

variable {request : Interning α} {m n : Nat} {good : α → Prop}

theorem pure (a : α) (h : good a) : Affords (Pure.pure a) 0 good :=
  fun before hfits _ => ⟨a, before, rfl, hfits, Nat.le_refl _, h⟩

theorem le (h : Affords request m good) (hle : m ≤ n) : Affords request n good := by
  intro before hfits hroom
  obtain ⟨a, after, hrun, hafter, hnext, ha⟩ := h before hfits (by omega)
  exact ⟨a, after, hrun, hafter, by omega, ha⟩

theorem imp {better : α → Prop} (h : Affords request m good) (hgood : ∀ a, good a → better a) :
    Affords request m better := by
  intro before hfits hroom
  obtain ⟨a, after, hrun, hafter, hnext, ha⟩ := h before hfits hroom
  exact ⟨a, after, hrun, hafter, hnext, hgood a ha⟩

-- There is never room for more numbers than two bytes have.
theorem of_room (h : m ≤ 0xFFFF → Affords request m good) : Affords request m good :=
  fun before hfits hroom => h (by omega) before hfits hroom

theorem bind {next : α → Interning β} {right : β → Prop} (h : Affords request m good)
    (hnext : ∀ a, good a → Affords (next a) n right) : Affords (request >>= next) (m + n) right := by
  intro before hfits hroom
  obtain ⟨a, between, hrun, hbetween, hle, ha⟩ := h before hfits (by omega)
  obtain ⟨b, after, hrun', hafter, hle', hb⟩ := hnext a ha between hbetween (by omega)
  refine ⟨b, after, ?_, hafter, by omega, hb⟩
  rw [bind_apply, hrun]
  exact hrun'

theorem bind_pure {f : α → β} {right : β → Prop} (h : Affords request m good)
    (hright : ∀ a, good a → right (f a)) : Affords (request >>= fun a => Pure.pure (f a)) m right :=
  h.bind fun a ha => pure (f a) (hright a ha)

theorem intern (entry : PoolEntry) (h : entry.Writable) :
    Affords (PoolBuilder.intern entry) 2 fun _ => True := by
  intro before hfits hroom
  have hslots : entry.slots ≤ 2 := by
    unfold PoolEntry.slots
    split <;> omega
  unfold PoolBuilder.intern
  split
  · rename_i number _
    exact ⟨number, before, rfl, hfits, by omega, trivial⟩
  · refine ⟨UInt16.ofNat before.next, before.push entry, if_pos (by omega),
      PoolBuilder.checkLengths_push hfits h, ?_, trivial⟩
    show before.next + entry.slots ≤ _
    omega

theorem utf8 {text : String} (h : Fits text) : Affords (PoolBuilder.utf8 text) 2 fun _ => True :=
  intern (.utf8 text) h

theorem «class» {name : String} (h : Fits name) :
    Affords (PoolBuilder.class name) 4 fun _ => True :=
  (utf8 h).bind fun index _ => intern (.class index) trivial

theorem string {text : String} (h : Fits text) :
    Affords (PoolBuilder.string text) 4 fun _ => True :=
  (utf8 h).bind fun index _ => intern (.string index) trivial

theorem nameAndType {name descriptor : String} (hname : Fits name) (hdescriptor : Fits descriptor) :
    Affords (PoolBuilder.nameAndType name descriptor) 6 fun _ => True :=
  (utf8 hname).bind fun first _ => (utf8 hdescriptor).bind fun second _ =>
    intern (.nameAndType first second) trivial

theorem methodref {owner name descriptor : String} (howner : Fits owner) (hname : Fits name)
    (hdescriptor : Fits descriptor) :
    Affords (PoolBuilder.methodref owner name descriptor) 12 fun _ => True :=
  («class» howner).bind fun first _ => (nameAndType hname hdescriptor).bind fun second _ =>
    intern (.methodref first second) trivial

theorem class? {name : Option String} (h : Fits (name.getD "")) :
    Affords (PoolBuilder.class? name) 4 fun _ => True := by
  cases name with
  | none => exact (pure 0 trivial).le (by omega)
  | some name => exact «class» h

theorem utf8? {text : Option String} (h : Fits (text.getD "")) :
    Affords (PoolBuilder.utf8? text) 2 fun _ => True := by
  cases text with
  | none => exact (pure 0 trivial).le (by omega)
  | some text => exact utf8 h

theorem length {count : Nat} (h : count ≤ 0xFFFF) (what : String) :
    Affords (Interning.length count what) 0 fun bytes => bytes.length = 2 := by
  unfold Interning.length
  rw [if_pos h]
  exact pure _ rfl

theorem u2 {request : Interning UInt16} (h : Affords request m fun _ => True) :
    Affords (Interning.u2 request) m fun bytes => bytes.length = 2 :=
  h.bind_pure fun _ _ => rfl

end Affords

-- Every text that fits pays for four numbers and sixteen bytes.
def Writes (request : Interning (List UInt8)) (texts : List String) : Prop :=
  (∀ text ∈ texts, Fits text) →
    Affords request (4 * texts.length) fun bytes => bytes.length ≤ 16 * texts.length

namespace Writes

theorem each {items : List α} {write : α → Interning (List UInt8)} {texts : α → List String}
    (h : ∀ item ∈ items, Writes (write item) (texts item)) :
    Writes (Interning.each items write) (items.flatMap texts) := by
  intro hfits
  suffices hmap : Affords (items.mapM write) (4 * (items.flatMap texts).length) fun pieces =>
      pieces.flatten.length ≤ 16 * (items.flatMap texts).length from
    hmap.bind_pure fun _ hpieces => hpieces
  induction items with
  | nil =>
      rw [List.mapM_nil]
      exact .pure [] (Nat.le_refl 0)
  | cons item items ih =>
      obtain ⟨hitem, hitems⟩ := List.forall_mem_cons.mp h
      rw [List.flatMap_cons] at hfits
      obtain ⟨hfits, hrest⟩ := List.forall_mem_append.mp hfits
      rw [List.mapM_cons, List.flatMap_cons, List.length_append, Nat.mul_add, Nat.mul_add]
      refine (hitem hfits).bind fun piece hpiece =>
        (ih hitems hrest).bind_pure fun pieces hpieces => ?_
      rw [List.flatten_cons, List.length_append]
      omega

theorem name (name : String) : Writes (Interning.u2 (PoolBuilder.class name)) [name] :=
  fun hfits => (Affords.u2 (.class (hfits name List.mem_cons_self))).imp
    fun bytes hbytes => by simp [hbytes]

theorem names (names : List String) :
    Writes (Interning.each names fun name => Interning.u2 (PoolBuilder.class name)) names := by
  have hnames := each fun item (_ : item ∈ names) => name item
  rwa [List.flatMap_singleton'] at hnames

-- A list with its length in front of it.
theorem counted {items : List α} {write : α → Interning (List UInt8)} {texts : α → List String}
    (what : String) (hpos : ∀ item ∈ items, 1 ≤ (texts item).length)
    (h : ∀ item ∈ items, Writes (write item) (texts item)) :
    Writes (do
      let length ← Interning.length items.length what
      Pure.pure (length ++ (← Interning.each items write))) ("" :: items.flatMap texts) := by
  intro hfits
  have hitems := each h (List.forall_mem_cons.mp hfits).2
  have hcount := length_le_flatMap hpos
  rw [List.length_cons]
  refine .of_room fun hroom => .le ((Affords.length (by omega) what).bind fun length hlength =>
    hitems.bind_pure fun bytes hbytes => ?_) (by omega)
  rw [List.length_append]
  omega

end Writes

end Interning

open Interning

theorem Constant.affords_internElement (value : Constant) (h : Fits value.text) :
    Affords value.internElement 2 fun _ => True := by
  cases value with
  | string text => exact Affords.utf8 h
  | _ => exact Affords.intern _ trivial

theorem Constant.affords_internField (value : Constant) (h : Fits value.text) :
    Affords value.internField 4 fun _ => True := by
  cases value with
  | string text => exact Affords.string h
  | _ => exact (affords_internElement _ h).le (by omega)

theorem ElementValue.one_le_texts (value : ElementValue) : 1 ≤ value.texts.length := by
  cases value <;> simp [texts]

theorem AnnotationValue.one_le_texts (value : AnnotationValue) : 1 ≤ value.texts.length := by
  cases value
  simp [texts]

theorem length_le_textsOfValues (values : List ElementValue) :
    values.length ≤ (textsOfValues values).length := by
  induction values with
  | nil => exact Nat.le_refl 0
  | cons value rest ih =>
      have hvalue := value.one_le_texts
      rw [textsOfValues, List.length_append, List.length_cons]
      omega

theorem length_le_textsOfElements (elements : List (String × ElementValue)) :
    elements.length ≤ (textsOfElements elements).length := by
  induction elements with
  | nil => exact Nat.le_refl 0
  | cons element rest ih =>
      rw [textsOfElements, List.length_cons, List.length_cons, List.length_append]
      omega

mutual

theorem ElementValue.writes : ∀ value : ElementValue, Writes value.write value.texts
  | .constant value => fun hfits => by
    have hvalue := Affords.u2 (value.affords_internElement (hfits _ List.mem_cons_self))
    refine (hvalue.bind_pure fun bytes hbytes => ?_).le ?_
    · simp [tagByte, ElementValue.texts, hbytes]
    · simp [ElementValue.texts]
  | .enumConstant type name => fun hfits => by
    obtain ⟨htype, hname⟩ := List.forall_mem_cons.mp hfits
    have hname := hname name List.mem_cons_self
    refine ((Affords.u2 (.utf8 htype)).bind fun first hfirst =>
      (Affords.u2 (.utf8 hname)).bind_pure fun second hsecond => ?_).le ?_
    · simp [tagByte, ElementValue.texts, hfirst, hsecond]
    · simp [ElementValue.texts]
  | .classLiteral descriptor => fun hfits => by
    refine ((Affords.u2 (.utf8 (hfits _ List.mem_cons_self))).bind_pure fun bytes hbytes => ?_).le ?_
    · simp [tagByte, ElementValue.texts, hbytes]
    · simp [ElementValue.texts]
  | .nested value => fun hfits => by
    have hvalue := value.writes (List.forall_mem_cons.mp hfits).2
    rw [ElementValue.texts, List.length_cons]
    refine (hvalue.bind_pure fun bytes hbytes => ?_).le (by omega)
    rw [tagByte, List.length_append, List.length_singleton]
    omega
  | .array values => fun hfits => by
    have hvalues := affords_writeValues [] values (List.forall_mem_cons.mp hfits).2
    have hcount := length_le_textsOfValues values
    rw [ElementValue.texts, List.length_cons]
    refine .of_room fun hroom => ((Affords.length (by omega) _).bind fun length hlength =>
      hvalues.bind_pure fun bytes hbytes => ?_).le (by omega)
    rw [List.flatten_nil, List.length_nil] at hbytes
    rw [tagByte, List.length_append, List.length_append, List.length_singleton]
    omega

theorem AnnotationValue.writes : ∀ value : AnnotationValue, Writes value.write value.texts
  | ⟨type, elements, _⟩ => fun hfits => by
    obtain ⟨htype, hfits⟩ := List.forall_mem_cons.mp hfits
    have helements := affords_writeElements [] elements hfits
    have hcount := length_le_textsOfElements elements
    rw [AnnotationValue.texts, List.length_cons]
    refine .of_room fun hroom => ((Affords.u2 (.utf8 htype)).bind fun first hfirst =>
      (Affords.length (by omega) _).bind fun length hlength =>
        helements.bind_pure fun bytes hbytes => ?_).le (by omega)
    rw [List.flatten_nil, List.length_nil] at hbytes
    rw [List.length_append, List.length_append]
    omega

-- The pieces that are done are bytes already, and need nothing more.
theorem affords_writeValues : ∀ (done : List (List UInt8)) (values : List ElementValue),
    (∀ text ∈ textsOfValues values, Fits text) →
      Affords (writeValues done values) (4 * (textsOfValues values).length) fun bytes =>
        bytes.length ≤ done.flatten.length + 16 * (textsOfValues values).length
  | done, [], _ => .pure _ (by simp [List.length_flatten])
  | done, value :: rest, hfits => by
    obtain ⟨hvalue, hrest⟩ := List.forall_mem_append.mp hfits
    rw [textsOfValues, List.length_append, Nat.mul_add]
    refine (value.writes hvalue).bind fun bytes hbytes => ?_
    refine (affords_writeValues (bytes :: done) rest hrest).imp fun all hall => ?_
    rw [List.flatten_cons, List.length_append] at hall
    omega

theorem affords_writeElements :
    ∀ (done : List (List UInt8)) (elements : List (String × ElementValue)),
      (∀ text ∈ textsOfElements elements, Fits text) →
        Affords (writeElements done elements) (4 * (textsOfElements elements).length) fun bytes =>
          bytes.length ≤ done.flatten.length + 16 * (textsOfElements elements).length
  | done, [], _ => .pure _ (by simp [List.length_flatten])
  | done, (name, value) :: rest, hfits => by
    obtain ⟨hname, hfits⟩ := List.forall_mem_cons.mp hfits
    obtain ⟨hvalue, hrest⟩ := List.forall_mem_append.mp hfits
    rw [textsOfElements, List.length_cons, List.length_append]
    refine ((Affords.u2 (.utf8 hname)).bind fun first hfirst =>
      (value.writes hvalue).bind fun bytes hbytes =>
        (affords_writeElements ((first ++ bytes) :: done) rest hrest).imp fun all hall => ?_).le
      (by omega)
    rw [List.flatten_cons, List.length_append, List.length_append] at hall
    omega

end

theorem writes_writeAnnotations (list : List AnnotationValue) (what : String) :
    Writes (writeAnnotations list what) (Attribute.textsOfAnnotations list) :=
  .counted what (fun value _ => value.one_le_texts) fun value _ => value.writes

namespace Attribute

theorem affords_shortLength {count : Nat} (h : count ≤ 0xFF) (what : String) :
    Affords (shortLength count what) 0 fun bytes => bytes.length = 1 := by
  unfold shortLength
  rw [if_pos h]
  exact .pure _ rfl

theorem writes_shortly {α : Type} {items : List α} {write : α → Interning (List UInt8)}
    {texts : α → List String} (what : String) (hshort : items.length ≤ 0xFF)
    (h : ∀ item ∈ items, Writes (write item) (texts item)) :
    Writes (do
      let length ← shortLength items.length what
      pure (length ++ (← each items write))) ("" :: items.flatMap texts) := by
  intro hfits
  have hitems := Writes.each h (List.forall_mem_cons.mp hfits).2
  rw [List.length_cons]
  refine ((affords_shortLength hshort what).bind fun length hlength =>
    hitems.bind_pure fun bytes hbytes => ?_).le (by omega)
  rw [List.length_append]
  omega

theorem writes_writeInnerClass (inner : InnerClass) :
    Writes (writeInnerClass inner) [inner.name, inner.outer.getD "", inner.innerName.getD ""] := by
  intro hfits
  simp only [List.forall_mem_cons] at hfits
  exact ((Affords.class hfits.1).bind fun name _ => (Affords.class? hfits.2.1).bind fun outer _ =>
    (Affords.utf8? hfits.2.2.1).bind_pure fun innerName _ => by simp).le (by simp)

theorem writes_writeParameter (parameter : MethodParameter) :
    Writes (writeParameter parameter) [parameter.name.getD ""] := by
  intro hfits
  exact ((Affords.utf8? (hfits _ List.mem_cons_self)).bind_pure fun name _ => by simp).le (by simp)

theorem writes_writeEnclosing (enclosing : EnclosingMethod) :
    Writes (writeEnclosing enclosing)
      [enclosing.owner, enclosing.name.getD "", enclosing.descriptor.getD ""] := by
  obtain ⟨owner, name, descriptor⟩ := enclosing
  intro hfits
  simp only [List.forall_mem_cons] at hfits
  show Affords _ (4 + 8) _
  refine (Affords.class hfits.1).bind fun first _ => ?_
  dsimp only
  split
  · exact ((Affords.nameAndType hfits.2.1 hfits.2.2.1).bind_pure fun _ _ => by simp).le (by omega)
  · rw [pure_bind]
    exact (Affords.pure _ (by simp)).le (by omega)

theorem writes_writeStub (body : StubBody) (isStatic : Bool) (descriptor : String)
    (h : (stubLocals isStatic descriptor).isOk = true) :
    Writes (writeStub body isStatic descriptor)
      [body.exception, body.message, body.exception, "<init>", "(Ljava/lang/String;)V"] := by
  intro hfits
  simp only [List.forall_mem_cons] at hfits
  have hlocals : Affords (writeStub.liftExcept (stubLocals isStatic descriptor)) 0 fun _ => True := by
    cases hfound : stubLocals isStatic descriptor with
    | ok locals => exact .pure locals trivial
    | error error =>
        rw [hfound] at h
        cases h
  exact (hlocals.bind fun locals _ => (Affords.class hfits.1).bind fun exception _ =>
    (Affords.string hfits.2.1).bind fun message _ =>
      (Affords.methodref hfits.1 hfits.2.2.2.1 hfits.2.2.2.2.1).bind_pure fun constructor _ => by
        simp).le (by simp)

theorem writes_writeInfo (attr : Attribute) (h : attr.isShort = true) :
    Writes attr.writeInfo attr.texts := by
  cases attr with
  | signature text =>
      exact fun hfits => ((Affords.u2 (.utf8 (hfits _ List.mem_cons_self))).imp
        fun bytes hbytes => by simp [texts, hbytes]).le (by simp [texts])
  | annotations retention list => exact writes_writeAnnotations list _
  | parameterAnnotations retention lists =>
      exact writes_shortly _ (of_decide_eq_true h) fun list _ => writes_writeAnnotations list _
  | innerClasses list =>
      exact .counted _ (fun _ _ => by simp) fun inner _ => writes_writeInnerClass inner
  | enclosingMethod value => exact writes_writeEnclosing value
  | exceptions names =>
      have hnames := Writes.counted (Attribute.exceptions names).name
        (fun _ _ => by simp) fun name (_ : name ∈ names) => Writes.name name
      rwa [List.flatMap_singleton'] at hnames
  | parameters list =>
      have hparameters := writes_shortly (Attribute.parameters list).name (of_decide_eq_true h)
        fun parameter (_ : parameter ∈ list) => writes_writeParameter parameter
      rwa [← List.map_eq_flatMap] at hparameters
  | annotationDefault value => exact value.writes
  | constant value =>
      exact fun hfits => (Affords.u2 (value.affords_internField (hfits _ List.mem_cons_self))).imp
        fun bytes hbytes => by simp [texts, hbytes]
  | code body isStatic descriptor => exact writes_writeStub body isStatic descriptor h
  | skipped => exact fun _ => .pure [] (Nat.le_refl 0)

-- The bytes of an attribute are far fewer than four bytes can count, as the pool has no room for
-- so many texts.
theorem writes_write (attr : Attribute) (h : attr.isShort = true) :
    Writes attr.write (attr.name :: attr.texts) := by
  intro hfits
  obtain ⟨hname, hfits⟩ := List.forall_mem_cons.mp hfits
  rw [List.length_cons]
  refine .of_room fun hroom => ?_
  rw [Nat.mul_add] at hroom ⊢
  refine (writes_writeInfo attr h hfits).bind fun info hinfo => ?_
  split
  · omega
  · refine ((Affords.utf8 hname).bind_pure fun index _ => ?_).le (by omega)
    rw [List.length_append, List.length_append, Bytes.length_u2, Bytes.length_u4]
    omega

theorem writes_writeAll (attributes : List Attribute)
    (h : ∀ attr ∈ attributes, attr.isShort = true) :
    Writes (writeAll attributes) (textsOfAll attributes) := by
  intro hfits
  have hall := Writes.each (fun attr hattr => writes_write attr (h attr hattr))
    (List.forall_mem_cons.mp hfits).2
  have hcount : attributes.length ≤ (attributes.flatMap fun attr => attr.name :: attr.texts).length :=
    length_le_flatMap fun attr _ => by simp
  rw [textsOfAll, List.length_cons]
  refine .of_room fun hroom => .le (hall.bind fun bytes hbytes =>
    (Affords.length (by omega) _).bind_pure fun length hlength => ?_) (by omega)
  rw [List.length_append]
  omega

end Attribute

theorem Member.writes_write (owner : AttributeOwner) (member : Member)
    (h : ∀ attr ∈ member.attributes owner, attr.isShort = true) :
    Writes (member.write owner) (member.texts owner) := by
  intro hfits
  obtain ⟨hname, hfits⟩ := List.forall_mem_cons.mp hfits
  obtain ⟨hdescriptor, hfits⟩ := List.forall_mem_cons.mp hfits
  rw [texts, List.length_cons, List.length_cons]
  refine .le ((Affords.utf8 hname).bind fun name _ => (Affords.utf8 hdescriptor).bind
    fun descriptor _ => (Attribute.writes_writeAll _ h hfits).bind_pure fun bytes hbytes => ?_)
    (by omega)
  simp only [List.length_append, Bytes.length_u2]
  omega

namespace ClassFile

-- Texts that are few and fit, and nothing else that is counted in too few bytes.
structure Small (file : ClassFile) : Prop where
  room : 4 * file.texts.length < 0xFFFF
  fits : ∀ text ∈ file.texts, Fits text
  short : ∀ attr ∈ file.allAttributes, attr.isShort = true

instance (file : ClassFile) : Decidable file.Small :=
  decidable_of_iff (4 * file.texts.length < 0xFFFF ∧ (∀ text ∈ file.texts, Fits text) ∧
      ∀ attr ∈ file.allAttributes, attr.isShort = true)
    ⟨fun ⟨room, fits, short⟩ => ⟨room, fits, short⟩, fun h => ⟨h.room, h.fits, h.short⟩⟩

theorem affords_writeBody (file : ClassFile) (h : file.Small) :
    Affords file.writeBody (4 * file.texts.length) fun _ => True := by
  have hroom := h.room
  have hfits := h.fits
  simp only [texts, List.forall_mem_cons, List.forall_mem_append] at hfits
  obtain ⟨hname, hsuperclass, hinterfaces, hfields, hmethods, hattributes⟩ := hfits
  have hshort := h.short
  simp only [allAttributes, List.forall_mem_append, List.forall_mem_flatMap] at hshort
  obtain ⟨⟨hshortFields, hshortMethods⟩, hshort⟩ := hshort
  have hinterfaces := Writes.names _ hinterfaces
  have hfields := Writes.each (fun member hmember =>
    member.writes_write .field (hshortFields member hmember)) hfields
  have hmethods := Writes.each (fun member hmember =>
    member.writes_write .method (hshortMethods member hmember)) hmethods
  have hattributes := Attribute.writes_writeAll file.attributes hshort hattributes
  have hfieldCount : file.fields.length ≤ (file.fields.flatMap (Member.texts .field)).length :=
    length_le_flatMap fun member _ => by simp [Member.texts]
  have hmethodCount : file.methods.length ≤ (file.methods.flatMap (Member.texts .method)).length :=
    length_le_flatMap fun member _ => by simp [Member.texts]
  simp only [texts, List.length_cons, List.length_append] at hroom ⊢
  refine .le ((Affords.class hname).bind fun _ _ => (Affords.class? hsuperclass).bind fun _ _ =>
    (Affords.length (by omega) _).bind fun _ _ => hinterfaces.bind fun _ _ =>
    (Affords.length (by omega) _).bind fun _ _ => hfields.bind fun _ _ =>
    (Affords.length (by omega) _).bind fun _ _ => hmethods.bind fun _ _ =>
    hattributes.bind_pure fun _ _ => trivial) (by omega)

-- Nothing else keeps a class file from being written.
theorem exists_toBytes {file : ClassFile} (h : file.Small) : ∃ bytes, file.toBytes = .ok bytes := by
  have hroom := h.room
  obtain ⟨body, builder, hrun, hlengths, -, -⟩ := affords_writeBody file h PoolBuilder.empty
    PoolBuilder.checkLengths_empty (by simp only [PoolBuilder.empty]; omega)
  unfold toBytes
  rw [ExceptT.run, hrun]
  simp only [hlengths]
  exact ⟨_, rfl⟩

end ClassFile

end ApiUnion
