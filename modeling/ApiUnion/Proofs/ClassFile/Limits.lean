import ApiUnion.Proofs.ClassFile.Capacity
import ApiUnion.Proofs.ClassFile.RoundTrip
import ApiUnion.Proofs.Descriptor

-- The local variables that a stub asks for, as they stand in the class file. They are the width of
-- its parameters and its receiver. Where that does not fit in two bytes nothing is written, but
-- only the receiver is added with care: parameters that are too wide by themselves stop the
-- program.

namespace ApiUnion

open Reader Interning

-- What a body asks for: the depth of its stack and its local variables.
structure CodeLimits where
  stack : UInt16
  locals : UInt16
deriving DecidableEq, Repr

namespace CodeLimits

-- A body begins with them.
def read : Reader CodeLimits := do
  let stack ← Reader.u2
  return ⟨stack, ← Reader.u2⟩

theorem reads_read (limits : CodeLimits) :
    Reads read limits (Bytes.u2 limits.stack ++ Bytes.u2 limits.locals) :=
  (Reads.u2 limits.stack).bind ((Reads.u2 limits.locals).bind_pure _)

end CodeLimits

namespace Attribute

-- The limits of a body. Other attributes have none.
def readLimits? (pool : Pool) : Reader (Option CodeLimits) := do
  let name ← Reader.pooled pool.text
  let info ← Reader.take (← Reader.u4).toNat
  if name = "Code" then
    let (limits, _) ← Reader.lift (CodeLimits.read info)
    return some limits
  else
    return none

def limits? : Attribute → Option CodeLimits
  | code _ isStatic descriptor =>
    (stubLocals isStatic descriptor).toOption.map fun locals => ⟨3, locals⟩
  | _ => none

theorem limits?_of_name_ne {attr : Attribute} (h : attr.name ≠ "Code") : attr.limits? = none := by
  cases attr with
  | code => exact absurd rfl h
  | _ => rfl

theorem name_eq_code_iff (attr : Attribute) :
    attr.name = "Code" ↔ ∃ body isStatic descriptor, attr = code body isStatic descriptor := by
  cases attr with
  | annotations retention | parameterAnnotations retention =>
      cases retention <;> simp +decide [name]
  | _ => simp [name]

theorem yields_readLimits? (attr : Attribute) :
    Yields attr.write fun pool bytes => Reads (readLimits? pool) attr.limits? bytes := by
  by_cases hcode : attr.name = "Code"
  · obtain ⟨body, isStatic, descriptor, rfl⟩ := attr.name_eq_code_iff.mp hcode
    refine (yields_framed (code body isStatic descriptor)
      (yields_writeStub body isStatic descriptor)).mono fun pool bytes hframed => ?_
    refine hframed.reads fun _ info _ hinfo => ?_
    obtain ⟨locals, rest, hlocals, rfl⟩ := hinfo
    have hread := CodeLimits.reads_read ⟨3, locals⟩ rest
    rw [List.append_assoc] at hread
    rw [if_pos hcode, limits?, hlocals]
    exact (Reads.lift hread).bind_nil (Reads.pure _)
  · refine (yields_framed attr attr.yields_writeInfo).mono fun pool bytes hframed => ?_
    refine hframed.reads fun _ info _ _ => ?_
    rw [if_neg hcode, limits?_of_name_ne hcode]
    exact Reads.pure none

def readAllLimits (pool : Pool) : Reader (List (Option CodeLimits)) := do
  let count ← Reader.u2
  Reader.times count.toNat (readLimits? pool)

end Attribute

namespace Member

def isStatic (method : Member) : Bool :=
  method.access &&& staticBit != 0

-- The limits of the bodies of a method, of which there is one at most.
def readLimits (pool : Pool) : Reader (List CodeLimits) := do
  let _ ← Reader.u2
  let _ ← Reader.pooled pool.text
  let _ ← Reader.pooled pool.text
  let limits ← Attribute.readAllLimits pool
  return limits.filterMap id

def limits (method : Member) : List CodeLimits :=
  ((method.attributes .method).map Attribute.limits?).filterMap id

theorem yields_readLimits (method : Member) :
    Yields (method.write .method) fun pool bytes =>
      Reads (readLimits pool) method.limits bytes :=
  method.yields_writeWith .method (fun _ _ _ limits => List.filterMap id limits)
    (Attribute.yields_writeAll _ Attribute.yields_readLimits?)

-- Only the body has limits among the parts of a method.
theorem limits_eq (method : Member) :
    method.limits = (method.body.bind fun _ =>
      (Attribute.stubLocals method.isStatic method.descriptor).toOption.map
        fun locals => ⟨3, locals⟩).toList := by
  have hlist {α : Type} (attr : List α → Attribute) (items : List α)
      (h : ∀ items, (attr items).limits? = none) :
      (Attribute.ofList attr items).filterMap Attribute.limits? = [] := by
    unfold Attribute.ofList
    split <;> simp [h]
  have hlists (retention : Retention) (lists : List (List AnnotationValue)) :
      (ofLists retention lists).filterMap Attribute.limits? = [] := by
    unfold ofLists
    split <;> simp [Attribute.limits?]
  have hoption {α : Type} (attr : α → Attribute) (item : Option α)
      (h : ∀ item, (attr item).limits? = none) :
      (item.map attr).toList.filterMap Attribute.limits? = [] := by
    cases item <;> simp [h]
  simp only [limits, List.filterMap_map, attributes, methodAttributes, Function.id_comp,
    List.filterMap_append, if_true, hlists, hlist .exceptions _ fun _ => rfl,
    hlist .parameters _ fun _ => rfl, hlist (.annotations .visible) _ fun _ => rfl,
    hlist (.annotations .invisible) _ fun _ => rfl, hoption .annotationDefault _ fun _ => rfl,
    hoption .constant _ fun _ => rfl, hoption .signature _ fun _ => rfl, List.append_nil]
  cases method.body with
  | none => rfl
  | some body =>
      let code := Attribute.code body method.isStatic method.descriptor
      show [code].filterMap Attribute.limits? = code.limits?.toList
      cases hlimits : code.limits? <;> simp [hlimits]

end Member

namespace ClassFile

-- The limits of all methods of a class file.
def methodLimits (bytes : List UInt8) : Except ClassFileError (List (List CodeLimits)) :=
  within bytes "class" (readAround fun _ _ pool =>
    Parts.methods <$> readParts pool (Member.readLimits pool))

theorem methodLimits_toBytes {file : ClassFile} {bytes : List UInt8}
    (h : file.toBytes = .ok bytes) :
    methodLimits bytes = .ok (file.methods.map Member.limits) := by
  have hparts := file.yields_writeParts Member.yields_readLimits
  exact within_of_reads "class" (reads_readAround h
    (hparts.mono fun _ _ hparts => hparts.map Parts.methods))

end ClassFile

theorem Interning.throw_bind {α β : Type} (error : ClassFileError) (next : α → Interning β) :
    (throw error >>= next : Interning β) = throw error := rfl

theorem Interning.each_append {α : Type} (front back : List α)
    (write : α → Interning (List UInt8)) :
    each (front ++ back) write = do
      let front ← each front write
      return front ++ (← each back write) := by
  simp [each, List.mapM_append]

theorem Attribute.writeAll_of_refused {body : StubBody} {isStatic : Bool} {descriptor : String}
    {error : ClassFileError} (h : stubLocals isStatic descriptor = .error error)
    (rest : List Attribute) :
    writeAll (code body isStatic descriptor :: rest) = throw error := by
  have hwrite : (code body isStatic descriptor).write = throw error := by
    simp only [write, writeInfo, writeStub, h]
    rfl
  rw [writeAll, each, List.mapM_cons, hwrite]
  rfl

theorem Member.write_of_refused {method : Member} {body : StubBody} {error : ClassFileError}
    (hbody : method.body = some body)
    (hlocals : Attribute.stubLocals method.isStatic method.descriptor = .error error) :
    method.write .method = (do
      let _ ← PoolBuilder.utf8 method.name
      let _ ← PoolBuilder.utf8 method.descriptor
      throw error) := by
  have hattributes : ∃ rest, method.attributes .method =
      .code body method.isStatic method.descriptor :: rest := by
    simp [attributes, methodAttributes, hbody, isStatic]
  obtain ⟨rest, hattributes⟩ := hattributes
  rw [write, hattributes, Attribute.writeAll_of_refused hlocals]
  rfl

namespace ClassFile

-- Everything before the attributes of a method.
def writeBefore (file : ClassFile) (before : List Member) (method : Member) : Interning Unit := do
  let _ ← PoolBuilder.class file.name
  let _ ← PoolBuilder.class? file.superclass
  let _ ← Interning.length file.interfaces.length "interfaces"
  let _ ← Interning.each file.interfaces fun name => Interning.u2 (PoolBuilder.class name)
  let _ ← Interning.length file.fields.length "fields"
  let _ ← Interning.each file.fields (Member.write .field)
  let _ ← Interning.length file.methods.length "methods"
  let _ ← Interning.each before (Member.write .method)
  let _ ← PoolBuilder.utf8 method.name
  let _ ← PoolBuilder.utf8 method.descriptor
  pure ()

theorem writeBody_of_refused {file : ClassFile} {before after : List Member} {method : Member}
    {body : StubBody} {error : ClassFileError} (hmethods : file.methods = before ++ method :: after)
    (hbody : method.body = some body)
    (hlocals : Attribute.stubLocals method.isStatic method.descriptor = .error error) :
    file.writeBody = (do file.writeBefore before method; throw error) := by
  have heach : Interning.each file.methods (Member.write .method) = (do
      let _ ← Interning.each before (Member.write .method)
      let _ ← PoolBuilder.utf8 method.name
      let _ ← PoolBuilder.utf8 method.descriptor
      throw error) := by
    have hfirst : Interning.each (method :: after) (Member.write .method) = (do
        let _ ← PoolBuilder.utf8 method.name
        let _ ← PoolBuilder.utf8 method.descriptor
        throw error) := by
      simp only [Interning.each, List.mapM_cons, Member.write_of_refused hbody hlocals, bind_assoc,
        Interning.throw_bind]
    rw [hmethods, Interning.each_append, hfirst]
    simp only [bind_assoc, Interning.throw_bind]
  simp only [writeBody, writeBefore, heach, bind_assoc, pure_bind, Interning.throw_bind]

-- A stub that is refused ends the writing of its class where its attributes begin.
theorem toBytes_of_refused {file : ClassFile} {before after : List Member} {method : Member}
    {body : StubBody} {error : ClassFileError} (hmethods : file.methods = before ++ method :: after)
    (hbody : method.body = some body)
    (hlocals : Attribute.stubLocals method.isStatic method.descriptor = .error error) :
    file.toBytes = (do
      (file.writeBefore before method PoolBuilder.empty).1
      throw error) := by
  unfold toBytes
  rw [ExceptT.run, writeBody_of_refused hmethods hbody hlocals, bind_apply]
  cases file.writeBefore before method PoolBuilder.empty with
  | mk result builder => cases result <;> rfl

-- Nothing is written of a class with a stub that is refused.
theorem exists_stubLocals {file : ClassFile} {bytes : List UInt8} (h : file.toBytes = .ok bytes)
    {method : Member} (hmethod : method ∈ file.methods) {body : StubBody}
    (hbody : method.body = some body) :
    ∃ locals, Attribute.stubLocals method.isStatic method.descriptor = .ok locals := by
  cases hlocals : Attribute.stubLocals method.isStatic method.descriptor with
  | ok locals => exact ⟨locals, rfl⟩
  | error error =>
      obtain ⟨before, after, hmethods⟩ := List.append_of_mem hmethod
      rw [toBytes_of_refused hmethods hbody hlocals] at h
      cases hearly : (file.writeBefore before method PoolBuilder.empty).1 <;>
        rw [hearly] at h <;> cases h

end ClassFile

-- The local variable of the receiver.
def receiverWidth (isStatic : Bool) : Nat :=
  if isStatic then 0 else 1

-- Why there are not as many local variables.
def MethodType.widthError (type : MethodType) : ClassFileError :=
  if type.width ≤ 0xFFFF then .tooLarge "max_locals" else .additionOverflow

theorem Attribute.stubLocals_eq (isStatic : Bool) {descriptor : String} {type : MethodType}
    (h : MethodType.ofText? descriptor = some type) :
    stubLocals isStatic descriptor =
      if receiverWidth isStatic + type.width ≤ 0xFFFF then
        .ok (UInt16.ofNat (receiverWidth isStatic + type.width))
      else .error type.widthError := by
  have hreceiver : (if isStatic then 0 else 1 : UInt16).toNat = receiverWidth isStatic := by
    cases isStatic <;> rfl
  simp only [stubLocals, h, MethodType.slots?_eq, MethodType.widthError]
  by_cases hwidth : type.width ≤ 0xFFFF
  · have hslots : (UInt16.ofNat type.width).toNat = type.width :=
      UInt16.toNat_ofNat_of_lt' (Nat.lt_succ_of_le hwidth)
    simp only [if_pos hwidth, checkedAdd?_eq, hslots, hreceiver,
      Nat.add_comm type.width (receiverWidth isStatic)]
    by_cases hroom : receiverWidth isStatic + type.width ≤ 0xFFFF
    · simp only [if_pos hroom]
    · simp only [if_neg hroom]
  · simp only [if_neg hwidth, if_neg fun hroom => hwidth (Nat.le_of_add_left_le hroom)]

-- A method without a body asks for nothing. A stub asks for the width of its receiver and its
-- parameters.
inductive Member.Asks (method : Member) : List CodeLimits → Prop
  | nothing (hbody : method.body = none) : Asks method []
  | width (body : StubBody) (type : MethodType) (limits : CodeLimits)
      (hbody : method.body = some body)
      (htype : MethodType.ofText? method.descriptor = some type)
      (hlocals : limits.locals.toNat = receiverWidth method.isStatic + type.width) :
      Asks method [limits]

theorem Member.Asks.of_body {method : Member} {found : List CodeLimits} {body : StubBody}
    {type : MethodType} (h : method.Asks found) (hbody : method.body = some body)
    (htype : MethodType.ofText? method.descriptor = some type) :
    ∃ limits, found = [limits] ∧
      limits.locals.toNat = receiverWidth method.isStatic + type.width := by
  cases h with
  | nothing hnone => cases hbody.symm.trans hnone
  | width _ other limits _ hother hlocals =>
      obtain rfl := Option.some.inj (htype.symm.trans hother)
      exact ⟨limits, rfl, hlocals⟩

theorem Member.asks_limits {method : Member} (h : ∀ body, method.body = some body →
    ∃ locals, Attribute.stubLocals method.isStatic method.descriptor = .ok locals) :
    method.Asks method.limits := by
  rw [limits_eq]
  cases hbody : method.body with
  | none => exact .nothing hbody
  | some body =>
      obtain ⟨locals, hlocals⟩ := h body hbody
      cases htype : MethodType.ofText? method.descriptor with
      | none => simp [Attribute.stubLocals, htype] at hlocals
      | some type =>
          have hwidth := Attribute.stubLocals_eq method.isStatic htype
          rw [hlocals] at hwidth
          split at hwidth
          · rename_i hroom
            obtain rfl := Except.ok.inj hwidth
            rw [hlocals]
            exact .width body type _ hbody htype
              (UInt16.toNat_ofNat_of_lt' (Nat.lt_succ_of_le hroom))
          · cases hwidth

namespace ClassFile

-- What stands in a class file as the local variables of its stubs is their width. A stub that is
-- too wide ends the writing of its class, unless something before it does. It is refused if that is
-- due to its receiver, and otherwise the program stops.
theorem locals_toBytes (file : ClassFile) :
    (∀ bytes, file.toBytes = .ok bytes →
      ∃ found, methodLimits bytes = .ok found ∧ List.Forall₂ Member.Asks file.methods found) ∧
    ∀ before method after body type, file.methods = before ++ method :: after →
      method.body = some body → MethodType.ofText? method.descriptor = some type →
      0xFFFF < receiverWidth method.isStatic + type.width →
        file.toBytes = (do
          (file.writeBefore before method PoolBuilder.empty).1
          throw (if type.width ≤ 0xFFFF then .tooLarge "max_locals" else .additionOverflow)) := by
  constructor
  · intro bytes h
    refine ⟨_, methodLimits_toBytes h, List.forall₂_map_right_iff.mpr ?_⟩
    refine List.forall₂_same.mpr fun method hmethod => ?_
    exact Member.asks_limits fun body hbody => exists_stubLocals h hmethod hbody
  · intro before method after body type hmethods hbody htype hlarge
    refine toBytes_of_refused hmethods hbody ?_
    rw [Attribute.stubLocals_eq _ htype, if_neg (by omega)]
    rfl

def longs (count : Nat) (rest : List FieldType) : MethodType :=
  ⟨List.replicate count (.base .long) ++ rest, none⟩

def stub (access : UInt16) (type : MethodType) : Member where
  access := access
  name := "m"
  descriptor := type.text
  body := some ⟨"e", ""⟩

-- A class with a stub of that type, and nothing else in it.
def stubbed (access : UInt16) (type : MethodType) : ClassFile where
  access := 0x0001
  name := "a"
  superclass := none
  methods := [stub access type]

theorem width_longs (count : Nat) (rest : List FieldType) :
    (longs count rest).width = 2 * count + (longs 0 rest).width := by
  induction count with
  | zero => exact (Nat.zero_add _).symm
  | succ count ih =>
      have hstep : (longs (count + 1) rest).width = 2 + (longs count rest).width := by
        simp [longs, MethodType.width, List.replicate_succ, FieldType.width]
      rw [hstep, ih]
      omega

theorem ofText?_longs (count : Nat) (rest : List FieldType) (h : ∀ type ∈ rest, type.Legible) :
    MethodType.ofText? (longs count rest).text = some (longs count rest) := by
  refine (MethodType.ofText?_eq_some_iff _ _).mpr ⟨⟨fun type htype => ?_, by simp [longs]⟩, rfl⟩
  rcases List.mem_append.mp htype with htype | htype
  · rw [List.eq_of_mem_replicate htype]
    trivial
  · exact h type htype

theorem fits_longs {count : Nat} {rest : List FieldType}
    (hascii : ∀ c ∈ rest.flatMap FieldType.chars, 0 < c.toNat ∧ c.toNat < 0x80)
    (hcount : count + (rest.flatMap FieldType.chars).length ≤ 0xFFFC) :
    Fits (longs count rest).text := by
  have hchars : (longs count rest).text.toList =
      '(' :: (List.replicate count 'J' ++ rest.flatMap FieldType.chars ++ [')', 'V']) := by
    simp [MethodType.text, MethodType.chars, longs, FieldType.chars, MethodType.resultChars,
      BaseType.letter, List.flatMap_append, List.flatMap_replicate]
  unfold Fits
  rw [ModifiedUtf8.length_encode_of_ascii, hchars]
  · simp only [List.length_cons, List.length_append, List.length_replicate, List.length_nil]
    omega
  · rw [hchars]
    simp only [List.forall_mem_cons, List.forall_mem_append]
    refine ⟨by decide, ⟨fun c hc => ?_, hascii⟩, by simp⟩
    rw [List.eq_of_mem_replicate hc]
    decide

theorem small_stubbed {access : UInt16} {type : MethodType} (hfits : Fits type.text)
    (hlocals : (Attribute.stubLocals (stub access type).isStatic type.text).isOk = true) :
    (stubbed access type).Small where
  room := by
    simp [stubbed, stub, texts, Member.texts, Attribute.textsOfAll, Member.attributes,
      Member.methodAttributes, Member.ofLists, Attribute.ofList, Attribute.texts, attributes]
  fits := by
    have hothers : ∀ text ∈ ["a", "", "m", "Code", "e", "<init>", "(Ljava/lang/String;)V"],
        Fits text := by decide
    simp only [List.forall_mem_cons] at hothers
    simp [stubbed, stub, texts, Member.texts, Attribute.textsOfAll, Member.attributes,
      Member.methodAttributes, Member.ofLists, Attribute.ofList, Attribute.texts, Attribute.name,
      attributes, hfits, hothers]
  short := by
    simp only [Member.isStatic, stub] at hlocals
    simp [stubbed, stub, allAttributes, Member.attributes, Member.methodAttributes,
      Member.ofLists, Attribute.ofList, Attribute.isShort, attributes, hlocals]

theorem exists_toBytes_stubbed (access : UInt16) {type : MethodType} (hfits : Fits type.text)
    (htype : MethodType.ofText? type.text = some type)
    (hroom : receiverWidth (stub access type).isStatic + type.width ≤ 0xFFFF) :
    ∃ bytes, (stubbed access type).toBytes = .ok bytes := by
  refine exists_toBytes (small_stubbed hfits ?_)
  rw [Attribute.stubLocals_eq _ htype, if_pos hroom]
  rfl

-- Nothing is refused before the stub.
theorem writeBefore_stubbed {access : UInt16} {type : MethodType} (hfits : Fits type.text) :
    ((stubbed access type).writeBefore [] (stub access type) PoolBuilder.empty).1 = .ok () := by
  have hnames : Fits "a" ∧ Fits "" ∧ Fits "m" := by decide
  have hsuperclass : Fits ((stubbed access type).superclass.getD "") := hnames.2.1
  have hempty {α : Type} (write : α → Interning (List UInt8)) :
      Affords (Interning.each [] write) 0 fun _ => True := by
    rw [Interning.each, List.mapM_nil, pure_bind]
    exact .pure _ trivial
  have hbefore : Affords ((stubbed access type).writeBefore [] (stub access type)) 12
      fun _ => True :=
    .le ((Affords.class hnames.1).bind fun _ _ => (Affords.class? hsuperclass).bind fun _ _ =>
      (Affords.length (Nat.zero_le _) _).bind fun _ _ => (hempty _).bind fun _ _ =>
      (Affords.length (Nat.zero_le _) _).bind fun _ _ => (hempty _).bind fun _ _ =>
      (Affords.length (by simp [stubbed]) _).bind fun _ _ => (hempty _).bind fun _ _ =>
      (Affords.utf8 hnames.2.2).bind fun _ _ => (Affords.utf8 hfits).bind fun _ _ =>
      .pure () trivial) (by omega)
  obtain ⟨_, builder, hrun, -⟩ :=
    hbefore PoolBuilder.empty PoolBuilder.checkLengths_empty (by decide)
  rw [hrun]

theorem isStatic_stub (access : UInt16) (type : MethodType) :
    (stub access type).isStatic = (access &&& Member.staticBit != 0) := rfl

-- A method of an object that takes a long and an integer has four local variables, and a method
-- that has no room left for its receiver is refused.
theorem locals_toBytes_longs :
    (∃ bytes limits, (stubbed 0x0001 (longs 1 [.base .int])).toBytes = .ok bytes ∧
      methodLimits bytes = .ok [[limits]] ∧ limits.locals.toNat = 4) ∧
    (stubbed 0x0001 (longs 0x7FFF [.base .int])).toBytes = .error (.tooLarge "max_locals") := by
  have htype (count : Nat) := ofText?_longs count [.base .int] (by simp [FieldType.Legible])
  have hwidth (count : Nat) : (longs count [.base .int]).width = 2 * count + 1 :=
    width_longs count [.base .int]
  have hfits (count : Nat) (h : count + 1 ≤ 0xFFFC) : Fits (longs count [.base .int]).text :=
    fits_longs (by simp [FieldType.chars, BaseType.letter]) h
  have hreceiver (type : MethodType) : receiverWidth (stub 0x0001 type).isStatic = 1 := by
    rw [isStatic_stub]
    decide
  constructor
  · obtain ⟨bytes, hbytes⟩ := exists_toBytes_stubbed 0x0001 (hfits 1 (by omega)) (htype 1)
      (by rw [hwidth, hreceiver]; decide)
    obtain ⟨found, hfound, hasks⟩ :=
      (locals_toBytes (stubbed 0x0001 (longs 1 [.base .int]))).1 bytes hbytes
    cases hasks with
    | cons hasks hrest =>
        cases hrest
        obtain ⟨limits, rfl, hlocals⟩ := hasks.of_body rfl (htype 1)
        rw [hwidth, hreceiver] at hlocals
        exact ⟨bytes, limits, hbytes, hfound, hlocals⟩
  · have hlarge : 0xFFFF < receiverWidth (stub 0x0001 (longs 0x7FFF [.base .int])).isStatic +
        (longs 0x7FFF [.base .int]).width := by
      rw [hwidth, hreceiver]
      decide
    rw [(locals_toBytes (stubbed 0x0001 (longs 0x7FFF [.base .int]))).2 [] _ [] _ _ rfl rfl
      (htype _) hlarge, writeBefore_stubbed (hfits _ (by omega)), hwidth]
    rfl

-- A static method with 2^15 long parameters takes 2^16 variables, and is not refused for that.
theorem locals_toBytes_overflow :
    (longs 0x8000 []).width = 0x10000 ∧
      MethodType.ofText? (longs 0x8000 []).text = some (longs 0x8000 []) ∧
      ((stubbed 0x0009 (longs 0x8000 [])).writeBefore [] (stub 0x0009 (longs 0x8000 []))
        PoolBuilder.empty).1 = .ok () ∧
      (stubbed 0x0009 (longs 0x8000 [])).toBytes = .error .additionOverflow ∧
      (stubbed 0x0009 (longs 0x8000 [])).toBytes ≠ .error (.tooLarge "max_locals") := by
  have htype := ofText?_longs 0x8000 [] (by simp)
  have hwidth : (longs 0x8000 []).width = 0x10000 := width_longs 0x8000 []
  have hbefore : ((stubbed 0x0009 (longs 0x8000 [])).writeBefore []
      (stub 0x0009 (longs 0x8000 [])) PoolBuilder.empty).1 = .ok () :=
    writeBefore_stubbed (fits_longs (by simp) (by simp))
  have hlocals : Attribute.stubLocals (stub 0x0009 (longs 0x8000 [])).isStatic
      (stub 0x0009 (longs 0x8000 [])).descriptor = .error .additionOverflow := by
    show Attribute.stubLocals _ (longs 0x8000 []).text = _
    rw [Attribute.stubLocals_eq _ htype, MethodType.widthError, hwidth, if_neg (by omega),
      if_neg (by omega)]
  have hmethods : (stubbed 0x0009 (longs 0x8000 [])).methods =
      [] ++ stub 0x0009 (longs 0x8000 []) :: [] := rfl
  have hbytes : (stubbed 0x0009 (longs 0x8000 [])).toBytes = .error .additionOverflow := by
    rw [toBytes_of_refused hmethods rfl hlocals, hbefore]
    rfl
  refine ⟨hwidth, htype, hbefore, hbytes, fun h => ?_⟩
  rw [hbytes] at h
  cases h

end ClassFile

end ApiUnion
