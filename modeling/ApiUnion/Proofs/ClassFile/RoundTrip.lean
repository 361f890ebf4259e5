import ApiUnion.Proofs.ClassFile.Members

-- A class file that was written is read back, part by part.

namespace ApiUnion

open Reader Interning

-- The items that are written one after another are read again once their count is known.
theorem Reader.Reads.timesOf {α β : Type} {item : Reader β} {items : List α} {count : UInt16}
    {pieces : List (List UInt8)} (found : α → β) (hcount : count.toNat = items.length)
    (h : List.Forall₂ (fun a piece => Reads item (found a) piece) items pieces) :
    Reads (Reader.times count.toNat item) (items.map found) pieces.flatten := by
  have htimes := Reads.times (List.forall₂_map_left_iff.mpr h)
  rwa [List.length_map, ← hcount] at htimes

namespace ClassFile

-- What is read of a class after its constant pool, with `α` for what is read of a method.
structure Parts (α : Type) where
  access : UInt16
  name : String
  superclass : Option String
  interfaces : List String
  fields : List Member
  methods : List α
  attributes : List Attribute

def readParts {α : Type} (pool : Pool) (method : Reader α) : Reader (Parts α) := do
  let access ← Reader.u2
  let name ← Reader.pooled pool.className
  let superclass ← Reader.pooled pool.className?
  let interfaces ← Reader.times (← Reader.u2).toNat (Reader.pooled pool.className)
  let fields ← Reader.times (← Reader.u2).toNat (Member.read pool .field)
  let methods ← Reader.times (← Reader.u2).toNat method
  let attributes ← Attribute.readAll pool .class
  return { access, name, superclass, interfaces, fields, methods, attributes }

def Parts.toClassFile (minor major : UInt16) (parts : Parts Member) : ClassFile where
  minor := minor
  major := major
  access := parts.access
  name := parts.name
  superclass := parts.superclass
  interfaces := parts.interfaces
  fields := parts.fields
  methods := parts.methods
  signature := Attribute.signatureOf parts.attributes
  visible := Attribute.annotationsOf .visible parts.attributes
  invisible := Attribute.annotationsOf .invisible parts.attributes
  innerClasses := Attribute.innerClassesOf parts.attributes
  enclosing := Attribute.enclosingOf parts.attributes

theorem readBody_eq_map (minor major : UInt16) (pool : Pool) :
    readBody minor major pool =
      Parts.toClassFile minor major <$> readParts pool (Member.read pool .method) := by
  simp only [readBody, readParts, map_bind, map_pure, Parts.toClassFile]

-- The parts that are read of a class, if `found` is what is read of a method.
def parts {α : Type} (file : ClassFile) (found : Member → α) : Parts α where
  access := file.access
  name := file.name
  superclass := file.superclass
  interfaces := file.interfaces
  fields := file.fields.map Member.asReadField
  methods := file.methods.map found
  attributes := file.attributes.map (Attribute.asRead .class)

theorem toClassFile_parts (file : ClassFile) :
    (file.parts Member.asReadMethod).toClassFile file.minor file.major = file.asRead := by
  simp [Parts.toClassFile, parts, attributes, asRead, Attribute.asRead, Attribute.signatureOf,
    Attribute.annotationsOf, Attribute.innerClassesOf, Attribute.enclosingOf]

theorem yields_writeParts {α : Type} {method : Pool → Reader α} {found : Member → α}
    (file : ClassFile) (h : ∀ member : Member, Yields (member.write .method) fun pool bytes =>
      Reads (method pool) (found member) bytes) :
    Yields file.writeBody fun pool bytes =>
      Reads (readParts pool (method pool)) (file.parts found) bytes := by
  refine (Yields.class file.name).bind fun name => ?_
  refine (Yields.class? file.superclass).bind fun superclass => ?_
  refine (Yields.length file.interfaces.length _).bind fun interfaceCount => ?_
  refine (Yields.each file.interfaces _ fun name _ => (Yields.class name).u2).bind
    fun interfaces => ?_
  refine (Yields.length file.fields.length _).bind fun fieldCount => ?_
  refine (Yields.each file.fields _ fun field _ => field.yields_writeField).bind fun fields => ?_
  refine (Yields.length file.methods.length _).bind fun methodCount => ?_
  refine (Yields.each file.methods _ fun member _ => h member).bind
    fun methods => ?_
  refine (Attribute.yields_writeAll file.attributes fun attr => attr.yields_write .class).bind
    fun attributes => ?_
  refine Yields.pure _ fun pool hattributes hmethods hmethodCount hfields hfieldCount hinterfaces
    hinterfaceCount hsuperclass hname => ?_
  obtain ⟨interfaceCount, rfl, hinterfaceCount⟩ := hinterfaceCount
  obtain ⟨fieldCount, rfl, hfieldCount⟩ := hfieldCount
  obtain ⟨methodCount, rfl, hmethodCount⟩ := hmethodCount
  obtain ⟨interfaces, rfl, hinterfaces⟩ := hinterfaces
  obtain ⟨fields, rfl, hfields⟩ := hfields
  obtain ⟨methods, rfl, hmethods⟩ := hmethods
  have hnames : List.Forall₂ (fun name piece => Reads (Reader.pooled pool.className) name piece)
      file.interfaces interfaces := by
    refine hinterfaces.imp fun name piece h => ?_
    obtain ⟨index, rfl, hindex⟩ := h
    exact Reads.pooled hindex.1
  have hinterfaces := Reads.timesOf id hinterfaceCount hnames
  rw [List.map_id] at hinterfaces
  simp only [List.append_assoc]
  refine (Reads.u2 file.access).bind ?_
  refine (Reads.pooled hname.1).bind ?_
  refine (Reads.pooled hsuperclass).bind ?_
  refine (Reads.u2 interfaceCount).bind (hinterfaces.bind ?_)
  refine (Reads.u2 fieldCount).bind ((Reads.timesOf Member.asReadField hfieldCount hfields).bind ?_)
  refine (Reads.u2 methodCount).bind ((Reads.timesOf found hmethodCount hmethods).bind ?_)
  exact hattributes.bind_pure _

theorem yields_writeBody (file : ClassFile) :
    Yields file.writeBody fun pool bytes =>
      Reads (readBody file.minor file.major pool) file.asRead bytes := by
  refine (file.yields_writeParts Member.yields_writeMethod).mono fun pool bytes hparts => ?_
  rw [readBody_eq_map, ← toClassFile_parts]
  exact hparts.map _

theorem writeBody_of_toBytes (file : ClassFile) (bytes : List UInt8)
    (h : file.toBytes = .ok bytes) :
    ∃ body builder, file.writeBody PoolBuilder.empty = (.ok body, builder) ∧
      builder.checkLengths = .ok () ∧
      bytes = Bytes.u4 magic ++ Bytes.u2 file.minor ++ Bytes.u2 file.major ++ builder.bytes ++
        body := by
  have hrun : file.writeBody.run PoolBuilder.empty = file.writeBody PoolBuilder.empty := rfl
  unfold toBytes at h
  rw [hrun] at h
  generalize file.writeBody PoolBuilder.empty = written at h ⊢
  obtain ⟨result, builder⟩ := written
  cases result with
  | error error => cases h
  | ok body =>
      cases hlengths : builder.checkLengths with
      | error error =>
          simp only [hlengths] at h
          cases h
      | ok =>
          simp only [hlengths] at h
          exact ⟨body, builder, rfl, hlengths, (Except.ok.inj h).symm⟩

-- A class file of which the body is read by `body`.
def readAround {α : Type} (body : UInt16 → UInt16 → Pool → Reader α) : Reader α := do
  let found ← Reader.u4
  if found ≠ magic then Reader.fail (.invalidMagic found)
  let minor ← Reader.u2
  let major ← Reader.u2
  let pool ← Pool.read
  body minor major pool

-- Whatever is read of the body is read of the class file, from the front of any input.
theorem reads_readAround {α : Type} {body : UInt16 → UInt16 → Pool → Reader α} {value : α}
    {file : ClassFile} {bytes : List UInt8} (h : file.toBytes = .ok bytes)
    (hbody : Yields file.writeBody fun pool bytes =>
      Reads (body file.minor file.major pool) value bytes) :
    Reads (readAround body) value bytes := by
  obtain ⟨written, builder, hrun, hlengths, rfl⟩ := file.writeBody_of_toBytes bytes h
  obtain ⟨hsound, -, hright⟩ := hbody PoolBuilder.empty written builder PoolBuilder.sound_empty hrun
  obtain ⟨pool, hpool, hbacks⟩ := builder.reads_bytes hsound hlengths
  simp only [List.append_assoc]
  refine (Reads.u4 magic).bind ?_
  rw [if_neg (by simp)]
  exact (Reads.u2 file.minor).bind ((Reads.u2 file.major).bind (hpool.bind (hright pool hbacks)))

-- The bytes are taken apart in the order in which they are read, and only the body needs the pool.
theorem ofBytes_toBytes (file : ClassFile) (bytes : List UInt8) (h : file.toBytes = .ok bytes) :
    ofBytes bytes = .ok file.asRead := by
  obtain ⟨body, builder, hbody, hlengths, rfl⟩ := file.writeBody_of_toBytes bytes h
  obtain ⟨hsound, -, hright⟩ :=
    file.yields_writeBody PoolBuilder.empty body builder PoolBuilder.sound_empty hbody
  obtain ⟨pool, hpool, hbacks⟩ := builder.reads_bytes hsound hlengths
  refine within_of_reads "class" ?_
  simp only [List.append_assoc]
  refine (Reads.u4 magic).bind ?_
  rw [if_neg (by simp)]
  refine (Reads.u2 file.minor).bind ((Reads.u2 file.major).bind (hpool.bind ?_))
  exact hright pool hbacks

-- A marked interface with one constant, whose type is narrower than an integer.
def limits : ClassFile where
  access := 0x0601
  name := "a"
  superclass := some "b"
  fields := [{ access := 0x0019, name := "a", descriptor := "B", constant := some (.byte 5) }]
  visible := [{ type := "La;", elements := [("b", .array [.constant (.boolean true)])] }]

theorem ofBytes_toBytes_limits :
    ∃ bytes, limits.toBytes = .ok bytes ∧ ofBytes bytes = .ok { limits with
      fields := [{ access := 0x0019, name := "a", descriptor := "B", constant := some (.int 5) }]
    } := by
  have hfits : ∀ text ∈ ["a", "b", "B", "ConstantValue", "La;", "RuntimeVisibleAnnotations"],
      (ModifiedUtf8.encode text).length ≤ 0xFFFF := by decide
  simp only [List.forall_mem_cons] at hfits
  have hwritten : ∃ bytes, limits.toBytes = .ok bytes := by
    -- The numbers are found by the laws of the table, as its hashes cannot be computed here.
    simp [hfits, limits, toBytes, writeBody, attributes, Member.write, Member.attributes,
      Member.ofLists, Attribute.ofList, Attribute.writeAll, Attribute.write, Attribute.writeInfo,
      Attribute.name, Retention.name, writeAnnotations, AnnotationValue.write, writeElements,
      ElementValue.write, writeValues, tagByte, Constant.internField, Constant.internElement,
      Constant.integer?, Constant.letter, Interning.each, Interning.length, Interning.u2,
      PoolBuilder.empty, PoolBuilder.push, PoolBuilder.intern, PoolBuilder.utf8,
      PoolBuilder.class, PoolBuilder.class?, PoolBuilder.integer, PoolBuilder.checkLengths,
      PoolEntry.slots, PoolEntry.isWide, Std.HashMap.getElem_insert, toString,
      ExceptT.run, pure_apply, bind_apply, -bind_pure_comp]
    exact ⟨_, rfl⟩
  obtain ⟨bytes, h⟩ := hwritten
  exact ⟨bytes, h, ofBytes_toBytes limits bytes h⟩

end ClassFile

end ApiUnion
