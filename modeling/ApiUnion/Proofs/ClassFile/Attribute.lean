import ApiUnion.ClassFile.Attribute
import ApiUnion.Proofs.ClassFile.ElementBytes

-- Attributes are read back from the bytes that are written for them.

namespace ApiUnion

open Reader Interning

-- Pieces that are read at any depth they leave room for are read at one that leaves room for all.
theorem reads_pieces {α β : Type} (item : Nat → Reader β) (f : α → β) {items : List α}
    {pieces : List (List UInt8)} {count depth : Nat} (hcount : count = items.length)
    (h : List.Forall₂ (fun a piece => ∀ depth, piece.length ≤ depth →
      Reads (item depth) (f a) piece) items pieces) (hdepth : pieces.flatten.length ≤ depth) :
    Reads (Reader.times count (item depth)) (items.map f) pieces.flatten := by
  rw [hcount, ← List.length_map (f := f)]
  refine Reads.times ?_
  clear hcount
  induction h with
  | nil => exact .nil
  | cons hitem _ ih =>
      rw [List.flatten_cons, List.length_append] at hdepth
      exact .cons (hitem depth (by omega)) (ih (by omega))

-- The bytes are read as the annotations at any depth that they leave room for.
def AnnotationsReadFrom (list : List AnnotationValue) (pool : Pool) (bytes : List UInt8) : Prop :=
  ∀ depth, bytes.length ≤ depth →
    Reads (annotations pool depth) (list.map AnnotationValue.asRead) bytes

theorem yields_writeAnnotations (list : List AnnotationValue) (what : String) :
    Yields (writeAnnotations list what) (AnnotationsReadFrom list) := by
  refine (Yields.length list.length what).bind fun length => ?_
  refine (Yields.each list AnnotationValue.write fun item _ => item.yields_write).bind fun bytes => ?_
  refine Yields.pure _ fun pool hbytes hlength => ?_
  obtain ⟨count, rfl, hcount⟩ := hlength
  obtain ⟨pieces, rfl, hpieces⟩ := hbytes
  intro depth hdepth
  rw [List.length_append] at hdepth
  exact (Reads.u2 count).bind
    (reads_pieces (fun depth => annotationValue pool (elementValue pool depth))
      AnnotationValue.asRead hcount hpieces (by omega))

namespace Attribute

-- What reading finds of an attribute that was written for an owner.
def asRead (owner : AttributeOwner) (attr : Attribute) : Attribute :=
  match attr, owner with
  | signature text, _ => signature text
  | annotations retention list, _ => annotations retention (list.map AnnotationValue.asRead)
  | parameterAnnotations retention lists, .method =>
    parameterAnnotations retention (lists.map fun list => list.map AnnotationValue.asRead)
  | innerClasses list, .class => innerClasses list
  | enclosingMethod value, .class => enclosingMethod value.asRead
  | exceptions names, .method => exceptions names
  | parameters list, .method => parameters list
  | annotationDefault value, .method => annotationDefault value.asRead
  | constant value, .field => constant value.asRead
  | _, _ => skipped

-- The attribute is read from the bytes if the owner can have it, and skipped if not.
def ReadFrom (attr : Attribute) (pool : Pool) (info : List UInt8) : Prop :=
  ∀ owner, match reader? pool owner info.length attr.name with
    | some reader => Reads reader (attr.asRead owner) info
    | none => attr.asRead owner = skipped

theorem yields_shortLength (count : Nat) (what : String) :
    Yields (shortLength count what) fun _ bytes =>
      ∃ number : UInt8, bytes = Bytes.u1 number ∧ number.toNat = count := by
  unfold shortLength
  split
  · rename_i hfits
    refine Yields.pure _ fun pool => ⟨UInt8.ofNat count, rfl, ?_⟩
    simp only [UInt8.toNat_ofNat']
    omega
  · exact Yields.throw _ _

theorem yields_writeInnerClass (inner : InnerClass) :
    Yields (writeInnerClass inner) fun pool bytes => Reads (readInnerClass pool) inner bytes := by
  refine (Yields.class inner.name).bind fun name => ?_
  refine (Yields.class? inner.outer).bind fun outer => ?_
  refine (Yields.utf8? inner.innerName).bind fun innerName => ?_
  refine Yields.pure _ fun pool hinner houter hname => ?_
  rw [List.append_assoc, List.append_assoc]
  exact (Reads.pooled hname.1).bind ((Reads.pooled houter).bind
    ((Reads.pooled hinner).bind ((Reads.u2 inner.access).bind_pure _)))

theorem yields_writeParameter (parameter : MethodParameter) :
    Yields (writeParameter parameter) fun pool bytes =>
      Reads (readParameter pool) parameter bytes := by
  refine (Yields.utf8? parameter.name).bind fun name => ?_
  refine Yields.pure _ fun pool hname => ?_
  exact (Reads.pooled hname).bind ((Reads.u2 parameter.access).bind_pure _)

-- A reference to zero is written for a method that is not fully named.
theorem yields_writeEnclosing (enclosing : EnclosingMethod) :
    Yields (writeEnclosing enclosing) fun pool bytes =>
      Reads (readEnclosing pool) enclosing.asRead bytes := by
  obtain ⟨owner, name, descriptor⟩ := enclosing
  have hnone : Yields (do
      let owner ← PoolBuilder.class owner
      let method ← (Pure.pure 0 : Interning UInt16)
      Pure.pure (Bytes.u2 owner ++ Bytes.u2 method)) fun pool bytes =>
        Reads (readEnclosing pool) ⟨owner, none, none⟩ bytes := by
    refine (Yields.class owner).bind fun first => ?_
    refine (Yields.pure 0 fun _ => rfl).bind fun method => ?_
    refine Yields.pure _ fun pool hmethod howner => ?_
    subst hmethod
    exact (Reads.pooled howner.1).bind ((Reads.u2 0).bind_nil (Reads.pure _))
  cases name with
  | none => exact hnone
  | some name =>
      cases descriptor with
      | none => exact hnone
      | some descriptor =>
          refine (Yields.class owner).bind fun first => ?_
          refine (Yields.nameAndType name descriptor).bind fun method => ?_
          refine Yields.pure _ fun pool hmethod howner => ?_
          refine (Reads.pooled howner.1).bind ?_
          have hread : Reads (readOwnerMethod pool owner method)
              ⟨owner, some name, some descriptor⟩ [] := by
            rw [readOwnerMethod, if_neg hmethod.2]
            exact (Reads.lift hmethod.1).bind_nil (Reads.pure _)
          exact (Reads.u2 method).bind_nil hread

-- A list of two-byte length, each item of which is read from a piece of its own.
theorem reads_counted {α β : Type} {item : Reader α} {values : List α} {pieces : List (List UInt8)}
    (f : List α → β) (count : UInt16) (hcount : count.toNat = values.length)
    (h : List.Forall₂ (Reads item) values pieces) :
    Reads (do let count ← Reader.u2; return f (← Reader.times count.toNat item)) (f values)
      (Bytes.u2 count ++ pieces.flatten) := by
  have htimes := (Reads.times h).bind_pure f
  rw [← hcount] at htimes
  exact (Reads.u2 count).bind htimes

theorem yields_parameterAnnotations (retention : Retention)
    (lists : List (List AnnotationValue)) :
    Yields (parameterAnnotations retention lists).writeInfo fun pool info =>
      ∀ depth, info.length ≤ depth → Reads (Reader.parameterAnnotations pool depth)
        (lists.map fun list => list.map AnnotationValue.asRead) info := by
  refine (yields_shortLength lists.length _).bind fun length => ?_
  refine (Yields.each lists _ fun list _ => yields_writeAnnotations list _).bind fun bytes => ?_
  refine Yields.pure _ fun pool hbytes hlength => ?_
  obtain ⟨count, rfl, hcount⟩ := hlength
  obtain ⟨pieces, rfl, hpieces⟩ := hbytes
  intro depth hdepth
  rw [List.length_append] at hdepth
  exact (Reads.u1 count).bind
    (reads_pieces (Reader.annotations pool) (List.map AnnotationValue.asRead) hcount hpieces
      (by omega))

-- What a body refers to is in the pool, and its local variables are those of the stub.
theorem yields_writeStub (body : StubBody) (isStatic : Bool) (descriptor : String) :
    Yields (writeStub body isStatic descriptor) fun _ info =>
      ∃ locals rest, stubLocals isStatic descriptor = .ok locals ∧
        info = Bytes.u2 3 ++ (Bytes.u2 locals ++ rest) := by
  have hlocals : Yields (writeStub.liftExcept (stubLocals isStatic descriptor))
      fun _ locals => stubLocals isStatic descriptor = .ok locals := by
    unfold writeStub.liftExcept
    split
    · next hfound => exact Yields.pure _ fun _ => hfound
    · exact Yields.throw _ _
  refine hlocals.bind fun locals => ?_
  refine (Yields.class body.exception).bind fun exception => ?_
  refine (Yields.string body.message).bind fun message => ?_
  refine (Yields.methodref body.exception _ _).bind fun constructor => ?_
  refine Yields.pure _ fun pool _ _ _ hfound => ?_
  simp only [List.append_assoc]
  exact ⟨locals, _, hfound, rfl⟩

-- One case for each kind of attribute, and in it one for each owner that it can have.
theorem yields_writeInfo (attr : Attribute) : Yields attr.writeInfo attr.ReadFrom := by
  cases attr with
  | signature text =>
      refine (Yields.u2 (Yields.utf8 text)).mono fun pool info h owner => ?_
      obtain ⟨index, rfl, htext, _⟩ := h
      exact (Reads.pooled htext).map signature
  | annotations retention list =>
      refine (yields_writeAnnotations list _).mono fun pool info h owner => ?_
      have hread := h info.length (Nat.le_refl _)
      cases retention with
      | visible => exact hread.map (annotations .visible)
      | invisible => exact hread.map (annotations .invisible)
  | parameterAnnotations retention lists =>
      refine (yields_parameterAnnotations retention lists).mono fun pool info h owner => ?_
      have hread := h info.length (Nat.le_refl _)
      cases owner with
      | method =>
          cases retention with
          | visible => exact hread.map (parameterAnnotations .visible)
          | invisible => exact hread.map (parameterAnnotations .invisible)
      | «class» | field => cases retention <;> rfl
  | innerClasses list =>
      refine (Yields.length list.length _).bind fun length => ?_
      refine (Yields.each list _ fun inner _ => yields_writeInnerClass inner).bind fun bytes => ?_
      refine Yields.pure _ fun pool hbytes hlength owner => ?_
      obtain ⟨count, rfl, hcount⟩ := hlength
      obtain ⟨pieces, rfl, hpieces⟩ := hbytes
      cases owner with
      | «class» => exact reads_counted innerClasses count hcount hpieces
      | field | method => rfl
  | enclosingMethod value =>
      refine (yields_writeEnclosing value).mono fun pool info h owner => ?_
      cases owner with
      | «class» => exact h.map enclosingMethod
      | field | method => rfl
  | exceptions names =>
      refine (Yields.length names.length _).bind fun length => ?_
      refine (Yields.each names _ fun name _ => Yields.u2 (Yields.class name)).bind fun bytes => ?_
      refine Yields.pure _ fun pool hbytes hlength owner => ?_
      obtain ⟨count, rfl, hcount⟩ := hlength
      obtain ⟨pieces, rfl, hpieces⟩ := hbytes
      have hread : List.Forall₂ (Reads (Reader.pooled pool.className)) names pieces :=
        hpieces.imp fun name piece h => by
          obtain ⟨index, rfl, hname, _⟩ := h
          exact Reads.pooled hname
      cases owner with
      | method => exact reads_counted exceptions count hcount hread
      | «class» | field => rfl
  | parameters list =>
      refine (yields_shortLength list.length _).bind fun length => ?_
      refine (Yields.each list _ fun item _ => yields_writeParameter item).bind fun bytes => ?_
      refine Yields.pure _ fun pool hbytes hlength owner => ?_
      obtain ⟨count, rfl, hcount⟩ := hlength
      obtain ⟨pieces, rfl, hpieces⟩ := hbytes
      cases owner with
      | method =>
          have htimes := (Reads.times hpieces).bind_pure parameters
          rw [← hcount] at htimes
          exact (Reads.u1 count).bind htimes
      | «class» | field => rfl
  | annotationDefault value =>
      refine value.yields_write.mono fun pool info h owner => ?_
      cases owner with
      | method => exact (h info.length (Nat.le_refl _)).map annotationDefault
      | «class» | field => rfl
  | constant value =>
      refine (Yields.u2 value.yields_internField).mono fun pool info h owner => ?_
      obtain ⟨index, rfl, hvalue⟩ := h
      cases owner with
      | field => exact (Reads.pooled hvalue).map constant
      | «class» | method => rfl
  | code body isStatic descriptor =>
      refine (yields_writeStub body isStatic descriptor).mono fun pool info _ owner => ?_
      cases owner <;> rfl
  | skipped => exact Yields.pure [] fun pool owner => rfl

-- An attribute stands in a frame of its name and of the length of what is in it.
inductive Framed (name : String) (inside : Pool → List UInt8 → Prop) (pool : Pool) :
    List UInt8 → Prop
  | intro (index : UInt16) (length : UInt32) (info : List UInt8)
      (hname : pool.text index = .ok name) (hlength : length.toNat = info.length)
      (hinfo : inside pool info) :
      Framed name inside pool (Bytes.u2 index ++ (Bytes.u4 length ++ info))

theorem yields_framed (attr : Attribute) {inside : Pool → List UInt8 → Prop}
    (h : Yields attr.writeInfo inside) : Yields attr.write (Framed attr.name inside) := by
  refine h.bind fun info => ?_
  split
  · exact Yields.throw (.tooLarge "attribute") _
  · rename_i hfits
    refine (Yields.utf8 attr.name).bind fun index => ?_
    refine Yields.pure _ fun pool hname hinfo => ?_
    rw [List.append_assoc]
    refine .intro index _ info hname.1 ?_ hinfo
    simp only [UInt32.toNat_ofNat']
    omega

-- What is made of the inside of a frame is read of its bytes.
theorem Framed.reads {α : Type} {name : String} {inside : Pool → List UInt8 → Prop} {pool : Pool}
    {bytes : List UInt8} {next : String → UInt32 → List UInt8 → Reader α} {found : α}
    (h : Framed name inside pool bytes)
    (hnext : ∀ length info, length.toNat = info.length → inside pool info →
      Reads (next name length info) found []) :
    Reads (do
      let name ← Reader.pooled pool.text
      let length ← Reader.u4
      let info ← Reader.take length.toNat
      next name length info) found bytes := by
  obtain ⟨index, length, info, hname, hlength, hinfo⟩ := h
  refine (Reads.pooled hname).bind ((Reads.u4 length).bind ?_)
  exact (Reads.take info length.toNat hlength.symm).bind_nil (hnext length info hlength hinfo)

theorem yields_write (attr : Attribute) (owner : AttributeOwner) :
    Yields attr.write fun pool bytes => Reads (read pool owner) (attr.asRead owner) bytes := by
  refine (yields_framed attr attr.yields_writeInfo).mono fun pool bytes hframed => ?_
  refine hframed.reads fun length info hlength hinfo => ?_
  have hread := hinfo owner
  rw [← hlength] at hread
  generalize reader? pool owner length.toNat attr.name = reader at hread ⊢
  cases reader with
  | none =>
      rw [hread]
      exact Reads.pure skipped
  | some reader => exact Reads.lift (within_of_reads attr.name hread)

-- Whatever is found in each attribute is found in all of them, one after another.
theorem yields_writeAll {α : Type} {item : Pool → Reader α} {found : Attribute → α}
    (attributes : List Attribute)
    (h : ∀ attr : Attribute, Yields attr.write fun pool bytes =>
      Reads (item pool) (found attr) bytes) :
    Yields (writeAll attributes) fun pool bytes =>
      Reads (do let count ← Reader.u2; Reader.times count.toNat (item pool))
        (attributes.map found) bytes := by
  refine (Yields.each attributes write fun attr _ => h attr).bind fun bytes => ?_
  refine (Yields.length attributes.length _).bind fun length => ?_
  refine Yields.pure _ fun pool hlength hbytes => ?_
  obtain ⟨count, rfl, hcount⟩ := hlength
  obtain ⟨pieces, rfl, hpieces⟩ := hbytes
  have htimes := Reads.times (List.forall₂_map_left_iff.mpr hpieces)
  rw [List.length_map, ← hcount] at htimes
  exact (Reads.u2 count).bind htimes

end Attribute

end ApiUnion
