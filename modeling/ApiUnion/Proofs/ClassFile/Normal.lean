import ApiUnion.Proofs.ClassFile.RoundTrip

-- What a reader finds is written without loss: reading a class file gives a class that is what
-- reading finds of itself.

namespace ApiUnion

namespace Reader

variable {α β : Type}

-- Whatever the reader finds, in any input, is right.
def Finds (read : Reader α) (right : α → Prop) : Prop :=
  ∀ input value rest, read input = .ok (value, rest) → right value

namespace Finds

theorem any (read : Reader α) : Finds read fun _ => True :=
  fun _ _ _ _ => trivial

theorem pure {value : α} {right : α → Prop} (h : right value) : Finds (Pure.pure value) right := by
  intro input found rest hread
  cases hread
  exact h

theorem bind {read : Reader α} {next : α → Reader β} {found : α → Prop} {right : β → Prop}
    (hread : Finds read found) (hnext : ∀ value, found value → Finds (next value) right) :
    Finds (read >>= next) right := by
  intro input result rest h
  change (read input).bind (fun result => next result.1 result.2) = _ at h
  cases hfirst : read input with
  | error error =>
      rw [hfirst] at h
      cases h
  | ok first =>
      rw [hfirst] at h
      exact hnext first.1 (hread input first.1 first.2 hfirst) first.2 result rest h

-- A step of which nothing has to be known.
theorem after {read : Reader α} {next : α → Reader β} {right : β → Prop}
    (hnext : ∀ value, Finds (next value) right) : Finds (read >>= next) right :=
  (any read).bind fun value _ => hnext value

theorem map {read : Reader α} {found : α → Prop} {right : β → Prop} {f : α → β}
    (hread : Finds read found) (h : ∀ value, found value → right (f value)) :
    Finds (f <$> read) right := by
  rw [map_eq_pure_bind]
  exact hread.bind fun value hvalue => pure (h value hvalue)

theorem fail (error : ClassFileError) (right : α → Prop) : Finds (Reader.fail error) right := by
  intro input value rest h
  cases h

theorem lift {result : Except ClassFileError α} {right : α → Prop}
    (h : ∀ value, result = .ok value → right value) : Finds (Reader.lift result) right := by
  intro input value rest hread
  unfold Reader.lift at hread
  cases result with
  | error error => cases hread
  | ok found =>
      cases hread
      exact h value rfl

theorem pooled {find : UInt16 → Except ClassFileError α} {right : α → Prop}
    (h : ∀ index value, find index = .ok value → right value) :
    Finds (Reader.pooled find) right :=
  Finds.after fun index => lift (h index)

theorem timesAfter {item : Reader α} {right : α → Prop} (hitem : Finds item right) (count : Nat)
    (found : List α) (hfound : ∀ value ∈ found, right value) :
    Finds (Reader.timesAfter item count found) fun values => ∀ value ∈ values, right value := by
  induction count generalizing found with
  | zero =>
      intro input values rest h
      cases h
      simpa using hfound
  | succ count ih =>
      intro input values rest h
      rw [Reader.timesAfter] at h
      cases hfirst : item input with
      | error error =>
          rw [hfirst] at h
          cases h
      | ok first =>
          rw [hfirst] at h
          have hall : ∀ value ∈ first.1 :: found, right value := by
            have hvalue := hitem input first.1 first.2 hfirst
            simpa [hvalue] using hfound
          exact ih _ hall first.2 values rest h

theorem times {item : Reader α} {right : α → Prop} (hitem : Finds item right) (count : Nat) :
    Finds (Reader.times count item) fun values => ∀ value ∈ values, right value :=
  timesAfter hitem count [] (by simp)

theorem within {item : Reader α} {right : α → Prop} (hitem : Finds item right)
    {bytes : List UInt8} {what : String} {value : α}
    (h : Reader.within bytes what item = .ok value) : right value := by
  have hall : Finds (do let value ← item; finish what; Pure.pure value) right :=
    hitem.bind fun value hvalue => Finds.after fun _ => pure hvalue
  unfold Reader.within at h
  split at h
  · rename_i found rest hread
    cases h
    exact hall bytes value rest hread
  · cases h

end Finds

end Reader

open Reader

-- Lists of what is what reading finds of itself.

theorem valuesAsRead_of_forall (values : List ElementValue)
    (h : ∀ value ∈ values, value.asRead = value) : valuesAsRead values = values := by
  induction values with
  | nil => rfl
  | cons value rest ih =>
      obtain ⟨hvalue, hrest⟩ := List.forall_mem_cons.mp h
      rw [valuesAsRead, hvalue, ih hrest]

theorem elementsAsRead_of_forall (elements : List (String × ElementValue))
    (h : ∀ element ∈ elements, element.2.asRead = element.2) :
    elementsAsRead elements = elements := by
  induction elements with
  | nil => rfl
  | cons element rest ih =>
      obtain ⟨hvalue, hrest⟩ := List.forall_mem_cons.mp h
      rw [elementsAsRead, hvalue, ih hrest]

theorem map_asRead_iff {α : Type} {asRead : α → α} {items : List α} :
    items.map asRead = items ↔ ∀ item ∈ items, asRead item = item := by
  conv_lhs => rw [← List.map_id items, List.map_map]
  exact List.map_inj_left

theorem finds_annotationValue (pool : Pool) {value : Reader ElementValue}
    (hvalue : Finds value fun v => v.asRead = v) :
    Finds (annotationValue pool value) fun mark => mark.asRead = mark := by
  have helement : Finds (element pool value) fun element => element.2.asRead = element.2 :=
    Finds.after fun name => hvalue.bind fun value h => Finds.pure h
  refine Finds.after fun type => Finds.after fun count => ?_
  refine (helement.times count.toNat).bind fun elements h => Finds.pure ?_
  rw [AnnotationValue.asRead, elementsAsRead_of_forall elements h]

-- The induction is on the depth of nesting that the reader allows.
theorem finds_elementValue (pool : Pool) (depth : Nat) :
    Finds (elementValue pool depth) fun value => value.asRead = value := by
  induction depth with
  | zero => exact Finds.fail _ _
  | succ depth ih =>
      refine Finds.after fun letter => ?_
      dsimp only
      split
      · exact Finds.after fun type => Finds.after fun name => Finds.pure rfl
      · exact Finds.after fun descriptor => Finds.pure rfl
      · refine (finds_annotationValue pool ih).bind fun mark h => Finds.pure ?_
        rw [ElementValue.asRead, h]
      · refine Finds.after fun count => ?_
        refine (ih.times count.toNat).bind fun values h => Finds.pure ?_
        rw [ElementValue.asRead, valuesAsRead_of_forall values h]
      · unfold constantValue
        split
        · exact Finds.after fun value => Finds.pure rfl
        · exact Finds.fail _ _

theorem finds_annotations (pool : Pool) (depth : Nat) :
    Finds (annotations pool depth) fun list => list.map AnnotationValue.asRead = list := by
  refine Finds.after fun count => ?_
  have hmark := finds_annotationValue pool (finds_elementValue pool depth)
  exact fun input list rest h => map_asRead_iff.mpr (hmark.times count.toNat input list rest h)

theorem finds_parameterAnnotations (pool : Pool) (depth : Nat) :
    Finds (parameterAnnotations pool depth) fun lists =>
      ∀ list ∈ lists, list.map AnnotationValue.asRead = list :=
  Finds.after fun count => (finds_annotations pool depth).times count.toNat

-- A narrow type is not what a field is read with.
theorem Constant.asRead_of_ofField {pool : Pool} {index : UInt16} {value : Constant}
    (h : Constant.ofField pool index = .ok value) : value.asRead = value := by
  unfold Constant.ofField at h
  cases hentry : pool.get index with
  | error error =>
      rw [hentry] at h
      cases h
  | ok entry =>
      rw [hentry] at h
      dsimp only [bind, Except.bind] at h
      split at h
      · cases h
        rfl
      · cases h
        rfl
      · cases h
        rfl
      · cases h
        rfl
      · rename_i text
        cases htext : pool.text text with
        | error error =>
            rw [htext] at h
            cases h
        | ok text =>
            rw [htext] at h
            cases h
            rfl
      · cases h

theorem finds_readEnclosing (pool : Pool) :
    Finds (Attribute.readEnclosing pool) fun enclosing => enclosing.asRead = enclosing := by
  refine Finds.after fun owner => Finds.after fun method => ?_
  unfold Attribute.readOwnerMethod
  split
  · exact Finds.pure rfl
  · exact Finds.after fun pair => Finds.pure rfl

namespace Attribute

-- One case for each name that is known, and the owners that it belongs to.
theorem finds_reader? {pool : Pool} {owner : AttributeOwner} {length : Nat} {name : String}
    {reader : Reader Attribute} (h : reader? pool owner length name = some reader) :
    Finds reader fun attr => attr.asRead owner = attr := by
  have hlist (retention : Retention) :
      Finds (annotations retention <$> Reader.annotations pool length) fun attr =>
        attr.asRead owner = attr :=
    (finds_annotations pool length).map fun list hlist => by rw [asRead, hlist]
  have hlists (retention : Retention) :
      Finds (parameterAnnotations retention <$> Reader.parameterAnnotations pool length) fun attr =>
        attr.asRead .method = attr :=
    (finds_parameterAnnotations pool length).map fun lists hlists => by
      rw [asRead, map_asRead_iff.mpr hlists]
  unfold reader? at h
  split at h <;> cases h
  · exact (Finds.any _).map fun text _ => rfl
  · exact hlist .visible
  · exact hlist .invisible
  · exact Finds.after fun count => Finds.after fun list => Finds.pure rfl
  · exact (finds_readEnclosing pool).map fun enclosing h => by rw [asRead, h]
  · exact Finds.after fun count => Finds.after fun names => Finds.pure rfl
  · exact Finds.after fun count => Finds.after fun list => Finds.pure rfl
  · exact hlists .visible
  · exact hlists .invisible
  · exact (finds_elementValue pool length).map fun value h => by rw [asRead, h]
  · exact (Finds.pooled fun index value h => Constant.asRead_of_ofField h).map fun value h => by
      rw [asRead, h]

theorem finds_read (pool : Pool) (owner : AttributeOwner) :
    Finds (read pool owner) fun attr => attr.asRead owner = attr := by
  refine Finds.after fun name => Finds.after fun length => Finds.after fun info => ?_
  split
  · rename_i reader hreader
    exact Finds.lift fun attr h => (finds_reader? hreader).within h
  · refine Finds.pure ?_
    cases owner <;> rfl

theorem finds_readAll (pool : Pool) (owner : AttributeOwner) :
    Finds (readAll pool owner) fun attributes =>
      ∀ attr ∈ attributes, attr.asRead owner = attr :=
  Finds.after fun count => (finds_read pool owner).times count.toNat

variable {α : Type} {owner : AttributeOwner} {attributes : List Attribute}

theorem mem_of_lastOf {value : Attribute → Option α} {found : α}
    (h : lastOf value attributes = some found) : ∃ attr ∈ attributes, value attr = some found := by
  obtain ⟨attr, hmem, hvalue⟩ := List.exists_of_findSome?_eq_some h
  exact ⟨attr, List.mem_reverse.mp hmem, hvalue⟩

theorem annotationsOf_asRead (h : ∀ attr ∈ attributes, attr.asRead owner = attr)
    (retention : Retention) :
    (annotationsOf retention attributes).map AnnotationValue.asRead =
      annotationsOf retention attributes := by
  refine map_asRead_iff.mpr fun mark hmark => ?_
  obtain ⟨attr, hmem, hmark⟩ := List.mem_flatMap.mp hmark
  have hattr := h attr hmem
  cases attr with
  | annotations found list =>
      injection hattr with _ hlist
      dsimp only at hmark
      split at hmark
      · exact map_asRead_iff.mp hlist mark hmark
      · cases hmark
  | _ => cases hmark

theorem parameterAnnotationsOf_asRead (h : ∀ attr ∈ attributes, attr.asRead owner = attr)
    (retention : Retention) :
    ∀ list ∈ parameterAnnotationsOf retention attributes,
      list.map AnnotationValue.asRead = list := by
  intro list hmem
  unfold parameterAnnotationsOf at hmem
  generalize hlast : lastOf _ attributes = last at hmem
  cases last with
  | none => cases hmem
  | some lists =>
      obtain ⟨attr, hattr, hvalue⟩ := mem_of_lastOf hlast
      have hnormal := h attr hattr
      cases attr with
      | parameterAnnotations found all =>
          dsimp only at hvalue
          split at hvalue
          · cases hvalue
            cases owner with
            | method =>
                injection hnormal with _ hall
                exact map_asRead_iff.mp hall list hmem
            | «class» | field => cases hnormal
          · cases hvalue
      | _ => cases hvalue

-- What is looked up is what one of the attributes holds.
theorem lastOf_asRead {value : Attribute → Option α} {found : α → α}
    (hvalue : ∀ attr a, attr.asRead owner = attr → value attr = some a → found a = a)
    (h : ∀ attr ∈ attributes, attr.asRead owner = attr) :
    (lastOf value attributes).map found = lastOf value attributes := by
  cases hlast : lastOf value attributes with
  | none => rfl
  | some a =>
      obtain ⟨attr, hmem, hattr⟩ := mem_of_lastOf hlast
      rw [Option.map_some, hvalue attr a (h attr hmem) hattr]

theorem defaultOf_asRead (h : ∀ attr ∈ attributes, attr.asRead owner = attr) :
    (defaultOf attributes).map ElementValue.asRead = defaultOf attributes := by
  refine lastOf_asRead (fun attr a hattr hvalue => ?_) h
  cases attr <;> cases hvalue
  cases owner <;> injection hattr

theorem constantOf_asRead (h : ∀ attr ∈ attributes, attr.asRead owner = attr) :
    (constantOf attributes).map Constant.asRead = constantOf attributes := by
  refine lastOf_asRead (fun attr a hattr hvalue => ?_) h
  cases attr <;> cases hvalue
  cases owner <;> injection hattr

theorem enclosingOf_asRead (h : ∀ attr ∈ attributes, attr.asRead owner = attr) :
    (enclosingOf attributes).map EnclosingMethod.asRead = enclosingOf attributes := by
  refine lastOf_asRead (fun attr a hattr hvalue => ?_) h
  cases attr <;> cases hvalue
  cases owner <;> injection hattr

end Attribute

namespace Member

-- What a member holds is what reading finds of it.
structure Normal (member : Member) : Prop where
  visible : member.visible.map AnnotationValue.asRead = member.visible
  invisible : member.invisible.map AnnotationValue.asRead = member.invisible
  visibleParameters : ∀ list ∈ member.visibleParameters, list.map AnnotationValue.asRead = list
  invisibleParameters : ∀ list ∈ member.invisibleParameters, list.map AnnotationValue.asRead = list
  annotationDefault : member.annotationDefault.map ElementValue.asRead = member.annotationDefault
  constant : member.constant.map Constant.asRead = member.constant

theorem finds_read (pool : Pool) (owner : AttributeOwner) : Finds (read pool owner) Normal := by
  refine Finds.after fun access => Finds.after fun name => Finds.after fun descriptor => ?_
  refine (Attribute.finds_readAll pool owner).bind fun attributes h => Finds.pure ?_
  exact {
    visible := Attribute.annotationsOf_asRead h .visible
    invisible := Attribute.annotationsOf_asRead h .invisible
    visibleParameters := Attribute.parameterAnnotationsOf_asRead h .visible
    invisibleParameters := Attribute.parameterAnnotationsOf_asRead h .invisible
    annotationDefault := Attribute.defaultOf_asRead h
    constant := Attribute.constantOf_asRead h
  }

end Member

namespace ClassFile

structure Normal (file : ClassFile) : Prop where
  fields : ∀ field ∈ file.fields, field.Normal
  methods : ∀ method ∈ file.methods, method.Normal
  visible : file.visible.map AnnotationValue.asRead = file.visible
  invisible : file.invisible.map AnnotationValue.asRead = file.invisible
  enclosing : file.enclosing.map EnclosingMethod.asRead = file.enclosing

theorem finds_readBody (minor major : UInt16) (pool : Pool) :
    Finds (readBody minor major pool) Normal := by
  refine Finds.after fun access => Finds.after fun name => Finds.after fun superclass => ?_
  refine Finds.after fun interfaceCount => Finds.after fun interfaces => ?_
  refine Finds.after fun fieldCount => ?_
  refine ((Member.finds_read pool .field).times fieldCount.toNat).bind fun fields hfields => ?_
  refine Finds.after fun methodCount => ?_
  refine ((Member.finds_read pool .method).times methodCount.toNat).bind fun methods hmethods => ?_
  refine (Attribute.finds_readAll pool .class).bind fun attributes h => Finds.pure ?_
  exact {
    fields := hfields
    methods := hmethods
    visible := Attribute.annotationsOf_asRead h .visible
    invisible := Attribute.annotationsOf_asRead h .invisible
    enclosing := Attribute.enclosingOf_asRead h
  }

theorem finds_read : Finds read Normal := by
  refine Finds.after fun found => ?_
  split
  · exact (Finds.fail _ _).bind fun _ h => False.elim h
  · exact Finds.after fun minor => Finds.after fun major => Finds.after fun pool =>
      finds_readBody minor major pool

theorem normal_of_ofBytes {bytes : List UInt8} {file : ClassFile}
    (h : ofBytes bytes = .ok file) : file.Normal :=
  finds_read.within h

-- The bytes of a class are read from the front of any input.
theorem reads_toBytes {file : ClassFile} {bytes : List UInt8} (h : file.toBytes = .ok bytes) :
    Reads read file.asRead bytes :=
  reads_readAround h file.yields_writeBody

end ClassFile

end ApiUnion
