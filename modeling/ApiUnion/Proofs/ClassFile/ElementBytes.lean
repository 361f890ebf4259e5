import ApiUnion.Proofs.ClassFile.AsRead
import ApiUnion.Proofs.ClassFile.Interning

-- Values of annotations are read back from the bytes that are written for them.

namespace ApiUnion

open Reader Interning

theorem Reader.Reads.pooled {α : Type} {find : UInt16 → Except ClassFileError α} {index : UInt16}
    {value : α} (h : find index = .ok value) :
    Reads (Reader.pooled find) value (Bytes.u2 index) :=
  (Reads.u2 index).bind_nil (Reads.lift h)

namespace Constant

theorem yields_integer (decode : Int32 → Except ClassFileError Constant) (n : Int32)
    (value : Constant) (h : decode n = .ok value) :
    Yields (PoolBuilder.integer n) fun pool index =>
      fromInteger decode pool index = .ok value := by
  refine (Yields.intern (.integer n) (by simp)).mono fun pool index hget => ?_
  simp only [fromInteger, hget.1]
  exact h

theorem charOfInteger_char (c : Char) : charOfInteger c.val.toInt32 = .ok (char c) := by
  have hvalid : c.val.toInt32.toUInt32.isValidChar := c.valid
  unfold charOfInteger
  rw [dif_pos hvalid]
  rfl

-- The letter announces how the entry is looked up, and the entry gives the constant back.
theorem yields_internElement (value : Constant) :
    Yields value.internElement fun pool index =>
      ∃ find, ofPool? value.letter = some find ∧ find pool index = .ok value := by
  cases value with
  | byte n =>
      have h := yields_integer (fun n => .ok (byte n.toInt8)) n.toInt32 (byte n) (by simp)
      exact h.mono fun pool index hfind => ⟨_, rfl, hfind⟩
  | short n =>
      have h := yields_integer (fun n => .ok (short n.toInt16)) n.toInt32 (short n) (by simp)
      exact h.mono fun pool index hfind => ⟨_, rfl, hfind⟩
  | int n =>
      have h := yields_integer (fun n => .ok (int n)) n (int n) rfl
      exact h.mono fun pool index hfind => ⟨_, rfl, hfind⟩
  | boolean b =>
      have h := yields_integer (fun n => .ok (boolean (n != 0))) (if b then 1 else 0) (boolean b)
        (by cases b <;> rfl)
      exact h.mono fun pool index hfind => ⟨_, rfl, hfind⟩
  | char c =>
      have h := yields_integer charOfInteger c.val.toInt32 (char c) (charOfInteger_char c)
      exact h.mono fun pool index hfind => ⟨_, rfl, hfind⟩
  | long n =>
      refine (Yields.intern (.long n) (by simp)).mono fun pool index h => ⟨_, rfl, ?_⟩
      simp only [fromLong, h.1]
      rfl
  | float bits =>
      refine (Yields.intern (.float bits) (by simp)).mono fun pool index h => ⟨_, rfl, ?_⟩
      simp only [fromFloat, h.1]
      rfl
  | double bits =>
      refine (Yields.intern (.double bits) (by simp)).mono fun pool index h => ⟨_, rfl, ?_⟩
      simp only [fromDouble, h.1]
      rfl
  | string text =>
      refine (Yields.utf8 text).mono fun pool index h => ⟨_, rfl, ?_⟩
      simp only [h.1]
      rfl

theorem yields_intern_ofField {entry : PoolEntry} {value : Constant} (husable : entry ≠ .unusable)
    (h : ∀ pool index, pool.get index = .ok entry → ofField pool index = .ok value) :
    Yields (PoolBuilder.intern entry) fun pool index => ofField pool index = .ok value :=
  (Yields.intern entry husable).mono fun pool index hget => h pool index hget.1

theorem yields_internField (value : Constant) :
    Yields value.internField fun pool index => ofField pool index = .ok value.asRead := by
  cases value with
  | string text =>
      refine (Yields.string text).mono fun pool index h => ?_
      obtain ⟨first, hget, htext⟩ := h
      unfold ofField
      rw [hget]
      show (pool.text first).map string = _
      rw [htext]
      rfl
  | byte n | short n | int n | long n | float bits | double bits | boolean b =>
      refine yields_intern_ofField (by simp) fun pool index hget => ?_
      unfold ofField
      rw [hget]
      rfl
  | char c =>
      refine yields_intern_ofField (by simp) fun pool index hget => ?_
      have hvalue : Int32.ofNat c.toNat = c.val.toInt32 := by
        have hcode : BitVec.ofNat 32 c.val.toNat = c.val.toBitVec :=
          (BitVec.ofNat_toNat 32 c.val.toBitVec).trans (BitVec.setWidth_eq _)
        exact Int32.toBitVec_inj.mp hcode
      unfold ofField
      rw [hget, asRead, hvalue]
      rfl

end Constant

-- The bytes are read as the value at any depth that they leave room for: each level of nesting has
-- a byte of its own.
def ElementValue.ReadFrom (value : ElementValue) (pool : Pool) (bytes : List UInt8) : Prop :=
  ∀ depth, bytes.length ≤ depth → Reads (elementValue pool depth) value.asRead bytes

def AnnotationValue.ReadFrom (value : AnnotationValue) (pool : Pool) (bytes : List UInt8) : Prop :=
  ∀ depth, bytes.length ≤ depth →
    Reads (annotationValue pool (elementValue pool depth)) value.asRead bytes

theorem reads_constant (pool : Pool) (depth : Nat) (value : Constant) (index : UInt16)
    (find : Pool → UInt16 → Except ClassFileError Constant)
    (hfind : Constant.ofPool? value.letter = some find) (hvalue : find pool index = .ok value) :
    Reads (elementValue pool (depth + 1)) (.constant value)
      (tagByte value.letter ++ Bytes.u2 index) := by
  have hpayload : Reads (constantValue pool value.letter) (.constant value) (Bytes.u2 index) := by
    rw [constantValue, hfind]
    exact (Reads.pooled hvalue).bind_pure ElementValue.constant
  cases value <;> exact (Reads.u1 _).bind hpayload

theorem reads_array (pool : Pool) (depth : Nat) (values : List ElementValue) (count : UInt16)
    (pieces : List (List UInt8)) (hcount : count.toNat = values.length)
    (h : List.Forall₂ (Reads (elementValue pool depth)) values pieces) :
    Reads (elementValue pool (depth + 1)) (.array values)
      (tagByte '[' ++ (Bytes.u2 count ++ pieces.flatten)) := by
  have htimes := (Reads.times h).bind_pure ElementValue.array
  rw [← hcount] at htimes
  exact (Reads.u1 _).bind ((Reads.u2 count).bind htimes)

theorem reads_annotationValue (pool : Pool) (value : Reader ElementValue) (type : String)
    (index count : UInt16) (elements : List (String × ElementValue)) (pieces : List (List UInt8))
    (htype : pool.text index = .ok type) (hcount : count.toNat = elements.length)
    (h : List.Forall₂ (Reads (element pool value)) elements pieces) :
    Reads (annotationValue pool value) { type, elements }
      (Bytes.u2 index ++ (Bytes.u2 count ++ pieces.flatten)) := by
  have htimes := (Reads.times h).bind_pure fun elements => ({ type, elements } : AnnotationValue)
  rw [← hcount] at htimes
  exact (Reads.pooled htype).bind ((Reads.u2 count).bind htimes)

mutual

theorem ElementValue.yields_write : ∀ value : ElementValue, Yields value.write value.ReadFrom
  | .constant value => by
    refine (Yields.u2 (Constant.yields_internElement value)).bind fun bytes => ?_
    refine Yields.pure _ fun pool hbytes => ?_
    obtain ⟨index, rfl, find, hfind, hvalue⟩ := hbytes
    intro depth hdepth
    cases depth with
    | zero => simp [tagByte] at hdepth
    | succ depth => exact reads_constant pool depth value index find hfind hvalue
  | .enumConstant type name => by
    refine (Yields.u2 (Yields.utf8 type)).bind fun first => ?_
    refine (Yields.u2 (Yields.utf8 name)).bind fun second => ?_
    refine Yields.pure _ fun pool hsecond hfirst => ?_
    obtain ⟨i, rfl, hi, _⟩ := hfirst
    obtain ⟨j, rfl, hj, _⟩ := hsecond
    intro depth hdepth
    cases depth with
    | zero => simp [tagByte] at hdepth
    | succ depth =>
        rw [List.append_assoc]
        exact (Reads.u1 _).bind ((Reads.pooled hi).bind ((Reads.pooled hj).bind_pure _))
  | .classLiteral descriptor => by
    refine (Yields.u2 (Yields.utf8 descriptor)).bind fun bytes => ?_
    refine Yields.pure _ fun pool hbytes => ?_
    obtain ⟨index, rfl, hindex, _⟩ := hbytes
    intro depth hdepth
    cases depth with
    | zero => simp [tagByte] at hdepth
    | succ depth => exact (Reads.u1 _).bind ((Reads.pooled hindex).bind_pure _)
  | .nested value => by
    refine (AnnotationValue.yields_write value).bind fun bytes => ?_
    refine Yields.pure _ fun pool hbytes => ?_
    intro depth hdepth
    cases depth with
    | zero => simp [tagByte] at hdepth
    | succ depth =>
        simp only [tagByte, List.length_append, List.length_singleton] at hdepth
        exact (Reads.u1 _).bind ((hbytes depth (by omega)).bind_pure _)
  | .array values => by
    refine (Yields.length values.length _).bind fun length => ?_
    refine (yields_writeValues [] values).bind fun bytes => ?_
    refine Yields.pure _ fun pool hbytes hlength => ?_
    obtain ⟨count, rfl, hcount⟩ := hlength
    obtain ⟨pieces, rfl, hpieces⟩ := hbytes
    intro depth hdepth
    cases depth with
    | zero => simp [tagByte] at hdepth
    | succ depth =>
        simp only [tagByte, List.length_append, List.length_singleton, Bytes.length_u2,
          List.reverse_nil, List.flatten_nil, List.nil_append] at hdepth
        rw [List.append_assoc]
        exact reads_array pool depth _ count pieces (by simpa using hcount)
          (hpieces depth (by omega))

theorem AnnotationValue.yields_write :
    ∀ value : AnnotationValue, Yields value.write value.ReadFrom
  | ⟨type, elements, _⟩ => by
    refine (Yields.u2 (Yields.utf8 type)).bind fun first => ?_
    refine (Yields.length elements.length _).bind fun length => ?_
    refine (yields_writeElements [] elements).bind fun bytes => ?_
    refine Yields.pure _ fun pool hbytes hlength hfirst => ?_
    obtain ⟨index, rfl, hindex, _⟩ := hfirst
    obtain ⟨count, rfl, hcount⟩ := hlength
    obtain ⟨pieces, rfl, hpieces⟩ := hbytes
    intro depth hdepth
    simp only [List.length_append, Bytes.length_u2, List.reverse_nil, List.flatten_nil,
      List.nil_append] at hdepth
    rw [List.append_assoc]
    exact reads_annotationValue pool _ type index count _ pieces hindex (by simpa using hcount)
      (hpieces depth (by omega))

-- The pieces that are done come first, so what the values add is the same after any of them.
theorem yields_writeValues : ∀ (done : List (List UInt8)) (values : List ElementValue),
    Yields (writeValues done values) fun pool bytes =>
      ∃ pieces, bytes = done.reverse.flatten ++ pieces.flatten ∧
        ∀ depth, pieces.flatten.length ≤ depth →
          List.Forall₂ (Reads (elementValue pool depth)) (valuesAsRead values) pieces
  | done, [] => Yields.pure _ fun pool => ⟨[], by simp, fun _ _ => .nil⟩
  | done, value :: rest => by
    refine (ElementValue.yields_write value).bind fun bytes => ?_
    refine (yields_writeValues (bytes :: done) rest).mono fun pool all hall hbytes => ?_
    obtain ⟨pieces, rfl, hpieces⟩ := hall
    refine ⟨bytes :: pieces, by simp, fun depth hdepth => ?_⟩
    rw [List.flatten_cons, List.length_append] at hdepth
    exact .cons (hbytes depth (by omega)) (hpieces depth (by omega))

theorem yields_writeElements :
    ∀ (done : List (List UInt8)) (elements : List (String × ElementValue)),
      Yields (writeElements done elements) fun pool bytes =>
        ∃ pieces, bytes = done.reverse.flatten ++ pieces.flatten ∧
          ∀ depth, pieces.flatten.length ≤ depth →
            List.Forall₂ (Reads (element pool (elementValue pool depth)))
              (elementsAsRead elements) pieces
  | done, [] => Yields.pure _ fun pool => ⟨[], by simp, fun _ _ => .nil⟩
  | done, (name, value) :: rest => by
    refine (Yields.u2 (Yields.utf8 name)).bind fun first => ?_
    refine (ElementValue.yields_write value).bind fun bytes => ?_
    refine (yields_writeElements ((first ++ bytes) :: done) rest).mono
      fun pool all hall hbytes hfirst => ?_
    obtain ⟨index, rfl, hindex, _⟩ := hfirst
    obtain ⟨pieces, rfl, hpieces⟩ := hall
    refine ⟨(Bytes.u2 index ++ bytes) :: pieces, by simp, fun depth hdepth => ?_⟩
    simp only [List.flatten_cons, List.length_append] at hdepth
    have hvalue := (hbytes depth (by omega)).bind_pure fun value => (name, value)
    exact .cons ((Reads.pooled hindex).bind hvalue) (hpieces depth (by omega))

end

end ApiUnion
