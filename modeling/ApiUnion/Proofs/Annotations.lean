import Mathlib.Tactic.Tauto
import ApiUnion.Annotations

-- When annotations agree. `agrees` compares floating-point values as numbers, which shows in two
-- ways only: the two zeros are not told apart, and a payload with a NaN anywhere in it agrees with
-- nothing.

namespace ApiUnion

def Constant.isNaN : Constant → Bool
  | .float bits => 0x7F800000 < bits.toNat % 0x80000000
  | .double bits => 0x7FF0000000000000 < bits.toNat % 0x8000000000000000
  | _ => false

-- The same number, with the bits of the positive zero for either zero.
def Constant.unsigned : Constant → Constant
  | .float bits => .float (if bits.toNat % 0x80000000 = 0 then 0 else bits)
  | .double bits => .double (if bits.toNat % 0x8000000000000000 = 0 then 0 else bits)
  | other => other

theorem agreeAsFloats_iff (signBit infinity a b : Nat) :
    agreeAsFloats signBit infinity a b = true ↔
      ¬ infinity < b % signBit ∧
        (if a % signBit = 0 then 0 else a) = if b % signBit = 0 then 0 else b := by
  simp only [agreeAsFloats, Bool.and_eq_true, Bool.or_eq_true, decide_eq_true_eq]
  -- What is zero without its sign is told apart from what is not.
  have hzero : ∀ n : Nat, n % signBit ≠ 0 → n ≠ 0 := fun n h hn => h (by rw [hn, Nat.zero_mod])
  by_cases ha : a % signBit = 0
  · by_cases hb : b % signBit = 0
    · simp [ha, hb]
    · have hne : a ≠ b := fun h => hb (h ▸ ha)
      simp [ha, hb, hne, (hzero b hb).symm]
  · by_cases hb : b % signBit = 0
    · have hne : a ≠ b := fun h => ha (h ▸ hb)
      simp [ha, hb, hne, hzero a ha]
    · simp only [ha, hb, false_and, or_false, if_false]
      constructor
      · rintro ⟨⟨_, hnumber⟩, rfl⟩
        exact ⟨by omega, rfl⟩
      · rintro ⟨hnumber, rfl⟩
        exact ⟨⟨by omega, by omega⟩, rfl⟩

theorem Constant.agrees_iff (x y : Constant) :
    x.agrees y = true ↔ y.isNaN = false ∧ x.unsigned = y.unsigned := by
  cases x <;> cases y <;>
    simp [agrees, isNaN, unsigned, agreeAsFloats_iff, ← UInt32.toNat_inj, ← UInt64.toNat_inj,
      apply_ite UInt32.toNat, apply_ite UInt64.toNat]

mutual

-- Whether there is a NaN anywhere in a value.
def ElementValue.hasNaN : ElementValue → Bool
  | .constant value => value.isNaN
  | .enumConstant _ _ | .classLiteral _ => false
  | .nested value => value.hasNaN
  | .array values => anyNaN values

def AnnotationValue.hasNaN : AnnotationValue → Bool
  | ⟨_, elements, _⟩ => anyElementNaN elements

def anyNaN : List ElementValue → Bool
  | [] => false
  | value :: rest => value.hasNaN || anyNaN rest

def anyElementNaN : List (String × ElementValue) → Bool
  | [] => false
  | (_, value) :: rest => value.hasNaN || anyElementNaN rest

end

mutual

-- The same value, with the positive zero for either zero anywhere in it.
def ElementValue.unsigned : ElementValue → ElementValue
  | .constant value => .constant value.unsigned
  | .enumConstant type name => .enumConstant type name
  | .classLiteral descriptor => .classLiteral descriptor
  | .nested value => .nested value.unsigned
  | .array values => .array (unsignedValues values)

def AnnotationValue.unsigned : AnnotationValue → AnnotationValue
  | ⟨type, elements, className⟩ => ⟨type, unsignedElements elements, className⟩

def unsignedValues : List ElementValue → List ElementValue
  | [] => []
  | value :: rest => value.unsigned :: unsignedValues rest

def unsignedElements : List (String × ElementValue) → List (String × ElementValue)
  | [] => []
  | (name, value) :: rest => (name, value.unsigned) :: unsignedElements rest

end

mutual

theorem ElementValue.agrees_iff :
    ∀ x y : ElementValue, x.agrees y = true ↔ y.hasNaN = false ∧ x.unsigned = y.unsigned
  | .constant a, y => by
    cases y <;> simp [ElementValue.agrees, ElementValue.hasNaN, ElementValue.unsigned,
      Constant.agrees_iff]
  | .enumConstant a b, y => by
    cases y <;> simp [ElementValue.agrees, ElementValue.hasNaN, ElementValue.unsigned]
  | .classLiteral a, y => by
    cases y <;> simp [ElementValue.agrees, ElementValue.hasNaN, ElementValue.unsigned]
  | .nested a, y => by
    cases y <;> simp [ElementValue.agrees, ElementValue.hasNaN, ElementValue.unsigned,
      AnnotationValue.agrees_iff a]
  | .array a, y => by
    cases y <;> simp [ElementValue.agrees, ElementValue.hasNaN, ElementValue.unsigned,
      agreeingValues_iff a]

theorem AnnotationValue.agrees_iff :
    ∀ x y : AnnotationValue, x.agrees y = true ↔ y.hasNaN = false ∧ x.unsigned = y.unsigned
  | ⟨a, xs, m⟩, ⟨b, ys, n⟩ => by
    simp only [AnnotationValue.agrees, AnnotationValue.hasNaN, AnnotationValue.unsigned,
      Bool.and_eq_true, decide_eq_true_eq, agreeingElements_iff xs, AnnotationValue.mk.injEq]
    tauto

theorem agreeingValues_iff :
    ∀ xs ys : List ElementValue,
      agreeingValues xs ys = true ↔ anyNaN ys = false ∧ unsignedValues xs = unsignedValues ys
  | [], ys => by cases ys <;> simp [agreeingValues, anyNaN, unsignedValues]
  | x :: xs, ys => by
    cases ys with
    | nil => simp [agreeingValues, unsignedValues]
    | cons y ys =>
      simp only [agreeingValues, anyNaN, unsignedValues, Bool.and_eq_true, Bool.or_eq_false_iff,
        ElementValue.agrees_iff x, agreeingValues_iff xs, List.cons.injEq]
      tauto

theorem agreeingElements_iff :
    ∀ xs ys : List (String × ElementValue),
      agreeingElements xs ys = true ↔
        anyElementNaN ys = false ∧ unsignedElements xs = unsignedElements ys
  | [], ys => by cases ys <;> simp [agreeingElements, anyElementNaN, unsignedElements]
  | (a, x) :: xs, ys => by
    cases ys with
    | nil => simp [agreeingElements, unsignedElements]
    | cons y ys =>
      obtain ⟨b, y⟩ := y
      simp only [agreeingElements, anyElementNaN, unsignedElements, Bool.and_eq_true,
        Bool.or_eq_false_iff, decide_eq_true_eq, ElementValue.agrees_iff x,
        agreeingElements_iff xs, List.cons.injEq, Prod.mk.injEq]
      tauto

end

theorem AnnotationValue.agrees_eq_false_iff (x y : AnnotationValue) :
    x.agrees y = false ↔ y.hasNaN = true ∨ x.unsigned ≠ y.unsigned := by
  rw [← Bool.not_eq_true, AnnotationValue.agrees_iff, not_and_or, Bool.not_eq_false]

end ApiUnion
