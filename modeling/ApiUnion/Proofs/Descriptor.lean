import Mathlib.Data.List.Basic
import ApiUnion.Descriptor
import ApiUnion.Proofs.Text.Collecting

-- Reading a descriptor accepts exactly what is printed of types whose class names are names. The
-- slots of a method are its width, if that fits two bytes.

namespace ApiUnion

theorem cutAt?_cons (stop c : Char) (input : List Char) :
    cutAt? stop (c :: input) =
      if c = stop then some ([], input)
      else (cutAt? stop input).map fun cut => (c :: cut.1, cut.2) := by
  unfold cutAt?
  by_cases hstop : c = stop
  · simp [hstop]
  · rw [if_neg hstop, List.dropWhile_cons_of_pos (by simpa using hstop),
      List.takeWhile_cons_of_pos (by simpa using hstop)]
    cases input.dropWhile (· != stop) <;> rfl

theorem cutAt?_eq_some_iff (stop : Char) (input front rest : List Char) :
    cutAt? stop input = some (front, rest) ↔ input = front ++ stop :: rest ∧ stop ∉ front := by
  induction input generalizing front with
  | nil => simp [cutAt?]
  | cons c input ih =>
      rw [cutAt?_cons]
      by_cases hstop : c = stop
      · cases front with
        | nil => simp [hstop]
        | cons d front =>
            have hne : ¬ (c = d ∧ d ≠ stop) := fun h => h.2 (h.1.symm.trans hstop)
            simp only [hstop, if_true, List.cons_append, List.mem_cons, not_or]
            constructor
            · intro h
              cases h
            · rintro ⟨h, hd, -⟩
              exact absurd (List.cons.inj h).1 hd
      · rw [if_neg hstop, Option.map_eq_some_iff]
        cases front with
        | nil => simp [hstop]
        | cons d front =>
            simp only [Prod.exists, Prod.mk.injEq, List.cons.injEq, List.cons_append,
              List.mem_cons, not_or]
            constructor
            · rintro ⟨found, left, hcut, ⟨rfl, rfl⟩, rfl⟩
              obtain ⟨hinput, hfront⟩ := (ih found).mp hcut
              exact ⟨⟨rfl, hinput⟩, Ne.symm hstop, hfront⟩
            · rintro ⟨⟨rfl, hinput⟩, -, hfront⟩
              exact ⟨front, rest, (ih front).mpr ⟨hinput, hfront⟩, ⟨rfl, rfl⟩, rfl⟩

namespace BaseType

theorem ofLetter?_eq_some_iff (letter : Char) (type : BaseType) :
    ofLetter? letter = some type ↔ letter = type.letter := by
  constructor
  · intro h
    unfold ofLetter? at h
    split at h <;> cases h <;> rfl
  · rintro rfl
    exact ofLetter?_letter type

end BaseType

namespace FieldType

-- Class names end at a semicolon and are not empty.
def Legible : FieldType → Prop
  | base _ => True
  | object name => name.toList ≠ [] ∧ ';' ∉ name.toList
  | array component => component.Legible

theorem chars_ne_nil (type : FieldType) : type.chars ≠ [] := by
  cases type <;> simp [chars]

theorem sound_split? (input rest : List Char) (type : FieldType)
    (h : split? input = some (type, rest)) : type.Legible ∧ input = type.chars ++ rest := by
  fun_induction split? input generalizing type with
  | case1 => cases h
  | case2 input =>
      obtain ⟨⟨front, back⟩, hcut, hresult⟩ := Option.bind_eq_some_iff.mp h
      obtain ⟨rfl, hfront⟩ := (cutAt?_eq_some_iff ';' input front back).mp hcut
      dsimp only at hresult
      split at hresult
      · cases hresult
      · rename_i hname
        cases hresult
        exact ⟨⟨by simpa using hname, by simpa using hfront⟩, by simp [chars]⟩
  | case3 input ih =>
      obtain ⟨⟨component, back⟩, hcomponent, hresult⟩ := Option.bind_eq_some_iff.mp h
      cases hresult
      obtain ⟨hlegible, rfl⟩ := ih component hcomponent
      exact ⟨hlegible, rfl⟩
  | case4 letter input =>
      obtain ⟨found, hfound, hresult⟩ := Option.bind_eq_some_iff.mp h
      cases hresult
      exact ⟨trivial, congrArg (· :: _) ((BaseType.ofLetter?_eq_some_iff _ _).mp hfound)⟩

theorem split?_chars (type : FieldType) (hlegible : type.Legible) (rest : List Char) :
    split? (type.chars ++ rest) = some (type, rest) := by
  induction type with
  | base type => cases type <;> rfl
  | object name =>
      have hcut := (cutAt?_eq_some_iff ';' _ name.toList rest).mpr ⟨rfl, hlegible.2⟩
      have hinput : (object name).chars ++ rest = 'L' :: (name.toList ++ ';' :: rest) := by
        simp [chars]
      rw [hinput, split?, hcut]
      simp [List.isEmpty_iff, hlegible.1]
  | array component ih =>
      rw [chars, List.cons_append, split?, ih hlegible]
      rfl

theorem split?_eq_some_iff (input rest : List Char) (type : FieldType) :
    split? input = some (type, rest) ↔ type.Legible ∧ input = type.chars ++ rest := by
  constructor
  · exact sound_split? input rest type
  · rintro ⟨hlegible, rfl⟩
    exact split?_chars type hlegible rest

theorem ofChars?_eq_some_iff (input : List Char) (type : FieldType) :
    ofChars? input = some type ↔ type.Legible ∧ input = type.chars := by
  have hall := split?_eq_some_iff input [] type
  rw [List.append_nil] at hall
  rw [← hall]
  unfold ofChars?
  constructor
  · intro h
    split at h
    · rename_i found hfound
      cases h
      exact hfound
    · cases h
  · intro h
    rw [h]

theorem ofText?_eq_some_iff (text : String) (type : FieldType) :
    ofText? text = some type ↔ type.Legible ∧ text = type.text := by
  rw [ofText?, ofChars?_eq_some_iff, FieldType.text, ← String.toList_inj, String.toList_ofList]

theorem head?_chars (type : FieldType) : type.chars.head? ≠ some ')' := by
  cases type with
  | base type => cases type <;> decide
  | object name | array component => simp [chars]

-- The class that the elements of a type are of, if they are objects.
def elementName? : FieldType → Option String
  | base _ => none
  | object name => some name
  | array component => component.elementName?

theorem legible_iff (type : FieldType) :
    type.Legible ↔ ∀ name ∈ type.elementName?.toList, name ≠ "" ∧ ';' ∉ name.toList := by
  induction type with
  | base type => simp [Legible, elementName?]
  | object name => simp [Legible, elementName?, String.toList_eq_nil_iff]
  | array component ih => exact ih

theorem ofText?_bracket (text : String) :
    ofText? (String.ofList ['['] ++ text) = (ofText? text).map array := by
  have hchars : (String.ofList ['['] ++ text).toList = '[' :: text.toList := by
    rw [String.toList_append, String.toList_ofList, List.singleton_append]
  rw [ofText?, hchars, ofText?, ofChars?, ofChars?, split?]
  cases split? text.toList with
  | none => rfl
  | some found =>
      obtain ⟨component, rest⟩ := found
      cases rest <;> rfl

-- Each bracket in front is one array more, however many there are.
theorem ofText?_brackets (depth : Nat) (text : String) :
    ofText? (String.ofList (List.replicate depth '[') ++ text) =
      (ofText? text).map (Nat.repeat array depth) := by
  induction depth with
  | zero =>
      have hempty : String.ofList (List.replicate 0 '[') ++ text = text := String.empty_append
      rw [hempty]
      exact Option.map_id'.symm
  | succ depth ih =>
      have hfront : String.ofList (List.replicate (depth + 1) '[') =
          String.ofList ['['] ++ String.ofList (List.replicate depth '[') := by
        rw [← String.ofList_append, List.replicate_succ, List.singleton_append]
      rw [hfront, String.append_assoc, ofText?_bracket, ih, Option.map_map]
      rfl

end FieldType

namespace MethodType

structure Legible (type : MethodType) : Prop where
  parameters : ∀ parameter ∈ type.parameters, parameter.Legible
  result : ∀ result ∈ type.result, result.Legible

theorem splitParameters?_of_head? (fuel : Nat) (found : List FieldType) {input : List Char}
    (h : input.head? ≠ some ')') :
    splitParameters? (fuel + 1) found input = (FieldType.split? input).bind fun (type, rest) =>
      splitParameters? fuel (type :: found) rest := by
  cases input with
  | nil => rfl
  | cons c input =>
      have hne : c ≠ ')' := fun heq => h (congrArg some heq)
      rw [splitParameters?]
      · rfl
      · simpa using hne

theorem splitParameters?_close (fuel : Nat) (found : List FieldType) (input : List Char) :
    splitParameters? fuel found (')' :: input) = some (found.reverse, input) := by
  cases fuel <;> rfl

-- No type starts like the end of the parameters.
theorem collects_splitParameters? :
    Collects FieldType.Legible FieldType.chars (fun _ => True)
      (fun input values result => ∃ rest, input = ')' :: rest ∧ result = (values, rest))
      splitParameters? where
  zero found result := by simp [splitParameters?]
  succ fuel found input result := by
    by_cases hhead : input.head? = some ')'
    · obtain ⟨tail, rfl⟩ := List.head?_eq_some_iff.mp hhead
      rw [splitParameters?_close]
      constructor
      · exact fun h => .inl ⟨tail, rfl, (Option.some.inj h).symm⟩
      · rintro (⟨rest, hrest, rfl⟩ | ⟨type, rest, -, hinput, -⟩)
        · rw [List.tail_eq_of_cons_eq hrest]
        · rw [hinput, List.head?_append_of_ne_nil _ type.chars_ne_nil] at hhead
          exact absurd hhead type.head?_chars
    · rw [splitParameters?_of_head? fuel found hhead]
      simp only [Option.bind_eq_some_iff, Prod.exists, FieldType.split?_eq_some_iff]
      constructor
      · rintro ⟨type, rest, ⟨hlegible, hinput⟩, hrest⟩
        exact .inr ⟨type, rest, hlegible, hinput, trivial, hrest⟩
      · rintro (⟨rest, rfl, -⟩ | ⟨type, rest, hlegible, hinput, -, hrest⟩)
        · exact absurd rfl hhead
        · exact ⟨type, rest, ⟨hlegible, hinput⟩, hrest⟩

theorem splitParameters?_eq_some_iff (input : List Char) (parameters : List FieldType)
    (rest : List Char) :
    splitParameters? input.length [] input = some (parameters, rest) ↔
      (∀ parameter ∈ parameters, parameter.Legible) ∧
        input = parameters.flatMap FieldType.chars ++ ')' :: rest := by
  rw [collects_splitParameters?.eq_some_iff (fun type _ => type.chars_ne_nil)
    (fun _ _ _ _ => trivial) (fun _ _ _ => trivial) _ _ _ (Nat.le_refl _)]
  constructor
  · rintro ⟨more, last, hmore, hinput, after, rfl, hresult⟩
    cases hresult
    exact ⟨hmore, hinput⟩
  · rintro ⟨hlegible, hinput⟩
    exact ⟨parameters, _, hlegible, hinput, rest, rfl, rfl⟩

theorem resultOfChars?_eq_some_iff (input : List Char) (result : Option FieldType) :
    resultOfChars? input = some result ↔
      (∀ type ∈ result, type.Legible) ∧ input = resultChars result := by
  by_cases hvoid : input = ['V']
  · subst hvoid
    cases result with
    | none => simp [resultOfChars?, resultChars]
    | some type =>
        have hnone : FieldType.ofChars? ['V'] = none := rfl
        have hunread : ¬ (type.Legible ∧ ['V'] = type.chars) := by
          rw [← FieldType.ofChars?_eq_some_iff, hnone]
          simp
        simpa [resultOfChars?, resultChars] using hunread
  · have hread : resultOfChars? input = (FieldType.ofChars? input).map some := by
      unfold resultOfChars?
      split
      · exact absurd rfl hvoid
      · rfl
    rw [hread]
    cases result with
    | none => simp [resultChars, hvoid]
    | some type => simp [resultChars, FieldType.ofChars?_eq_some_iff]

theorem ofChars?_eq_some_iff (input : List Char) (type : MethodType) :
    ofChars? input = some type ↔ type.Legible ∧ input = type.chars := by
  obtain ⟨parameters, result⟩ := type
  constructor
  · intro h
    unfold ofChars? at h
    split at h
    · rename_i input
      simp only [Option.bind_eq_bind, Option.bind_eq_some_iff, Prod.exists] at h
      obtain ⟨found, rest, hfound, read, hread, hresult⟩ := h
      cases hresult
      obtain ⟨hlegible, rfl⟩ := (splitParameters?_eq_some_iff ..).mp hfound
      obtain ⟨hresult, rfl⟩ := (resultOfChars?_eq_some_iff ..).mp hread
      exact ⟨⟨hlegible, hresult⟩, rfl⟩
    · cases h
  · rintro ⟨⟨hparameters, hresult⟩, rfl⟩
    have hread := (resultOfChars?_eq_some_iff _ result).mpr ⟨hresult, rfl⟩
    have hsplit := (splitParameters?_eq_some_iff _ parameters (resultChars result)).mpr
      ⟨hparameters, rfl⟩
    simp only [chars, ofChars?, hsplit, hread, Option.bind_eq_bind, Option.bind_some]
    rfl

theorem ofText?_eq_some_iff (text : String) (type : MethodType) :
    ofText? text = some type ↔ type.Legible ∧ text = type.text := by
  rw [ofText?, ofChars?_eq_some_iff, MethodType.text, ← String.toList_inj, String.toList_ofList]

-- The classes that parameters and result name, in their order.
def classNames (type : MethodType) : List String :=
  (type.parameters ++ type.result.toList).filterMap FieldType.elementName?

theorem legible_iff (type : MethodType) :
    type.Legible ↔ ∀ name ∈ type.classNames, name ≠ "" ∧ ';' ∉ name.toList := by
  have hparts : type.Legible ↔ ∀ part ∈ type.parameters ++ type.result.toList, part.Legible := by
    rw [List.forall_mem_append]
    constructor
    · intro h
      exact ⟨h.parameters, fun result hresult => h.result result (Option.mem_toList.mp hresult)⟩
    · rintro ⟨hparameters, hresult⟩
      exact ⟨hparameters, fun result hmem => hresult result (Option.mem_toList.mpr hmem)⟩
  rw [hparts]
  simp only [FieldType.legible_iff, classNames, List.mem_filterMap, Option.mem_toList]
  constructor
  · rintro h name ⟨part, hpart, hname⟩
    exact h part hpart name hname
  · intro h part hpart name hname
    exact h name ⟨part, hpart, hname⟩

end MethodType

-- Reading and printing undo each other on the types whose class names can be written, which are not
-- empty and hold no semicolon. Nothing but what is printed of such a type is read.
structure Descriptor.Inverse {α : Type} (read : String → Option α) (print : α → String)
    (names : α → List String) : Prop where
  read_iff : ∀ text type, read text = some type ↔
    (∀ name ∈ names type, name ≠ "" ∧ ';' ∉ name.toList) ∧ text = print type
  print_of_read : ∀ text type, read text = some type → print type = text
  read_print : ∀ type, (∀ name ∈ names type, name ≠ "" ∧ ';' ∉ name.toList) →
    read (print type) = some type

theorem Descriptor.inverse_of_read_iff {α : Type} {read : String → Option α} {print : α → String}
    {names : α → List String}
    (h : ∀ text type, read text = some type ↔
      (∀ name ∈ names type, name ≠ "" ∧ ';' ∉ name.toList) ∧ text = print type) :
    Inverse read print names where
  read_iff := h
  print_of_read text type hread := ((h text type).mp hread).2.symm
  read_print type hnames := (h (print type) type).mpr ⟨hnames, rfl⟩

theorem descriptors_inverse :
    Descriptor.Inverse FieldType.ofText? FieldType.text (fun type => type.elementName?.toList) ∧
      Descriptor.Inverse MethodType.ofText? MethodType.text MethodType.classNames ∧
      ∀ (depth : Nat) (text : String),
        FieldType.ofText? (String.ofList (List.replicate depth '[') ++ text) =
          (FieldType.ofText? text).map (Nat.repeat FieldType.array depth) := by
  refine ⟨?_, ?_, FieldType.ofText?_brackets⟩
  · apply Descriptor.inverse_of_read_iff
    intro text type
    rw [FieldType.ofText?_eq_some_iff, FieldType.legible_iff]
  · apply Descriptor.inverse_of_read_iff
    intro text type
    rw [MethodType.ofText?_eq_some_iff, MethodType.legible_iff]

-- A class name may hold the parentheses that delimit the parameters.
example : MethodType.ofText? "(La)b(;[[J)V" =
    some ⟨[.object "a)b(", .array (.array (.base .long))], none⟩ := by
  decide +kernel

-- The local variables that a value takes.
def FieldType.width : FieldType → Nat
  | base .long | base .double => 2
  | _ => 1

-- The local variables that all parameters take together.
def MethodType.width (type : MethodType) : Nat :=
  type.parameters.foldr (fun parameter width => parameter.width + width) 0

theorem FieldType.toNat_slots (type : FieldType) : type.slots.toNat = type.width := by
  cases type with
  | base type => cases type <;> rfl
  | object name | array component => rfl

theorem checkedAdd?_eq (a b : UInt16) :
    checkedAdd? a b =
      if a.toNat + b.toNat ≤ 0xFFFF then some (.ofNat (a.toNat + b.toNat)) else none := by
  rw [checkedAdd?, UInt16.ofNat_add, UInt16.ofNat_toNat, UInt16.ofNat_toNat]

-- Where a sum overflows on the way, it does not fit in the end either.
theorem foldlM_checkedAdd? (sizes : List UInt16) (start : UInt16) :
    sizes.foldlM checkedAdd? start =
      let sum := start.toNat + sizes.foldr (fun size sum => size.toNat + sum) 0
      if sum ≤ 0xFFFF then some (.ofNat sum) else none := by
  induction sizes generalizing start with
  | nil =>
      have hstart : start.toNat ≤ 0xFFFF := Nat.le_of_lt_succ start.toNat_lt
      simp [hstart]
  | cons size sizes ih =>
      rw [List.foldlM_cons, checkedAdd?_eq, List.foldr_cons, ← Nat.add_assoc]
      by_cases hroom : start.toNat + size.toNat ≤ 0xFFFF
      · have hsum : (UInt16.ofNat (start.toNat + size.toNat)).toNat = start.toNat + size.toNat :=
          UInt16.toNat_ofNat_of_lt' (Nat.lt_succ_of_le hroom)
        rw [if_pos hroom, Option.bind_eq_bind, Option.bind_some, ih, hsum]
      · rw [if_neg hroom, if_neg (by omega)]
        rfl

theorem MethodType.slots?_eq (type : MethodType) :
    type.slots? = if type.width ≤ 0xFFFF then some (.ofNat type.width) else none := by
  have hwidth : (type.parameters.map FieldType.slots).foldr (fun size sum => size.toNat + sum) 0 =
      type.width := by
    simp only [List.foldr_map, FieldType.toNat_slots]
    rfl
  rw [slots?, foldlM_checkedAdd?, hwidth, UInt16.toNat_zero, Nat.zero_add]

end ApiUnion
