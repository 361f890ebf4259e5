import ApiUnion.Proofs.Signature.Parsing
import ApiUnion.Signature.Printer

-- Legible signatures: those that can be read back once they are printed. Reading accepts exactly
-- what printing them produces.

namespace ApiUnion

open Signature

def GenericType.IsReference : GenericType → Prop
  | .base _ => False
  | .array _ | .var _ | .classType _ => True

mutual

def GenericType.Legible : GenericType → Prop
  | .base _ => True
  | .array component => component.Legible
  | .var name => IsIdentifier [';'] name
  | .classType segments => segments ≠ [] ∧ LegibleSegments segments

def Segment.Legible : Segment → Prop
  | ⟨name, arguments⟩ => IsIdentifier ['<', '.', ';'] name ∧ LegibleArguments arguments

def TypeArgument.Legible : TypeArgument → Prop
  | .any => True
  | .bounded _ bound => bound.IsReference ∧ bound.Legible

def LegibleSegments : List Segment → Prop
  | [] => True
  | segment :: rest => segment.Legible ∧ LegibleSegments rest

def LegibleArguments : List TypeArgument → Prop
  | [] => True
  | argument :: rest => argument.Legible ∧ LegibleArguments rest

end

-- The levels of a type. The parser of references is given as many as the text has characters.
mutual

def GenericType.depth : GenericType → Nat
  | .base _ => 0
  | .array component => component.depth + 1
  | .var _ => 1
  | .classType segments => segmentsDepth segments + 1

def Segment.depth : Segment → Nat
  | ⟨_, arguments⟩ => argumentsDepth arguments

def TypeArgument.depth : TypeArgument → Nat
  | .any => 0
  | .bounded _ bound => bound.depth

def segmentsDepth : List Segment → Nat
  | [] => 0
  | segment :: rest => max segment.depth (segmentsDepth rest)

def argumentsDepth : List TypeArgument → Nat
  | [] => 0
  | argument :: rest => max argument.depth (argumentsDepth rest)

end

theorem legibleSegments_iff (segments : List Segment) (limit : Nat) :
    LegibleSegments segments ∧ segmentsDepth segments ≤ limit ↔
      ∀ segment ∈ segments, segment.Legible ∧ segment.depth ≤ limit := by
  induction segments with
  | nil => simp [LegibleSegments, segmentsDepth]
  | cons segment segments ih =>
      rw [List.forall_mem_cons, ← ih, LegibleSegments, segmentsDepth, Nat.max_le]
      exact and_and_and_comm

theorem legibleArguments_iff (arguments : List TypeArgument) (limit : Nat) :
    LegibleArguments arguments ∧ argumentsDepth arguments ≤ limit ↔
      ∀ argument ∈ arguments, argument.Legible ∧ argument.depth ≤ limit := by
  induction arguments with
  | nil => simp [LegibleArguments, argumentsDepth]
  | cons argument arguments ih =>
      rw [List.forall_mem_cons, ← ih, LegibleArguments, argumentsDepth, Nat.max_le]
      exact and_and_and_comm

theorem argumentChars_eq_flatMap (arguments : List TypeArgument) :
    argumentChars arguments = arguments.flatMap TypeArgument.chars := by
  induction arguments with
  | nil => rfl
  | cons argument arguments ih => rw [argumentChars, ih, List.flatMap_cons]

theorem Segment.chars_eq (name : String) (arguments : List TypeArgument) :
    Segment.chars ⟨name, arguments⟩ = name.toList ++ bracketed TypeArgument.chars arguments := by
  cases arguments with
  | nil => simp [Segment.chars, bracketed]
  | cons argument rest => simp [Segment.chars, bracketed, argumentChars_eq_flatMap]

theorem segmentChars_cons (segment : Segment) (rest : List Segment) (h : rest ≠ []) :
    segmentChars (segment :: rest) = segment.chars ++ '.' :: segmentChars rest := by
  cases rest with
  | nil => exact absurd rfl h
  | cons next rest => rfl

theorem segmentChars_append (front : List Segment) (last : Segment) :
    segmentChars (front ++ [last]) =
      front.flatMap (fun segment => segment.chars ++ ['.']) ++ last.chars := by
  induction front with
  | nil => rfl
  | cons segment front ih =>
      rw [List.cons_append, segmentChars_cons _ _ (by simp), ih, List.flatMap_cons]
      simp

theorem GenericType.chars_ne_nil (type : GenericType) : type.chars ≠ [] := by
  cases type <;> simp [GenericType.chars]

-- References are announced by their first character.
theorem GenericType.head?_chars (type : GenericType) (h : type.IsReference) :
    type.chars.head? = some 'L' ∨ type.chars.head? = some 'T' ∨ type.chars.head? = some '[' := by
  cases type with
  | base type => exact absurd h id
  | array component => simp [GenericType.chars]
  | var name => simp [GenericType.chars]
  | classType segments => simp [GenericType.chars]

theorem TypeArgument.chars_ne_nil (argument : TypeArgument) : argument.chars ≠ [] := by
  cases argument with
  | any => simp [TypeArgument.chars]
  | bounded variance bound => simp [TypeArgument.chars, bound.chars_ne_nil]

theorem TypeArgument.head?_chars (argument : TypeArgument) (h : argument.Legible) :
    argument.chars.head? ≠ some '>' := by
  cases argument with
  | any => simp [TypeArgument.chars]
  | bounded variance bound =>
      rw [TypeArgument.Legible] at h
      cases variance <;>
        rcases bound.head?_chars h.1 with hbound | hbound | hbound <;>
          simp [TypeArgument.chars, Variance.chars, hbound]

theorem BaseType.letter_of_ofLetter? {c : Char} {base : BaseType}
    (h : BaseType.ofLetter? c = some base) : base.letter = c := by
  unfold ofLetter? at h
  split at h <;> simp only [Option.some.injEq, reduceCtorEq] at h <;> subst h <;> rfl

mutual

theorem GenericType.depth_le : ∀ type : GenericType, type.depth ≤ type.chars.length
  | .base _ => by simp [GenericType.depth]
  | .array component => by
      have h := component.depth_le
      simp only [GenericType.depth, GenericType.chars, List.length_cons]
      omega
  | .var _ => by
      simp only [GenericType.depth, GenericType.chars, List.length_cons]
      omega
  | .classType segments => by
      have h := segmentsDepth_le segments
      simp only [GenericType.depth, GenericType.chars, List.length_cons, List.length_append]
      omega

theorem TypeArgument.depth_le : ∀ argument : TypeArgument,
    argument.depth ≤ argument.chars.length
  | .any => by simp [TypeArgument.depth]
  | .bounded _ bound => by
      have h := bound.depth_le
      simp only [TypeArgument.depth, TypeArgument.chars, List.length_append]
      omega

theorem Segment.depth_le : ∀ segment : Segment, segment.depth ≤ segment.chars.length
  | ⟨_, []⟩ => by simp [Segment.depth, argumentsDepth]
  | ⟨_, argument :: rest⟩ => by
      have h := argumentsDepth_le (argument :: rest)
      simp only [Segment.depth, Segment.chars, List.length_append, List.length_cons]
      omega

theorem segmentsDepth_le : ∀ segments : List Segment,
    segmentsDepth segments ≤ (segmentChars segments).length
  | [] => by simp [segmentsDepth]
  | [segment] => by
      have h := segment.depth_le
      simp only [segmentsDepth, segmentChars]
      omega
  | segment :: next :: rest => by
      have h := segment.depth_le
      have hrest := segmentsDepth_le (next :: rest)
      rw [segmentsDepth, segmentChars_cons segment _ (by simp), List.length_append,
        List.length_cons]
      omega

theorem argumentsDepth_le : ∀ arguments : List TypeArgument,
    argumentsDepth arguments ≤ (argumentChars arguments).length
  | [] => by simp [argumentsDepth]
  | argument :: rest => by
      have h := argument.depth_le
      have hrest := argumentsDepth_le rest
      simp only [argumentsDepth, argumentChars, List.length_append]
      omega

end

namespace Signature

-- References of so many levels.
def Readable (limit : Nat) (type : GenericType) : Prop :=
  type.IsReference ∧ type.Legible ∧ type.depth ≤ limit

variable {reference : Parser GenericType} {limit : Nat}

theorem takes_argument? (h : Takes reference (Readable limit) GenericType.chars Closed) :
    Takes (argument? reference) (fun argument => argument.Legible ∧ argument.depth ≤ limit)
      TypeArgument.chars Closed := by
  intro input argument rest
  constructor
  · intro hread
    unfold argument? at hread
    split at hread
    · simp only [Option.some.injEq, Prod.mk.injEq] at hread
      obtain ⟨rfl, rfl⟩ := hread
      exact ⟨⟨trivial, Nat.zero_le _⟩, rfl, trivial⟩
    all_goals
      simp only [Option.bind_eq_bind, Option.bind_eq_some_iff, Option.pure_def, Option.some.injEq,
        Prod.mk.injEq] at hread
      obtain ⟨⟨bound, tail⟩, hbound, rfl, rfl⟩ := hread
      obtain ⟨⟨href, hlegible, hdepth⟩, rfl, -⟩ := (h _ _ _).mp hbound
      exact ⟨⟨⟨href, hlegible⟩, hdepth⟩, rfl, trivial⟩
  · rintro ⟨⟨hlegible, hdepth⟩, rfl, -⟩
    cases argument with
    | any => rfl
    | bounded variance bound =>
        have hbound := (h (bound.chars ++ rest) bound rest).mpr
          ⟨⟨hlegible.1, hlegible.2, hdepth⟩, rfl, trivial⟩
        cases variance with
        | covariant | contravariant =>
            simp only [TypeArgument.chars, Variance.chars, List.cons_append, List.nil_append,
              argument?, hbound]
            rfl
        | exact =>
            -- A reference starts with a sign of its own, so its variance is not mistaken.
            have hexact : argument? reference (bound.chars ++ rest) =
                (reference (bound.chars ++ rest)).bind fun found =>
                  some (.bounded .exact found.1, found.2) := by
              cases bound with
              | base type => exact absurd hlegible.1 id
              | array component => rfl
              | var name => rfl
              | classType segments => rfl
            simp only [TypeArgument.chars, Variance.chars, List.nil_append, hexact, hbound,
              Option.bind_some]

theorem arguments?_eq_some_iff (h : Takes reference (Readable limit) GenericType.chars Closed)
    (input : List Char) (arguments : List TypeArgument) (rest : List Char) :
    arguments? reference input = some (arguments, rest) ↔
      (∀ argument ∈ arguments, argument.Legible ∧ argument.depth ≤ limit) ∧
        input = bracketed TypeArgument.chars arguments ++ rest ∧
        (arguments = [] → rest.head? ≠ some '<') := by
  have hnone : ∀ input, input.head? ≠ some '<' →
      arguments? reference input = some ([], input) := by
    intro input hhead
    unfold arguments?
    split
    · exact absurd rfl hhead
    · rfl
  rw [inBrackets_eq_some_iff (takes_argument? h) (fun argument _ => argument.chars_ne_nil)
    (fun _ => trivial) (fun _ _ _ => trivial) (fun _ => rfl) hnone]
  refine and_congr_left fun _ => forall₂_congr fun argument _ => ?_
  exact and_iff_left_of_imp fun hlegible => argument.head?_chars hlegible.1

-- A segment in front of a dot or of the end of its type.
theorem segment_eq_some_iff (h : Takes reference (Readable limit) GenericType.chars Closed)
    (input : List Char) (segment : Segment) (c : Char) (hc : c = '.' ∨ c = ';')
    (rest : List Char) :
    (∃ middle, identifier? ['<', '.', ';'] input = some (segment.name, middle) ∧
        arguments? reference middle = some (segment.arguments, c :: rest)) ↔
      (segment.Legible ∧ segment.depth ≤ limit) ∧ input = segment.chars ++ c :: rest := by
  obtain ⟨name, arguments⟩ := segment
  simp only [takes_identifier? ['<', '.', ';'] _ _ _, arguments?_eq_some_iff h, Segment.chars_eq,
    Segment.Legible, Segment.depth, ← legibleArguments_iff]
  constructor
  · rintro ⟨middle, ⟨hname, rfl, -⟩, hlegible, rfl, -⟩
    exact ⟨⟨⟨hname, hlegible.1⟩, hlegible.2⟩, by simp⟩
  · rintro ⟨⟨⟨hname, hlegible⟩, hdepth⟩, rfl⟩
    refine ⟨bracketed TypeArgument.chars arguments ++ c :: rest, ⟨hname, by simp, ?_⟩,
      ⟨hlegible, hdepth⟩, rfl, ?_⟩
    · cases arguments with
      | nil => rcases hc with rfl | rfl <;> simp [bracketed]
      | cons argument arguments => simp [bracketed]
    · rcases hc with rfl | rfl <;> simp

theorem collects_segmentsAfter?
    (h : Takes reference (Readable limit) GenericType.chars Closed) :
    Collects (fun segment : Segment => segment.Legible ∧ segment.depth ≤ limit)
      (fun segment => segment.chars ++ ['.']) Closed
      (fun input values result => ∃ segment rest, (segment.Legible ∧ segment.depth ≤ limit) ∧
        input = segment.chars ++ ';' :: rest ∧ result = (values ++ [segment], rest))
      (segmentsAfter? reference) where
  zero found result := by simp [segmentsAfter?]
  succ fuel found input result := by
    simp only [segmentsAfter?, Option.bind_eq_bind, Option.bind_eq_some_iff]
    constructor
    · rintro ⟨⟨name, middle⟩, hname, ⟨arguments, tail⟩, harguments, hread⟩
      simp only at hread harguments
      split at hread
      · rename_i rest
        obtain ⟨hlegible, rfl⟩ := (segment_eq_some_iff h input ⟨name, arguments⟩ '.'
          (.inl rfl) rest).mp ⟨middle, hname, harguments⟩
        exact .inr ⟨_, rest, hlegible, by simp, trivial, hread⟩
      · rename_i rest
        obtain ⟨hlegible, hinput⟩ := (segment_eq_some_iff h input ⟨name, arguments⟩ ';'
          (.inr rfl) rest).mp ⟨middle, hname, harguments⟩
        rw [List.reverse_cons] at hread
        exact .inl ⟨_, rest, hlegible, hinput, (Option.some.inj hread).symm⟩
      · cases hread
    · rintro (⟨⟨name, arguments⟩, rest, hlegible, hinput, rfl⟩ |
        ⟨⟨name, arguments⟩, rest, hlegible, hinput, -, hrest⟩)
      · obtain ⟨middle, hname, harguments⟩ :=
          (segment_eq_some_iff h input _ ';' (.inr rfl) rest).mpr ⟨hlegible, hinput⟩
        exact ⟨_, hname, _, harguments, by simp⟩
      · obtain ⟨middle, hname, harguments⟩ :=
          (segment_eq_some_iff h input _ '.' (.inl rfl) rest).mpr
            ⟨hlegible, hinput.trans (List.append_assoc _ _ _)⟩
        exact ⟨_, hname, _, harguments, hrest⟩

theorem segmentsAfter?_eq_some_iff
    (h : Takes reference (Readable limit) GenericType.chars Closed) (input : List Char)
    (type : ClassType) (rest : List Char) :
    segmentsAfter? reference input.length [] input = some (type, rest) ↔
      type ≠ [] ∧ (LegibleSegments type ∧ segmentsDepth type ≤ limit) ∧
        input = segmentChars type ++ ';' :: rest := by
  rw [(collects_segmentsAfter? h).eq_some_iff (fun _ _ => by simp) (fun _ _ _ _ => trivial)
    (fun _ _ _ => trivial) _ _ _ (Nat.le_refl _), legibleSegments_iff]
  constructor
  · rintro ⟨more, last, hmore, hinput, segment, after, hlegible, rfl, hresult⟩
    cases hresult
    refine ⟨by simp, List.forall_mem_append.mpr ⟨hmore, List.forall_mem_singleton.mpr hlegible⟩, ?_⟩
    rw [List.reverse_nil, List.nil_append, segmentChars_append, List.append_assoc]
    exact hinput
  · rintro ⟨hne, hlegible, rfl⟩
    obtain ⟨more, segment, rfl⟩ : ∃ more segment, type = more ++ [segment] :=
      ⟨_, _, (List.dropLast_concat_getLast hne).symm⟩
    obtain ⟨hmore, hsegment⟩ := List.forall_mem_append.mp hlegible
    exact ⟨more, _, hmore, by rw [segmentChars_append, List.append_assoc], segment, rest,
      hsegment segment (List.mem_singleton_self _), rfl, rfl⟩

theorem takes_classType? (h : Takes reference (Readable limit) GenericType.chars Closed) :
    Takes (classType? reference)
      (fun type => (GenericType.classType type).Legible ∧ segmentsDepth type ≤ limit)
      ClassType.chars Closed := by
  intro input type rest
  simp only [ClassType.chars, GenericType.chars, GenericType.Legible]
  constructor
  · intro hread
    unfold classType? at hread
    split at hread
    · obtain ⟨hne, ⟨hlegible, hdepth⟩, rfl⟩ := (segmentsAfter?_eq_some_iff h _ _ _).mp hread
      exact ⟨⟨⟨hne, hlegible⟩, hdepth⟩, by simp, trivial⟩
    · cases hread
  · rintro ⟨⟨⟨hne, hlegible⟩, hdepth⟩, rfl, -⟩
    rw [List.cons_append, classType?]
    exact (segmentsAfter?_eq_some_iff h _ _ _).mpr ⟨hne, ⟨hlegible, hdepth⟩, by simp⟩

theorem takes_anyType? (h : Takes reference (Readable limit) GenericType.chars Closed) :
    Takes (anyType? reference) (fun type => type.Legible ∧ type.depth ≤ limit) GenericType.chars
      Closed := by
  intro input type rest
  constructor
  · intro hread
    cases input with
    | nil => cases hread
    | cons c input =>
        simp only [anyType?] at hread
        split at hread
        · rename_i base hbase
          simp only [Option.some.injEq, Prod.mk.injEq] at hread
          obtain ⟨rfl, rfl⟩ := hread
          refine ⟨⟨trivial, Nat.zero_le _⟩, ?_, trivial⟩
          rw [GenericType.chars, BaseType.letter_of_ofLetter? hbase]
          rfl
        · obtain ⟨⟨-, hlegible, hdepth⟩, hinput, -⟩ := (h _ _ _).mp hread
          exact ⟨⟨hlegible, hdepth⟩, hinput, trivial⟩
  · rintro ⟨⟨hlegible, hdepth⟩, rfl, -⟩
    cases type with
    | base base => simp [anyType?, GenericType.chars, BaseType.ofLetter?_letter]
    | array component =>
        exact (h _ _ _).mpr ⟨⟨trivial, hlegible, hdepth⟩, rfl, trivial⟩
    | var name => exact (h _ _ _).mpr ⟨⟨trivial, hlegible, hdepth⟩, rfl, trivial⟩
    | classType segments => exact (h _ _ _).mpr ⟨⟨trivial, hlegible, hdepth⟩, rfl, trivial⟩

theorem takes_referenceWith? (h : Takes reference (Readable limit) GenericType.chars Closed) :
    Takes (referenceWith? reference) (Readable (limit + 1)) GenericType.chars Closed := by
  intro input type rest
  constructor
  · intro hread
    unfold referenceWith? at hread
    split at hread
    · simp only [Option.bind_eq_bind, Option.bind_eq_some_iff, Option.pure_def, Option.some.injEq,
        Prod.mk.injEq] at hread
      obtain ⟨⟨name, tail⟩, hname, after, hafter, rfl, rfl⟩ := hread
      obtain rfl := (expect?_eq_some_iff _ _ _).mp hafter
      obtain ⟨hlegible, rfl, -⟩ := (takes_identifier? [';'] _ _ _).mp hname
      exact ⟨⟨trivial, hlegible, Nat.le_add_left 1 limit⟩, by simp [GenericType.chars], trivial⟩
    · simp only [Option.bind_eq_bind, Option.bind_eq_some_iff, Option.pure_def, Option.some.injEq,
        Prod.mk.injEq] at hread
      obtain ⟨⟨component, tail⟩, hcomponent, rfl, rfl⟩ := hread
      obtain ⟨⟨hlegible, hdepth⟩, rfl, -⟩ := (takes_anyType? h _ _ _).mp hcomponent
      exact ⟨⟨trivial, hlegible, Nat.succ_le_succ hdepth⟩, rfl, trivial⟩
    · simp only [Option.bind_eq_bind, Option.bind_eq_some_iff, Option.pure_def, Option.some.injEq,
        Prod.mk.injEq] at hread
      obtain ⟨⟨segments, tail⟩, hsegments, rfl, rfl⟩ := hread
      obtain ⟨⟨hlegible, hdepth⟩, hinput, -⟩ := (takes_classType? h _ _ _).mp hsegments
      exact ⟨⟨trivial, hlegible, Nat.succ_le_succ hdepth⟩, hinput, trivial⟩
  · rintro ⟨⟨href, hlegible, hdepth⟩, rfl, -⟩
    cases type with
    | base base => exact absurd href id
    | array component =>
        have hcomponent := (takes_anyType? h (component.chars ++ rest) component rest).mpr
          ⟨⟨hlegible, Nat.le_of_succ_le_succ hdepth⟩, rfl, trivial⟩
        simp [GenericType.chars, referenceWith?, hcomponent]
    | var name =>
        have hname := (takes_identifier? [';'] (name.toList ++ ';' :: rest) name (';' :: rest)).mpr
          ⟨hlegible, rfl, ';', rfl, by simp⟩
        simp [GenericType.chars, referenceWith?, hname, expect?]
    | classType segments =>
        have hsegments := (takes_classType? h (ClassType.chars segments ++ rest) segments rest).mpr
          ⟨⟨hlegible, Nat.le_of_succ_le_succ hdepth⟩, rfl, trivial⟩
        have hread : referenceWith? reference (ClassType.chars segments ++ rest) =
            (classType? reference (ClassType.chars segments ++ rest)).bind fun found =>
              some (.classType found.1, found.2) := rfl
        exact hread.trans (by rw [hsegments, Option.bind_some])

theorem takes_reference? (limit : Nat) :
    Takes (reference? limit) (Readable limit) GenericType.chars Closed := by
  induction limit with
  | zero =>
      intro input type rest
      constructor
      · intro hread
        cases hread
      · rintro ⟨⟨href, -, hdepth⟩, -⟩
        cases type with
        | base base => exact absurd href id
        | array component | classType segments => simp [GenericType.depth] at hdepth
        | var name => simp [GenericType.depth] at hdepth
  | succ limit ih => exact takes_referenceWith? ih

end Signature

end ApiUnion
