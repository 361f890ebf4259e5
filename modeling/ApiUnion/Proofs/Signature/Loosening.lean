import Mathlib.Order.Bounds.Basic
import ApiUnion.Signature.Join

-- Loosening: when a type can be used where a looser one is written. Only type arguments get looser.
-- Joins are least upper bounds in this order.

namespace ApiUnion

def GenericType.object : GenericType :=
  .classType [⟨"java/lang/Object", []⟩]

mutual

inductive GenericType.Loosens : GenericType → GenericType → Prop
  | base (type : BaseType) : GenericType.Loosens (.base type) (.base type)
  | var (name : String) : GenericType.Loosens (.var name) (.var name)
  | array {a b : GenericType} (h : GenericType.Loosens a b) :
      GenericType.Loosens (.array a) (.array b)
  | classType {xs ys : List Segment} (h : SegmentsLoosen xs ys) :
      GenericType.Loosens (.classType xs) (.classType ys)

-- Everything lies below the wildcard and below a bound by `Object`. An exact argument is also below
-- every bound by a looser type.
inductive TypeArgument.Loosens : TypeArgument → TypeArgument → Prop
  | any (p : TypeArgument) : TypeArgument.Loosens p .any
  | object (p : TypeArgument) : TypeArgument.Loosens p (.bounded .covariant .object)
  | exact (variance : Variance) {a b : GenericType} (h : GenericType.Loosens a b) :
      TypeArgument.Loosens (.bounded .exact a) (.bounded variance b)
  | bounded (variance : Variance) {a b : GenericType} (h : GenericType.Loosens a b) :
      TypeArgument.Loosens (.bounded variance a) (.bounded variance b)

inductive SegmentsLoosen : List Segment → List Segment → Prop
  | nil : SegmentsLoosen [] []
  | cons (name : String) {ps qs : List TypeArgument} {xs ys : List Segment}
      (h : ArgumentsLoosen ps qs) (hrest : SegmentsLoosen xs ys) :
      SegmentsLoosen (⟨name, ps⟩ :: xs) (⟨name, qs⟩ :: ys)

inductive ArgumentsLoosen : List TypeArgument → List TypeArgument → Prop
  | nil : ArgumentsLoosen [] []
  | cons {p q : TypeArgument} {ps qs : List TypeArgument} (h : TypeArgument.Loosens p q)
      (hrest : ArgumentsLoosen ps qs) : ArgumentsLoosen (p :: ps) (q :: qs)

end

mutual

theorem GenericType.Loosens.refl : ∀ a : GenericType, a.Loosens a
  | .base type => .base type
  | .var name => .var name
  | .array component => .array (GenericType.Loosens.refl component)
  | .classType segments => .classType (SegmentsLoosen.refl segments)

theorem TypeArgument.Loosens.refl : ∀ p : TypeArgument, p.Loosens p
  | .any => .any .any
  | .bounded variance bound => .bounded variance (GenericType.Loosens.refl bound)

theorem SegmentsLoosen.refl : ∀ xs : List Segment, SegmentsLoosen xs xs
  | [] => .nil
  | ⟨name, arguments⟩ :: rest =>
      .cons name (ArgumentsLoosen.refl arguments) (SegmentsLoosen.refl rest)

theorem ArgumentsLoosen.refl : ∀ ps : List TypeArgument, ArgumentsLoosen ps ps
  | [] => .nil
  | argument :: rest =>
      .cons (TypeArgument.Loosens.refl argument) (ArgumentsLoosen.refl rest)

end

-- Nothing is looser than `Object` among types.
theorem GenericType.eq_object_of_loosens {b : GenericType} (h : GenericType.object.Loosens b) :
    b = .object := by
  cases h with
  | classType h =>
      cases h with
      | cons name h hrest =>
          cases h
          cases hrest
          rfl

mutual

theorem GenericType.Loosens.trans :
    ∀ {a b c : GenericType}, a.Loosens b → b.Loosens c → a.Loosens c
  | _, _, _, .base _, h => h
  | _, _, _, .var _, h => h
  | _, _, _, .array h, .array h' => .array (h.trans h')
  | _, _, _, .classType h, .classType h' => .classType (h.trans h')

theorem TypeArgument.Loosens.trans :
    ∀ {p q r : TypeArgument}, p.Loosens q → q.Loosens r → p.Loosens r
  | p, _, _, _, .any _ => .any p
  | p, _, _, _, .object _ => .object p
  | _, _, _, .exact _ h, .exact variance h' => .exact variance (h.trans h')
  | _, _, _, .exact _ h, .bounded variance h' => .exact variance (h.trans h')
  | _, _, _, .bounded _ h, .exact variance h' => .exact variance (h.trans h')
  | _, _, _, .bounded _ h, .bounded variance h' => .bounded variance (h.trans h')
  | p, _, _, .object _, .bounded _ h' => by
      rw [GenericType.eq_object_of_loosens h']
      exact .object p

theorem SegmentsLoosen.trans :
    ∀ {xs ys zs : List Segment}, SegmentsLoosen xs ys → SegmentsLoosen ys zs → SegmentsLoosen xs zs
  | _, _, _, .nil, h => h
  | _, _, _, .cons name h hrest, .cons _ h' hrest' =>
      .cons name (h.trans h') (hrest.trans hrest')

theorem ArgumentsLoosen.trans :
    ∀ {ps qs rs : List TypeArgument},
      ArgumentsLoosen ps qs → ArgumentsLoosen qs rs → ArgumentsLoosen ps rs
  | _, _, _, .nil, h => h
  | _, _, _, .cons h hrest, .cons h' hrest' => .cons (h.trans h') (hrest.trans hrest')

end

instance : Preorder GenericType where
  le := GenericType.Loosens
  le_refl := GenericType.Loosens.refl
  le_trans _ _ _ := GenericType.Loosens.trans

instance : Preorder TypeArgument where
  le := TypeArgument.Loosens
  le_refl := TypeArgument.Loosens.refl
  le_trans _ _ _ := TypeArgument.Loosens.trans

theorem GenericType.isObject_iff (a : GenericType) : a.isObject = true ↔ a = .object := by
  constructor
  · intro h
    unfold isObject at h
    split at h
    · rw [of_decide_eq_true h]
      rfl
    · cases h
  · rintro rfl
    rfl

theorem TypeArgument.joinBounds_comm (v w : Variance) (a b : GenericType)
    (join : Option GenericType) : joinBounds v a w b join = joinBounds w b v a join := by
  cases v <;> cases w <;> rfl

-- One case for each pair of constructors, here and below, as in the join itself.
mutual

theorem GenericType.join?_comm : ∀ a b : GenericType, a.join? b = b.join? a
  | .base a, .base b => by
      by_cases h : a = b
      · rw [h]
      · simp only [GenericType.join?, if_neg h, if_neg (Ne.symm h)]
  | .var a, .var b => by
      by_cases h : a = b
      · rw [h]
      · simp only [GenericType.join?, if_neg h, if_neg (Ne.symm h)]
  | .array a, .array b => by simp only [GenericType.join?, GenericType.join?_comm a b]
  | .classType a, .classType b => by simp only [GenericType.join?, joinSegments?_comm a b]
  | .base _, .var _ | .base _, .array _ | .base _, .classType _ => by simp only [GenericType.join?]
  | .var _, .base _ | .var _, .array _ | .var _, .classType _ => by simp only [GenericType.join?]
  | .array _, .base _ | .array _, .var _ | .array _, .classType _ => by
      simp only [GenericType.join?]
  | .classType _, .base _ | .classType _, .var _ | .classType _, .array _ => by
      simp only [GenericType.join?]

theorem Segment.join?_comm : ∀ x y : Segment, x.join? y = y.join? x
  | ⟨a, ps⟩, ⟨b, qs⟩ => by
      by_cases h : a = b
      · simp only [Segment.join?, h, joinArguments?_comm ps qs]
      · simp only [Segment.join?, if_neg h, if_neg (Ne.symm h)]

theorem TypeArgument.join_comm : ∀ p q : TypeArgument, p.join q = q.join p
  | .bounded v a, .bounded w b => by
      simp only [TypeArgument.join, GenericType.join?_comm a b, TypeArgument.joinBounds_comm v w]
  | .any, .any | .any, .bounded _ _ | .bounded _ _, .any => by simp only [TypeArgument.join]

theorem joinSegments?_comm : ∀ xs ys : List Segment, joinSegments? xs ys = joinSegments? ys xs
  | [], [] | [], _ :: _ | _ :: _, [] => by simp only [joinSegments?]
  | x :: xs, y :: ys => by
      simp only [joinSegments?, Segment.join?_comm x y, joinSegments?_comm xs ys]

theorem joinArguments?_comm : ∀ ps qs : List TypeArgument,
    joinArguments? ps qs = joinArguments? qs ps
  | [], [] | [], _ :: _ | _ :: _, [] => by simp only [joinArguments?]
  | p :: ps, q :: qs => by
      simp only [joinArguments?, TypeArgument.join_comm p q, joinArguments?_comm ps qs]

end

theorem Segment.join?_eq_some (a b : String) (ps qs : List TypeArgument) (z : Segment) :
    Segment.join? ⟨a, ps⟩ ⟨b, qs⟩ = some z ↔
      a = b ∧ ∃ rs, joinArguments? ps qs = some rs ∧ z = ⟨a, rs⟩ := by
  simp only [Segment.join?, Option.ite_none_right_eq_some, Option.map_eq_some_iff]
  simp only [eq_comm]

theorem joinSegments?_cons_eq_some (x y : Segment) (xs ys zs : List Segment) :
    joinSegments? (x :: xs) (y :: ys) = some zs ↔
      ∃ z rest, x.join? y = some z ∧ joinSegments? xs ys = some rest ∧ zs = z :: rest := by
  simp only [joinSegments?, Option.bind_eq_bind, Option.bind_eq_some_iff, Option.pure_def,
    Option.some.injEq]
  constructor
  · rintro ⟨z, hz, rest, hrest, rfl⟩
    exact ⟨z, rest, hz, hrest, rfl⟩
  · rintro ⟨z, rest, hz, hrest, rfl⟩
    exact ⟨z, hz, rest, hrest, rfl⟩

theorem joinArguments?_cons_eq_some (p q : TypeArgument) (ps qs rs : List TypeArgument) :
    joinArguments? (p :: ps) (q :: qs) = some rs ↔
      ∃ rest, joinArguments? ps qs = some rest ∧ rs = p.join q :: rest := by
  simp only [joinArguments?, Option.bind_eq_bind, Option.bind_eq_some_iff, Option.pure_def,
    Option.some.injEq]
  simp only [eq_comm]

-- An argument lies below its join with another one if that holds of the bounds.
theorem TypeArgument.loosens_joinBounds (v w : Variance) (a b : GenericType)
    (join : Option GenericType) (h : ∀ c, join = some c → a.Loosens c) :
    (TypeArgument.bounded v a).Loosens (joinBounds v a w b join) := by
  cases join with
  | some c =>
      have hc := h c rfl
      cases v with
      | exact =>
          cases w with
          | exact | covariant | contravariant => exact .exact _ hc
      | covariant =>
          cases w with
          | exact | covariant => exact .bounded _ hc
          | contravariant => exact .any _
      | contravariant =>
          cases w with
          | exact | contravariant => exact .bounded _ hc
          | covariant => exact .any _
  | none =>
      have hwide : ∀ bound : GenericType, (TypeArgument.bounded v a).Loosens
          (if bound.isObject then .bounded .covariant bound else .any) := by
        intro bound
        split
        · rename_i hobject
          rw [bound.isObject_iff.mp hobject]
          exact .object _
        · exact .any _
      cases v <;> cases w <;> first | exact .any _ | exact hwide _

mutual

theorem GenericType.loosens_join? : ∀ a b c : GenericType, a.join? b = some c → a.Loosens c
  | .base a, .base b, c, h => by
      simp only [GenericType.join?, Option.ite_none_right_eq_some, Option.some.injEq] at h
      rw [← h.2]
      exact .base a
  | .var a, .var b, c, h => by
      simp only [GenericType.join?, Option.ite_none_right_eq_some, Option.some.injEq] at h
      rw [← h.2]
      exact .var a
  | .array a, .array b, c, h => by
      simp only [GenericType.join?, Option.map_eq_some_iff] at h
      obtain ⟨d, hd, rfl⟩ := h
      exact .array (GenericType.loosens_join? a b d hd)
  | .classType a, .classType b, c, h => by
      simp only [GenericType.join?, Option.map_eq_some_iff] at h
      obtain ⟨d, hd, rfl⟩ := h
      exact .classType (loosen_joinSegments? a b d hd)
  | .base _, .var _, _, h | .base _, .array _, _, h | .base _, .classType _, _, h => by
      simp [GenericType.join?] at h
  | .var _, .base _, _, h | .var _, .array _, _, h | .var _, .classType _, _, h => by
      simp [GenericType.join?] at h
  | .array _, .base _, _, h | .array _, .var _, _, h | .array _, .classType _, _, h => by
      simp [GenericType.join?] at h
  | .classType _, .base _, _, h | .classType _, .var _, _, h | .classType _, .array _, _, h => by
      simp [GenericType.join?] at h

theorem TypeArgument.loosens_join : ∀ p q : TypeArgument, p.Loosens (p.join q)
  | .bounded v a, .bounded w b => by
      simp only [TypeArgument.join]
      exact TypeArgument.loosens_joinBounds v w a b _ fun c => GenericType.loosens_join? a b c
  | .any, .any | .any, .bounded _ _ | .bounded _ _, .any => by
      simp only [TypeArgument.join]
      exact .any _

theorem loosen_joinSegments? : ∀ xs ys zs : List Segment, joinSegments? xs ys = some zs →
    SegmentsLoosen xs zs
  | [], [], zs, h => by
      simp only [joinSegments?, Option.some.injEq] at h
      rw [← h]
      exact .nil
  | [], _ :: _, _, h | _ :: _, [], _, h => by simp [joinSegments?] at h
  | ⟨a, ps⟩ :: xs, ⟨b, qs⟩ :: ys, zs, h => by
      obtain ⟨z, rest, hz, hrest, rfl⟩ := (joinSegments?_cons_eq_some _ _ _ _ _).mp h
      obtain ⟨-, rs, hrs, rfl⟩ := (Segment.join?_eq_some _ _ _ _ _).mp hz
      exact .cons a (loosen_joinArguments? ps qs rs hrs) (loosen_joinSegments? xs ys rest hrest)

theorem loosen_joinArguments? : ∀ ps qs rs : List TypeArgument, joinArguments? ps qs = some rs →
    ArgumentsLoosen ps rs
  | [], [], rs, h => by
      simp only [joinArguments?, Option.some.injEq] at h
      rw [← h]
      exact .nil
  | [], _ :: _, _, h | _ :: _, [], _, h => by simp [joinArguments?] at h
  | p :: ps, q :: qs, rs, h => by
      obtain ⟨rest, hrest, rfl⟩ := (joinArguments?_cons_eq_some _ _ _ _ _).mp h
      exact .cons (TypeArgument.loosens_join p q) (loosen_joinArguments? ps qs rest hrest)

end

-- The join of two bounded arguments lies below all that both lie below, if that holds of the
-- bounds.
theorem TypeArgument.joinBounds_loosens (v w : Variance) (a b : GenericType)
    (join : Option GenericType) (r : TypeArgument)
    (h : ∀ d, a.Loosens d → b.Loosens d → ∃ c, join = some c ∧ c.Loosens d)
    (hp : (TypeArgument.bounded v a).Loosens r) (hq : (TypeArgument.bounded w b).Loosens r) :
    (joinBounds v a w b join).Loosens r := by
  cases hp with
  | any => exact .any _
  | object => exact .object _
  | exact u ha =>
      cases hq with
      | object => exact .object _
      | exact _ hb =>
          obtain ⟨c, rfl, hc⟩ := h _ ha hb
          exact .exact u hc
      | bounded _ hb =>
          obtain ⟨c, rfl, hc⟩ := h _ ha hb
          cases w <;> exact .bounded _ hc
  | bounded _ ha =>
      cases hq with
      | object => exact .object _
      | exact _ hb =>
          obtain ⟨c, rfl, hc⟩ := h _ ha hb
          cases v <;> exact .bounded _ hc
      | bounded _ hb =>
          obtain ⟨c, rfl, hc⟩ := h _ ha hb
          cases v <;> exact .bounded _ hc

mutual

theorem GenericType.join?_of_loosens : ∀ a b d : GenericType, a.Loosens d → b.Loosens d →
    ∃ c, a.join? b = some c ∧ c.Loosens d
  | _, _, _, .base type, .base _ => ⟨.base type, by simp [GenericType.join?], .base type⟩
  | _, _, _, .var name, .var _ => ⟨.var name, by simp [GenericType.join?], .var name⟩
  | .array a, .array b, .array d, .array ha, .array hb => by
      obtain ⟨c, hc, hd⟩ := GenericType.join?_of_loosens a b d ha hb
      exact ⟨.array c, by rw [GenericType.join?, hc, Option.map_some], .array hd⟩
  | .classType a, .classType b, .classType d, .classType ha, .classType hb => by
      obtain ⟨c, hc, hd⟩ := joinSegments?_of_loosen a b d ha hb
      exact ⟨.classType c, by rw [GenericType.join?, hc, Option.map_some], .classType hd⟩

theorem TypeArgument.join_loosens : ∀ p q r : TypeArgument, p.Loosens r → q.Loosens r →
    (p.join q).Loosens r
  | .bounded v a, .bounded w b, r, hp, hq => by
      simp only [TypeArgument.join]
      exact TypeArgument.joinBounds_loosens v w a b _ r
        (fun d => GenericType.join?_of_loosens a b d) hp hq
  | .any, .any, _, hp, _ | .any, .bounded _ _, _, hp, _ => by
      simpa only [TypeArgument.join] using hp
  | .bounded _ _, .any, _, _, hq => by simpa only [TypeArgument.join] using hq

theorem joinSegments?_of_loosen : ∀ xs ys ds : List Segment,
    SegmentsLoosen xs ds → SegmentsLoosen ys ds →
      ∃ zs, joinSegments? xs ys = some zs ∧ SegmentsLoosen zs ds
  | [], [], [], .nil, .nil => ⟨[], by simp only [joinSegments?], .nil⟩
  | [], _ :: _, _, .nil, h | _ :: _, [], _, h, .nil => by cases h
  | ⟨_, ps⟩ :: xs, ⟨_, qs⟩ :: ys, ⟨_, rs⟩ :: ds, .cons name hx hxs, .cons _ hy hys => by
      obtain ⟨ts, hts, hrs⟩ := joinArguments?_of_loosen ps qs rs hx hy
      obtain ⟨zs, hzs, hds⟩ := joinSegments?_of_loosen xs ys ds hxs hys
      refine ⟨⟨name, ts⟩ :: zs, ?_, .cons name hrs hds⟩
      exact (joinSegments?_cons_eq_some _ _ _ _ _).mpr
        ⟨_, zs, (Segment.join?_eq_some _ _ _ _ _).mpr ⟨rfl, ts, hts, rfl⟩, hzs, rfl⟩

theorem joinArguments?_of_loosen : ∀ ps qs ds : List TypeArgument,
    ArgumentsLoosen ps ds → ArgumentsLoosen qs ds →
      ∃ rs, joinArguments? ps qs = some rs ∧ ArgumentsLoosen rs ds
  | [], [], [], .nil, .nil => ⟨[], by simp only [joinArguments?], .nil⟩
  | [], _ :: _, _, .nil, h | _ :: _, [], _, h, .nil => by cases h
  | p :: ps, q :: qs, d :: ds, .cons hp hps, .cons hq hqs => by
      obtain ⟨rs, hrs, hds⟩ := joinArguments?_of_loosen ps qs ds hps hqs
      refine ⟨p.join q :: rs, ?_, .cons (TypeArgument.join_loosens p q d hp hq) hds⟩
      exact (joinArguments?_cons_eq_some _ _ _ _ _).mpr ⟨rs, hrs, rfl⟩

end

mutual

theorem GenericType.join?_self : ∀ a : GenericType, a.join? a = some a
  | .base _ | .var _ => by simp [GenericType.join?]
  | .array a => by simp only [GenericType.join?, GenericType.join?_self a, Option.map_some]
  | .classType a => by simp only [GenericType.join?, joinSegments?_self a, Option.map_some]

theorem TypeArgument.join_self : ∀ p : TypeArgument, p.join p = p
  | .any => by simp only [TypeArgument.join]
  | .bounded v a => by
      simp only [TypeArgument.join, GenericType.join?_self a]
      cases v <;> rfl

theorem joinSegments?_self : ∀ xs : List Segment, joinSegments? xs xs = some xs
  | [] => by simp only [joinSegments?]
  | ⟨name, ps⟩ :: xs =>
      (joinSegments?_cons_eq_some _ _ _ _ _).mpr ⟨_, xs, (Segment.join?_eq_some _ _ _ _ _).mpr
        ⟨rfl, ps, joinArguments?_self ps, rfl⟩, joinSegments?_self xs, rfl⟩

theorem joinArguments?_self : ∀ ps : List TypeArgument, joinArguments? ps ps = some ps
  | [] => by simp only [joinArguments?]
  | p :: ps => (joinArguments?_cons_eq_some _ _ _ _ _).mpr
      ⟨ps, joinArguments?_self ps, by rw [TypeArgument.join_self p]⟩

end

theorem TypeArgument.joinBounds_absorb (v w : Variance) (a b : GenericType)
    (h : ∀ c, a.join? b = some c → c.join? a = some c) :
    (joinBounds v a w b (a.join? b)).join (.bounded v a) = joinBounds v a w b (a.join? b) := by
  cases hjoin : a.join? b with
  | some c =>
      have hc := h c hjoin
      cases v <;> cases w <;> simp [joinBounds, TypeArgument.join, hc]
  | none =>
      have hflip : b.join? a = none := by rw [GenericType.join?_comm, hjoin]
      cases v <;> cases w <;>
        simp only [joinBounds, Option.elim_none, TypeArgument.join]
      · split
        · simp [TypeArgument.join, joinBounds, *]
        · simp only [TypeArgument.join]
      · split
        · simp [TypeArgument.join, GenericType.join?_self, joinBounds]
        · simp only [TypeArgument.join]

mutual

theorem GenericType.join?_absorb : ∀ a b c : GenericType, a.join? b = some c → c.join? a = some c
  | .base a, .base b, c, h => by
      simp only [GenericType.join?, Option.ite_none_right_eq_some, Option.some.injEq] at h
      rw [← h.2, GenericType.join?_self]
  | .var a, .var b, c, h => by
      simp only [GenericType.join?, Option.ite_none_right_eq_some, Option.some.injEq] at h
      rw [← h.2, GenericType.join?_self]
  | .array a, .array b, c, h => by
      simp only [GenericType.join?, Option.map_eq_some_iff] at h
      obtain ⟨d, hd, rfl⟩ := h
      simp only [GenericType.join?, GenericType.join?_absorb a b d hd, Option.map_some]
  | .classType a, .classType b, c, h => by
      simp only [GenericType.join?, Option.map_eq_some_iff] at h
      obtain ⟨d, hd, rfl⟩ := h
      simp only [GenericType.join?, joinSegments?_absorb a b d hd, Option.map_some]
  | .base _, .var _, _, h | .base _, .array _, _, h | .base _, .classType _, _, h => by
      simp [GenericType.join?] at h
  | .var _, .base _, _, h | .var _, .array _, _, h | .var _, .classType _, _, h => by
      simp [GenericType.join?] at h
  | .array _, .base _, _, h | .array _, .var _, _, h | .array _, .classType _, _, h => by
      simp [GenericType.join?] at h
  | .classType _, .base _, _, h | .classType _, .var _, _, h | .classType _, .array _, _, h => by
      simp [GenericType.join?] at h

theorem TypeArgument.join_absorb : ∀ p q : TypeArgument, (p.join q).join p = p.join q
  | .bounded v a, .bounded w b => by
      simp only [TypeArgument.join.eq_1]
      exact TypeArgument.joinBounds_absorb v w a b fun c => GenericType.join?_absorb a b c
  | .any, .any | .any, .bounded _ _ | .bounded _ _, .any => by simp only [TypeArgument.join]

theorem joinSegments?_absorb : ∀ xs ys zs : List Segment, joinSegments? xs ys = some zs →
    joinSegments? zs xs = some zs
  | [], [], zs, h => by
      simp only [joinSegments?, Option.some.injEq] at h
      rw [← h, joinSegments?_self]
  | [], _ :: _, _, h | _ :: _, [], _, h => by simp [joinSegments?] at h
  | ⟨a, ps⟩ :: xs, ⟨b, qs⟩ :: ys, zs, h => by
      obtain ⟨z, rest, hz, hrest, rfl⟩ := (joinSegments?_cons_eq_some _ _ _ _ _).mp h
      obtain ⟨-, rs, hrs, rfl⟩ := (Segment.join?_eq_some _ _ _ _ _).mp hz
      refine (joinSegments?_cons_eq_some _ _ _ _ _).mpr ⟨_, rest, ?_,
        joinSegments?_absorb xs ys rest hrest, rfl⟩
      exact (Segment.join?_eq_some _ _ _ _ _).mpr
        ⟨rfl, rs, joinArguments?_absorb ps qs rs hrs, rfl⟩

theorem joinArguments?_absorb : ∀ ps qs rs : List TypeArgument, joinArguments? ps qs = some rs →
    joinArguments? rs ps = some rs
  | [], [], rs, h => by
      simp only [joinArguments?, Option.some.injEq] at h
      rw [← h, joinArguments?_self]
  | [], _ :: _, _, h | _ :: _, [], _, h => by simp [joinArguments?] at h
  | p :: ps, q :: qs, rs, h => by
      obtain ⟨rest, hrest, rfl⟩ := (joinArguments?_cons_eq_some _ _ _ _ _).mp h
      exact (joinArguments?_cons_eq_some _ _ _ _ _).mpr
        ⟨rest, joinArguments?_absorb ps qs rest hrest, by rw [TypeArgument.join_absorb p q]⟩

end

theorem GenericType.isLUB_join? (a b c : GenericType) (h : a.join? b = some c) :
    IsLUB {a, b} c := by
  constructor
  · rintro d (rfl | rfl)
    · exact GenericType.loosens_join? d b c h
    · exact GenericType.loosens_join? d a c (by rw [GenericType.join?_comm, h])
  · intro d hd
    obtain ⟨c', hc', hle⟩ := GenericType.join?_of_loosens a b d (hd (.inl rfl)) (hd (.inr rfl))
    rw [h] at hc'
    obtain rfl := Option.some.inj hc'
    exact hle

theorem GenericType.isSome_join? (a b : GenericType) :
    (a.join? b).isSome ↔ BddAbove {a, b} := by
  constructor
  · intro h
    obtain ⟨c, hc⟩ := Option.isSome_iff_exists.mp h
    exact ⟨c, (GenericType.isLUB_join? a b c hc).1⟩
  · rintro ⟨d, hd⟩
    obtain ⟨c, hc, -⟩ := GenericType.join?_of_loosens a b d (hd (.inl rfl)) (hd (.inr rfl))
    rw [hc, Option.isSome_some]

theorem TypeArgument.isLUB_join (p q : TypeArgument) : IsLUB {p, q} (p.join q) := by
  constructor
  · rintro r (rfl | rfl)
    · exact TypeArgument.loosens_join r q
    · rw [TypeArgument.join_comm]
      exact TypeArgument.loosens_join r p
  · intro r hr
    exact TypeArgument.join_loosens p q r (hr (.inl rfl)) (hr (.inr rfl))

-- Joins are least upper bounds, of types that have an upper bound and of all arguments. The order
-- of what is joined does not matter, nor does joining it again.
theorem join_leastUpperBound :
    (∀ a b : GenericType, ((a.join? b).isSome ↔ BddAbove {a, b}) ∧
      (∀ c, a.join? b = some c → IsLUB {a, b} c ∧ c.join? a = some c) ∧ a.join? b = b.join? a) ∧
    ∀ p q : TypeArgument, IsLUB {p, q} (p.join q) ∧ p.join q = q.join p ∧
      (p.join q).join p = p.join q := by
  constructor
  · intro a b
    refine ⟨GenericType.isSome_join? a b, fun c hc => ?_, GenericType.join?_comm a b⟩
    exact ⟨GenericType.isLUB_join? a b c hc, GenericType.join?_absorb a b c hc⟩
  · intro p q
    exact ⟨TypeArgument.isLUB_join p q, TypeArgument.join_comm p q, TypeArgument.join_absorb p q⟩

def GenericType.listOf (argument : TypeArgument) : GenericType :=
  .classType [⟨"java/util/List", [argument]⟩]

-- A list of lists of one variable and a list of some lists of another.
theorem join_leastUpperBound_lists :
    IsLUB {GenericType.listOf (.bounded .exact (.listOf (.bounded .exact (.var "K")))),
        .listOf (.bounded .covariant (.listOf (.bounded .exact (.var "V"))))}
      (GenericType.listOf (.bounded .covariant (.listOf .any))) :=
  ((join_leastUpperBound.1 _ _).2.1 _ (by decide +kernel)).1

end ApiUnion
