import LSystem.Drawing
import LSystem.Proofs.Number.Order

/-!
# The box around a drawing

The bounds of a drawing are found in one pass over its points: the first point is a box, and each
further point stretches the box as far as needed. Along each axis the sides of a box are then the
least and the greatest coordinate of the points seen so far (`TightBox.insert`), in whatever order
they come. All this is about comparisons, and these go wrong with coordinates that are not numbers;
infinities do no harm.

The main statement is `bounds_tight`.
-/

namespace LSystem

inductive Axis where
  | x
  | y
  | z

namespace Vec3

/-- The coordinate of a point along an axis. -/
def along (v : Vec3) : Axis → Float32
  | .x => v.x
  | .y => v.y
  | .z => v.z

/-- All coordinates are numbers, infinities among them. -/
def IsNumeric (v : Vec3) : Prop := ∀ axis, (v.along axis).isNaN = false

/-- There is no smaller box around the points than the one from `low` to `high`: along each axis its
sides are at the least and at the greatest coordinate of a point. -/
def TightBox (points : Set Vec3) (low high : Vec3) : Prop :=
  ∀ axis, IsLeast ((·.along axis) '' points) (low.along axis) ∧
    IsGreatest ((·.along axis) '' points) (high.along axis)

variable {points : Set Vec3} {low high low' high' p q : Vec3}

theorem along_min (a b : Vec3) (axis : Axis) :
    (a.min b).along axis =
      if a.along axis < b.along axis then a.along axis else b.along axis := by
  cases axis <;> rfl

theorem along_max (a b : Vec3) (axis : Axis) :
    (a.max b).along axis =
      if a.along axis > b.along axis then a.along axis else b.along axis := by
  cases axis <;> rfl

theorem beq_of_along (h : ∀ axis, (p.along axis == q.along axis) = true) : (p == q) = true := by
  have hparts : (p == q) = (p.x == q.x && (p.y == q.y && p.z == q.z)) := rfl
  rw [hparts, Bool.and_eq_true, Bool.and_eq_true]
  exact ⟨h .x, h .y, h .z⟩

namespace TightBox

theorem singleton (hp : p.IsNumeric) : TightBox {p} p p := by
  intro axis
  rw [Set.image_singleton]
  have hself : p.along axis ≤ p.along axis := Number.le_refl (hp axis)
  constructor
  · refine ⟨rfl, ?_⟩
    rintro x rfl
    exact hself
  · refine ⟨rfl, ?_⟩
    rintro x rfl
    exact hself

/-- A box that is stretched to a further point is tight again. -/
theorem insert (hbox : TightBox points low high) (hp : p.IsNumeric) :
    TightBox (insert p points) (low.min p) (high.max p) := by
  intro axis
  obtain ⟨hleast, hgreatest⟩ := hbox axis
  rw [Set.image_insert_eq, along_min, along_max]
  exact ⟨Number.isLeast_insert hleast (hp axis), Number.isGreatest_insert hgreatest (hp axis)⟩

/-- Stretching a tight box to one point after the other keeps it tight for all points seen so far. -/
theorem foldl {more : List Vec3} (hbox : TightBox points low high)
    (hmore : ∀ p ∈ more, p.IsNumeric) :
    let last := more.foldl (fun box p => (box.1.min p, box.2.max p)) (low, high)
    TightBox (points ∪ {p | p ∈ more}) last.1 last.2 := by
  induction more generalizing points low high with
  | nil => simpa using hbox
  | cons p more ih =>
    obtain ⟨hp, hmore⟩ := List.forall_mem_cons.1 hmore
    have hsplit : points ∪ {q | q ∈ p :: more} = Insert.insert p points ∪ {q | q ∈ more} := by
      ext q
      simp only [List.mem_cons, Set.mem_union, Set.mem_ofPred_eq, Set.mem_insert_iff]
      tauto
    rw [hsplit]
    exact ih (hbox.insert hp) hmore

/-- There is one tight box only, up to the sign of zeros. -/
theorem unique (hbox : TightBox points low high) (hother : TightBox points low' high') :
    (low == low') = true ∧ (high == high') = true :=
  ⟨beq_of_along fun axis => Number.beq_of_isLeast (hbox axis).1 (hother axis).1,
    beq_of_along fun axis => Number.beq_of_isGreatest (hbox axis).2 (hother axis).2⟩

end TightBox

end Vec3

/-- The point is an end of the segment, or the place of the leaf. -/
inductive Primitive.HasPoint : Primitive → Vec3 → Prop
  | start (point finish : Vec3) : HasPoint (.segment point finish) point
  | finish (start point : Vec3) : HasPoint (.segment start point) point
  | leaf (point : Vec3) (orientation : Quaternion) : HasPoint (.marker point orientation) point

/-- The same but for the orientation of a leaf. -/
inductive Primitive.SamePlace : Primitive → Primitive → Prop
  | segment (start finish : Vec3) : SamePlace (.segment start finish) (.segment start finish)
  | marker (point : Vec3) (orientation other : Quaternion) :
      SamePlace (.marker point orientation) (.marker point other)

namespace Drawing

variable {d other : Drawing}

def HasPoint (d : Drawing) (point : Vec3) : Prop := ∃ p ∈ d.toList, p.HasPoint point

theorem mem_points_iff {point : Vec3} : point ∈ d.points ↔ d.HasPoint point := by
  rw [points, List.mem_flatMap]
  refine exists_congr fun p => and_congr_right fun _ => ?_
  cases p with
  | segment start finish =>
    rw [Primitive.points, List.mem_pair]
    constructor
    · rintro (rfl | rfl)
      · exact .start point finish
      · exact .finish start point
    · rintro (_ | _)
      · exact .inl rfl
      · exact .inr rfl
  | marker place orientation =>
    rw [Primitive.points, List.mem_singleton]
    constructor
    · rintro rfl
      exact .leaf point orientation
    · rintro (_ | _)
      rfl

/-- Every primitive has a point. -/
theorem points_eq_nil_iff : d.points = [] ↔ d.toList = [] := by
  rw [points, List.flatMap_eq_nil_iff]
  constructor
  · intro h
    refine List.eq_nil_iff_forall_not_mem.2 fun p hp => ?_
    have hnil := h p hp
    cases p <;> exact List.cons_ne_nil _ _ hnil
  · intro h p hp
    rw [h] at hp
    exact nomatch hp

theorem bounds_eq_none_iff : d.bounds = none ↔ d.toList = [] := by
  rw [← points_eq_nil_iff, bounds]
  cases d.points <;> simp

theorem exists_bounds_eq (hd : d.toList ≠ [])
    (hnumeric : ∀ point, d.HasPoint point → point.IsNumeric) :
    ∃ low high, d.bounds = some (low, high) ∧ Vec3.TightBox {p | d.HasPoint p} low high := by
  obtain ⟨first, rest, hpoints⟩ := List.exists_cons_of_ne_nil (mt points_eq_nil_iff.1 hd)
  have hall : ∀ p ∈ first :: rest, p.IsNumeric := by
    intro p hp
    rw [← hpoints] at hp
    exact hnumeric p (mem_points_iff.1 hp)
  obtain ⟨hfirst, hrest⟩ := List.forall_mem_cons.1 hall
  have hset : {p | d.HasPoint p} = {first} ∪ {p | p ∈ rest} := by
    ext p
    rw [Set.mem_ofPred_eq, ← mem_points_iff, hpoints]
    simp
  refine ⟨_, _, ?_, hset ▸ (Vec3.TightBox.singleton hfirst).foldl hrest⟩
  rw [bounds, hpoints]

theorem points_eq_of_samePlace {drawn placed : List Primitive}
    (h : List.Forall₂ Primitive.SamePlace drawn placed) :
    drawn.flatMap Primitive.points = placed.flatMap Primitive.points := by
  induction h with
  | nil => rfl
  | cons hp _ ih =>
    rw [List.flatMap_cons, List.flatMap_cons, ih]
    cases hp <;> rfl

theorem isEmpty_iff : d.isEmpty = true ↔ d.toList = [] := by
  rw [isEmpty, Array.isEmpty_iff, toList, Array.toList_eq_nil_iff]

/-- The order in which a drawing was made shows at most in the sign of zeros. -/
theorem bounds_of_perm (hperm : other.toList.Perm d.toList)
    (hnumeric : ∀ point, d.HasPoint point → point.IsNumeric) :
    (other.bounds == d.bounds) = true := by
  have hsame : ∀ point, other.HasPoint point ↔ d.HasPoint point := fun point =>
    exists_congr fun p => and_congr_left fun _ => hperm.mem_iff
  by_cases hnil : d.toList = []
  · rw [hnil, List.perm_nil] at hperm
    rw [bounds_eq_none_iff.2 hnil, bounds_eq_none_iff.2 hperm]
    rfl
  · have hother : other.toList ≠ [] := fun h => hnil (List.nil_perm.1 (h ▸ hperm))
    obtain ⟨low, high, hbounds, hbox⟩ := exists_bounds_eq hnil hnumeric
    obtain ⟨low', high', hbounds', hbox'⟩ := exists_bounds_eq hother
      fun point hpoint => hnumeric point ((hsame point).1 hpoint)
    simp only [hsame] at hbox'
    obtain ⟨hlow, hhigh⟩ := hbox'.unique hbox
    have hparts : (some (low', high') == some (low, high)) = (low' == low && high' == high) := rfl
    rw [hbounds, hbounds', hparts, hlow, hhigh, Bool.and_self]

/-- Only an empty drawing has no bounds. If all coordinates are numbers, the bounds of any other
drawing are the tight box around its points, and for the same primitives in another order they are
the same up to the sign of zeros. How leaves are turned has no influence. -/
theorem bounds_tight (d : Drawing) :
    (d.bounds = none ↔ d.isEmpty = true) ∧
    ((∀ point, d.HasPoint point → point.IsNumeric) →
      (d.isEmpty = false →
        ∃ low high, d.bounds = some (low, high) ∧ Vec3.TightBox {p | d.HasPoint p} low high) ∧
      ∀ other : Drawing, other.toList.Perm d.toList → (other.bounds == d.bounds) = true) ∧
    ∀ other : Drawing, List.Forall₂ Primitive.SamePlace d.toList other.toList →
      other.bounds = d.bounds := by
  refine ⟨by rw [bounds_eq_none_iff, isEmpty_iff], fun hnumeric => ⟨fun hsome => ?_, ?_⟩, ?_⟩
  · refine exists_bounds_eq (fun hnil => ?_) hnumeric
    rw [isEmpty_iff.2 hnil] at hsome
    exact nomatch hsome
  · exact fun other hperm => bounds_of_perm hperm hnumeric
  · intro other hplaced
    have hpoints : d.points = other.points := points_eq_of_samePlace hplaced
    rw [bounds, bounds, hpoints]

/-- A branch that goes to infinity, and a leaf as low as the branch: which of the two is first shows
in the sign of the lowest height. -/
theorem bounds_tight_zeros :
    let branch : Primitive := .segment ⟨-2, 0, 1⟩ ⟨3, .ofBits 0x7f800000, 1⟩
    let leaf : Primitive := .marker ⟨0, .ofBits 0x80000000, -5⟩ .identity
    let turned : Primitive := .marker ⟨0, .ofBits 0x80000000, -5⟩ ⟨.ofBits 0x7fc00000, 0, 0, 2⟩
    let d : Drawing := ⟨#[branch, leaf]⟩
    let other : Drawing := ⟨#[leaf, branch]⟩
    (∀ point, d.HasPoint point → point.IsNumeric) ∧ d.isEmpty = false ∧
      other.toList.Perm d.toList ∧
      List.Forall₂ Primitive.SamePlace d.toList (⟨#[branch, turned]⟩ : Drawing).toList ∧
      (∃ low high, d.bounds = some (low, high) ∧ Vec3.TightBox {p | d.HasPoint p} low high) ∧
      (other.bounds == d.bounds) = true ∧ other.bounds ≠ d.bounds ∧
      (⟨#[branch, turned]⟩ : Drawing).bounds = d.bounds := by
  intro branch leaf turned d other
  have hpoints : ∀ point ∈ d.points,
      point.x.isNaN = false ∧ point.y.isNaN = false ∧ point.z.isNaN = false := by decide +kernel
  have hnumeric : ∀ point, d.HasPoint point → point.IsNumeric := by
    intro point hpoint
    obtain ⟨hx, hy, hz⟩ := hpoints point (mem_points_iff.2 hpoint)
    rintro (_ | _ | _)
    · exact hx
    · exact hy
    · exact hz
  have hperm : other.toList.Perm d.toList := .swap _ _ _
  have hplaced : List.Forall₂ Primitive.SamePlace d.toList
      (⟨#[branch, turned]⟩ : Drawing).toList :=
    .cons (.segment _ _) (.cons (.marker _ _ _) .nil)
  obtain ⟨-, hbox, hturned⟩ := bounds_tight d
  obtain ⟨hsome, hordered⟩ := hbox hnumeric
  exact ⟨hnumeric, rfl, hperm, hplaced, hsome rfl, hordered other hperm, by decide +kernel,
    hturned _ hplaced⟩

end Drawing

end LSystem
