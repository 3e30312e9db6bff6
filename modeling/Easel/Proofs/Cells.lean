import Easel.Interpreter

/-!
# Rectangles through their cells

What the operations on rectangles do to the cells `Rect.Covers` speaks of. A cut
is seen through `Rect.half?`: the part of a rectangle on one side of a place on an
axis, which is the whole rectangle or nothing when the place does not lie inside.
It needs no case for a rectangle that the cut misses, and it can be taken twice,
so a cut at a point is a cut along one axis followed by one along the other.

Main statements: `covers_half?` says which cells a part keeps,
`split_eq_ok_iff` and `quadrants_eq_ok_iff` say that the pieces of a cut are these
parts, `countP_covers_split` and `countP_covers_quadrants` that they share out the
cells, and `offset_eq_ok_iff` says when a rectangle can be moved, with
`Shifted.covers` for where its cells go. On the way `Overreaches` tells of the one
corner that leaves its range first.
-/

namespace Easel

theorem exists_of_isOk {ε α : Type} {x : Except ε α} (h : x.isOk) : ∃ a, x = .ok a := by
  cases x with
  | error e => cases h
  | ok a => exact ⟨a, rfl⟩

/-- Work on the result does not hide a failure. -/
theorem eq_error_of_map {ε α β : Type} {f : α → β} {x : Except ε α} {e : ε}
    (h : f <$> x = .error e) : x = .error e := by
  cases x with
  | error e' => exact congrArg _ (Except.error.inj h)
  | ok a => cases h

/-- A step that works goes on with its result. -/
theorem bind_eq_ok_iff {ε α β : Type} {x : Except ε α} {f : α → Except ε β} {b : β} :
    x >>= f = .ok b ↔ ∃ a, x = .ok a ∧ f a = .ok b := by
  cases x with
  | error e => simp [bind, Except.bind]
  | ok a => simp [bind, Except.bind]

/-- Work fails where its first step fails, or the second one on what the first one gives. -/
theorem bind_eq_error_iff {ε α β : Type} {x : Except ε α} {f : α → Except ε β} {e : ε} :
    x >>= f = .error e ↔ x = .error e ∨ ∃ a, x = .ok a ∧ f a = .error e := by
  cases x with
  | error e => simp [bind, Except.bind]
  | ok a => simp [bind, Except.bind]

theorem orRefuse_eq_ok_iff {α : Type} {x : Except Error α} {a : α} :
    orRefuse x = .ok a ↔ x = .ok a := by
  cases x <;> simp [orRefuse]

theorem orRefuse_ne_overflow {α : Type} (x : Except Error α) (kind : Overflow) :
    orRefuse x ≠ .error (.overflow kind) := by
  cases x <;> exact nofun

theorem toOption_eq_some_iff {ε α : Type} {x : Except ε α} {a : α} :
    x.toOption = some a ↔ x = .ok a := by
  cases x with
  | error e => simp [Except.toOption]
  | ok b => simp [Except.toOption]

/-- One of the two sides of a cut along a line. -/
inductive Half where
  /-- To the left of a vertical line, or under a horizontal one. -/
  | low
  /-- To the right of a vertical line, or over a horizontal one. -/
  | high
deriving DecidableEq, Repr

/-- The opposite side. -/
def Half.other : Half → Half
  | .low => .high
  | .high => .low

/-- The coordinate of a cell along an axis. -/
def Axis.place : Axis → Nat → Nat → Nat
  | .x, column, _ => column
  | .y, _, row => row

/-- The cell `(x, y)` lies on the given side of a place on an axis. -/
def Half.Has (half : Half) (axis : Axis) (position x y : Nat) : Prop :=
  match half with
  | .low => axis.place x y < position
  | .high => position ≤ axis.place x y

instance (half : Half) (axis : Axis) (position x y : Nat) :
    Decidable (half.Has axis position x y) := by
  cases half <;> simp only [Half.Has] <;> infer_instance

/-- A cell lies on one side of a line. -/
theorem Half.high_has_iff {axis : Axis} {position x y : Nat} :
    high.Has axis position x y ↔ ¬ low.Has axis position x y :=
  Nat.not_lt.symm

/-- The rectangle reaches to the given side of a place on an axis. -/
def Half.Meets (half : Half) (axis : Axis) (position : Nat) (r : Rect) : Prop :=
  match half with
  | .low => r.low axis < position
  | .high => position < r.high axis

/-- The coordinate of a point along an axis. -/
def Point.along (p : Point) : Axis → Coordinate
  | .x => ⟨p.x, p.x_lt⟩
  | .y => ⟨p.y, p.y_lt⟩

/-- Where a side of a cut moves the lower-left corner of a rectangle: up to the
place of the cut, if the side lies above it. -/
def Half.lower (half : Half) (axis : Axis) (position : Coordinate) (p : Point) : Point :=
  match half, axis with
  | .low, _ => p
  | .high, .x => { p with x := max p.x position.val, x_lt := by have := p.x_lt; omega }
  | .high, .y => { p with y := max p.y position.val, y_lt := by have := p.y_lt; omega }

/-- Where a side of a cut moves the upper-right corner: down to the place of the
cut, if the side lies below it. -/
def Half.upper (half : Half) (axis : Axis) (position : Coordinate) (p : Point) : Point :=
  match half, axis with
  | .low, .x => { p with x := min p.x position.val, x_lt := by have := p.x_lt; omega }
  | .low, .y => { p with y := min p.y position.val, y_lt := by have := p.y_lt; omega }
  | .high, _ => p

namespace Rect

/-! ## Containment -/

/-- Four comparisons are enough, since both rectangles have positive extent. -/
theorem contains_iff {r s : Rect} :
    r.Contains s ↔ r.bottomLeft.x ≤ s.bottomLeft.x ∧ s.topRight.x ≤ r.topRight.x ∧
      r.bottomLeft.y ≤ s.bottomLeft.y ∧ s.topRight.y ≤ r.topRight.y := by
  have hx := s.x_lt
  have hy := s.y_lt
  simp only [Contains, Point.Inside]
  omega

theorem Contains.refl (r : Rect) : r.Contains r := by
  rw [contains_iff]
  omega

theorem Contains.trans {r s t : Rect} (h : r.Contains s) (h' : s.Contains t) : r.Contains t := by
  rw [contains_iff] at *
  omega

theorem Contains.covers {r s : Rect} (h : r.Contains s) {x y : Nat} (hc : s.Covers x y) :
    r.Covers x y := by
  rw [contains_iff] at h
  simp only [Covers] at *
  omega

/-- Every rectangle has a cell. -/
theorem covers_bottomLeft (r : Rect) : r.Covers r.bottomLeft.x r.bottomLeft.y := by
  have hx := r.x_lt
  have hy := r.y_lt
  simp only [Covers]
  omega

/-- Containment through cells. -/
theorem contains_of_covers {r s : Rect} (h : ∀ x y, s.Covers x y → r.Covers x y) :
    r.Contains s := by
  have hx := s.x_lt
  have hy := s.y_lt
  have hlow := h _ _ s.covers_bottomLeft
  have hhigh := h (s.topRight.x - 1) (s.topRight.y - 1) (by simp only [Covers]; omega)
  rw [contains_iff]
  simp only [Covers] at hlow hhigh
  omega

/-- A rectangle is told by its cells. -/
theorem ext_covers {r s : Rect} (h : ∀ x y, r.Covers x y ↔ s.Covers x y) : r = s := by
  have hrs := contains_iff.1 (contains_of_covers fun x y => (h x y).2)
  have hsr := contains_iff.1 (contains_of_covers fun x y => (h x y).1)
  ext <;> omega

theorem hull_contains_left (r s : Rect) : (r.hull s).Contains r := by
  rw [contains_iff]
  simp only [hull]
  omega

theorem hull_contains_right (r s : Rect) : (r.hull s).Contains s := by
  rw [contains_iff]
  simp only [hull]
  omega

theorem contains_hull {r s t : Rect} (hs : r.Contains s) (ht : r.Contains t) :
    r.Contains (s.hull t) := by
  rw [contains_iff] at *
  simp only [hull]
  omega

/-- The union of two aligned rectangles has the cells of both. -/
theorem covers_hull {r s : Rect} (h : r.Stacked s ∨ r.SideBySide s) (x y : Nat) :
    (r.hull s).Covers x y ↔ r.Covers x y ∨ s.Covers x y := by
  have hr := r.x_lt
  have hr' := r.y_lt
  have hs := s.x_lt
  have hs' := s.y_lt
  simp only [Stacked, SideBySide] at h
  simp only [Covers, hull]
  omega

/-- Aligned rectangles share no cell. -/
theorem not_covers_of_aligned {r s : Rect} (h : r.Stacked s ∨ r.SideBySide s) {x y : Nat}
    (hr : r.Covers x y) : ¬ s.Covers x y := by
  have hsx := s.x_lt
  have hsy := s.y_lt
  simp only [Stacked, SideBySide] at h
  simp only [Covers] at *
  omega

/-! ## Parts of a rectangle -/

theorem ofCorners_eq_ok_iff {p q : Point} {r : Rect} :
    ofCorners p q = .ok r ↔ r.bottomLeft = p ∧ r.topRight = q := by
  constructor
  · intro h
    unfold ofCorners at h
    split at h
    · cases h
    · split at h
      · cases h
        exact ⟨rfl, rfl⟩
      · cases h
  · intro h
    obtain ⟨rfl, rfl⟩ := h
    have hx := r.x_lt
    have hy := r.y_lt
    unfold ofCorners
    rw [if_neg (by omega), dif_pos ⟨hx, hy⟩]

theorem exists_ofCorners_iff {p q : Point} :
    (∃ r, ofCorners p q = .ok r) ↔ p.x < q.x ∧ p.y < q.y := by
  constructor
  · intro h
    obtain ⟨r, hr⟩ := h
    obtain ⟨rfl, rfl⟩ := ofCorners_eq_ok_iff.1 hr
    exact ⟨r.x_lt, r.y_lt⟩
  · intro h
    obtain ⟨hx, hy⟩ := h
    exact ⟨⟨p, q, hx, hy⟩, ofCorners_eq_ok_iff.2 ⟨rfl, rfl⟩⟩

/-- The part of a rectangle on one side of a place on an axis. -/
def half? (r : Rect) (half : Half) (axis : Axis) (position : Coordinate) : Option Rect :=
  (ofCorners (half.lower axis position r.bottomLeft) (half.upper axis position r.topRight)).toOption

section
variable {r s q : Rect} {half : Half} {axis : Axis} {position : Coordinate}

theorem half?_eq_some_iff :
    r.half? half axis position = some q ↔
      q.bottomLeft = half.lower axis position r.bottomLeft ∧
        q.topRight = half.upper axis position r.topRight := by
  rw [half?, toOption_eq_some_iff, ofCorners_eq_ok_iff]

/-- A part has the cells of the rectangle that lie on its side. -/
theorem covers_half? (h : r.half? half axis position = some q) (x y : Nat) :
    q.Covers x y ↔ r.Covers x y ∧ half.Has axis position.val x y := by
  obtain ⟨hbl, htr⟩ := half?_eq_some_iff.1 h
  cases half <;> cases axis <;>
    simp only [Covers, hbl, htr, Half.lower, Half.upper, Half.Has, Axis.place] <;> omega

/-- There is a part below a place beyond the lower edge, and one above a place
before the upper edge. -/
theorem exists_half?_iff :
    (∃ q, r.half? half axis position = some q) ↔ half.Meets axis position.val r := by
  have hx := r.x_lt
  have hy := r.y_lt
  simp only [half?, toOption_eq_some_iff, exists_ofCorners_iff, Half.Meets]
  cases half <;> cases axis <;>
    simp only [Half.lower, Half.upper, Rect.low, Rect.high] <;> omega

theorem half?_eq_none_iff :
    r.half? half axis position = none ↔ ¬ half.Meets axis position.val r := by
  rw [← exists_half?_iff, ← Option.not_isSome_iff_eq_none, Option.isSome_iff_exists]

/-- Where a rectangle has no part, it has no cells. -/
theorem not_has_of_half?_eq_none (h : r.half? half axis position = none) {x y : Nat}
    (hc : r.Covers x y) : ¬ half.Has axis position.val x y := by
  rw [half?_eq_none_iff] at h
  simp only [Covers] at hc
  cases half <;> cases axis <;>
    simp only [Half.Has, Axis.place, Half.Meets, Rect.low, Rect.high] at h ⊢ <;> omega

/-- The part on one side is the rectangle that has the cells on that side. -/
theorem half?_eq_some_iff_covers : r.half? half axis position = some q ↔
    ∀ x y, q.Covers x y ↔ r.Covers x y ∧ half.Has axis position.val x y := by
  constructor
  · exact covers_half?
  · intro h
    cases hp : r.half? half axis position with
    | none =>
      obtain ⟨hcovers, hhas⟩ := (h _ _).1 q.covers_bottomLeft
      exact absurd hhas (not_has_of_half?_eq_none hp hcovers)
    | some p =>
      rw [ext_covers fun x y => (covers_half? hp x y).trans (h x y).symm]

/-- A rectangle on one side of a place is its own part. -/
theorem half?_eq_self (h : ¬ half.other.Meets axis position.val r) :
    r.half? half axis position = some r := by
  rw [half?_eq_some_iff]
  cases half <;> cases axis <;> simp only [Half.other, Half.Meets, Rect.low, Rect.high] at h <;>
    simp only [Half.lower, Half.upper, Point.ext_iff, true_and, and_true] <;> omega

theorem contains_half? (h : r.half? half axis position = some q) : r.Contains q := by
  obtain ⟨hbl, htr⟩ := half?_eq_some_iff.1 h
  rw [contains_iff, hbl, htr]
  cases half <;> cases axis <;> simp only [Half.lower, Half.upper] <;> omega

/-- The part of a contained rectangle lies in the part of the container. -/
theorem Contains.half? (h : r.Contains s) (hs : s.half? half axis position = some q) :
    ∃ p, r.half? half axis position = some p ∧ p.Contains q := by
  rw [contains_iff] at h
  have hmeets : half.Meets axis position.val r := by
    have hm := exists_half?_iff.1 ⟨q, hs⟩
    cases half <;> cases axis <;> simp only [Half.Meets, Rect.low, Rect.high] at hm ⊢ <;> omega
  obtain ⟨p, hp⟩ := exists_half?_iff.2 hmeets
  refine ⟨p, hp, ?_⟩
  obtain ⟨hbl, htr⟩ := half?_eq_some_iff.1 hs
  obtain ⟨hbl', htr'⟩ := half?_eq_some_iff.1 hp
  rw [contains_iff, hbl, htr, hbl', htr']
  cases half <;> cases axis <;> simp only [Half.lower, Half.upper] <;> omega

end

/-! ## The pieces of a cut -/

theorem splitVertical_eq_ok_iff {r : Rect} {x : Coordinate} {h : Halves Rect} :
    r.splitVertical x = .ok h ↔
      (h.low.bottomLeft = r.bottomLeft ∧ h.low.topRight = r.topRight.withX x) ∧
        h.high.bottomLeft = r.bottomLeft.withX x ∧ h.high.topRight = r.topRight := by
  simp only [splitVertical, bind_eq_ok_iff, ofCorners_eq_ok_iff, pure, Except.pure, Except.ok.injEq]
  constructor
  · intro h'
    obtain ⟨low, hlow, high, hhigh, rfl⟩ := h'
    exact ⟨hlow, hhigh⟩
  · intro h'
    obtain ⟨hlow, hhigh⟩ := h'
    exact ⟨h.low, hlow, h.high, hhigh, rfl⟩

theorem splitHorizontal_eq_ok_iff {r : Rect} {y : Coordinate} {h : Halves Rect} :
    r.splitHorizontal y = .ok h ↔
      (h.low.bottomLeft = r.bottomLeft ∧ h.low.topRight = r.topRight.withY y) ∧
        h.high.bottomLeft = r.bottomLeft.withY y ∧ h.high.topRight = r.topRight := by
  simp only [splitHorizontal, bind_eq_ok_iff, ofCorners_eq_ok_iff, pure, Except.pure,
    Except.ok.injEq]
  constructor
  · intro h'
    obtain ⟨low, hlow, high, hhigh, rfl⟩ := h'
    exact ⟨hlow, hhigh⟩
  · intro h'
    obtain ⟨hlow, hhigh⟩ := h'
    exact ⟨h.low, hlow, h.high, hhigh, rfl⟩

/-- A line cuts a rectangle into its two parts, if it has both. -/
theorem split_eq_ok_iff {r : Rect} {axis : Axis} {position : Coordinate} {h : Halves Rect} :
    r.split axis position = .ok h ↔
      r.half? .low axis position = some h.low ∧ r.half? .high axis position = some h.high := by
  have hl := h.low.x_lt
  have hl' := h.low.y_lt
  have hh := h.high.x_lt
  have hh' := h.high.y_lt
  rw [half?_eq_some_iff, half?_eq_some_iff]
  cases axis with
  | x =>
    simp only [split, splitVertical_eq_ok_iff, Point.ext_iff, Point.withX, Half.lower, Half.upper]
    omega
  | y =>
    simp only [split, splitHorizontal_eq_ok_iff, Point.ext_iff, Point.withY, Half.lower, Half.upper]
    omega

/-- The two pieces of a cut along a line share out the cells. -/
theorem countP_covers_split {r : Rect} {axis : Axis} {position : Coordinate} {h : Halves Rect}
    (hs : r.split axis position = .ok h) (x y : Nat) :
    h.toList.countP (·.Covers x y) = if r.Covers x y then 1 else 0 := by
  obtain ⟨hl, hh⟩ := split_eq_ok_iff.1 hs
  simp only [Halves.toList, List.countP_cons, List.countP_nil, covers_half? hl, covers_half? hh,
    Half.high_has_iff]
  by_cases hc : r.Covers x y <;> by_cases hl : Half.low.Has axis position.val x y <;>
    simp [hc, hl]

theorem exists_split_iff {r : Rect} {axis : Axis} {position : Coordinate} :
    (∃ h, r.split axis position = .ok h) ↔
      r.low axis < position.val ∧ position.val < r.high axis := by
  constructor
  · intro h'
    obtain ⟨h, hs⟩ := h'
    obtain ⟨hl, hh⟩ := split_eq_ok_iff.1 hs
    exact ⟨exists_half?_iff.1 ⟨_, hl⟩, exists_half?_iff.1 ⟨_, hh⟩⟩
  · intro h
    obtain ⟨hl, hh⟩ := h
    obtain ⟨l, hl⟩ := exists_half?_iff.2 (show Half.low.Meets axis position.val r from hl)
    obtain ⟨g, hg⟩ := exists_half?_iff.2 (show Half.high.Meets axis position.val r from hh)
    exact ⟨⟨l, g⟩, split_eq_ok_iff.2 ⟨hl, hg⟩⟩

/-- The part of a rectangle on the given sides of a point. -/
def quarter? (r : Rect) (side level : Half) (p : Point) : Option Rect :=
  (r.half? side .x (p.along .x)).bind (·.half? level .y (p.along .y))

theorem covers_quarter? {r q : Rect} {side level : Half} {p : Point}
    (h : r.quarter? side level p = some q) (x y : Nat) :
    q.Covers x y ↔ r.Covers x y ∧ side.Has .x p.x x y ∧ level.Has .y p.y x y := by
  obtain ⟨m, hm, hq⟩ := Option.bind_eq_some_iff.1 h
  rw [covers_half? hq, covers_half? hm, and_assoc]
  rfl

theorem quarter?_eq_some_iff_covers {r q : Rect} {side level : Half} {p : Point} :
    r.quarter? side level p = some q ↔
      ∀ x y, q.Covers x y ↔ r.Covers x y ∧ side.Has .x p.x x y ∧ level.Has .y p.y x y := by
  constructor
  · exact covers_quarter?
  · intro h
    obtain ⟨hcovers, hside, -⟩ := (h _ _).1 q.covers_bottomLeft
    cases hm : r.half? side .x (p.along .x) with
    | none => exact absurd hside (not_has_of_half?_eq_none hm hcovers)
    | some m =>
      rw [quarter?, hm, Option.bind_some, half?_eq_some_iff_covers]
      intro x y
      rw [covers_half? hm, and_assoc]
      exact h x y

theorem quarter?_eq_some_iff {r q : Rect} {side level : Half} {p : Point} :
    r.quarter? side level p = some q ↔
      q.bottomLeft = level.lower .y (p.along .y) (side.lower .x (p.along .x) r.bottomLeft) ∧
        q.topRight = level.upper .y (p.along .y) (side.upper .x (p.along .x) r.topRight) := by
  simp only [quarter?, Option.bind_eq_some_iff, half?_eq_some_iff]
  constructor
  · intro h
    obtain ⟨m, ⟨hbl, htr⟩, hbl', htr'⟩ := h
    rw [hbl', htr', hbl, htr]
    exact ⟨rfl, rfl⟩
  · intro h
    obtain ⟨hbl, htr⟩ := h
    -- the cut along the first axis leaves the extent on the second one alone
    have hx := q.x_lt
    have hy := r.y_lt
    rw [hbl, htr] at hx
    refine ⟨⟨side.lower .x (p.along .x) r.bottomLeft, side.upper .x (p.along .x) r.topRight,
      ?_, ?_⟩, ⟨rfl, rfl⟩, hbl, htr⟩
    · cases level <;> simpa only [Half.lower, Half.upper] using hx
    · cases side <;> simpa only [Half.lower, Half.upper] using hy

theorem quadrants_eq_ok_iff_corners {r : Rect} {p : Point} {q : Quarters Rect} :
    r.quadrants p = .ok q ↔
      (q.bottomLeft.bottomLeft = r.bottomLeft ∧ q.bottomLeft.topRight = p) ∧
      (q.bottomRight.bottomLeft = p.atHeightOf r.bottomLeft ∧
        q.bottomRight.topRight = r.topRight.atHeightOf p) ∧
      (q.topRight.bottomLeft = p ∧ q.topRight.topRight = r.topRight) ∧
      q.topLeft.bottomLeft = r.bottomLeft.atHeightOf p ∧
        q.topLeft.topRight = p.atHeightOf r.topRight := by
  simp only [quadrants, bind_eq_ok_iff, ofCorners_eq_ok_iff, pure, Except.pure, Except.ok.injEq]
  constructor
  · intro h
    obtain ⟨_, h₁, _, h₂, _, h₃, _, h₄, rfl⟩ := h
    exact ⟨h₁, h₂, h₃, h₄⟩
  · intro h
    obtain ⟨h₁, h₂, h₃, h₄⟩ := h
    exact ⟨_, h₁, _, h₂, _, h₃, _, h₄, rfl⟩

/-- A point cuts a rectangle into its four parts, if it has them all. -/
theorem quadrants_eq_ok_iff {r : Rect} {p : Point} {q : Quarters Rect} :
    r.quadrants p = .ok q ↔
      r.quarter? .low .low p = some q.bottomLeft ∧ r.quarter? .high .low p = some q.bottomRight ∧
        r.quarter? .high .high p = some q.topRight ∧ r.quarter? .low .high p = some q.topLeft := by
  -- the extents of two opposite pieces put the point inside
  have hbl := q.bottomLeft.x_lt
  have hbl' := q.bottomLeft.y_lt
  have htr := q.topRight.x_lt
  have htr' := q.topRight.y_lt
  simp only [quadrants_eq_ok_iff_corners, quarter?_eq_some_iff, Half.lower, Half.upper,
    Point.along, Point.ext_iff, Point.atHeightOf]
  omega

/-- The four pieces of a cut at a point share out the cells. -/
theorem countP_covers_quadrants {r : Rect} {p : Point} {q : Quarters Rect}
    (hq : r.quadrants p = .ok q) (x y : Nat) :
    q.toList.countP (·.Covers x y) = if r.Covers x y then 1 else 0 := by
  obtain ⟨h₁, h₂, h₃, h₄⟩ := quadrants_eq_ok_iff.1 hq
  simp only [Quarters.toList, List.countP_cons, List.countP_nil, covers_quarter? h₁,
    covers_quarter? h₂, covers_quarter? h₃, covers_quarter? h₄, Half.high_has_iff]
  by_cases hc : r.Covers x y <;> by_cases hx : Half.low.Has .x p.x x y <;>
    by_cases hy : Half.low.Has .y p.y x y <;> simp [hc, hx, hy]

theorem exists_quadrants_iff {r : Rect} {p : Point} :
    (∃ q, r.quadrants p = .ok q) ↔ p.StrictlyInside r := by
  constructor
  · intro h
    obtain ⟨q, hq⟩ := h
    obtain ⟨⟨hbl, hbl'⟩, -, ⟨htr, htr'⟩, -⟩ := quadrants_eq_ok_iff_corners.1 hq
    have hlx := q.bottomLeft.x_lt
    have hly := q.bottomLeft.y_lt
    have hrx := q.topRight.x_lt
    have hry := q.topRight.y_lt
    rw [hbl, hbl'] at hlx hly
    rw [htr, htr'] at hrx hry
    exact ⟨hlx, hrx, hly, hry⟩
  · intro h
    obtain ⟨hlx, hrx, hly, hry⟩ := h
    exact ⟨⟨⟨r.bottomLeft, p, hlx, hly⟩,
      ⟨p.atHeightOf r.bottomLeft, r.topRight.atHeightOf p, hrx, hly⟩,
      ⟨p, r.topRight, hrx, hry⟩, ⟨r.bottomLeft.atHeightOf p, p.atHeightOf r.topRight, hlx, hry⟩⟩,
      quadrants_eq_ok_iff_corners.2 ⟨⟨rfl, rfl⟩, ⟨rfl, rfl⟩, ⟨rfl, rfl⟩, rfl, rfl⟩⟩

/-! ## Moving a rectangle -/

end Rect

/-- A point is moved if the sum with the goal stays in range and the start does
not lie beyond that sum. -/
theorem Point.offset?_eq_some_iff {p a b q : Point} :
    p.offset? a b = some q ↔
      (p.x + b.x < 4294967296 ∧ p.y + b.y < 4294967296) ∧
        q.x + a.x = p.x + b.x ∧ q.y + a.y = p.y + b.y := by
  simp only [offset?, add?, ofNat?, Option.bind_eq_some_iff, Option.dite_none_right_eq_some,
    Option.some.injEq, sub?, Option.ite_none_right_eq_some]
  constructor
  · intro h'
    obtain ⟨_, ⟨h, rfl⟩, hle, rfl⟩ := h'
    simp only at *
    omega
  · intro h'
    obtain ⟨h, hx, hy⟩ := h'
    refine ⟨⟨p.x + b.x, p.y + b.y, h.1, h.2⟩, ⟨h, rfl⟩, ?_, ?_⟩
    · show a.x ≤ p.x + b.x ∧ a.y ≤ p.y + b.y
      omega
    · ext <;> simp only <;> omega

namespace Rect

theorem moveCorner_eq_ok_iff {p a b q : Point} :
    moveCorner p a b = .ok q ↔ p.offset? a b = some q := by
  unfold moveCorner
  cases p.offset? a b <;> simp

/-- A rectangle is moved if both of its corners are; it keeps its extent. -/
theorem exists_offset_iff {r : Rect} {a b : Point} :
    (∃ q, r.offset a b = .ok q) ↔
      r.bottomLeft.offset? a b ≠ none ∧ r.topRight.offset? a b ≠ none := by
  have hx := r.x_lt
  have hy := r.y_lt
  simp only [offset, bind_eq_ok_iff, moveCorner_eq_ok_iff, Option.ne_none_iff_exists']
  constructor
  · intro h
    obtain ⟨_, p, hp, q, hq, -⟩ := h
    exact ⟨⟨p, hp⟩, q, hq⟩
  · intro h
    obtain ⟨⟨p, hp⟩, q, hq⟩ := h
    obtain ⟨-, hpx, hpy⟩ := Point.offset?_eq_some_iff.1 hp
    obtain ⟨-, hqx, hqy⟩ := Point.offset?_eq_some_iff.1 hq
    obtain ⟨moved, hmoved⟩ := exists_ofCorners_iff.2
      (show p.x < q.x ∧ p.y < q.y from ⟨by omega, by omega⟩)
    exact ⟨moved, p, hp, q, hq, hmoved⟩

/-- On the way from the rectangle to `target` a sum of coordinates of the upper-right corner leaves
its range. -/
def Overreaches (r target : Rect) : Prop :=
  4294967296 ≤ r.topRight.x + target.bottomLeft.x ∨
    4294967296 ≤ r.topRight.y + target.bottomLeft.y

instance (r target : Rect) : Decidable (r.Overreaches target) :=
  inferInstanceAs (Decidable (_ ∨ _))

theorem Overreaches.offset?_eq_none {r target : Rect} (h : r.Overreaches target) (a : Point) :
    r.topRight.offset? a target.bottomLeft = none := by
  simp only [Overreaches] at h
  rw [Option.eq_none_iff_forall_ne_some]
  intro q hq
  have hrange := (Point.offset?_eq_some_iff.1 hq).1
  omega

/-- Every point of a rectangle is moved, unless the upper-right corner is not. -/
theorem offset?_ne_none {r target : Rect} {p : Point} (hp : p.Inside r)
    (h : ¬ r.Overreaches target) : p.offset? r.bottomLeft target.bottomLeft ≠ none := by
  simp only [Overreaches] at h
  obtain ⟨hleft, hright, hbottom, htop⟩ := hp
  rw [Option.ne_none_iff_exists']
  refine ⟨⟨p.x + target.bottomLeft.x - r.bottomLeft.x, p.y + target.bottomLeft.y - r.bottomLeft.y,
    by omega, by omega⟩, Point.offset?_eq_some_iff.2 ?_⟩
  simp only
  omega

/-- `q` is `r` moved by the vector from `a` to `b`. -/
structure Shifted (a b : Point) (r q : Rect) : Prop where
  left : q.bottomLeft.x + a.x = r.bottomLeft.x + b.x
  bottom : q.bottomLeft.y + a.y = r.bottomLeft.y + b.y
  right : q.topRight.x + a.x = r.topRight.x + b.x
  top : q.topRight.y + a.y = r.topRight.y + b.y

/-- A rectangle is moved if its upper-right corner stays in range on the way and
its lower-left corner does not fall below zero. -/
theorem offset_eq_ok_iff {r q : Rect} {a b : Point} :
    r.offset a b = .ok q ↔
      (r.topRight.x + b.x < 4294967296 ∧ r.topRight.y + b.y < 4294967296) ∧ r.Shifted a b q := by
  have hx := r.x_lt
  have hy := r.y_lt
  simp only [offset, bind_eq_ok_iff, moveCorner_eq_ok_iff, Point.offset?_eq_some_iff,
    ofCorners_eq_ok_iff]
  constructor
  · intro h'
    obtain ⟨_, ⟨-, hbl, hbl'⟩, _, ⟨h, htr, htr'⟩, rfl, rfl⟩ := h'
    exact ⟨h, hbl, hbl', htr, htr'⟩
  · intro h'
    obtain ⟨h, hbl, hbl', htr, htr'⟩ := h'
    exact ⟨_, ⟨by omega, hbl, hbl'⟩, _, ⟨h, htr, htr'⟩, rfl, rfl⟩

/-- A moved rectangle has the cells whose places before the move it had. -/
theorem Shifted.covers {r q : Rect} {a b : Point} (h : r.Shifted a b q) {x y x' y' : Nat}
    (hx : x + a.x = x' + b.x) (hy : y + a.y = y' + b.y) : q.Covers x y ↔ r.Covers x' y' := by
  obtain ⟨hl, hb, hr, ht⟩ := h
  simp only [Covers]
  omega

/-- The place before the move of a cell. -/
theorem Shifted.exists_covers {r q : Rect} {a b : Point} (h : r.Shifted a b q) {x y : Nat}
    (hc : q.Covers x y) :
    ∃ x' y', r.Covers x' y' ∧ x + a.x = x' + b.x ∧ y + a.y = y' + b.y := by
  have hx : x + a.x = x + a.x - b.x + b.x := by
    have hleft := h.left
    simp only [Covers] at hc
    omega
  have hy : y + a.y = y + a.y - b.y + b.y := by
    have hbottom := h.bottom
    simp only [Covers] at hc
    omega
  exact ⟨_, _, (h.covers hx hy).1 hc, hx, hy⟩

/-- Containment is kept by a move. -/
theorem Shifted.contains {r q r' q' : Rect} {a b : Point} (h : r.Shifted a b q)
    (h' : r'.Shifted a b q') (hc : r.Contains r') : q.Contains q' := by
  obtain ⟨hl, hb, hr, ht⟩ := h
  obtain ⟨hl', hb', hr', ht'⟩ := h'
  rw [contains_iff] at *
  omega

/-- Rectangles of the same size are moved to each other. -/
theorem shifted_of_size_eq {r q : Rect} (h : r.size = q.size) :
    r.Shifted r.bottomLeft q.bottomLeft q := by
  have hrx := r.x_lt
  have hry := r.y_lt
  have hqx := q.x_lt
  have hqy := q.y_lt
  simp only [size, Point.diff, Point.mk.injEq] at h
  constructor <;> omega

end Rect

end Easel
