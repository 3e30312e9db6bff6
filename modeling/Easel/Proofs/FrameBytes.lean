import Easel.Proofs.Painting

/-!
# Frames and their bytes

The bytes of a frame are the bytes of its pixels, row by row from the top and four for each
pixel. Nothing else is in them, so a frame can be read back from its size and its bytes, and
a run of bytes that is long enough for the size is always that of a frame.

`coloursOfBytes` and the flattened `bytesOfColour` undo each other on whole pixels
(`coloursOfBytes_flatMap`, `flatMap_coloursOfBytes`). From there `ofBytes_eq_ok_iff` says that
the frame of some bytes is the one of that size with just these bytes, and the rest is read
off it.

Main statement: `bytes_tell_frame`.
-/

namespace Easel.Frame

/-! ## Colours and bytes -/

theorem coloursOfBytes_flatMap (colours : List Rgba) :
    coloursOfBytes (colours.flatMap bytesOfColour) = colours := by
  induction colours with
  | nil => rfl
  | cons c colours ih =>
    show c :: coloursOfBytes (colours.flatMap bytesOfColour) = c :: colours
    rw [ih]

/-- Only bytes at the end that make no colour are lost. -/
theorem flatMap_coloursOfBytes {bytes : List UInt8} (h : bytes.length % 4 = 0) :
    (coloursOfBytes bytes).flatMap bytesOfColour = bytes := by
  induction bytes using coloursOfBytes.induct with
  | case1 r g b a rest ih =>
    have hrest : rest.length % 4 = 0 := by
      simp only [List.length_cons] at h
      omega
    show r :: g :: b :: a :: (coloursOfBytes rest).flatMap bytesOfColour = r :: g :: b :: a :: rest
    rw [ih hrest]
  | case2 bytes hshort =>
    match bytes, h, hshort with
    | [], _, _ => rfl
    | [_], h, _ | [_, _], h, _ | [_, _, _], h, _ => cases h
    | r :: g :: b :: a :: rest, _, hshort => exact absurd rfl (hshort r g b a rest)

theorem length_flatMap_bytesOfColour (colours : List Rgba) :
    (colours.flatMap bytesOfColour).length = 4 * colours.length := by
  induction colours with
  | nil => rfl
  | cons c colours ih =>
    rw [List.flatMap_cons, List.length_append, ih, List.length_cons]
    show 4 + 4 * colours.length = _
    omega

/-- The bytes of a colour stand at four times its place. -/
theorem take_drop_flatMap_bytesOfColour {colours : List Rgba} {k : Nat} {c : Rgba}
    (h : colours[k]? = some c) :
    ((colours.flatMap bytesOfColour).drop (4 * k)).take 4 = bytesOfColour c := by
  induction colours generalizing k with
  | nil => cases h
  | cons d colours ih =>
    cases k with
    | zero =>
      cases h
      rfl
    | succ k =>
      have hplace : 4 * (k + 1) = (bytesOfColour d).length + 4 * k := by
        show _ = 4 + 4 * k
        omega
      rw [List.flatMap_cons, hplace, List.drop_length_add_append]
      exact ih h

/-! ## Frames -/

/-- Width and height. -/
def size (f : Frame) : Point where
  x := f.width
  y := f.height
  x_lt := f.width_lt
  y_lt := f.height_lt

theorem length_toBytes (f : Frame) : f.toBytes.length = 4 * (f.width * f.height) := by
  rw [toBytes, length_flatMap_bytesOfColour, Array.length_toList, f.size_pixels]

/-- Pixels make the one frame of their size that has them. -/
theorem ofPixels_eq_ok_iff {size : Point} {pixels : Array Rgba} {f : Frame} :
    ofPixels size pixels = .ok f ↔ f.size = size ∧ f.pixels = pixels := by
  unfold ofPixels
  constructor
  · intro h
    split at h
    next =>
      cases h
      exact ⟨rfl, rfl⟩
    next => cases h
  · intro h
    obtain ⟨rfl, rfl⟩ := h
    rw [dif_pos ⟨⟨f.width_pos, f.height_pos⟩, f.size_pixels⟩]
    rfl

/-- Bytes make the one frame of their size that has them. -/
theorem ofBytes_eq_ok_iff {size : Point} {bytes : List UInt8} {f : Frame} :
    ofBytes size bytes = .ok f ↔ f.size = size ∧ f.toBytes = bytes := by
  unfold ofBytes
  constructor
  · intro h
    split at h
    next hwhole =>
      obtain ⟨hsize, hpixels⟩ := ofPixels_eq_ok_iff.1 h
      refine ⟨hsize, ?_⟩
      rw [toBytes, hpixels]
      exact flatMap_coloursOfBytes hwhole
    next => cases h
  · intro h
    obtain ⟨hsize, rfl⟩ := h
    rw [if_pos (by rw [length_toBytes]; exact Nat.mul_mod_right _ _), ofPixels_eq_ok_iff]
    refine ⟨hsize, ?_⟩
    rw [toBytes, coloursOfBytes_flatMap]

theorem exists_ofBytes_iff {size : Point} {bytes : List UInt8} :
    (∃ f, ofBytes size bytes = .ok f) ↔
      size.Positive ∧ bytes.length = 4 * (size.x * size.y) := by
  constructor
  · intro h
    obtain ⟨f, hf⟩ := h
    obtain ⟨rfl, rfl⟩ := ofBytes_eq_ok_iff.1 hf
    exact ⟨⟨f.width_pos, f.height_pos⟩, length_toBytes f⟩
  · intro h
    obtain ⟨hpos, hlength⟩ := h
    have hwhole : bytes.length % 4 = 0 := by omega
    have hpixels : (coloursOfBytes bytes).toArray.size = size.x * size.y := by
      have h := length_flatMap_bytesOfColour (coloursOfBytes bytes)
      rw [flatMap_coloursOfBytes hwhole] at h
      rw [List.size_toArray]
      omega
    refine ⟨{ width := size.x, height := size.y, pixels := (coloursOfBytes bytes).toArray,
              width_lt := size.x_lt, height_lt := size.y_lt, size_pixels := hpixels,
              width_pos := hpos.x_pos, height_pos := hpos.y_pos }, ?_⟩
    exact ofBytes_eq_ok_iff.2 ⟨rfl, flatMap_coloursOfBytes hwhole⟩

/-- A pixel is the four bytes at its place. -/
theorem map_bytesOfColour_pixel? (f : Frame) (x y : Nat) :
    (f.pixel? x y).map bytesOfColour = if x < f.width ∧ y < f.height then
      some ((f.toBytes.drop (4 * (y * f.width + x))).take 4) else none := by
  by_cases hin : x < f.width ∧ y < f.height
  · obtain ⟨c, hc⟩ := Picture.exists_pixel? hin.1 hin.2
    rw [hc, if_pos hin, Option.map_some, Option.some.injEq]
    unfold Picture.pixel? at hc
    rw [if_pos hin, ← Array.getElem?_toList] at hc
    exact (take_drop_flatMap_bytesOfColour hc).symm
  · unfold Picture.pixel?
    rw [if_neg hin, if_neg hin]
    rfl

/-- Bytes make a frame just if it has pixels and they are four for each pixel. The frame gives
back these bytes, and the pixel in column `x` and row `y` from the top is the four of them from
`4 * (y * width + x)` on; there is none beyond the edges. Conversely every frame is made by
its size and its bytes. -/
theorem bytes_tell_frame (size : Point) (bytes : List UInt8) :
    ((∃ f, ofBytes size bytes = .ok f) ↔
      (0 < size.x ∧ 0 < size.y) ∧ bytes.length = 4 * (size.x * size.y)) ∧
    (∀ f, ofBytes size bytes = .ok f → f.toBytes = bytes ∧
      ∀ x y, (f.pixel? x y).map bytesOfColour = if x < size.x ∧ y < size.y then
        some ((bytes.drop (4 * (y * size.x + x))).take 4) else none) ∧
    ∀ f : Frame, ofBytes f.size f.toBytes = .ok f := by
  refine ⟨exists_ofBytes_iff, fun f hf => ?_, fun f => ofBytes_eq_ok_iff.2 ⟨rfl, rfl⟩⟩
  obtain ⟨rfl, rfl⟩ := ofBytes_eq_ok_iff.1 hf
  exact ⟨rfl, map_bytesOfColour_pixel? f⟩

end Easel.Frame
