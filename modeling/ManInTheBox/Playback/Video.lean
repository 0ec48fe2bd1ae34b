import ManInTheBox.Library.Fallible
import ManInTheBox.Library.PointerWidth

/-! # The planes of a picture

A decoded picture has a plane for each component, with padded rows. The planes are copied
one behind the other, and found again by the length of the whole.
-/

namespace ManInTheBox.Playback

open Library

/-- Bytes in memory, which an index can count. -/
structure Slice (machine : PointerWidth) where
  bytes : List UInt8
  length_lt : bytes.length < machine.size

/-- `slice.get(start..stop)` -/
def getRange (bytes : List UInt8) (start stop : ℕ) : Option (List UInt8) :=
  if start ≤ stop ∧ stop ≤ bytes.length then some ((bytes.drop start).take (stop - start))
  else none

/-! ## Copying -/

inductive PlanarImageComponent
  | y
  | u
  | v

inductive PixelLayout
  | i400
  | i420
  | i422
  | i444
  deriving DecidableEq

structure Picture (machine : PointerWidth) where
  bitDepth : ℕ
  width : UInt32
  height : UInt32
  pixelLayout : PixelLayout
  plane : PlanarImageComponent → Slice machine
  stride : PlanarImageComponent → UInt32

inductive Format
  | i420
  | y444
  | nv12
  deriving DecidableEq

structure Size where
  width : UInt32
  height : UInt32
  deriving DecidableEq

structure Yuv where
  format : Format
  data : List UInt8
  dimensions : Size
  deriving DecidableEq

def divCeil (a b : UInt32) : UInt32 := if a % b = 0 then a / b else a / b + 1

variable {machine : PointerWidth}

def copyPlane (plane : Slice machine) (stride width height : UInt32) : Option (List UInt8) := do
  let stride ← machine.tryFrom stride.toNat
  let width ← machine.tryFrom width.toNat
  let height ← machine.tryFrom height.toNat
  if stride < width then
    none
  else
    let required ← machine.checkedMul stride height
    if plane.bytes.length < required then
      none
    else
      let _capacity ← machine.checkedMul width height
      (List.range height).foldlM (fun output row => do
        let start ← machine.checkedMul row stride
        let stop ← machine.checkedAdd start width
        let bytes ← getRange plane.bytes start stop
        return output ++ bytes) []

def pictureToYuv (picture : Picture machine) : Option Yuv :=
  if picture.bitDepth ≠ 8 then
    none
  else
    let width := picture.width
    let height := picture.height
    match picture.pixelLayout with
    | .i420 => do
      let y ← copyPlane (picture.plane .y) (picture.stride .y) width height
      let chromaWidth := divCeil width 2
      let chromaHeight := divCeil height 2
      let u ← copyPlane (picture.plane .u) (picture.stride .u) chromaWidth chromaHeight
      let v ← copyPlane (picture.plane .v) (picture.stride .v) chromaWidth chromaHeight
      return ⟨.i420, y ++ u ++ v, ⟨width, height⟩⟩
    | .i444 => do
      let y ← copyPlane (picture.plane .y) (picture.stride .y) width height
      let u ← copyPlane (picture.plane .u) (picture.stride .u) width height
      let v ← copyPlane (picture.plane .v) (picture.stride .v) width height
      return ⟨.y444, y ++ u ++ v, ⟨width, height⟩⟩
    | _ => none

/-! ## Reading back -/

/-- `partition_map`, with both parts in the order of the list. -/
def partitionMap {α β γ : Type*} (f : α → β ⊕ γ) : List α → List β × List γ
  | [] => ([], [])
  | a :: l =>
    match f a with
    | .inl b => (b :: (partitionMap f l).1, (partitionMap f l).2)
    | .inr c => ((partitionMap f l).1, c :: (partitionMap f l).2)

inductive Renderable
  | y444 (data : List UInt8) (dimensions : Size)
  | i420 (data : List UInt8) (dimensions : Size)

namespace Renderable

def y : Renderable → Option (List UInt8)
  | .i420 data _ => getRange data 0 (data.length / 6 * 4)
  | .y444 data _ => getRange data 0 (data.length / 3)

def u : Renderable → Option (List UInt8)
  | .i420 data _ => getRange data (data.length / 6 * 4) (data.length / 6 * 5)
  | .y444 data _ => getRange data (data.length / 3) (data.length / 3 * 2)

def v : Renderable → Option (List UInt8)
  | .i420 data _ => getRange data (data.length / 6 * 5) data.length
  | .y444 data _ => getRange data (data.length / 3 * 2) data.length

/-- `Renderable::from`, which takes the pairs of chroma bytes apart. -/
def ofYuv (yuv : Yuv) : Renderable :=
  match yuv.format with
  | .i420 => .i420 yuv.data yuv.dimensions
  | .y444 => .y444 yuv.data yuv.dimensions
  | .nv12 =>
    let n := yuv.data.length / 6
    let chroma := partitionMap (fun entry : UInt8 × ℕ =>
      if entry.2 % 2 = 0 then Sum.inl entry.1 else Sum.inr entry.1) (yuv.data.drop (n * 4)).zipIdx
    .i420 (yuv.data.take (n * 4) ++ chroma.1 ++ chroma.2) yuv.dimensions

end Renderable

/-! ## The rows of a plane -/

/-- The first bytes of each row. -/
def rowsOf (plane : List UInt8) (stride width height : ℕ) : List UInt8 :=
  (List.range height).flatMap fun row => (plane.drop (row * stride)).take width

variable {plane : Slice machine} {stride width height : UInt32}

theorem row_end_le {row stride width height length : ℕ} (hwidth : width ≤ stride)
    (hlength : stride * height ≤ length) (hrow : row < height) :
    row * stride + width ≤ length := by
  calc row * stride + width ≤ row * stride + stride := Nat.add_le_add_left hwidth _
    _ = stride * (row + 1) := by ring
    _ ≤ stride * height := Nat.mul_le_mul_left stride hrow
    _ ≤ length := hlength

theorem length_rowsOf {plane : List UInt8} {stride width height : ℕ} (hwidth : width ≤ stride)
    (hlength : stride * height ≤ plane.length) :
    (rowsOf plane stride width height).length = width * height := by
  have hrow : ∀ row ∈ List.range height,
      ((plane.drop (row * stride)).take width).length = width := by
    intro row hrow
    have hend := row_end_le hwidth hlength (List.mem_range.mp hrow)
    rw [List.length_take, List.length_drop]
    omega
  rw [rowsOf, List.length_flatMap, List.map_congr_left hrow, List.map_const', List.sum_replicate,
    List.length_range, smul_eq_mul, Nat.mul_comm]

theorem toNat_lt_size (n : UInt32) : n.toNat < machine.size :=
  Nat.lt_of_lt_of_le n.toNat_lt machine.le_size

/-- One round of the loop: the row lies in the plane, so that no check fails. -/
theorem copyRow_eq {row : ℕ} (hwidth : width ≤ stride)
    (hlength : stride.toNat * height.toNat ≤ plane.bytes.length) (hrow : row < height.toNat)
    (output : List UInt8) :
    (do
      let start ← machine.checkedMul row stride.toNat
      let stop ← machine.checkedAdd start width.toNat
      let bytes ← getRange plane.bytes start stop
      return output ++ bytes) =
      some (output ++ (plane.bytes.drop (row * stride.toNat)).take width.toNat) := by
  have hend := row_end_le (UInt32.le_iff_toNat_le.mp hwidth) hlength hrow
  have hsize := plane.length_lt
  rw [PointerWidth.checkedMul_of_lt (by omega)]
  simp only [Option.bind_eq_bind, Option.bind_some]
  rw [PointerWidth.checkedAdd_of_lt (by omega)]
  simp only [Option.bind_some]
  rw [getRange, if_pos ⟨Nat.le_add_right _ _, hend⟩, Nat.add_sub_cancel_left]
  rfl

/-- A plane with wide rows and enough data is copied without its padding, and no other is
copied. -/
theorem copyPlane_eq (plane : Slice machine) (stride width height : UInt32) :
    copyPlane plane stride width height =
      if width ≤ stride ∧ stride.toNat * height.toNat ≤ plane.bytes.length then
        some (rowsOf plane.bytes stride.toNat width.toNat height.toNat)
      else none := by
  have hsize := plane.length_lt
  have hle : width ≤ stride ↔ width.toNat ≤ stride.toNat := UInt32.le_iff_toNat_le
  rw [copyPlane, PointerWidth.tryFrom_of_lt (toNat_lt_size stride),
    PointerWidth.tryFrom_of_lt (toNat_lt_size width),
    PointerWidth.tryFrom_of_lt (toNat_lt_size height)]
  simp only [Option.bind_eq_bind, Option.bind_some]
  by_cases hwidth : width ≤ stride
  · rw [if_neg (not_lt.mpr (hle.mp hwidth))]
    by_cases hlength : stride.toNat * height.toNat ≤ plane.bytes.length
    · have hcapacity : width.toNat * height.toNat ≤ stride.toNat * height.toNat :=
        Nat.mul_le_mul_right _ (hle.mp hwidth)
      rw [PointerWidth.checkedMul_of_lt (by omega), PointerWidth.checkedMul_of_lt (by omega),
        if_pos ⟨hwidth, hlength⟩]
      simp only [Option.bind_some]
      rw [if_neg (not_lt.mpr hlength)]
      have hloop := Yields.foldlM_range
        (fun k output => output = rowsOf plane.bytes stride.toNat width.toNat k) height.toNat
        (a := []) rfl (fun output row hrow houtput =>
          ⟨_, copyRow_eq hwidth hlength hrow output, by
            rw [houtput, rowsOf, rowsOf, List.range_succ, List.flatMap_append]
            simp⟩)
      obtain ⟨output, houtput, rfl⟩ := hloop
      exact houtput
    · rw [if_neg (fun h => hlength h.2), PointerWidth.checkedMul, PointerWidth.tryFrom]
      split_ifs
      · simp only [Option.bind_some]
        rw [if_pos (not_le.mp hlength)]
      · rfl
  · rw [if_pos (not_le.mp (mt hle.mpr hwidth)), if_neg (fun h => hwidth h.1)]

/-! ## Three planes behind each other -/

theorem getRange_of_append {before range after : List UInt8} {start stop : ℕ}
    (hstart : start = before.length) (hstop : stop = before.length + range.length) :
    getRange (before ++ range ++ after) start stop = some range := by
  subst hstart hstop
  rw [getRange, if_pos (by simp), Nat.add_sub_cancel_left, List.append_assoc, List.drop_left,
    List.take_left]

/-- The three parts of a text, at their own bounds. -/
theorem getRange_parts (y u v : List UInt8) :
    getRange (y ++ u ++ v) 0 y.length = some y ∧
      getRange (y ++ u ++ v) y.length (y.length + u.length) = some u ∧
      getRange (y ++ u ++ v) (y.length + u.length) (y ++ u ++ v).length = some v := by
  refine ⟨?_, getRange_of_append rfl rfl, ?_⟩
  · have hrange := @getRange_of_append [] y (u ++ v) 0 y.length rfl (Nat.zero_add _).symm
    rwa [List.nil_append, ← List.append_assoc] at hrange
  · have hrange := @getRange_of_append (y ++ u) v [] (y.length + u.length) (y ++ u ++ v).length
      List.length_append.symm List.length_append
    rwa [List.append_nil] at hrange

theorem length_getRange {bytes range : List UInt8} {start stop : ℕ}
    (h : getRange bytes start stop = some range) : start + range.length = stop := by
  rw [getRange] at h
  split_ifs at h with hrange
  obtain rfl := Option.some.inj h
  rw [List.length_take, List.length_drop]
  omega

namespace Renderable

variable {y u v : List UInt8} {dimensions : Size}

/-- The sixths of the data are the planes exactly if the luma plane is four times as long as
each chroma plane. -/
theorem planes_i420_iff (huv : u.length = v.length) :
    (i420 (y ++ u ++ v) dimensions).y = some y ∧ (i420 (y ++ u ++ v) dimensions).u = some u ∧
        (i420 (y ++ u ++ v) dimensions).v = some v ↔ y.length = 4 * u.length := by
  constructor
  · rintro ⟨hy, hu, -⟩
    have hy := length_getRange hy
    have hu := length_getRange hu
    omega
  · intro hlength
    have htotal : (y ++ u ++ v).length = 6 * u.length := by
      rw [List.length_append, List.length_append, hlength, ← huv]
      ring
    have hfour : (y ++ u ++ v).length / 6 * 4 = y.length := by omega
    have hfive : (y ++ u ++ v).length / 6 * 5 = y.length + u.length := by omega
    rw [Renderable.y, Renderable.u, Renderable.v, hfour, hfive]
    exact getRange_parts y u v

/-- The thirds of the data are three planes of one length. -/
theorem planes_y444 (hyu : y.length = u.length) (huv : u.length = v.length) :
    (y444 (y ++ u ++ v) dimensions).y = some y ∧ (y444 (y ++ u ++ v) dimensions).u = some u ∧
      (y444 (y ++ u ++ v) dimensions).v = some v := by
  have htotal : (y ++ u ++ v).length = 3 * u.length := by
    rw [List.length_append, List.length_append, hyu, ← huv]
    ring
  have hone : (y ++ u ++ v).length / 3 = y.length := by omega
  have htwo : y.length * 2 = y.length + u.length := by omega
  rw [Renderable.y, Renderable.u, Renderable.v, hone, htwo]
  exact getRange_parts y u v

end Renderable

/-! ## From the picture to the renderer -/

/-- The size of a plane: chroma is rounded up to half the size of an I420 picture. -/
def Picture.planeSize (picture : Picture machine) : PlanarImageComponent → Size
  | .y => ⟨picture.width, picture.height⟩
  | .u | .v =>
    if picture.pixelLayout = .i420 then ⟨divCeil picture.width 2, divCeil picture.height 2⟩
    else ⟨picture.width, picture.height⟩

/-- A picture with pixels in it, of a kind that is shown, whose planes have room for it. -/
structure Picture.Accepted (picture : Picture machine) : Prop where
  eightBits : picture.bitDepth = 8
  layout : picture.pixelLayout = .i420 ∨ picture.pixelLayout = .i444
  width_pos : 0 < picture.width
  height_pos : 0 < picture.height
  wide : ∀ component, (picture.planeSize component).width ≤ picture.stride component
  enough : ∀ component,
    (picture.stride component).toNat * (picture.planeSize component).height.toNat ≤
      (picture.plane component).bytes.length

/-- The plane of a component, without padding. -/
def Picture.rows (picture : Picture machine) (component : PlanarImageComponent) : List UInt8 :=
  rowsOf (picture.plane component).bytes (picture.stride component).toNat
    (picture.planeSize component).width.toNat (picture.planeSize component).height.toNat

/-- The planes are copied row by row, and read back where they were written. -/
structure ReadsBack (picture : Picture machine) : Prop where
  copies : ∀ component, copyPlane (picture.plane component) (picture.stride component)
    (picture.planeSize component).width (picture.planeSize component).height =
      some (picture.rows component)
  reads : ∃ yuv, pictureToYuv picture = some yuv ∧
    (Renderable.ofYuv yuv).y = some (picture.rows .y) ∧
    (Renderable.ofYuv yuv).u = some (picture.rows .u) ∧
    (Renderable.ofYuv yuv).v = some (picture.rows .v)

namespace Picture.Accepted

variable {picture : Picture machine}

theorem copies (h : picture.Accepted) (component : PlanarImageComponent) :
    copyPlane (picture.plane component) (picture.stride component)
      (picture.planeSize component).width (picture.planeSize component).height =
        some (picture.rows component) := by
  rw [copyPlane_eq, if_pos ⟨h.wide component, h.enough component⟩]
  rfl

theorem length_rows (h : picture.Accepted) (component : PlanarImageComponent) :
    (picture.rows component).length =
      (picture.planeSize component).width.toNat * (picture.planeSize component).height.toNat :=
  length_rowsOf (UInt32.le_iff_toNat_le.mp (h.wide component)) (h.enough component)

theorem pictureToYuv_i420 (h : picture.Accepted) (hlayout : picture.pixelLayout = .i420) :
    pictureToYuv picture = some ⟨.i420, picture.rows .y ++ picture.rows .u ++ picture.rows .v,
      ⟨picture.width, picture.height⟩⟩ := by
  have hy := h.copies .y
  have hu := h.copies .u
  have hv := h.copies .v
  simp only [planeSize, if_pos hlayout] at hy hu hv
  rw [pictureToYuv, if_neg (not_not.mpr h.eightBits), hlayout]
  simp only [hy, hu, hv]
  rfl

theorem pictureToYuv_i444 (h : picture.Accepted) (hlayout : picture.pixelLayout = .i444) :
    pictureToYuv picture = some ⟨.y444, picture.rows .y ++ picture.rows .u ++ picture.rows .v,
      ⟨picture.width, picture.height⟩⟩ := by
  have hnot : picture.pixelLayout ≠ .i420 := by
    rw [hlayout]
    decide
  have hy := h.copies .y
  have hu := h.copies .u
  have hv := h.copies .v
  simp only [planeSize, if_neg hnot] at hy hu hv
  rw [pictureToYuv, if_neg (not_not.mpr h.eightBits), hlayout]
  simp only [hy, hu, hv]
  rfl

end Picture.Accepted

theorem toNat_divCeil_two (n : UInt32) : (divCeil n 2).toNat = (n.toNat + 1) / 2 := by
  have hlt := n.toNat_lt
  have htwo : (2 : UInt32).toNat = 2 := rfl
  have hone : (1 : UInt32).toNat = 1 := rfl
  have hmod : n % 2 = 0 ↔ n.toNat % 2 = 0 := by
    rw [← UInt32.toNat_inj, UInt32.toNat_mod]
    rfl
  rw [divCeil]
  split_ifs with h
  · have heven := hmod.mp h
    rw [UInt32.toNat_div, htwo]
    omega
  · have hodd := mt hmod.mpr h
    rw [UInt32.toNat_add, UInt32.toNat_div, htwo, hone]
    omega

/-- Four times the rounded-up halves are the whole exactly if nothing was rounded. -/
theorem mul_eq_four_mul_iff {width height : ℕ} (hwidth : 0 < width) (hheight : 0 < height) :
    width * height = 4 * ((width + 1) / 2 * ((height + 1) / 2)) ↔ Even width ∧ Even height := by
  constructor
  · intro h
    have hw : width ≤ 2 * ((width + 1) / 2) := by omega
    have hh : height ≤ 2 * ((height + 1) / 2) := by omega
    have hproduct : width * height = 2 * ((width + 1) / 2) * (2 * ((height + 1) / 2)) := by
      rw [h]
      ring
    have hwidthEq : width = 2 * ((width + 1) / 2) := by
      by_contra hne
      have hlt : width < 2 * ((width + 1) / 2) := lt_of_le_of_ne hw hne
      exact absurd hproduct (Nat.mul_lt_mul_of_lt_of_le hlt hh (hheight.trans_le hh)).ne
    have hheightEq : height = 2 * ((height + 1) / 2) := by
      by_contra hne
      have hlt : height < 2 * ((height + 1) / 2) := lt_of_le_of_ne hh hne
      exact absurd hproduct (Nat.mul_lt_mul_of_le_of_lt hw hlt (hwidth.trans_le hw)).ne
    rw [Nat.even_iff, Nat.even_iff]
    omega
  · rintro ⟨⟨a, rfl⟩, ⟨b, rfl⟩⟩
    have ha : (a + a + 1) / 2 = a := by omega
    have hb : (b + b + 1) / 2 = b := by omega
    rw [ha, hb]
    ring

/-- The planes of an accepted picture are read back where they were written, unless the sizes
of chroma planes had to be rounded. -/
theorem readsBack_iff {picture : Picture machine} (h : picture.Accepted) :
    ReadsBack picture ↔ picture.pixelLayout = .i444 ∨
      Even picture.width.toNat ∧ Even picture.height.toNat := by
  have hy := h.length_rows .y
  have hu := h.length_rows .u
  have hv := h.length_rows .v
  rcases h.layout with hlayout | hlayout
  · simp only [Picture.planeSize, if_pos hlayout, toNat_divCeil_two] at hy hu hv
    have hwidth := UInt32.lt_iff_toNat_lt.mp h.width_pos
    have hheight := UInt32.lt_iff_toNat_lt.mp h.height_pos
    have hplanes := @Renderable.planes_i420_iff (picture.rows .y) (picture.rows .u)
      (picture.rows .v) ⟨picture.width, picture.height⟩ (hu.trans hv.symm)
    rw [hy, hu, mul_eq_four_mul_iff hwidth hheight] at hplanes
    rw [hlayout, ← hplanes, or_iff_right (by decide)]
    constructor
    · intro hreads
      obtain ⟨yuv, hyuv, hread⟩ := hreads.reads
      obtain rfl := Option.some.inj ((h.pictureToYuv_i420 hlayout).symm.trans hyuv)
      exact hread
    · intro hread
      exact ⟨h.copies, _, h.pictureToYuv_i420 hlayout, hread⟩
  · have hnot : picture.pixelLayout ≠ .i420 := by
      rw [hlayout]
      decide
    simp only [Picture.planeSize, if_neg hnot] at hy hu hv
    refine iff_of_true ⟨h.copies, _, h.pictureToYuv_i444 hlayout, ?_⟩ (Or.inl hlayout)
    exact Renderable.planes_y444 (hy.trans hu.symm) (hu.trans hv.symm)

def twoByTwo : Picture .bits64 where
  bitDepth := 8
  width := 2
  height := 2
  pixelLayout := .i420
  plane
    | .y => ⟨[1, 2, 3, 4], by decide⟩
    | .u => ⟨[5], by decide⟩
    | .v => ⟨[6], by decide⟩
  stride
    | .y => 2
    | .u | .v => 1

theorem readsBack_twoByTwo : twoByTwo.Accepted ∧ ReadsBack twoByTwo := by
  have haccepted : twoByTwo.Accepted :=
    ⟨rfl, Or.inl rfl, by decide, by decide, by rintro (_ | _ | _) <;> decide,
      by rintro (_ | _ | _) <;> decide⟩
  exact ⟨haccepted, (readsBack_iff haccepted).mpr (Or.inr ⟨by decide, by decide⟩)⟩

def onePixel : Picture .bits64 where
  bitDepth := 8
  width := 1
  height := 1
  pixelLayout := .i420
  plane
    | .y => ⟨[1], by decide⟩
    | .u => ⟨[2], by decide⟩
    | .v => ⟨[3], by decide⟩
  stride _ := 1

/-- The three bytes of a single pixel have no sixth. -/
theorem not_readsBack_onePixel : onePixel.Accepted ∧ ¬ ReadsBack onePixel := by
  constructor
  · exact ⟨rfl, Or.inl rfl, by decide, by decide, by rintro (_ | _ | _) <;> decide,
      by rintro (_ | _ | _) <;> decide⟩
  · intro hreads
    obtain ⟨yuv, hyuv, hy, -⟩ := hreads.reads
    have hcopied : pictureToYuv onePixel = some ⟨.i420, [1, 2, 3], ⟨1, 1⟩⟩ := by decide +kernel
    obtain rfl := Option.some.inj (hcopied.symm.trans hyuv)
    exact absurd (length_getRange hy) (by decide)

end ManInTheBox.Playback
