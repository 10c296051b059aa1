import Mathlib.Data.List.Induction
import PinnedMap.Picture.Source
import PinnedMap.Proofs.Attempt
import PinnedMap.Proofs.ImageMap.Scaling

/-! How long the sides of a picture can be. Every format states them in 32 bits at most, whether in binary or as
digits, and no header with more is taken. -/
namespace PinnedMap

namespace Picture

variable {bytes rest : Bytes} {dimensions : Dimensions}

private theorem fromBig_lt (bytes : Bytes) : fromBig bytes < 256 ^ bytes.length := by
  induction bytes using List.reverseRecOn with
  | nil => exact Nat.one_pos
  | append_singleton bytes byte ih =>
    have digit : byte.toNat < 256 := byte.toNat_lt
    have more : fromBig (bytes ++ [byte]) = fromBig bytes * 256 + byte.toNat := by
      rw [fromBig,List.foldl_append]
      rfl
    rw [more,List.length_append,List.length_singleton,pow_succ]
    omega

private theorem takeBytes_eq_some {count : Nat} {taken : Bytes} (found : takeBytes count bytes = some (taken,rest)) :
    taken.length = count := by
  unfold takeBytes at found
  split_ifs at found with enough
  rw [List.splitAt_eq] at found
  obtain ⟨rfl,_⟩ := Prod.mk.inj (Option.some.inj found)
  exact List.length_take_of_le enough

private theorem big_lt {count n : Nat} (found : big count bytes = some (n,rest)) : n < 256 ^ count := by
  obtain ⟨⟨taken,_⟩,split,same⟩ := Option.map_eq_some_iff.mp found
  obtain ⟨rfl,_⟩ := Prod.mk.inj same
  exact takeBytes_eq_some split ▸ fromBig_lt taken

private theorem little_lt {count n : Nat} (found : little count bytes = some (n,rest)) : n < 256 ^ count := by
  obtain ⟨⟨taken,_⟩,split,same⟩ := Option.map_eq_some_iff.mp found
  obtain ⟨rfl,_⟩ := Prod.mk.inj same
  have less := fromBig_lt taken.reverse
  rwa [List.length_reverse,takeBytes_eq_some split] at less

private theorem eq_some_of_check {α : Type} {condition : Prop} [Decidable condition] {check : Option Unit}
    {result : Option α} {value : α} (found : (if condition then check.bind fun _ => result else result) = some value) :
    result = some value := by
  split_ifs at found
  · obtain ⟨_,_,found⟩ := Option.bind_eq_some_iff.mp found
    exact found
  · exact found

def IsMeasured (dimensions : Dimensions) : Prop := dimensions.1 < 2 ^ 32 ∧ dimensions.2 < 2 ^ 32

theorem Farbfeld.isMeasured (found : Farbfeld.dimensions bytes = some dimensions) : IsMeasured dimensions := by
  unfold Farbfeld.dimensions at found
  simp only [Option.bind_eq_bind,Option.bind_eq_some_iff,Prod.exists] at found
  obtain ⟨_,_,width,_,isWidth,height,_,isHeight,_,_,same⟩ := found
  obtain rfl := Option.some.inj same
  exact ⟨big_lt isWidth,big_lt isHeight⟩

theorem Qoi.isMeasured (found : Qoi.dimensions bytes = some dimensions) : IsMeasured dimensions := by
  unfold Qoi.dimensions at found
  simp only [Option.bind_eq_bind,Option.bind_eq_some_iff,Prod.exists] at found
  obtain ⟨_,_,width,_,isWidth,height,_,isHeight,_,_,_,_,_,_,_,_,_,_,same⟩ := found
  obtain rfl := Option.some.inj same
  exact ⟨big_lt isWidth,big_lt isHeight⟩

theorem Gif.isMeasured (found : Gif.dimensions bytes = some dimensions) : IsMeasured dimensions := by
  unfold Gif.dimensions at found
  simp only [Option.bind_eq_bind,Option.bind_eq_some_iff,Prod.exists] at found
  obtain ⟨_,_,width,_,isWidth,height,_,isHeight,_,_,_,_,_,_,_,_,_,same⟩ := found
  obtain rfl := Option.some.inj same
  exact ⟨(little_lt isWidth).trans (by norm_num),(little_lt isHeight).trans (by norm_num)⟩

theorem Png.header_lt {header : Png.Header} (found : Png.header bytes = some (header,rest)) :
    IsMeasured (header.width,header.height) := by
  unfold Png.header at found
  simp only [Option.bind_eq_bind,Option.bind_eq_some_iff,Prod.exists] at found
  obtain ⟨_,_,_,_,_,_,_,_,_,_,width,_,isWidth,height,more,isHeight,found⟩ := found
  split at found
  · simp only [Option.bind_eq_some_iff] at found
    obtain ⟨_,_,same⟩ := found
    obtain ⟨rfl,_⟩ := Prod.mk.inj (Option.some.inj same)
    exact ⟨big_lt isWidth,big_lt isHeight⟩
  · cases found

theorem Png.isMeasured (found : Png.dimensions bytes = some dimensions) : IsMeasured dimensions := by
  unfold Png.dimensions at found
  simp only [Option.bind_eq_bind,Option.bind_eq_some_iff,Prod.exists] at found
  obtain ⟨_,_,header,_,isHeader,_,_,same⟩ := found
  obtain rfl := Option.some.inj same
  exact Png.header_lt isHeader

private theorem natAbs_signed32_le {n : Nat} (fits : n < 2 ^ 32) : (signed32 n).natAbs ≤ 2 ^ 31 := by
  unfold signed32
  split_ifs <;> omega

theorem Bmp.coreHeader_lt {header : Bmp.Header} (found : Bmp.coreHeader bytes = some header) :
    IsMeasured (header.width,header.height) := by
  unfold Bmp.coreHeader at found
  simp only [Option.bind_eq_bind,Option.bind_eq_some_iff,Prod.exists] at found
  obtain ⟨width,_,isWidth,height,_,isHeight,_,_,_,_,_,_,_,_,same⟩ := found
  obtain rfl := Option.some.inj same
  exact ⟨(little_lt isWidth).trans (by norm_num),(little_lt isHeight).trans (by norm_num)⟩

theorem Bmp.infoHeader_lt {header : Bmp.Header} (found : Bmp.infoHeader bytes = some header) :
    IsMeasured (header.width,header.height) := by
  unfold Bmp.infoHeader at found
  simp only [Option.bind_eq_bind,Option.bind_eq_some_iff,Prod.exists] at found
  obtain ⟨width,_,isWidth,height,_,isHeight,_,_,_,_,_,_,_,_,_,_,_,_,_,_,_,_,_,_,_,_,_,_,same⟩ := found
  obtain rfl := Option.some.inj same
  exact ⟨little_lt isWidth,(natAbs_signed32_le (little_lt isHeight)).trans_lt (by norm_num)⟩

theorem Bmp.isMeasured (found : Bmp.dimensions bytes = some dimensions) : IsMeasured dimensions := by
  unfold Bmp.dimensions at found
  simp only [Option.bind_eq_bind,Option.bind_eq_some_iff,Prod.exists] at found
  obtain ⟨_,_,_,_,size,_,_,found⟩ := found
  split at found
  case h_7 => cases found
  all_goals
    obtain ⟨header,isHeader,found⟩ := Option.bind_eq_some_iff.mp found
    obtain ⟨_,_,found⟩ := Option.bind_eq_some_iff.mp found
    obtain rfl := Option.some.inj (eq_some_of_check (eq_some_of_check found))
  · exact Bmp.coreHeader_lt isHeader
  all_goals exact Bmp.infoHeader_lt isHeader

theorem Webp.lossy_isMeasured (found : Webp.lossy bytes = some dimensions) : IsMeasured dimensions := by
  unfold Webp.lossy at found
  simp only [Option.bind_eq_bind,Option.bind_eq_some_iff,Prod.exists] at found
  obtain ⟨_,_,_,_,_,_,_,width,_,_,height,_,_,_,_,same⟩ := found
  obtain rfl := Option.some.inj same
  exact ⟨(Nat.mod_lt width (by norm_num)).trans (by norm_num),(Nat.mod_lt height (by norm_num)).trans (by norm_num)⟩

theorem Webp.lossless_isMeasured (found : Webp.lossless bytes = some dimensions) : IsMeasured dimensions := by
  unfold Webp.lossless at found
  simp only [Option.bind_eq_bind,Option.bind_eq_some_iff,Prod.exists] at found
  obtain ⟨_,_,header,_,_,_,_,same⟩ := found
  obtain rfl := Option.some.inj same
  exact ⟨(Nat.mod_lt _ (by norm_num)).trans (by norm_num),(Nat.mod_lt _ (by norm_num)).trans (by norm_num)⟩

theorem Webp.canvas_lt {canvas : Webp.Canvas} (found : Webp.canvas bytes = some canvas) :
    IsMeasured (canvas.width,canvas.height) := by
  unfold Webp.canvas at found
  simp only [Option.bind_eq_bind,Option.bind_eq_some_iff,Prod.exists] at found
  obtain ⟨_,_,_,_,_,width,_,isWidth,height,_,isHeight,_,_,same⟩ := found
  obtain rfl := Option.some.inj same
  have wide := little_lt isWidth
  have high := little_lt isHeight
  constructor <;> dsimp only <;> omega

theorem Webp.extended_isMeasured {total : Nat} {description : Webp.Chunk}
    (found : Webp.extended total description = some dimensions) : IsMeasured dimensions := by
  unfold Webp.extended at found
  simp only [Option.bind_eq_bind,Option.bind_eq_some_iff] at found
  obtain ⟨canvas,isCanvas,_,_,_,_,_,_,same⟩ := found
  obtain rfl := Option.some.inj same
  exact Webp.canvas_lt isCanvas

theorem Webp.isMeasured (found : Webp.dimensions bytes = some dimensions) : IsMeasured dimensions := by
  unfold Webp.dimensions at found
  simp only [Option.bind_eq_bind,Option.bind_eq_some_iff] at found
  obtain ⟨_,_,_,_,_,_,first,_,found⟩ := found
  split_ifs at found
  · exact Webp.lossy_isMeasured found
  · exact Webp.lossless_isMeasured found
  · exact Webp.extended_isMeasured found

theorem Jpeg.frame_lt {frame : Jpeg.Frame} (found : Jpeg.frame bytes = some (frame,rest)) :
    IsMeasured (frame.width,frame.height) := by
  unfold Jpeg.frame at found
  simp only [Option.bind_eq_bind,Option.bind_eq_some_iff,Prod.exists] at found
  obtain ⟨_,_,_,_,_,_,height,_,isHeight,width,_,isWidth,_,_,_,_,_,_,_,_,same⟩ := found
  obtain ⟨rfl,_⟩ := Prod.mk.inj (Option.some.inj same)
  exact ⟨(big_lt isWidth).trans (by norm_num),(big_lt isHeight).trans (by norm_num)⟩

theorem Jpeg.walk_lt {limit : Nat} {met : Option Jpeg.Frame} {afterMark : Bool} {frame : Jpeg.Frame}
    (before : ∀ frame ∈ met, IsMeasured (frame.width,frame.height))
    (found : Jpeg.walk limit met afterMark bytes = some frame) : IsMeasured (frame.width,frame.height) := by
  induction limit generalizing met afterMark bytes with
  | zero => cases found
  | succ limit ih =>
    cases bytes with
    | nil => cases found
    | cons byte rest =>
      rw [Jpeg.walk] at found
      simp only [Option.bind_eq_bind] at found
      split at found
      · exact ih before found
      have going {segment : Option Bytes}
          (found : (segment.bind fun rest => Jpeg.walk limit met false rest) = some frame) :
          IsMeasured (frame.width,frame.height) := by
        obtain ⟨_,_,found⟩ := Option.bind_eq_some_iff.mp found
        exact ih before found
      split at found
      iterate 2
        · exact ih before found
      -- The three kinds of frame.
      iterate 3
        · split_ifs at found
          obtain ⟨⟨new,_⟩,isNew,found⟩ := Option.bind_eq_some_iff.mp found
          refine ih (fun frame met => ?_) found
          obtain rfl := Option.some.inj met
          exact Jpeg.frame_lt isNew
      iterate 3
        · cases found
      -- Tables, and the distance of restarts.
      iterate 2
        · obtain ⟨_,_,found⟩ := Option.bind_eq_some_iff.mp found
          exact going found
      · obtain ⟨_,_,found⟩ := Option.bind_eq_some_iff.mp found
        obtain ⟨_,_,found⟩ := Option.bind_eq_some_iff.mp found
        exact going found
      -- The scan.
      · obtain ⟨last,isMet,found⟩ := Option.bind_eq_some_iff.mp found
        obtain ⟨_,_,same⟩ := Option.bind_eq_some_iff.mp found
        exact Option.some.inj same ▸ before last isMet
      iterate 2
        · exact going found

theorem Jpeg.isMeasured (found : Jpeg.dimensions bytes = some dimensions) : IsMeasured dimensions := by
  unfold Jpeg.dimensions at found
  simp only [Option.bind_eq_bind,Option.bind_eq_some_iff] at found
  obtain ⟨_,_,frame,isFrame,same⟩ := found
  obtain rfl := Option.some.inj same
  exact Jpeg.walk_lt (by nofun) isFrame

theorem Pnm.number?_lt {digits : List Char} {n : Nat} (found : Pnm.number? digits = some n) : n < 2 ^ 32 := by
  unfold Pnm.number? at found
  dsimp only at found
  split_ifs at found with _ fits
  exact Option.some.inj found ▸ fits

theorem Pnm.nextNumber_lt {n : Nat} (found : Pnm.nextNumber bytes = some (n,rest)) : n < 2 ^ 32 := by
  unfold Pnm.nextNumber at found
  simp only [Option.bind_eq_bind,Option.bind_eq_some_iff] at found
  obtain ⟨_,isNumber,same⟩ := found
  obtain ⟨rfl,_⟩ := Prod.mk.inj (Option.some.inj same)
  exact Pnm.number?_lt isNumber

theorem Pnm.plain_isMeasured {hasMaximum : Bool} {samples : Nat}
    (found : Pnm.plain hasMaximum samples bytes = some dimensions) : IsMeasured dimensions := by
  unfold Pnm.plain at found
  simp only [Option.bind_eq_bind,Option.bind_eq_some_iff,Prod.exists] at found
  obtain ⟨width,_,isWidth,height,_,isHeight,found⟩ := found
  split_ifs at found
  all_goals
    simp only [Option.bind_eq_some_iff] at found
    obtain ⟨_,_,_,_,_,_,same⟩ := found
    obtain rfl := Option.some.inj same
    exact ⟨Pnm.nextNumber_lt isWidth,Pnm.nextNumber_lt isHeight⟩

theorem Pnm.fill_lt {slot filled : Option Nat} {text : List Char} (found : Pnm.fill slot text = some filled) :
    ∀ n ∈ filled, n < 2 ^ 32 := by
  unfold Pnm.fill at found
  intro n member
  split at found
  · cases found
  all_goals
    obtain ⟨_,isNumber,rfl⟩ := Option.map_eq_some_iff.mp found
    obtain rfl := Option.some.inj member
    exact Pnm.number?_lt isNumber

def Pnm.Lines.IsMeasured (lines : Pnm.Lines) : Prop :=
  (∀ width ∈ lines.width, width < 2 ^ 32) ∧ ∀ height ∈ lines.height, height < 2 ^ 32

theorem Pnm.takeLine_isMeasured {lines taken : Pnm.Lines} {line : List Char} {isLast : Bool}
    (before : lines.IsMeasured) (found : Pnm.takeLine lines line = some (taken,isLast)) : taken.IsMeasured := by
  unfold Pnm.takeLine at found
  simp only [Option.bind_eq_bind] at found
  split at found
  · cases found
    exact before
  · obtain ⟨_,isWidth,same⟩ := Option.bind_eq_some_iff.mp found
    cases same
    exact ⟨Pnm.fill_lt isWidth,before.2⟩
  · obtain ⟨_,isHeight,same⟩ := Option.bind_eq_some_iff.mp found
    cases same
    exact ⟨before.1,Pnm.fill_lt isHeight⟩
  iterate 2
    · obtain ⟨_,_,same⟩ := Option.bind_eq_some_iff.mp found
      cases same
      exact before
  · cases found
    exact before
  · cases found

theorem Pnm.readLines_isMeasured {limit : Nat} {lines all : Pnm.Lines} (before : lines.IsMeasured)
    (found : Pnm.readLines limit lines bytes = some all) : all.IsMeasured := by
  induction limit generalizing lines bytes with
  | zero => cases found
  | succ limit ih =>
    cases bytes with
    | nil => cases found
    | cons byte rest =>
      simp only [Pnm.readLines,Option.bind_eq_bind] at found
      split_ifs at found
      · exact ih before found
      · obtain ⟨_,_,found⟩ := Option.bind_eq_some_iff.mp found
        obtain ⟨⟨taken,isLast⟩,takes,found⟩ := Option.bind_eq_some_iff.mp found
        have after := Pnm.takeLine_isMeasured before takes
        dsimp only at found
        split_ifs at found
        · exact Option.some.inj found ▸ after
        · exact ih after found

theorem Pnm.arbitrary_isMeasured (found : Pnm.arbitrary bytes = some dimensions) : IsMeasured dimensions := by
  unfold Pnm.arbitrary at found
  simp only [Option.bind_eq_bind,Option.bind_eq_some_iff] at found
  obtain ⟨_,_,lines,isHeader,width,isWidth,height,isHeight,_,_,_,_,_,_,same⟩ := found
  obtain rfl := Option.some.inj same
  have measured := Pnm.readLines_isMeasured ⟨by nofun,by nofun⟩ isHeader
  exact ⟨measured.1 width isWidth,measured.2 height isHeight⟩

theorem Pnm.isMeasured (found : Pnm.dimensions bytes = some dimensions) : IsMeasured dimensions := by
  unfold Pnm.dimensions at found
  split at found
  · split at found
    iterate 6
      · exact Pnm.plain_isMeasured found
    · exact Pnm.arbitrary_isMeasured found
    · cases found
  · cases found

theorem Format.isMeasured {format : Format} (found : format.dimensions bytes = some dimensions) :
    IsMeasured dimensions := by
  cases format with
  | png => exact Png.isMeasured found
  | jpeg => exact Jpeg.isMeasured found
  | gif => exact Gif.isMeasured found
  | webp => exact Webp.isMeasured found
  | bmp => exact Bmp.isMeasured found
  | qoi => exact Qoi.isMeasured found
  | pnm => exact Pnm.isMeasured found
  | farbfeld => exact Farbfeld.isMeasured found

end Picture

open Picture

theorem ImageSource.isPictured_of_headerSize {format : Option Format} {bytes : Option Bytes} {natural : Size}
    (found : headerSize format bytes = .ok natural) : natural.IsPictured := by
  unfold headerSize at found
  split at found
  next dimensions measured =>
    obtain ⟨format,_,measured⟩ := Option.bind_eq_some_iff.mp measured
    obtain ⟨bytes,_,measured⟩ := Option.bind_eq_some_iff.mp measured
    obtain ⟨wide,high⟩ := format.isMeasured measured
    exact ⟨_,_,wide,high,(Except.ok.inj found).symm⟩
  next => cases found

/-- An image that loads has sides of 32 bits. -/
theorem ImageSource.isPictured_of_load {files : Files} {root url : String} {natural : Size}
    (loaded : load files root url = .ok natural) : natural.IsPictured := by
  unfold load at loaded
  obtain ⟨location,_,loaded⟩ := Attempt.bind_eq_ok.mp loaded
  split at loaded
  · obtain ⟨bytes,_,loaded⟩ := Attempt.bind_eq_ok.mp loaded
    exact isPictured_of_headerSize loaded
  · exact isPictured_of_headerSize loaded

end PinnedMap
