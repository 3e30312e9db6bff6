import Easel.PictureFile.Anymap
import Easel.PictureFile.Bitmap
import Easel.PictureFile.Farbfeld
import Easel.PictureFile.Gif
import Easel.PictureFile.Icon
import Easel.PictureFile.OpenExr
import Easel.PictureFile.Qoi
import Easel.PictureFile.Radiance
import Easel.PictureFile.Surface
import Easel.PictureFile.Tiff
import Easel.PictureFile.WebP
import Easel.Png.Codec

/-!
# Files that hold pictures

What a file is called does not matter for what is in it: the bytes that it begins
with say how its picture is written.
-/

namespace Easel.PictureFile

/-- The formats that are read from the front, with the text that each begins with. -/
def formats : List (String × Reading Picture) :=
  ["P1", "P2", "P3", "P4", "P5", "P6", "P7"].map (·, Anymap.read)
    ++ [("BM", Bitmap.read), ("DDS ", Surface.read), ("farbfeld", Farbfeld.read),
      ("GIF87a", Gif.read), ("GIF89a", Gif.read), ("II*\x00", Tiff.read), ("MM\x00*", Tiff.read),
      ("qoif", Qoi.read), ("#?RADIANCE", Radiance.read), ("RIFF", WebP.read),
      ("v/1\x01", OpenExr.read), ("\x00\x00\x01\x00", Icon.read)]

/-- The picture of a file, if it is of a known format and complete. -/
def decode? (file : ByteArray) : Option Picture :=
  let bytes := file.toList
  if Png.signature.isPrefixOf bytes then (Png.decode? file).map Frame.toPicture
  else
    match formats.find? fun (front, _) => front.toUTF8.toList.isPrefixOf bytes with
    | some (_, read) => (read bytes).map Prod.fst
    | none => none

end Easel.PictureFile
