import ScriptedPng.Image.Description
import ScriptedPng.Record.Class

/-!
# The records of PNG

The parts of a PNG datastream as records: the signature, the chunk around its data, and the data of
the chunks that are not plain octets. Every number is stored with its most significant octet first.

## Main definitions

* `Png.registry` — the classes of these records.
* `Png.chunkRecord` — a chunk of a type around its data.
* `Png.headerRecord`, `Png.chromaticityRecord`, `Png.paletteArray` — the data of chunks.
-/

namespace ScriptedPng.Png

open Record

/-- The octets that a PNG datastream starts with. -/
def signature : Octets := [0x89, 0x50, 0x4e, 0x47, 0x0d, 0x0a, 0x1a, 0x0a]

/-- An octet. -/
def byteFormat : IntegerFormat := ⟨1, false⟩

/-! ## Enumerations -/

/-- The color types with their numbers. -/
def colorTypes : Enumeration :=
  ⟨"PNGColorType", ColorType.all.map fun type => (type.name, type.code)⟩

/-- The one method of compression. -/
def compressionMethods : Enumeration := ⟨"PNGCompressionType", [("DEFLATE", 0)]⟩

/-- The one method of filtering. -/
def filterMethods : Enumeration := ⟨"PNGFilterType", [("ADAPTIVE", 0)]⟩

/-- The orders of rows and pixels. -/
def interlaceMethods : Enumeration :=
  ⟨"PNGInterlaceType", [Interlace.none, Interlace.adam7].map fun i => (i.name, i.code)⟩

/-- A color type as a member of its enumeration. -/
def colorTypeMember (type : ColorType) : Member := ⟨colorTypes.name, type.name, type.code⟩

/-- An order of rows and pixels as a member of its enumeration. -/
def interlaceMember (interlace : Interlace) : Member :=
  ⟨interlaceMethods.name, interlace.name, interlace.code⟩

/-! ## Fields and classes -/

/-- A number. -/
def numberField (format : IntegerFormat) (value : Value) : Field :=
  .number .fresh .stored format .big none value

/-- A member of an enumeration, stored in an octet. -/
def memberField (choices : Enumeration) (member : Member) : Field :=
  .number .fresh .stored byteFormat .big (some choices) (.member member)

/-- Plain octets. -/
def octetField (octets : Octets) : Field :=
  .octets .fresh none octets

/-- A class of records that inherits from the one at the root alone. -/
def leafClass (id : Nat) (name : String) (fields : List (String × Field)) : Record.Class :=
  ⟨name, [id, 0], fields.map Prod.fst, fields⟩

/-- A record of such a class with the given fields. -/
def leafRecord (cls : Record.Class) (fields : List (String × Field)) : Field :=
  let names := fields.map Prod.fst
  .record .fresh ⟨cls.name, cls.lineage, names, List.range names.length⟩
    (fields.map fun (name, field) => (field.asPart name cls.name).hold)

/-- The class that all classes inherit from. -/
def rootClass : Record.Class := ⟨"Chunk", [0], [], []⟩

/-- The signature. -/
def signatureClass : Record.Class :=
  leafClass 1 "PNGHeader" [("magic", .octets .fresh (some signature.length) signature)]

/-- The fields of a header. -/
def headerFields (width height depth : Int) (type : ColorType) (interlace : Interlace) :
    List (String × Field) :=
  [("width", numberField wordFormat (.integer width)),
    ("height", numberField wordFormat (.integer height)),
    ("depth", numberField byteFormat (.integer depth)),
    ("color", memberField colorTypes (colorTypeMember type)),
    ("compression", memberField compressionMethods ⟨compressionMethods.name, "DEFLATE", 0⟩),
    ("filter", memberField filterMethods ⟨filterMethods.name, "ADAPTIVE", 0⟩),
    ("interlace", memberField interlaceMethods (interlaceMember interlace))]

/-- The data of a header. -/
def headerClass : Record.Class :=
  leafClass 2 "IHDRData" (headerFields 0 0 8 .grayscale .none)

/-- The fields of an entry of a palette. -/
def paletteEntryFields (entry : Rgb) : List (String × Field) :=
  [("red", numberField byteFormat (.integer entry.red)),
    ("green", numberField byteFormat (.integer entry.green)),
    ("blue", numberField byteFormat (.integer entry.blue))]

/-- An entry of a palette. -/
def paletteEntryClass : Record.Class :=
  leafClass 3 "PLTEEntry" (paletteEntryFields ⟨0, 0, 0⟩)

/-- The names of the stored coordinates. -/
def coordinateNames : List String :=
  Primary.all.flatMap fun which => [which.name ++ "_x", which.name ++ "_y"]

/-- The fields of chromaticities, given the coordinates in the order in which they are stored. -/
def chromaticityFields (coordinates : List Int) : List (String × Field) :=
  coordinateNames.zip (coordinates.map fun n => numberField wordFormat (.integer n))

/-- The data of chromaticities. -/
def chromaticityClass : Record.Class :=
  leafClass 4 "cHRMData" (chromaticityFields (List.replicate 8 0))

/-- The fields of a chunk. -/
def chunkFields (type : Octets) (data : Field) : List (String × Field) :=
  [("length", .number .fresh (.sizeOf "Data") wordFormat .big none (.integer 0)),
    ("type", .octets .fresh (some 4) type),
    ("Data", data),
    ("crc", .number .fresh (.checksumOf ["type", "Data"]) wordFormat .big none (.integer 0))]

/-- A chunk. -/
def chunkClass : Record.Class :=
  leafClass 5 "PNGChunk" (chunkFields [0, 0, 0, 0] (octetField []))

/-- The classes of the records of PNG. -/
def registry : Registry :=
  let classes :=
    [rootClass, signatureClass, headerClass, paletteEntryClass, chromaticityClass, chunkClass]
  ⟨classes.length, classes⟩

/-! ## Records -/

/-- The signature. -/
def signatureRecord : Field :=
  leafRecord signatureClass signatureClass.declared

/-- The data of a header. -/
def headerRecord (width height depth : Int) (type : ColorType) (interlace : Interlace) : Field :=
  leafRecord headerClass (headerFields width height depth type interlace)

/-- The data of chromaticities. -/
def chromaticityRecord (coordinates : List Int) : Field :=
  leafRecord chromaticityClass (chromaticityFields coordinates)

/-- The data of a palette. -/
def paletteArray (palette : List Rgb) : Field :=
  let element (entry : Rgb) := Value.field (leafRecord paletteEntryClass (paletteEntryFields entry))
  .array .fresh ⟨3, paletteEntryClass.name⟩ (.list (palette.map element))

/-- A chunk around its data; its type has four octets. -/
def chunkRecord (type : Octets) (data : Field) : Except Fault Field :=
  if type.length = 4 then .ok (leafRecord chunkClass (chunkFields type data))
  else .error (.wrongSize 4)

end ScriptedPng.Png
