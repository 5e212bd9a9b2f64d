/-
  LispCore — the names of encodings.

  A name is compared without regard to case, and any run of characters other
  than letters, digits and points in it counts as one underscore.

  * `normalizeName`: the normal form of a name;
  * `encodingAliases`, `encodingNames`: the normal forms that name an encoding.  They are
    those of the encodings that are modelled, and the host knows others;
  * `Encoding.ofName`: the encoding of a name, or the fault of having none.
-/
import LispCore.File.Fault

namespace LispCore

/-- Whether a character stands in a name for itself. -/
def isNameChar (c : Char) : Bool := c.isAlphanum || c == '.'

/-- The normal form of the rest of a name: `started` tells whether anything came
    before, and `gap` whether the last character was dropped. -/
def normalizeFrom (started gap : Bool) : List Char → List Char
  | [] => []
  | c :: rest =>
    if isNameChar c then
      if started && gap then '_' :: c.toLower :: normalizeFrom true false rest
      else c.toLower :: normalizeFrom true false rest
    else normalizeFrom started true rest

/-- The normal form of a name. -/
def normalizeName (name : String) : String :=
  String.ofList (normalizeFrom false false name.toList)

/-- What a name stands for: an encoding of text, or something that transforms
    data but does not encode text. -/
inductive Codec where
  | text (encoding : Encoding)
  | other
  deriving DecidableEq, Repr

/-- The normal forms that stand for one of the encodings or of the transformations under
    another name.  The host has more encodings than are modelled (`cp1252` and `utf-32` among
    them); their names are left out here, and answer the fault of naming no encoding. -/
def encodingAliases : List (String × Codec) :=
  (["u8", "utf", "utf8", "utf8_ucs2", "utf8_ucs4", "cp65001"].map (·, .text .utf8)) ++
  (["646", "ansi_x3.4_1968", "ansi_x3.4_1986", "ansi_x3_4_1968", "cp367", "csascii", "ibm367",
    "iso646_us", "iso_646.irv_1991", "iso_ir_6", "us", "us_ascii"].map (·, .text .ascii)) ++
  (["8859", "cp819", "csisolatin1", "ibm819", "iso8859", "iso8859_1", "iso_8859_1",
    "iso_8859_1_1987", "iso_ir_100", "l1", "latin", "latin1"].map (·, .text .latin1)) ++
  (["u16", "utf16"].map (·, .text .utf16)) ++
  (["unicodelittleunmarked", "utf_16le"].map (·, .text .utf16Little)) ++
  (["unicodebigunmarked", "utf_16be"].map (·, .text .utf16Big)) ++
  (["hex", "rot13", "base64", "base_64", "bz2", "quopri", "quoted_printable",
    "quotedprintable", "uu", "zip", "zlib"].map (·, .other))

/-- The normal forms that are the names of the encodings and of the transformations
    themselves, with the same ones left out. -/
def encodingNames : List (String × Codec) :=
  [("utf_8", .text .utf8), ("utf_8_sig", .text .utf8Signed), ("ascii", .text .ascii),
    ("latin_1", .text .latin1), ("iso8859_1", .text .latin1), ("utf_16", .text .utf16),
    ("utf_16_le", .text .utf16Little), ("utf_16_be", .text .utf16Big), ("hex_codec", .other),
    ("rot_13", .other), ("base64_codec", .other), ("bz2_codec", .other),
    ("quopri_codec", .other), ("uu_codec", .other), ("zlib_codec", .other)]

/-- A name with underscores for its points. -/
def withoutPoints (name : String) : String :=
  String.ofList (name.toList.map fun c => if c = '.' then '_' else c)

/-- What a name stands for.  Among the other names it is also looked for with
    underscores for its points. -/
def Codec.ofName? (name : String) : Option Codec :=
  let normal := normalizeName name
  encodingAliases.lookup normal <|> encodingAliases.lookup (withoutPoints normal) <|>
    encodingNames.lookup normal

/-- The encoding of a name, or the fault of having none. -/
def Encoding.ofName (name : String) : Except FileFault Encoding :=
  match Codec.ofName? name with
  | some (.text encoding) => .ok encoding
  | some .other => .error (.notTextEncoding name)
  | none => .error (.unknownEncoding name)

end LispCore
