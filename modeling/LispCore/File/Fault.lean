/-
  LispCore — why a file cannot be read.

  * `FileFault`: a path that names no file, an encoding that is none, or contents
    that are not in the encoding;
  * `FileFault.message`: its text, for the path given.
-/
import LispCore.Encoding.Fault
import LispCore.Text.Clipped

namespace LispCore

/-- Why a file cannot be read. -/
inductive FileFault where
  /-- The path holds a null character. -/
  | nullInPath
  /-- A part of the path does not exist. -/
  | notFound
  /-- A part of the path that must be a directory is a file. -/
  | notDirectory
  /-- The path names a directory. -/
  | isDirectory
  /-- The path, or a part of it, is too long. -/
  | nameTooLong
  /-- There is no encoding of that name. -/
  | unknownEncoding (name : String)
  /-- What has that name does not encode text. -/
  | notTextEncoding (name : String)
  /-- The contents are not in the encoding. -/
  | malformed (fault : Malformed)
  /-- The contents do not tell their byte order. -/
  | noByteOrder
  deriving DecidableEq, Repr

/-- A path as messages show it. -/
def quotedPath (path : String) : String := String.ofList (Text.quoted path.toList)

/-- The name of something that is no encoding of text, as messages show it: up to
    its first 400 bytes. -/
def clippedName (name : String) : String := String.ofList (Text.clipped 400 name.toList)

/-- The text of a fault, for the path that was given. -/
def FileFault.message (path : String) : FileFault → String
  | nullInPath => "embedded null byte"
  | notFound => s!"[Errno 2] No such file or directory: {quotedPath path}"
  | notDirectory => s!"[Errno 20] Not a directory: {quotedPath path}"
  | isDirectory => s!"[Errno 21] Is a directory: {quotedPath path}"
  | nameTooLong => s!"[Errno 36] File name too long: {quotedPath path}"
  | unknownEncoding name => "unknown encoding: " ++ name
  | notTextEncoding name =>
    s!"'{clippedName name}' is not a text encoding; use codecs.open() to handle arbitrary codecs"
  | malformed fault => fault.message
  | noByteOrder => "UTF-16 stream does not start with BOM"

end LispCore
