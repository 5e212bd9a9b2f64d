/-
  LispCore — asking readers.

  * `ReaderFault.error`: what a reader's own failure becomes.  Errors of this library
    stay what they are, and all other failures that have a text are faults of the source
    text;
  * `Reader.read`: what a reader answers for a source text.
-/
import LispCore.Reader.Grammar
import LispCore.World

namespace LispCore

/-- What a reader's own failure becomes.  One of no class of the library is made a fault of
    the source text, for which its text is needed: where it has none, what comes of asking
    for one is left. -/
def ReaderFault.error : ReaderFault → Error
  | domain kind message =>
    if .general ∈ kind.ancestry then .raised kind message else .readerFailed message
  | other message => .readerFailed message
  | missingKey key => .readerFailed (String.ofList (Text.quoted key.toList))
  | textless kind text => .raised kind text

/-- What a reader answers for a source text. -/
def Reader.read (world : World) (reader : Reader) (source : String) : Except Error Value :=
  match reader with
  | .absent => .error .noReader
  | .grammar => (readFirst source).mapError .unreadable
  | .answering answer =>
    match answer source with
    | .ok e => .ok (world.eval e)
    | .error fault => .error fault.error

end LispCore
