/-
  LispCore — the guards and handlers of the entries.

  What the entries of the namespace do with their arguments, as it is done on the machine:
  failures are raised and handled where the library raises and handles them.

  * `Settled kinds`: what is done with the guards and handlers in place comes to a result of
    the library, and to no error but of these classes;
  * `Guarded.expectNumber`, `Guarded.arithmetic`, `Guarded.comparison`: arguments of a given
    variant, and operations on two numbers;
  * `Guarded.readFile`, `Guarded.delegate`: reading a file and reading a source text;
  * `Reader.kinds`, `Reader.textFault?`: the classes of the errors that a reader is the cause
    of, and the failure to make a text of what it raises;
  * `Console`: the standard output, of which only is known which texts it takes;
  * `Guarded.printLine`: writing a line to it.
-/
import LispCore.Proofs.Call
import LispCore.Proofs.Guarded

namespace LispCore

section
variable {α β : Type} {kinds kinds' : List Kind}

/-- The guarded computation comes to the result, and its errors are of these classes. -/
structure Settled (kinds : List Kind) (x : Except Raised α) (y : Except Error α) : Prop where
  eq : x = contained y
  confined : Confined kinds y

namespace Settled

theorem ok (a : α) : Settled kinds (.ok a) (.ok a) := ⟨rfl, .ok a⟩

theorem error {e : Error} (h : e.kind ∈ kinds) :
    Settled kinds (.error (.ofError e)) (.error e : Except Error α) := ⟨rfl, .error h⟩

theorem bind {x : Except Raised α} {y : Except Error α} {f : α → Except Raised β}
    {g : α → Except Error β} (hx : Settled kinds x y) (hf : ∀ a, Settled kinds (f a) (g a)) :
    Settled kinds (x >>= f) (y >>= g) := by
  refine ⟨?_, hx.confined.bind fun a => (hf a).confined⟩
  rw [hx.eq, contained_bind]
  congr 1
  exact funext fun a => (hf a).eq

theorem map {x : Except Raised α} {y : Except Error α} (hx : Settled kinds x y) (f : α → β) :
    Settled kinds (x.map f) (y.map f) :=
  ⟨by rw [hx.eq, contained_map], hx.confined.map f⟩

theorem mono {x : Except Raised α} {y : Except Error α} (hx : Settled kinds x y)
    (h : kinds ⊆ kinds') : Settled kinds' x y :=
  ⟨hx.eq, hx.confined.mono h⟩

end Settled

end

/-! ## Walks -/

namespace Guarded

section
variable {mode : Mode} (env : Environment)

end

/-! ## Arguments of a given variant -/

/-- The error that an argument is not of the variant wanted, for which it is described. -/
def mismatch {α : Type} (operator : String) (position : Int) (wanted : Variant) (v : Value) :
    Except Raised α := do
  let got ← describe v
  .error (.ofError (.wrongArgument operator position wanted got))

/-- The number that an argument is. -/
def expectNumber (operator : String) (position : Int) (v : Value) : Except Raised Double :=
  match v with
  | .number x => .ok x
  | .integer n => widen n
  | v => mismatch operator position .number v

/-- The string that an argument is. -/
def expectString (operator : String) (position : Int) (v : Value) : Except Raised String :=
  match v with
  | .string s => .ok s
  | v => mismatch operator position .string v

/-- The result of an operation on two numbers. -/
def arithmetic (operator : String) (operation : Double → Double → Except Raised Double)
    (a b : Value) : Except Raised Value := do
  let x ← expectNumber operator 1 a
  let y ← expectNumber operator 2 b
  let z ← operation x y
  .ok (.number z)

/-- The machine's quotient. -/
def divide (x y : Double) : Except Raised Double :=
  if y.isZero then .error (.fault .zeroDivision "float division by zero") else .ok (x.div y)

/-- The quotient, for which the divisor is checked first. -/
def quotient (x y : Double) : Except Raised Double :=
  if y.isZero then .error (.ofError .divisionByZero) else divide x y

/-- Whether two numbers are in a relation. -/
def comparison (operator : String) (relation : Double → Double → Bool) (a b : Value) :
    Except Raised Value := do
  let x ← expectNumber operator 1 a
  let y ← expectNumber operator 2 b
  .ok (.boolean (relation x y))

section
variable {operator : String} {a b : Value} {kinds : List Kind}

end

end Guarded

/-! ## Files and readers -/

/-- The class of the failure that a fault of a file is. -/
def FileFault.faultClass : FileFault → FaultClass
  | nullInPath | malformed _ | noByteOrder => .value
  | notFound | notDirectory | isDirectory | nameTooLong => .system
  | unknownEncoding _ | notTextEncoding _ => .lookup

namespace ReaderFault

/-- What a reader raises. -/
def raised : ReaderFault → Raised
  | domain kind message => .error kind message
  | other message => .fault .other message
  | missingKey key => .fault .lookup (String.ofList (Text.quoted key.toList))
  | textless kind text => .textless .other kind text

/-- The class of the error of the library that it comes to, if it comes to one. -/
def kinds : ReaderFault → List Kind
  | domain kind _ => if .general ∈ kind.ancestry then [kind] else [.grammar]
  | other _ | missingKey _ => [.grammar]
  | textless kind _ => if .general ∈ kind.ancestry then [kind] else []

end ReaderFault

namespace Reader

/-- The classes of the errors that a reader can be the cause of, for a source text. -/
def kinds (reader : Reader) (source : String) : List Kind :=
  match reader with
  | absent => [.reader]
  | grammar => [.grammar]
  | answering answer =>
    match answer source with
    | .ok _ => []
    | .error fault => fault.kinds

end Reader

namespace Guarded

/-- The text of a file, which is opened and decoded. -/
def fileText (world : World) (path : String) : Except Raised String :=
  (world.fileText path).mapError fun fault => .fault fault.faultClass (fault.message path)

/-- The contents of a file, every failure to read it being an error. -/
def readFile (world : World) (path : Value) : Except Raised Value := do
  let path ← expectString "slurp" 1 path
  let text ← quotingFaults ([.system, .value, .lookup].contains ·)
    (fun text => .error .io s!"slurp: cannot read {quotedPath path}: {text}")
    (fileText world path)
  .ok (.string text)

/-- What a reader answers, which fails in its own way. -/
def ask (world : World) (reader : Reader) (source : String) : Except Raised Value :=
  match reader with
  | .absent => .error (.fault .type "'NoneType' object is not callable")
  | .grammar =>
    (readFirst source).mapError fun
      | .stackExhausted => stackFault
      | fault => .ofError (.unreadable fault)
  | .answering answer =>
    match answer source with
    | .ok e => .ok (world.eval e)
    | .error fault => .error fault.raised

/-- What a reader answers, every failure that has a text being an error. -/
def delegate (world : World) (reader : Reader) (source : Value) : Except Raised Value := do
  let text ← expectString "read-string" 1 source
  match reader with
  | .absent => .error (.ofError .noReader)
  | reader =>
    quotingFaults (fun _ => true) (fun text => .ofError (.readerFailed text))
      (ask world reader text)

end Guarded

namespace ReaderFault

theorem general_mem_of_mem_kinds {fault : ReaderFault} {kind : Kind} (h : kind ∈ fault.kinds) :
    .general ∈ kind.ancestry := by
  cases fault with
  | domain own message =>
    rw [kinds] at h
    split at h
    next hown => rwa [List.mem_singleton.1 h]
    next =>
      rw [List.mem_singleton.1 h]
      decide
  | other | missingKey =>
    rw [List.mem_singleton.1 h]
    decide
  | textless own text =>
    rw [kinds] at h
    split at h
    next hown => rwa [List.mem_singleton.1 h]
    next => cases h

end ReaderFault

/-- The standard output, by the failure that is raised when a text is written to it; none is
    where it takes the text.  Which texts that are depends on its encoding. -/
abbrev Console := String → Option (FaultClass × String)

namespace Console

/-- What is raised when a line is written: the text comes first, then the newline. -/
def lineFault? (console : Console) (text : String) : Option (FaultClass × String) :=
  console text <|> console "\n"

/-- Writes a line. -/
def writeLine (console : Console) (text : String) : Except Raised Unit :=
  match console.lineFault? text with
  | none => .ok ()
  | some (c, reason) => .error (.fault c reason)

end Console

namespace Guarded

/-- Renders the arguments, and writes the line of their texts then. -/
def printLine (console : Console) (mode : Mode) (env : Environment) (arguments : List Value) :
    Except Raised Value := do
  let text ← renderSeq mode env " " arguments
  console.writeLine text
  .ok .nil

section
variable {console : Console} {mode : Mode} {env : Environment} {arguments : List Value}

end

end Guarded

end LispCore
