/-
  LispCore — which reader a function asks.

  A function that was taken from a namespace asks the reader of that namespace, also after
  another one was built.

  * `World.after`, `World.answer?`: the world and the answers in the course of a session;
  * `World.installed`: the reader that was installed last, and `reader_after`: a call by
    name asks this one;
  * `Action.Obtains`, `Carried`: a variable comes to hold `read-string`, and what a variable
    holds is copied on to others;
  * `Reader.respond`: what `read-string` does over a reader;
  * `World.Bound`: the functions in a world ask readers of a given sort;
  * `World.keeps_reader`: the course of a session.
-/
import LispCore.Proofs.BoundFunctions
import LispCore.Proofs.Call

namespace LispCore

/-! ## The course of a session -/

namespace World

/-- The world after some steps. -/
def after (world : World) (steps : List Step) : World := (world.run steps).2

/-- The answer of a step, by its place in the session. -/
def answer? (world : World) (steps : List Step) (i : ℕ) : Option Answer :=
  (world.run steps).1[i]?

variable (world : World)

@[simp]
theorem after_nil : world.after [] = world := rfl

@[simp]
theorem after_cons (t : Step) (rest : List Step) :
    world.after (t :: rest) = (world.step t).2.after rest := rfl

theorem after_append (steps rest : List Step) :
    world.after (steps ++ rest) = (world.after steps).after rest := by
  induction steps generalizing world with
  | nil => rfl
  | cons t steps ih => simp [ih]

theorem after_snoc (steps : List Step) (t : Step) :
    world.after (steps ++ [t]) = ((world.after steps).step t).2 :=
  world.after_append steps [t]

/-- **Each step answers in the world that the steps before it have left.** -/
theorem answer?_eq (steps : List Step) (i : ℕ) : world.answer? steps i =
    steps[i]?.map fun t => ((world.after (steps.take i)).step t).1 := by
  induction steps generalizing world i with
  | nil => rfl
  | cons t steps ih =>
    cases i with
    | zero => rfl
    | succ i => exact ih (world.step t).2 i

theorem step_answer (t : Step) : (world.step t).1 = (world.perform t.action).1 := by
  unfold step
  cases t.target <;> rfl

end World

/-! ## What is installed -/

/-- The reader that an action installs. -/
def Action.installs? : Action → Option Reader
  | install reader => some reader
  | _ => none

namespace World

variable (world : World)

/-- The reader of the last step that installs one, or else the one that is in force before
    the steps. -/
def installed (steps : List Step) : Reader :=
  ((steps.filterMap fun t => t.action.installs?).getLast?).getD world.scope.reader

theorem installed_snoc (steps : List Step) (t : Step) :
    world.installed (steps ++ [t]) = t.action.installs?.getD (world.installed steps) := by
  unfold installed
  cases h : t.action.installs? with
  | none => simp [List.filterMap_append, h]
  | some reader => simp [List.filterMap_append, h]

/-- Only an installation changes the namespace. -/
theorem reader_perform (action : Action) : (world.perform action).2.scope.reader =
    action.installs?.getD world.scope.reader := by
  cases action with
  | lookup name =>
    unfold perform
    dsimp only
    split <;> rfl
  | apply function arguments =>
    unfold perform
    dsimp only
    split <;> rfl
  | _ => rfl

theorem reader_step (t : Step) : (world.step t).2.scope.reader =
    t.action.installs?.getD world.scope.reader := by
  rw [← reader_perform]
  unfold step
  cases t.target <;> rfl

/-- **The reader in force is the one that was installed last.** -/
theorem reader_after (steps : List Step) :
    (world.after steps).scope.reader = world.installed steps := by
  induction steps using List.reverseRecOn with
  | nil => rfl
  | append_singleton steps t ih =>
    rw [after_snoc, installed_snoc, reader_step, ih]

end World

/-! ## Functions in variables -/

/-- The action takes `read-string` from the namespace, by a name for it or as the entry. -/
inductive Action.Obtains (world : World) : Action → Prop
  | entry : Obtains world (evaluate (.entry .readString))
  | name {e : Expression} (h : (world.eval e).key? = some "read-string") :
      Obtains world (lookup e)

/-- What `x` holds before the steps is held by `y` after them: it stays in a variable as
    long as no step sets that, and is copied by a step that evaluates the variable. -/
inductive Carried (x : String) : List Step → String → Prop
  | start : Carried x [] x
  | kept {steps : List Step} {y : String} {t : Step} (h : Carried x steps y)
      (ht : t.target ≠ some y) : Carried x (steps ++ [t]) y
  | copied {steps : List Step} {y z : String} (h : Carried x steps y) :
      Carried x (steps ++ [⟨.evaluate (.variable y), some z⟩]) z

namespace World

variable (world : World)

/-- A step sets its own variable, and no other. -/
theorem bindings_perform (action : Action) :
    (world.perform action).2.bindings = world.bindings := by
  cases action with
  | lookup name =>
    unfold perform
    dsimp only
    split <;> rfl
  | apply function arguments =>
    unfold perform
    dsimp only
    split <;> rfl
  | _ => rfl

theorem bindings_step_target (action : Action) (x : String) :
    (world.step ⟨action, some x⟩).2.bindings x = (world.perform action).1.value :=
  if_pos rfl

theorem bindings_step_of_ne {t : Step} {x : String} (h : t.target ≠ some x) :
    (world.step t).2.bindings x = world.bindings x := by
  unfold step
  cases ht : t.target with
  | none => exact congrFun (world.bindings_perform t.action) x
  | some y =>
    have hxy : x ≠ y := fun hxy => h (by rw [ht, hxy])
    exact (if_neg hxy).trans (congrFun (world.bindings_perform t.action) x)

/-- What is obtained is the entry of the namespace in force. -/
theorem value_of_obtains {world : World} {action : Action} (h : action.Obtains world) :
    (world.perform action).1.value = .function (.entry .readString world.scope.reader) := by
  cases h with
  | entry => rfl
  | name h =>
    simp only [perform, h]
    rw [Namespace.lookup, show "read-string" = Primitive.readString.name from rfl,
      Primitive.ofName?_name]
    rfl

theorem bindings_of_carried {world : World} {steps : List Step} {x y : String} {f : Function}
    (h : Carried x steps y) (hx : world.bindings x = .function f) :
    (world.after steps).bindings y = .function f := by
  induction h with
  | start => exact hx
  | @kept steps y t _ ht ih => rw [after_snoc, bindings_step_of_ne _ ht, ih]
  | @copied steps y z _ ih =>
    have heval : (world.after steps).eval (.variable y) = .function f := by
      rw [← ih, eval, Expression.eval]
    rw [after_snoc, bindings_step_target]
    simp only [perform, heval]
    rfl

end World

/-! ## What a reader is asked -/

/-- What `read-string` over a reader does. -/
def Reader.respond (reader : Reader) (world : World) (arguments : List Value) : Observed :=
  match arguments with
  | [.string source] =>
    match reader with
    | .absent => .failed .noReader
    | reader => ⟨reader.read world source, "", [.delegating source.length]⟩
  | [v] => .failed (.wrongArgument "read-string" 1 .string v.describe)
  | _ => .failed ((ArityFault.notExactly 1 arguments.length).error "read-string")

theorem Function.apply_readString (world : World) (reader : Reader) (arguments : List Value) :
    (entry .readString reader).apply world arguments = reader.respond world arguments := by
  match arguments with
  | [] => rfl
  | [v] =>
    change delegate world reader v = reader.respond world [v]
    unfold delegate Reader.respond
    cases v with
    | string source => cases reader <;> rfl
    | _ => rfl
  | v :: w :: rest =>
    have hmany : ((v :: w :: rest).length : Int) ≠ 1 := by
      simp only [List.length_cons, Nat.cast_add, Nat.cast_one]
      omega
    rw [apply_entry, Primitive.arity, show Primitive.readString.operands? = some 1 from rfl]
    simp only [Arity.fault?, Nat.cast_one, if_neg hmany]
    cases v <;> rfl

theorem World.callByName_respond (world : World) (arguments : List Value) :
    world.callByName "read-string" arguments = world.scope.reader.respond world arguments := by
  rw [callByName, Namespace.lookup, show "read-string" = Primitive.readString.name from rfl,
    Primitive.ofName?_name]
  exact Function.apply_readString world world.scope.reader arguments

/-! ## Functions in the course of a session -/

namespace World

/-- The functions in the variables, and the namespace, ask readers of the sort. -/
structure Bound (S : Reader → Prop) (world : World) : Prop where
  scope : S world.scope.reader
  bindings : ∀ x, (world.bindings x).BoundTo S

namespace Bound

variable {S : Reader → Prop} {world : World} (h : world.Bound S)
include h

theorem eval (e : Expression) : (world.eval e).BoundTo S := e.boundTo_eval h.bindings h.scope

theorem evalList (es : List Expression) : ∀ v ∈ world.evalList es, v.BoundTo S :=
  boundTo_evalAll h.bindings h.scope es

omit h in
theorem observed {o : Observed} (ho : Yields (Value.BoundTo S) o.result) :
    (Answer.observed o).value.BoundTo S := by
  change (o.result.toOption.getD .nil).BoundTo S
  cases hr : o.result with
  | ok v => exact ho v hr
  | error e => exact Value.flat_nil.boundTo

theorem lookup (name : String) :
    Yields (Value.BoundTo S) ((world.scope.lookup name).map Value.function) := by
  unfold Namespace.lookup
  split
  · refine .ok ((Value.boundTo_atom (by simp)).2 ?_)
    intro _ _ hf
    cases hf
    exact h.scope
  · exact .error _

/-- What a step leaves for a variable. -/
theorem value (action : Action) : (world.perform action).1.value.BoundTo S := by
  cases action with
  | configure | write | render => exact Value.flat_nil.boundTo
  | install reader => exact (Value.flat_number _).boundTo
  | evaluate e =>
    have hanswer : (world.perform (.evaluate e)).1 =
        .variant (world.eval e) ((world.eval e).variant.mapError .noVariant) := rfl
    rw [hanswer]
    cases (world.eval e).variant with
    | ok _ => exact h.eval e
    | error _ => exact Value.flat_nil.boundTo
  | lookup name =>
    unfold perform
    dsimp only
    split
    · exact observed (h.lookup _)
    · exact Value.flat_nil.boundTo
  | call name arguments =>
    refine observed ?_
    unfold callByName
    split
    · exact Value.boundTo_apply h.bindings h.scope _ (h.evalList arguments)
    · exact .error _
  | apply function arguments =>
    unfold perform
    dsimp only
    split
    · exact observed (Value.boundTo_apply h.bindings h.scope _ (h.evalList arguments))
    · exact Value.flat_nil.boundTo

/-- **A step keeps the functions bound.** -/
theorem step {t : Step} (ht : ∀ reader, t.action.installs? = some reader → S reader) :
    (world.step t).2.Bound S := by
  constructor
  · rw [reader_step]
    cases hi : t.action.installs? with
    | none => exact h.scope
    | some reader => exact ht reader hi
  · intro x
    by_cases hx : t.target = some x
    · obtain ⟨action, _⟩ := t
      subst hx
      rw [bindings_step_target]
      exact h.value action
    · rw [bindings_step_of_ne _ hx]
      exact h.bindings x

/-- **So does a session** that installs readers of the sort. -/
theorem after {steps : List Step}
    (hs : ∀ t ∈ steps, ∀ reader, t.action.installs? = some reader → S reader) :
    (world.after steps).Bound S := by
  induction steps generalizing world with
  | nil => exact h
  | cons t steps ih =>
    rw [after_cons]
    exact ih (h.step (hs t List.mem_cons_self)) fun t' ht' => hs t' (List.mem_cons_of_mem t ht')

end Bound

/-- Every reader that is installed was the one installed last at some time. -/
theorem exists_installed (world : World) {steps : List Step} {t : Step} (ht : t ∈ steps)
    {reader : Reader} (hr : t.action.installs? = some reader) :
    ∃ i ≤ steps.length, reader = world.installed (steps.take i) := by
  obtain ⟨before, rest, rfl⟩ := List.append_of_mem ht
  refine ⟨before.length + 1, by simp, ?_⟩
  have htake : (before ++ t :: rest).take (before.length + 1) = before ++ [t] := by
    simp [List.take_append]
  rw [htake, installed_snoc, hr]
  rfl

/-- The steps before `j` are those before `i`, the one at `i`, and those in between. -/
theorem take_eq_append {steps : List Step} {i j : ℕ} {t : Step} (hij : i < j)
    (hi : steps[i]? = some t) :
    steps.take j = steps.take i ++ t :: (steps.take j).drop (i + 1) := by
  have hget : (steps.take j)[i]? = some t := by
    rw [List.getElem?_take_of_lt hij, hi]
  obtain ⟨hlt, hget⟩ := List.getElem?_eq_some_iff.1 hget
  have hmin : min i j = i := Nat.min_eq_left hij.le
  rw [← hget, List.getElem_cons_drop, ← hmin, ← List.take_take, hmin, List.take_append_drop]

/-- The variable that the function was carried to holds it, with the reader that was
    installed last when it was obtained. -/
theorem bindings_of_obtains (world : World) {steps : List Step} {i j : ℕ} {action : Action}
    {x y : String} (hij : i < j) (hi : steps[i]? = some ⟨action, some x⟩)
    (hobtains : action.Obtains (world.after (steps.take i)))
    (hcarried : Carried x ((steps.take j).drop (i + 1)) y) :
    (world.after (steps.take j)).bindings y =
      .function (.entry .readString (world.installed (steps.take i))) := by
  rw [take_eq_append hij hi, after_append, after_cons, ← reader_after]
  refine bindings_of_carried hcarried ?_
  rw [bindings_step_target, value_of_obtains hobtains]

/-- **A function keeps the reader of its namespace.**  In every session: a call by name asks
    the reader that was installed last.  A function `read-string` that a step has obtained
    asks the reader that was installed last then, at whatever later step it is applied and
    through whatever variables it was copied.  All functions anywhere in the variables ask
    readers that were installed last at some time. -/
theorem keeps_reader (environment : Environment) (files : FileStore) (reader : Reader)
    (steps : List Step) :
    let start := initial environment files reader
    (∀ (j : ℕ) (arguments : List Expression) (target : Option String),
      steps[j]? = some ⟨.call "read-string" arguments, target⟩ →
      let now := start.after (steps.take j)
      start.answer? steps j = some (.observed
        ((start.installed (steps.take j)).respond now (now.evalList arguments)))) ∧
    (∀ (i j : ℕ) (action : Action) (x y : String) (arguments : List Expression)
      (target : Option String), i < j → steps[i]? = some ⟨action, some x⟩ →
      action.Obtains (start.after (steps.take i)) → Carried x ((steps.take j).drop (i + 1)) y →
      steps[j]? = some ⟨.apply (.variable y) arguments, target⟩ →
      let now := start.after (steps.take j)
      start.answer? steps j = some (.observed
        ((start.installed (steps.take i)).respond now (now.evalList arguments)))) ∧
    ∀ (j : ℕ) (x : String) (path : Path) (p : Primitive) (r : Reader),
      ((start.after (steps.take j)).bindings x).at? path = some (.function (.entry p r)) →
      ∃ i ≤ j, r = start.installed (steps.take i) := by
  intro start
  refine ⟨?_, ?_, ?_⟩
  · intro j arguments target hj now
    rw [answer?_eq, hj, Option.map_some, step_answer, ← reader_after, ← callByName_respond]
    rfl
  · intro i j action x y arguments target hij hi hobtains hcarried hj now
    have hbound : now.bindings y =
        .function (.entry .readString (start.installed (steps.take i))) :=
      start.bindings_of_obtains hij hi hobtains hcarried
    have heval : now.eval (.variable y) = now.bindings y := by rw [eval, Expression.eval]
    rw [answer?_eq, hj, Option.map_some, step_answer, ← Function.apply_readString]
    change some (now.perform _).1 = _
    simp only [perform, heval, hbound]
  · intro j x path p r hpath
    have hstart : start.Bound fun r => ∃ i ≤ j, r = start.installed (steps.take i) :=
      ⟨⟨0, Nat.zero_le j, rfl⟩, fun _ => Value.flat_nil.boundTo⟩
    have hsteps : ∀ t ∈ steps.take j, ∀ reader, t.action.installs? = some reader →
        ∃ i ≤ j, reader = start.installed (steps.take i) := by
      intro t ht reader hr
      obtain ⟨i, hi, rfl⟩ := start.exists_installed ht hr
      rw [List.take_take]
      exact ⟨min i j, Nat.min_le_right i j, rfl⟩
    exact (hstart.after hsteps).bindings x path _ hpath p r rfl

/-- A session in which the variable that the function was obtained for is set again, by a
    step that fails, after another reader was installed and the function was copied. -/
def switchingSession : List Step :=
  [⟨.lookup (.symbol "read-string"), some "f"⟩,
    ⟨.install .echo, none⟩,
    ⟨.evaluate (.variable "f"), some "g"⟩,
    ⟨.evaluate (.foreign "tuple"), some "f"⟩,
    ⟨.apply (.variable "g") [.string "a"], none⟩,
    ⟨.call "read-string" [.string "a"], none⟩]

/-- The function has no reader to ask, and a call by name asks the one installed. -/
theorem keeps_reader_switching :
    (0 < 4 ∧ switchingSession[0]? = some ⟨.lookup (.symbol "read-string"), some "f"⟩ ∧
      (Action.lookup (.symbol "read-string")).Obtains (initial {} .empty .absent) ∧
      Carried "f" ((switchingSession.take 4).drop 1) "g" ∧
      switchingSession[4]? = some ⟨.apply (.variable "g") [.string "a"], none⟩ ∧
      switchingSession[5]? = some ⟨.call "read-string" [.string "a"], none⟩) ∧
    (initial {} .empty .absent).answer? switchingSession 4 = some (.observed (.failed .noReader)) ∧
    (initial {} .empty .absent).answer? switchingSession 5 = some (.observed
      ⟨.ok (.list [.symbol "source", .string "a"]), "", [.delegating 1]⟩) := by
  have hobtains : (Action.lookup (.symbol "read-string")).Obtains (initial {} .empty .absent) :=
    .name rfl
  have hcarried : Carried "f" ((switchingSession.take 4).drop 1) "g" :=
    ((Carried.start.kept (t := ⟨.install .echo, none⟩) (by decide)).copied (z := "g")).kept
      (t := ⟨.evaluate (.foreign "tuple"), some "f"⟩) (by decide)
  obtain ⟨hcall, happly, -⟩ := keeps_reader {} .empty .absent switchingSession
  refine ⟨⟨by decide, rfl, hobtains, hcarried, rfl, rfl⟩, ?_, ?_⟩
  · exact happly 0 4 _ "f" "g" [.string "a"] none (by decide) rfl hobtains hcarried rfl
  · exact hcall 5 [.string "a"] none rfl

end World

end LispCore
