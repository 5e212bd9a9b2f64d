/-
  LispCore — what calls write to the standard output.

  A line is written only once all arguments have been rendered, and nothing else is written at
  all.

  * `Texts`: the texts of a sequence of values, one for each;
  * `renderSeq_cases`: a sequence has the texts of its values with separators between them, or
    fails with the first value that has no text;
  * `Primitive.lineMode?`: which entries write a line, and in which mode;
  * `Primitive.out_run`: no other entry writes anything;
  * `World.output_all_or_nothing`: a call has written its whole line if it succeeds, and nothing
    if it fails.
-/
import LispCore.Proofs.Call
import LispCore.Proofs.Modes

namespace LispCore

open Value

/-! ## The texts of a sequence -/

/-- The texts of values that lie inside `depth` lists, one for each and in the same order. -/
def Texts (mode : Mode) (limit depth : ℕ) : List Value → List String → Prop :=
  List.Forall₂ fun v t => v.render mode limit depth = .ok t

theorem joinWith_eq (separator : String) : ∀ texts : List String,
    joinWith separator texts = separator.intercalate texts
  | [] => String.intercalate_nil.symm
  | [_] => String.intercalate_singleton.symm
  | t :: u :: texts => by
    rw [joinWith, joinWith_eq separator (u :: texts), String.intercalate_cons_cons]

section
variable {mode : Mode} {limit depth : ℕ} {values : List Value}

theorem texts_of_renderAll {texts : List String}
    (h : renderAll mode limit depth values = .ok texts) : Texts mode limit depth values texts := by
  induction values generalizing texts with
  | nil =>
    cases h
    exact .nil
  | cons v values ih =>
    rw [renderAll] at h
    cases hv : v.render mode limit depth with
    | error e =>
      rw [hv] at h
      cases h
    | ok t =>
      cases hvs : renderAll mode limit depth values with
      | error e =>
        rw [hv, hvs] at h
        cases h
      | ok ts =>
        rw [hv, hvs] at h
        cases h
        exact .cons hv (ih hvs)

/-- **A sequence has the texts of its values**, with the separator between them, or it fails
    with the first value in it that has no text. -/
theorem renderSeq_cases (mode : Mode) (limit : ℕ) (separator : String) (values : List Value) :
    (∃ texts, Texts mode limit 0 values texts ∧
      renderSeq mode limit separator values = .ok (separator.intercalate texts)) ∨
    ∃ (i : ℕ) (v : Value) (e : Error), values[i]? = some v ∧ v.text mode limit = .error e ∧
      (∀ j < i, ∀ w : Value, values[j]? = some w → ∃ t, w.text mode limit = .ok t) ∧
      renderSeq mode limit separator values = .error e := by
  rw [renderSeq]
  rcases renderAll_cases mode limit 0 values with ⟨⟨ts, hts⟩, -⟩ | ⟨i, v, e, hi, hv, he, hbefore⟩
  · refine Or.inl ⟨ts, texts_of_renderAll hts, ?_⟩
    rw [hts, ← joinWith_eq]
    rfl
  · exact Or.inr ⟨i, v, e, hi, hv, hbefore, by rw [he]; rfl⟩

theorem Texts.exists_text {texts : List String} (h : Texts mode limit depth values texts) :
    ∀ v ∈ values, ∃ t, v.render mode limit depth = .ok t := by
  induction h with
  | nil => simp
  | cons ht _ ih => exact List.forall_mem_cons.2 ⟨⟨_, ht⟩, ih⟩

end

/-- Both modes fail alike on a sequence. -/
theorem failAlike_renderSeq (mode mode' : Mode) (limit : ℕ) (separator : String)
    (values : List Value) : FailAlike (renderSeq mode limit separator values)
      (renderSeq mode' limit separator values) := by
  have h : FailAlike (renderAll mode limit 0 values) (renderAll mode' limit 0 values) :=
    failAlike_renderAll mode mode' fun v _ => failAlike_render mode mode' v 0
  rw [renderSeq, renderSeq]
  generalize renderAll mode limit 0 values = x, renderAll mode' limit 0 values = y at h
  cases h with
  | ok ts ts' => exact .ok _ _
  | error e => exact .error e

/-! ## Lines -/

/-- The mode in which an entry writes its arguments as a line, if it writes one. -/
def Primitive.lineMode? : Primitive → Option Mode
  | prn => some .readable
  | println => some .display
  | _ => none

theorem Primitive.lineMode?_ne_none {p : Primitive} :
    p.lineMode? ≠ none ↔ p = prn ∨ p = println := by
  cases p <;> simp [lineMode?]

/-- **A line is written whole or not at all.** -/
theorem printLine_cases (mode : Mode) (limit : ℕ) (arguments : List Value) :
    (∃ texts, Texts mode limit 0 arguments texts ∧
      renderSeq mode limit " " arguments = .ok (" ".intercalate texts) ∧
      printLine mode limit arguments = ⟨.ok .nil, " ".intercalate texts ++ "\n", []⟩) ∨
    ∃ e, (∃ a ∈ arguments, a.text mode limit = .error e) ∧
      renderSeq mode limit " " arguments = .error e ∧
      printLine mode limit arguments = .failed e := by
  rcases renderSeq_cases mode limit " " arguments with
    ⟨texts, htexts, h⟩ | ⟨i, a, e, hi, ha, -, h⟩
  · exact Or.inl ⟨texts, htexts, h, by rw [printLine, h]⟩
  · exact Or.inr ⟨e, ⟨a, List.mem_of_getElem? hi, ha⟩, h, by rw [printLine, h]⟩

theorem out_delegate (world : World) (reader : Reader) (source : Value) :
    (delegate world reader source).out = "" := by
  unfold delegate
  split <;> rfl

theorem out_readFile (world : World) (path : Value) : (readFile world path).out = "" := by
  unfold readFile
  split
  · rfl
  · split <;> rfl

namespace Primitive

variable {p : Primitive}

/-- **An entry that writes no line writes nothing.** -/
theorem out_run {arguments : List Value} (h : p.Takes arguments) (hp : p.lineMode? = none)
    (world : World) (reader : Reader) : (p.run world reader arguments).out = "" := by
  cases p with
  | prn | println => cases hp
  | add | sub | mul | div | less | greater | atMost | atLeast | equals =>
    obtain ⟨a, b, rfl⟩ := h.two rfl
    rfl
  | isList | isEmpty | count =>
    obtain ⟨a, rfl⟩ := h.one rfl
    rfl
  | readString =>
    obtain ⟨a, rfl⟩ := h.one rfl
    exact out_delegate world reader a
  | slurp =>
    obtain ⟨a, rfl⟩ := h.one rfl
    exact out_readFile world a
  | list | prStr | str => rfl

/-- An entry that writes a line takes any number of arguments. -/
theorem takes_of_lineMode? {mode : Mode} (hp : p.lineMode? = some mode)
    (arguments : List Value) : p.Takes arguments := by
  intro n hn
  cases p <;> cases hp <;> cases hn

end Primitive

namespace Function

theorem apply_prStr (world : World) (reader : Reader) (arguments : List Value) :
    (entry .prStr reader).apply world arguments =
      .quiet ((renderSeq .readable world.depthLimit " " arguments).map .string) :=
  apply_of_takes (p := .prStr) (fun n hn => by cases hn) world reader

theorem apply_line {p : Primitive} {mode : Mode} (hp : p.lineMode? = some mode) (world : World)
    (reader : Reader) (arguments : List Value) :
    (entry p reader).apply world arguments = printLine mode world.depthLimit arguments := by
  rw [apply_of_takes (Primitive.takes_of_lineMode? hp arguments)]
  cases p <;> cases hp <;> rfl

/-- A call that has written something writes lines, and has succeeded. -/
theorem exists_of_out_ne {p : Primitive} {world : World} {reader : Reader}
    {arguments : List Value} (h : ((entry p reader).apply world arguments).out ≠ "") :
    p.lineMode? ≠ none ∧ ∃ v, ((entry p reader).apply world arguments).result = .ok v := by
  cases hp : p.lineMode? with
  | none =>
    refine absurd ?_ h
    rw [apply_entry]
    cases hfault : p.arity.fault? arguments.length with
    | some fault => rfl
    | none => exact Primitive.out_run (Primitive.fault?_eq_none_iff.1 hfault) hp world reader
  | some mode =>
    rw [apply_line hp] at h ⊢
    refine ⟨by simp, ?_⟩
    rcases printLine_cases mode world.depthLimit arguments with ⟨_, -, -, hline⟩ | ⟨e, -, -, hline⟩
    · exact ⟨.nil, by rw [hline]⟩
    · exact absurd (by rw [hline]; rfl) h

end Function

namespace World

/-- **Output is all or nothing.**  Whatever entry of a namespace is called, in whatever world,
    on any arguments: only `prn` and `println` write, and only if the call succeeds.  It does so
    just if all arguments have texts; then it answers nil and has written them in order, with
    single spaces between them and a newline at the end, `prn` what `pr-str` answers of the
    same arguments and a newline.  Otherwise it fails as `pr-str` does, and has written nothing,
    whatever comes before the argument that has no text. -/
theorem output_all_or_nothing (world : World) (ns : Namespace) (p : Primitive)
    (arguments : List Value) :
    ∃ f prStr, ns.lookup p.name = .ok f ∧ ns.lookup "pr-str" = .ok prStr ∧
      ((f.apply world arguments).out ≠ "" →
        (p = .prn ∨ p = .println) ∧ ∃ v, (f.apply world arguments).result = .ok v) ∧
      ∀ mode, (p = .prn ∧ mode = .readable ∨ p = .println ∧ mode = .display) →
        ((∃ v, (f.apply world arguments).result = .ok v) ↔
          ∀ a ∈ arguments, ∃ t, a.text mode world.depthLimit = .ok t) ∧
        (∀ v, (f.apply world arguments).result = .ok v → v = .nil ∧
          ∃ texts, Texts mode world.depthLimit 0 arguments texts ∧
            (f.apply world arguments).out = " ".intercalate texts ++ "\n" ∧
            (p = .prn → (prStr.apply world arguments).result =
              .ok (.string (" ".intercalate texts)))) ∧
        ((∃ a ∈ arguments, ∃ e, a.text mode world.depthLimit = .error e) →
          ∃ e, (f.apply world arguments).result = .error e ∧
            (prStr.apply world arguments).result = .error e ∧
            (f.apply world arguments).out = "") := by
  refine ⟨.entry p ns.reader, .entry .prStr ns.reader,
    ns.lookup_name p, ns.lookup_name .prStr, fun h => ?_, fun mode hmode => ?_⟩
  · obtain ⟨hp, hresult⟩ := Function.exists_of_out_ne h
    exact ⟨Primitive.lineMode?_ne_none.1 hp, hresult⟩
  · have hp : p.lineMode? = some mode := by
      rcases hmode with ⟨rfl, rfl⟩ | ⟨rfl, rfl⟩ <;> rfl
    rw [Function.apply_line hp, Function.apply_prStr]
    rcases printLine_cases mode world.depthLimit arguments with
      ⟨texts, htexts, hseq, hline⟩ | ⟨e, ⟨a, ha, hae⟩, hseq, hline⟩ <;> rw [hline]
    · refine ⟨iff_of_true ⟨_, rfl⟩ htexts.exists_text, fun v hv => ?_, ?_⟩
      · cases hv
        refine ⟨rfl, texts, htexts, rfl, ?_⟩
        rintro rfl
        cases hp
        rw [hseq]
        rfl
      · rintro ⟨a, ha, e, he⟩
        obtain ⟨t, ht⟩ := htexts.exists_text a ha
        cases he.symm.trans ht
    · have hprStr : renderSeq .readable world.depthLimit " " arguments = .error e :=
        ((failAlike_renderSeq mode .readable _ " " arguments).error_iff e).1 hseq
      have hfailed (v : Value) : (Observed.failed e).result ≠ .ok v := by rintro ⟨⟩
      refine ⟨iff_of_false (fun ⟨v, hv⟩ => hfailed v hv) fun h => ?_,
        fun v hv => absurd hv (hfailed v), fun _ => ⟨e, rfl, by rw [hprStr]; rfl, rfl⟩⟩
      obtain ⟨t, ht⟩ := h a ha
      cases hae.symm.trans ht

/-- A foreign object inside a list, after an argument that has a text: nothing is written. -/
theorem output_all_or_nothing_late :
    (∃ a ∈ [Value.string "a", .list [.nil, .foreign "set"]], ∃ e,
      a.text .display (initial {} .empty .absent).depthLimit = .error e) ∧
    ∃ f prStr, (Namespace.mk .absent).lookup "println" = .ok f ∧
      (Namespace.mk .absent).lookup "pr-str" = .ok prStr ∧
      ∃ e, (f.apply (initial {} .empty .absent)
          [.string "a", .list [.nil, .foreign "set"]]).result = .error e ∧
        (prStr.apply (initial {} .empty .absent)
          [.string "a", .list [.nil, .foreign "set"]]).result = .error e ∧
        (f.apply (initial {} .empty .absent)
          [.string "a", .list [.nil, .foreign "set"]]).out = "" := by
  have hfails : ∃ a ∈ [Value.string "a", .list [.nil, .foreign "set"]], ∃ e,
      a.text .display (initial {} .empty .absent).depthLimit = .error e :=
    ⟨.list [.nil, .foreign "set"], by simp, .unprintable "set", rfl⟩
  obtain ⟨f, prStr, hf, hprStr, -, hlines⟩ := output_all_or_nothing (initial {} .empty .absent)
    ⟨.absent⟩ .println [.string "a", .list [.nil, .foreign "set"]]
  exact ⟨hfails, f, prStr, hf, hprStr, (hlines .display (Or.inr ⟨rfl, rfl⟩)).2.2 hfails⟩

end World

end LispCore
