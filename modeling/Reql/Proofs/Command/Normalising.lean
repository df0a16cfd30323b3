import Reql.Command.Run
import Reql.Proofs.Wire.Canonical
import Reql.Proofs.Wire.Text

/-!
Rewriting an encoded query is a projection.

A query is printed in the canonical spelling of its term, whatever spelling it
was read from, and both layouts of it are read as the same term. So a printed
query is printed again as it is. The depth that is limited is the one of the
term, on which the spelling and the layout have no influence.
-/

namespace Reql.Command

/-- `Reaches arguments w action s`: the call is for the action, and has read
the settings `s`. -/
def Reaches (arguments : List String) (w : World) (action : Action) (s : Settings) : Prop :=
  ∃ i, Invocation.read arguments w.env = .ok i ∧ i.action = action ∧ loadSettings w i = .ok s

/-- `Rewrites arguments w limit pretty text`: the call is to rewrite `text`,
under a limit on the depth and in one of the two layouts. The layout is
indented if the call or the settings ask for it. -/
def Rewrites (arguments : List String) (w : World) (limit : Option Nat) (pretty : Bool)
    (text : String) : Prop :=
  ∃ input flag s, Reaches arguments w (.encode input flag) s ∧ readInput w input = .ok text ∧
    s.encoder.maxDepth = limit ∧ (flag || s.encoder.pretty) = pretty

/-- `Explains arguments w text`: the call is to explain `text`. -/
def Explains (arguments : List String) (w : World) (text : String) : Prop :=
  ∃ input s, Reaches arguments w (.explain input) s ∧ readInput w input = .ok text

/-- `Prints arguments w text`: the call succeeds and prints `text`. -/
def Prints (arguments : List String) (w : World) (text : String) : Prop :=
  (run arguments w).code = 0 ∧ (run arguments w).stdout = text

/-- `layOut pretty v` is what is printed for a value, line ends included. -/
def layOut (pretty : Bool) (v : Json) : String :=
  (if pretty = true then v.prettyText else v.text) ++ "\n"

section Calls

variable {arguments : List String} {w : World} {text s : String}

theorem prints_iff_of_read {i : Invocation} (h : Invocation.read arguments w.env = .ok i) :
    Prints arguments w s ↔ perform w i = .ok s := by
  rw [Prints, run, h]
  cases hperform : perform w i with
  | ok text => simp [hperform]
  | error report => simp [hperform]

theorem readQuery_eq {input : String} (h : readInput w input = .ok text) :
    readQuery w input = (Term.ofText text).mapError (Report.inStep "Invalid wire query") := by
  rw [readQuery, h]
  rfl

/-- What a call prints depends on the text, the limit and the layout only. -/
theorem prints_iff_of_rewrites {limit : Option Nat} {pretty : Bool}
    (h : Rewrites arguments w limit pretty text) :
    Prints arguments w s ↔
      ∃ t v, Term.ofText text = .ok t ∧ Encoder.encode ⟨limit⟩ t = .ok v ∧
        layOut pretty v = s := by
  obtain ⟨input, flag, settings, ⟨i, hread, haction, hload⟩, hinput, rfl, rfl⟩ := h
  have hperform : perform w i = readQuery w input >>= encodeQuery settings flag := by
    rw [perform, hload]
    simp only [haction, bind, Except.bind]
  rw [prints_iff_of_read hread, hperform, readQuery_eq hinput]
  simp only [encodeQuery, Settings.toEncoder, bind_eq_ok_iff, mapError_eq_ok_iff, Except.ok.injEq,
    exists_and_left, layOut]

theorem prints_iff_of_explains (h : Explains arguments w text) :
    Prints arguments w s ↔ ∃ t, Term.ofText text = .ok t ∧ t.explain ++ "\n" = s := by
  obtain ⟨input, settings, ⟨i, hread, haction, hload⟩, hinput⟩ := h
  have hperform : perform w i = readQuery w input >>= fun t => .ok (t.explain ++ "\n") := by
    rw [perform, hload]
    simp only [haction, bind, Except.bind]
  rw [prints_iff_of_read hread, hperform, readQuery_eq hinput]
  simp only [bind_eq_ok_iff, mapError_eq_ok_iff, Except.ok.injEq]

end Calls

/-! ### Printed text -/

theorem ofText_layOut {v : Json} (hv : v.Distinct) (pretty : Bool) :
    Term.ofText (layOut pretty v) = v.decode := by
  have hends : ∀ n, v = .number n → Json.EndsNumber "\n".toList := by
    rintro n - c ⟨⟩
    decide
  have hblank : "\n".toList.all Json.isBlank = true := by decide
  obtain ⟨style, hstyle⟩ : ∃ style,
      layOut pretty v = String.ofList (v.write style "\n".toList) := by
    cases pretty with
    | true => exact ⟨.indented 0, v.ofList_write_append (.indented 0) "\n"⟩
    | false => exact ⟨.compact, v.ofList_write_append .compact "\n"⟩
  rw [hstyle, Json.ofText_write hv style hends, if_pos hblank]

/-- What is printed for a text is read as the same term. -/
theorem ofText_rewritten {text : String} {limit : Option Nat} {t : Term} {v : Json}
    (ht : Term.ofText text = .ok t) (hv : Encoder.encode ⟨limit⟩ t = .ok v) (pretty : Bool) :
    Term.ofText (layOut pretty v) = .ok t := by
  obtain ⟨json, -, hdecode⟩ := bind_eq_ok_iff.mp ht
  have hwell : t.WellFormed := Json.decode_wellFormed hdecode
  have hencode : t.encode = .ok v := (Encoder.encode_eq_ok_iff.mp hv).1
  rw [ofText_layOut (Term.encode_distinct hwell hencode), Term.decode_of_encode hwell hencode,
    Json.mapData_narrow_of_decode hdecode]

/-- What has been printed for a text is printed again as it is. In the other
layout it leads back to the same print, and it is explained like the text. -/
theorem rewriting_normalises {arguments : List String} {w : World} {limit : Option Nat}
    {pretty : Bool} {text s : String} (hcall : Rewrites arguments w limit pretty text)
    (hprints : Prints arguments w s) :
    (∀ arguments' w', Rewrites arguments' w' limit pretty s → Prints arguments' w' s) ∧
      (∀ arguments' w', Rewrites arguments' w' limit (!pretty) s →
        ∃ s', Prints arguments' w' s' ∧ ∀ arguments'' w'',
          Rewrites arguments'' w'' limit pretty s' → Prints arguments'' w'' s) ∧
      ∃ tree, (∀ arguments' w', Explains arguments' w' text → Prints arguments' w' tree) ∧
        ∀ arguments' w', Explains arguments' w' s → Prints arguments' w' tree := by
  obtain ⟨t, v, ht, hv, rfl⟩ := (prints_iff_of_rewrites hcall).mp hprints
  -- every layout of the value is read as the term of the text, so all calls start alike
  have hread : ∀ layout, Term.ofText (layOut layout v) = .ok t := ofText_rewritten ht hv
  have hagain : ∀ source layout arguments' w',
      Rewrites arguments' w' limit layout (layOut source v) →
        Prints arguments' w' (layOut layout v) := fun source layout arguments' w' hcall' =>
    (prints_iff_of_rewrites hcall').mpr ⟨t, v, hread source, hv, rfl⟩
  refine ⟨hagain pretty pretty, ?_, t.explain ++ "\n", ?_, ?_⟩
  · intro arguments' w' hcall'
    exact ⟨layOut (!pretty) v, hagain pretty (!pretty) arguments' w' hcall',
      hagain (!pretty) pretty⟩
  · intro arguments' w' hcall'
    exact (prints_iff_of_explains hcall').mpr ⟨t, ht, rfl⟩
  · intro arguments' w' hcall'
    exact (prints_iff_of_explains hcall').mpr ⟨t, hread pretty, rfl⟩

/-- A text on the standard input, with a limit of three levels in the
environment. -/
def World.threeLevels (text : String) : World :=
  { env := [("REQLWIRE_ENCODER__MAX_DEPTH", "3")]
    look := fun _ => .obstacle .missing
    stdin := text }

theorem reaches_threeLevels {arguments : List String} {action : Action} {text : String}
    (h : Invocation.read arguments (World.threeLevels text).env = .ok { action }) :
    Reaches arguments (.threeLevels text) action { encoder := { maxDepth := some 3 } } := by
  have hload : loadSettings (.threeLevels "") { action := .settings } =
      .ok { encoder := { maxDepth := some 3 } } := by decide +kernel
  exact ⟨{ action }, h, rfl, hload⟩

theorem rewrites_threeLevels (text : String) :
    Rewrites ["encode", "-"] (.threeLevels text) (some 3) false text :=
  ⟨"-", false, _, reaches_threeLevels rfl, rfl, rfl, rfl⟩

theorem rewrites_threeLevels_pretty (text : String) :
    Rewrites ["encode", "--pretty", "-"] (.threeLevels text) (some 3) true text :=
  ⟨"-", true, _, reaches_threeLevels rfl, rfl, rfl, rfl⟩

theorem explains_threeLevels (text : String) :
    Explains ["explain", "-"] (.threeLevels text) text :=
  ⟨"-", _, reaches_threeLevels rfl, rfl⟩

/-- Objects in place of operations and empty options. -/
def spelledQuery : String := "\x7b\"k\":[2,[\x7b\x7d],\x7b\x7d]\x7d"

/-- What is printed for `spelledQuery`. -/
def normalQuery : String := "[3,[],\x7b\"k\":[2,[[3,[]]]]\x7d]\n"

/-- The query has three levels in either spelling. -/
theorem rewriting_normalises_spelledQuery :
    (Rewrites ["encode", "-"] (.threeLevels spelledQuery) (some 3) false spelledQuery ∧
        Prints ["encode", "-"] (.threeLevels spelledQuery) normalQuery) ∧
      Prints ["encode", "-"] (.threeLevels normalQuery) normalQuery ∧
      (∃ s', Prints ["encode", "--pretty", "-"] (.threeLevels normalQuery) s' ∧
        Prints ["encode", "-"] (.threeLevels s') normalQuery) ∧
      ∃ tree, Prints ["explain", "-"] (.threeLevels spelledQuery) tree ∧
        Prints ["explain", "-"] (.threeLevels normalQuery) tree := by
  have hcall := rewrites_threeLevels spelledQuery
  have hdistinct : Json.nestedSpellings.Distinct := by
    simp [Json.nestedSpellings, Json.Distinct, Json.DistinctItems, Json.DistinctFields,
      Fields.Distinct, Kind.numeral]
  have hread : Term.ofText spelledQuery = .ok (.object [("k", .array [.object []])]) := by
    have htext : Json.nestedSpellings.text = spelledQuery := by decide
    rw [← htext, Json.ofText_text hdistinct]
    rfl
  have hprints : Prints ["encode", "-"] (.threeLevels spelledQuery) normalQuery :=
    (prints_iff_of_rewrites hcall).mpr ⟨_, _, hread, rfl, by decide⟩
  obtain ⟨hagain, hother, tree, htext, hprinted⟩ := rewriting_normalises hcall hprints
  obtain ⟨s', hs', hback⟩ := hother _ _ (rewrites_threeLevels_pretty normalQuery)
  exact ⟨⟨hcall, hprints⟩, hagain _ _ (rewrites_threeLevels normalQuery),
    ⟨s', hs', hback _ _ (rewrites_threeLevels s')⟩, tree, htext _ _ (explains_threeLevels _),
    hprinted _ _ (explains_threeLevels _)⟩

end Reql.Command
