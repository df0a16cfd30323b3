import Reql.Proofs.Datum.Display
import Reql.Proofs.Wire.Sendable
import Reql.Term.Explain

/-!
What an explanation tells about a query.

A term is told from its tree together with the end of its last line, by
induction on the term. What the induction needs besides is that the name of an
option ends at the equals sign behind it. The name may hold equals signs and
quotation marks of its own, but no first line of a tree, if it starts behind
such a sign, can end with the first line of another tree: outside of quotes
there is no equals sign, and behind a quotation mark that belongs to a text
there is always another one.

This fails if the name of a field holds a line break, because names are shown
as they are. Such a name can imitate another field.
-/

namespace Reql

/-! ### Names in the catalog -/

namespace Kind

theorem names_nodup : (all.map name).Nodup := by decide +kernel

theorem name_injective : Function.Injective name := fun k l h =>
  List.inj_on_of_nodup_map names_nodup (mem_all k) (mem_all l) h

theorem noMark_name {k : Kind} {c : Char} (h : c ∈ k.name.toList) :
    c ≠ '(' ∧ c ≠ '"' ∧ c ≠ '=' ∧ c ≠ '\n' := by
  have hall : ∀ k ∈ all, k.name.toList.all
      (fun c => c != '(' && c != '"' && c != '=' && c != '\n') = true := by decide +kernel
  have hc := List.all_eq_true.mp (hall k (mem_all k)) c h
  simpa [and_assoc] using hc

theorem exists_cons_name (k : Kind) :
    ∃ c rest, k.name.toList = c :: rest ∧ c.isUpper = true := by
  have hall : ∀ k ∈ all, k.name.toList.head?.any Char.isUpper = true := by decide +kernel
  have hhead := hall k (mem_all k)
  cases hname : k.name.toList with
  | nil =>
      rw [hname] at hhead
      cases hhead
  | cons c rest =>
      rw [hname] at hhead
      exact ⟨c, rest, rfl, hhead⟩

/-- The name of an operation ends at its opening parenthesis. -/
theorem opening_inj {k l : Kind} {rest rest' : List Char}
    (h : k.name.toList ++ '(' :: rest = l.name.toList ++ '(' :: rest') : k = l ∧ rest = rest' := by
  have hname : ∀ (k : Kind) (rest : List Char),
      (k.name.toList ++ '(' :: rest).takeWhile (· ≠ '(') = k.name.toList := by
    intro k rest
    rw [List.takeWhile_append_of_pos fun c hc => decide_eq_true (noMark_name hc).1]
    simp
  have hnames := congrArg (List.takeWhile (· ≠ '(')) h
  rw [hname, hname] at hnames
  obtain rfl := name_injective (String.toList_injective hnames)
  exact ⟨rfl, (List.cons.inj (List.append_cancel_left h)).2⟩

def listed : OptionRule → List String
  | .only names => names
  | _ => []

theorem oneLine_of_listed {k : Kind} :
    ∀ name ∈ listed k.signature.options, '\n' ∉ name.toList := by
  have hall : ∀ k ∈ all, ∀ name ∈ listed k.signature.options, '\n' ∉ name.toList := by
    decide +kernel
  exact hall k (mem_all k)

theorem eq_makeObj_of_any {k : Kind} (h : k.signature.options = .any) : k = .makeObj := by
  have hall : ∀ k ∈ all, k.signature.options = .any → k = .makeObj := by decide +kernel
  exact hall k (mem_all k) h

/-- Names of options are written on one line, except for those of the kind
that accepts all names. -/
theorem oneLine_of_accepts {k : Kind} {name : String} (hk : k ≠ .makeObj)
    (h : k.signature.options.accepts name = true) : '\n' ∉ name.toList := by
  have hlisted := @oneLine_of_listed k
  cases hrule : k.signature.options with
  | noOptions =>
      rw [hrule] at h
      cases h
  | only names =>
      rw [hrule] at h hlisted
      exact hlisted name (List.contains_iff_mem.mp h)
  | any => exact absurd (eq_makeObj_of_any hrule) hk

end Kind

/-! ### First lines -/

def firstLine (text : List Char) : List Char := text.takeWhile (· ≠ '\n')

theorem firstLine_append {line : List Char} (h : '\n' ∉ line) (rest : List Char) :
    firstLine (line ++ rest) = line ++ firstLine rest := by
  refine List.takeWhile_append_of_pos fun c hc => ?_
  have hne : c ≠ '\n' := fun heq => h (heq ▸ hc)
  simpa using hne

theorem firstLine_cons {c : Char} (h : c ≠ '\n') (rest : List Char) :
    firstLine (c :: rest) = c :: firstLine rest := by
  simp [firstLine, h]

/-- `Line cs`: the first line of a tree, one without quotes or a string up to
the end of its line. -/
inductive Line : List Char → Prop
  | plain {line : List Char} (h : ∀ c ∈ line, c ≠ '"' ∧ c ≠ '=') : Line line
  | quoted (cs : List Char) {rest : List Char} (h : ∀ c ∈ rest, c ≠ '"' ∧ c ≠ '=') :
      Line ('"' :: (cs.flatMap Text.shown ++ '"' :: rest))

/-- An equals sign in a line with quotes stands between them. -/
theorem exists_of_quoted_eq {cs rest name line : List Char}
    (hrest : ∀ c ∈ rest, c ≠ '"' ∧ c ≠ '=')
    (h : '"' :: (cs.flatMap Text.shown ++ '"' :: rest) = name ++ '=' :: line) :
    ∃ before after,
      cs.flatMap Text.shown = before ++ '=' :: after ∧ line = after ++ '"' :: rest := by
  rw [← List.cons_append] at h
  rcases List.append_eq_append_iff.mp h with ⟨more, -, hmore⟩ | ⟨more, hname, hmore⟩
  · have hmem : '=' ∈ '"' :: rest := by simp [hmore]
    rcases List.mem_cons.mp hmem with heq | hmem
    · cases heq
    · exact absurd rfl (hrest _ hmem).2
  · cases more with
    | nil => cases (List.cons.inj hmore).1
    | cons c after =>
        obtain ⟨rfl, hline⟩ := List.cons.inj hmore
        cases name with
        | nil => cases (List.cons.inj hname).1
        | cons c before => exact ⟨before, after, (List.cons.inj hname).2, hline⟩

theorem Line.ne_named {line line' : List Char} (h : Line line) (h' : Line line')
    (name : List Char) : line ≠ name ++ '=' :: line' := by
  intro heq
  cases h with
  | plain h => exact (h '=' (by simp [heq])).2 rfl
  | quoted cs hrest =>
      obtain ⟨before, after, hcs, hline⟩ := exists_of_quoted_eq hrest heq
      cases h' with
      | plain hplain => exact (hplain '"' (by simp [hline])).1 rfl
      | quoted cs' _ =>
          cases after with
          | nil =>
              have hmem := congrArg ('"' ∈ ·) (List.cons.inj hline).2
              exact (hrest '"' (hmem ▸ by simp)).1 rfl
          | cons c after =>
              obtain rfl := (List.cons.inj hline).1
              -- a quotation mark behind an equals sign would end the text
              rw [← List.singleton_append, ← List.append_assoc] at hcs
              have hlast := Text.getLast?_of_flatMap_shown hcs
              rw [List.getLast?_concat] at hlast
              cases hlast

/-- `EndsLine rest`: what may follow a tree, nothing or the end of its last
line. -/
inductive EndsLine : List Char → Prop
  | nothing : EndsLine []
  | newline (rest : List Char) : EndsLine ('\n' :: rest)
  | comma (rest : List Char) : EndsLine (',' :: '\n' :: rest)

namespace EndsLine

variable {tail : List Char}

theorem endsNumber (h : EndsLine tail) : Json.EndsNumber tail := by
  cases h with
  | nothing => simp [Json.EndsNumber]
  | newline rest => simp [Json.EndsNumber]
  | comma rest => simp [Json.EndsNumber]

theorem noMark_firstLine (h : EndsLine tail) : ∀ c ∈ firstLine tail, c ≠ '"' ∧ c ≠ '=' := by
  cases h with
  | nothing => simp [firstLine]
  | newline rest => simp [firstLine]
  | comma rest => simp [firstLine]

end EndsLine

namespace Term

/-! ### Children -/

/-- The children of an operation in the order in which they are shown, options
with their names. -/
def shownChildren (args : List Term) (options : List (String × Term)) :
    List (Option String × Term) :=
  args.map (none, ·) ++ options.map fun o => (some o.1, o.2)

def label : Option String → List Char
  | none => []
  | some name => name.toList ++ ['=']

def writeChildren (level : Nat) (tail : List Char) : List (Option String × Term) → List Char
  | [] => tail
  | (name, t) :: rest =>
      ',' :: '\n' :: (margin level ++ (label name ++ t.writeTree level
        (writeChildren level tail rest)))

def writeBody (level : Nat) (tail : List Char) : List (Option String × Term) → List Char
  | [] => ')' :: tail
  | (name, t) :: rest =>
      '\n' :: (margin (level + 1) ++ (label name ++ t.writeTree (level + 1)
        (writeChildren (level + 1) ('\n' :: (margin level ++ ')' :: tail)) rest)))

theorem writeChildren_options (level : Nat) (tail : List Char) (options : List (String × Term)) :
    writeChildren level tail (options.map fun o => (some o.1, o.2)) =
      writeOptions options level tail := by
  induction options with
  | nil => rfl
  | cons o rest ih =>
      obtain ⟨name, t⟩ := o
      rw [List.map_cons, writeChildren, ih, writeOptions, label, List.append_assoc,
        List.singleton_append]

theorem writeChildren_shownChildren (level : Nat) (tail : List Char) (args : List Term)
    (options : List (String × Term)) :
    writeChildren level tail (shownChildren args options) =
      writeArgs args level (writeOptions options level tail) := by
  induction args with
  | nil => exact writeChildren_options level tail options
  | cons t rest ih =>
      rw [shownChildren, List.map_cons, List.cons_append, ← shownChildren, writeChildren, ih,
        writeArgs, label, List.nil_append]

theorem writeTree_node (kind : Kind) (args : List Term) (options : List (String × Term))
    (level : Nat) (tail : List Char) :
    (node kind args options).writeTree level tail =
      kind.name.toList ++ '(' :: writeBody level tail (shownChildren args options) := by
  cases args with
  | nil =>
      cases options with
      | nil => rfl
      | cons o rest =>
          obtain ⟨name, t⟩ := o
          rw [shownChildren, List.map_nil, List.nil_append, List.map_cons, writeBody,
            writeChildren_options, label, List.append_assoc, List.singleton_append]
          rfl
  | cons t rest =>
      rw [shownChildren, List.map_cons, List.cons_append, ← shownChildren, writeBody,
        writeChildren_shownChildren]
      rfl

theorem shownChildren_inj {args args' : List Term} {options options' : List (String × Term)}
    (h : shownChildren args options = shownChildren args' options') :
    args = args' ∧ options = options' := by
  induction args generalizing args' with
  | nil =>
      cases args' with
      | nil =>
          have hinj : Function.Injective fun o : String × Term => (some o.1, o.2) := by
            rintro ⟨name, t⟩ ⟨name', t'⟩ heq
            simpa using heq
          exact ⟨rfl, hinj.list_map h⟩
      | cons t' rest' => cases options <;> simp [shownChildren] at h
  | cons t rest ih =>
      cases args' with
      | nil => cases options' <;> simp [shownChildren] at h
      | cons t' rest' =>
          obtain ⟨hhead, htail⟩ := List.cons.inj h
          obtain ⟨rfl, rfl⟩ := ih htail
          exact ⟨congrArg (· :: rest) (Prod.mk.inj hhead).2, rfl⟩

/-! ### Terms -/

/-- `t.Legible`: all data are scalars that can be sent as they are, and the
names of all options are written on one line. -/
structure Legible (t : Term) : Prop where
  data : ∀ d, .datum d ∈ t.nodes → ∃ v : Json, v.isScalar = true ∧ d = .ofJson v
  names : ∀ s ∈ t.nodes, ∀ name ∈ Fields.names s.options, '\n' ∉ name.toList

theorem Legible.of_nodes {t s : Term} (h : t.Legible) (hs : ∀ x ∈ s.nodes, x ∈ t.nodes) :
    s.Legible where
  data d hd := h.data d (hs _ hd)
  names x hx := h.names x (hs _ hx)

structure LegibleChild (c : Option String × Term) : Prop where
  term : c.2.Legible
  name : '\n' ∉ label c.1

theorem Legible.children {kind : Kind} {args : List Term} {options : Fields Term}
    (h : (node kind args options).Legible) :
    ∀ c ∈ shownChildren args options, LegibleChild c := by
  intro c hc
  rcases List.mem_append.mp hc with hc | hc
  · obtain ⟨t, ht, rfl⟩ := List.mem_map.mp hc
    have hlegible : t.Legible :=
      h.of_nodes fun s hs => mem_nodes_node.mpr (.inr (.inl ⟨t, ht, hs⟩))
    exact ⟨hlegible, List.not_mem_nil⟩
  · obtain ⟨o, ho, rfl⟩ := List.mem_map.mp hc
    have hlegible : o.2.Legible :=
      h.of_nodes fun s hs => mem_nodes_node.mpr (.inr (.inr ⟨o, ho, hs⟩))
    have hname : '\n' ∉ o.1.toList :=
      h.names _ (self_mem_nodes _) o.1 (List.mem_map_of_mem ho)
    exact ⟨hlegible, by simpa [label] using hname⟩

/-- A legible tree starts with a line. -/
theorem line_writeTree {t : Term} (ht : t.Legible) {tail : List Char} (htail : EndsLine tail)
    (level : Nat) : Line (firstLine (t.writeTree level tail)) := by
  cases t with
  | datum d =>
      obtain ⟨v, hv, rfl⟩ := ht.data d (self_mem_nodes _)
      rcases Datum.isBare_or_string hv with hv | ⟨s, rfl⟩
      · obtain ⟨word, hword, hwrite, -⟩ := Datum.exists_word hv
        rw [writeTree, hwrite, firstLine_append fun hmem => (hword.noMark hmem).2.2 rfl]
        refine .plain (List.forall_mem_append.mpr ⟨fun c hc => ?_, htail.noMark_firstLine⟩)
        exact ⟨(hword.noMark hc).1, (hword.noMark hc).2.1⟩
      · have hwrite : firstLine (Text.quote s tail) =
            '"' :: (s.toList.flatMap Text.shown ++ '"' :: firstLine tail) := by
          rw [Text.quote, firstLine_cons (by decide),
            firstLine_append (Text.newline_notMem_flatMap_shown _), firstLine_cons (by decide)]
        rw [writeTree, Datum.ofJson, Datum.write, hwrite]
        exact .quoted _ htail.noMark_firstLine
  | node kind args options =>
      have hbody : ∀ c ∈ firstLine (writeBody level tail (shownChildren args options)),
          c ≠ '"' ∧ c ≠ '=' := by
        cases shownChildren args options with
        | nil =>
            rw [writeBody, firstLine_cons (by decide)]
            exact List.forall_mem_cons.mpr ⟨by decide, htail.noMark_firstLine⟩
        | cons c rest =>
            obtain ⟨name, t⟩ := c
            simp [writeBody, firstLine]
      rw [writeTree_node, firstLine_append fun hmem => (Kind.noMark_name hmem).2.2.2 rfl,
        firstLine_cons (by decide)]
      refine .plain (List.forall_mem_append.mpr ⟨fun c hc => ?_, ?_⟩)
      · exact ⟨(Kind.noMark_name hc).2.1, (Kind.noMark_name hc).2.2.1⟩
      · exact List.forall_mem_cons.mpr ⟨by decide, hbody⟩

theorem writeTree_ne_named {t u : Term} {tail tail' name : List Char} (ht : t.Legible)
    (hu : u.Legible) (htail : EndsLine tail) (htail' : EndsLine tail') (hname : '\n' ∉ name)
    (level : Nat) : t.writeTree level tail ≠ name ++ '=' :: u.writeTree level tail' := by
  intro h
  have hline := congrArg firstLine h
  rw [firstLine_append hname, firstLine_cons (by decide)] at hline
  exact (line_writeTree ht htail level).ne_named (line_writeTree hu htail' level) name hline

/-- `t.Recovered`: the term is told from its tree, whatever follows the last
line. -/
def Recovered (t : Term) : Prop :=
  ∀ (u : Term) (level : Nat) (tail tail' : List Char), u.Legible → EndsLine tail →
    EndsLine tail' → t.writeTree level tail = u.writeTree level tail' → t = u ∧ tail = tail'

theorem endsLine_writeChildren {tail : List Char} (htail : EndsLine tail) (level : Nat)
    (children : List (Option String × Term)) : EndsLine (writeChildren level tail children) := by
  cases children with
  | nil => exact htail
  | cons c rest => exact .comma _

/-- The name of an option ends where its tree starts. -/
theorem named_inj {name name' text text' : List Char} (hname : '\n' ∉ name) (hname' : '\n' ∉ name')
    (htext : ∀ more, '\n' ∉ more → text ≠ more ++ '=' :: text')
    (htext' : ∀ more, '\n' ∉ more → text' ≠ more ++ '=' :: text)
    (h : name ++ '=' :: text = name' ++ '=' :: text') : name = name' ∧ text = text' := by
  rcases List.append_eq_append_iff.mp h with ⟨more, rfl, hmore⟩ | ⟨more, rfl, hmore⟩
  · cases more with
    | nil => exact ⟨by simp, (List.cons.inj hmore).2⟩
    | cons c more =>
        have hnone : '\n' ∉ more := fun hmem => hname' (by simp [hmem])
        exact absurd (List.cons.inj hmore).2 (htext more hnone)
  · cases more with
    | nil => exact ⟨by simp, (List.cons.inj hmore).2.symm⟩
    | cons c more =>
        have hnone : '\n' ∉ more := fun hmem => hname (by simp [hmem])
        exact absurd (List.cons.inj hmore).2 (htext' more hnone)

theorem child_inj {c c' : Option String × Term} {level : Nat} {tail tail' : List Char}
    (hrecovered : c.2.Recovered) (hc : LegibleChild c) (hc' : LegibleChild c')
    (htail : EndsLine tail) (htail' : EndsLine tail')
    (h : label c.1 ++ c.2.writeTree level tail = label c'.1 ++ c'.2.writeTree level tail') :
    c = c' ∧ tail = tail' := by
  obtain ⟨name, t⟩ := c
  obtain ⟨name', t'⟩ := c'
  have hne : ∀ more, '\n' ∉ more →
      t.writeTree level tail ≠ more ++ '=' :: t'.writeTree level tail' :=
    fun more hmore => writeTree_ne_named hc.term hc'.term htail htail' hmore level
  have hne' : ∀ more, '\n' ∉ more →
      t'.writeTree level tail' ≠ more ++ '=' :: t.writeTree level tail :=
    fun more hmore => writeTree_ne_named hc'.term hc.term htail' htail hmore level
  cases name with
  | none =>
      cases name' with
      | none =>
          obtain ⟨rfl, rfl⟩ := hrecovered t' level tail tail' hc'.term htail htail' h
          exact ⟨rfl, rfl⟩
      | some name' =>
          have hname' : '\n' ∉ name'.toList := fun hmem => hc'.name (by simp [label, hmem])
          refine absurd ?_ (hne name'.toList hname')
          simpa [label] using h
  | some name =>
      have hname : '\n' ∉ name.toList := fun hmem => hc.name (by simp [label, hmem])
      cases name' with
      | none =>
          refine absurd ?_ (hne' name.toList hname)
          simpa [label] using h.symm
      | some name' =>
          have hname' : '\n' ∉ name'.toList := fun hmem => hc'.name (by simp [label, hmem])
          rw [label, label, List.append_assoc, List.append_assoc, List.singleton_append,
            List.singleton_append] at h
          obtain ⟨hnames, htrees⟩ := named_inj hname hname' hne hne' h
          obtain rfl := String.toList_injective hnames
          obtain ⟨rfl, rfl⟩ := hrecovered t' level tail tail' hc'.term htail htail' htrees
          exact ⟨rfl, rfl⟩

section Children

variable {children children' : List (Option String × Term)} {level : Nat}

theorem writeChildren_inj {rest rest' : List Char} (hrecovered : ∀ c ∈ children, c.2.Recovered)
    (hc : ∀ c ∈ children, LegibleChild c) (hc' : ∀ c ∈ children', LegibleChild c)
    (h : writeChildren level ('\n' :: rest) children =
      writeChildren level ('\n' :: rest') children') :
    children = children' ∧ rest = rest' := by
  induction children generalizing children' with
  | nil =>
      cases children' with
      | nil => exact ⟨rfl, (List.cons.inj h).2⟩
      | cons c' more' => exact absurd (List.cons.inj h).1 (by decide)
  | cons c more ih =>
      cases children' with
      | nil => exact absurd (List.cons.inj h).1 (by decide)
      | cons c' more' =>
          obtain ⟨hrecovered, hmore⟩ := List.forall_mem_cons.mp hrecovered
          obtain ⟨hc, hcs⟩ := List.forall_mem_cons.mp hc
          obtain ⟨hc', hcs'⟩ := List.forall_mem_cons.mp hc'
          have hline := List.append_cancel_left (List.cons.inj (List.cons.inj h).2).2
          obtain ⟨rfl, htail⟩ := child_inj hrecovered hc hc'
            (endsLine_writeChildren (.newline rest) level more)
            (endsLine_writeChildren (.newline rest') level more') hline
          obtain ⟨rfl, rfl⟩ := ih hmore hcs hcs' htail
          exact ⟨rfl, rfl⟩

theorem writeBody_inj {tail tail' : List Char} (hrecovered : ∀ c ∈ children, c.2.Recovered)
    (hc : ∀ c ∈ children, LegibleChild c) (hc' : ∀ c ∈ children', LegibleChild c)
    (h : writeBody level tail children = writeBody level tail' children') :
    children = children' ∧ tail = tail' := by
  cases children with
  | nil =>
      cases children' with
      | nil => exact ⟨rfl, (List.cons.inj h).2⟩
      | cons c' more' => exact absurd (List.cons.inj h).1 (by decide)
  | cons c more =>
      cases children' with
      | nil => exact absurd (List.cons.inj h).1 (by decide)
      | cons c' more' =>
          have hcomma :
              writeChildren (level + 1) ('\n' :: (margin level ++ ')' :: tail)) (c :: more) =
                writeChildren (level + 1) ('\n' :: (margin level ++ ')' :: tail')) (c' :: more') :=
            congrArg (',' :: ·) h
          obtain ⟨hchildren, hclose⟩ := writeChildren_inj hrecovered hc hc' hcomma
          exact ⟨hchildren, (List.cons.inj (List.append_cancel_left hclose)).2⟩

end Children

/-- A datum is not shown like an operation, whose name starts with a capital. -/
theorem datum_ne_name {d : Datum} (hd : (datum d).Legible) (kind : Kind) (tail rest : List Char) :
    d.write tail ≠ kind.name.toList ++ rest := by
  obtain ⟨v, hv, rfl⟩ := hd.data d (self_mem_nodes _)
  obtain ⟨c, name, hname, hupper⟩ := kind.exists_cons_name
  rw [hname, List.cons_append]
  intro h
  rcases Datum.isBare_or_string hv with hv | ⟨s, rfl⟩
  · obtain ⟨word, hword, hwrite, -⟩ := Datum.exists_word hv
    obtain ⟨d, more, rfl⟩ := List.exists_cons_of_ne_nil hword.ne_nil
    rw [hwrite] at h
    obtain rfl : d = c := (List.cons.inj h).1
    rw [hword.notUpper (List.mem_cons_self ..)] at hupper
    cases hupper
  · obtain rfl : '"' = c := (List.cons.inj h).1
    cases hupper

theorem recovered_of_legible {t : Term} (ht : t.Legible) : t.Recovered := by
  induction t with
  | datum d =>
      intro u level tail tail' hu htail htail' h
      cases u with
      | datum d' =>
          obtain ⟨v, hv, rfl⟩ := ht.data d (self_mem_nodes _)
          obtain ⟨w, hw, rfl⟩ := hu.data d' (self_mem_nodes _)
          obtain ⟨rfl, rfl⟩ := Datum.write_ofJson_inj hv hw htail.endsNumber htail'.endsNumber h
          exact ⟨rfl, rfl⟩
      | node kind args options =>
          rw [writeTree_node] at h
          exact absurd h (datum_ne_name ht kind _ _)
  | node kind args options ihArgs ihOptions =>
      intro u level tail tail' hu htail htail' h
      cases u with
      | datum d =>
          rw [writeTree_node] at h
          exact absurd h.symm (datum_ne_name hu kind _ _)
      | node kind' args' options' =>
          -- the name ends at the parenthesis, and the children are told apart one by one
          have hrecovered : ∀ c ∈ shownChildren args options, c.2.Recovered := by
            intro c hc
            have hlegible := (ht.children c hc).term
            rcases List.mem_append.mp hc with hc | hc
            · obtain ⟨t, hmem, rfl⟩ := List.mem_map.mp hc
              exact ihArgs t hmem hlegible
            · obtain ⟨o, hmem, rfl⟩ := List.mem_map.mp hc
              exact ihOptions o hmem hlegible
          rw [writeTree_node, writeTree_node] at h
          obtain ⟨rfl, hbody⟩ := Kind.opening_inj h
          obtain ⟨hchildren, rfl⟩ := writeBody_inj hrecovered ht.children hu.children hbody
          obtain ⟨rfl, rfl⟩ := shownChildren_inj hchildren
          exact ⟨rfl, rfl⟩

/-! ### Queries -/

/-- `t.OneLineFields`: no name of a field of an object holds a line break. -/
def OneLineFields (t : Term) : Prop :=
  ∀ s ∈ t.nodes, s.kind = .makeObj → ∀ name ∈ Fields.names s.options, '\n' ∉ name.toList

theorem legible_of_decode {v : Json} {t : Term} (h : v.decode = .ok t) (ht : t.OneLineFields) :
    t.Legible where
  data := by
    refine Json.forall_of_decode
      (P := fun t => ∀ d, .datum d ∈ t.nodes → ∃ v : Json, v.isScalar = true ∧ d = .ofJson v)
      ?_ ?_ h
    · intro v hv d hd
      obtain rfl := datum.inj (mem_nodes_datum.mp hd)
      exact ⟨v, hv, rfl⟩
    · intro kind args options _ hargs hoptions d hd
      rcases mem_nodes_node.mp hd with heq | ⟨s, hs, hd⟩ | ⟨o, ho, hd⟩
      · cases heq
      · exact hargs s hs d hd
      · exact hoptions o ho d hd
  names := by
    intro s hs name hname
    have hlawful : s.Lawful := wellFormed_iff.mp (Json.decode_wellFormed h) s hs
    by_cases hobject : s.kind = .makeObj
    · exact ht s hs hobject name hname
    · by_cases hdatum : s.kind = .datum
      · rw [(hlawful.leaf hdatum).2] at hname
        cases hname
      · exact Kind.oneLine_of_accepts hobject (hlawful.accepted hdatum name hname)

/-- Decoded queries without line breaks in the names of their fields are told
from their explanations, and so are the values that they are sent as. -/
theorem explain_determines_query {v w : Json} {t u : Term} (ht : v.decode = .ok t)
    (hu : w.decode = .ok u) (hnames : t.OneLineFields) (hnames' : u.OneLineFields)
    (h : t.explain = u.explain) : t = u ∧ ∃ x, t.encode = .ok x ∧ u.encode = .ok x := by
  have htree : t.writeTree 0 [] = u.writeTree 0 [] := String.ofList_injective h
  obtain ⟨rfl, -⟩ := recovered_of_legible (legible_of_decode ht hnames) u 0 [] []
    (legible_of_decode hu hnames') .nothing .nothing htree
  obtain ⟨x, hx⟩ := exists_encode_iff.mpr (Json.decode_sendable ht)
  exact ⟨rfl, x, hx, hx⟩

/-- A field whose name and value hold the marks of an explanation, as an
object and as an operation. -/
def markedField : Term := .object [("a=1", .datum (.string "b=\"c"))]

def markedObject : Json := .object [("a=1", .string "b=\"c")]

def markedOperation : Json :=
  .array [Kind.makeObj.numeral, .array [], .object [("a=1", .string "b=\"c")]]

/-- Both spellings have one explanation, and are sent as the same value. -/
theorem explain_determines_query_markedField :
    (markedObject.decode = .ok markedField ∧ markedOperation.decode = .ok markedField ∧
        markedField.OneLineFields) ∧
      markedField.explain = "MAKE_OBJ(\n  a=1=\"b=\\\"c\"\n)" ∧
      ∃ x, markedField.encode = .ok x ∧ markedField.encode = .ok x := by
  have hobject : markedObject.decode = .ok markedField := rfl
  have hoperation : markedOperation.decode = .ok markedField := rfl
  have hnames : markedField.OneLineFields := by
    intro s hs _ name hname
    simp [markedField, object, nodes, nodesOfArgs, nodesOfOptions] at hs
    rcases hs with rfl | rfl
    · simp [options, Fields.names] at hname
      rw [hname]
      decide
    · cases hname
  exact ⟨⟨hobject, hoperation, hnames⟩, by decide +kernel,
    (explain_determines_query hobject hoperation hnames hnames rfl).2⟩

/-- Two fields with numbers. -/
def twoFields : Term := .object [("a", .datum (.integer 1)), ("b", .datum (.integer 2))]

/-- One field, whose name looks like the first field and the beginning of the
second one. -/
def forgedField : Term := .object [("a=1,\n  b", .datum (.integer 2))]

/-- Both have the same explanation, though they are sent as different values. -/
theorem explain_forgedField :
    Json.decode (.object [("a", .number (.ofInt64 1)), ("b", .number (.ofInt64 2))]) =
        .ok twoFields ∧
      Json.decode (.object [("a=1,\n  b", .number (.ofInt64 2))]) = .ok forgedField ∧
      twoFields.explain = forgedField.explain ∧ twoFields.encode ≠ forgedField.encode := by
  have htwo : twoFields.encode = .ok (.array [Kind.makeObj.numeral, .array [],
      .object [("a", .number (.ofInt64 1)), ("b", .number (.ofInt64 2))]]) := rfl
  have hone : forgedField.encode = .ok (.array [Kind.makeObj.numeral, .array [],
      .object [("a=1,\n  b", .number (.ofInt64 2))]]) := rfl
  refine ⟨rfl, rfl, by decide +kernel, ?_⟩
  rw [htwo, hone]
  simp

end Term
end Reql
