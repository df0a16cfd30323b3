import Reql.Proofs.Wire.DepthLimit
import Reql.Proofs.Wire.RoundTrip

/-!
What is sent for a query.

Setting a global option coerces its value, makes a database of a string that is
to name one, and puts the term in its place among the options. None of this
fails when the value has a term, so a list of options is the list of their
terms, settled. A query that starts a term is a walk over that term and the
options, and each of them comes back from its place in the array; the other
queries do not look at their options.
-/

namespace Reql

namespace Query

/-! ### Global options -/

/-- `stored name t` is the term for a global option whose value has become `t`:
a string that names the database stands for the database. -/
def stored (name : String) (t : Term) : Term :=
  if name = "db" then
    match t with
    | .datum (.string s) => .node .db [.datum (.string s)] []
    | t => t
  else t

def storedAll (terms : List (String × Term)) : List (String × Term) :=
  terms.map fun o => (o.1, stored o.1 o.2)

theorem optionTerm_eq (name : String) (t : Term) : optionTerm name t = .ok (stored name t) := by
  unfold optionTerm stored
  split
  · cases t with
    | datum d => cases d <;> rfl
    | node kind args options => rfl
  · rfl

theorem withOption_eq {a : Arg} {t : Term} (h : a.toTerm = .ok t) (q : Query) (name : String) :
    q.withOption name a =
      .ok { q with options := Fields.insert q.options name (stored name t) } := by
  unfold withOption
  rw [h]
  change (optionTerm name t >>= fun s => .ok { q with options := Fields.insert q.options name s }) = _
  rw [optionTerm_eq]
  rfl

theorem withOptions_eq {pairs : List (String × Arg)} {terms : List (String × Term)}
    (h : Fields.Aligned (fun a t => a.toTerm = .ok t) pairs terms) (q : Query) :
    q.withOptions pairs =
      .ok { q with options := Fields.insertAll q.options (storedAll terms) } := by
  induction pairs generalizing terms q with
  | nil =>
      obtain rfl := Fields.aligned_nil_left_iff.mp h
      rfl
  | cons pair rest ih =>
      obtain ⟨name, a⟩ := pair
      obtain ⟨t, ts, ht, hrest, rfl⟩ := Fields.aligned_cons_left_iff.mp h
      rw [withOptions, withOption_eq ht]
      exact ih hrest _

/-- A query without options gets each name once, where it is first given, with
the term that it is given last. -/
theorem withOptions_fresh {pairs : List (String × Arg)} {terms : List (String × Term)}
    (h : Fields.Aligned (fun a t => a.toTerm = .ok t) pairs terms) (request : Request) :
    (mk request []).withOptions pairs = .ok ⟨request, Fields.settled (storedAll terms)⟩ := by
  rw [withOptions_eq h, ← Fields.ofList_eq_settled]
  rfl

theorem withOptions_wellFormed {q q' : Query} {pairs : List (String × Arg)}
    (hq : ∀ t ∈ q.terms, t.WellFormed) (hpairs : ∀ pair ∈ pairs, pair.2.Admissible Term.WellFormed)
    (h : q.withOptions pairs = .ok q') : ∀ t ∈ q'.terms, t.WellFormed := by
  induction pairs generalizing q with
  | nil =>
      obtain rfl := Except.ok.inj h
      exact hq
  | cons pair rest ih =>
      obtain ⟨hpair, hrest⟩ := List.forall_mem_cons.mp hpairs
      obtain ⟨next, hnext, h⟩ := bind_eq_ok_iff.mp h
      exact ih (withOption_wellFormed hq hpair hnext) hrest h

/-! ### What is sent -/

def numeral (request : Request) : Json :=
  .number (.integer request.tag (by have h := request.tag_lt; omega))

variable {e : Encoder} {t : Term} {options : Fields Term}

theorem encodeOptions_eq_ok_iff {ms : Fields Json} :
    encodeOptions e options = .ok ms ↔ Fields.Aligned (fun s m => e.encode s = .ok m) options ms := by
  induction options generalizing ms with
  | nil => simp [encodeOptions, eq_comm]
  | cons o rest ih =>
      obtain ⟨name, s⟩ := o
      rw [encodeOptions, bind_cons_eq_ok_iff, Fields.aligned_cons_left_iff]
      simp only [ih]

theorem failure?_encodeOptions :
    failure? (encodeOptions e options) =
      (Fields.values options).findSome? fun s => failure? (e.encode s) := by
  induction options with
  | nil => rfl
  | cons o rest ih =>
      obtain ⟨name, s⟩ := o
      have hvalues : Fields.values ((name, s) :: rest) = s :: Fields.values rest := rfl
      rw [encodeOptions, failure?_bind_cons, ih, hvalues, List.findSome?_cons]
      cases failure? (e.encode s) <;> rfl

theorem encode_start (e : Encoder) (t : Term) (options : Fields Term) :
    (mk (.start t) options).encode e = (do
      let w ← e.encode t
      let ms ← encodeOptions e options
      .ok (.array [numeral (.start t), w, .object ms])) := rfl

theorem encode_start_eq_ok_iff {j : Json} :
    (mk (.start t) options).encode e = .ok j ↔
      ∃ w ms, e.encode t = .ok w ∧ Fields.Aligned (fun s m => e.encode s = .ok m) options ms ∧
        j = .array [numeral (.start t), w, .object ms] := by
  rw [encode_start]
  simp only [bind_eq_ok_iff, encodeOptions_eq_ok_iff, Except.ok.injEq, exists_and_left,
    eq_comm (b := j)]

/-- The term is encoded first, and then the options in their order. -/
theorem failure?_encode_start :
    failure? ((mk (.start t) options).encode e) =
      (t :: Fields.values options).findSome? fun s => failure? (e.encode s) := by
  rw [encode_start, failure?_bind fun w _ => failure?_bind_ok, failure?_encodeOptions,
    List.findSome?_cons]
  cases failure? (e.encode t) <;> rfl

/-- Only the first part that fails is reported. -/
theorem encode_start_eq_error_iff {x : Error} :
    (mk (.start t) options).encode e = .error x ↔
      ∃ before part after, t :: Fields.values options = before ++ part :: after ∧
        (∀ other ∈ before, ∃ w, e.encode other = .ok w) ∧ e.encode part = .error x := by
  rw [← failure?_eq_some_iff, failure?_encode_start, List.findSome?_eq_some_iff]
  simp only [failure?_eq_some_iff, failure?_eq_none_iff]
  refine exists₃_congr fun before part after => and_congr_right fun _ => and_comm

end Query

/-! ### What is read back -/

/-- `w.Restores t`: the value is decoded to the term with its data narrowed,
and to the term itself if it holds no unsigned number that a signed one can
hold. -/
def Json.Restores (w : Json) (t : Term) : Prop :=
  w.decode = .ok (t.mapData Datum.narrow) ∧
    ((∀ n, .datum (.unsigned n) ∈ t.nodes → 9223372036854775808 ≤ n.toNat) → w.decode = .ok t)

theorem Encoder.restores_of_encode {e : Encoder} {t : Term} {w : Json} (ht : t.WellFormed)
    (h : e.encode t = .ok w) : w.Restores t := by
  have hdecode : w.decode = .ok (t.mapData Datum.narrow) :=
    Term.decode_of_encode ht (encode_eq_ok_iff.mp h).1
  refine ⟨hdecode, fun hlarge => ?_⟩
  rw [hdecode, Term.mapData_narrow_eq_self hlarge]

namespace Query

/-- The query for a term has each option once, where it is first given, with the
term that it is given last, and is sent as its number, the term, and the object
of its options, even if there are none. If a part cannot be sent, the first one
is reported, and the term comes before the options. What is sent is decoded to
the term and to the options as they are stored. The other queries are sent as
their number, whatever options they are given. -/
theorem envelope_exact (t : Term) (e : Encoder) (pairs : List (String × Arg))
    (terms : List (String × Term))
    (hterms : Fields.Aligned (fun a s => a.toTerm = .ok s) pairs terms) :
    (∃ q, (mk (.start t) []).withOptions pairs = .ok q ∧
        q.options = Fields.settled (storedAll terms) ∧
        (∀ j, q.encode e = .ok j ↔ ∃ w ms, e.encode t = .ok w ∧
          Fields.Aligned (fun s m => e.encode s = .ok m) q.options ms ∧
            j = .array [.number (.integer 1 (by decide)), w, .object ms]) ∧
        (∀ x, q.encode e = .error x ↔ ∃ before part after,
          t :: Fields.values q.options = before ++ part :: after ∧
            (∀ other ∈ before, ∃ w, e.encode other = .ok w) ∧ e.encode part = .error x) ∧
        (t.WellFormed → (∀ pair ∈ pairs, pair.2.Admissible Term.WellFormed) →
          ∀ head w ms, q.encode e = .ok (.array [head, w, .object ms]) →
            w.Restores t ∧ Fields.Aligned (fun s m => m.Restores s) q.options ms)) ∧
      ∀ r n, (r, n) ∈ [(Request.more, 2), (.stop, 3), (.noreplyWait, 4), (.serverInfo, 5)] →
        ∃ q inRange, (mk r []).withOptions pairs = .ok q ∧
          q.encode e = .ok (.array [.number (.integer n inRange)]) := by
  have hsettled : (mk (.start t) []).withOptions pairs =
      .ok ⟨.start t, Fields.settled (storedAll terms)⟩ := withOptions_fresh hterms (.start t)
  refine ⟨⟨_, hsettled, rfl, fun j => encode_start_eq_ok_iff, fun x => encode_start_eq_error_iff,
    fun ht hpairs head w ms h => ?_⟩, fun r n hr => ?_⟩
  · have hfresh : ∀ s ∈ (mk (.start t) []).terms, s.WellFormed :=
      List.forall_mem_singleton.mpr ht
    obtain ⟨-, hoptions⟩ := forall_mem_terms_iff.mp (withOptions_wellFormed hfresh hpairs hsettled)
    obtain ⟨w', ms', hw, hms, heq⟩ := encode_start_eq_ok_iff.mp h
    obtain ⟨-, rfl, rfl⟩ : head = numeral (.start t) ∧ w = w' ∧ ms = ms' := by simpa using heq
    refine ⟨Encoder.restores_of_encode ht hw, ?_⟩
    have hboth := (List.forall₂_and_left ..).mpr ⟨hoptions, hms⟩
    exact hboth.imp fun o m ⟨ho, hname, hm⟩ => ⟨hname, Encoder.restores_of_encode ho hm⟩
  · simp only [List.mem_cons, Prod.mk.injEq, List.not_mem_nil, or_false] at hr
    rcases hr with ⟨rfl, rfl⟩ | ⟨rfl, rfl⟩ | ⟨rfl, rfl⟩ | ⟨rfl, rfl⟩
    · exact ⟨_, by decide, withOptions_fresh hterms .more, rfl⟩
    · exact ⟨_, by decide, withOptions_fresh hterms .stop, rfl⟩
    · exact ⟨_, by decide, withOptions_fresh hterms .noreplyWait, rfl⟩
    · exact ⟨_, by decide, withOptions_fresh hterms .serverInfo, rfl⟩

/-- The name of a database, given twice, with an option between. -/
def renamedDatabase : List (String × Arg) :=
  [("db", .value (.string "a")), ("profile", .value (.boolean true)),
    ("db", .term (.datum (.string "test")))]

def renamedTerms : List (String × Term) :=
  [("db", .datum (.string "a")), ("profile", .datum (.boolean true)),
    ("db", .datum (.string "test"))]

/-- The query for a table has the second name as a database, in the first place;
with no room for any level the table is reported, and a request to stop has no
options. -/
theorem envelope_exact_renamedDatabase :
    Fields.Aligned (fun a s => a.toTerm = .ok s) renamedDatabase renamedTerms ∧
      (∃ q, (mk (.start .users) []).withOptions renamedDatabase = .ok q ∧
        q.encode {} = .ok (.array [.number (.integer 1 (by decide)),
          .array [Kind.table.numeral, .array [.string "users"]],
          .object [("db", .array [Kind.db.numeral, .array [.string "test"]]),
            ("profile", .bool true)]]) ∧
        Json.Restores (.array [Kind.table.numeral, .array [.string "users"]]) .users) ∧
      (∃ q, (mk (.start .users) []).withOptions renamedDatabase = .ok q ∧
        q.encode ⟨some 0⟩ = .error (.depthExceeded 0)) ∧
      ∃ q inRange, (mk .stop []).withOptions renamedDatabase = .ok q ∧
        q.encode {} = .ok (.array [.number (.integer 3 inRange)]) := by
  have hterms : Fields.Aligned (fun a s => a.toTerm = .ok s) renamedDatabase renamedTerms :=
    .cons ⟨rfl, rfl⟩ (.cons ⟨rfl, rfl⟩ (.cons ⟨rfl, rfl⟩ .nil))
  obtain ⟨⟨q, hq, hoptions, hok, -, hback⟩, hothers⟩ :=
    envelope_exact .users {} renamedDatabase renamedTerms hterms
  obtain ⟨⟨q', hq', -, -, herror, -⟩, -⟩ :=
    envelope_exact .users ⟨some 0⟩ renamedDatabase renamedTerms hterms
  have hstored : q.options = [("db", .node .db [.datum (.string "test")] []),
      ("profile", .datum (.boolean true))] := hoptions
  have hsent : q.encode {} = .ok (.array [.number (.integer 1 (by decide)),
      .array [Kind.table.numeral, .array [.string "users"]],
      .object [("db", .array [Kind.db.numeral, .array [.string "test"]]),
        ("profile", .bool true)]]) := by
    refine (hok _).mpr ⟨_, _, rfl, ?_, rfl⟩
    rw [hstored]
    exact .cons ⟨rfl, rfl⟩ (.cons ⟨rfl, rfl⟩ .nil)
  have hgiven : ∀ pair ∈ renamedDatabase, pair.2.Admissible Term.WellFormed := by
    simp [renamedDatabase, Arg.Admissible, Datum.Distinct, Term.WellFormed]
  refine ⟨hterms, ⟨q, hq, hsent, ?_⟩, ⟨q', hq', ?_⟩, hothers .stop 3 (by simp)⟩
  · exact (hback obtainable_users.wellFormed hgiven _ _ _ hsent).1
  · exact (herror _).mpr ⟨[], .users, Fields.values q'.options, rfl, List.forall_mem_nil _, rfl⟩

end Query
end Reql
