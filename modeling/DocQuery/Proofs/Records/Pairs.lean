import DocQuery.Proofs.Expr.Applied
import DocQuery.Proofs.Fields.Names

/-! Objects as arrays of pairs. Each pair is written to the fields of the pairs before it, so a key keeps the place at
    which it comes first and takes the value that it comes with last. Where no key comes twice nothing is written over,
    and the object and its pairs determine each other. -/

namespace DocQuery

open DocQuery.Expr Value

namespace Records

variable {field : String × Value} {item : Value} {items : List Value} {fields pairs : Document}

/-- A pair is an array of a name and a value, or an object with the name under `k` and the value under `v`, in any
    order. -/
inductive IsPair (field : String × Value) : Value → Prop
  | array : IsPair field (.array [.string field.1, field.2])
  | keyFirst : IsPair field (.object [("k", .string field.1), ("v", field.2)])
  | valueFirst : IsPair field (.object [("v", field.2), ("k", .string field.1)])

theorem isPair_pairOf (field : String × Value) : IsPair field (pairOf field) := .keyFirst

theorem insertPair_eq (h : IsPair field item) (fields : Document) :
    insertPair fields item = .ok (fields.insert field.1 field.2) := by
  cases h <;> rfl

theorem foldlM_insertPair (h : List.Forall₂ IsPair pairs items) (fields : Document) :
    items.foldlM insertPair fields = .ok (fields.merge pairs) := by
  induction h generalizing fields with
  | nil => rfl
  | @cons field _ _ _ hpair _ ih =>
    rw [List.foldlM_cons, insertPair_eq hpair]
    exact ih (fields.insert field.1 field.2)

theorem ofPairs_eq (h : List.Forall₂ IsPair pairs items) :
    ofPairs (.array items) = .ok (.object (Fields.ofList pairs)) := by
  rw [ofPairs, foldlM_insertPair h]
  rfl

theorem forall₂_pairOf (fields : Document) : List.Forall₂ IsPair fields (fields.map pairOf) :=
  List.forall₂_map_right_iff.mpr (List.forall₂_same.mpr fun field _ => isPair_pairOf field)

end Records

namespace Expr

open Records

variable {e a : Value} {s : Scope} {items : List Value} {fields pairs : Document}

theorem evaluate_objectToArray (ha : Single e a) (he : evaluate e s = .ok (.object fields)) :
    evaluate (.object [("$objectToArray", a)]) s = .ok (.array (fields.map pairOf)) :=
  evaluate_unary (f := toPairs) rfl rfl ha he

theorem evaluate_arrayToObject (ha : Single e a) (he : evaluate e s = .ok (.array items))
    (h : List.Forall₂ IsPair pairs items) :
    evaluate (.object [("$arrayToObject", a)]) s = .ok (.object (Fields.ofList pairs)) := by
  rw [evaluate_unary (f := ofPairs) rfl rfl ha he, ofPairs_eq h]

/-- An object with distinct names comes back from its pairs as it was. Any pairs with strings as keys make an object,
    which has each key once, where it comes first, with the value that it comes with last; and if no key comes twice,
    the pairs come back from the object. -/
theorem evaluate_pairs_inverse (s : Scope) :
    (∀ (e a : Value) (fields : Document), Single e a → evaluate e s = .ok (.object fields) →
      (Fields.names fields).Nodup → ∃ pairs : Value,
        evaluate (.object [("$objectToArray", a)]) s = .ok pairs ∧
        ∀ (t : Scope) (e' a' : Value), Single e' a' → evaluate e' t = .ok pairs →
          evaluate (.object [("$arrayToObject", a')]) t = .ok (.object fields)) ∧
    ∀ (e a : Value) (items : List Value) (pairs : Document), Single e a → evaluate e s = .ok (.array items) →
      List.Forall₂ IsPair pairs items → ∃ fields : Document,
        evaluate (.object [("$arrayToObject", a)]) s = .ok (.object fields) ∧
        Fields.names fields = (Fields.names pairs).eraseDups ∧ (Fields.names fields).Nodup ∧
        (∀ name, fields.get? name = Fields.get? pairs.reverse name) ∧
        ((Fields.names pairs).Nodup → fields = pairs ∧
          ∀ (t : Scope) (e' a' : Value), Single e' a' → evaluate e' t = .ok (.object fields) →
            evaluate (.object [("$objectToArray", a')]) t = .ok (.array (pairs.map pairOf))) := by
  refine ⟨fun e a fields ha he hnames => ?_, fun e a items pairs ha he hpairs => ?_⟩
  · refine ⟨_, evaluate_objectToArray ha he, fun t e' a' ha' he' => ?_⟩
    rw [evaluate_arrayToObject ha' he' (forall₂_pairOf fields), Fields.ofList_of_nodup hnames]
  · have hproper : Fields.Proper (fun _ : Value => True) (Fields.ofList pairs) := .ofList fun _ _ => trivial
    refine ⟨_, evaluate_arrayToObject ha he hpairs, Fields.names_ofList pairs, hproper.nodup,
      Fields.get?_ofList pairs, fun hnames => ?_⟩
    rw [Fields.ofList_of_nodup hnames]
    exact ⟨rfl, fun t e' a' ha' he' => evaluate_objectToArray ha' he'⟩

/-- Two fields and back, and three pairs of all forms with two keys. -/
theorem evaluate_pairs_inverse_sizes :
    let s : Scope := { root := .null }
    let size : Document := [("w", .int 2), ("h", .array [.null, .int 3])]
    let pairs : Document := [("a", .int 1), ("b", .null), ("a", .int 3)]
    let items : List Value := [.array [.string "a", .int 1], .object [("v", .null), ("k", .string "b")],
      .object [("k", .string "a"), ("v", .int 3)]]
    let written (v : Value) := Value.object [("$literal", v)]
    (evaluate (written (.object size)) s = .ok (.object size) ∧ (Fields.names size).Nodup ∧
      evaluate (written (.array items)) s = .ok (.array items) ∧ List.Forall₂ IsPair pairs items) ∧
    evaluate (.object [("$arrayToObject", .object [("$objectToArray", written (.object size))])]) s =
      .ok (.object size) ∧
    evaluate (.object [("$arrayToObject", .array [written (.array items)])]) s =
      .ok (.object [("a", .int 3), ("b", .null)]) := by
  intro s size pairs items written
  have hsize : evaluate (written (.object size)) s = .ok (.object size) := evaluate_literal
  have hitems : evaluate (written (.array items)) s = .ok (.array items) := evaluate_literal
  have hnames : (Fields.names size).Nodup := by decide
  have hpairs : List.Forall₂ IsPair pairs items := .cons .array (.cons .valueFirst (.cons .keyFirst .nil))
  obtain ⟨hback, hforth⟩ := evaluate_pairs_inverse s
  refine ⟨⟨hsize, hnames, hitems, hpairs⟩, ?_, ?_⟩
  · obtain ⟨_, hvalue, hobject⟩ := hback _ _ size (.alone rfl) hsize hnames
    exact hobject s _ _ (.alone rfl) hvalue
  · obtain ⟨fields, hvalue, hfirst, hnodup, hlast, -⟩ := hforth _ _ items pairs .bracketed hitems hpairs
    have hfields : fields = [("a", .int 3), ("b", .null)] := by
      refine Fields.eq_of_names hnodup (hfirst.trans (by decide)) fun name hname => ?_
      rw [hfirst, List.mem_eraseDups] at hname
      simp only [pairs, Fields.names, List.map_cons, List.map_nil, List.mem_cons, List.not_mem_nil, or_false] at hname
      rcases hname with rfl | rfl | rfl <;> exact (hlast _).trans rfl
    rw [hvalue, hfields]

end Expr

end DocQuery
