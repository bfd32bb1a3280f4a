import DocQuery.Proofs.Expr.Kept
import DocQuery.Proofs.Expr.Mention
import DocQuery.Proofs.Path

/-! Loops as folds. To map an array and to filter it both gather what they find for one item after the other. So does a
    fold that appends to what there is so far, if its body sees that nowhere else. -/

namespace DocQuery

open Checked DocQuery.Expr Value

namespace Expr

variable {e v input body condition : Value} {s t : Scope} {name : String} {items gathered : List Value}

/-! ### Writing loops -/

def mapping (input body : Value) : Value := .object [("$map", .object [("input", input), ("in", body)])]

def filtering (input condition : Value) : Value :=
  .object [("$filter", .object [("input", input), ("cond", condition)])]

/-- A fold that starts with no items. -/
def gathering (input body : Value) : Value :=
  .object [("$reduce", .object [("input", input), ("initialValue", .array []), ("in", body)])]

/-- What there is so far, with one more item. -/
def appending (item : Value) : Value := .object [("$concatArrays", .array [.string "$$value", .array [item]])]

def choosing (test yes no : Value) : Value := .object [("$cond", .array [test, yes, no])]

/-! ### Running loops -/

theorem evaluate_mapping : evaluate (mapping input body) s = (do
    match ← (← evaluate input s).expectItems? "$map" with
    | none => return .null
    | some items => return .array (← items.mapM fun item => (evaluate body (s.bind "this" item)).map orNull)) :=
  (evaluate_operator Control.map rfl rfl).trans rfl

theorem evaluate_filtering : evaluate (filtering input condition) s = (do
    match ← (← evaluate input s).expectItems? "$filter" with
    | none => return .null
    | some items => return .array (← Control.keepItems (ofValue operator? condition) "this" s none items)) :=
  (evaluate_operator Control.filter rfl rfl).trans rfl

theorem evaluate_gathering : evaluate (gathering input body) s = (do
    match ← (← evaluate input s).expectItems? "$reduce" with
    | none => return .null
    | some items =>
      items.foldlM (fun value item => evaluate body ((s.bind "value" value).bind "this" item)) (.array [])) :=
  (evaluate_operator Control.reduce rfl rfl).trans rfl

theorem evaluate_choosing {test yes no : Value} : evaluate (choosing test yes no) s = (do
    if (← evaluate test s).isTruthy then evaluate yes s else evaluate no s) :=
  (evaluate_operator Control.cond rfl rfl).trans rfl

theorem evalArguments_array (es : List Value) :
    (ofValue operator? (.array es)).evalArguments s = es.mapM fun e => evaluate e s := by
  rw [evalArguments, ofValue, arguments, ofItems_eq, List.mapM_map]
  rfl

theorem evaluate_array (es : List Value) :
    evaluate (.array es) s = (es.mapM fun e => (evaluate e s).map orNull).map .array := by
  show (evalItems (ofItems operator? es) s).map _ = _
  rw [evalItems, ofItems_eq, List.mapM_map]
  rfl

/-! ### Variables -/

theorem valueOf_of_lookup (h : s.lookup name = some v) : s.valueOf name = .ok v := by
  unfold Scope.valueOf
  rw [h]

theorem evaluate_value (h : s.lookup "value" = some v) : evaluate (.string "$$value") s = .ok v := valueOf_of_lookup h

theorem evaluate_this (h : s.lookup "this" = some v) : evaluate (.string "$$this") s = .ok v := valueOf_of_lookup h

theorem evaluate_appending (hvalue : s.lookup "value" = some (.array gathered)) :
    evaluate (appending e) s = (evaluate e s).map fun v => .array (gathered ++ [v.orNull]) := by
  have happly : evaluate (appending e) s =
      ([.string "$$value", .array [e]].mapM fun e => evaluate e s) >>= Items.concat :=
    (evaluate_operator (.variadic Items.concat) rfl rfl).trans (by rw [Operator.variadic, evalArguments_array])
  rw [happly]
  simp only [List.mapM_cons, List.mapM_nil, evaluate_value hvalue, evaluate_array]
  cases evaluate e s with
  | error => rfl
  | ok v =>
    show Except.ok (Value.array [gathered, [v.orNull]].flatten) = _
    simp [Except.map]

/-! ### Gathering -/

/-- What a loop finds for one item after the other is gathered by a fold whose steps append it. -/
theorem foldlM_gather (loop : List Value → Checked (List Value)) {step : Value → Value → Checked Value}
    {found : Value → Checked (List Value)} (hnil : loop [] = .ok [])
    (hcons : ∀ item rest, loop (item :: rest) = do return (← found item) ++ (← loop rest))
    (hstep : ∀ item ∈ items, ∀ gathered,
      step (.array gathered) item = (found item).map fun here => .array (gathered ++ here)) :
    items.foldlM step (.array gathered) = (loop items).map fun rest => .array (gathered ++ rest) := by
  induction items generalizing gathered with
  | nil =>
    rw [hnil]
    simp [Except.map]
    rfl
  | cons item rest ih =>
    obtain ⟨hitem, hrest⟩ := List.forall_mem_cons.mp hstep
    rw [List.foldlM_cons, hitem, hcons]
    -- A fault ends both, and it is the same, since what comes later has not been looked at.
    cases found item with
    | error => rfl
    | ok here =>
      show rest.foldlM step (.array (gathered ++ here)) = _
      rw [ih hrest]
      cases loop rest with
      | error => rfl
      | ok others => simp [Except.map, bind, Except.bind, pure, Except.pure]

/-- The body of a loop comes to the same in a fold if it does not look at what there is so far. -/
theorem evaluate_in_fold (hbody : ¬body.MentionsVariable "value") (gathered item : Value) :
    evaluate body ((s.bind "value" gathered).bind "this" item) = evaluate body (s.bind "this" item) :=
  evaluate_of_sameBut hbody ((s.sameBut_bind "value" gathered).bind "this" item)

theorem lookup_value_in_fold (gathered item : Value) :
    ((s.bind "value" gathered).bind "this" item).lookup "value" = some gathered := by
  rw [Scope.lookup_bind, Scope.lookup_bind]
  rfl

theorem lookup_this_in_fold (gathered item : Value) :
    ((s.bind "value" gathered).bind "this" item).lookup "this" = some item := by
  rw [Scope.lookup_bind]
  rfl

/-- A loop and a fold come to the same on all values of the array if they do on arrays. -/
theorem bind_expectItems?_eq {operator other : String} {f g : Option (List Value) → Checked Value}
    (hvalues : ∀ v, evaluate input s = .ok v → v.isNullish ∨ v.isArray) (hnone : f none = g none)
    (hsome : ∀ items, evaluate input s = .ok (.array items) → f (some items) = g (some items)) :
    (do f (← (← evaluate input s).expectItems? operator)) = (do g (← (← evaluate input s).expectItems? other)) := by
  cases hv : evaluate input s with
  | error => rfl
  | ok v =>
    cases v with
    | missing => exact hnone
    | null => exact hnone
    | array items => exact hsome items hv
    | _ => exact (hvalues _ hv).elim (fun h => Bool.noConfusion h) fun h => Bool.noConfusion h

theorem evaluate_mapping_eq_gathering (hbody : ¬body.MentionsVariable "value")
    (hvalues : ∀ v, evaluate input s = .ok v → v.isNullish ∨ v.isArray) :
    evaluate (mapping input body) s = evaluate (gathering input (appending body)) s := by
  let result (item : Value) : Checked Value := (evaluate body (s.bind "this" item)).map orNull
  have hcons : ∀ item rest, (item :: rest).mapM result =
      (do return (← (result item).map ([·])) ++ (← rest.mapM result)) := fun item rest => by
    rw [List.mapM_cons]
    cases result item <;> rfl
  have hstep : ∀ item gathered, evaluate (appending body) ((s.bind "value" (.array gathered)).bind "this" item) =
      ((result item).map ([·])).map fun here => .array (gathered ++ here) := fun item gathered => by
    -- The accumulated value is bound outside of the item, and the body does not mention it.
    rw [evaluate_appending (lookup_value_in_fold _ item), evaluate_in_fold hbody]
    show _ = Except.map _ (Except.map _ (Except.map orNull _))
    cases evaluate body (s.bind "this" item) <;> rfl
  rw [evaluate_mapping, evaluate_gathering]
  refine bind_expectItems?_eq hvalues rfl fun items _ => ?_
  refine .trans ?_ (foldlM_gather (List.mapM result) rfl hcons fun item _ => hstep item).symm
  show (do return Value.array (← items.mapM result)) = _
  cases items.mapM result <;> rfl

theorem evaluate_filtering_eq_gathering (hcondition : ¬condition.MentionsVariable "value")
    (hvalues : ∀ v, evaluate input s = .ok v → v.isNullish ∨ v.isArray)
    (hwhole : ∀ items, evaluate input s = .ok (.array items) → ∀ item ∈ items, item.Whole) :
    evaluate (filtering input condition) s =
      evaluate (gathering input (choosing condition (appending (.string "$$this")) (.string "$$value"))) s := by
  let kept := Control.keepItems (ofValue operator? condition) "this" s none
  let found (item : Value) : Checked (List Value) :=
    (evaluate condition (s.bind "this" item)).map fun v => if v.isTruthy then [item] else []
  have hcons : ∀ item rest, kept (item :: rest) = do return (← found item) ++ (← kept rest) := fun item rest => by
    have hnone : (none : Option Nat) ≠ some 0 := nofun
    refine (Control.keepItems_cons hnone (ofValue operator? condition) "this" s item rest).trans ?_
    show evaluate condition (s.bind "this" item) >>= _ = Except.map _ (evaluate condition (s.bind "this" item)) >>= _
    cases evaluate condition (s.bind "this" item) with
    | error => rfl
    | ok v =>
      show (if v.isTruthy then kept rest >>= fun more => pure (item :: more) else kept rest) =
        kept rest >>= fun more => pure ((if v.isTruthy then [item] else []) ++ more)
      cases v.isTruthy with
      | true => rfl
      | false => cases kept rest <;> rfl
  have hstep : ∀ item, item.Whole → ∀ gathered,
      evaluate (choosing condition (appending (.string "$$this")) (.string "$$value"))
          ((s.bind "value" (.array gathered)).bind "this" item) =
        (found item).map fun here => .array (gathered ++ here) := fun item hitem gathered => by
    rw [evaluate_choosing, evaluate_in_fold hcondition, evaluate_appending (lookup_value_in_fold _ item),
      evaluate_this (lookup_this_in_fold _ item), evaluate_value (lookup_value_in_fold _ item)]
    show _ = Except.map _ (Except.map _ (evaluate condition (s.bind "this" item)))
    cases evaluate condition (s.bind "this" item) with
    | error => rfl
    | ok v =>
      show (if v.isTruthy then Except.ok (Value.array (gathered ++ [item.orNull])) else .ok (.array gathered)) =
        .ok (.array (gathered ++ if v.isTruthy then [item] else []))
      -- The fold appends null in place of what is missing, and the loop keeps the item; no item is missing.
      rw [hitem.orNull_eq]
      split <;> simp
  rw [evaluate_filtering, evaluate_gathering]
  refine bind_expectItems?_eq hvalues rfl fun items hitems => ?_
  refine .trans ?_ (foldlM_gather kept (Control.keepItems_nil ..) hcons fun item hitem =>
    hstep item (hwhole items hitems item hitem)).symm
  show (do return Value.array (← kept items)) = _
  cases kept items <;> rfl

/-- To map and to filter are folds. Each comes to the same as a fold over the same array that appends what the loop
    finds for an item, if the body does not look at the variable that such a fold keeps its items in. -/
theorem evaluate_loops_eq_folds (hs : s.Keeps Whole) (hinput : input.Whole)
    (hvalues : ∀ v, evaluate input s = .ok v → v.isNullish ∨ v.isArray) (hbody : ¬body.MentionsVariable "value")
    (hcondition : ¬condition.MentionsVariable "value") :
    evaluate (mapping input body) s = evaluate (gathering input (appending body)) s ∧
      evaluate (filtering input condition) s =
        evaluate (gathering input (choosing condition (appending (.string "$$this")) (.string "$$value"))) s := by
  refine ⟨evaluate_mapping_eq_gathering hbody hvalues, evaluate_filtering_eq_gathering hcondition hvalues ?_⟩
  intro items hitems
  have hwhole := (yields_ifAny Whole.kept (.inr hinput) hs).of_eq_ok hitems
  exact (hwhole.of_not_missing rfl).items

/-- The prices of some lines at a rate, and the lines themselves without a null among them. -/
theorem evaluate_loops_eq_folds_lines :
    let s : Scope := { root := .object [("lines", .array [.int 2, .null, .int 3])], bindings := [("rate", .int 5)] }
    let input := Value.string "$lines"
    let body := Value.object [("$multiply", .array [.string "$$this", .string "$$rate"])]
    let condition := Value.string "$$this"
    (s.Keeps Whole ∧ input.Whole ∧ (∀ v, evaluate input s = .ok v → v.isNullish ∨ v.isArray) ∧
      ¬body.MentionsVariable "value" ∧ ¬condition.MentionsVariable "value") ∧
    evaluate (mapping input body) s = evaluate (gathering input (appending body)) s ∧
      evaluate (filtering input condition) s =
        evaluate (gathering input (choosing condition (appending (.string "$$this")) (.string "$$value"))) s := by
  intro s input body condition
  have hroot : s.root.Whole :=
    (wellFormed_ofJson (.object [("lines", .array [.integer 2, .null, .integer 3])])).whole
  have hs : s.Keeps Whole := ⟨.inr hroot, List.forall_mem_singleton.mpr (.inr (.scalar rfl))⟩
  have hvalues : ∀ v, evaluate input s = .ok v → v.isNullish ∨ v.isArray := fun v hv => by
    have hlines : evaluate input s = .ok (.array [.int 2, .null, .int 3]) := by
      refine (evaluate_path (p := "lines") (by decide) rfl).trans ?_
      rw [Path.ofString_of_not_mem (by decide)]
      rfl
    obtain rfl := Except.ok.inj (hlines.symm.trans hv)
    exact .inr rfl
  have hbody : ¬body.MentionsVariable "value" := by
    show ¬(Value.object [("$multiply", .array [.string "$$this", .string "$$rate"])]).MentionsVariable "value"
    rintro ⟨text, _ | _ | ⟨hf, htext⟩, hrefers⟩
    obtain rfl := List.mem_singleton.mp hf
    obtain _ | ⟨hv, htext⟩ := htext
    simp only [List.mem_cons, List.not_mem_nil, or_false] at hv
    rcases hv with rfl | rfl <;> cases htext <;> exact absurd hrefers.eq_takeWhile (by decide)
  have hcondition : ¬condition.MentionsVariable "value" := by
    show ¬(Value.string "$$this").MentionsVariable "value"
    rintro ⟨text, htext, hrefers⟩
    cases htext
    exact absurd hrefers.eq_takeWhile (by decide)
  exact ⟨⟨hs, .scalar rfl, hvalues, hbody, hcondition⟩,
    evaluate_loops_eq_folds hs (.scalar rfl) hvalues hbody hcondition⟩

end Expr

end DocQuery
