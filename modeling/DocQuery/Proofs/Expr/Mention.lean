import Mathlib.Data.List.TakeWhile
import DocQuery.Proofs.Expr.Evaluation

/-! Evaluation depends on what an expression mentions: the variables and the fields that its strings refer to.
    Operators bind the same values in two scopes that agree on these, so they go on agreeing inside. -/

namespace DocQuery

open Checked DocQuery.Expr

/-- The text is a string in the value, at any depth. -/
inductive Value.Mentions (text : String) : Value → Prop
  | string : Mentions text (.string text)
  | array {items : List Value} {v : Value} : v ∈ items → Mentions text v → Mentions text (.array items)
  | object {fields : List (String × Value)} {f : String × Value} :
    f ∈ fields → Mentions text f.2 → Mentions text (.object fields)

/-- The text is the name behind the sigil, perhaps with a path after a dot. -/
def RefersTo (sigil name text : String) : Prop :=
  '.' ∉ name.toList ∧ (text = sigil ++ name ∨ ∃ path, text = sigil ++ name ++ "." ++ path)

def Value.MentionsVariable (e : Value) (name : String) : Prop := ∃ text, e.Mentions text ∧ RefersTo "$$" name text

def Value.MentionsField (e : Value) (name : String) : Prop :=
  name.toList.head? ≠ some '$' ∧ ∃ text, e.Mentions text ∧ RefersTo "$" name text

/-- The scopes agree on the variables and the fields that the expression mentions. -/
structure Scope.AgreeOn (e : Value) (s t : Scope) : Prop where
  lookups : ∀ name, e.MentionsVariable name → s.lookup name = t.lookup name
  root : e.MentionsVariable "ROOT" ∨ e.MentionsVariable "CURRENT" → s.root = t.root
  fields : ∀ name, e.MentionsField name → s.root.get? name = t.root.get? name

variable {e v : Value} {s t : Scope} {name : String}

/-! ### References -/

theorem not_mem_takeWhile_dot (chars : List Char) : '.' ∉ chars.takeWhile (· ≠ '.') := fun h => by
  simpa using List.all_eq_true.mp List.all_takeWhile '.' h

/-- A text ends before its first dot, or goes on behind it. -/
theorem eq_takeWhile_dot (chars : List Char) :
    chars = chars.takeWhile (· ≠ '.') ∨ ∃ path, chars = chars.takeWhile (· ≠ '.') ++ '.' :: path := by
  have hparts := (List.takeWhile_append_dropWhile (p := (· ≠ '.')) (l := chars)).symm
  cases hrest : chars.dropWhile (· ≠ '.') with
  | nil =>
    rw [hrest, List.append_nil] at hparts
    exact .inl hparts
  | cons c path =>
    have hc : c = '.' := by
      have hhead := List.head?_dropWhile_not (· ≠ '.') chars
      rw [hrest] at hhead
      simpa using hhead
    exact .inr ⟨path, by rwa [hrest, hc] at hparts⟩

theorem refersTo_takeWhile {sigil text : String} {chars : List Char} (h : text.toList = sigil.toList ++ chars) :
    RefersTo sigil (String.ofList (chars.takeWhile (· ≠ '.'))) text := by
  refine ⟨by rw [String.toList_ofList]; exact not_mem_takeWhile_dot chars, ?_⟩
  rcases eq_takeWhile_dot chars with heq | ⟨path, heq⟩
  · refine .inl (String.toList_inj.mp ?_)
    rw [h, String.toList_append, String.toList_ofList, ← heq]
  · refine .inr ⟨String.ofList path, String.toList_inj.mp ?_⟩
    simp only [String.toList_append, String.toList_ofList, List.append_assoc]
    rw [h]
    conv_lhs => rw [heq]
    rfl

/-- A text refers to one name only. -/
theorem RefersTo.eq_takeWhile {sigil text : String} (h : RefersTo sigil name text) :
    name = String.ofList ((text.toList.drop sigil.toList.length).takeWhile (· ≠ '.')) := by
  obtain ⟨hdot, htext⟩ := h
  have hname : ∀ c ∈ name.toList, decide (c ≠ '.') := fun c hc => by
    rw [decide_eq_true_iff]
    rintro rfl
    exact hdot hc
  refine String.toList_inj.mp ?_
  rcases htext with rfl | ⟨path, rfl⟩
  · rw [String.toList_append, List.drop_left, String.toList_ofList, List.takeWhile_eq_self_iff.mpr hname]
  · rw [String.toList_append, String.toList_append, String.toList_append, List.append_assoc, List.append_assoc,
      List.drop_left, String.toList_ofList, List.takeWhile_append_of_pos hname]
    simp

/-- The first segment of a path ends before the first dot. -/
theorem Path.ofString_ofList (chars : List Char) :
    ∃ rest, Path.ofString (String.ofList chars) = String.ofList (chars.takeWhile (· ≠ '.')) :: rest := by
  rw [Path.ofString, String.toList_ofList]
  have hdot := not_mem_takeWhile_dot chars
  rcases eq_takeWhile_dot chars with heq | ⟨path, heq⟩
  · refine ⟨[], ?_⟩
    rw [← heq] at hdot ⊢
    rw [List.splitOn_eq_singleton hdot]
    rfl
  · refine ⟨(path.splitOn '.').map String.ofList, ?_⟩
    conv_lhs => rw [heq]
    rw [List.splitOn_append_cons_self_of_not_mem hdot]
    rfl

theorem Path.resolve_of_isObject {rest : Path} (h : v.isObject) :
    Path.resolve (name :: rest) v = match v.get? name with
      | some child => rest.resolve child
      | none => .missing := by
  cases v with
  | object => rfl
  | _ => exact Bool.noConfusion h

/-! ### Evaluation -/

theorem Scope.lookup_bind (s : Scope) (bound : String) (v : Value) (name : String) :
    (s.bind bound v).lookup name = if bound == name then some v else s.lookup name := by
  unfold lookup bind Fields.get?
  dsimp only
  rw [List.find?_cons]
  cases bound == name <;> rfl

theorem Scope.AgreeOn.bind (h : s.AgreeOn e t) (bound : String) (v : Value) :
    (s.bind bound v).AgreeOn e (t.bind bound v) where
  lookups name hname := by rw [lookup_bind, lookup_bind, h.lookups name hname]
  root := h.root
  fields := h.fields

/-- Any value may come up, in scopes that agree on what the expression mentions. -/
def Discipline.ofMentions (e : Value) : Discipline :=
  .ofAlike (fun s t => s.root.isObject ∧ t.root.isObject ∧ s.AgreeOn e t) (fun _ => True)
    (fun name v h => ⟨h.1, h.2.1, h.2.2.bind name v⟩) fun _ => trivial

theorem agree_string_of_mentions {text : String} (htext : e.Mentions text) (h : (Discipline.ofMentions e).Alike s t) :
    (Discipline.ofMentions e).Agree (evalString text s) (evalString text t) := by
  obtain ⟨hs, ht, h⟩ := h
  refine Discipline.agree_evalString (fun reference hreference => ?_) fun path hpath hhead => ⟨?_, trivial⟩
  · -- A reference is decided by its first name, which the expression mentions.
    have hvariable : e.MentionsVariable (String.ofList (reference.takeWhile (· ≠ '.'))) :=
      ⟨text, htext, refersTo_takeWhile hreference⟩
    refine Discipline.agree_reference (Discipline.agree_valueOf (h.lookups _ hvariable) (fun _ _ => trivial) ?_)
    rintro (hname | hname)
    · exact ⟨h.root (.inl (hname ▸ hvariable)), trivial⟩
    · exact ⟨h.root (.inr (hname ▸ hvariable)), trivial⟩
  · -- A path is decided by its first segment: `Alike` says nothing of the other fields of the roots.
    have hfield : e.MentionsField (String.ofList (path.takeWhile (· ≠ '.'))) := by
      refine ⟨fun hsigil => hhead ?_, text, htext, refersTo_takeWhile hpath⟩
      rw [String.toList_ofList, List.head?_takeWhile, Option.filter_eq_some_iff] at hsigil
      exact hsigil.1
    obtain ⟨rest, hrest⟩ := Path.ofString_ofList path
    rw [hrest, Path.resolve_of_isObject hs, Path.resolve_of_isObject ht, h.fields _ hfield]

theorem fits_of_mentions (h : ∀ text, v.Mentions text → e.Mentions text) : (Discipline.ofMentions e).Fits v := by
  induction v with
  | string text => exact .string fun s t => agree_string_of_mentions (h text .string)
  | array items ih => exact .array fun v hv => ih v hv fun text htext => h text (.array hv htext)
  | object fields ih =>
    exact .of_fields (fun _ _ => trivial) (fun f hf => ih f hf fun text htext => h text (.object hf htext))
      fun _ _ => trivial
  | _ => exact .constant rfl

/-- An expression evaluates to the same value or the same fault on two documents, if the scopes agree on the
    variables that it mentions and on the fields that its paths begin with. -/
theorem evaluate_eq_of_agreeOn (hs : s.root.isObject) (ht : t.root.isObject) (h : s.AgreeOn e t) :
    evaluate e s = evaluate e t :=
  (Discipline.evaluate_agree (fits_of_mentions fun _ htext => htext) ⟨hs, ht, h⟩).eq

/-- The price with the tax does not depend on a note in the document, nor on a variable of that name. -/
theorem evaluate_taxed_price :
    let e := Value.object [("$add", .array [.string "$price", .string "$$tax"])]
    let s : Scope := { root := .object [("price", .int 2), ("note", .null)], bindings := [("tax", .int 1)] }
    let t : Scope := { root := .object [("price", .int 2)], bindings := [("note", .null), ("tax", .int 1)] }
    s.AgreeOn e t ∧ evaluate e s = evaluate e t := by
  intro e s t
  have hmentions : ∀ text, Value.Mentions text (.object [("$add", .array [.string "$price", .string "$$tax"])]) →
      text = "$price" ∨ text = "$$tax" := by
    rintro _ (_ | _ | ⟨hf, htext⟩)
    obtain rfl := List.mem_singleton.mp hf
    obtain _ | ⟨hv, htext⟩ := htext
    simp only [List.mem_cons, List.not_mem_nil, or_false] at hv
    rcases hv with rfl | rfl <;> cases htext
    · exact .inl rfl
    · exact .inr rfl
  -- A text that starts with a dollar is also read as a path, so that each text mentions one name of either kind.
  have hvariable : ∀ name, e.MentionsVariable name → name = "rice" ∨ name = "tax" := by
    rintro name ⟨text, htext, hrefers⟩
    rcases hmentions text htext with rfl | rfl
    · exact .inl hrefers.eq_takeWhile
    · exact .inr hrefers.eq_takeWhile
  have hfield : ∀ name, e.MentionsField name → name = "price" ∨ name = "$tax" := by
    rintro name ⟨-, text, htext, hrefers⟩
    rcases hmentions text htext with rfl | rfl
    · exact .inl hrefers.eq_takeWhile
    · exact .inr hrefers.eq_takeWhile
  have hagree : s.AgreeOn e t := by
    refine ⟨fun name hname => ?_, fun hroot => ?_, fun name hname => ?_⟩
    · rcases hvariable name hname with rfl | rfl <;> rfl
    · exact absurd hroot (by rintro (h | h) <;> exact absurd (hvariable _ h) (by decide))
    · rcases hfield name hname with rfl | rfl <;> rfl
  exact ⟨hagree, evaluate_eq_of_agreeOn rfl rfl hagree⟩

/-! ### One variable -/

/-- The scopes are the same, but perhaps for one variable. -/
structure Scope.SameBut (name : String) (s t : Scope) : Prop where
  root : s.root = t.root
  lookups : ∀ other, other ≠ name → s.lookup other = t.lookup other

theorem Scope.SameBut.bind (h : s.SameBut name t) (bound : String) (v : Value) :
    (s.bind bound v).SameBut name (t.bind bound v) where
  root := h.root
  lookups other hother := by rw [lookup_bind, lookup_bind, h.lookups other hother]

theorem Scope.sameBut_bind (s : Scope) (name : String) (v : Value) : (s.bind name v).SameBut name s where
  root := rfl
  lookups other hother := by
    rw [lookup_bind, beq_eq_false_iff_ne.mpr hother.symm]
    rfl

/-- Any value may come up, in scopes that are the same but for the variable. -/
def Discipline.besides (name : String) : Discipline :=
  .ofAlike (Scope.SameBut name) (fun _ => True) (fun bound v h => h.bind bound v) fun _ => trivial

theorem agree_string_besides {text : String} (htext : ¬RefersTo "$$" name text) (h : s.SameBut name t) :
    (Discipline.besides name).Agree (evalString text s) (evalString text t) := by
  refine Discipline.agree_evalString (fun reference hreference => ?_) fun path _ _ => ⟨by rw [h.root], trivial⟩
  have hother : String.ofList (reference.takeWhile (· ≠ '.')) ≠ name := fun hname =>
    htext (hname ▸ refersTo_takeWhile hreference)
  exact Discipline.agree_reference
    (Discipline.agree_valueOf (h.lookups _ hother) (fun _ _ => trivial) fun _ => ⟨h.root, trivial⟩)

theorem fits_besides (h : ¬v.MentionsVariable name) : (Discipline.besides name).Fits v := by
  induction v with
  | string text => exact .string fun s t => agree_string_besides fun hrefers => h ⟨text, .string, hrefers⟩
  | array items ih => exact .array fun v hv => ih v hv fun ⟨text, htext, hrefers⟩ => h ⟨text, .array hv htext, hrefers⟩
  | object fields ih =>
    refine .of_fields (fun _ _ => trivial) (fun f hf => ih f hf ?_) fun _ _ => trivial
    exact fun ⟨text, htext, hrefers⟩ => h ⟨text, .object hf htext, hrefers⟩
  | _ => exact .constant rfl

/-- An expression does not see a variable that it does not mention. -/
theorem evaluate_of_sameBut (he : ¬e.MentionsVariable name) (h : s.SameBut name t) : evaluate e s = evaluate e t :=
  (Discipline.evaluate_agree (fits_besides he) h).eq

end DocQuery
