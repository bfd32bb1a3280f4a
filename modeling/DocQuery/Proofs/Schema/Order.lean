import Mathlib.Data.List.Perm.Basic
import DocQuery.Proofs.Schema.Keywords

/-! The order of keywords in schemas. Keywords of different groups write different constraints, and so do those of one
    group unless they name types, which add up. So no order of the keywords changes a verdict, at any depth: what is
    exchanged in an inner schema gives an inner schema with the same verdicts. -/

namespace DocQuery.Schema

open Checked

variable {s t : Schema} {keyword : String} {v : Value} {keywords rest : List (String × Value)}

/-! ### The order of keywords -/

theorem keywordGroup_cases (keyword : String) :
    keywordGroup keyword = keyword ∨ keyword = "bsonType" ∨ keyword = "additionalProperties" := by
  unfold keywordGroup
  split
  · exact .inr (.inl rfl)
  · exact .inr (.inr rfl)
  · exact .inl rfl

/-- Groups of several keywords, other than that of the names of types. -/
theorem eq_of_keywordGroup_eq {a b : String} (h : keywordGroup a = keywordGroup b) (hne : a ≠ b)
    (htype : keywordGroup a ≠ "type") :
    (a = "properties" ∧ b = "additionalProperties") ∨ (a = "additionalProperties" ∧ b = "properties") := by
  rcases keywordGroup_cases a with ha | rfl | rfl
  · rcases keywordGroup_cases b with hb | rfl | rfl
    · exact absurd (ha.symm.trans (h.trans hb)) hne
    · exact absurd h htype
    · exact .inl ⟨ha.symm.trans h, rfl⟩
  · exact absurd rfl htype
  · rcases keywordGroup_cases b with hb | rfl | rfl
    · exact .inr ⟨rfl, hb.symm.trans h.symm⟩
    · exact absurd h htype
    · exact absurd rfl hne

theorem Adds.exists_properties {f : Schema → Schema} (h : Adds v keyword f) (hkeyword : keyword = "properties") :
    ∃ ps, propertiesOf v = .ok ps ∧ ∀ s, f s = { s with properties := ps } := by
  cases h with
  | properties hps => exact ⟨_, hps, fun _ => rfl⟩
  | _ => exact absurd hkeyword (by decide)

theorem Adds.exists_closed {f : Schema → Schema} (h : Adds v keyword f)
    (hkeyword : keyword = "additionalProperties") : ∃ closed, ∀ s, f s = { s with closed } := by
  cases h with
  | additionalProperties => exact ⟨_, fun _ => rfl⟩
  | _ => exact absurd hkeyword (by decide)

/-- Different keywords of one group, other than the names of types, write different constraints. -/
theorem Adds.comm {a b : String} {w : Value} {f g : Schema → Schema} (ha : Adds v a f) (hb : Adds w b g) (hne : a ≠ b)
    (hgroup : keywordGroup a = keywordGroup b) (htype : keywordGroup a ≠ "type") (s : Schema) : f (g s) = g (f s) := by
  rcases eq_of_keywordGroup_eq hgroup hne htype with ⟨ha', hb'⟩ | ⟨ha', hb'⟩
  · obtain ⟨ps, -, hf⟩ := ha.exists_properties ha'
    obtain ⟨closed, hg⟩ := hb.exists_closed hb'
    simp only [hf, hg]
  · obtain ⟨closed, hf⟩ := ha.exists_closed ha'
    obtain ⟨ps, -, hg⟩ := hb.exists_properties hb'
    simp only [hf, hg]

theorem ofKeywords_perm {others : List (String × Value)} {group : String} (htype : group ≠ "type")
    (hperm : keywords.Perm others) (hgroup : ∀ k ∈ keywords, keywordGroup k.1 = group)
    (hnodup : (Fields.names keywords).Nodup) (h : ofKeywords keywords s = .ok t) : ofKeywords others s = .ok t := by
  induction hperm generalizing s with
  | nil => exact h
  | cons k _ ih =>
    obtain ⟨f, hf, hrest⟩ := ofKeywords_cons_eq_ok.mp h
    exact ofKeywords_cons_eq_ok.mpr
      ⟨f, hf, ih (fun k hk => hgroup k (List.mem_cons_of_mem _ hk)) (List.nodup_cons.mp hnodup).2 hrest⟩
  -- Two keywords of one group that are not the same add to different places.
  | swap a b rest =>
    obtain ⟨f, hf, hafter⟩ := ofKeywords_cons_eq_ok.mp h
    obtain ⟨g, hg, hrest⟩ := ofKeywords_cons_eq_ok.mp hafter
    have hb := hgroup b List.mem_cons_self
    have ha := hgroup a (List.mem_cons_of_mem _ List.mem_cons_self)
    have hne : b.1 ≠ a.1 := fun heq => (List.nodup_cons.mp hnodup).1 (List.mem_cons.mpr (.inl heq))
    refine ofKeywords_cons_eq_ok.mpr ⟨g, hg, ofKeywords_cons_eq_ok.mpr ⟨f, hf, ?_⟩⟩
    rw [hf.comm hg hne (hb.trans ha.symm) (hb ▸ htype)]
    exact hrest
  | trans hfirst _ ih ih' =>
    exact ih' (fun k hk => hgroup k (hfirst.mem_iff.mpr hk)) ((hfirst.map Prod.fst).nodup_iff.mp hnodup)
      (ih hgroup hnodup h)

/-- A schema has the same verdicts whatever the order of its keywords is. -/
theorem alike_of_perm {others : List (String × Value)} (hperm : keywords.Perm others)
    (hnodup : (Fields.names keywords).Nodup) (h : ofValue (.object keywords) = .ok s) :
    ∃ t, ofValue (.object others) = .ok t ∧ Alike s t := by
  have hreads : ∃ t, ofKeywords others {} = .ok t := by
    rw [ofValue] at h
    exact exists_ofKeywords.mpr fun k hk => exists_ofKeywords.mp ⟨s, h⟩ k (hperm.mem_iff.mpr hk)
  obtain ⟨t, ht⟩ := hreads
  rw [← ofValue] at ht
  refine ⟨t, ht, fun v => ?_⟩
  rw [accepts_iff_only, accepts_iff_only]
  refine forall_congr' fun group => ?_
  have hparts : (part keywords group).Perm (part others group) := hperm.filter _
  -- Types are a union, so that their order changes the list but no verdict; elsewhere the schemas are equal.
  by_cases htype : group = "type"
  · subst htype
    by_cases hnil : part keywords "type" = []
    · have hnil' : part others "type" = [] := (hnil ▸ hparts).nil_eq.symm
      rw [only_of_part_eq_nil h hnil, only_of_part_eq_nil ht hnil']
    · have hnil' : part others "type" ≠ [] := fun hnil' => hnil (hnil' ▸ hparts).eq_nil
      rw [accepts_only_type h hnil, accepts_only_type ht hnil']
      simp only [hparts.mem_iff]
  · have hnodup : (Fields.names (part keywords group)).Nodup := hnodup.sublist (List.filter_sublist.map Prod.fst)
    have hs := ofValue_part h group
    have hu := ofValue_part ht group
    rw [ofValue] at hs hu
    have hsame := ofKeywords_perm htype hparts (fun k hk => (mem_part.mp hk).2) hnodup hs
    rw [hu, Except.ok.injEq] at hsame
    rw [hsame]

/-! ### Inner schemas -/

theorem Adds.exists_items {f : Schema → Schema} (h : Adds v keyword f) (hkeyword : keyword = "items") :
    ∃ i, ofValue v = .ok i ∧ ∀ s, f s = { s with items := some i } := by
  cases h with
  | items hi => exact ⟨_, hi, fun _ => rfl⟩
  | _ => exact absurd hkeyword (by decide)

theorem Adds.keeps_inner {f : Schema → Schema} (h : Adds v keyword f) (hitems : keyword ≠ "items")
    (hproperties : keyword ≠ "properties") (s : Schema) (i : Option Schema) (ps : List (String × Schema)) :
    f { s with items := i, properties := ps } = { f s with items := i, properties := ps } := by
  cases h with
  | items => exact absurd rfl hitems
  | properties => exact absurd rfl hproperties
  | _ => rfl

theorem Adds.related {f : Schema → Schema} (hf : Adds v keyword f) (h : Related s t) : Related (f s) (f t) := by
  cases h with
  | intro u hi hps =>
    -- A keyword either replaces one of the inner schemas on both sides, or touches none of them.
    by_cases hitems : keyword = "items"
    · obtain ⟨i, -, hf⟩ := hf.exists_items hitems
      rw [hf, hf]
      exact .intro u (Alike.items_refl _) hps
    · by_cases hproperties : keyword = "properties"
      · obtain ⟨ps, -, hf⟩ := hf.exists_properties hproperties
        rw [hf, hf]
        exact .intro u hi (Alike.properties_refl _)
      · rw [hf.keeps_inner hitems hproperties, hf.keeps_inner hitems hproperties]
        exact .intro (f u) hi hps

theorem Related.ofKeywords {u : Schema} (h : Related s t) (hread : Schema.ofKeywords keywords s = .ok u) :
    ∃ w, Schema.ofKeywords keywords t = .ok w ∧ Related u w := by
  induction keywords generalizing s t with
  | nil =>
    cases hread
    exact ⟨t, rfl, h⟩
  | cons k rest ih =>
    obtain ⟨f, hf, hrest⟩ := ofKeywords_cons_eq_ok.mp hread
    obtain ⟨w, hw, hrelated⟩ := ih (hf.related h) hrest
    exact ⟨w, ofKeywords_cons_eq_ok.mpr ⟨f, hf, hw⟩, hrelated⟩

/-- Only what one keyword adds is exchanged. -/
theorem exists_alike_of_exchange {before after : List (String × Value)} {w : Value}
    (hexchange : ∀ f, Adds v keyword f → ∃ g, Adds w keyword g ∧ ∀ u, Related (f u) (g u))
    (h : ofValue (.object (before ++ (keyword, v) :: after)) = .ok s) :
    ∃ t, ofValue (.object (before ++ (keyword, w) :: after)) = .ok t ∧ Alike s t := by
  rw [ofValue] at h
  obtain ⟨u, hbefore, hfrom⟩ := (ofKeywords_append_eq_ok before).mp h
  obtain ⟨f, hf, hafter⟩ := ofKeywords_cons_eq_ok.mp hfrom
  obtain ⟨g, hg, hrelated⟩ := hexchange f hf
  obtain ⟨t, ht, halike⟩ := (hrelated u).ofKeywords hafter
  refine ⟨t, ?_, halike.alike⟩
  rw [ofValue]
  exact (ofKeywords_append_eq_ok before).mpr ⟨u, hbefore, ofKeywords_cons_eq_ok.mpr ⟨g, hg, ht⟩⟩

theorem ofFields_cons_eq_ok {field : String} {ps : List (String × Schema)} :
    ofFields ((field, v) :: rest) = .ok ps ↔
      ∃ s qs, ofValue v = .ok s ∧ ofFields rest = .ok qs ∧ ps = (field, s) :: qs := by
  rw [ofFields, bind_eq_ok]
  simp only [mapError_eq_ok, bind_eq_ok]
  constructor
  · rintro ⟨s, hs, qs, hqs, h⟩
    exact ⟨s, qs, hs, hqs, (Except.ok.inj h).symm⟩
  · rintro ⟨s, qs, hs, hqs, rfl⟩
    exact ⟨s, hs, qs, hqs, rfl⟩

theorem exists_ofFields_exchange {after : List (String × Value)} {field : String} {w : Value}
    (hexchange : ∀ {s}, ofValue v = .ok s → ∃ t, ofValue w = .ok t ∧ Alike s t) :
    ∀ {before : List (String × Value)} {ps : List (String × Schema)}, ofFields (before ++ (field, v) :: after) = .ok ps →
      ∃ qs, ofFields (before ++ (field, w) :: after) = .ok qs ∧ List.Forall₂ AlikeFor ps qs
  | [], ps, h => by
    obtain ⟨s, rest, hs, hrest, rfl⟩ := ofFields_cons_eq_ok.mp h
    obtain ⟨t, ht, halike⟩ := hexchange hs
    exact ⟨(field, t) :: rest, ofFields_cons_eq_ok.mpr ⟨t, rest, ht, hrest, rfl⟩,
      .cons ⟨rfl, halike⟩ (Alike.properties_refl rest)⟩
  | (other, _) :: before, ps, h => by
    obtain ⟨s, rest, hs, hrest, rfl⟩ := ofFields_cons_eq_ok.mp h
    obtain ⟨qs, hqs, halike⟩ := exists_ofFields_exchange hexchange hrest
    exact ⟨(other, s) :: qs, ofFields_cons_eq_ok.mpr ⟨s, qs, hs, hqs, rfl⟩, .cons ⟨rfl, .refl s⟩ halike⟩

/-- The keywords are the same, in another order, and so are those of inner schemas at any depth. -/
inductive Reordered : Value → Value → Prop
  | keywords {ks ls : List (String × Value)} :
    (Fields.names ks).Nodup → ks.Perm ls → Reordered (.object ks) (.object ls)
  | items {v w : Value} (before after : List (String × Value)) : Reordered v w →
    Reordered (.object (before ++ ("items", v) :: after)) (.object (before ++ ("items", w) :: after))
  | property {v w : Value} (before after : List (String × Value)) (earlier later : List (String × Value))
    (field : String) : Reordered v w →
    Reordered (.object (before ++ ("properties", .object (earlier ++ (field, v) :: later)) :: after))
      (.object (before ++ ("properties", .object (earlier ++ (field, w) :: later)) :: after))
  | trans {u v w : Value} : Reordered u v → Reordered v w → Reordered u w

theorem Reordered.alike {w : Value} (h : Reordered v w) : ∀ {s : Schema}, ofValue v = .ok s →
    ∃ t, ofValue w = .ok t ∧ Alike s t := by
  induction h with
  | keywords hnodup hperm => exact alike_of_perm hperm hnodup
  -- The inner schema is exchanged for one with the same verdicts, which is put into the same place.
  | items before after _ ih =>
    refine exists_alike_of_exchange fun f hf => ?_
    obtain ⟨i, hi, hf⟩ := hf.exists_items rfl
    obtain ⟨j, hj, halike⟩ := ih hi
    refine ⟨_, .items hj, fun u => ?_⟩
    rw [hf]
    exact .intro u (.some halike) (Alike.properties_refl _)
  | property before after earlier later field _ ih =>
    refine exists_alike_of_exchange fun f hf => ?_
    obtain ⟨ps, hps, hf⟩ := hf.exists_properties rfl
    rw [propertiesOf] at hps
    obtain ⟨qs, hqs, halike⟩ := exists_ofFields_exchange ih hps
    rw [← propertiesOf] at hqs
    refine ⟨_, .properties hqs, fun u => ?_⟩
    rw [hf]
    exact .intro u (Alike.items_refl _) halike
  | trans _ _ ih ih' =>
    intro s hs
    obtain ⟨t, ht, halike⟩ := ih hs
    obtain ⟨u, hu, halike'⟩ := ih' ht
    exact ⟨u, hu, halike.trans halike'⟩

/-- The keywords of a schema are independent constraints. A schema accepts a value iff it finds no violation at any
    path, and iff each group of its keywords alone is a schema that accepts the value, where the names of types are a
    union; so other orders of the keywords, at any depth, have the same verdicts. -/
theorem keywords_independent (h : ofValue (.object keywords) = .ok s) :
    (∀ place v, s.accepts v ↔ s.check place v = none) ∧
    (∀ v, s.accepts v ↔ ∀ keyword ∈ Fields.names keywords,
      ∃ t, ofValue (.object (part keywords (keywordGroup keyword))) = .ok t ∧ t.accepts v) ∧
    (part keywords "type" ≠ [] → ∃ t, ofValue (.object (part keywords "type")) = .ok t ∧
      ∀ v, t.accepts v ↔ ∃ k ∈ part keywords "type", Names k v) ∧
    ∀ w, Reordered (.object keywords) w → ∃ t, ofValue w = .ok t ∧ Alike s t := by
  refine ⟨fun place v => accepts_iff_check place, fun v => ?_, fun hne => ?_, fun w hw => hw.alike h⟩
  · rw [accepts_iff_parts h]
    refine forall₂_congr fun keyword _ => ?_
    simp [ofValue_part h]
  · exact ⟨only "type" s, ofValue_part h "type", accepts_only_type h hne⟩

/-- Two keywords for types, and bounds of the items in either order. -/
theorem keywords_independent_digits :
    let digits := [("minimum", Value.int 0), ("maximum", Value.int 9)]
    let keywords := [("bsonType", Value.string "null"), ("items", .object digits), ("type", .string "array")]
    let reordered := [("bsonType", Value.string "null"), ("items", .object digits.reverse), ("type", .string "array")]
    ∃ s t, ofValue (.object keywords) = .ok s ∧ ofValue (.object reordered) = .ok t ∧ part keywords "type" ≠ [] ∧
      Reordered (.object keywords) (.object reordered) ∧ Alike s t ∧
      (s.check "a.0" (.array [.int 10])).isSome ∧ ¬t.accepts (.array [.int 10]) := by
  intro digits keywords reordered
  have hdigits : Reordered (.object digits) (.object digits.reverse) :=
    .keywords (by decide) (List.reverse_perm digits).symm
  have hreordered := Reordered.items [("bsonType", .string "null")] [("type", .string "array")] hdigits
  obtain ⟨s, hs⟩ : ∃ s, ofValue (.object keywords) = .ok s := ⟨_, rfl⟩
  obtain ⟨haccepts, -, -, hverdict⟩ := keywords_independent hs
  obtain ⟨t, ht, halike⟩ := hverdict _ hreordered
  have hcheck : (s.check "a.0" (.array [.int 10])).isSome := by
    cases hs
    decide +kernel
  refine ⟨s, t, hs, ht, by simp [part, keywords, keywordGroup], hreordered, halike, hcheck, ?_⟩
  rw [← halike, haccepts "a.0"]
  exact Option.isSome_iff_ne_none.mp hcheck

end DocQuery.Schema
