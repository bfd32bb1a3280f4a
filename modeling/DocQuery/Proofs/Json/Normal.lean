import DocQuery.Proofs.Value.Json

/-! The normal form of JSON: what is written for the value that is read. To take it twice changes nothing. A date is
    written by a text that either reads back as a date with the same text or is kept as the text of an object, and all
    else that is written reads back as it was. -/

namespace DocQuery

/-! ### Dates -/

/-- Nothing behind the milliseconds is written. -/
theorem Instant.toText_cut (t : Instant) : t.cut.toText = t.toText := by
  -- The cut neither makes nor takes away a leap second, as a second is a whole number of milliseconds.
  have hleap : billion ≤ t.cut.nanos ↔ billion ≤ t.nanos := by
    show billion ≤ t.nanos / 1000000 * 1000000 ↔ billion ≤ t.nanos
    unfold billion
    omega
  have hmillis : t.cut.nanos % billion / 1000000 = t.nanos % billion / 1000000 := by
    show t.nanos / 1000000 * 1000000 % billion / 1000000 = t.nanos % billion / 1000000
    unfold billion
    omega
  have hdateTime : dateTimeText (.ofInstant t.cut 0) = dateTimeText (.ofInstant t 0) := by
    unfold dateTimeText LocalTime.ofInstant
    simp only [hleap]
    rfl
  rw [toText, toText, hdateTime, hmillis]

namespace Value

theorem toJson_reread_date (t : Instant) : t.reread.toJson = (date t).toJson := by
  unfold Instant.reread
  split
  · rw [toJson, toJson, Instant.toText_cut]
  · rfl

/-! ### Values -/

/-- What a value comes back as from JSON is written like the value. -/
theorem toJson_reread (v : Value) : v.reread.toJson = v.toJson := by
  induction v with
  | date t => exact toJson_reread_date t
  | array items ih =>
    rw [reread, toJson, toJson, toItems_eq, toItems_eq, rereadItems_eq, List.map_map]
    exact congrArg Json.array (List.map_congr_left ih)
  | object fields ih =>
    rw [reread, toJson, toJson, toMembers_eq, toMembers_eq, rereadFields_eq, List.map_map]
    exact congrArg (Json.object ∘ Fields.ofList) (List.map_congr_left fun f hf => congrArg (f.1, ·) (ih f hf))
  | _ => rfl

/-- What is written can be written as JSON text. -/
theorem proper_toJson (v : Value) : v.toJson.Proper := by
  induction v with
  | missing | null => exact .null
  | bool b => exact .bool b
  | int n =>
    have hsize : UInt64.size = 2 * 2 ^ 63 := rfl
    have hlt := Int64.toInt_lt n
    exact .integer ⟨Int64.le_toInt n, by omega⟩
  | double x =>
    rw [toJson]
    split
    · next hfinite => exact .double hfinite
    · exact .null
  | string s => exact .string s
  | date t => exact .object (List.nodup_singleton _) (List.forall_mem_singleton.mpr (.string _))
  | array items ih =>
    rw [toJson, toItems_eq]
    exact .array (List.forall_mem_map.mpr ih)
  | object fields ih =>
    rw [toJson, toMembers_eq]
    exact .of_proper (Fields.Proper.ofList (List.forall_mem_map.mpr ih))

end Value

/-! ### Normal forms -/

namespace Json

variable {j : Json}

/-- What is written for the value that is read. -/
def normal (j : Json) : Json := (Value.ofJson j).toJson

theorem normal_idem (h : j.Proper) : j.normal.normal = j.normal :=
  calc j.normal.normal
    _ = (Value.ofJson j).reread.toJson := congrArg Value.toJson (Value.ofJson_toJson_ofJson h)
    _ = j.normal := Value.toJson_reread _

/-- The normal form is JSON again, and its own normal form. -/
theorem normal_normal (h : j.Proper) : j.normal.Proper ∧ j.normal.normal = j.normal :=
  ⟨Value.proper_toJson _, normal_idem h⟩

/-- A leap second, a date behind year 9999, one that its offset moves before year 0, and an integer that does not fit in
    64 bits with a sign. -/
theorem normal_normal_dates :
    let j := Json.object [("at", .array [.object [("$date", .string "2016-12-31T23:59:60.5009Z")],
      .object [("$date", .integer 253402300800000)], .object [("$date", .string "0000-01-01T00:00:00+01:00")]]),
      ("n", .integer 9223372036854775808)]
    j.Proper ∧ (Value.ofJson j).dates.map Instant.toText =
      ["2016-12-31T23:59:60.500Z", "+10000-01-01T00:00:00.000Z", "-0001-12-31T23:00:00.000Z"] ∧
        j.normal.Proper ∧ j.normal.normal = j.normal := by
  intro j
  have hproper : j.Proper := by
    refine .object (by decide) ?_
    simp only [List.forall_mem_cons]
    refine ⟨.array ?_, .integer (by decide), List.forall_mem_nil _⟩
    simp only [List.forall_mem_cons]
    refine ⟨.object (by decide) ?_, .object (by decide) ?_, .object (by decide) ?_, List.forall_mem_nil _⟩
    · exact List.forall_mem_singleton.mpr (.string _)
    · exact List.forall_mem_singleton.mpr (.integer (by decide))
    · exact List.forall_mem_singleton.mpr (.string _)
  exact ⟨hproper, by decide +kernel, normal_normal hproper⟩

/-- Every text that the parser reads has a normal form. -/
theorem normal_idem_of_parse? {text : String} (h : parse? text = some j) : j.normal.normal = j.normal :=
  normal_idem (proper_of_parse? h)

end Json

end DocQuery
