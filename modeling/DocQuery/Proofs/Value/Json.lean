import DocQuery.Proofs.Instant.Text
import DocQuery.Proofs.Json.Proper
import DocQuery.Proofs.Value.Induction
import DocQuery.Value.Json

/-! Values written as JSON and read back. All that was read from JSON comes back as it was, apart from the dates: those
    in years of four digits come back to the millisecond, and the others as objects that hold their text. -/

namespace DocQuery

open Instant

/-! ### Dates -/

namespace Instant

variable {t : Instant}

/-- The date is written without loss, in the form that dates are read in. -/
def IsWritable (t : Instant) : Prop := t.nanos % 1000000 = 0 ∧ 0 ≤ t.year ∧ t.year ≤ 9999

/-- What a date comes back as from JSON. -/
def reread (t : Instant) : Value :=
  if 0 ≤ t.year ∧ t.year ≤ 9999 then .date t.cut else .object [("$date", .string t.toText)]

theorem cut_eq_self : t.cut = t ↔ t.nanos % 1000000 = 0 := by
  have hcut : t.cut = t ↔ t.nanos / 1000000 * 1000000 = t.nanos := by
    obtain ⟨seconds, nanos, hrange, hlt⟩ := t
    rw [cut, Instant.mk.injEq]
    exact and_iff_right rfl
  rw [hcut]
  omega

theorem reread_eq_self : t.reread = .date t ↔ t.IsWritable := by
  unfold reread IsWritable
  split
  · next hyear => rw [Value.date.injEq, cut_eq_self, and_iff_left hyear]
  · next hyear => exact iff_of_false (fun h => nomatch h) fun h => hyear h.2

end Instant

namespace Value

variable {v : Value} {j : Json} {t : Instant} {name : String} {members : List (String × Json)}

mutual

/-- The dates inside. -/
def dates : Value → List Instant
  | date t => [t]
  | array items => datesOfItems items
  | object fields => datesOfFields fields
  | _ => []

def datesOfItems : List Value → List Instant
  | [] => []
  | item :: rest => dates item ++ datesOfItems rest

def datesOfFields : List (String × Value) → List Instant
  | [] => []
  | (_, value) :: rest => dates value ++ datesOfFields rest

end

mutual

/-- Each date is replaced by what it comes back as from JSON. -/
def reread : Value → Value
  | date t => t.reread
  | array items => array (rereadItems items)
  | object fields => object (rereadFields fields)
  | v => v

def rereadItems : List Value → List Value
  | [] => []
  | item :: rest => reread item :: rereadItems rest

def rereadFields : List (String × Value) → List (String × Value)
  | [] => []
  | (name, value) :: rest => (name, reread value) :: rereadFields rest

end

theorem datesOfItems_eq : ∀ items, datesOfItems items = items.flatMap dates
  | [] => rfl
  | item :: rest => by rw [datesOfItems, datesOfItems_eq rest, List.flatMap_cons]

theorem datesOfFields_eq : ∀ fields, datesOfFields fields = fields.flatMap fun f => f.2.dates
  | [] => rfl
  | (name, value) :: rest => by rw [datesOfFields, datesOfFields_eq rest, List.flatMap_cons]

theorem rereadItems_eq : ∀ items, rereadItems items = items.map reread
  | [] => rfl
  | item :: rest => by rw [rereadItems, rereadItems_eq rest, List.map_cons]

theorem rereadFields_eq : ∀ fields, rereadFields fields = fields.map fun f => (f.1, f.2.reread)
  | [] => rfl
  | (name, value) :: rest => by rw [rereadFields, rereadFields_eq rest, List.map_cons]

/-- Nothing else changes, so a value comes back iff its dates do. -/
theorem reread_eq_self (v : Value) : v.reread = v ↔ ∀ t ∈ v.dates, t.IsWritable := by
  induction v with
  | date t => rw [reread, dates, List.forall_mem_singleton, Instant.reread_eq_self]
  | array items ih =>
    have hitems : items.map reread = items ↔ ∀ v ∈ items, v.reread = v := by
      conv_lhs => rhs; rw [← List.map_id items]
      exact List.map_inj_left
    rw [reread, dates, array.injEq, rereadItems_eq, datesOfItems_eq, List.forall_mem_flatMap, hitems]
    exact forall₂_congr ih
  | object fields ih =>
    have hfields : (fields.map fun f => (f.1, f.2.reread)) = fields ↔ ∀ f ∈ fields, f.2.reread = f.2 := by
      conv_lhs => rhs; rw [← List.map_id fields]
      rw [List.map_inj_left]
      exact forall₂_congr fun f _ => by simp [Prod.ext_iff]
    rw [reread, dates, object.injEq, rereadFields_eq, datesOfFields_eq, List.forall_mem_flatMap, hfields]
    exact forall₂_congr ih
  | _ => exact iff_of_true rfl (List.forall_mem_nil _)

/-! ### Writing and reading -/

theorem ofItems_eq : ∀ items, ofItems items = items.map ofJson
  | [] => rfl
  | item :: rest => by rw [ofItems, ofItems_eq rest, List.map_cons]

theorem ofMembers_eq : ∀ members, ofMembers members = members.map fun m => (m.1, ofJson m.2)
  | [] => rfl
  | (key, value) :: rest => by rw [ofMembers, ofMembers_eq rest, List.map_cons]

theorem toItems_eq : ∀ items, toItems items = items.map toJson
  | [] => rfl
  | item :: rest => by rw [toItems, toItems_eq rest, List.map_cons]

theorem toMembers_eq : ∀ fields, toMembers fields = fields.map fun f => (f.1, f.2.toJson)
  | [] => rfl
  | (name, value) :: rest => by rw [toMembers, toMembers_eq rest, List.map_cons]

theorem regular_dateOfMembers? (h : dateOfMembers? members = some t) : t.Regular := by
  unfold dateOfMembers? at h
  split at h
  · exact regular_ofStandard? h
  · split at h
    · exact regular_ofMillis? h
    · cases h
  · cases h

/-- Only a string or an integer is read as a date. -/
theorem eq_of_dateOfMembers? (h : dateOfMembers? members = some t) :
    ∃ j, members = [("$date", j)] ∧ ((∃ s, j = .string s) ∨ ∃ n, j = .integer n) := by
  unfold dateOfMembers? at h
  split at h
  · exact ⟨_, rfl, .inl ⟨_, rfl⟩⟩
  · exact ⟨_, rfl, .inr ⟨_, rfl⟩⟩
  · cases h

theorem toJson_eq_string {s : String} (h : v.toJson = .string s) : v = string s := by
  cases v with
  | string => exact congrArg string (Json.string.inj h)
  | double x =>
    rw [toJson] at h
    split at h <;> cases h
  | _ => cases h

theorem toJson_eq_integer {n : Int} (h : v.toJson = .integer n) : ∃ i, v = int i ∧ i.toInt = n := by
  cases v with
  | int i => exact ⟨i, rfl, Json.integer.inj h⟩
  | double x =>
    rw [toJson] at h
    split at h <;> cases h
  | _ => cases h

/-- Only strings are read as strings, and only integers as integers. -/
theorem eq_of_ofJson_string {s : String} (h : ofJson j = string s) : j = .string s := by
  cases j with
  | string => exact congrArg Json.string (string.inj h)
  | integer | object =>
    rw [ofJson] at h
    split at h <;> cases h
  | _ => cases h

theorem eq_of_ofJson_int {i : Int64} (h : ofJson j = int i) : j = .integer i.toInt := by
  cases j with
  | integer n =>
    rw [ofJson] at h
    split at h
    · next hn =>
      cases h
      rw [int64?_eq_some.mp hn]
    · cases h
  | object =>
    rw [ofJson] at h
    split at h <;> cases h
  | _ => cases h

/-- What is no date in JSON is none when it is written again, as strings and integers that are written stand for
    themselves. -/
theorem dateOfMembers?_rewritten (h : dateOfMembers? members = none) :
    dateOfMembers? (members.map fun m => (m.1, (ofJson m.2).toJson)) = none := by
  cases hdate : dateOfMembers? (members.map fun m => (m.1, (ofJson m.2).toJson)) with
  | none => rfl
  | some t =>
    obtain ⟨j', hmembers, hj'⟩ := eq_of_dateOfMembers? hdate
    obtain ⟨⟨name, j⟩, rfl, hmember⟩ := List.map_eq_singleton_iff.mp hmembers
    obtain ⟨rfl, hwritten⟩ := Prod.mk.inj hmember
    -- A date is read from a string or from an integer, and both are only written for themselves.
    have hsame : j = j' := by
      rcases hj' with ⟨s, rfl⟩ | ⟨n, rfl⟩
      · exact eq_of_ofJson_string (toJson_eq_string hwritten)
      · obtain ⟨i, hi, rfl⟩ := toJson_eq_integer hwritten
        exact eq_of_ofJson_int hi
    rw [hmembers, ← hsame, h] at hdate
    cases hdate

/-- A date comes back as its text says. -/
theorem ofJson_toJson_date (ht : t.Regular) : ofJson (toJson (date t)) = t.reread := by
  have hdate : dateOfMembers? [("$date", .string t.toText)] = ofStandard? t.toText := rfl
  rw [toJson, ofJson, hdate, ofStandard?_toText ht, Instant.reread]
  by_cases hyear : 0 ≤ t.year ∧ t.year ≤ 9999
  · simp only [if_pos hyear]
  · simp only [if_neg hyear]
    rfl

/-- An integer comes back as itself or, beyond 64 bits with a sign, as the double that it is read as. -/
theorem ofJson_toJson_integer {n : Int} (hn : Json.IsInteger64 n) :
    ofJson (ofJson (.integer n)).toJson = ofJson (.integer n) := by
  cases hint : int64? n with
  | some i =>
    have hvalue : ofJson (.integer n) = int i := by rw [ofJson, hint]
    rw [hvalue, toJson, int64?_eq_some.mp hint, hvalue]
  | none =>
    have hvalue : ofJson (.integer n) = double (Double.ofInt n) := by rw [ofJson, hint]
    have hbits : n.natAbs < 2 ^ 64 := by
      have hmin : Int64.minValue.toInt = -9223372036854775808 := rfl
      have hsize : UInt64.size = 18446744073709551616 := rfl
      obtain ⟨hlow, hhigh⟩ := hn
      omega
    have hfinite : (Double.ofInt n).isFinite := Double.isFinite_ofInt hbits
    rw [hvalue, toJson, if_pos hfinite, ofJson]

theorem ofJson_object (hnames : (Fields.names members).Nodup) (hdate : dateOfMembers? members = none) :
    ofJson (.object members) = object (members.map fun m => (m.1, ofJson m.2)) := by
  rw [ofJson, hdate]
  dsimp only
  rw [ofMembers_eq, Fields.ofList_of_nodup (Fields.nodup_map hnames)]

theorem toJson_object {fields : Document} (hnames : (Fields.names fields).Nodup) :
    toJson (object fields) = .object (fields.map fun f => (f.1, f.2.toJson)) := by
  rw [toJson, toMembers_eq, Fields.ofList_of_nodup (Fields.nodup_map hnames)]

/-- Only dates are changed when what was read is written and read again. -/
theorem ofJson_toJson_ofJson (h : j.Proper) : ofJson (ofJson j).toJson = (ofJson j).reread := by
  induction h with
  | null | bool | string => rfl
  | double hfinite =>
    rw [ofJson, toJson, if_pos hfinite]
    rfl
  | @integer n hn =>
    rw [ofJson_toJson_integer hn, ofJson]
    split <;> rfl
  | array hitems ih =>
    rw [ofJson, toJson, ofJson, reread, ofItems_eq, ofItems_eq, toItems_eq, rereadItems_eq, List.map_map, List.map_map,
      List.map_map]
    exact congrArg array (List.map_congr_left ih)
  | @object members hnames hmembers ih =>
    cases hdate : dateOfMembers? members with
    -- A date that was read has no digits that its text would cut off.
    | some t =>
      have hvalue : ofJson (.object members) = date t := by rw [ofJson, hdate]
      rw [hvalue, ofJson_toJson_date (regular_dateOfMembers? hdate)]
      rfl
    | none =>
      have hwritten : (ofJson (.object members)).toJson =
          .object (members.map fun m => (m.1, (ofJson m.2).toJson)) := by
        rw [ofJson_object hnames hdate, toJson_object (Fields.nodup_map hnames), List.map_map]
        rfl
      rw [hwritten, ofJson_object (Fields.nodup_map hnames) (dateOfMembers?_rewritten hdate),
        ofJson_object hnames hdate, reread, rereadFields_eq, List.map_map, List.map_map]
      exact congrArg object (List.map_congr_left fun m hm => congrArg (m.1, ·) (ih m hm))

theorem comesBack_iff (h : j.Proper) :
    ofJson (ofJson j).toJson = ofJson j ↔ ∀ t ∈ (ofJson j).dates, t.IsWritable := by
  rw [ofJson_toJson_ofJson h, reread_eq_self]

/-- A JSON value that is read, written and read again is the value that was read, with each of its dates replaced by
    what the date comes back as. So it is the same value iff all dates inside are whole numbers of milliseconds in the
    years from 0 to 9999. -/
theorem ofJson_toJson_eq_self_iff (h : j.Proper) :
    ofJson (ofJson j).toJson = (ofJson j).reread ∧
      (ofJson (ofJson j).toJson = ofJson j ↔
        ∀ t ∈ (ofJson j).dates, t.nanos % 1000000 = 0 ∧ 0 ≤ t.year ∧ t.year ≤ 9999) := by
  exact ⟨ofJson_toJson_ofJson h, comesBack_iff h⟩

/-- A leap second, a time before 1970, and an object that is no date because its text is none. -/
theorem ofJson_toJson_eq_self_iff_leap :
    let j := Json.object [("at", .array [.object [("$date", .string "2016-12-31T23:59:60.5Z")],
      .object [("$date", .integer (-1))]]), ("$date", .string "soon"), ("n", .integer 9223372036854775808)]
    j.Proper ∧ (ofJson j).dates.length = 2 ∧ ofJson (ofJson j).toJson = ofJson j := by
  intro j
  have hproper : j.Proper := by
    refine .object (by decide) ?_
    simp only [List.forall_mem_cons]
    refine ⟨.array ?_, .string _, .integer (by decide), List.forall_mem_nil _⟩
    simp only [List.forall_mem_cons]
    refine ⟨.object (by decide) ?_, .object (by decide) ?_, List.forall_mem_nil _⟩
    · exact List.forall_mem_singleton.mpr (.string _)
    · exact List.forall_mem_singleton.mpr (.integer (by decide))
  refine ⟨hproper, ?_, (ofJson_toJson_eq_self_iff hproper).2.mpr ?_⟩
  · decide +kernel
  · decide +kernel

/-- The first millisecond of year 10000 is read as a date and written with a sign, which no date is read with. -/
theorem not_ofJson_toJson_eq_self :
    let j := Json.object [("$date", .integer 253402300800000)]
    j.Proper ∧ (∃ t, ofJson j = date t ∧ t.nanos % 1000000 = 0) ∧ ofJson (ofJson j).toJson ≠ ofJson j := by
  intro j
  have hproper : j.Proper := .object (by decide) (List.forall_mem_singleton.mpr (.integer (by decide)))
  have hyear : ¬∀ t ∈ (ofJson j).dates, t.nanos % 1000000 = 0 ∧ 0 ≤ t.year ∧ t.year ≤ 9999 := by decide +kernel
  refine ⟨hproper, ⟨_, rfl, rfl⟩, fun h => hyear ?_⟩
  exact (comesBack_iff hproper).mp h

/-- The parser makes proper values only, so this holds of everything that is read from text. -/
theorem comesBack_iff_of_parse? {text : String} (h : Json.parse? text = some j) :
    ofJson (ofJson j).toJson = ofJson j ↔ ∀ t ∈ (ofJson j).dates, t.IsWritable :=
  comesBack_iff (Json.proper_of_parse? h)

end Value

end DocQuery
