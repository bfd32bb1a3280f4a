import DocQuery.Json.Parser
import DocQuery.Proofs.Fields

/-! JSON values as texts write them: integers have 64 bits, doubles are finite, and the members of an object have
    distinct names. The parser keeps to this with every token. -/

namespace DocQuery.Json

variable {text : String} {chars : List Char} {token : Token} {tokens new last : List Token} {s s' : State}
  {value : Json} {frames : List Frame}

/-- Signed or unsigned, in 64 bits. -/
def IsInteger64 (n : Int) : Prop := Int64.minValue.toInt ≤ n ∧ n < UInt64.size

instance (n : Int) : Decidable (IsInteger64 n) := inferInstanceAs (Decidable (_ ∧ _))

/-- The value can be written as JSON text. -/
inductive Proper : Json → Prop
  | null : Proper .null
  | bool (b : Bool) : Proper (.bool b)
  | integer {n : Int} : IsInteger64 n → Proper (.integer n)
  | double {x : Double} : x.isFinite → Proper (.double x)
  | string (s : String) : Proper (.string s)
  | array {items : List Json} : (∀ j ∈ items, Proper j) → Proper (.array items)
  | object {members : List (String × Json)} :
    (Fields.names members).Nodup → (∀ m ∈ members, Proper m.2) → Proper (.object members)

theorem Proper.of_proper {members : List (String × Json)} (h : Fields.Proper Json.Proper members) :
    (Json.object members).Proper := .object h.nodup h.values

/-! ### Tokens -/

/-- The number of a token has 64 bits or is a finite double. -/
def Token.Proper : Token → Prop
  | .integer n => IsInteger64 n
  | .double x => x.isFinite
  | _ => True

theorem proper_token? {t : NumberText} (h : t.token? = some token) : token.Proper := by
  have hmin : Int64.minValue.toInt = -9223372036854775808 := rfl
  have habs : Int64.minValue.toInt.natAbs = 9223372036854775808 := rfl
  unfold NumberText.token? at h
  -- Only the largest magnitude depends on the sign, as there is one more negative integer.
  cases hsign : t.negative <;> simp only [hsign, if_true, Bool.false_eq_true, if_false] at h
  all_goals
    split_ifs at h with _ hinteger hfinite
    · obtain rfl := Option.some.inj h
      simp only [habs, Bool.and_eq_true, decide_eq_true_eq] at hinteger
      unfold Token.Proper IsInteger64
      omega
    · obtain rfl := Option.some.inj h
      exact hfinite

theorem proper_word? {letters : List Char} (h : word? letters = some token) : token.Proper := by
  unfold word? at h
  split_ifs at h <;> cases h <;> trivial

theorem proper_startToken {c : Char} {next : Partial} (h : startToken c = some (new, next)) : ∀ t ∈ new, t.Proper := by
  unfold startToken at h
  split_ifs at h
  case neg =>
    obtain ⟨token, htoken, h⟩ := Option.map_eq_some_iff.mp h
    cases h
    refine List.forall_mem_singleton.mpr ?_
    unfold punctuation? at htoken
    split at htoken <;> cases htoken <;> trivial
  all_goals
    cases h
    exact List.forall_mem_nil _

/-- A token that a character ends, and those that it starts. -/
theorem proper_ended {ended : Option Token} {c : Char} {next : Partial} (hended : ∀ token ∈ ended, token.Proper)
    (h : (do
      let token ← ended
      let (tokens, next) ← startToken c
      return (token :: tokens, next)) = some (new, next)) : ∀ t ∈ new, t.Proper := by
  obtain ⟨token, htoken, h⟩ := Option.bind_eq_some_iff.mp h
  obtain ⟨⟨tokens, next⟩, hstart, h⟩ := Option.bind_eq_some_iff.mp h
  cases h
  exact List.forall_mem_cons.mpr ⟨hended token htoken, proper_startToken hstart⟩

/-- What a character completes. Inside a string nothing is complete before its end. -/
theorem proper_step {state next : Partial} {c : Char} (h : state.step c = some (new, next)) : ∀ t ∈ new, t.Proper := by
  -- Inside of a token only the end of a string, or the character behind a word or a number, completes it.
  cases state with
  | between => exact proper_startToken h
  | word letters =>
    rw [Partial.step] at h
    split at h
    · cases h
      exact List.forall_mem_nil _
    · exact proper_ended (fun _ => proper_word?) h
  | number chars =>
    rw [Partial.step] at h
    split at h
    · cases h
      exact List.forall_mem_nil _
    · exact proper_ended (fun _ => proper_token?) h
  | string chars =>
    rw [Partial.step] at h
    split_ifs at h <;> cases h
    · exact List.forall_mem_singleton.mpr trivial
    · exact List.forall_mem_nil _
    · exact List.forall_mem_nil _
  | escape chars =>
    rw [Partial.step] at h
    split at h
    · cases h
      exact List.forall_mem_nil _
    · obtain ⟨_, -, h⟩ := Option.map_eq_some_iff.mp h
      cases h
      exact List.forall_mem_nil _
  | unit chars high left value =>
    obtain ⟨_, -, h⟩ := Option.bind_eq_some_iff.mp h
    split at h
    · obtain ⟨_, -, h⟩ := Option.bind_eq_some_iff.mp h
      cases h
      exact List.forall_mem_nil _
    · cases h
      exact List.forall_mem_nil _
  | awaitBackslash chars high =>
    rw [Partial.step] at h
    split at h <;> cases h
    exact List.forall_mem_nil _
  | awaitUnit chars high =>
    rw [Partial.step] at h
    split at h <;> cases h
    exact List.forall_mem_nil _

theorem proper_finish {state : Partial} (h : state.finish = some last) : ∀ t ∈ last, t.Proper := by
  unfold Partial.finish at h
  split at h
  · cases h
    exact List.forall_mem_nil _
  · obtain ⟨token, htoken, rfl⟩ := Option.map_eq_some_iff.mp h
    exact List.forall_mem_singleton.mpr (proper_word? htoken)
  · obtain ⟨token, htoken, rfl⟩ := Option.map_eq_some_iff.mp h
    exact List.forall_mem_singleton.mpr (proper_token? htoken)
  · cases h

theorem proper_scanFrom {state : Partial} (htokens : ∀ t ∈ tokens, t.Proper)
    (h : scanFrom tokens state chars = some new) : ∀ t ∈ new, t.Proper := by
  induction chars generalizing tokens state with
  | nil =>
    obtain ⟨last, hlast, rfl⟩ := Option.map_eq_some_iff.mp h
    exact List.forall_mem_append.mpr ⟨fun t ht => htokens t (List.mem_reverse.mp ht), proper_finish hlast⟩
  | cons c rest ih =>
    rw [scanFrom] at h
    split at h
    · next found next hstep =>
      refine ih (List.forall_mem_append.mpr ⟨fun t ht => ?_, htokens⟩) h
      exact proper_step hstep t (List.mem_reverse.mp ht)
    · cases h

/-! ### Values -/

/-- What is open holds proper values. -/
def Frame.Proper : Frame → Prop
  | .array items => ∀ j ∈ items, j.Proper
  | .object members _ => Fields.Proper Json.Proper members

def Expect.Proper : Expect → Prop
  | .value | .itemOrEnd => True
  | .keyOrEnd members | .key members | .colon members _ => Fields.Proper Json.Proper members
  | .afterValue value => value.Proper

structure State.Proper (s : State) : Prop where
  frames : ∀ f ∈ s.frames, f.Proper
  expect : s.expect.Proper

theorem proper_scalar? (htoken : token.Proper) (h : scalar? token = some value) : value.Proper := by
  unfold scalar? at h
  split at h <;> cases h
  · exact .null
  · exact .bool _
  · exact .integer htoken
  · exact .double htoken
  · exact .string _

namespace State

theorem proper_value (hframes : ∀ f ∈ frames, f.Proper) (htoken : token.Proper)
    (h : State.value frames token = some s') : s'.Proper := by
  unfold State.value at h
  split at h
  · split at h <;> cases h
    exact ⟨List.forall_mem_cons.mpr ⟨List.forall_mem_nil _, hframes⟩, trivial⟩
  · split at h <;> cases h
    exact ⟨hframes, .nil⟩
  · obtain ⟨value, hvalue, rfl⟩ := Option.map_eq_some_iff.mp h
    exact ⟨hframes, proper_scalar? htoken hvalue⟩

theorem proper_step (hs : s.Proper) (htoken : token.Proper) (h : s.step token = some s') : s'.Proper := by
  obtain ⟨hframes, hexpect⟩ := hs
  unfold State.step at h
  -- What is complete is proper, and so is what the frames hold; a step moves one of these into another.
  split at h
  · exact proper_value hframes htoken h
  · cases h
    exact ⟨fun f hf => hframes f (List.mem_of_mem_tail hf), .array (List.forall_mem_nil _)⟩
  · exact proper_value hframes htoken h
  · next hmembers =>
    cases h
    rw [hmembers] at hexpect
    exact ⟨hframes, .of_proper hexpect⟩
  · next hmembers =>
    cases h
    rw [hmembers] at hexpect
    exact ⟨hframes, hexpect⟩
  · next hmembers =>
    cases h
    rw [hmembers] at hexpect
    exact ⟨hframes, hexpect⟩
  · next hmembers =>
    cases h
    rw [hmembers] at hexpect
    exact ⟨List.forall_mem_cons.mpr ⟨hexpect, hframes⟩, trivial⟩
  · next value token hvalue =>
    -- The complete value goes to the innermost frame.
    rw [hvalue] at hexpect
    split at h
    · next hopen =>
      cases h
      rw [hopen] at hframes
      obtain ⟨hitems, hframes⟩ := List.forall_mem_cons.mp hframes
      exact ⟨List.forall_mem_cons.mpr ⟨List.forall_mem_cons.mpr ⟨hexpect, hitems⟩, hframes⟩, trivial⟩
    · next hopen =>
      cases h
      rw [hopen] at hframes
      obtain ⟨hitems, hframes⟩ := List.forall_mem_cons.mp hframes
      refine ⟨hframes, .array fun j hj => ?_⟩
      rcases List.mem_cons.mp (List.mem_reverse.mp hj) with rfl | hj
      · exact hexpect
      · exact hitems j hj
    · next hopen =>
      cases h
      rw [hopen] at hframes
      obtain ⟨hmembers, hframes⟩ := List.forall_mem_cons.mp hframes
      exact ⟨hframes, Fields.Proper.insert hmembers _ hexpect⟩
    · next hopen =>
      cases h
      rw [hopen] at hframes
      obtain ⟨hmembers, hframes⟩ := List.forall_mem_cons.mp hframes
      exact ⟨hframes, .of_proper (Fields.Proper.insert hmembers _ hexpect)⟩
    · cases h
  · cases h

theorem proper_run (hs : s.Proper) (htokens : ∀ t ∈ tokens, t.Proper) (h : s.run tokens = some s') :
    s'.Proper := by
  induction tokens generalizing s with
  | nil => exact Option.some.inj h ▸ hs
  | cons token rest ih =>
    obtain ⟨htoken, hrest⟩ := List.forall_mem_cons.mp htokens
    rw [State.run] at h
    split at h
    · next next hnext => exact ih (proper_step hs htoken hnext) hrest h
    · cases h

end State

/-- What the parser reads is proper. -/
theorem proper_of_parse? (h : parse? text = some value) : value.Proper := by
  obtain ⟨tokens, htokens, h⟩ := Option.bind_eq_some_iff.mp h
  obtain ⟨s, hrun, h⟩ := Option.bind_eq_some_iff.mp h
  have hproper := proper_scanFrom (List.forall_mem_nil _) htokens
  have hstart : State.start.Proper := ⟨List.forall_mem_nil _, trivial⟩
  have hs : s.Proper := State.proper_run hstart hproper hrun
  split at h
  · exact Option.some.inj h ▸ hs.expect
  · cases h

end DocQuery.Json
