import DocQuery.Value

/-! Induction over nested values: what holds of an array or an object may be shown from what holds of all
    its items, or of the values of all its fields. -/

namespace DocQuery

@[induction_eliminator]
theorem Value.induct {P : Value → Prop} (missing : P .missing) (null : P .null) (bool : ∀ b, P (.bool b))
    (int : ∀ n, P (.int n)) (double : ∀ x, P (.double x)) (string : ∀ s, P (.string s))
    (date : ∀ t, P (.date t)) (array : ∀ items, (∀ v ∈ items, P v) → P (.array items))
    (object : ∀ fields, (∀ f ∈ fields, P f.2) → P (.object fields)) : ∀ v, P v :=
  @Value.rec P (fun items => ∀ v ∈ items, P v) (fun fields => ∀ f ∈ fields, P f.2) (fun f => P f.2)
    missing null bool int double string date array object
    (fun _ h => absurd h List.not_mem_nil) (fun _ _ hv hrest => List.forall_mem_cons.mpr ⟨hv, hrest⟩)
    (fun _ h => absurd h List.not_mem_nil) (fun _ _ hf hrest => List.forall_mem_cons.mpr ⟨hf, hrest⟩)
    fun _ _ hv => hv

end DocQuery
