import DocQuery.Proofs.Text.Digits
import DocQuery.Text.Quoted

/-! Quoted texts. No quoted character begins another one, and none begins with a quote, so a quoted text
    ends at its first bare quote and is the text of one string only. -/

namespace DocQuery.Text

variable {c d : Char} {r r' : List Char}

/-- The characters with an escape of their own, and what stands behind the backslash. -/
def marks : List (Char × Char) :=
  [('"', '"'), ('\\', '\\'), ('\n', 'n'), ('\r', 'r'), ('\t', 't'), ('\x00', '0')]

theorem marks_inj : ∀ p ∈ marks, ∀ q ∈ marks, p.2 = q.2 → p.1 = q.1 := by decide

theorem marks_ne : ∀ p ∈ marks, p.2 ≠ 'u' := by decide

/-- The three ways to quote a character. -/
theorem quoteChar_cases (c : Char) : (quoteChar c = [c] ∧ c ≠ '\\' ∧ c ≠ '"') ∨
    (∃ mark, (c, mark) ∈ marks ∧ quoteChar c = ['\\', mark]) ∨ quoteChar c = escapeCode c := by
  unfold quoteChar
  split_ifs with h₁ h₂ h₃ h₄ h₅ h₆ h₇
  · exact Or.inr (Or.inl ⟨'"', by simp [h₁, marks], rfl⟩)
  · exact Or.inr (Or.inl ⟨'\\', by simp [h₂, marks], rfl⟩)
  · exact Or.inr (Or.inl ⟨'n', by simp [h₃, marks], rfl⟩)
  · exact Or.inr (Or.inl ⟨'r', by simp [h₄, marks], rfl⟩)
  · exact Or.inr (Or.inl ⟨'t', by simp [h₅, marks], rfl⟩)
  · have h : c = '\x00' := Char.toNat_inj.mp h₆
    exact Or.inr (Or.inl ⟨'0', by simp [h, marks], rfl⟩)
  · exact Or.inl ⟨rfl, h₂, h₁⟩
  · exact Or.inr (Or.inr rfl)

theorem escapeCode_append_inj (h : escapeCode c ++ r = escapeCode d ++ r') : c = d ∧ r = r' := by
  have hdigit : ∀ {k : Nat}, ∀ x ∈ Nat.toDigits 16 k, (x != '\x7d') = true := fun x hx => by
    obtain ⟨i, hi, rfl⟩ := exists_digit_of_mem (by decide) hx
    have hall : ∀ j : Fin 16, (j.val.digitChar != '\x7d') = true := by decide
    exact hall ⟨i, hi⟩
  have hstop : ∀ r, Stops (· != '\x7d') ('\x7d' :: r) := fun r => stops_cons (by decide)
  simp only [escapeCode, List.append_assoc, List.cons_append, List.nil_append, List.cons.injEq, true_and] at h
  obtain ⟨hcode, hrest⟩ := append_inj_of_stops hdigit hdigit (hstop r) (hstop r') h
  exact ⟨Char.toNat_inj.mp (toDigits_inj (by decide) (by decide) hcode), (List.cons.inj hrest).2⟩

theorem quoteChar_append_inj (h : quoteChar c ++ r = quoteChar d ++ r') : c = d ∧ r = r' := by
  -- The first two characters tell how a character is quoted, and then which one it is.
  rcases quoteChar_cases c with ⟨hc, hb, -⟩ | ⟨m, hm, hc⟩ | hc <;>
    rcases quoteChar_cases d with ⟨hd, hb', -⟩ | ⟨m', hm', hd⟩ | hd <;> rw [hc, hd] at h
  · exact List.cons.inj h
  · exact absurd (List.cons.inj h).1 hb
  · exact absurd (List.cons.inj h).1 hb
  · exact absurd (List.cons.inj h).1.symm hb'
  · simp only [List.cons_append, List.nil_append, List.cons.injEq, true_and] at h
    exact ⟨marks_inj _ hm _ hm' h.1, h.2⟩
  · simp only [escapeCode, List.append_assoc, List.cons_append, List.nil_append, List.cons.injEq, true_and] at h
    exact absurd h.1 (marks_ne _ hm)
  · exact absurd (List.cons.inj h).1.symm hb'
  · simp only [escapeCode, List.append_assoc, List.cons_append, List.nil_append, List.cons.injEq, true_and] at h
    exact absurd h.1.symm (marks_ne _ hm')
  · exact escapeCode_append_inj h

theorem quoteChar_eq_cons (c : Char) : ∃ x rest, quoteChar c = x :: rest ∧ x ≠ '"' := by
  rcases quoteChar_cases c with ⟨hc, -, hq⟩ | ⟨m, -, hc⟩ | hc
  · exact ⟨c, [], hc, hq⟩
  · exact ⟨'\\', [m], hc, by decide⟩
  · exact ⟨'\\', _, hc, by decide⟩

theorem toList_quoted (s : String) : (quoted s).toList = '"' :: s.toList.flatMap quoteChar ++ ['"'] := by
  simp [quoted]

theorem flatMap_quoteChar_append_inj : ∀ {s t : List Char},
    s.flatMap quoteChar ++ '"' :: r = t.flatMap quoteChar ++ '"' :: r' → s = t ∧ r = r'
  | [], [], h => ⟨rfl, (List.cons.inj h).2⟩
  | [], d :: t, h => by
    obtain ⟨x, rest, hd, hx⟩ := quoteChar_eq_cons d
    simp only [List.flatMap_nil, List.flatMap_cons, hd, List.nil_append, List.cons_append, List.cons.injEq] at h
    exact absurd h.1.symm hx
  | c :: s, [], h => by
    obtain ⟨x, rest, hc, hx⟩ := quoteChar_eq_cons c
    simp only [List.flatMap_nil, List.flatMap_cons, hc, List.nil_append, List.cons_append, List.cons.injEq] at h
    exact absurd h.1 hx
  | c :: s, d :: t, h => by
    simp only [List.flatMap_cons, List.append_assoc] at h
    obtain ⟨rfl, htail⟩ := quoteChar_append_inj h
    obtain ⟨rfl, hrest⟩ := flatMap_quoteChar_append_inj htail
    exact ⟨rfl, hrest⟩

/-- A quoted text is told from what comes after it. -/
theorem quoted_append_inj {s t : String} (h : (quoted s).toList ++ r = (quoted t).toList ++ r') :
    s = t ∧ r = r' := by
  simp only [toList_quoted, List.cons_append, List.append_assoc, List.nil_append, List.cons.injEq, true_and] at h
  obtain ⟨hst, hrest⟩ := flatMap_quoteChar_append_inj h
  exact ⟨String.toList_inj.mp hst, hrest⟩

end DocQuery.Text
