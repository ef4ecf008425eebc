import FactorSearch.Json.Grammar
import FactorSearch.Proofs.Reading

/-!
# Where phrases of the grammar begin and end

Blanks make no difference to readers that look ahead first, and a value is set off from what stands
around it: `Begins` and `Ended` are the characters at its two ends.
-/

namespace FactorSearch.Json

open Reader

/-! ## Texts -/

section Texts

/-- What may stand behind a value: nothing, a blank, a comma or a closing bracket. -/
def Ended (rest : List Char) : Prop :=
  ∀ c ∈ rest.head?, isBlank c = true ∨ c = ',' ∨ c = ']' ∨ c = '}'

theorem blank_nil : Blank [] := List.forall_mem_nil _

theorem Text.Spells.inside {cs ds : List Char} (h : Text.Spells cs ds) : Text.Inside cs := by
  induction h with
  | nil => exact .nil
  | plain hc _ ih => exact .plain hc ih
  | escape hc _ ih => exact .escape hc ih
  | unicode hn _ _ _ ih => exact .unicode hn ih
  | pair hn hn' _ _ _ ih => exact .unicode hn (.unicode hn' ih)

theorem comma_true : comma true = [] := rfl

theorem comma_false : comma false = [','] := rfl

theorem separated_cons_append (first : Bool) (text : List Char) (texts : List (List Char))
    (s : List Char) : separated first (text :: texts) ++ s =
      comma first ++ (text ++ (separated false texts ++ s)) := by
  simp only [separated, List.append_assoc]

theorem separated_true (texts : List (List Char)) :
    separated true texts = [','].intercalate texts := by
  cases texts with
  | nil => rfl
  | cons text texts =>
    -- only the first text has no comma before it, so the induction is on the others
    induction texts generalizing text with
    | nil => simp [separated, comma]
    | cons text' texts ih =>
      rw [List.intercalate_cons_cons, ← ih]
      simp [separated, comma]

theorem bracketed_append (frame : Frame) (parts : List (List Char)) (blank rest : List Char) :
    bracketed frame parts blank ++ rest =
      frame.opening :: (separated true parts ++ (blank ++ frame.close :: rest)) := by
  simp [bracketed]

end Texts

/-! ## Blanks -/

section Blanks

variable {ε α β : Type} {b s s' rest : List Char} {c : Char} {x y : Reader ε α}
  {f : α → Reader ε β}

theorem bind_congr_text (h : x s = y s') : (x >>= f) s = (y >>= f) s' := by
  change (x s >>= fun p => f p.1 p.2) = (y s' >>= fun p => f p.1 p.2)
  rw [h]

theorem map_congr_text {g : α → β} (h : x s = y s') : (g <$> x) s = (g <$> y) s' := by
  change (x s >>= fun p => pure (g p.1, p.2)) = (y s' >>= fun p => pure (g p.1, p.2))
  rw [h]

/-- Blanks in front make no difference to what looks ahead first. -/
theorem ahead_blank_append (hb : Blank b) (s : List Char) :
    (ahead : Reader ε Char) (b ++ s) = ahead s := by
  have hblanks : (blanks : Reader ε Unit) (b ++ s) = blanks s := by
    rw [blanks, List.dropWhile_append_of_pos hb]
    rfl
  exact bind_congr_text (bind_congr_text hblanks)

theorem ahead_bind_blank_append (hb : Blank b) (f : Char → Reader ε β) (s : List Char) :
    (ahead >>= f) (b ++ s) = (ahead >>= f) s :=
  bind_congr_text (ahead_blank_append hb s)

theorem mark_blank_append (hb : Blank b) (c : Char) (s : List Char) :
    (mark c : Reader ε Unit) (b ++ s) = mark c s :=
  ahead_bind_blank_append hb _ s

/-- The character behind blanks. -/
theorem mark_append_cons (hb : Blank b) (hc : isBlank c = false) (s : List Char) :
    (mark c : Reader ε Unit) (b ++ c :: s) = .ok ((), s) := by
  rw [mark_blank_append hb, mark_cons hc]

theorem ahead_append_cons (hb : Blank b) (hc : isBlank c = false) (s : List Char) :
    (ahead : Reader ε Char) (b ++ c :: s) = .ok (c, c :: s) := by
  rw [ahead_blank_append hb, ahead_cons hc]

theorem Ended.append (hb : Blank b) (h : Ended s) : Ended (b ++ s) := by
  intro c hc
  cases b with
  | nil => exact h c hc
  | cons c' b =>
    cases hc
    exact .inl (hb c List.mem_cons_self)

theorem ended_close (frame : Frame) (s : List Char) : Ended (frame.close :: s) := by
  intro c hc
  cases hc
  cases frame with
  | array => exact .inr (.inr (.inl rfl))
  | object => exact .inr (.inr (.inr rfl))

/-- Behind an element comes another one or the closing bracket. -/
theorem ended_separated (parts : List (List Char)) (hb : Blank b) (frame : Frame)
    (s : List Char) : Ended (separated false parts ++ (b ++ frame.close :: s)) := by
  cases parts with
  | nil =>
    change Ended (b ++ frame.close :: s)
    exact (ended_close frame s).append hb
  | cons part parts =>
    intro c hc
    cases hc
    exact .inr (.inl rfl)

/-- Not a blank, and nothing that stands between values. -/
def Begins (c : Char) : Prop := isBlank c = false ∧ c ≠ ',' ∧ c ≠ ']' ∧ c ≠ '}'

instance (c : Char) : Decidable (Begins c) :=
  inferInstanceAs (Decidable (_ ∧ _))

theorem Begins.ne_close (h : Begins c) (frame : Frame) : c ≠ frame.close := by
  cases frame with
  | array => exact h.2.2.1
  | object => exact h.2.2.2

theorem Ended.ne (h : Ended s) (hc : Begins c) : s.head? ≠ some c := by
  intro hhead
  rcases h c hhead with hblank | rfl | rfl | rfl
  · rw [hc.1] at hblank
    cases hblank
  · exact hc.2.1 rfl
  · exact hc.2.2.1 rfl
  · exact hc.2.2.2 rfl

theorem isDigit_eq_false_of_isBlank (h : isBlank c = true) : c.isDigit = false := by
  simp only [isBlank, Bool.or_eq_true, decide_eq_true_eq] at h
  rcases h with ((rfl | rfl) | rfl) | rfl <;> rfl

theorem Ended.isDigit_eq_false (h : Ended s) : ∀ c ∈ s.head?, c.isDigit = false := by
  intro c hc
  rcases h c hc with hblank | rfl | rfl | rfl
  · exact isDigit_eq_false_of_isBlank hblank
  · rfl
  · rfl
  · rfl

end Blanks

/-! ## Where values begin -/

section Begin

variable {v : List Char}

theorem ne_of_numeral {c d : Char} (hc : (c = '-' || c.isDigit) = true)
    (hd : (d = '-' || d.isDigit) = false) : c ≠ d := by
  rintro rfl
  rw [hd] at hc
  cases hc

theorem begins_of_numeral {c : Char} (h : (c = '-' || c.isDigit) = true) : Begins c := by
  refine ⟨?_, ne_of_numeral h rfl, ne_of_numeral h rfl, ne_of_numeral h rfl⟩
  refine Bool.eq_false_iff.mpr fun hblank => ?_
  simp only [isBlank, Bool.or_eq_true, decide_eq_true_eq] at hblank
  rcases hblank with ((rfl | rfl) | rfl) | rfl <;> exact absurd h (by decide)

theorem Numeral.IsNumber.exists_cons {cs : List Char} (h : IsNumber cs) :
    ∃ c s, cs = c :: s ∧ (c = '-' || c.isDigit) = true := by
  obtain ⟨hsign, hwhole, -, -, -⟩ := h
  obtain ⟨c, s, rfl⟩ := List.exists_cons_of_ne_nil hwhole.ne_nil
  have hc : c.isDigit = true := hwhole.isDigit c List.mem_cons_self
  rcases hsign with rfl | rfl
  · exact ⟨c, _, rfl, by rw [hc, Bool.or_true]⟩
  · exact ⟨'-', _, rfl, rfl⟩

theorem IsValue.exists_cons (h : IsValue v) : ∃ c s, v = c :: s ∧ Begins c := by
  cases h with
  | null => exact ⟨'n', _, rfl, by decide⟩
  | true => exact ⟨'t', _, rfl, by decide⟩
  | false => exact ⟨'f', _, rfl, by decide⟩
  | number hnumber =>
    obtain ⟨c, s, hcs, hc⟩ := hnumber.exists_cons
    exact ⟨c, s, hcs, begins_of_numeral hc⟩
  | string => exact ⟨'"', _, rfl, by decide⟩
  | array => exact ⟨'[', _, rfl, by decide⟩
  | object => exact ⟨'{', _, rfl, by decide⟩

end Begin

end FactorSearch.Json
