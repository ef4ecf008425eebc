import FactorSearch.Json.Record

/-!
# What readers do on text that was written for them

Equations for the steps that readers are made of, on a text that begins as the step expects.  A loop
is followed round by round (`Rounds`), which settles its fuel once (`Rounds.loop_eq`).
-/

namespace FactorSearch.Json

namespace Reader

variable {ε α β γ : Type} {s s' rest : List Char} {c : Char}

/-! ## Steps -/

section Steps

variable {x : Reader ε α} {f : α → Reader ε β} {a : α} {fault : Fault ε}

theorem bind_of_ok (h : x s = .ok (a, s')) : (x >>= f) s = f a s' := by
  change (x s >>= fun p => f p.1 p.2) = f a s'
  rw [h]
  rfl

theorem bind_of_error (h : x s = .error fault) : (x >>= f) s = .error fault := by
  change (x s >>= fun p => f p.1 p.2) = .error fault
  rw [h]
  rfl

theorem map_of_ok {g : α → β} (h : x s = .ok (a, s')) : (g <$> x) s = .ok (g a, s') := by
  change (x s >>= fun p => pure (g p.1, p.2)) = .ok (g a, s')
  rw [h]
  rfl

theorem map_of_error {g : α → β} (h : x s = .error fault) : (g <$> x) s = .error fault := by
  change (x s >>= fun p => pure (g p.1, p.2)) = .error fault
  rw [h]
  rfl

theorem peek?_eq (s : List Char) : (peek? : Reader ε (Option Char)) s = .ok (s.head?, s) := rfl

theorem drop_cons (c : Char) (s : List Char) : (drop : Reader ε Unit) (c :: s) = .ok ((), s) := rfl

theorem accept_cons (c : Char) (s : List Char) :
    (accept c : Reader ε Bool) (c :: s) = .ok (true, s) := by
  simp [accept]

theorem accept_of_ne (h : s.head? ≠ some c) : (accept c : Reader ε Bool) s = .ok (false, s) := by
  rw [accept, if_neg h]

theorem takeWhile_append {p : Char → Bool} {cs : List Char} (hcs : ∀ c ∈ cs, p c = true)
    (hrest : ∀ c ∈ rest.head?, p c = false) :
    (takeWhile p : Reader ε (List Char)) (cs ++ rest) = .ok (cs, rest) := by
  have hstop : rest.takeWhile p = [] ∧ rest.dropWhile p = rest := by
    cases rest with
    | nil => exact ⟨rfl, rfl⟩
    | cons c rest => simp [hrest c rfl]
  rw [takeWhile, List.takeWhile_append_of_pos hcs, List.dropWhile_append_of_pos hcs, hstop.1,
    hstop.2, List.append_nil]

theorem ahead_cons (h : isBlank c = false) :
    (ahead : Reader ε Char) (c :: s) = .ok (c, c :: s) := by
  have hblanks : (blanks : Reader ε Unit) (c :: s) = .ok ((), c :: s) := by
    simp [blanks, h]
  have hahead : (ahead? : Reader ε (Option Char)) (c :: s) = .ok (some c, c :: s) :=
    bind_of_ok hblanks
  rw [ahead, bind_of_ok hahead]
  rfl

theorem mark_cons (h : isBlank c = false) : (mark c : Reader ε Unit) (c :: s) = .ok ((), s) := by
  rw [mark, bind_of_ok (ahead_cons h), if_pos rfl, drop_cons]

theorem exactly_append (cs s : List Char) :
    (exactly cs : Reader ε Unit) (cs ++ s) = .ok ((), s) := by
  induction cs with
  | nil => rfl
  | cons c cs ih =>
    rw [exactly, bind_of_ok (peek?_eq _)]
    change (if c = c then _ else _ : Reader ε Unit) _ = _
    rw [if_pos rfl, List.cons_append, bind_of_ok (drop_cons c _), ih]

end Steps

/-- What may follow a value: a comma, a closing bracket, or nothing. -/
def Delimited (rest : List Char) : Prop := ∀ c ∈ rest.head?, c = ',' ∨ c = ']' ∨ c = '}'

theorem Delimited.isDigit_eq_false (h : Delimited rest) : ∀ c ∈ rest.head?, c.isDigit = false := by
  intro c hc
  rcases h c hc with rfl | rfl | rfl <;> rfl

theorem Delimited.head?_ne {c : Char} (h : Delimited rest) (hc : c ≠ ',' ∧ c ≠ ']' ∧ c ≠ '}') :
    rest.head? ≠ some c := by
  intro hhead
  rcases h c hhead with rfl | rfl | rfl <;> simp at hc

/-! ## Loops -/

section Loop

variable (round : β → Reader ε (β ⊕ γ))

/-- What the rounds from `b` on come to. -/
inductive Rounds : β → List Char → Except (Fault ε) (γ × List Char) → Prop
  | done {b : β} {s s' : List Char} {c : γ} (h : round b s = .ok (.inr c, s')) :
    Rounds b s (.ok (c, s'))
  | fault {b : β} {s : List Char} {fault : Fault ε} (h : round b s = .error fault) :
    Rounds b s (.error fault)
  | next {b b' : β} {s s' : List Char} {result : Except (Fault ε) (γ × List Char)}
    (h : round b s = .ok (.inl b', s')) (hlt : s'.length < s.length)
    (hrest : Rounds b' s' result) : Rounds b s result

variable {round} {b : β} {result : Except (Fault ε) (γ × List Char)}

theorem Rounds.loopFuel_eq (h : Rounds round b s result) {fuel : Nat} (hfuel : s.length < fuel) :
    loopFuel round fuel b s = result := by
  -- every round shortens the text, so a round for each character is enough
  induction h generalizing fuel with
  | done h =>
    obtain ⟨fuel, rfl⟩ := Nat.exists_eq_add_one_of_ne_zero (Nat.ne_zero_of_lt hfuel)
    rw [loopFuel, bind_of_ok h]
    rfl
  | fault h =>
    obtain ⟨fuel, rfl⟩ := Nat.exists_eq_add_one_of_ne_zero (Nat.ne_zero_of_lt hfuel)
    rw [loopFuel, bind_of_error h]
  | next h hlt _ ih =>
    obtain ⟨fuel, rfl⟩ := Nat.exists_eq_add_one_of_ne_zero (Nat.ne_zero_of_lt hfuel)
    rw [loopFuel, bind_of_ok h]
    exact ih (by omega)

/-- There is fuel for every round that takes a character. -/
theorem Rounds.loop_eq (h : Rounds round b s result) : loop round b s = result :=
  h.loopFuel_eq (Nat.lt_succ_self _)

end Loop

end Reader

end FactorSearch.Json
