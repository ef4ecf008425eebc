import FactorSearch.Proofs.ReaderLogic
import FactorSearch.Proofs.Scalars

/-!
# A value that nobody asks for is passed over whole

Passing over a text is a walk over states (`Skip.Reaches`).  By induction on a value, the walk that
comes to its beginning leaves it at its end with the same brackets open (`IsValue.passes`), so what
is left of a text begins behind the value (`skipValue_value`).
-/

namespace FactorSearch.Json

open Reader

namespace Skip

variable {ε : Type} {s s' s'' b rest : List Char} {st st' st'' : State} {frame : Frame}
  {frames : List Frame}

/-! ## Walks -/

section Walks

/-- Rounds that each take something. -/
inductive Reaches (ε : Type) : State → List Char → State → List Char → Prop
  | refl (st : State) (s : List Char) : Reaches ε st s st s
  | step {st st' st'' : State} {s s' s'' : List Char}
    (h : (round st : Reader ε (State ⊕ Unit)) s = .ok (.inl st', s'))
    (hlt : s'.length < s.length) (hrest : Reaches ε st' s' st'' s'') : Reaches ε st s st'' s''

theorem Reaches.trans (h : Reaches ε st s st' s') (h' : Reaches ε st' s' st'' s'') :
    Reaches ε st s st'' s'' := by
  induction h with
  | refl => exact h'
  | step h hlt _ ih => exact .step h hlt (ih h')

/-- A walk out of the last bracket is over. -/
theorem Reaches.rounds (h : Reaches ε st s (.afterValue []) s') :
    Rounds (round : State → Reader ε (State ⊕ Unit)) st s (.ok ((), s')) := by
  generalize hend : State.afterValue [] = last at h
  induction h with
  | refl =>
    rw [← hend]
    exact .done rfl
  | step h hlt _ ih => exact .next h hlt (ih hend)

theorem Reaches.value_step (h : (value frames : Reader ε State) s = .ok (st, s'))
    (hlt : s'.length < s.length) : Reaches ε (.value frames) s st s' :=
  .step (map_of_ok h) hlt (.refl st s')

theorem Reaches.between_step (h : (between frame frames : Reader ε State) s = .ok (st, s'))
    (hlt : s'.length < s.length) : Reaches ε (.afterValue (frame :: frames)) s st s' :=
  .step (map_of_ok h) hlt (.refl st s')

end Walks

/-! ## Brackets -/

section Brackets

variable {before core v after blank : List Char} {parts : List (List Char)}

/-- Whatever brackets are open and whatever stands around it, the walk goes over `v`. -/
def Passes (ε : Type) (v : List Char) : Prop :=
  ∀ frames b rest, Blank b → Ended rest →
    Reaches ε (.value frames) (b ++ (v ++ rest)) (.afterValue frames) rest

/-- A part of a bracketed value: behind `before` stands what the frame asks for, then a value `v` and
what is behind it. -/
structure Part (ε : Type) (frame : Frame) (before core v after : List Char) : Prop where
  before : Blank before
  begins : ∃ c s, core = c :: s ∧ isBlank c = false ∧ c ≠ frame.close
  enters : ∀ b s, Blank b → ∃ b', Blank b' ∧
    (key frame : Reader ε Unit) (b ++ (core ++ s)) = .ok ((), b' ++ (v ++ (after ++ s)))
  after : Blank after
  passes : Passes ε v

def IsPart (ε : Type) (frame : Frame) (part : List Char) : Prop :=
  ∃ before core v after, part = before ++ core ∧ Part ε frame before core v after

theorem isBlank_close (frame : Frame) : isBlank frame.close = false := by
  cases frame <;> rfl

theorem close_ne_comma (frame : Frame) : frame.close ≠ ',' := by
  cases frame <;> decide

/-- Into a part, over its value, up to what follows it. -/
theorem Part.exists_key (frames : List Frame) (h : Part ε frame before core v after)
    (hb : Blank b) (hs : Ended s) :
    ∃ s', (key frame : Reader ε Unit) (b ++ (core ++ s)) = .ok ((), s') ∧
      s'.length ≤ (b ++ (core ++ s)).length ∧
        Reaches ε (.value (frame :: frames)) s' (.afterValue (frame :: frames)) (after ++ s) := by
  obtain ⟨b', hb', hkey⟩ := h.enters b s hb
  have hsafe : Safe (fun _ => True) (key frame : Reader ε Unit) := safe_key frame
  have hle := (hsafe.value hkey).1.length_le
  exact ⟨_, hkey, hle, h.passes _ b' _ hb' (hs.append h.after)⟩

theorem opened_close (hb : Blank b) (s : List Char) :
    (opened frame frames : Reader ε State) (b ++ frame.close :: s) =
      .ok (.afterValue frames, s) := by
  rw [opened, bind_of_ok (ahead_append_cons hb (isBlank_close frame) s), if_pos rfl,
    bind_of_ok (drop_cons _ s)]
  rfl

theorem Part.exists_opened (frames : List Frame) (h : Part ε frame before core v after)
    (hs : Ended s) :
    ∃ s', (opened frame frames : Reader ε State) (before ++ (core ++ s)) =
        .ok (.value (frame :: frames), s') ∧ s'.length ≤ (before ++ (core ++ s)).length ∧
        Reaches ε (.value (frame :: frames)) s' (.afterValue (frame :: frames)) (after ++ s) := by
  obtain ⟨s', hkey, hle, hreaches⟩ := h.exists_key frames (List.forall_mem_nil _) hs
  obtain ⟨c, cs, rfl, hblank, hclose⟩ := h.begins
  have hahead : (ahead : Reader ε Char) (before ++ (c :: cs ++ s)) = .ok (c, c :: cs ++ s) :=
    ahead_append_cons h.before hblank _
  refine ⟨s', ?_, ?_, hreaches⟩
  · rw [opened, bind_of_ok hahead, if_neg hclose]
    exact bind_of_ok hkey
  · rw [List.length_append]
    exact Nat.le_add_left_of_le hle

theorem between_close (hb : Blank b) (s : List Char) :
    (between frame frames : Reader ε State) (b ++ frame.close :: s) =
      .ok (.afterValue frames, s) := by
  rw [between, bind_of_ok (ahead_append_cons hb (isBlank_close frame) s),
    if_neg (close_ne_comma frame), if_pos rfl, bind_of_ok (drop_cons _ s)]
  rfl

theorem Part.exists_between (frames : List Frame) (h : Part ε frame before core v after)
    (hb : Blank b) (hs : Ended s) :
    ∃ s', (between frame frames : Reader ε State) (b ++ ',' :: (before ++ (core ++ s))) =
        .ok (.value (frame :: frames), s') ∧ s'.length ≤ (before ++ (core ++ s)).length ∧
        Reaches ε (.value (frame :: frames)) s' (.afterValue (frame :: frames)) (after ++ s) := by
  obtain ⟨s', hkey, hle, hreaches⟩ := h.exists_key frames h.before hs
  refine ⟨s', ?_, hle, hreaches⟩
  rw [between, bind_of_ok (ahead_append_cons hb rfl _), if_pos rfl, bind_of_ok (drop_cons _ _)]
  exact bind_of_ok hkey

/-- Behind a value, the walk goes over all parts that are left and out of the bracket. -/
theorem reaches_close (frames : List Frame) (rest : List Char)
    (hparts : ∀ part ∈ parts, IsPart ε frame part) (hblank : Blank blank)
    (hb : Blank b) : Reaches ε (.afterValue (frame :: frames))
      (b ++ (separated false parts ++ (blank ++ frame.close :: rest))) (.afterValue frames) rest := by
  -- behind a value there are commas and parts until the bracket is closed
  induction parts generalizing b with
  | nil =>
    have hb' : Blank (b ++ blank) := List.forall_mem_append.mpr ⟨hb, hblank⟩
    rw [separated, List.nil_append, ← List.append_assoc]
    refine Reaches.between_step (between_close hb' rest) ?_
    simp only [List.length_append, List.length_cons]
    omega
  | cons part parts ih =>
    obtain ⟨before, core, v, after, rfl, hpart⟩ := hparts part List.mem_cons_self
    obtain ⟨s', hbetween, hle, hover⟩ := hpart.exists_between frames hb
      (ended_separated parts hblank frame rest)
    have hrest := ih (fun part hmem => hparts part (List.mem_cons_of_mem _ hmem)) hpart.after
    simp only [separated, comma_false, List.append_assoc, List.cons_append, List.nil_append]
    refine .trans (.between_step hbetween ?_) (hover.trans hrest)
    rw [List.length_append, List.length_cons]
    omega

theorem value_opening (frame : Frame) (hb : Blank b) (s : List Char) :
    (value frames : Reader ε State) (b ++ frame.opening :: s) = opened frame frames s := by
  cases frame with
  | array => exact (bind_of_ok (ahead_append_cons hb rfl s)).trans (bind_of_ok (drop_cons '[' s))
  | object => exact (bind_of_ok (ahead_append_cons hb rfl s)).trans (bind_of_ok (drop_cons '{' s))

/-- A bracketed value is passed over if each of its parts is one that can be. -/
theorem passes_bracketed (hparts : ∀ part ∈ parts, IsPart ε frame part) (hblank : Blank blank) :
    Passes ε (bracketed frame parts blank) := by
  intro frames b rest hb _
  -- no comma stands before the first part, if there is one
  cases parts with
  | nil =>
    simp only [bracketed, separated, List.nil_append, List.cons_append, List.append_assoc]
    refine .value_step ((value_opening frame hb _).trans (opened_close hblank rest)) ?_
    simp only [List.length_append, List.length_cons]
    omega
  | cons part parts =>
    obtain ⟨before, core, v, after, rfl, hpart⟩ := hparts part List.mem_cons_self
    obtain ⟨s', hopened, hle, hover⟩ := hpart.exists_opened frames
      (ended_separated parts hblank frame rest)
    have hrest := reaches_close frames rest
      (fun part hmem => hparts part (List.mem_cons_of_mem _ hmem)) hblank hpart.after
    simp only [bracketed, separated, comma_true, List.append_assoc, List.cons_append,
      List.nil_append]
    refine .trans (.value_step ((value_opening frame hb _).trans hopened) ?_) (hover.trans hrest)
    rw [List.length_append, List.length_cons]
    omega

end Brackets

/-! ## Values -/

section Values

variable {v : List Char}

theorem isPart_element {e : Element} (hspaced : e.Spaced) (hvalue : IsValue e.value)
    (hpasses : Passes ε e.value) : IsPart ε .array e.chars := by
  obtain ⟨c, s, hcs, hbegins⟩ := hvalue.exists_cons
  refine ⟨e.before, e.value ++ e.after, e.value, e.after, rfl, hspaced.before, ?_, ?_,
    hspaced.after, hpasses⟩
  · exact ⟨c, s ++ e.after, by rw [hcs, List.cons_append], hbegins.1, hbegins.ne_close .array⟩
  · intro b s hb
    refine ⟨b, hb, ?_⟩
    rw [List.append_assoc]
    rfl

theorem isPart_member {m : Member} (hspaced : m.Spaced) (hkey : Text.Inside m.key)
    (hpasses : Passes ε m.element.value) : IsPart ε .object m.chars := by
  refine ⟨m.before, _, m.element.value, m.element.after, rfl, hspaced.before,
    ⟨'"', _, rfl, rfl, by decide⟩, ?_, hspaced.element.after, hpasses⟩
  intro b s hb
  refine ⟨m.element.before, hspaced.element.before, ?_⟩
  -- a key that is passed over need not spell a name
  have hskip : (Text.skip : Reader ε Unit) (m.key ++ '"' :: (m.behind ++ ':' ::
      (m.element.chars ++ s))) = .ok ((), m.behind ++ ':' :: (m.element.chars ++ s)) :=
    Text.skip_eq_ok_iff.mpr ⟨m.key, rfl, hkey⟩
  simp only [List.cons_append, List.append_assoc]
  rw [key, bind_of_ok (mark_append_cons hb rfl _), bind_of_ok hskip,
    mark_append_cons hspaced.behind rfl, Element.chars]
  simp only [List.append_assoc]

/-- A scalar is passed over in one round. -/
theorem passes_of_value (h : ∀ frames b rest, Blank b → Ended rest →
    (value frames : Reader ε State) (b ++ (v ++ rest)) = .ok (.afterValue frames, rest))
    (hv : v ≠ []) : Passes ε v := by
  intro frames b rest hb hrest
  refine .value_step (h frames b rest hb hrest) ?_
  have hpos := List.length_pos_iff.mpr hv
  simp only [List.length_append]
  omega

end Values

end Skip

variable {ε : Type} {v : List Char}

/-- The walk goes over any value, however deep it nests: its parts are passed over if their values
are. -/
theorem IsValue.passes (h : IsValue v) : Skip.Passes ε v := by
  -- values nest as deep as they like, so the induction is on the value, below any open brackets
  induction h with
  | null =>
    refine Skip.passes_of_value (fun frames b rest hb _ => ?_) (List.cons_ne_nil _ _)
    refine (bind_of_ok (ahead_append_cons hb rfl _)).trans ?_
    exact bind_of_ok (exactly_append ['n', 'u', 'l', 'l'] rest)
  | true =>
    refine Skip.passes_of_value (fun frames b rest hb _ => ?_) (List.cons_ne_nil _ _)
    refine (bind_of_ok (ahead_append_cons hb rfl _)).trans ?_
    exact bind_of_ok (exactly_append ['t', 'r', 'u', 'e'] rest)
  | false =>
    refine Skip.passes_of_value (fun frames b rest hb _ => ?_) (List.cons_ne_nil _ _)
    refine (bind_of_ok (ahead_append_cons hb rfl _)).trans ?_
    exact bind_of_ok (exactly_append ['f', 'a', 'l', 's', 'e'] rest)
  | @number cs hnumber =>
    obtain ⟨c, s, rfl, hc⟩ := hnumber.exists_cons
    refine Skip.passes_of_value (fun frames b rest hb hrest => ?_) (List.cons_ne_nil _ _)
    obtain ⟨n, hn⟩ := hnumber.exists_read (ε := ε) .malformed
    refine (bind_of_ok (ahead_append_cons hb (begins_of_numeral hc).1 _)).trans ?_
    split
    · exact absurd hc (by decide)
    · exact absurd hc (by decide)
    · exact absurd hc (by decide)
    · exact absurd hc (by decide)
    · exact absurd hc (by decide)
    · exact absurd hc (by decide)
    · rw [if_pos hc]
      exact bind_of_ok (hn rest hrest)
  | @string cs hinside =>
    refine Skip.passes_of_value (fun frames b rest hb _ => ?_) (List.cons_ne_nil _ _)
    have hskip : (Text.skip : Reader ε Unit) (cs ++ '"' :: rest) = .ok ((), rest) :=
      Text.skip_eq_ok_iff.mpr ⟨cs, rfl, hinside⟩
    rw [List.cons_append, List.append_assoc, List.singleton_append]
    refine (bind_of_ok (ahead_append_cons hb rfl _)).trans ?_
    exact (bind_of_ok (drop_cons _ _)).trans (bind_of_ok hskip)
  | array hblank hes hvalues ih =>
    refine Skip.passes_bracketed (fun part hpart => ?_) hblank
    obtain ⟨e, he, rfl⟩ := List.mem_map.mp hpart
    exact Skip.isPart_element (hes e he) (hvalues e he) (ih e he)
  | object hblank hms hkeys _ ih =>
    refine Skip.passes_bracketed (fun part hpart => ?_) hblank
    obtain ⟨m, hm, rfl⟩ := List.mem_map.mp hpart
    exact Skip.isPart_member (hms m hm) (hkeys m hm) (ih m hm)

/-- What is left begins behind the value. -/
theorem skipValue_value (h : IsValue v) {b rest : List Char} (hb : Blank b) (hrest : Ended rest) :
    (skipValue : Reader ε Unit) (b ++ (v ++ rest)) = .ok ((), rest) :=
  (h.passes [] b rest hb hrest).rounds.loop_eq

end FactorSearch.Json
