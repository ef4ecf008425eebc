import FactorSearch.Proofs.Passing

/-!
# What stands around a value makes no difference

A reader is `Uniform` on a family of texts if it gives one value on all of them or finds a fault in
each.  Every reader of values is `Decisive`: it is uniform on the texts around one value, whichever
value this is, and leaves what is behind it.  So a value is read inside a text as it is read alone
(`Decisive.gives_iff_run`).
-/

namespace FactorSearch.Json

open Reader

variable {ε α β ι : Type} {b s rest v : List Char} {c : Char} (round : Numeral → Nat)

/-! ## Uniform readers -/

section Uniform

/-- The reader finds a fault in each of the texts. -/
def Fails (x : Reader ε α) (text : ι → List Char) : Prop := ∀ i, ∃ fault, x (text i) = .error fault

/-- The reader gives one value on all the texts, or a fault on each. -/
def Uniform (x : Reader ε α) (text left : ι → List Char) : Prop :=
  (∃ a, ∀ i, x (text i) = .ok (a, left i)) ∨ Fails x text

variable {x : Reader ε α} {f : α → Reader ε β} {a : α} {text left left' : ι → List Char}

theorem Fails.bind (h : Fails x text) (f : α → Reader ε β) : Fails (x >>= f) text := by
  intro i
  obtain ⟨fault, hi⟩ := h i
  exact ⟨fault, bind_of_error hi⟩

theorem Fails.uniform (h : Fails x text) (left : ι → List Char) : Uniform x text left := .inr h

theorem uniform_of_ok (h : ∀ i, x (text i) = .ok (a, left i)) : Uniform x text left :=
  .inl ⟨a, h⟩

theorem Uniform.of_eq {y : Reader ε α} {text' : ι → List Char} (hx : Uniform x text left)
    (h : ∀ i, y (text' i) = x (text i)) : Uniform y text' left := by
  rcases hx with ⟨a, ha⟩ | hfails
  · exact .inl ⟨a, fun i => (h i).trans (ha i)⟩
  · refine .inr fun i => ?_
    obtain ⟨fault, hi⟩ := hfails i
    exact ⟨fault, (h i).trans hi⟩

theorem Uniform.bind (hx : Uniform x text left) (hf : ∀ a, Uniform (f a) left left') :
    Uniform (x >>= f) text left' := by
  rcases hx with ⟨a, ha⟩ | hfails
  · exact (hf a).of_eq fun i => bind_of_ok (ha i)
  · exact (hfails.bind f).uniform left'

theorem uniform_pure (a : α) : Uniform (pure a : Reader ε α) text text :=
  .inl ⟨a, fun _ => rfl⟩

theorem fails_fail (fault : Fault ε) : Fails (fail fault : Reader ε α) text :=
  fun _ => ⟨fault, rfl⟩

end Uniform

/-! ## Decisive readers -/

section Decisive

/-- What stands around a value. -/
structure Around where
  before : List Char
  behind : List Char
  blank : Blank before
  ended : Ended behind

def Around.text (i : Around) (v : List Char) : List Char := i.before ++ (v ++ i.behind)

/-- Whatever stands around it, `v` is read as `a`, and what is behind it is left. -/
def Gives (x : Reader ε α) (v : List Char) (a : α) : Prop :=
  ∀ i : Around, x (i.text v) = .ok (a, i.behind)

/-- Each value is read in one way, or never. -/
def Decisive (x : Reader ε α) : Prop :=
  ∀ v, IsValue v → Uniform x (fun i : Around => i.text v) Around.behind

variable {x : Reader ε α} {a : α} {f : α → Reader ε β}

theorem ended_nil : Ended [] := by
  intro c hc
  cases hc

/-- A value with nothing around it. -/
def Around.nothing : Around := ⟨[], [], blank_nil, ended_nil⟩

theorem Around.nothing_text (v : List Char) : nothing.text v = v := by
  rw [text, nothing, List.append_nil, List.nil_append]

theorem Gives.eq_ok (h : Gives x v a) : x v = .ok (a, []) := by
  have hread := h .nothing
  rwa [Around.nothing_text] at hread

theorem Gives.unique {a' : α} (h : Gives x v a) (h' : Gives x v a') : a = a' := by
  have hread := h.eq_ok
  rw [h'.eq_ok] at hread
  cases hread
  rfl

theorem Gives.eq_ok_append (h : Gives x v a) (hb : Blank b) (hrest : Ended rest) :
    x (b ++ (v ++ rest)) = .ok (a, rest) := h ⟨b, rest, hb, hrest⟩

theorem Decisive.uniform (hx : Decisive x) (hv : IsValue v) {before behind : ι → List Char}
    (hbefore : ∀ i, Blank (before i)) (hbehind : ∀ i, Ended (behind i)) :
    Uniform x (fun i => before i ++ (v ++ behind i)) behind := by
  rcases hx v hv with ⟨a, ha⟩ | hfault
  · exact .inl ⟨a, fun i => ha ⟨before i, behind i, hbefore i, hbehind i⟩⟩
  · exact .inr fun i => hfault ⟨before i, behind i, hbefore i, hbehind i⟩

/-- A text of one value and blanks is read as what the value gives. -/
theorem Decisive.run_eq_ok_iff (hx : Decisive x) (hv : IsValue v) (hb : Blank b)
    (hrest : Blank rest) : x.run (String.ofList (b ++ (v ++ rest))) = .ok a ↔ Gives x v a := by
  have hended : Ended rest := by
    rw [← List.append_nil rest]
    exact ended_nil.append hrest
  have hblank : rest.all isBlank = true := List.all_eq_true.mpr hrest
  rw [Reader.run_eq_ok_iff, String.toList_ofList]
  -- read in all surroundings or in none, so these here decide
  rcases hx v hv with ⟨a', ha'⟩ | hfails
  · have hread : x (b ++ (v ++ rest)) = .ok (a', rest) := ha' ⟨b, rest, hb, hended⟩
    rw [hread]
    constructor
    · rintro ⟨rest', hrest', -⟩
      cases hrest'
      exact ha'
    · intro h
      rw [Gives.unique h ha']
      exact ⟨rest, rfl, hblank⟩
  · obtain ⟨fault, hfault⟩ := hfails ⟨b, rest, hb, hended⟩
    have hread : x (b ++ (v ++ rest)) = .error fault := hfault
    rw [hread]
    constructor
    · rintro ⟨rest', hrest', -⟩
      cases hrest'
    · intro h
      rw [h.eq_ok_append hb hended] at hread
      cases hread

/-- A value is given inside a text if it is what the value is read as alone. -/
theorem Decisive.gives_iff_run (hx : Decisive x) (hv : IsValue v) :
    Gives x v a ↔ x.run (String.ofList v) = .ok a := by
  have hrun : x.run (String.ofList ([] ++ (v ++ []))) = .ok a ↔ Gives x v a :=
    hx.run_eq_ok_iff hv blank_nil blank_nil
  rw [List.nil_append, List.append_nil] at hrun
  exact hrun.symm

theorem Decisive.gives_map_iff (hx : Decisive x) (hv : IsValue v) {g : α → β} {a : β} :
    Gives (do pure (g (← x))) v a ↔ ∃ a', Gives x v a' ∧ g a' = a := by
  constructor
  · intro h
    rcases hx v hv with ⟨a', ha'⟩ | hfails
    · have hmap : Gives (do pure (g (← x))) v (g a') := fun i => bind_of_ok (ha' i)
      exact ⟨a', ha', hmap.unique h⟩
    · obtain ⟨fault, hfault⟩ := (hfails.bind fun a => pure (g a)) .nothing
      have hread := h .nothing
      rw [hread] at hfault
      cases hfault
  · rintro ⟨a', ha', rfl⟩
    exact fun i => bind_of_ok (ha' i)

/-- What a value is read as is settled by `P`, and so is whether it is read at all. -/
structure Settled (x : Reader ε α) (v : List Char) (P : α → Prop) : Prop where
  gives : ∀ a, P a → Gives x v a
  fails : (∀ a, ¬ P a) → Fails x fun i : Around => i.text v

theorem Settled.uniform {P : α → Prop} (h : Settled x v P) :
    Uniform x (fun i : Around => i.text v) Around.behind := by
  by_cases hexists : ∃ a, P a
  · obtain ⟨a, ha⟩ := hexists
    exact .inl ⟨a, h.gives a ha⟩
  · exact .inr (h.fails fun a ha => hexists ⟨a, ha⟩)

theorem Settled.gives_iff {P : α → Prop} (h : Settled x v P) : Gives x v a ↔ P a := by
  refine ⟨fun ha => ?_, h.gives a⟩
  by_cases hexists : ∃ a', P a'
  · obtain ⟨a', ha'⟩ := hexists
    rwa [ha.unique (h.gives a' ha')]
  · obtain ⟨fault, hfault⟩ := h.fails (fun a' ha' => hexists ⟨a', ha'⟩) .nothing
    rw [ha .nothing] at hfault
    cases hfault

/-- Behind a value only a result or a fault may be settled. -/
theorem Decisive.bind (hx : Decisive x)
    (hf : ∀ a, (∃ b, f a = pure b) ∨ ∃ fault, f a = fail fault) : Decisive (x >>= f) := by
  intro v hv
  refine (hx v hv).bind fun a => ?_
  rcases hf a with ⟨b, hb⟩ | ⟨fault, hfault⟩
  · rw [hb]
    exact uniform_pure b
  · rw [hfault]
    exact (fails_fail fault).uniform _

theorem Decisive.map (hx : Decisive x) (g : α → β) : Decisive (do pure (g (← x))) :=
  hx.bind fun a => .inl ⟨g a, rfl⟩

/-- The first character behind blanks, and what is done with it. -/
theorem ahead_bind_cons {f : Char → Reader ε α} (hb : Blank b) (hc : isBlank c = false)
    (s : List Char) : (ahead >>= f) (b ++ c :: s) = f c (c :: s) :=
  bind_of_ok (ahead_append_cons hb hc s)

/-- What is done with a value is settled by its first character. -/
theorem uniform_head {f : Char → Reader ε α} (hc : isBlank c = false)
    (h : Uniform (f c) (fun i : Around => c :: (s ++ i.behind)) Around.behind) :
    Uniform (ahead >>= f) (fun i : Around => i.text (c :: s)) Around.behind :=
  h.of_eq fun i => ahead_bind_cons i.blank hc (s ++ i.behind)

theorem uniform_bracketed {f : Char → Reader ε α} {parts : List (List Char)} {blank : List Char}
    {d : Char} (frame : Frame) (hc : frame.opening = c) (hd : frame.close = d)
    (h : Uniform (f c) (fun i : Around => c :: (separated true parts ++ (blank ++ d :: i.behind)))
      Around.behind) :
    Uniform (ahead >>= f) (fun i : Around => i.text (bracketed frame parts blank))
      Around.behind := by
  have hopening : isBlank c = false := by
    rw [← hc]
    cases frame <;> rfl
  refine h.of_eq fun i => ?_
  rw [Around.text, bracketed_append, hc, hd]
  exact ahead_bind_cons i.blank hopening _

theorem fails_unexpected (c : Char) (expected : String) (text : ι → List Char) :
    Fails (unexpected round c expected : Reader ε α) text := by
  intro i
  have hnever : Ensures (fun _ => True) (unexpected round c expected : Reader ε α)
      fun _ => False := ensures_unexpected round c expected
  cases hread : (unexpected round c expected : Reader ε α) (text i) with
  | error fault => exact ⟨fault, rfl⟩
  | ok p => exact (hnever.value hread).2.elim

section Marks

variable {before behind : ι → List Char}

theorem uniform_mark (hbefore : ∀ i, Blank (before i)) (hc : isBlank c = false) :
    Uniform (mark c : Reader ε Unit) (fun i => before i ++ c :: behind i) behind :=
  uniform_of_ok fun i => mark_append_cons (hbefore i) hc (behind i)

/-- Another character than the one that is due. -/
theorem fails_mark {c' : Char} (hbefore : ∀ i, Blank (before i)) (hc : isBlank c = false)
    (hne : c ≠ c') : Fails (mark c' : Reader ε Unit) fun i => before i ++ c :: behind i := by
  refine fun i => ⟨.malformed, ?_⟩
  rw [mark, ahead_bind_cons (hbefore i) hc, if_neg hne]
  rfl

end Marks

end Decisive

/-! ## Numbers -/

section Numbers

theorem decisive_number (expected : String) :
    Decisive (number round expected : Reader ε Number) := by
  -- what begins otherwise is found out by its first character
  have hother (c : Char) (s : List Char) (hc : isBlank c = false)
      (hnumeral : (c = '-' || c.isDigit) = false) :
      Uniform (number round expected : Reader ε Number) (fun i : Around => i.text (c :: s))
        Around.behind := by
    refine uniform_head hc ?_
    rw [if_neg (Bool.eq_false_iff.mp hnumeral)]
    exact (fails_unexpected round c expected _).uniform _
  intro v hv
  cases hv with
  | null => exact hother 'n' _ rfl rfl
  | true => exact hother 't' _ rfl rfl
  | false => exact hother 'f' _ rfl rfl
  | string => exact hother '"' _ rfl rfl
  | array => exact hother '[' _ rfl rfl
  | object => exact hother '{' _ rfl rfl
  | number hnumber =>
    obtain ⟨n, hn⟩ := hnumber.exists_read (.truncated : Fault ε)
    obtain ⟨c, s, rfl, hc⟩ := hnumber.exists_cons
    refine uniform_head (begins_of_numeral hc).1 ?_
    rw [if_pos hc]
    have hread : Uniform (Numeral.read .truncated : Reader ε Numeral)
        (fun i : Around => c :: (s ++ i.behind)) Around.behind :=
      uniform_of_ok fun i => hn i.behind i.ended
    refine hread.bind fun n => ?_
    cases n.number? round with
    | some x => exact uniform_pure x
    | none => exact (fails_fail .malformed).uniform _

theorem decisive_natural (limit : Nat) (expected : String) :
    Decisive (natural round limit expected : Reader ε Nat) := by
  refine (decisive_number round expected).bind fun x => ?_
  cases x with
  | float x => exact .inr ⟨_, rfl⟩
  | integer n =>
    by_cases hn : 0 ≤ n ∧ n < limit
    · exact .inl ⟨n.toNat, if_pos hn⟩
    · exact .inr ⟨_, if_neg hn⟩

theorem decisive_unsigned [Unsigned α] : Decisive (unsigned round : Reader ε α) :=
  (decisive_natural round _ _).map Unsigned.ofNat

theorem decisive_float : Decisive (float round : Reader ε Binary64) :=
  (decisive_number round "f64").map Number.toBinary64

end Numbers

/-! ## Keys -/

section Keys

variable {m : Member} {name : String} {before behind : ι → List Char}

theorem Member.chars_append (m : Member) (s : List Char) : m.chars ++ s =
    m.before ++ '"' :: (m.key ++ '"' :: (m.behind ++ ':' :: (m.element.chars ++ s))) := by
  simp [Member.chars]

theorem Element.chars_append (e : Element) (s : List Char) :
    e.chars ++ s = e.before ++ (e.value ++ (e.after ++ s)) := by
  simp [Element.chars]

theorem memberKey_of_spells {key : List Char} (hb : Blank b) (h : Text.Spells key name.toList)
    (s : List Char) :
    (memberKey : Reader ε String) (b ++ '"' :: (key ++ '"' :: s)) = .ok (name, s) := by
  rw [memberKey, bind_of_ok (mark_append_cons hb rfl _)]
  exact Text.read_eq_ok_iff.mpr ⟨key, rfl, h⟩

/-- A string is read as what it spells, if it spells something. -/
theorem uniform_read {cs : List Char} (hinside : Text.Inside cs) :
    Uniform (Text.read : Reader ε String) (fun i => cs ++ '"' :: behind i) behind := by
  by_cases hspells : ∃ name : String, Text.Spells cs name.toList
  · obtain ⟨name, hname⟩ := hspells
    exact uniform_of_ok fun i => Text.read_eq_ok_iff.mpr ⟨cs, rfl, hname⟩
  · exact .inr fun i =>
      Text.exists_read_eq_error hinside (fun name hname => hspells ⟨name, hname⟩) (behind i)

theorem uniform_memberKey {key : List Char} (hbefore : ∀ i, Blank (before i))
    (hinside : Text.Inside key) : Uniform (memberKey : Reader ε String)
      (fun i => before i ++ '"' :: (key ++ '"' :: behind i)) behind :=
  (uniform_mark hbefore rfl).bind fun _ => uniform_read hinside

/-- The comma before a member is taken, and its key is read. -/
theorem nextKey?_member (first : Bool) (hb : Blank b) (hm : m.Spaced) (s : List Char) :
    (nextKey? first : Reader ε (Option String)) (b ++ (comma first ++ (m.chars ++ s))) =
      (some <$> memberKey) ('"' :: (m.key ++ '"' :: (m.behind ++ ':' :: (m.element.chars ++ s)))) := by
  cases first with
  | true =>
    have hb' : Blank (b ++ m.before) := List.forall_mem_append.mpr ⟨hb, hm.before⟩
    rw [comma_true, List.nil_append, m.chars_append, ← List.append_assoc, nextKey?,
      ahead_bind_cons hb' rfl, if_neg (by decide)]
    rfl
  | false =>
    rw [comma_false, List.singleton_append, m.chars_append, nextKey?, ahead_bind_cons hb rfl,
      if_neg (by decide)]
    refine (bind_of_ok (mark_cons rfl)).trans ?_
    have hkey (s : List Char) : (memberKey : Reader ε String) (m.before ++ s) = memberKey s :=
      bind_congr_text (mark_blank_append hm.before '"' s)
    exact map_congr_text (hkey _)

theorem nextKey?_named (first : Bool) (hb : Blank b) (hm : m.Spaced) (hname : m.Named name)
    (s : List Char) :
    (nextKey? first : Reader ε (Option String)) (b ++ (comma first ++ (m.chars ++ s))) =
      .ok (some name, m.behind ++ ':' :: (m.element.chars ++ s)) := by
  rw [nextKey?_member first hb hm]
  exact map_of_ok (memberKey_of_spells blank_nil hname _)

theorem nextKey?_brace (first : Bool) (hb : Blank b) (s : List Char) :
    (nextKey? first : Reader ε (Option String)) (b ++ '}' :: s) = .ok (none, '}' :: s) := by
  rw [nextKey?, ahead_bind_cons hb rfl, if_pos rfl]
  rfl

end Keys

/-! ## Names -/

section Names

variable [Named α]

theorem decisive_unit : Decisive (unit round : Reader ε Unit) := by
  have hother (c : Char) (s : List Char) (hc : isBlank c = false) (hn : c ≠ 'n') :
      Uniform (unit round : Reader ε Unit) (fun i : Around => i.text (c :: s)) Around.behind := by
    refine uniform_head hc ?_
    rw [if_neg hn]
    exact (fails_unexpected round c "unit" _).uniform _
  intro v hv
  cases hv with
  | null => exact uniform_head rfl (uniform_of_ok fun i => exactly_append ['n', 'u', 'l', 'l'] _)
  | true => exact hother 't' _ rfl (by decide)
  | false => exact hother 'f' _ rfl (by decide)
  | string => exact hother '"' _ rfl (by decide)
  | array => exact hother '[' _ rfl (by decide)
  | object => exact hother '{' _ rfl (by decide)
  | number hnumber =>
    obtain ⟨c, s, rfl, hc⟩ := hnumber.exists_cons
    exact hother c s (begins_of_numeral hc).1 (ne_of_numeral hc rfl)

theorem uniform_ofName (name : String) (text : ι → List Char) :
    Uniform (ofName name : Reader ε α) text text := by
  unfold ofName
  split
  · exact uniform_pure _
  · exact (fails_fail _).uniform _

/-- The only member of an object has a name for its key and `null` for its value. -/
theorem uniform_onlyMember {o : Object} (ho : o.WellFormed) :
    Uniform (do
      let a ← ofName (← memberKey)
      mark ':'
      unit round
      mark '}'
      pure a : Reader ε α)
      (fun i : Around => separated true (o.members.map Member.chars) ++ (o.blank ++ '}' :: i.behind))
      Around.behind := by
  obtain ⟨ms, blank⟩ := o
  cases ms with
  | nil =>
    have hquote : Fails (mark '"' : Reader ε Unit) fun i : Around => blank ++ '}' :: i.behind :=
      fails_mark (fun _ => ho.blank) rfl (by decide)
    have hkey : Fails (memberKey : Reader ε String) fun i : Around => blank ++ '}' :: i.behind :=
      hquote.bind _
    exact (hkey.bind _).uniform _
  | cons m ms =>
    have hm : m.Spaced := ho.spaced m List.mem_cons_self
    have hinside : Text.Inside m.key := ho.keys m List.mem_cons_self
    have hvalue : IsValue m.element.value := ho.values m List.mem_cons_self
    have htext (i : Around) :
        separated true ((m :: ms).map Member.chars) ++ (blank ++ '}' :: i.behind) =
          m.before ++ '"' :: (m.key ++ '"' :: (m.behind ++ ':' :: (m.element.chars ++
            (separated false (ms.map Member.chars) ++ (blank ++ '}' :: i.behind))))) := by
      rw [← m.chars_append]
      simp [separated, comma]
    rw [funext htext]
    refine (uniform_memberKey (fun _ => hm.before) hinside).bind fun name => ?_
    refine (uniform_ofName name _).bind fun a => ?_
    refine (uniform_mark (fun _ => hm.behind) rfl).bind fun _ => ?_
    -- behind `null` stands the closing brace, or the comma before another member
    have hended (i : Around) : Ended (m.element.after ++
        (separated false (ms.map Member.chars) ++ (blank ++ '}' :: i.behind))) :=
      (ended_separated _ ho.blank .object i.behind).append hm.element.after
    simp only [Element.chars_append]
    refine ((decisive_unit round).uniform hvalue (fun _ => hm.element.before) hended).bind fun _ => ?_
    cases ms with
    | nil =>
      have hblank : Blank (m.element.after ++ blank) :=
        List.forall_mem_append.mpr ⟨hm.element.after, ho.blank⟩
      simp only [List.map_nil, separated, List.nil_append, ← List.append_assoc]
      exact (uniform_mark (fun _ => hblank) rfl).bind fun _ => uniform_pure a
    | cons m' ms =>
      simp only [List.map_cons, separated, comma_false, List.append_assoc, List.cons_append]
      exact ((fails_mark (fun _ => hm.element.after) rfl (by decide)).bind _).uniform _

theorem decisive_named : Decisive (named round : Reader ε α) := by
  have hother (c : Char) (s : List Char) (hc : isBlank c = false) (hne : c ≠ '"' ∧ c ≠ '{') :
      Uniform (named round : Reader ε α) (fun i : Around => i.text (c :: s)) Around.behind := by
    refine uniform_head hc ?_
    rw [if_neg hne.1, if_neg hne.2]
    exact (fails_fail .malformed).uniform _
  intro v hv
  cases hv with
  | null => exact hother 'n' _ rfl (by decide)
  | true => exact hother 't' _ rfl (by decide)
  | false => exact hother 'f' _ rfl (by decide)
  | array => exact hother '[' _ rfl (by decide)
  | number hnumber =>
    obtain ⟨c, s, rfl, hc⟩ := hnumber.exists_cons
    exact hother c s (begins_of_numeral hc).1 ⟨ne_of_numeral hc rfl, ne_of_numeral hc rfl⟩
  | @string cs hinside =>
    refine uniform_head rfl ?_
    rw [if_pos rfl]
    refine (uniform_of_ok fun i => drop_cons '"' _).bind fun _ => ?_
    simp only [List.append_assoc, List.singleton_append]
    exact (uniform_read hinside).bind fun name => uniform_ofName name _
  | @object ms blank hblank hms hkeys hvalues =>
    refine uniform_bracketed (c := '{') (d := '}') .object rfl rfl ?_
    rw [if_neg (by decide), if_pos rfl]
    refine (uniform_of_ok fun i => drop_cons '{' _).bind fun _ => ?_
    exact uniform_onlyMember round (o := ⟨ms, blank⟩) ⟨hblank, hms, hkeys, hvalues⟩

end Names

/-! ## Lists -/

section Lists

variable {x : Reader ε α} {e : Element} {es : List Element} {as : List α} {blank : List Char}
  {a : Sequence}

theorem moreElements_bracket (first : Bool) (hb : Blank b) (s : List Char) :
    (moreElements first : Reader ε Bool) (b ++ ']' :: s) = .ok (false, ']' :: s) := by
  rw [moreElements, ahead_bind_cons hb rfl, if_pos rfl]
  rfl

/-- The comma before an element and the blanks are taken. -/
theorem moreElements_element (first : Bool) (hb : Blank b) (he : e.Spaced) (hv : IsValue e.value)
    (s : List Char) : (moreElements first : Reader ε Bool) (b ++ (comma first ++ (e.chars ++ s))) =
      .ok (true, e.value ++ (e.after ++ s)) := by
  obtain ⟨c, cs, hcs, hbegins⟩ := hv.exists_cons
  rw [e.chars_append, hcs, List.cons_append]
  cases first with
  | true =>
    have hb' : Blank (b ++ e.before) := List.forall_mem_append.mpr ⟨hb, he.before⟩
    rw [comma_true, List.nil_append, ← List.append_assoc, moreElements,
      ahead_bind_cons hb' hbegins.1, if_neg hbegins.2.2.1, if_pos rfl]
    rfl
  | false =>
    rw [comma_false, List.singleton_append, moreElements, ahead_bind_cons hb rfl,
      if_neg (by decide), if_neg (by decide), if_pos rfl, bind_of_ok (drop_cons _ _),
      ahead_bind_cons he.before hbegins.1, if_neg hbegins.2.2.1]
    rfl

theorem listRound_bracket (taken : List α) (hb : Blank b) (s : List Char) :
    listRound x taken (b ++ ']' :: s) = .ok (.inr taken.reverse, ']' :: s) := by
  rw [listRound, bind_of_ok (moreElements_bracket _ hb s)]
  rfl

/-- An element is as good as its value. -/
theorem listRound_element (taken : List α) (hb : Blank b) (he : e.Spaced) (hv : IsValue e.value)
    (s : List Char) : listRound x taken (b ++ (comma taken.isEmpty ++ (e.chars ++ s))) =
      (do pure (.inl ((← x) :: taken)) : Reader ε (List α ⊕ List α))
        (e.value ++ (e.after ++ s)) := by
  rw [listRound, bind_of_ok (moreElements_element _ hb he hv _)]
  rfl

theorem length_lt_of_element (hv : IsValue e.value) (b s : List Char) (first : Bool) :
    (e.after ++ s).length < (b ++ (comma first ++ (e.chars ++ s))).length := by
  obtain ⟨c, cs, hcs, -⟩ := hv.exists_cons
  simp only [e.chars_append, hcs, List.length_append, List.length_cons]
  omega

section Elements

variable (hes : ∀ e ∈ es, e.Spaced) (hvalues : ∀ e ∈ es, IsValue e.value) (hblank : Blank blank)
  (hb : Blank b)

include hes hvalues hblank hb in
/-- The rounds over the elements, up to the closing bracket. -/
theorem rounds_elements (h : List.Forall₂ (fun e a => Gives x e.value a) es as) (taken : List α)
    (s : List Char) : Rounds (listRound x) taken
      (b ++ (separated taken.isEmpty (es.map Element.chars) ++ (blank ++ ']' :: s)))
      (.ok (taken.reverse ++ as, ']' :: s)) := by
  induction h generalizing taken b with
  | nil =>
    have hblanks : Blank (b ++ blank) := List.forall_mem_append.mpr ⟨hb, hblank⟩
    have hround := listRound_bracket (x := x) taken hblanks s
    rw [List.append_assoc] at hround
    rw [List.append_nil]
    exact .done hround
  | @cons e a es as ha _ ih =>
    obtain ⟨he, hes⟩ := List.forall_mem_cons.mp hes
    obtain ⟨hv, hvalues⟩ := List.forall_mem_cons.mp hvalues
    have hended := (ended_separated (es.map Element.chars) hblank .array s).append he.after
    -- the other elements stand behind commas, since something is taken by then
    have hrest := ih hes hvalues he.after (a :: taken)
    rw [List.reverse_cons, List.append_assoc] at hrest
    rw [List.map_cons, separated_cons_append]
    refine .next ?_ (length_lt_of_element hv b _ taken.isEmpty) hrest
    rw [listRound_element taken hb he hv]
    exact bind_of_ok (ha.eq_ok_append blank_nil hended)

include hes hvalues hblank hb in
/-- Elements that make no list make a fault. -/
theorem exists_rounds_elements_error (hx : Decisive x)
    (h : ∀ as, ¬ List.Forall₂ (fun e a => Gives x e.value a) es as) (taken : List α)
    (s : List Char) : ∃ fault, Rounds (listRound x) taken
      (b ++ (separated taken.isEmpty (es.map Element.chars) ++ (blank ++ ']' :: s)))
      (.error fault) := by
  -- the rounds go on up to the first element that is not read
  induction es generalizing taken b with
  | nil => exact absurd .nil (h [])
  | cons e es ih =>
    obtain ⟨he, hes⟩ := List.forall_mem_cons.mp hes
    obtain ⟨hv, hvalues⟩ := List.forall_mem_cons.mp hvalues
    have hended := (ended_separated (es.map Element.chars) hblank .array s).append he.after
    rw [List.map_cons, separated_cons_append]
    rcases hx e.value hv with ⟨a, ha⟩ | hfails
    · obtain ⟨fault, hrounds⟩ := ih hes hvalues he.after (fun as has => h (a :: as) (.cons ha has))
        (a :: taken)
      refine ⟨fault, .next ?_ (length_lt_of_element hv b _ taken.isEmpty) hrounds⟩
      rw [listRound_element taken hb he hv]
      exact bind_of_ok (Gives.eq_ok_append ha blank_nil hended)
    · obtain ⟨fault, hfault⟩ := hfails ⟨[], _, blank_nil, hended⟩
      refine ⟨fault, .fault ?_⟩
      rw [listRound_element taken hb he hv]
      exact bind_of_error hfault

end Elements

theorem Sequence.chars_append (a : Sequence) (s : List Char) : a.chars ++ s =
    '[' :: (separated true (a.elements.map Element.chars) ++ (a.blank ++ ']' :: s)) :=
  bracketed_append .array _ _ s

/-- Behind the opening bracket of a list. -/
theorem list_bracket (hb : Blank b) (s : List Char) : list round x (b ++ '[' :: s) =
    (loop (listRound x) [] >>= fun as => mark ']' >>= fun _ => pure as) s := by
  rw [list, ahead_bind_cons hb rfl, if_pos rfl]
  exact bind_of_ok (drop_cons '[' s)

theorem gives_list (ha : a.WellFormed)
    (h : List.Forall₂ (fun e a => Gives x e.value a) a.elements as) :
    Gives (list round x) a.chars as := by
  intro i
  have hloop := (rounds_elements ha.spaced ha.values ha.blank blank_nil h [] i.behind).loop_eq
  rw [Around.text, a.chars_append, list_bracket round i.blank]
  exact (bind_of_ok hloop).trans (bind_of_ok (mark_cons rfl))

theorem fails_list (hx : Decisive x) (ha : a.WellFormed)
    (h : ∀ as, ¬ List.Forall₂ (fun e a => Gives x e.value a) a.elements as) :
    Fails (list round x) fun i : Around => i.text a.chars := by
  intro i
  obtain ⟨fault, hrounds⟩ := exists_rounds_elements_error ha.spaced ha.values ha.blank blank_nil
    hx h [] i.behind
  refine ⟨fault, ?_⟩
  change list round x (i.before ++ (a.chars ++ i.behind)) = .error fault
  rw [a.chars_append, list_bracket round i.blank]
  exact bind_of_error hrounds.loop_eq

theorem settled_list (hx : Decisive x) (ha : a.WellFormed) :
    Settled (list round x) a.chars
      fun as => List.Forall₂ (fun e a => Gives x e.value a) a.elements as :=
  ⟨fun _ h => gives_list round ha h, fails_list round hx ha⟩

theorem decisive_list (hx : Decisive x) : Decisive (list round x) := by
  have hother (c : Char) (s : List Char) (hc : isBlank c = false) (hne : c ≠ '[') :
      Uniform (list round x) (fun i : Around => i.text (c :: s)) Around.behind := by
    refine uniform_head hc ?_
    rw [if_neg hne]
    exact (fails_unexpected round c "a sequence" _).uniform _
  intro v hv
  cases hv with
  | null => exact hother 'n' _ rfl (by decide)
  | true => exact hother 't' _ rfl (by decide)
  | false => exact hother 'f' _ rfl (by decide)
  | string => exact hother '"' _ rfl (by decide)
  | object => exact hother '{' _ rfl (by decide)
  | number hnumber =>
    obtain ⟨c, s, rfl, hc⟩ := hnumber.exists_cons
    exact hother c s (begins_of_numeral hc).1 (ne_of_numeral hc rfl)
  | @array es blank hblank hes hvalues =>
    exact (settled_list round hx (a := ⟨es, blank⟩) ⟨hblank, hes, hvalues⟩).uniform

end Lists

end FactorSearch.Json
