import FactorSearch.Proofs.Numerals

/-!
# A small logic for readers

`Ensures refusals reader post` says what a reader does on any text: it leaves an end of the text,
`post` holds of the value it gives, and if it refuses a value, then for a cause in `refusals`.  There
is one rule for each way in which readers are made of others; the readers of values and of formats
follow by these rules.  Readers that make no use of refusals never refuse, so they are `Safe` for
any `refusals`.
-/

namespace FactorSearch.Json

variable {ε α β γ : Type} {s : List Char} {refusals : ε → Prop}

namespace Reader

/-! ## Rules -/

section Rules

/-- The reader leaves an end of its text behind a value with `post`, or refuses for one of the causes
in `refusals`, or finds another fault. -/
structure Ensures (refusals : ε → Prop) (reader : Reader ε α) (post : α → Prop) : Prop where
  value : ∀ {s a rest}, reader s = .ok (a, rest) → rest <:+ s ∧ post a
  refusal : ∀ {s cause}, reader s = .error (.refused cause) → refusals cause

/-- The same without a word on the value. -/
abbrev Safe (refusals : ε → Prop) (reader : Reader ε α) : Prop :=
  Ensures refusals reader fun _ => True

variable {x : Reader ε α} {f : α → Reader ε β} {P : α → Prop} {Q : β → Prop}

theorem exists_of_bind_eq_ok {b : β} {rest : List Char} (h : (x >>= f) s = .ok (b, rest)) :
    ∃ a s', x s = .ok (a, s') ∧ f a s' = .ok (b, rest) := by
  cases hx : x s with
  | error fault =>
    rw [bind_of_error hx] at h
    cases h
  | ok p =>
    rw [bind_of_ok hx] at h
    exact ⟨p.1, p.2, rfl, h⟩

theorem eq_error_or_of_bind_eq_error {fault : Fault ε} (h : (x >>= f) s = .error fault) :
    x s = .error fault ∨ ∃ a s', x s = .ok (a, s') ∧ f a s' = .error fault := by
  cases hx : x s with
  | error fault' =>
    rw [bind_of_error hx] at h
    cases h
    exact .inl rfl
  | ok p =>
    rw [bind_of_ok hx] at h
    exact .inr ⟨p.1, p.2, rfl, h⟩

theorem ensures_pure {a : α} (h : P a) : Ensures refusals (pure a) P where
  value heq := by
    cases heq
    exact ⟨List.suffix_refl _, h⟩
  refusal heq := by cases heq

theorem safe_pure (a : α) : Safe refusals (pure a) := ensures_pure trivial

/-- A fault other than a refusal ensures everything. -/
theorem ensures_fail {fault : Fault ε} (h : ∀ cause, fault ≠ .refused cause) :
    Ensures refusals (fail fault) P where
  value heq := by cases heq
  refusal heq := by
    cases heq
    exact absurd rfl (h _)

theorem ensures_refused {cause : ε} (h : refusals cause) :
    Ensures refusals (fail (.refused cause) : Reader ε α) P where
  value heq := by cases heq
  refusal heq := by
    cases heq
    exact h

theorem ensures_malformed : Ensures refusals (fail .malformed) P := ensures_fail nofun

theorem ensures_mismatch (m : Mismatch) : Ensures refusals (mismatch m) P :=
  ensures_fail nofun

theorem Ensures.bind (hx : Ensures refusals x P)
    (hf : ∀ a, P a → Ensures refusals (f a) Q) : Ensures refusals (x >>= f) Q where
  value h := by
    obtain ⟨a, s', hxs, hfs⟩ := exists_of_bind_eq_ok h
    obtain ⟨hs', ha⟩ := hx.value hxs
    obtain ⟨hrest, hb⟩ := (hf a ha).value hfs
    exact ⟨hrest.trans hs', hb⟩
  refusal h := by
    rcases eq_error_or_of_bind_eq_error h with hxs | ⟨a, s', hxs, hfs⟩
    · exact hx.refusal hxs
    · exact (hf a (hx.value hxs).2).refusal hfs

theorem Safe.bind (hx : Safe refusals x) (hf : ∀ a, Ensures refusals (f a) Q) :
    Ensures refusals (x >>= f) Q :=
  Ensures.bind hx fun a _ => hf a

theorem Ensures.map {g : α → β} (hx : Ensures refusals x P) (hg : ∀ a, P a → Q (g a)) :
    Ensures refusals (g <$> x) Q :=
  hx.bind fun a ha => ensures_pure (hg a ha)

theorem Ensures.mono {P' : α → Prop} (hx : Ensures refusals x P) (h : ∀ a, P a → P' a) :
    Ensures refusals x P' where
  value heq := (hx.value heq).imp_right (h _)
  refusal := hx.refusal

/-- More causes may be allowed for. -/
theorem Ensures.allow {refusals' : ε → Prop} (hx : Ensures refusals x P)
    (h : ∀ cause, refusals cause → refusals' cause) : Ensures refusals' x P where
  value := hx.value
  refusal heq := h _ (hx.refusal heq)

theorem Ensures.safe (hx : Ensures refusals x P) : Safe refusals x :=
  hx.mono fun _ _ => trivial

/-- A step that gives a value, whatever the text, and leaves an end of it. -/
theorem safe_of_step (hx : ∀ s, ∃ a rest, x s = .ok (a, rest) ∧ rest <:+ s) :
    Safe refusals x where
  value {s a rest} heq := by
    obtain ⟨a', rest', hstep, hsuffix⟩ := hx s
    rw [hstep] at heq
    cases heq
    exact ⟨hsuffix, trivial⟩
  refusal {s cause} heq := by
    obtain ⟨a', rest', hstep, -⟩ := hx s
    rw [hstep] at heq
    cases heq

theorem safe_peek? : Safe refusals (peek? : Reader ε (Option Char)) :=
  safe_of_step fun s => ⟨_, _, rfl, s.suffix_refl⟩

theorem safe_drop : Safe refusals (drop : Reader ε Unit) :=
  safe_of_step fun s => ⟨_, _, rfl, s.tail_suffix⟩

theorem safe_accept (c : Char) : Safe refusals (accept c : Reader ε Bool) := by
  refine safe_of_step fun s => ?_
  by_cases h : s.head? = some c
  · exact ⟨true, s.tail, if_pos h, s.tail_suffix⟩
  · exact ⟨false, s, if_neg h, s.suffix_refl⟩

theorem safe_blanks : Safe refusals (blanks : Reader ε Unit) :=
  safe_of_step fun _ => ⟨_, _, rfl, List.dropWhile_suffix isBlank⟩

theorem safe_ahead : Safe refusals (ahead : Reader ε Char) := by
  have hahead? : Safe refusals (ahead? : Reader ε (Option Char)) :=
    safe_blanks.bind fun _ => safe_peek?
  refine hahead?.bind fun c => ?_
  cases c with
  | none => exact ensures_fail nofun
  | some c => exact safe_pure c

theorem safe_exactly (cs : List Char) : Safe refusals (exactly cs : Reader ε Unit) := by
  induction cs with
  | nil => exact safe_pure ()
  | cons c cs ih =>
    refine safe_peek?.bind fun c' => ?_
    cases c' with
    | none => exact ensures_fail nofun
    | some c' =>
      by_cases h : c' = c
      · simp only [h, if_true]
        exact safe_drop.bind fun _ => ih
      · simp only [h, if_false]
        exact ensures_malformed

theorem safe_mark (c : Char) : Safe refusals (mark c : Reader ε Unit) := by
  refine safe_ahead.bind fun c' => ?_
  split
  · exact safe_drop
  · exact ensures_malformed

/-- A loop keeps what each of its rounds keeps. -/
theorem ensures_loop {round : β → Reader ε (β ⊕ γ)} {I : β → Prop} {Q : γ → Prop}
    (hround : ∀ b, I b → Ensures refusals (round b) (Sum.elim I Q)) {b : β} (hb : I b) :
    Ensures refusals (loop round b) Q := by
  -- the induction is on the rounds that are left, and the invariant holds before each of them
  have hfuel (fuel : Nat) : ∀ b, I b → Ensures refusals (loopFuel round fuel b) Q := by
    induction fuel with
    | zero => exact fun b _ => ensures_malformed
    | succ fuel ih =>
      intro b hb
      refine (hround b hb).bind fun r hr => ?_
      cases r with
      | inl b' => exact ih b' hr
      | inr c => exact ensures_pure hr
  exact ⟨(hfuel _ b hb).value, (hfuel _ b hb).refusal⟩

/-! ### Whole texts -/

theorem run_eq_ok_iff {text : String} {a : α} :
    x.run text = .ok a ↔ ∃ rest, x text.toList = .ok (a, rest) ∧ rest.all isBlank = true := by
  constructor
  · intro h
    unfold run at h
    split at h
    · cases h
    · next a' rest hread =>
      split at h
      · next hblank =>
        cases h
        exact ⟨rest, hread, hblank⟩
      · cases h
  · rintro ⟨rest, hread, hblank⟩
    rw [run, hread]
    exact if_pos hblank

theorem run_eq_refused_iff {text : String} {cause : ε} :
    x.run text = .error (.refused cause) ↔ x text.toList = .error (.refused cause) := by
  unfold run
  cases x text.toList with
  | error fault => simp
  | ok p =>
    dsimp only
    split <;> simp

theorem Ensures.of_run_eq_ok {text : String} (hx : Ensures refusals x P) {a : α}
    (h : x.run text = .ok a) : P a := by
  obtain ⟨rest, hread, -⟩ := run_eq_ok_iff.mp h
  exact (hx.value hread).2

theorem Ensures.of_run_eq_refused {text : String} (hx : Ensures refusals x P)
    {cause : ε} (h : x.run text = .error (.refused cause)) : refusals cause :=
  hx.refusal (run_eq_refused_iff.mp h)

end Rules

end Reader

open Reader

/-! ## Strings -/

namespace Text

theorem afterHex_ne_refused {paired : Bool} {taken : List Char} {high : Option Nat} {n : Nat}
    {cause : ε} : afterHex paired taken high n ≠ .error (.refused cause) := by
  unfold afterHex
  split
  · exact nofun
  · cases high with
    | some h =>
      dsimp only
      split <;> exact nofun
    | none =>
      dsimp only
      split
      · exact nofun
      · split <;> exact nofun

/-- The machine refuses no value; it only finds strings malformed or truncated. -/
theorem step_ne_refused {paired : Bool} {taken : List Char} {c : Char} {rest : List Char}
    {mode : Mode} {cause : ε} : step paired taken c rest mode ≠ .error (.refused cause) := by
  -- characters are scanned without a format, so no conversion is asked
  cases mode with
  | plain =>
    rw [step]
    split
    · exact nofun
    · split
      · exact nofun
      · split <;> exact nofun
  | escape =>
    rw [step]
    split <;> split <;> exact nofun
  | hex high left n =>
    unfold step
    dsimp only
    split
    · exact nofun
    · next d _ =>
      intro h
      cases hafter : afterHex paired taken high (n * 16 + d) with
      | error fault =>
        rw [hafter] at h
        cases h
        exact afterHex_ne_refused hafter
      | ok p =>
        rw [hafter] at h
        cases h
    · exact nofun
  | pairBackslash high =>
    rw [step]
    split <;> exact nofun
  | pairU high =>
    rw [step]
    split
    · split <;> exact nofun
    · exact nofun

theorem safe_scan (paired : Bool) (mode : Mode) (taken : List Char) :
    Safe refusals (scan paired mode taken : Reader ε String) := by
  -- a scan recurs over the text itself, so its remainders are followed character by character
  have hscan : ∀ (s : List Char) (mode : Mode) (taken : List Char),
      (∀ a rest, (scan paired mode taken s : Except (Fault ε) _) = .ok (a, rest) → rest <:+ s) ∧
      ∀ cause, (scan paired mode taken s : Except (Fault ε) _) ≠ .error (.refused cause) := by
    intro s
    induction s with
    | nil => exact fun _ _ => ⟨nofun, nofun⟩
    | cons c rest ih =>
      intro mode taken
      have hrest : rest <:+ c :: rest := List.suffix_cons c rest
      rw [scan]
      split
      · next fault hstep =>
        refine ⟨nofun, fun cause h => ?_⟩
        cases h
        exact step_ne_refused hstep
      · refine ⟨fun a rest' h => ?_, nofun⟩
        cases h
        exact hrest
      · next mode' taken' _ =>
        obtain ⟨hvalue, hrefusal⟩ := ih mode' taken'
        exact ⟨fun a rest' h => (hvalue a rest' h).trans hrest, hrefusal⟩
  exact ⟨fun h => ⟨(hscan _ mode taken).1 _ _ h, trivial⟩,
    fun h => absurd h ((hscan _ mode taken).2 _)⟩

theorem safe_read : Safe refusals (read : Reader ε String) := safe_scan true .plain []

theorem safe_skip : Safe refusals (skip : Reader ε Unit) :=
  (safe_scan false .plain []).bind fun _ => safe_pure ()

end Text

/-! ## Numbers -/

namespace Numeral

section Read

variable {atEnd : Fault ε} (hatEnd : ∀ cause, atEnd ≠ .refused cause)

include hatEnd

theorem ensures_someDigits : Ensures refusals (someDigits atEnd) Digits := by
  have hdigits : Ensures refusals (takeWhile Char.isDigit : Reader ε (List Char))
      fun ds => ∀ c ∈ ds, c.isDigit = true := by
    refine ⟨fun heq => ?_, fun heq => by cases heq⟩
    cases heq
    exact ⟨List.dropWhile_suffix _, List.all_eq_true.mp List.all_takeWhile⟩
  refine hdigits.bind fun ds hds => ?_
  split
  · refine safe_peek?.bind fun c => ?_
    split
    · exact ensures_fail hatEnd
    · exact ensures_malformed
  · next ds hne => exact ensures_pure ⟨fun h => hne h, hds⟩

theorem ensures_wholePart : Ensures refusals (wholePart atEnd)
    fun ds => Digits ds ∧ ∀ c cs, ds ≠ '0' :: c :: cs := by
  refine (ensures_someDigits hatEnd).bind fun ds hds => ?_
  split
  · exact ensures_malformed
  · next ds hne => exact ensures_pure ⟨hds, hne⟩

theorem ensures_fractionPart : Ensures refusals (fractionPart atEnd)
    fun fraction => ∀ ds, fraction = some ds → Digits ds := by
  refine (safe_accept '.').bind fun point => ?_
  split
  · refine (ensures_someDigits hatEnd).map fun ds hds ds' heq => ?_
    cases heq
    exact hds
  · exact ensures_pure nofun

theorem safe_exponentPart : Safe refusals (exponentPart atEnd) := by
  refine (safe_accept 'e').bind fun lower => ?_
  -- what stands behind a test is the same for all of its outcomes, and gets a name
  extract_lets behindMark
  have hbehindMark (marked : Bool) : Safe refusals (behindMark marked) := by
    unfold behindMark
    split
    · refine (safe_accept '-').bind fun negative => ?_
      extract_lets behindSign
      have hbehindSign (plus : Bool) : Safe refusals (behindSign plus) :=
        (ensures_someDigits hatEnd).safe.bind fun _ => safe_pure _
      split
      · exact (safe_pure false).bind hbehindSign
      · exact (safe_accept '+').bind hbehindSign
    · exact safe_pure none
  split
  · exact (safe_pure true).bind hbehindMark
  · exact (safe_accept 'E').bind hbehindMark

/-- What is read is a numeral that the rules of JSON allow. -/
theorem ensures_read : Ensures refusals (read atEnd) WellFormed := by
  refine (safe_accept '-').bind fun negative => ?_
  refine (ensures_wholePart hatEnd).bind fun whole hwhole => ?_
  refine (ensures_fractionPart hatEnd).bind fun fraction hfraction => ?_
  refine (safe_exponentPart hatEnd).bind fun exponent => ?_
  exact ensures_pure ⟨hwhole.1, hwhole.2, hfraction⟩

end Read

theorem ensures_readNumber (round : Numeral → Nat) :
    Ensures refusals (readNumber round : Reader ε Number)
      fun x => ∃ n : Numeral, n.WellFormed ∧ n.number? round = some x := by
  refine (ensures_read nofun).bind fun n hn => ?_
  split
  · next x hx => exact ensures_pure ⟨n, hn, hx⟩
  · exact ensures_malformed

end Numeral

/-! ## Values -/

section Values

variable (round : Numeral → Nat)

theorem ensures_unexpected (c : Char) (expected : String) {P : α → Prop} :
    Ensures refusals (unexpected round c expected : Reader ε α) P := by
  unfold unexpected
  split
  · exact (safe_exactly _).bind fun _ => ensures_mismatch _
  · exact (safe_exactly _).bind fun _ => ensures_mismatch _
  · exact (safe_exactly _).bind fun _ => ensures_mismatch _
  · exact safe_drop.bind fun _ => Text.safe_read.bind fun _ => ensures_mismatch _
  · exact ensures_mismatch _
  · exact ensures_mismatch _
  · split
    · exact (Numeral.ensures_readNumber round).safe.bind fun _ => ensures_mismatch _
    · exact ensures_malformed

theorem ensures_number (expected : String) :
    Ensures refusals (number round expected : Reader ε Number)
      fun x => ∃ n : Numeral, n.WellFormed ∧ n.number? round = some x := by
  refine safe_ahead.bind fun c => ?_
  split
  · exact Numeral.ensures_readNumber round
  · exact ensures_unexpected round c expected

theorem safe_natural (limit : Nat) (expected : String) :
    Safe refusals (natural round limit expected : Reader ε Nat) := by
  refine (ensures_number round expected).safe.bind fun x => ?_
  cases x with
  | integer n =>
    dsimp only
    split
    · exact safe_pure _
    · exact ensures_mismatch _
  | float x => exact ensures_mismatch _

theorem safe_memberKey : Safe refusals (memberKey : Reader ε String) :=
  (safe_mark '"').bind fun _ => Text.safe_read

theorem safe_unit : Safe refusals (unit round : Reader ε Unit) := by
  refine safe_ahead.bind fun c => ?_
  split
  · exact safe_exactly _
  · exact ensures_unexpected round c "unit"

theorem safe_moreElements (first : Bool) :
    Safe refusals (moreElements first : Reader ε Bool) := by
  refine safe_ahead.bind fun c => ?_
  split
  · exact safe_pure _
  · split
    · exact safe_pure _
    · split
      · refine safe_drop.bind fun _ => safe_ahead.bind fun c' => ?_
        split
        · exact ensures_malformed
        · exact safe_pure _
      · exact ensures_malformed

theorem safe_nextKey? (first : Bool) :
    Safe refusals (nextKey? first : Reader ε (Option String)) := by
  have hkey : Safe refusals (some <$> memberKey : Reader ε (Option String)) :=
    safe_memberKey.map fun _ _ => trivial
  refine safe_ahead.bind fun c => ?_
  split
  · exact safe_pure _
  · split
    · exact (safe_mark ',').bind fun _ => hkey
    · exact hkey

/-- Of all elements holds what holds of each. -/
theorem ensures_list {element : Reader ε α} {P : α → Prop}
    (helement : Ensures refusals element P) :
    Ensures refusals (list round element) fun as => ∀ a ∈ as, P a := by
  refine safe_ahead.bind fun c => ?_
  split
  · refine safe_drop.bind fun _ => ?_
    -- the elements that are taken are all ensured, which every round preserves
    have hround : ∀ taken, (∀ a ∈ taken, P a) → Ensures refusals (listRound element taken)
        (Sum.elim (fun taken => ∀ a ∈ taken, P a) fun as => ∀ a ∈ as, P a) := by
      intro taken htaken
      refine (safe_moreElements _).bind fun more => ?_
      split
      · exact helement.bind fun a ha => ensures_pure (List.forall_mem_cons.mpr ⟨ha, htaken⟩)
      · exact ensures_pure fun a ha => htaken a (List.mem_reverse.mp ha)
    refine (ensures_loop hround (List.forall_mem_nil _)).bind fun as has => ?_
    exact (safe_mark ']').bind fun _ => ensures_pure has
  · exact ensures_unexpected round c "a sequence"

theorem safe_ofName [Named α] (name : String) :
    Safe refusals (ofName name : Reader ε α) := by
  unfold ofName
  split
  · exact safe_pure _
  · exact ensures_mismatch _

theorem safe_named [Named α] : Safe refusals (named round : Reader ε α) := by
  refine safe_ahead.bind fun c => ?_
  split
  · exact safe_drop.bind fun _ => Text.safe_read.bind fun name => safe_ofName name
  · split
    · refine safe_drop.bind fun _ => safe_memberKey.bind fun name => ?_
      refine (safe_ofName name).bind fun a => (safe_mark ':').bind fun _ => ?_
      exact (safe_unit round).bind fun _ => (safe_mark '}').bind fun _ => safe_pure a
    · exact ensures_malformed

end Values

/-! ## Values that are passed over -/

namespace Skip

theorem safe_key (frame : Frame) : Safe refusals (key frame : Reader ε Unit) := by
  cases frame with
  | array => exact safe_pure ()
  | object =>
    exact (safe_mark '"').bind fun _ => Text.safe_skip.bind fun _ => safe_mark ':'

theorem safe_opened (frame : Frame) (frames : List Frame) :
    Safe refusals (opened frame frames : Reader ε State) := by
  refine safe_ahead.bind fun c => ?_
  split
  · exact safe_drop.bind fun _ => safe_pure _
  · exact (safe_key frame).bind fun _ => safe_pure _

theorem safe_value (frames : List Frame) :
    Safe refusals (value frames : Reader ε State) := by
  refine safe_ahead.bind fun c => ?_
  split
  · exact (safe_exactly _).bind fun _ => safe_pure _
  · exact (safe_exactly _).bind fun _ => safe_pure _
  · exact (safe_exactly _).bind fun _ => safe_pure _
  · exact safe_drop.bind fun _ => Text.safe_skip.bind fun _ => safe_pure _
  · exact safe_drop.bind fun _ => safe_opened .array frames
  · exact safe_drop.bind fun _ => safe_opened .object frames
  · split
    · exact (Numeral.ensures_read nofun).safe.bind fun _ => safe_pure _
    · exact ensures_malformed

theorem safe_between (frame : Frame) (frames : List Frame) :
    Safe refusals (between frame frames : Reader ε State) := by
  refine safe_ahead.bind fun c => ?_
  split
  · exact safe_drop.bind fun _ => (safe_key frame).bind fun _ => safe_pure _
  · split
    · exact safe_drop.bind fun _ => safe_pure _
    · exact ensures_malformed

theorem safe_round (state : State) :
    Safe refusals (round state : Reader ε (State ⊕ Unit)) := by
  rcases state with frames | ⟨_ | ⟨frame, frames⟩⟩
  · exact (safe_value frames).map fun _ _ => trivial
  · exact safe_pure _
  · exact (safe_between frame frames).map fun _ _ => trivial

end Skip

theorem safe_skipValue : Safe refusals (skipValue : Reader ε Unit) := by
  refine ensures_loop (I := fun _ => True) (fun state _ => ?_) trivial
  exact (Skip.safe_round state).mono fun r _ => by cases r <;> trivial

/-! ## Records -/

section Records

variable {ts : List Type} {I : Draft ts → Prop} {P : Values ts → Prop} {fields : Fields ε ts}

theorem ensures_memberRound {member : (key : String) → Draft ts → Reader ε (Draft ts)}
    (hmember : ∀ key draft, I draft → Ensures refusals (member key draft) I)
    {p : Bool × Draft ts} (hp : I p.2) :
    Ensures refusals (memberRound member p) (Sum.elim (fun p => I p.2) I) := by
  refine (safe_nextKey? p.1).bind fun key => ?_
  cases key with
  | none => exact ensures_pure hp
  | some key => exact (hmember key p.2 hp).bind fun draft' hd => ensures_pure hd

theorem ensures_completed {missing : String → Mismatch} {draft : Draft ts} (hdraft : I draft)
    (hcomplete : ∀ d values, I d → fields.complete d = .ok values → P values) :
    Ensures refusals (completed fields missing draft) P := by
  unfold completed
  split
  · next values hvalues => exact ensures_pure (hcomplete draft values hdraft hvalues)
  · exact ensures_mismatch _

/-- A record keeps what each of its members or elements keeps, be it written as an object or as an
array. -/
theorem ensures_record (round : Numeral → Nat) (title : String)
    {member : (key : String) → Draft ts → Reader ε (Draft ts)}
    {elements : (first : Bool) → Reader ε (Draft ts)} (hblank : I (Draft.blank ts))
    (hmember : ∀ key draft, I draft → Ensures refusals (member key draft) I)
    (helements : ∀ first, Ensures refusals (elements first) I)
    (hcomplete : ∀ d values, I d → fields.complete d = .ok values → P values) :
    Ensures refusals (record fields round title member elements) P := by
  refine safe_ahead.bind fun c => ?_
  split
  · refine safe_drop.bind fun _ => ?_
    refine (ensures_loop (fun _ hp => ensures_memberRound hmember hp) hblank).bind fun draft hd => ?_
    refine (ensures_completed hd hcomplete).bind fun values hvalues => ?_
    exact (safe_mark '}').bind fun _ => ensures_pure hvalues
  · split
    · refine safe_drop.bind fun _ => (helements true).bind fun draft hd => ?_
      refine (ensures_completed hd hcomplete).bind fun values hvalues => ?_
      exact (safe_mark ']').bind fun _ => ensures_pure hvalues
    · exact ensures_unexpected round c title

end Records

end FactorSearch.Json
