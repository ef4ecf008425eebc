import FactorSearch.Proofs.EpisodeLength

/-!
# There is always a next action

A feature may follow anything but a delta time, and after a delta time only a rolling operator will
do.  So an agent is never left without an action if the vocabulary has a feature and, for its delta
times, a rolling operator; any other vocabulary leads into a state with an empty mask by two allowed
actions at most (`choice_never_runs_out`).
-/

namespace FactorSearch

variable {σ : Type}

/-! ## Vocabularies -/

namespace Vocabulary

variable {v : Vocabulary} {t : Token} {action : Int}

/-- There is a feature, and a rolling operator if there are delta times. -/
def Sustaining (v : Vocabulary) : Prop :=
  v.features ≠ [] ∧ (v.deltaTimes = [] ∨ ∃ op ∈ v.operators, op.category = .rolling)

theorem sustaining_standard : standard.Sustaining :=
  ⟨by decide, .inr ⟨.rolling .mean, by decide, rfl⟩⟩

/-- Delta times for an operator on two series alone. -/
def pairsOnly : Vocabulary where
  operators := [.pairRolling .cov]
  features := [.closePrice]
  deltaTimes := [10]
  constants := []
  wellFormed := Tables.fault?_eq_none_iff.mp (by decide +kernel)

theorem not_sustaining_pairsOnly : ¬ pairsOnly.Sustaining := by
  rintro ⟨-, h | ⟨op, hop, hc⟩⟩
  · cases h
  · rw [List.mem_singleton.mp hop] at hc
    cases hc

theorem mem_table_of_decode (h : v.decode action = .ok t) : t ∈ v.table t.kind := by
  obtain ⟨id, rfl, -⟩ := decode_eq_ok_iff.mp h
  obtain ⟨i, hi, -⟩ := decode_natCast_eq_ok_iff_getElem?_table.mp h
  exact List.mem_of_getElem? hi

theorem mem_operators_of_decode {op : Operator} (h : v.decode action = .ok (.operator op)) :
    op ∈ v.operators := by
  simpa [table, Token.kind] using mem_table_of_decode h

/-- No action has a kind of token that the vocabulary lacks. -/
theorem kind_ne_of_table_eq_nil {kind : Token.Kind} (hk : v.table kind = [])
    (h : v.decode action = .ok t) : t.kind ≠ kind := by
  rintro rfl
  have hmem := mem_table_of_decode h
  rw [hk] at hmem
  cases hmem

end Vocabulary

/-! ## Stacks -/

namespace Expr.Stack

variable {s s' : Stack} {t : Token} {ts : List Token}

/-- A delta time on top has been read, and lies on a featured expression. -/
def Windowed (ts : List Token) (s : Stack) : Prop :=
  ∀ days r, s = .deltaTime days :: r → .deltaTime days ∈ ts ∧ admitsDeltaTime r = true

theorem AcceptsAll.windowed (h : AcceptsAll [] ts s) : Windowed ts s := by
  have h₀ : Windowed [] [] := fun days r h => by cases h
  refine h.invariant (P := Windowed) (fun {us s t s'} _ hm => ?_) h₀
  intro days r hs
  rcases hm.top with ⟨x, r', rfl⟩ | ⟨days', x, r', rfl, rfl, hx⟩
  · cases hs
  · cases hs
    exact ⟨by simp, hx⟩

theorem kind_of_permits_nil (h : (legality []).permits t = true) :
    t.kind = .feature ∨ t.kind = .constant := by
  rcases t with (op | op | op | op) | f | days | c | _
  case feature => exact .inl rfl
  case constant => exact .inr rfl
  all_goals cases h

theorem kind_of_permits_constant {c : Binary64}
    (h : (legality [.expr (.constant c)]).permits t = true) : t.kind = .feature := by
  rcases t with (op | op | op | op) | f | days | c' | _
  case feature => rfl
  all_goals cases h

theorem category_of_permits_window {days : UInt32} {f : Feature}
    (h : (legality [.deltaTime days, .expr (.feature f)]).permits t = true) :
    ∃ op : Operator, t = .operator op ∧ op.category = .rolling := by
  rcases t with (op | op | op | op) | f | days | c | _
  case operator.rolling => exact ⟨.rolling op, rfl, rfl⟩
  all_goals cases h

end Expr.Stack

namespace Composition

open Environment

variable {score : Scorer σ} {maxLength : Nat} {v : Vocabulary} {capacity : Nat}
  {rewardPerStep : Binary64} {e : Episode (Composition σ)} {action : Int} {t : Token}

/-! ## An action for every state -/

section Sustained

/-- After a delta time a rolling operator is permitted, after anything else a feature. -/
theorem exists_permits (hv : v.Sustaining) {ts : List Token} {s : Expr.Stack}
    (hs : s.Windowed ts) (hts : ∀ t ∈ ts, ∃ action, v.decode action = .ok t) :
    ∃ (id : Nat) (t : Token), v.decode id = .ok t ∧ s.legality.permits t = true := by
  obtain ⟨hf, hw⟩ := hv
  -- behind a delta time only an operator goes on; anywhere else a feature does
  by_cases htop : ∃ days r, s = .deltaTime days :: r
  · obtain ⟨days, r, rfl⟩ := htop
    obtain ⟨hmem, hr⟩ := hs days r rfl
    obtain ⟨action, hd⟩ := hts _ hmem
    have hne : v.deltaTimes ≠ [] := by
      intro hnil
      have hnil : v.table .deltaTime = [] := by rw [Vocabulary.table, hnil, List.map_nil]
      exact Vocabulary.kind_ne_of_table_eq_nil hnil hd rfl
    obtain ⟨op, hop, hcat⟩ := hw.resolve_left hne
    have hmem : Token.operator op ∈ v.table .operator := List.mem_map_of_mem hop
    obtain ⟨id, hid⟩ := Vocabulary.exists_decode_of_mem_table hmem
    refine ⟨id, _, hid, ?_⟩
    obtain ⟨x, r, rfl, hx⟩ := Expr.Stack.admitsDeltaTime_iff.mp hr
    rw [Expr.Stack.permits_legality (by simp), Expr.Stack.admits, hcat]
    exact hx
  · obtain ⟨f, hf⟩ := List.exists_mem_of_ne_nil _ hf
    have hmem : Token.feature f ∈ v.table .feature := List.mem_map_of_mem hf
    obtain ⟨id, hid⟩ := Vocabulary.exists_decode_of_mem_table hmem
    refine ⟨id, _, hid, ?_⟩
    rw [Expr.Stack.permits_legality (by simp), Expr.Stack.admits]
    rcases s with _ | ⟨x | days, r⟩
    · rfl
    · rfl
    · exact absurd ⟨days, r, rfl⟩ htop

theorem exists_isAllowed (hv : v.Sustaining) {c₀ : Composition σ} {calls : List Call} :
    let env := environment score maxLength v capacity rewardPerStep
    let e := env.after (env.fresh c₀) calls
    e.phase = .active → ∃ id, (env.mask e).isAllowed id = true := by
  intro env e ha
  obtain ⟨h, hs, he, -⟩ := exists_moves env c₀ calls
  have he' : e = h.episode env := he
  rw [he'] at ha ⊢
  have ha' : h.phase = .active := ha
  have hf : h.phase ≠ .fresh := by simp [ha']
  obtain ⟨id, t, hid, hp⟩ := exists_permits hv (acceptsAll_of_moves hs hf).windowed
    fun t ht => (Paired.moves hs hf).exists_decode_of_active ha' ht
  refine ⟨id, ?_⟩
  have hm : (env.mask (h.episode env)).isAllowed (id : Int).toNat = true :=
    (isAllowed_mask_iff hid).mpr hp
  rwa [Int.toNat_natCast] at hm

end Sustained

/-! ## States without an action -/

section Stuck

/-- What the stack takes an agent can play, as far as there is room. -/
theorem Underway.exists_guided {ts : List Token} {s₀ s : Expr.Stack} (hu : Underway e)
    (h₀ : e.state.stack = s₀) (hs : s₀.AcceptsAll ts s) (hv : ∀ t ∈ ts, ∃ id : Nat, v.decode id = .ok t)
    (hshort : e.filled + ts.length < maxLength) (hroom : e.filled + ts.length ≤ capacity) :
    let env := environment score maxLength v capacity rewardPerStep
    ∃ actions : List Int, actions.length = ts.length ∧
      Guided env e (actions.map .step) ∧ Underway (env.after e (actions.map .step)) ∧
      (env.after e (actions.map .step)).state.stack = s := by
  intro env
  -- each token of the run is accepted where it comes, so the mask allows its id there
  induction hs generalizing e with
  | nil => exact ⟨[], rfl, trivial, hu, h₀⟩
  | @cons s₀ s' s t ts hm _ ih =>
    rw [List.length_cons] at hshort hroom
    obtain ⟨id, hid⟩ := hv t List.mem_cons_self
    have hne : t ≠ .terminator := by
      rintro rfl
      cases hm
    rw [← h₀] at hm
    have he : ¬ Ends maxLength e.state t := by
      rw [hu.ends_iff hne]
      omega
    have hallowed : (env.mask e).isAllowed (id : Int).toNat = true :=
      (isAllowed_iff_admits hid hne).mpr hm.admits
    obtain ⟨-, hu', hf, hstack⟩ : _ ∧ Underway (env.call e (.step id)).1 ∧
        (env.call e (.step id)).1.filled = e.filled + 1 ∧
        (env.call e (.step id)).1.state.stack = Expr.Stack.place t e.state.stack :=
      hu.call_of_admits hid he hm.admits (by omega)
    obtain ⟨actions, hlen, hg, hu'', hs''⟩ := ih hu' (hstack.trans hm.eq_place.symm)
      (fun t ht => hv t (List.mem_cons_of_mem _ ht)) (by omega) (by omega)
    refine ⟨id :: actions, ?_, ⟨fun _ => ⟨Int.natCast_nonneg id, hallowed⟩, hg⟩, hu'', hs''⟩
    rw [List.length_cons, List.length_cons, hlen]

/-- A vocabulary with a gap lets the stack come to a state in which none of its tokens is
permitted. -/
theorem exists_stuck (hv : ¬ v.Sustaining) : ∃ (ts : List Token) (s : Expr.Stack),
    ts.length ≤ 2 ∧ Expr.Stack.AcceptsAll [] ts s ∧
      (∀ t ∈ ts, ∃ id : Nat, v.decode id = .ok t) ∧
      ∀ action t, v.decode action = .ok t → ¬ s.legality.permits t = true := by
  by_cases hf : v.features = []
  · have hf : v.table .feature = [] := by rw [Vocabulary.table, hf, List.map_nil]
    by_cases hc : v.constants = []
    · -- nothing begins an expression
      have hc : v.table .constant = [] := by rw [Vocabulary.table, hc, List.map_nil]
      refine ⟨[], [], by simp, .nil, by simp, fun action t ht hp => ?_⟩
      rcases Expr.Stack.kind_of_permits_nil hp with hk | hk
      · exact Vocabulary.kind_ne_of_table_eq_nil hf ht hk
      · exact Vocabulary.kind_ne_of_table_eq_nil hc ht hk
    · -- nothing follows a constant
      obtain ⟨c, hc⟩ := List.exists_mem_of_ne_nil _ hc
      have hmem : Token.constant c ∈ v.table .constant := List.mem_map_of_mem hc
      refine ⟨[.constant c], [.expr (.constant c)], by simp, .cons (.constant c rfl) .nil, ?_, ?_⟩
      · intro t ht
        rw [List.mem_singleton.mp ht]
        exact Vocabulary.exists_decode_of_mem_table hmem
      · intro action t ht hp
        exact Vocabulary.kind_ne_of_table_eq_nil hf ht (Expr.Stack.kind_of_permits_constant hp)
  · -- nothing follows a delta time
    obtain ⟨hd, hop⟩ : v.deltaTimes ≠ [] ∧ ¬ ∃ op ∈ v.operators, op.category = .rolling := by
      rw [← not_or]
      exact fun h => hv ⟨hf, h⟩
    obtain ⟨f, hf⟩ := List.exists_mem_of_ne_nil _ hf
    obtain ⟨days, hd⟩ := List.exists_mem_of_ne_nil _ hd
    have hmem : Token.feature f ∈ v.table .feature := List.mem_map_of_mem hf
    have hmem' : Token.deltaTime days ∈ v.table .deltaTime := List.mem_map_of_mem hd
    refine ⟨[.feature f, .deltaTime days], [.deltaTime days, .expr (.feature f)], by simp,
      .cons (.feature f rfl) (.cons (.deltaTime days rfl) .nil), ?_, ?_⟩
    · intro t ht
      rcases List.mem_cons.mp ht with rfl | ht
      · exact Vocabulary.exists_decode_of_mem_table hmem
      · rw [List.mem_singleton.mp ht]
        exact Vocabulary.exists_decode_of_mem_table hmem'
    · intro action t ht hp
      obtain ⟨op, rfl, hcat⟩ := Expr.Stack.category_of_permits_window hp
      exact hop ⟨op, Vocabulary.mem_operators_of_decode ht, hcat⟩

theorem isAllowed_eq_false {e : Episode (Composition σ)}
    (h : ∀ action t, v.decode action = .ok t → ¬ e.state.stack.legality.permits t = true)
    (id : Nat) :
    ((environment score maxLength v capacity rewardPerStep).mask e).isAllowed id = false := by
  rw [← Bool.not_eq_true]
  intro hm
  rw [← Int.toNat_natCast id] at hm
  obtain ⟨t, ht⟩ := exists_decode_of_isAllowed (Int.natCast_nonneg id) hm
  exact h id t ht ((isAllowed_mask_iff ht).mp hm)

end Stuck

/-! ## Main statement -/

section Main

/-- The mask of an active episode is never empty, if the vocabulary has a feature and a rolling
operator for its delta times.  If not, and if there is room for two tokens, two allowed actions or
fewer lead from any reset to an active episode with an empty mask. -/
theorem choice_never_runs_out (score : Scorer σ) (maxLength : Nat) (v : Vocabulary)
    (capacity : Nat) (rewardPerStep : Binary64) :
    let env := environment score maxLength v capacity rewardPerStep
    (v.Sustaining → ∀ c₀ calls,
      let e := env.after (env.fresh c₀) calls
      e.phase = .active → ∃ id, (env.mask e).isAllowed id = true) ∧
    (¬ v.Sustaining → 3 ≤ maxLength → 2 ≤ capacity → ∀ e₀,
      ∃ actions : List Int, actions.length ≤ 2 ∧
        Guided env (env.reset e₀) (actions.map .step) ∧
        let e := env.after (env.reset e₀) (actions.map .step)
        e.phase = .active ∧ ∀ id, (env.mask e).isAllowed id = false) := by
  intro env
  refine ⟨fun hv c₀ calls => exists_isAllowed hv, fun hv hl hc e₀ => ?_⟩
  obtain ⟨ts, s, hlen, hs, hts, hstuck⟩ := exists_stuck hv
  have hu : Underway (env.reset e₀) := underway_reset e₀
  have h₀ : (env.reset e₀).filled = 0 := rfl
  have hshort : (env.reset e₀).filled + ts.length < maxLength := by omega
  have hroom : (env.reset e₀).filled + ts.length ≤ capacity := by omega
  obtain ⟨actions, hlen', hg, hu', hs'⟩ := hu.exists_guided rfl hs hts hshort hroom
  rw [← hs'] at hstuck
  exact ⟨actions, by omega, hg, hu'.active, isAllowed_eq_false hstuck⟩

/-- After a feature and a delta time the standard vocabulary goes on; an operator on two series
does not help the other one. -/
theorem choice_never_runs_out_deltaTime :
    let score : Scorer Unit := fun _ _ => ((), 0.0)
    let env := environment score 5 .standard 4 0.0
    let env' := environment score 3 .pairsOnly 2 0.0
    let e := env.after (env.fresh (start ())) [.reset, .step 24, .step 30]
    e.phase = .active ∧ (∃ id, (env.mask e).isAllowed id = true) ∧
      ∃ actions : List Int, actions.length ≤ 2 ∧
        Guided env' (env'.reset e) (actions.map .step) ∧
        (env'.after (env'.reset e) (actions.map .step)).phase = .active ∧
        ∀ id, (env'.mask (env'.after (env'.reset e) (actions.map .step))).isAllowed id = false := by
  intro score env env' e
  have ha : e.phase = .active := rfl
  obtain ⟨hgo, -⟩ := choice_never_runs_out score 5 .standard 4 0.0
  obtain ⟨-, hstop⟩ := choice_never_runs_out score 3 .pairsOnly 2 0.0
  refine ⟨ha, hgo Vocabulary.sustaining_standard (start ()) _ ha, ?_⟩
  exact hstop Vocabulary.not_sustaining_pairsOnly (by decide) (by decide) e

end Main

end Composition

end FactorSearch
