import FactorSearch.Proofs.Lockstep

/-!
# A reset forgets

Besides the calls that move it, an environment can be asked for its mask, its observation, its
counter and its phase.  Main statement: after a reset all replies are the same, whatever came before
it (`reset_forgets`).
-/

namespace FactorSearch

variable {σ σ' ι : Type}

namespace Environment

/-- What can be asked of an environment. -/
inductive Query
  | call (c : Call)
  | mask
  | observation
  | filled
  | phase
deriving DecidableEq

inductive Reply (ι : Type)
  | answer (a : Answer ι)
  | mask (m : Mask)
  | observation (observation : List ActionId)
  | filled (n : Nat)
  | phase (p : Phase)

section Queries

variable (env : Environment σ ι)

/-- Only calls move an episode. -/
def ask (e : Episode σ) : Query → Episode σ × Reply ι
  | .call c => ((env.call e c).1, .answer (env.call e c).2)
  | .mask => (e, .mask (env.mask e))
  | .observation => (e, .observation e.observation)
  | .filled => (e, .filled e.filled)
  | .phase => (e, .phase e.phase)

/-- The episode after the queries. -/
def afterAll : Episode σ → List Query → Episode σ
  | e, [] => e
  | e, q :: qs => afterAll (env.ask e q).1 qs

def replies : Episode σ → List Query → List (Reply ι)
  | _, [] => []
  | e, q :: qs => (env.ask e q).2 :: replies (env.ask e q).1 qs

variable {env} {g : Grammar σ' ι} {R : σ → σ' → Prop} {e : Episode σ} {e' : Episode σ'}

theorem Alike.ask (hg : env.grammar.Lockstep g R) (he : Alike R e e') (q : Query) :
    Alike R (env.ask e q).1 ((env.withGrammar g).ask e' q).1 ∧
      (env.ask e q).2 = ((env.withGrammar g).ask e' q).2 := by
  cases q with
  | call c =>
    obtain ⟨halike, hanswer⟩ := he.call hg c
    exact ⟨halike, congrArg Reply.answer hanswer⟩
  | mask => exact ⟨he, congrArg Reply.mask (he.mask_eq hg)⟩
  | observation => exact ⟨he, congrArg Reply.observation he.observation⟩
  | filled => exact ⟨he, congrArg Reply.filled he.filled⟩
  | phase => exact ⟨he, congrArg Reply.phase he.phase⟩

/-- Alike episodes over grammars in lockstep reply alike. -/
theorem Alike.replies_eq (hg : env.grammar.Lockstep g R) (he : Alike R e e') (qs : List Query) :
    env.replies e qs = (env.withGrammar g).replies e' qs := by
  induction qs generalizing e e' with
  | nil => rfl
  | cons q qs ih =>
    obtain ⟨halike, hreply⟩ := he.ask hg q
    rw [replies, replies, hreply, ih halike]

end Queries

end Environment

namespace Composition

open Environment

/-- The rewards of a scorer depend on the tokens and on nothing it remembers. -/
def Values (score : Scorer σ) (value : List Token → Binary64) : Prop :=
  ∀ m ts, (score m ts).2 = value ts

/-- After a reset an environment replies as any other one with the same settings does, if the
scorers give the same value to the same tokens.  Neither what the two have been asked before nor the
states in which they got their grammars can be seen. -/
theorem reset_forgets {score : Scorer σ} {score' : Scorer σ'} {value : List Token → Binary64}
    (hs : Values score value) (hs' : Values score' value) (maxLength : Nat) (v : Vocabulary)
    (capacity : Nat) (rewardPerStep : Binary64) (c₀ : Composition σ) (c₀' : Composition σ')
    (past past' queries : List Query) :
    let env := environment score maxLength v capacity rewardPerStep
    let env' := environment score' maxLength v capacity rewardPerStep
    let e := env.afterAll (env.fresh c₀) past
    let e' := env'.afterAll (env'.fresh c₀') past'
    env.replies (env.reset e) queries = env'.replies (env'.reset e') queries := by
  intro env env' e e'
  -- nothing is asked of the two memories, since scores are a matter of the tokens alone
  have hg : env.grammar.Lockstep (grammar score' maxLength) (Akin fun _ _ => True) :=
    lockstep_grammar (fun m m' ts _ => ⟨trivial, (hs m ts).trans (hs' m' ts).symm⟩) maxLength
  have he : Alike (Akin fun _ _ => True) (env.reset e) (env'.reset e') :=
    alike_reset ⟨rfl, rfl, trivial⟩
  exact he.replies_eq hg queries

/-- The one has run into a full observation and its scorer counts; the other got its grammar in the
middle of an expression and was never reset. -/
theorem reset_forgets_overflow :
    let value : List Token → Binary64 := fun ts => .ofInt ts.length
    let counting : Scorer Nat := fun n ts => (n + 1, value ts)
    let plain : Scorer Unit := fun _ ts => ((), value ts)
    let env := environment counting 9 .standard 2 0.5
    let env' := environment plain 9 .standard 2 0.5
    let past : List Query := [.call .reset, .call (.step 24), .call (.step 23), .call (.step 24)]
    let e := env.afterAll (env.fresh (start 0)) past
    let e' := env'.fresh ⟨[.deltaTime 10], [.terminator], ()⟩
    let queries : List Query := [.mask, .call (.step 24), .observation, .call (.step 99),
      .call (.step 48), .filled, .phase]
    Values counting value ∧ Values plain value ∧ e.phase = .terminal ∧ e.state.tokens.length = 3 ∧
      env.replies (env.reset e) queries = env'.replies (env'.reset e') queries := by
  intro value counting plain env env' past e e' queries
  have hs : Values counting value := fun _ _ => rfl
  have hs' : Values plain value := fun _ _ => rfl
  exact ⟨hs, hs', rfl, rfl,
    reset_forgets hs hs' 9 .standard 2 0.5 (start 0) ⟨[.deltaTime 10], [.terminator], ()⟩ past []
      queries⟩

end Composition

end FactorSearch
